import Mathlib.Algebra.Order.Group.Nat
import Mathlib.Logic.Function.Basic
import Mymuduo.ConnSpec
import Mymuduo.Lib.Transition

/-!
# Mymuduo.StateRace — the loads and stores of `state` by several threads

`state` is atomic, and every load and every store is one step here.  The loop thread runs
`connectEstablished`, `handleClose`, `connectDestroyed`, `handleWrite`, `sendInLoop`, and `shutdown` and
`send` from its callbacks; any number of other threads (the type `T`) run `shutdown` and `send`.  A
test that is followed by a store leaves the thread in between (`LoopAt`, `CallerAt`).

`state_of_calls` ties the steps to the member functions of `TcpConnection`: run without interruption,
the steps of a function have its effect on `state`.
-/

namespace Mymuduo

open Lib

namespace StateE

/-- The order in which the states are meant to be passed. -/
def rank : StateE → ℕ
  | .kConnecting => 0
  | .kConnected => 1
  | .kDisconnecting => 2
  | .kDisconnected => 3

theorem rank_le_three (s : StateE) : s.rank ≤ 3 := by
  cases s <;> decide

end StateE

/-- Where the loop thread is. -/
inductive LoopAt
  | unestablished
  | idle
  | inShutdown
  | inConnectDestroyed
  deriving DecidableEq, Repr

/-- Where another thread is. -/
inductive CallerAt
  | outside
  | inShutdown
  deriving DecidableEq, Repr

structure StateRace (T : Type*) where
  state : StateE
  loop : LoopAt
  caller : T → CallerAt

namespace StateRace

variable {T : Type*}

/-- The `load`s are tests that store nothing; the loop's one stands for `handleWrite`, `sendInLoop`
and `send`. -/
inductive Label (T : Type*)
  | connectEstablished
  | handleClose
  | connectDestroyedLoad
  | connectDestroyedStore
  | ownShutdownLoad
  | ownShutdownStore
  | ownLoad
  | shutdownLoad (t : T)
  | shutdownStore (t : T)
  | sendLoad (t : T)

variable [DecidableEq T]

def step (s : StateRace T) : Label T → Option (StateRace T)
  | .connectEstablished =>
    if s.loop = .unestablished then some { s with state := .kConnected, loop := .idle } else none
  | .handleClose => if s.loop = .idle then some { s with state := .kDisconnected } else none
  | .connectDestroyedLoad =>
    if s.loop = .idle then
      some (if s.state = .kConnected then { s with loop := .inConnectDestroyed } else s)
    else none
  | .connectDestroyedStore =>
    if s.loop = .inConnectDestroyed then
      some { s with state := .kDisconnected, loop := .idle }
    else none
  | .ownShutdownLoad =>
    if s.loop = .idle then
      some (if s.state = .kConnected then { s with loop := .inShutdown } else s)
    else none
  | .ownShutdownStore =>
    if s.loop = .inShutdown then some { s with state := .kDisconnecting, loop := .idle } else none
  | .ownLoad => if s.loop = .idle then some s else none
  | .shutdownLoad t =>
    if s.caller t = .outside then
      some (if s.state = .kConnected then
        { s with caller := Function.update s.caller t .inShutdown } else s)
    else none
  | .shutdownStore t =>
    if s.caller t = .inShutdown then
      some { s with state := .kDisconnecting, caller := Function.update s.caller t .outside }
    else none
  | .sendLoad t => if s.caller t = .outside then some s else none

/-- A connection under construction. -/
def new : StateRace T := ⟨.kConnecting, .unestablished, fun _ => .outside⟩

def sys : Sys (StateRace T) (Label T) where
  init s := s = new
  step := step

/-! ### Uninterrupted calls -/

/-- The steps of `shutdown` in the thread `t`. -/
def shutdownSteps (t : T) (s : StateRace T) : List (Label T) :=
  if s.state = .kConnected then [.shutdownLoad t, .shutdownStore t] else [.shutdownLoad t]

/-- The steps of `connectDestroyed`. -/
def connectDestroyedSteps (s : StateRace T) : List (Label T) :=
  if s.state = .kConnected then [.connectDestroyedLoad, .connectDestroyedStore]
  else [.connectDestroyedLoad]

/-- The steps of a member function, with nothing in between, have its effect on `state`. -/
theorem state_of_calls (s : StateRace T) (io : Io) (hs : s.state = io.conn.state) (hl : s.loop = .idle)
    (t : T) (ht : s.caller t = .outside) (acts : List UserAct) :
    (sys.exec s [.handleClose]).map state = some (io.handleClose acts).conn.state ∧
    (sys.exec s (s.shutdownSteps t)).map state = some io.shutdown.conn.state ∧
    (sys.exec s s.connectDestroyedSteps).map state = some (io.connectDestroyed acts).conn.state := by
  refine ⟨?_, ?_, ?_⟩
  · obtain ⟨b, hb⟩ := Io.handleClose_eq acts io
    simp [sys, Sys.exec, step, hl, hb, Io.closed]
  · unfold shutdownSteps Io.shutdown
    by_cases hc : io.conn.state = .kConnected
    · simp [hs, hc, sys, Sys.exec, step, ht]
    · simp [hs, hc, sys, Sys.exec, step, ht]
  · obtain ⟨b, hb⟩ := Io.connectDestroyed_eq acts io
    unfold connectDestroyedSteps
    by_cases hc : io.conn.state = .kConnected
    · simp [hs, hc, hb, sys, Sys.exec, step, hl, Io.closed]
    · simp [hs, hc, hb, sys, Sys.exec, step, hl]

/-! ### The race -/

/-- `state` does not move backwards. -/
def Forward (s : StateRace T) (_ : Label T) (s' : StateRace T) : Prop :=
  s.state.rank ≤ s'.state.rank

instance (s s' : StateRace T) (l : Label T) : Decidable (Forward s l s') :=
  inferInstanceAs (Decidable (_ ≤ _))

/-- No `shutdown` of another thread stores `kDisconnecting` into a connection that has been closed
since the test. -/
def StoreInTime (s : StateRace T) (l : Label T) (_ : StateRace T) : Prop :=
  ∀ t, l = .shutdownStore t → s.state ≠ .kDisconnected

/-- What the threads in between a test and a store still know of `state`. -/
structure RaceInv (s : StateRace T) : Prop where
  fresh : s.loop = .unestablished ↔ s.state = .kConnecting
  caller : ∀ t, s.caller t = .inShutdown → s.state ≠ .kConnecting
  own : s.loop = .inShutdown → s.state ≠ .kDisconnected

omit [DecidableEq T] in
theorem raceInv_new : (new : StateRace T).RaceInv :=
  ⟨by simp [new], fun t h => by simp [new] at h, fun h => by simp [new] at h⟩

theorem RaceInv.step {s s' : StateRace T} {l : Label T} (h : s.RaceInv)
    (hst : sys.step s l = some s') : s'.RaceInv := by
  obtain ⟨hf, hc, ho⟩ := h
  cases l with
  | connectEstablished =>
    obtain ⟨hg, rfl⟩ := of_guard hst
    exact ⟨by simp, fun t ht => by simp, fun hl => by simp at hl⟩
  | handleClose =>
    obtain ⟨hg, rfl⟩ := of_guard hst
    exact ⟨by simp [hg], fun t ht => by simp, fun hl => by simp [hg] at hl⟩
  | connectDestroyedStore =>
    obtain ⟨hg, rfl⟩ := of_guard hst
    exact ⟨by simp, fun t ht => by simp, fun hl => by simp at hl⟩
  | ownShutdownStore =>
    obtain ⟨hg, rfl⟩ := of_guard hst
    exact ⟨by simp, fun t ht => by simp, fun hl => by simp at hl⟩
  | connectDestroyedLoad =>
    obtain ⟨hg, rfl⟩ := of_guard hst
    split
    next hk => exact ⟨by simp [hk], fun t ht => by simp [hk], fun hl => by simp at hl⟩
    next => exact ⟨hf, hc, ho⟩
  | ownShutdownLoad =>
    obtain ⟨hg, rfl⟩ := of_guard hst
    split
    next hk => exact ⟨by simp [hk], fun t ht => by simp [hk], fun _ => by simp [hk]⟩
    next => exact ⟨hf, hc, ho⟩
  | shutdownLoad t =>
    obtain ⟨hg, rfl⟩ := of_guard hst
    split
    next hk => exact ⟨hf, fun t ht => by simp [hk], ho⟩
    next => exact ⟨hf, hc, ho⟩
  | shutdownStore t =>
    obtain ⟨hg, rfl⟩ := of_guard hst
    refine ⟨?_, fun t ht => by simp, fun _ => by simp⟩
    -- the thread has passed its test, so the connection is established
    simp [hf.not.mpr (hc t hg)]
  | ownLoad =>
    obtain ⟨hg, rfl⟩ := of_guard hst
    exact ⟨hf, hc, ho⟩
  | sendLoad t =>
    obtain ⟨hg, rfl⟩ := of_guard hst
    exact ⟨hf, hc, ho⟩

/-- Of all the loads and stores only the store of a foreign `shutdown` can move `state` back, and it
does so exactly if it comes after the close. -/
theorem forward_iff {s s' : StateRace T} {l : Label T} (h : s.RaceInv)
    (hst : sys.step s l = some s') : Forward s l s' ↔ StoreInTime s l s' := by
  obtain ⟨hf, hc, ho⟩ := h
  have hin : ∀ {l : Label T}, (∀ t, l ≠ .shutdownStore t) → StoreInTime s l s' :=
    fun hl t he => absurd he (hl t)
  unfold Forward
  cases l with
  | shutdownStore t =>
    obtain ⟨hg, rfl⟩ := of_guard hst
    constructor
    · rintro hle _ - hd
      simp [hd, StateE.rank] at hle
    · intro hin
      have hd := hin t rfl
      cases hs : s.state <;> simp_all [StateE.rank]
  | connectEstablished =>
    obtain ⟨hg, rfl⟩ := of_guard hst
    refine iff_of_true ?_ (hin (by simp))
    rw [hf.mp hg]
    exact Nat.zero_le _
  | handleClose | connectDestroyedStore =>
    obtain ⟨hg, rfl⟩ := of_guard hst
    exact iff_of_true (StateE.rank_le_three _) (hin (by simp))
  | ownShutdownStore =>
    obtain ⟨hg, rfl⟩ := of_guard hst
    -- no other step of the loop thread comes between its own test and store
    refine iff_of_true ?_ (hin (by simp))
    have hd := ho hg
    cases hs : s.state <;> simp_all [StateE.rank]
  | connectDestroyedLoad | ownShutdownLoad | shutdownLoad =>
    obtain ⟨hg, rfl⟩ := of_guard hst
    refine iff_of_true ?_ (hin (by simp))
    split <;> exact Nat.le_refl _
  | ownLoad | sendLoad =>
    obtain ⟨hg, rfl⟩ := of_guard hst
    exact iff_of_true (Nat.le_refl _) (hin (by simp))

/-- **The connection state moves forward** in every step of a run exactly if no `shutdown` of another
thread stores `kDisconnecting` after the close that came since its test. -/
theorem state_forward (ls : List (Label T)) :
    sys.Along Forward (new : StateRace T) ls ↔ sys.Along StoreInTime new ls :=
  Sys.along_congr (I := RaceInv) (fun _ _ _ h hst _ => h.step hst) (fun _ _ _ h hst => forward_iff h hst)
    ls new raceInv_new

/-- Thread `1` tests, the peer closes, thread `1` stores: `kDisconnected` becomes
`kDisconnecting`. -/
theorem state_forward_back :
    ¬ ∀ ls : List (Label ℕ), sys.Along Forward (new : StateRace ℕ) ls := by
  intro h
  have h1 := h [.connectEstablished, .shutdownLoad 1, .handleClose, .shutdownStore 1]
  obtain ⟨-, h2⟩ := h1 _ rfl
  obtain ⟨-, h3⟩ := h2 _ rfl
  obtain ⟨-, h4⟩ := h3 _ rfl
  obtain ⟨h5, -⟩ := h4 _ rfl
  exact absurd h5 (by decide)

end StateRace

end Mymuduo
