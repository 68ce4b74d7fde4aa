import Mathlib.Data.Int.CardIntervalMod
import Mymuduo.ServerPlaces

/-!
# Mymuduo.ServerBalance — which loop gets a connection (`EventLoopThreadPool::getNextLoop`)

`next_` goes round the loops of the pool.  The connections therefore go to them in turn, whatever else the
server does, and no loop has ever been given more than one connection more than another.
-/

namespace Mymuduo

open Lib

namespace TcpServer

variable (cfg : Config) {s s' : TcpServer} {l : LoopId} {c : ConnId}

/-- The step accepts nobody; it may take entries out of `connections`. -/
structure Keeps (s s' : TcpServer) : Prop where
  accepted : s'.accepted = s.accepted
  nextLoop : s'.nextLoop = s.nextLoop
  nextConnId : s'.nextConnId = s.nextConnId
  loopOf : s'.loopOf = s.loopOf
  nameOf : s'.nameOf = s.nameOf
  entry : ∀ nm c, s'.connections nm = some c → s.connections nm = some c

/-- The step accepts a connection and enters it. -/
structure Accepts (s s' : TcpServer) : Prop where
  accepted : s'.accepted = s.accepted + 1
  nextLoop : s'.nextLoop = (s.getNextLoop cfg).2
  nextConnId : s'.nextConnId = incrInt s.nextConnId
  loopOf : s'.loopOf = Function.update s.loopOf s.accepted (s.getNextLoop cfg).1
  nameOf : s'.nameOf = Function.update s.nameOf s.accepted (cfg.connName s.nextConnId)
  connections : s'.connections =
    Function.update s.connections (cfg.connName s.nextConnId) (some s.accepted)
  establishing : s'.established s.accepted = true ∨
    .connectEstablished s.accepted ∈ (s'.queue (s'.loopOf s.accepted)).unrun

theorem Keeps.refl (s : TcpServer) : Keeps s s := ⟨rfl, rfl, rfl, rfl, rfl, fun _ _ h => h⟩

theorem keeps_removeConnectionInLoop (s : TcpServer) (c : ConnId) :
    Keeps s (s.removeConnectionInLoop c) where
  accepted := rfl
  nextLoop := rfl
  nextConnId := rfl
  loopOf := rfl
  nameOf := rfl
  entry nm c' h := by
    change Function.update s.connections (s.nameOf c) none nm = some c' at h
    by_cases hn : nm = s.nameOf c
    · rw [hn, Function.update_self] at h
      cases h
    · rwa [Function.update_of_ne hn] at h

theorem accepts_newConnection (s : TcpServer) (fd : ℕ) (highWater : Option ℕ) (acts : List UserAct) :
    Accepts cfg s (s.newConnection cfg fd highWater acts) := by
  unfold newConnection
  simp only
  split
  · exact ⟨rfl, rfl, rfl, rfl, rfl, rfl, .inl (Function.update_self ..)⟩
  · refine ⟨rfl, rfl, rfl, rfl, rfl, rfl, .inr ?_⟩
    have hloop : (s.createConnection cfg fd highWater).loopOf s.accepted = (s.getNextLoop cfg).1 :=
      Function.update_self ..
    change Functor.connectEstablished s.accepted ∈
      (((s.createConnection cfg fd highWater).push (s.getNextLoop cfg).1
        (.connectEstablished s.accepted)).queue ((s.createConnection cfg fd highWater).loopOf s.accepted)).unrun
    rw [hloop, push, queue_setQueue]
    exact TaskQueue.mem_unrun_push.mpr (.inr rfl)

variable {cfg}

theorem keeps_or_accepts {lab : Label} (hst : step cfg s lab = some s') :
    Keeps s s' ∨ Accepts cfg s s' := by
  cases move_of_step hst with
  | poll l reports =>
    obtain ⟨r, hr⟩ := fillActiveChannels_eq s l reports
    rw [hr]
    exact .inl { Keeps.refl s with }
  | dispatch l env ptr rest s' _ _ _ hev =>
    rcases handleEvent_cases hev with rfl | ⟨-, fd, highWater, -, -, rfl⟩ | ⟨c, -, -, -, rfl⟩
    · exact .inl { Keeps.refl s with }
    · have h := accepts_newConnection cfg (s.setActive l rest) fd highWater env.acts
      exact .inr { h with }
    · exact .inl { Keeps.refl s with }
  | react l c e rest =>
    cases e with
    | closeCallback =>
      simp only [TcpServer.react, removeConnection]
      split
      · exact .inl { keeps_removeConnectionInLoop (s.setReactions l rest) c with }
      · exact .inl { Keeps.refl s with }
    | _ => exact .inl { Keeps.refl s with }
  | runFunctor l env f rest =>
    cases f with
    | removeConnectionInLoop c => exact .inl { keeps_removeConnectionInLoop s c with }
    | _ => exact .inl { Keeps.refl s with }
  | _ => exact .inl { Keeps.refl s with }

/-! ### In turn -/

/-- The loop of the connection `c`: the base loop if there is no other, else the loops of the pool in
turn. -/
def ioLoop (cfg : Config) (c : ConnId) : LoopId :=
  if cfg.numThreads = 0 then 0 else c % cfg.numThreads + 1

structure InTurn (cfg : Config) (s : TcpServer) : Prop where
  next : 0 < cfg.numThreads → s.nextLoop = s.accepted % cfg.numThreads
  loop : ∀ c < s.accepted, s.loopOf c = ioLoop cfg c

theorem ioLoop_le (c : ConnId) : ioLoop cfg c ≤ cfg.numThreads := by
  unfold ioLoop
  split
  · exact Nat.zero_le _
  · exact Nat.mod_lt c (by omega)

/-- `loops_[next_]` is the loop whose turn it is, and `next_` goes on. -/
theorem InTurn.getNextLoop (h : InTurn cfg s) : (s.getNextLoop cfg).1 = ioLoop cfg s.accepted ∧
    (0 < cfg.numThreads → (s.getNextLoop cfg).2 = (s.accepted + 1) % cfg.numThreads) := by
  unfold TcpServer.getNextLoop ioLoop
  split
  next h0 => exact ⟨rfl, fun hn => absurd h0 (by omega)⟩
  next hn =>
    have hnext := h.next (by omega)
    refine ⟨congrArg (· + 1) hnext, fun _ => ?_⟩
    have hlt : s.nextLoop < cfg.numThreads := hnext ▸ Nat.mod_lt _ (by omega)
    rw [← Nat.mod_add_mod, ← hnext]
    split
    next hge =>
      have heq : s.nextLoop + 1 = cfg.numThreads := by omega
      rw [heq, Nat.mod_self]
    next hge => exact (Nat.mod_eq_of_lt (by omega)).symm

theorem InTurn.step (h : InTurn cfg s) {lab : Label} (hst : TcpServer.step cfg s lab = some s') :
    InTurn cfg s' := by
  rcases keeps_or_accepts hst with hk | ha
  · refine ⟨fun hn => ?_, fun c hc => ?_⟩
    · rw [hk.nextLoop, hk.accepted]
      exact h.next hn
    · rw [hk.loopOf]
      exact h.loop c (hk.accepted ▸ hc)
  · obtain ⟨hloop, hnext⟩ := h.getNextLoop
    refine ⟨fun hn => ?_, fun c hc => ?_⟩
    · rw [ha.nextLoop, ha.accepted]
      exact hnext hn
    · rw [ha.loopOf]
      by_cases hc' : c = s.accepted
      · rw [hc', Function.update_self]
        exact hloop
      · rw [Function.update_of_ne hc']
        rw [ha.accepted] at hc
        exact h.loop c (Nat.lt_of_le_of_ne (Nat.le_of_lt_succ hc) hc')

theorem InTurn.of_reach {C : TcpServer → Label → Prop} (h : (sys cfg).Reach C s) : InTurn cfg s := by
  refine h.invariant (fun _ hs => ?_) fun s lab _ hi _ hst => hi.step hst
  subst hs
  exact ⟨fun _ => (Nat.zero_mod _).symm, fun c hc => absurd hc (Nat.not_lt_zero c)⟩

/-! ### Loads -/

/-- How many connections the loop has been given. -/
def load (s : TcpServer) (l : LoopId) : ℕ := Nat.count (fun c => s.loopOf c = l) s.accepted

theorem InTurn.load (h : InTurn cfg s) (hn : 0 < cfg.numThreads) {i : ℕ} (hi : i < cfg.numThreads) :
    s.load (i + 1) = s.accepted / cfg.numThreads + if i < s.accepted % cfg.numThreads then 1 else 0 := by
  have hmod := Nat.count_modEq_card s.accepted hn i
  rw [Nat.mod_eq_of_lt hi] at hmod
  rw [← hmod]
  unfold TcpServer.load
  rw [Nat.count_eq_card_filter_range, Nat.count_eq_card_filter_range]
  refine congrArg Finset.card (Finset.filter_congr fun c hc => ?_)
  rw [h.loop c (Finset.mem_range.mp hc), ioLoop, if_neg (by omega), Nat.ModEq, Nat.mod_eq_of_lt hi]
  exact Nat.succ_inj

/-- **Connections are dealt out evenly.**  In every reachable state of a server with a pool, the base loop
has been given no connection, and of two loops of the pool none has been given more than one more. -/
theorem loads_even {C : TcpServer → Label → Prop} (h : (sys cfg).Reach C s) (hn : 0 < cfg.numThreads) :
    s.load 0 = 0 ∧ ∀ i < cfg.numThreads, ∀ j < cfg.numThreads, s.load (i + 1) ≤ s.load (j + 1) + 1 := by
  have hturn := InTurn.of_reach h
  refine ⟨?_, fun i hi j hj => ?_⟩
  · unfold TcpServer.load
    rw [Nat.count_eq_card_filter_range, Finset.card_eq_zero, Finset.filter_eq_empty_iff]
    intro c hc
    rw [hturn.loop c (Finset.mem_range.mp hc), ioLoop, if_neg (by omega)]
    exact Nat.succ_ne_zero _
  · rw [hturn.load hn hi, hturn.load hn hj]
    split <;> split <;> omega

/-- The base loop accepts a connection. -/
def accepting (fd : ℕ) : List Label :=
  [.poll 0 [(3, ⟨true, false, false, false, false⟩)], .dispatch 0 (dispatchEnv fd),
    .doPendingFunctors 0, .endFunctors 0]

/-- Three connections for two loops. -/
theorem loads_even_three : ∃ s, (sys { config with numThreads := 2 }).Reach (fun _ _ => True) s ∧
    s.accepted = 3 ∧ s.load 0 = 0 ∧
    ∀ i < 2, ∀ j < 2, s.load (i + 1) ≤ s.load (j + 1) + 1 := by
  obtain ⟨s, hr, hacc⟩ := Sys.Reach.exists_of_execIf (M := sys { config with numThreads := 2 })
    (s := start { config with numThreads := 2 }) (C := fun _ _ => True) (P := fun s => s.accepted = 3)
    (.init rfl) (accepting 7 ++ accepting 8 ++ accepting 9) (by decide +kernel)
  exact ⟨s, hr, hacc, loads_even hr Nat.zero_lt_two⟩

end TcpServer

end Mymuduo
