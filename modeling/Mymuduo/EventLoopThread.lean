import Mymuduo.QuitFunctors
import Mymuduo.Wakeup

/-!
# Mymuduo.EventLoopThread — a loop in a thread of its own (`EventLoopThread.cc`, `Thread.cc`)

Three kinds of threads: the one that runs `ThreadFunc` and with it the loop, the owner in
`~EventLoopThread`, and the threads of the type `T` that call `queueInLoop` and `quit` on the loop they
have from `startLoop()`.  `ThreadFunc` goes through

  `starting` → `constructed` (`EventLoop loop`, then `callback`) → `published` (`loop_` is set, and
  `loop()` runs) → `cleared` (`loop_ = nullptr`, under `mutex`) → `unlocked` → `returned` (the loop is
  destroyed, the thread can be joined).

The destructor reads `loop_` twice, both times without `mutex`: in its test and to call `quit()`, which
in turn is the store of `quit` and the write to the eventfd.  Its thread is the caller `none`.
-/

namespace Mymuduo

open Lib

/-! ### A loop that is told to quit -/

namespace EventLoop

variable {F T : Type*}

/-- The steps by which the loop's thread goes round in `loop()`, where `epoll_wait` returns only because
the eventfd is readable. -/
def Label.goesRound : Label F T → Bool
  | .testQuit | .pollReturn true | .handleRead | .beginFunctors | .swap | .runFunctor
  | .functorReturn | .endFunctors => true
  | _ => false

variable [DecidableEq T]

/-- Only `quit_ = false` takes `quit` back. -/
theorem quit_step {l l' : EventLoop F T} {lbl : Label F T} (hs : l.step lbl = some l')
    (hq : l.quit = true) (hpc : l.pc ≠ .entered) : l'.quit = true := by
  cases move_of_step hs with
  | foreignQuit | ownQuit => rfl
  | clearQuit h => exact absurd h hpc
  | ownQueueInLoop => simpa using hq
  | _ => exact hq

/-- The program counter over one step: calls leave it, and only `enter` enters `loop()`. -/
theorem pc_step {l l' : EventLoop F T} {lbl : Label F T} (hs : l.step lbl = some l')
    (hl : lbl ≠ .enter) : l'.pc = l.pc ∨ l'.pc.inLoop = true ∨ l'.pc = .exited := by
  cases move_of_step hs with
  | foreignPush | foreignQuit | foreignWakeup | ownQuit => exact .inl rfl
  | ownQueueInLoop => exact .inl (queueInLoop_pc ..)
  | enter => exact absurd rfl hl
  | testQuit =>
    simp only
    split
    · exact .inr (.inr rfl)
    · exact .inr (.inl rfl)
  | _ => exact .inr (.inl rfl)

section Leads

variable {l : EventLoop F T}

abbrev CanExit (l : EventLoop F T) : Prop :=
  sys.Leads (fun lbl : Label F T => lbl.goesRound = true) (fun l => l.pc = .exited) l

theorem canExit_test (hq : l.quit = true) (hpc : l.pc = .test) : l.CanExit := by
  refine .step (l := .testQuit) rfl (if_pos hpc) (.here ?_)
  simp [hq]

theorem canExit_run (hq : l.quit = true) (hpc : l.pc = .run) : l.CanExit := by
  -- by induction on the rest of the batch
  generalize hr : l.queue.rest = rest
  induction rest generalizing l with
  | nil => exact .step (l := .endFunctors) rfl (if_pos ⟨hpc, hr⟩) (canExit_test hq rfl)
  | cons f rest ih =>
    have h1 : l.step .runFunctor = some
        { l with queue := l.queue.advance, ran := l.ran ++ [f], pc := .running } := by
      simp [step, hpc, hr]
    refine .step (l := .runFunctor) rfl h1 (.step (l := .functorReturn) rfl rfl ?_)
    exact ih hq rfl (by simp [hr])

theorem canExit_swap (hq : l.quit = true) (hpc : l.pc = .swap) : l.CanExit := by
  refine .step (l := .swap) rfl (if_pos hpc) ?_
  exact canExit_run hq rfl

theorem canExit_dispatch (hq : l.quit = true) (hpc : l.pc = .dispatch false) : l.CanExit := by
  refine .step (l := .beginFunctors) rfl (if_pos hpc) ?_
  exact canExit_swap hq rfl

/-- **A loop that has been told to quit can leave**, by steps of its own thread only. -/
theorem canExit {l : EventLoop F T} (hq : l.quit = true)
    (hpc : l.pc.inLoop = true ∨ l.pc = .exited) (hfd : l.pc = .poll → l.eventfd ≠ 0) :
    l.CanExit := by
  cases hp : l.pc with
  | test => exact canExit_test hq hp
  | poll =>
    refine .step (l := .pollReturn true) rfl (if_pos ⟨hp, fun _ => hfd hp⟩) ?_
    exact .step (l := .handleRead) rfl rfl (canExit_dispatch hq rfl)
  | dispatch wakeup =>
    cases wakeup with
    | false => exact canExit_dispatch hq hp
    | true =>
      refine .step (l := .handleRead) rfl (if_pos hp) ?_
      exact canExit_dispatch hq rfl
  | swap => exact canExit_swap hq hp
  | run => exact canExit_run hq hp
  | running =>
    refine .step (l := .functorReturn) rfl (if_pos hp) ?_
    exact canExit_run hq rfl
  | exited => exact .here hp
  | idle | entered => simp [hp, LoopPc.inLoop] at hpc

end Leads

end EventLoop

/-! ### The thread -/

/-- Where `ThreadFunc` is. -/
inductive FuncPc
  | starting
  | constructed
  | published
  | cleared
  | unlocked
  | returned
  deriving DecidableEq, Repr

/-- Where `~EventLoopThread` is; `nullQuit` is a call of `quit()` through a null `loop_`. -/
inductive DtorPc
  | outside
  | tested
  | quitting
  | joining
  | finished
  | nullQuit
  deriving DecidableEq, Repr

/-- `obtained`: `startLoop()` has returned; `asked`: some `quit()` has stored `quit`. -/
structure EventLoopThread (F T : Type*) where
  func : FuncPc
  loop_ : Bool
  loop : EventLoop F (Option T)
  obtained : Bool
  dtor : DtorPc
  asked : Bool

namespace EventLoopThread

variable {F T : Type*}

/-- The thread has been started. -/
def started : EventLoopThread F T where
  func := .starting
  loop_ := false
  loop := .new
  obtained := false
  dtor := .outside
  asked := false

inductive Label (F T : Type*)
  | construct
  | publish
  | startLoop
  | loop (lbl : EventLoop.Label F (Option T))
  | clear
  | unlock
  | funcReturn
  | dtorTest
  | dtorQuit
  | dtorWakeup
  | dtorJoin

/-- Which steps of the loop and of its callers can be taken: the loop's own thread calls from
`callback` and inside `loop()`, the others once they have the loop and while it exists. -/
def Allows (s : EventLoopThread F T) : EventLoop.Label F (Option T) → Prop
  | .foreignPush t _ | .foreignQuit t => t ≠ none ∧ s.obtained = true ∧ s.func ≠ .returned
  | .foreignWakeup t => t ≠ none
  | .ownQueueInLoop _ | .ownQuit =>
    s.func = .constructed ∨ s.func = .published ∧ s.loop.pc.inLoop = true
  | .enter => s.func = .published ∧ s.loop.pc = .idle
  | _ => s.func = .published

variable [DecidableEq T]

instance (s : EventLoopThread F T) (lbl : EventLoop.Label F (Option T)) : Decidable (s.Allows lbl) :=
  match lbl with
  | .foreignPush _ _ | .foreignQuit _ => inferInstanceAs (Decidable (_ ∧ _ ∧ _))
  | .foreignWakeup _ => inferInstanceAs (Decidable (_ ≠ _))
  | .ownQueueInLoop _ | .ownQuit => inferInstanceAs (Decidable (_ ∨ _ ∧ _))
  | .enter => inferInstanceAs (Decidable (_ ∧ _))
  | .clearQuit | .testQuit | .pollReturn _ | .handleRead | .beginFunctors | .swap | .runFunctor
  | .functorReturn | .endFunctors => inferInstanceAs (Decidable (_ = _))

end EventLoopThread

/-- The labels that store `quit`. -/
def EventLoop.Label.storesQuit {F T : Type*} : EventLoop.Label F T → Bool
  | .foreignQuit _ | .ownQuit => true
  | _ => false

namespace EventLoopThread

variable {F T : Type*} [DecidableEq T]

def step (s : EventLoopThread F T) : Label F T → Option (EventLoopThread F T)
  | .construct => if s.func = .starting then some { s with func := .constructed } else none
  | .publish =>
    if s.func = .constructed then some { s with func := .published, loop_ := true } else none
  | .startLoop => if s.loop_ = true then some { s with obtained := true } else none
  | .loop lbl =>
    if s.Allows lbl then
      (s.loop.step lbl).map fun l => { s with loop := l, asked := s.asked || lbl.storesQuit }
    else none
  | .clear =>
    if s.func = .published ∧ s.loop.pc = .exited then
      some { s with func := .cleared, loop_ := false }
    else none
  | .unlock => if s.func = .cleared then some { s with func := .unlocked } else none
  | .funcReturn => if s.func = .unlocked then some { s with func := .returned } else none
  | .dtorTest =>
    if s.obtained = true ∧ s.dtor = .outside then
      some { s with dtor := if s.loop_ then .tested else .finished }
    else none
  | .dtorQuit =>
    if s.dtor = .tested then
      if s.loop_ = true then
        (s.loop.step (.foreignQuit none)).map fun l =>
          { s with loop := l, dtor := .quitting, asked := true }
      else some { s with dtor := .nullQuit }
    else none
  | .dtorWakeup =>
    if s.dtor = .quitting then
      (s.loop.step (.foreignWakeup none)).map fun l => { s with loop := l, dtor := .joining }
    else none
  | .dtorJoin =>
    if s.dtor = .joining ∧ s.func = .returned then some { s with dtor := .finished } else none

/-- All interleavings of a started thread with its owner and with the callers of its loop. -/
def sys : Sys (EventLoopThread F T) (Label F T) where
  init s := s = started
  step := step

/-- What one step does: `step` as a relation, with the guard of each label. -/
inductive Move (s : EventLoopThread F T) : Label F T → EventLoopThread F T → Prop
  | construct : s.func = .starting → Move s .construct { s with func := .constructed }
  | publish : s.func = .constructed →
      Move s .publish { s with func := .published, loop_ := true }
  | startLoop : s.loop_ = true → Move s .startLoop { s with obtained := true }
  | loop {lbl : EventLoop.Label F (Option T)} {l : EventLoop F (Option T)} : s.Allows lbl →
      s.loop.step lbl = some l →
      Move s (.loop lbl) { s with loop := l, asked := s.asked || lbl.storesQuit }
  | clear : s.func = .published → s.loop.pc = .exited →
      Move s .clear { s with func := .cleared, loop_ := false }
  | unlock : s.func = .cleared → Move s .unlock { s with func := .unlocked }
  | funcReturn : s.func = .unlocked → Move s .funcReturn { s with func := .returned }
  | dtorTest : s.obtained = true → s.dtor = .outside →
      Move s .dtorTest { s with dtor := if s.loop_ then .tested else .finished }
  | dtorQuit {l : EventLoop F (Option T)} : s.dtor = .tested → s.loop_ = true →
      s.loop.step (.foreignQuit none) = some l →
      Move s .dtorQuit { s with loop := l, dtor := .quitting, asked := true }
  | dtorNullQuit : s.dtor = .tested → s.loop_ = false →
      Move s .dtorQuit { s with dtor := .nullQuit }
  | dtorWakeup {l : EventLoop F (Option T)} : s.dtor = .quitting →
      s.loop.step (.foreignWakeup none) = some l →
      Move s .dtorWakeup { s with loop := l, dtor := .joining }
  | dtorJoin : s.dtor = .joining → s.func = .returned →
      Move s .dtorJoin { s with dtor := .finished }

theorem move_of_step {s s' : EventLoopThread F T} {lbl : Label F T} (h : s.step lbl = some s') :
    Move s lbl s' := by
  cases lbl with
  | loop lbl =>
    simp only [step] at h
    split at h
    next ha =>
      obtain ⟨l, hl, rfl⟩ := Option.map_eq_some_iff.mp h
      exact .loop ha hl
    next => cases h
  | dtorQuit =>
    simp only [step] at h
    split at h
    next hd =>
      split at h
      next hp =>
        obtain ⟨l, hl, rfl⟩ := Option.map_eq_some_iff.mp h
        exact .dtorQuit hd hp hl
      next hp =>
        cases h
        exact .dtorNullQuit hd (by simpa using hp)
    next => cases h
  | dtorWakeup =>
    simp only [step] at h
    split at h
    next hd =>
      obtain ⟨l, hl, rfl⟩ := Option.map_eq_some_iff.mp h
      exact .dtorWakeup hd hl
    next => cases h
  | clear | dtorTest | dtorJoin =>
    obtain ⟨⟨h1, h2⟩, rfl⟩ := of_guard h
    constructor <;> assumption
  | _ =>
    obtain ⟨hg, rfl⟩ := of_guard h
    constructor
    exact hg

/-! ### Where the parties are -/

/-- The calls of the callers and of the loop's own thread, as opposed to its way through `loop()`. -/
theorem allows_of_ne {s : EventLoopThread F T} {lbl : EventLoop.Label F (Option T)}
    (h : s.Allows lbl) {l : EventLoop F (Option T)} (hs : s.loop.step lbl = some l)
    (hf : s.func ≠ .published) : l.pc = s.loop.pc := by
  cases EventLoop.move_of_step hs with
  | foreignPush | foreignQuit | foreignWakeup | ownQuit => rfl
  | ownQueueInLoop => exact EventLoop.queueInLoop_pc ..
  | enter => exact absurd h.1 hf
  | _ => exact absurd h hf

/-- No call through `loop` is the destructor's. -/
theorem caller_of_allows {s : EventLoopThread F T} {lbl : EventLoop.Label F (Option T)}
    (h : s.Allows lbl) {l : EventLoop F (Option T)} (hs : s.loop.step lbl = some l) :
    l.caller none = s.loop.caller none := by
  cases EventLoop.move_of_step hs with
  | foreignPush => exact Function.update_of_ne h.1.symm ..
  | foreignQuit => exact Function.update_of_ne h.1.symm ..
  | foreignWakeup => exact Function.update_of_ne (Ne.symm h) ..
  | ownQueueInLoop =>
    unfold EventLoop.queueInLoop
    simp only
    split <;> rfl
  | _ => rfl

structure Places (s : EventLoopThread F T) : Prop where
  before : s.func = .starting ∨ s.func = .constructed → s.loop.pc = .idle
  after : s.func = .cleared ∨ s.func = .unlocked ∨ s.func = .returned → s.loop.pc = .exited
  loop_ : s.loop_ = true ↔ s.func = .published
  caller : s.loop.caller none = .beforeWakeup ↔ s.dtor = .quitting
  announced : s.loop.pc = .poll → s.loop.quit = true → s.loop.Announced
  asked : s.dtor = .quitting ∨ s.dtor = .joining → s.asked = true

omit [DecidableEq T] in
theorem places_started : (started : EventLoopThread F T).Places := by
  refine ⟨fun _ => rfl, ?_, ?_, ?_, ?_, ?_⟩ <;> simp [started, EventLoop.new]

theorem Places.step {s s' : EventLoopThread F T} {lbl : Label F T} (h : s.Places)
    (hs : s.step lbl = some s') : s'.Places := by
  cases move_of_step hs with
  | construct hf =>
    have hp : s.loop_ = true ↔ False := by simp [h.loop_, hf]
    refine ⟨fun _ => h.before (.inl hf), by simp, by simp [hp], h.caller, h.announced, h.asked⟩
  | publish hf =>
    refine ⟨by simp, by simp, by simp, h.caller, h.announced, h.asked⟩
  | startLoop => exact ⟨h.before, h.after, h.loop_, h.caller, h.announced, h.asked⟩
  | @loop lbl l ha hl =>
    refine ⟨?_, ?_, h.loop_, ?_, EventLoop.announced_of_quit_step hl, ?_⟩
    · intro hf
      have hne : s.func ≠ .published := by rcases hf with hf | hf <;> simp at hf <;> simp [hf]
      exact (allows_of_ne ha hl hne).trans (h.before hf)
    · intro hf
      have hne : s.func ≠ .published := by
        rcases hf with hf | hf | hf <;> simp at hf <;> simp [hf]
      exact (allows_of_ne ha hl hne).trans (h.after hf)
    · show l.caller none = .beforeWakeup ↔ s.dtor = .quitting
      rw [caller_of_allows ha hl]
      exact h.caller
    · intro hd
      simp [h.asked hd]
  | clear hf hx => exact ⟨by simp, fun _ => hx, by simp, h.caller, h.announced, h.asked⟩
  | unlock hf =>
    have hp : s.loop_ = true ↔ False := by simp [h.loop_, hf]
    exact ⟨by simp, fun _ => h.after (.inl hf), by simp [hp], h.caller, h.announced, h.asked⟩
  | funcReturn hf =>
    have hp : s.loop_ = true ↔ False := by simp [h.loop_, hf]
    exact ⟨by simp, fun _ => h.after (.inr (.inl hf)), by simp [hp], h.caller, h.announced,
      h.asked⟩
  | dtorTest _ hd =>
    have hc : s.loop.caller none = .beforeWakeup ↔ False := by simp [h.caller, hd]
    refine ⟨h.before, h.after, h.loop_, ?_, h.announced, ?_⟩ <;> simp only [hc] <;> split <;> simp
  | @dtorQuit l hd hp hl =>
    cases EventLoop.move_of_step hl with
    | foreignQuit =>
      refine ⟨h.before, h.after, h.loop_, by simp, EventLoop.announced_of_quit_step hl, by simp⟩
  | dtorNullQuit hd =>
    have hc : s.loop.caller none = .beforeWakeup ↔ False := by simp [h.caller, hd]
    exact ⟨h.before, h.after, h.loop_, by simp [hc], h.announced, by simp⟩
  | @dtorWakeup l hd hl =>
    cases EventLoop.move_of_step hl with
    | foreignWakeup =>
      refine ⟨h.before, h.after, h.loop_, by simp, EventLoop.announced_of_quit_step hl, ?_⟩
      intro _
      exact h.asked (.inl hd)
  | dtorJoin hd =>
    have hc : s.loop.caller none = .beforeWakeup ↔ False := by simp [h.caller, hd]
    exact ⟨h.before, h.after, h.loop_, by simp [hc], h.announced, by simp⟩

theorem Places.of_reach {C : EventLoopThread F T → Label F T → Prop} {s : EventLoopThread F T}
    (h : sys.Reach C s) : s.Places :=
  h.invariant (fun _ hi => hi ▸ places_started) fun _ _ _ hi _ hs => hi.step hs

/-! ### A quit request is kept -/

def Label.storesQuit : Label F T → Bool
  | .loop lbl => lbl.storesQuit
  | .dtorQuit => true
  | _ => false

/-- `quit` is stored only after the loop's thread has executed `quit_ = false` in `loop()`. -/
def NoEarlyQuit (s : EventLoopThread F T) (lbl : Label F T) : Prop :=
  lbl.storesQuit = true → s.loop.pc ≠ .idle ∧ s.loop.pc ≠ .entered

instance (s : EventLoopThread F T) (lbl : Label F T) : Decidable (s.NoEarlyQuit lbl) :=
  inferInstanceAs (Decidable (_ → _ ∧ _))

/-- A request that has been stored still stands, and the loop's thread is past `quit_ = false`. -/
structure Kept (l : EventLoop F (Option T)) : Prop where
  quit : l.quit = true
  pc : l.pc.inLoop = true ∨ l.pc = .exited

theorem Kept.step {l l' : EventLoop F (Option T)} {lbl : EventLoop.Label F (Option T)} (h : Kept l)
    (hl : lbl ≠ .enter) (hs : l.step lbl = some l') : Kept l' := by
  refine ⟨EventLoop.quit_step hs h.quit ?_, ?_⟩
  · intro hpc
    have := h.pc
    simp [hpc, LoopPc.inLoop] at this
  · rcases EventLoop.pc_step hs hl with hpc | hpc
    · exact hpc ▸ h.pc
    · exact hpc

/-- The store of `quit` on a loop that is past `quit_ = false`. -/
theorem kept_of_stores {l l' : EventLoop F (Option T)} {lbl : EventLoop.Label F (Option T)}
    (hq : lbl.storesQuit = true) (h1 : l.pc ≠ .idle) (h2 : l.pc ≠ .entered)
    (hs : l.step lbl = some l') : Kept l' := by
  have hin : l.pc.inLoop = true ∨ l.pc = .exited := by
    cases hp : l.pc <;> simp_all [LoopPc.inLoop]
  cases EventLoop.move_of_step hs with
  | foreignQuit | ownQuit => exact ⟨rfl, hin⟩
  | _ => cases hq

theorem kept_step {s s' : EventLoopThread F T} {lbl : Label F T}
    (h : s.asked = true → Kept s.loop) (hc : s.NoEarlyQuit lbl) (hs : s.step lbl = some s') :
    s'.asked = true → Kept s'.loop := by
  intro ha
  cases move_of_step hs with
  | @loop lbl l hal hl =>
    by_cases hq : lbl.storesQuit = true
    · obtain ⟨h1, h2⟩ := hc hq
      exact kept_of_stores hq h1 h2 hl
    · have hk := h (by simpa [hq] using ha)
      refine hk.step ?_ hl
      rintro rfl
      have := hk.pc
      simp [hal.2, LoopPc.inLoop] at this
  | dtorQuit _ _ hl => exact kept_of_stores rfl (hc rfl).1 (hc rfl).2 hl
  | dtorWakeup _ hl => exact (h ha).step (by simp) hl
  | _ => exact h ha

theorem kept_of_reach {s : EventLoopThread F T} (h : sys.Reach NoEarlyQuit s) :
    s.asked = true → Kept s.loop := by
  refine h.invariant (I := fun s => s.asked = true → Kept s.loop) ?_ fun _ _ _ hi hc hs =>
    kept_step hi hc hs
  rintro _ rfl ha
  cases ha

/-! ### The join completes -/

/-- The steps that end the thread: the loop's own ones, in which `epoll_wait` returns only because the
eventfd is readable; the write to the eventfd of a caller that has stored `quit`; the end of
`ThreadFunc`; the rest of the destructor. -/
def Label.ends : Label F T → Bool
  | .loop (.foreignWakeup _) | .clear | .unlock | .funcReturn | .dtorWakeup | .dtorJoin => true
  | .loop lbl => lbl.goesRound
  | _ => false

/-- The destructor can finish. -/
abbrev CanFinish (s : EventLoopThread F T) : Prop :=
  sys.Leads (fun lbl : Label F T => lbl.ends = true) (fun s => s.dtor = .finished) s

theorem canFinish_returned {s : EventLoopThread F T} (hd : s.dtor = .joining)
    (hf : s.func = .returned) : s.CanFinish :=
  .step (l := .dtorJoin) rfl (if_pos ⟨hd, hf⟩) (.here rfl)

theorem canFinish_cleared {s : EventLoopThread F T} (hd : s.dtor = .joining)
    (hf : s.func = .cleared ∨ s.func = .unlocked ∨ s.func = .returned) : s.CanFinish := by
  have hun : ∀ s : EventLoopThread F T, s.dtor = .joining → s.func = .unlocked → s.CanFinish := by
    intro s hd hf
    exact .step (l := .funcReturn) rfl (if_pos hf) (canFinish_returned hd rfl)
  rcases hf with hf | hf | hf
  · refine .step (l := .unlock) rfl (if_pos hf) (hun _ ?_ rfl)
    exact hd
  · exact hun s hd hf
  · exact canFinish_returned hd hf

/-- The way of the loop out of `loop()`, seen from its thread. -/
theorem canFinish_of_canExit {l : EventLoop F (Option T)} (h : l.CanExit) :
    ∀ s : EventLoopThread F T, s.loop = l → s.func = .published → s.dtor = .joining →
      s.CanFinish := by
  induction h with
  | here hx =>
    rintro s rfl hf hd
    refine .step (l := .clear) rfl (if_pos ⟨hf, hx⟩) (canFinish_cleared ?_ (.inl rfl))
    exact hd
  | @step l l' lbl hg hs _ ih =>
    rintro s rfl hf hd
    have hal : s.Allows lbl ∧ (Label.loop lbl : Label F T).ends = true := by
      cases lbl <;> first | exact ⟨hf, hg⟩ | exact absurd hg (by simp [EventLoop.Label.goesRound])
    have hst : s.step (.loop lbl) = some
        { s with loop := l', asked := s.asked || lbl.storesQuit } := by
      simp only [step, if_pos hal.1]
      exact congrArg _ hs
    refine .step hal.2 hst (ih _ rfl ?_ ?_)
    · exact hf
    · exact hd

/-- **The join completes**: the loop has been told to quit, and it is told again if it is waiting. -/
theorem canFinish {s : EventLoopThread F T} (hp : s.Places) (hk : Kept s.loop)
    (hd : s.dtor = .joining) (hfd : s.loop.pc = .poll → s.loop.eventfd ≠ 0) : s.CanFinish := by
  cases hf : s.func with
  | starting | constructed =>
    have hpc := hk.pc
    simp [hp.before (by simp [hf]), LoopPc.inLoop] at hpc
  | published => exact canFinish_of_canExit (EventLoop.canExit hk.quit hk.pc hfd) s rfl hf hd
  | cleared | unlocked | returned => exact canFinish_cleared hd (by simp [hf])

theorem canFinish_of_asked {s : EventLoopThread F T} (hp : s.Places) (hk : Kept s.loop)
    (hd : s.dtor = .quitting ∨ s.dtor = .joining) : s.CanFinish := by
  rcases hd with hd | hd
  · -- the destructor's own write to the eventfd comes first
    have hc := hp.caller.mpr hd
    have hl : s.loop.step (.foreignWakeup none) = some
        { s.loop.wakeup with caller := Function.update s.loop.caller none .outside } := if_pos hc
    have hs : s.step .dtorWakeup = some { s with
        loop := { s.loop.wakeup with caller := Function.update s.loop.caller none .outside }
        dtor := .joining } := by
      simp only [step, if_pos hd, hl]
      rfl
    refine .step (l := .dtorWakeup) rfl hs ?_
    refine canFinish (hp.step hs) ⟨hk.quit, hk.pc⟩ rfl ?_
    intro _
    exact Nat.succ_ne_zero _
  · by_cases hfd : s.loop.pc = .poll → s.loop.eventfd ≠ 0
    · exact canFinish hp hk hd hfd
    · -- some other thread has stored `quit` and not written to the eventfd yet
      obtain ⟨hpc, h0⟩ := Classical.not_imp.mp hfd
      obtain ⟨t, ht⟩ := (hp.announced hpc hk.quit).resolve_left h0
      have hne : t ≠ none := by
        rintro rfl
        have := hp.caller.mp ht
        rw [hd] at this
        cases this
      have hs : s.step (.loop (.foreignWakeup t)) = some { s with
          loop := { s.loop.wakeup with caller := Function.update s.loop.caller t .outside }
          asked := s.asked || false } := by
        simp only [step, Allows, if_pos hne, EventLoop.step, if_pos ht]
        rfl
      refine .step (l := .loop (.foreignWakeup t)) rfl hs ?_
      refine canFinish (hp.step hs) ⟨hk.quit, hk.pc⟩ hd ?_
      intro _
      exact Nat.succ_ne_zero _

/-- **A quit request is never lost**, in every run in which none is stored before the loop's thread has
executed `quit_ = false`: it stands from then on, an `epoll_wait` under it is woken up, and the join
of the destructor can complete. -/
theorem quit_kept {s : EventLoopThread F T} (h : sys.Reach NoEarlyQuit s) (ha : s.asked = true) :
    s.loop.quit = true ∧
    (s.loop.pc = .poll → s.loop.eventfd ≠ 0 ∨ ∃ t, s.loop.caller t = .beforeWakeup) ∧
    (s.dtor = .quitting ∨ s.dtor = .joining → s.CanFinish) := by
  have hk := kept_of_reach h ha
  have hp := Places.of_reach h
  refine ⟨hk.quit, ?_, ?_⟩
  · intro hpc
    exact hp.announced hpc hk.quit
  · intro hd
    exact canFinish_of_asked hp hk hd

/-- The destructor finds the loop in `epoll_wait`. -/
theorem quit_kept_poll :
    ∃ s : EventLoopThread ℕ ℕ, s.loop.pc = .poll ∧ s.loop.quit = true ∧ s.CanFinish := by
  obtain ⟨s, hr, ha, hpc, hd⟩ := Sys.Reach.exists_of_execIf (M := sys)
    (s := (started : EventLoopThread ℕ ℕ)) (C := NoEarlyQuit)
    (P := fun s => s.asked = true ∧ s.loop.pc = .poll ∧ s.dtor = .quitting)
    (.init rfl) [.construct, .publish, .startLoop, .loop .enter, .loop .clearQuit, .loop .testQuit,
      .dtorTest, .dtorQuit] (by decide +kernel)
  have hk := quit_kept hr ha
  exact ⟨s, hpc, hk.1, hk.2.2 (.inl hd)⟩

/-- The request of the destructor is lost: the loop goes on, and the destructor waits for it. -/
structure Lost (s : EventLoopThread F T) : Prop where
  quit : s.loop.quit = false
  pc : s.loop.pc.inLoop = true
  func : s.func = .published
  dtor : s.dtor = .joining

theorem lost_loop_step {l l' : EventLoop F (Option T)} {lbl : EventLoop.Label F (Option T)}
    (hq : l.quit = false) (hin : l.pc.inLoop = true) (hn : lbl.storesQuit = false)
    (hs : l.step lbl = some l') : l'.quit = false ∧ l'.pc.inLoop = true := by
  cases EventLoop.move_of_step hs with
  | foreignQuit | ownQuit => cases hn
  | foreignPush | foreignWakeup => exact ⟨hq, hin⟩
  | ownQueueInLoop => exact ⟨by simpa using hq, by simpa using hin⟩
  | enter hpc => rcases hpc with hpc | hpc <;> rw [hpc] at hin <;> cases hin
  | clearQuit => exact ⟨rfl, rfl⟩
  | testQuit => exact ⟨hq, by simp [hq, LoopPc.inLoop]⟩
  | _ => exact ⟨hq, rfl⟩

theorem Lost.step {s s' : EventLoopThread F T} {lbl : Label F T} (h : s.Lost)
    (hn : lbl.storesQuit = false) (hs : s.step lbl = some s') : s'.Lost := by
  obtain ⟨hq, hin, hf, hd⟩ := h
  cases move_of_step hs with
  | startLoop => exact ⟨hq, hin, hf, hd⟩
  | loop _ hl =>
    obtain ⟨hq', hin'⟩ := lost_loop_step hq hin hn hl
    exact ⟨hq', hin', hf, hd⟩
  | clear _ hx =>
    rw [hx] at hin
    cases hin
  | construct h | publish h | unlock h | funcReturn h | dtorJoin _ h => simp [hf] at h
  | dtorTest _ h | dtorQuit h | dtorNullQuit h | dtorWakeup h => simp [hd] at h

/-- A lost request hangs the destructor, whatever the threads do short of a new `quit()`. -/
theorem Lost.exec {s s' : EventLoopThread F T} {ls : List (Label F T)} (h : s.Lost)
    (hn : ∀ lbl ∈ ls, lbl.storesQuit = false) (hs : sys.exec s ls = some s') : s'.Lost :=
  Sys.exec_invariant (fun _ _ _ h hn hs => h.step hn hs) h hn hs

/-- The destructor calls `quit()` before the thread enters `loop()`: the request is erased, the loop
waits in `epoll_wait` with nothing to wake it up, and the destructor hangs. -/
theorem quit_lost :
    ∃ s : EventLoopThread ℕ ℕ, sys.Reach (fun _ _ => True) s ∧ s.asked = true ∧
      s.loop.quit = false ∧ s.loop.pc = .poll ∧ s.loop.eventfd = 0 ∧
      ∀ ls s', (∀ lbl ∈ ls, lbl.storesQuit = false) → sys.exec s ls = some s' →
        s'.dtor = .joining := by
  obtain ⟨s, hr, ha, hq, hpc, hfd, hf, hd⟩ := Sys.Reach.exists_of_execIf (M := sys)
    (s := (started : EventLoopThread ℕ ℕ)) (C := fun _ _ => True)
    (P := fun s => s.asked = true ∧ s.loop.quit = false ∧ s.loop.pc = .poll ∧
      s.loop.eventfd = 0 ∧ s.func = .published ∧ s.dtor = .joining)
    (.init rfl) [.construct, .publish, .startLoop, .dtorTest, .dtorQuit, .dtorWakeup, .loop .enter,
      .loop .clearQuit, .loop .testQuit, .loop (.pollReturn true), .loop .handleRead,
      .loop .beginFunctors, .loop .swap, .loop .endFunctors, .loop .testQuit] (by decide +kernel)
  refine ⟨s, hr, ha, hq, hpc, hfd, ?_⟩
  intro ls s' hl hs
  have hlost : s.Lost := ⟨hq, by rw [hpc]; rfl, hf, hd⟩
  exact (hlost.exec hl hs).dtor

/-! ### The end of the object -/

/-- `loop_` does not become null between the destructor's test and its `quit()`, `ThreadFunc` does not
return, and with it destroy the loop, while the destructor is inside that `quit()`, and the destructor
does not find `loop_` null before `ThreadFunc` has returned. -/
def Orderly (s : EventLoopThread F T) : Label F T → Prop
  | .clear => s.dtor ≠ .tested
  | .funcReturn => s.dtor ≠ .quitting
  | .dtorTest => s.func ≠ .cleared ∧ s.func ≠ .unlocked
  | _ => True

instance (s : EventLoopThread F T) (lbl : Label F T) : Decidable (s.Orderly lbl) :=
  match lbl with
  | .clear | .funcReturn => inferInstanceAs (Decidable (_ ≠ _))
  | .dtorTest => inferInstanceAs (Decidable (_ ∧ _))
  | .construct | .publish | .startLoop | .loop _ | .unlock | .dtorQuit | .dtorWakeup | .dtorJoin =>
    inferInstanceAs (Decidable True)

structure Safe (s : EventLoopThread F T) : Prop where
  obtained : s.obtained = true → s.func ≠ .starting ∧ s.func ≠ .constructed
  tested : s.dtor = .tested → s.func = .published
  quitting : s.dtor = .quitting → s.func ≠ .returned
  quit : s.dtor ≠ .nullQuit
  finished : s.dtor = .finished → s.func = .returned

theorem Safe.step {s s' : EventLoopThread F T} {lbl : Label F T} (h : s.Safe) (hp : s.Places)
    (hc : s.Orderly lbl) (hs : s.step lbl = some s') : s'.Safe := by
  have hfin : ∀ {f : FuncPc}, s.func = f → f ≠ .returned → s.dtor ≠ .finished := by
    rintro f hf hne hd
    exact hne (hf ▸ h.finished hd)
  have htst : ∀ {f : FuncPc}, s.func = f → f ≠ .published → s.dtor ≠ .tested := by
    rintro f hf hne hd
    exact hne (hf ▸ h.tested hd)
  cases move_of_step hs with
  | construct hf =>
    refine ⟨fun ho => absurd hf (h.obtained ho).1, ?_, fun _ => FuncPc.noConfusion, h.quit, ?_⟩
    · exact fun hd => absurd hd (htst hf (by simp))
    · exact fun hd => absurd hd (hfin hf (by simp))
  | publish hf =>
    exact ⟨by simp, by simp, by simp, h.quit, fun hd => absurd hd (hfin hf (by simp))⟩
  | startLoop hl =>
    have hf := hp.loop_.mp hl
    exact ⟨by simp [hf], h.tested, h.quitting, h.quit, h.finished⟩
  | loop => exact ⟨h.obtained, h.tested, h.quitting, h.quit, h.finished⟩
  | clear hf =>
    exact ⟨by simp, fun hd => absurd hd hc, by simp, h.quit, fun hd => absurd hd (hfin hf (by simp))⟩
  | unlock hf =>
    refine ⟨by simp, fun hd => absurd hd (htst hf (by simp)), by simp, h.quit, ?_⟩
    exact fun hd => absurd hd (hfin hf (by simp))
  | funcReturn hf =>
    refine ⟨by simp, fun hd => absurd hd (htst hf (by simp)), fun hd => absurd hd hc, h.quit, ?_⟩
    exact fun hd => absurd hd (hfin hf (by simp))
  | dtorTest ho hd =>
    obtain ⟨h1, h2⟩ := h.obtained ho
    obtain ⟨h3, h4⟩ := hc
    cases hl : s.loop_ with
    | true => exact ⟨fun _ => ⟨h1, h2⟩, fun _ => hp.loop_.mp hl, by simp, by simp, by simp⟩
    | false =>
      have hf : s.func ≠ .published := by simp [← hp.loop_, hl]
      refine ⟨fun _ => ⟨h1, h2⟩, by simp, by simp, by simp, fun _ => ?_⟩
      show s.func = .returned
      cases hfn : s.func <;> simp_all
  | dtorQuit hd =>
    have hf := h.tested hd
    exact ⟨h.obtained, by simp, fun _ => by simp [hf], by simp, by simp⟩
  | dtorWakeup => exact ⟨h.obtained, by simp, by simp, by simp, by simp⟩
  | dtorNullQuit hd hl =>
    have := hp.loop_.mpr (h.tested hd)
    rw [hl] at this
    cases this
  | dtorJoin _ hf => exact ⟨h.obtained, by simp, by simp, by simp, fun _ => hf⟩

theorem Safe.of_reach {s : EventLoopThread F T} (h : sys.Reach Orderly s) : s.Safe := by
  have hi : s.Places ∧ s.Safe := by
    refine h.invariant (I := fun s => s.Places ∧ s.Safe) ?_ ?_
    · rintro _ rfl
      exact ⟨places_started, by simp [started], by simp [started], by simp [started],
        by simp [started], by simp [started]⟩
    · intro s lbl s' hi hc hs
      exact ⟨hi.1.step hs, hi.2.step hi.1 hc hs⟩
  exact hi.2

/-- **Tearing down a thread is safe** in every orderly run: the destructor calls `quit()` only on a
published loop, the loop is not destroyed before that `quit()` is over, and the destructor finishes only
after `ThreadFunc` has returned.  A step that is not orderly breaks this at once, or leaves the destructor
before a `quit()` through a null pointer or inside the `quit()` of a loop that is gone. -/
theorem teardown_safe {s : EventLoopThread F T} (h : sys.Reach Orderly s) :
    (∀ s', s.step .dtorQuit = some s' → s.func = .published ∧ s'.dtor = .quitting) ∧
    (∀ s', s.step .dtorWakeup = some s' → s.func ≠ .returned) ∧
    (s.dtor = .finished → s.func = .returned) ∧
    (∀ lbl s', s.step lbl = some s' → ¬ s.Orderly lbl →
      s'.dtor = .tested ∧ s'.loop_ = false ∨ s'.dtor = .quitting ∧ s'.func = .returned ∨
        s'.dtor = .finished ∧ s'.func ≠ .returned) := by
  have hp := Places.of_reach h
  have hsafe := Safe.of_reach h
  refine ⟨?_, ?_, hsafe.finished, ?_⟩
  · intro s' hs
    cases move_of_step hs with
    | dtorQuit hd => exact ⟨hsafe.tested hd, rfl⟩
    | dtorNullQuit hd hl =>
      have := hp.loop_.mpr (hsafe.tested hd)
      rw [hl] at this
      cases this
  · intro s' hs
    cases move_of_step hs with
    | dtorWakeup hd => exact hsafe.quitting hd
  · intro lbl s' hs hno
    cases move_of_step hs with
    | clear => exact .inl ⟨not_not.mp hno, rfl⟩
    | funcReturn => exact .inr (.inl ⟨not_not.mp hno, rfl⟩)
    | dtorTest =>
      have hf : s.func = .cleared ∨ s.func = .unlocked := by
        simpa only [Orderly, not_and_or, not_not] using hno
      have hl : s.loop_ = false := by
        rw [Bool.eq_false_iff, ne_eq, hp.loop_]
        rcases hf with hf | hf <;> simp [hf]
      refine .inr (.inr ⟨by simp [hl], ?_⟩)
      rcases hf with hf | hf <;> simp [hf]
    | _ => exact absurd trivial hno

/-- The destructor finds the loop running. -/
theorem teardown_safe_join :
    ∃ s : EventLoopThread ℕ ℕ, s.dtor = .finished ∧ s.func = .returned := by
  obtain ⟨s, hr, hd⟩ := Sys.Reach.exists_of_execIf (M := sys)
    (s := (started : EventLoopThread ℕ ℕ)) (C := Orderly) (P := fun s => s.dtor = .finished)
    (.init rfl) [.construct, .publish, .startLoop, .loop .enter, .loop .clearQuit, .dtorTest,
      .dtorQuit, .dtorWakeup, .loop .testQuit, .clear, .unlock, .funcReturn, .dtorJoin]
    (by decide +kernel)
  exact ⟨s, hd, (teardown_safe hr).2.2.1 hd⟩

/-- A callback has ended the loop: the destructor calls `quit()` through a null pointer, or does not
wait for the thread.  Or the store of the destructor's own `quit()` has ended it: the loop is gone when
`quit()` comes to `wakeup()`. -/
theorem teardown_unsafe :
    (∃ s : EventLoopThread ℕ ℕ, sys.Reach (fun _ _ => True) s ∧ s.dtor = .nullQuit) ∧
    (∃ s : EventLoopThread ℕ ℕ, sys.Reach (fun _ _ => True) s ∧ s.dtor = .finished ∧
      s.func = .cleared) ∧
    (∃ s : EventLoopThread ℕ ℕ, sys.Reach (fun _ _ => True) s ∧ s.func = .returned ∧
      (s.step .dtorWakeup).isSome = true) := by
  refine ⟨?_, ?_, ?_⟩
  · exact Sys.Reach.exists_of_execIf (M := sys) (s := (started : EventLoopThread ℕ ℕ))
      (.init rfl) [.construct, .publish, .startLoop, .loop .enter, .loop .clearQuit,
        .loop .testQuit, .loop (.pollReturn false), .loop .ownQuit, .loop .beginFunctors,
        .loop .swap, .loop .endFunctors, .loop .testQuit, .dtorTest, .clear, .dtorQuit]
      (by decide +kernel)
  · exact Sys.Reach.exists_of_execIf (M := sys) (s := (started : EventLoopThread ℕ ℕ))
      (.init rfl) [.construct, .publish, .startLoop, .loop .enter, .loop .clearQuit,
        .loop .testQuit, .loop (.pollReturn false), .loop .ownQuit, .loop .beginFunctors,
        .loop .swap, .loop .endFunctors, .loop .testQuit, .clear, .dtorTest]
      (by decide +kernel)
  · exact Sys.Reach.exists_of_execIf (M := sys) (s := (started : EventLoopThread ℕ ℕ))
      (.init rfl) [.construct, .publish, .startLoop, .loop .enter, .loop .clearQuit, .dtorTest,
        .dtorQuit, .loop .testQuit, .clear, .unlock, .funcReturn] (by decide +kernel)

end EventLoopThread

end Mymuduo
