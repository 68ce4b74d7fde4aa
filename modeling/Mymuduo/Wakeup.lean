import Mymuduo.EventLoop

/-!
# Mymuduo.Wakeup — no lost wakeup in a running loop

`Announced l`: the eventfd is readable, or some foreign thread is about to make it so.  Work may be
pending unannounced only between the return of `epoll_wait` and the swap, because the swap takes it;
everywhere else pending functors are announced (`WakeupInv`).  This holds for every schedule in
which the loop's own thread calls `queueInLoop` and `quit` only from channel callbacks and functors.

Before `loop()` runs, no dispatch is in progress: what this thread queues then is not announced, and
waits for the timeout of the first `epoll_wait` unless another thread calls
(`announced_of_first_poll_iff`).
-/

namespace Mymuduo

open Lib

/-- Between the return of `epoll_wait` and the swap. -/
def LoopPc.beforeSwap : LoopPc → Bool
  | .dispatch _ | .swap => true
  | _ => false

namespace EventLoop

variable {F T : Type*}

/-- The next `epoll_wait` returns at once, or a foreign thread has yet to call `wakeup`. -/
def Announced (l : EventLoop F T) : Prop := l.eventfd ≠ 0 ∨ ∃ t, l.caller t = .beforeWakeup

/-- Own calls come from channel callbacks and running functors only. -/
def CallbackCalls (l : EventLoop F T) : Label F T → Prop
  | .ownQueueInLoop _ | .ownQuit => (∃ b, l.pc = .dispatch b) ∨ l.pc = .running
  | _ => True

structure WakeupInv (l : EventLoop F T) : Prop where
  work : l.pc.beforeSwap = false → l.queue.pending ≠ [] → l.Announced
  quit : l.pc = .poll → l.quit = true → l.Announced
  calling : l.pc = .swap ∨ l.pc = .run ∨ l.pc = .running → l.callingPendingFunctors = true

theorem wakeupInv_new : (new : EventLoop F T).WakeupInv :=
  ⟨fun _ h => absurd rfl h, fun h => (by cases h), fun h => by rcases h with h | h | h <;> cases h⟩

theorem announced_of_caller {l : EventLoop F T} {t : T} (h : l.caller t = .beforeWakeup) :
    l.Announced :=
  .inr ⟨t, h⟩

theorem announced_of_eventfd {l : EventLoop F T} (h : l.eventfd ≠ 0) : l.Announced := .inl h

variable [DecidableEq T]

/-- A foreign thread that has pushed, or stored `quit`, has announced it. -/
theorem announced_update (l : EventLoop F T) (t : T) :
    ({ l with caller := Function.update l.caller t .beforeWakeup } : EventLoop F T).Announced :=
  announced_of_caller (t := t) (Function.update_self ..)

/-- A loop does not go to `epoll_wait` with `quit` set, and who sets it there announces it. -/
theorem announced_of_quit_step {l l' : EventLoop F T} {lbl : Label F T} (hs : l.step lbl = some l')
    (hp : l'.pc = .poll) (hq : l'.quit = true) : l'.Announced := by
  cases move_of_step hs with
  | @foreignPush t f => exact announced_update _ t
  | @foreignQuit t => exact announced_update _ t
  | foreignWakeup => exact announced_of_eventfd (Nat.succ_ne_zero _)
  | @ownQueueInLoop f hcalls =>
    have hpc : l.pc = .poll := by simpa [queueInLoop, push, wakeup, apply_ite EventLoop.pc] using hp
    rw [hpc] at hcalls
    cases hcalls
  | ownQuit hcalls =>
    simp only at hp
    rw [hp] at hcalls
    cases hcalls
  | testQuit =>
    simp only at hp hq
    rw [hq] at hp
    cases hp
  | _ => cases hp

theorem WakeupInv.step {l l' : EventLoop F T} {lbl : Label F T} (h : l.WakeupInv)
    (hc : CallbackCalls l lbl) (hs : l.step lbl = some l') : l'.WakeupInv := by
  suffices hw : (l'.pc.beforeSwap = false → l'.queue.pending ≠ [] → l'.Announced) ∧
      (l'.pc = .swap ∨ l'.pc = .run ∨ l'.pc = .running → l'.callingPendingFunctors = true) from
    ⟨hw.1, announced_of_quit_step hs, hw.2⟩
  cases move_of_step hs with
  | @foreignPush t f => exact ⟨fun _ _ => announced_update _ t, h.calling⟩
  | @foreignQuit t => exact ⟨fun _ _ => announced_update _ t, h.calling⟩
  | foreignWakeup =>
    exact ⟨fun _ _ => announced_of_eventfd (Nat.succ_ne_zero _), h.calling⟩
  | @ownQueueInLoop f =>
    rcases hc with ⟨b, hpc⟩ | hpc
    · -- from a channel callback: the swap of this iteration comes after it
      refine ⟨fun hb => ?_, fun hp => ?_⟩ <;>
        simp [queueInLoop, push, wakeup, apply_ite EventLoop.pc, hpc, LoopPc.beforeSwap] at *
    · -- from a functor: the flag is set, so the caller wakes the loop up itself
      have hcall := h.calling (.inr (.inr hpc))
      have heq : l.queueInLoop true f = (l.push f).wakeup := by simp [queueInLoop, push, hcall]
      rw [heq]
      exact ⟨fun _ _ => announced_of_eventfd (Nat.succ_ne_zero _), fun _ => hcall⟩
  | ownQuit => exact ⟨h.work, h.calling⟩
  | enter hpc =>
    refine ⟨fun _ => h.work ?_, fun hp => by simp at hp⟩
    rcases hpc with hpc | hpc <;> rw [hpc] <;> rfl
  | clearQuit hpc => exact ⟨fun _ => h.work (by rw [hpc]; rfl), fun hp => by simp at hp⟩
  | testQuit hpc =>
    refine ⟨fun _ => h.work (by rw [hpc]; rfl), fun hp => ?_⟩
    simp only at hp
    split at hp <;> simp at hp
  | pollReturn | handleRead => exact ⟨fun hb => (by cases hb), fun hp => by simp at hp⟩
  | beginFunctors => exact ⟨fun hb => (by cases hb), fun _ => rfl⟩
  | swap hpc => exact ⟨fun _ hne => absurd rfl hne, fun _ => h.calling (.inl hpc)⟩
  | runFunctor hpc =>
    exact ⟨fun _ => h.work (by rw [hpc]; rfl), fun _ => h.calling (.inr (.inl hpc))⟩
  | functorReturn hpc =>
    exact ⟨fun _ => h.work (by rw [hpc]; rfl), fun _ => h.calling (.inr (.inr hpc))⟩
  | endFunctors hpc => exact ⟨fun _ => h.work (by rw [hpc]; rfl), fun hp => by simp at hp⟩

theorem WakeupInv.of_reach {l : EventLoop F T} (h : sys.Reach CallbackCalls l) : l.WakeupInv :=
  h.invariant (fun _ hi => hi ▸ wakeupInv_new) fun _ _ _ hi hc hs => hi.step hc hs

/-- **No lost wakeup**: whenever the loop thread is at `epoll_wait` with functors pending or `quit`
set, the eventfd is readable or some foreign thread has pushed (or stored) and not yet woken. -/
theorem announced_of_poll {l : EventLoop F T} (h : sys.Reach CallbackCalls l) (hpc : l.pc = .poll)
    (hw : l.queue.pending ≠ [] ∨ l.quit = true) :
    l.eventfd ≠ 0 ∨ ∃ t, l.caller t = .beforeWakeup := by
  have hi := WakeupInv.of_reach h
  rcases hw with hw | hw
  · exact hi.work (by rw [hpc]; rfl) hw
  · exact hi.quit hpc hw

/-- A push from thread `1` that lands while the loop is already in `epoll_wait`. -/
theorem announced_of_poll_push :
    ∃ l : EventLoop ℕ ℕ, l.pc = .poll ∧ l.queue.pending = [7] ∧
      (l.eventfd ≠ 0 ∨ ∃ t, l.caller t = .beforeWakeup) := by
  have hr : sys.Reach CallbackCalls
      { (new : EventLoop ℕ ℕ).push 7 with
        pc := .poll, looping := true, caller := Function.update (fun _ => .outside) 1 .beforeWakeup } :=
    (Sys.Reach.init rfl).exec ([.enter, .clearQuit, .testQuit, .foreignPush 1 7])
      (by simp [CallbackCalls]) rfl
  exact ⟨_, rfl, rfl, announced_of_poll hr rfl (.inl (by decide))⟩

/-! ### Before the first `epoll_wait` returns -/

/-- The functors have not been run yet, since `epoll_wait` has not returned. -/
structure Unpolled (l : EventLoop F T) : Prop where
  pc : l.pc = .idle ∨ l.pc = .entered ∨ l.pc = .test ∨ l.pc = .poll ∨ l.pc = .exited
  calling : l.callingPendingFunctors = false

/-- A call of another thread, which is followed by a wakeup. -/
def Label.foreignCall : Label F T → Prop
  | .foreignPush _ _ | .foreignQuit _ => True
  | _ => False

/-- A call of `queueInLoop`. -/
def Label.queues : Label F T → Prop
  | .foreignPush _ _ | .ownQueueInLoop _ => True
  | _ => False

def Label.returnsPoll : Label F T → Prop
  | .pollReturn _ => True
  | _ => False

theorem Unpolled.step {l l' : EventLoop F T} {lbl : Label F T} (h : l.Unpolled)
    (hl : ¬ lbl.returnsPoll) (hs : l.step lbl = some l') :
    l'.Unpolled ∧ (l'.Announced ↔ l.Announced ∨ lbl.foreignCall) ∧
      (l'.queue.pending ≠ [] ↔ l.queue.pending ≠ [] ∨ lbl.queues) := by
  obtain ⟨hpc, hcall⟩ := h
  cases move_of_step hs with
  | @foreignPush t f =>
    refine ⟨⟨hpc, hcall⟩, ?_, ?_⟩
    · exact iff_of_true (announced_update _ t) (.inr trivial)
    · simp [push, Label.queues]
  | @foreignQuit t =>
    refine ⟨⟨hpc, hcall⟩, ?_, ?_⟩
    · exact iff_of_true (announced_update _ t) (.inr trivial)
    · simp [Label.queues]
  | foreignWakeup hc =>
    refine ⟨⟨hpc, hcall⟩, ?_, ?_⟩
    · exact iff_of_true (announced_of_eventfd (Nat.succ_ne_zero _)) (.inl (announced_of_caller hc))
    · simp [wakeup, Label.queues]
  | @ownQueueInLoop f =>
    -- the flag is not set, so the loop's own thread does not write to the eventfd
    have heq : l.queueInLoop true f = l.push f := by simp [queueInLoop, push, hcall]
    rw [heq]
    refine ⟨⟨hpc, hcall⟩, ?_, ?_⟩
    · simp [Announced, push, Label.foreignCall]
    · simp [push, Label.queues]
  | ownQuit => exact ⟨⟨hpc, hcall⟩, by simp [Announced, Label.foreignCall], by simp [Label.queues]⟩
  | enter =>
    exact ⟨⟨.inr (.inl rfl), hcall⟩, by simp [Announced, Label.foreignCall], by simp [Label.queues]⟩
  | clearQuit =>
    exact ⟨⟨.inr (.inr (.inl rfl)), hcall⟩, by simp [Announced, Label.foreignCall],
      by simp [Label.queues]⟩
  | testQuit =>
    refine ⟨⟨?_, hcall⟩, by simp [Announced, Label.foreignCall], by simp [Label.queues]⟩
    simp only
    split
    · exact .inr (.inr (.inr (.inr rfl)))
    · exact .inr (.inr (.inr (.inl rfl)))
  | pollReturn => exact absurd trivial hl
  | handleRead hp | beginFunctors hp | swap hp | runFunctor hp | functorReturn hp | endFunctors hp =>
    simp [hp] at hpc

/-- Up to then, the loop is woken up exactly if another thread has called, and has functors to run
exactly if some thread has queued one. -/
theorem unpolled_of_exec {l : EventLoop F T} {ls : List (Label F T)} (h : sys.exec new ls = some l)
    (hls : ∀ lbl ∈ ls, ¬ lbl.returnsPoll) :
    (l.Announced ↔ ∃ lbl ∈ ls, lbl.foreignCall) ∧ (l.queue.pending ≠ [] ↔ ∃ lbl ∈ ls, lbl.queues) := by
  have hnew : (new : EventLoop F T).Unpolled := ⟨.inl rfl, rfl⟩
  constructor
  · rw [Sys.exec_iff_exists (fun _ _ _ hi ha hs => (hi.step ha hs).1)
      (fun _ _ _ hi ha hs => (hi.step ha hs).2.1) hnew hls h]
    simp [Announced, new]
  · rw [Sys.exec_iff_exists (P := fun l => l.queue.pending ≠ [])
      (fun _ _ _ hi ha hs => (hi.step ha hs).1) (fun _ _ _ hi ha hs => (hi.step ha hs).2.2) hnew hls h]
    simp [new, TaskQueue.empty]

/-- **Work queued before the loop starts** is announced, when the loop's thread reaches its first
`epoll_wait`, exactly if none of it comes from this thread, or another thread has called as well. -/
theorem announced_of_first_poll_iff (ls : List (Label F T)) (l : EventLoop F T)
    (h : sys.exec new ls = some l) (hls : ∀ lbl ∈ ls, ¬ lbl.returnsPoll) :
    (l.queue.pending ≠ [] → l.eventfd ≠ 0 ∨ ∃ t, l.caller t = .beforeWakeup) ↔
      (∀ f, .ownQueueInLoop f ∉ ls) ∨ ∃ lbl ∈ ls, lbl.foreignCall := by
  obtain ⟨hann, hpend⟩ := unpolled_of_exec h hls
  change (_ → l.Announced) ↔ _
  rw [hann, hpend]
  constructor
  · intro hi
    by_cases hf : ∃ lbl ∈ ls, lbl.foreignCall
    · exact .inr hf
    · exact .inl fun f hown => hf (hi ⟨_, hown, trivial⟩)
  · rintro (hown | hf) ⟨lbl, hmem, hq⟩
    · cases lbl with
      | foreignPush t f => exact ⟨_, hmem, trivial⟩
      | ownQueueInLoop f => exact absurd hmem (hown f)
      | _ => exact hq.elim
    · exact hf

/-- A functor queued by the thread's init callback, and one by another thread. -/
theorem announced_of_first_poll_two :
    ∃ l : EventLoop ℕ ℕ, sys.exec new
        [.ownQueueInLoop 7, .foreignPush 1 8, .enter, .clearQuit, .testQuit] = some l ∧
      l.pc = .poll ∧ (l.eventfd ≠ 0 ∨ ∃ t, l.caller t = .beforeWakeup) :=
  ⟨_, rfl, rfl, (announced_of_first_poll_iff
    [.ownQueueInLoop 7, .foreignPush 1 8, .enter, .clearQuit, .testQuit] _ rfl
    (by simp [Label.returnsPoll])).mpr (.inr ⟨.foreignPush 1 8, by simp, trivial⟩) (by decide)⟩

/-- A functor queued by the init callback alone: the loop goes to sleep with it. -/
theorem first_poll_unannounced : ¬ ∀ (ls : List (Label ℕ ℕ)) (l : EventLoop ℕ ℕ),
    sys.exec new ls = some l → (∀ lbl ∈ ls, ¬ lbl.returnsPoll) → l.pc = .poll →
      l.queue.pending ≠ [] → l.eventfd ≠ 0 ∨ ∃ t, l.caller t = .beforeWakeup := by
  intro h
  have ha := h [.ownQueueInLoop 7, .enter, .clearQuit, .testQuit] _ rfl (by simp [Label.returnsPoll])
    rfl (by decide)
  rcases ha with hfd | ⟨t, ht⟩
  · exact hfd rfl
  · cases ht

end EventLoop

end Mymuduo
