import Mymuduo.EventLoop

/-!
# Mymuduo.Functors — pending functors run exactly once and in order

Over every interleaving of the loop with foreign `queueInLoop` calls, own calls from callbacks and
re-entrant ones from running functors: `ran ++ rest ++ pending = pushed` (`tracks_of_reach`), and a
pass of `doPendingFunctors` runs what its swap took and nothing else (`rest_exec`).
-/

namespace Mymuduo

open Lib

namespace EventLoop

variable {F T : Type*}

/-- `queueInLoop` pushes at the end; `wakeup` does not touch the queue. -/
theorem tracks_queueInLoop {l : EventLoop F T} (h : l.queue.Tracks l.ran l.pushed) (b : Bool)
    (f : F) :
    (l.queueInLoop b f).queue.Tracks (l.queueInLoop b f).ran (l.queueInLoop b f).pushed := by
  unfold queueInLoop
  simp only
  split <;> exact h.push f

@[simp] theorem queueInLoop_pc (l : EventLoop F T) (b : Bool) (f : F) :
    (l.queueInLoop b f).pc = l.pc := by
  unfold queueInLoop
  simp only
  split <;> rfl

@[simp] theorem queueInLoop_rest (l : EventLoop F T) (b : Bool) (f : F) :
    (l.queueInLoop b f).queue.rest = l.queue.rest := by
  unfold queueInLoop
  simp only
  split <;> rfl

@[simp] theorem queueInLoop_ran (l : EventLoop F T) (b : Bool) (f : F) :
    (l.queueInLoop b f).ran = l.ran := by
  unfold queueInLoop
  simp only
  split <;> rfl

variable [DecidableEq T]

theorem tracks_step {l l' : EventLoop F T} {lbl : Label F T} (h : l.queue.Tracks l.ran l.pushed)
    (hs : l.step lbl = some l') (hr : lbl = .swap → l.queue.rest = []) :
    l'.queue.Tracks l'.ran l'.pushed := by
  cases move_of_step hs with
  | foreignPush => exact h.push _
  | ownQueueInLoop => exact tracks_queueInLoop h true _
  | swap => exact h.swap (hr rfl)
  | runFunctor _ hrest => exact h.advance hrest
  | endFunctors _ hrest => exact h.finish hrest
  | _ => exact h

/-- The batch is used up outside the functor loop. -/
def RestInv (l : EventLoop F T) : Prop := l.pc = .run ∨ l.pc = .running ∨ l.queue.rest = []

theorem restInv_step {l l' : EventLoop F T} {lbl : Label F T} (h : l.RestInv)
    (hs : l.step lbl = some l') : l'.RestInv := by
  unfold RestInv at h ⊢
  cases move_of_step hs with
  | foreignPush | foreignQuit | foreignWakeup | ownQuit => exact h
  | ownQueueInLoop => simpa using h
  | swap | functorReturn => exact .inl rfl
  | runFunctor => exact .inr (.inl rfl)
  | endFunctors => exact .inr (.inr rfl)
  | enter hpc =>
    rcases hpc with hpc | hpc <;> simp only [hpc, reduceCtorEq, false_or] at h <;>
      exact .inr (.inr h)
  | clearQuit hpc | testQuit hpc | pollReturn hpc | handleRead hpc | beginFunctors hpc =>
    simp only [hpc, reduceCtorEq, false_or] at h
    exact .inr (.inr h)

/-- The queue and the place of its consumer, over one step. -/
theorem queueInv_step {l l' : EventLoop F T} {lbl : Label F T}
    (h : l.queue.Tracks l.ran l.pushed ∧ l.RestInv) (hs : l.step lbl = some l') :
    l'.queue.Tracks l'.ran l'.pushed ∧ l'.RestInv := by
  refine ⟨tracks_step h.1 hs ?_, restInv_step h.2 hs⟩
  rintro rfl
  cases move_of_step hs with
  | swap hpc => simpa [RestInv, hpc] using h.2

theorem tracks_of_reach {l : EventLoop F T} {C : EventLoop F T → Label F T → Prop}
    (h : sys.Reach C l) : l.queue.Tracks l.ran l.pushed ∧ l.RestInv := by
  refine h.invariant (I := fun l => l.queue.Tracks l.ran l.pushed ∧ l.RestInv) ?_ ?_
  · rintro _ rfl
    exact ⟨TaskQueue.tracks_empty, .inr (.inr rfl)⟩
  · intro l lbl l' hi _ hs
    exact queueInv_step hi hs

/-! ### One pass of `doPendingFunctors` -/

def Label.isRunFunctor : Label F T → Bool
  | .runFunctor => true
  | _ => false

/-- Between two swaps, a step starts the next functor of the batch or leaves the rest alone. -/
theorem rest_step {l l' : EventLoop F T} {lbl : Label F T} (hs : l.step lbl = some l')
    (hn : lbl ≠ .swap) :
    ∃ done, l.queue.rest = done ++ l'.queue.rest ∧ l'.ran = l.ran ++ done ∧
      done.length = if lbl.isRunFunctor then 1 else 0 := by
  cases move_of_step hs with
  | swap => exact absurd rfl hn
  | @runFunctor f rest _ hr => exact ⟨[f], by simp [hr], rfl, rfl⟩
  | endFunctors _ hr => exact ⟨[], by simp [hr], by simp, rfl⟩
  | ownQueueInLoop => exact ⟨[], by simp, by simp, rfl⟩
  | _ => exact ⟨[], by simp [push, wakeup], by simp [push, wakeup], rfl⟩

/-- The functors run between two swaps are the front of what the first swap took. -/
theorem rest_exec {l l' : EventLoop F T} {ls : List (Label F T)} (hn : ∀ lbl ∈ ls, lbl ≠ .swap)
    (h : sys.exec l ls = some l') :
    ∃ done, l.queue.rest = done ++ l'.queue.rest ∧ l'.ran = l.ran ++ done ∧
      done.length = ls.countP Label.isRunFunctor := by
  induction ls generalizing l with
  | nil =>
    rw [Sys.exec_nil, Option.some.injEq] at h
    exact ⟨[], by simp [h], by simp [h], rfl⟩
  | cons lbl ls ih =>
    obtain ⟨l₁, hs, h⟩ := Sys.exec_cons_eq_some.mp h
    obtain ⟨d₁, hr₁, hran₁, hl₁⟩ := rest_step hs (hn lbl (by simp))
    obtain ⟨d₂, hr₂, hran₂, hl₂⟩ := ih (fun lbl hl => hn lbl (by simp [hl])) h
    refine ⟨d₁ ++ d₂, by rw [hr₁, hr₂, List.append_assoc], by rw [hran₂, hran₁, List.append_assoc],
      ?_⟩
    rw [List.length_append, hl₁, hl₂, List.countP_cons, Nat.add_comm]

/-- **Exactly once and in order**: the functors run, the rest of the batch and the pending ones are
the functors pushed, in the order of their pushes.  Until the next swap only functors of the rest
of the batch run, however many are pushed meanwhile, and while no functor is running the pass goes
on with the next one or, when there is none, ends. -/
theorem functors_once_in_order {l : EventLoop F T} (h : sys.Reach (fun _ _ => True) l) :
    l.ran ++ l.queue.rest ++ l.queue.pending = l.pushed ∧
      (∀ ls l', (∀ lbl ∈ ls, lbl ≠ .swap) → sys.exec l ls = some l' →
        ∃ done, l.queue.rest = done ++ l'.queue.rest ∧ l'.ran = l.ran ++ done ∧
          done.length = ls.countP Label.isRunFunctor) ∧
      (l.pc = .run → l.queue.rest ≠ [] → (l.step .runFunctor).isSome) ∧
      (l.pc = .run → l.queue.rest = [] → (l.step .endFunctors).isSome) := by
  refine ⟨(tracks_of_reach h).1, fun ls l' => rest_exec, fun hpc hr => ?_, fun hpc hr => ?_⟩
  · obtain ⟨f, rest, hr⟩ := List.exists_cons_of_ne_nil hr
    simp [step, hpc, hr]
  · simp [step, hpc, hr]

/-- Functor `7` requeues itself as `8` while it runs: the pass ends and leaves `8` pending. -/
theorem functors_once_in_order_requeue :
    ∃ l : EventLoop ℕ ℕ, sys.exec new [.foreignPush 1 7, .enter, .clearQuit, .testQuit,
        .pollReturn false, .beginFunctors, .swap, .runFunctor, .ownQueueInLoop 8, .functorReturn,
        .endFunctors] = some l ∧ l.ran = [7] ∧
      l.ran ++ l.queue.rest ++ l.queue.pending = l.pushed :=
  ⟨_, rfl, rfl, (functors_once_in_order ((Sys.Reach.init rfl).exec
    ([.foreignPush 1 7, .enter, .clearQuit, .testQuit, .pollReturn false, .beginFunctors,
      .swap, .runFunctor, .ownQueueInLoop 8, .functorReturn, .endFunctors])
    (fun _ _ _ => trivial) rfl)).1⟩

end EventLoop

end Mymuduo
