import Mathlib.Algebra.Order.Group.Nat
import Mathlib.Logic.Function.Basic
import Mymuduo.Lib.TaskQueue
import Mymuduo.Lib.Transition

/-!
# Mymuduo.EventLoop — the event loop and its wakeups (`EventLoop.cc`)

One loop, its thread, and any number of foreign threads (the type `T`) that call `queueInLoop` and
`quit`.  A foreign call is two steps, the locked push (or the store of `quit`) and the write to the
eventfd; the thread is `beforeWakeup` in between.  The loop thread goes through `loop()`:

  `test` (`while (!quit)`) → `poll` (`epoll_wait`) → `dispatch` (the active channels, among them
  possibly `wakeupChannel`, whose `handleRead` resets the eventfd) → `swap`
  (`callingPendingFunctors` is set) → `run` / `running` (the functors of the batch) → `test`.

Its own calls of `queueInLoop` and `quit` are single steps: no other step of this thread can come in
between.  What a functor or a channel callback does is not modelled beyond these calls; functors are
elements of an arbitrary type `F`.  `pushed` and `ran` record the history of the queue.
-/

namespace Mymuduo

open Lib

/-- Where the thread of the loop is. -/
inductive LoopPc
  | idle
  | entered
  | test
  | poll
  | dispatch (wakeup : Bool)
  | swap
  | run
  | running
  | exited
  deriving DecidableEq, Repr

/-- The thread of the loop runs code other than `loop()` only here: before and after `loop()`, in a
channel callback, in a functor. -/
def LoopPc.calls : LoopPc → Bool
  | .idle | .dispatch _ | .running | .exited => true
  | _ => false

/-- Where a foreign thread is. -/
inductive Caller
  | outside
  | beforeWakeup
  deriving DecidableEq, Repr

structure EventLoop (F T : Type*) where
  pc : LoopPc
  looping : Bool
  quit : Bool
  callingPendingFunctors : Bool
  eventfd : ℕ
  queue : TaskQueue F
  caller : T → Caller
  pushed : List F
  ran : List F

namespace EventLoop

variable {F T : Type*}

/-- The constructor. -/
def new : EventLoop F T where
  pc := .idle
  looping := false
  quit := false
  callingPendingFunctors := false
  eventfd := 0
  queue := .empty
  caller := fun _ => .outside
  pushed := []
  ran := []

/-- The locked part of `queueInLoop`. -/
def push (l : EventLoop F T) (f : F) : EventLoop F T :=
  { l with queue := l.queue.push f, pushed := l.pushed ++ [f] }

/-- `wakeup()`: write to the eventfd. -/
def wakeup (l : EventLoop F T) : EventLoop F T := { l with eventfd := l.eventfd + 1 }

/-- `queueInLoop` as a whole, called in the loop's own thread or in another one. -/
def queueInLoop (l : EventLoop F T) (inLoopThread : Bool) (f : F) : EventLoop F T :=
  let l := l.push f
  if !inLoopThread || l.callingPendingFunctors then l.wakeup else l

inductive Label (F T : Type*)
  | foreignPush (t : T) (f : F)
  | foreignQuit (t : T)
  | foreignWakeup (t : T)
  | ownQueueInLoop (f : F)
  | ownQuit
  | enter
  | clearQuit
  | testQuit
  | pollReturn (wakeup : Bool)
  | handleRead
  | beginFunctors
  | swap
  | runFunctor
  | functorReturn
  | endFunctors

variable [DecidableEq T]

def step (l : EventLoop F T) : Label F T → Option (EventLoop F T)
  | .foreignPush t f =>
    if l.caller t = .outside then
      some { l.push f with caller := Function.update l.caller t .beforeWakeup }
    else none
  | .foreignQuit t =>
    if l.caller t = .outside then
      some { l with quit := true, caller := Function.update l.caller t .beforeWakeup }
    else none
  | .foreignWakeup t =>
    if l.caller t = .beforeWakeup then
      some { l.wakeup with caller := Function.update l.caller t .outside }
    else none
  | .ownQueueInLoop f => if l.pc.calls then some (l.queueInLoop true f) else none
  | .ownQuit => if l.pc.calls then some { l with quit := true } else none
  | .enter =>
    if l.pc = .idle ∨ l.pc = .exited then some { l with looping := true, pc := .entered } else none
  | .clearQuit => if l.pc = .entered then some { l with quit := false, pc := .test } else none
  | .testQuit =>
    if l.pc = .test then some { l with pc := if l.quit then .exited else .poll } else none
  | .pollReturn wakeup =>
    -- `epoll_wait` may report any channels, or none; the eventfd only while it is readable
    if l.pc = .poll ∧ (wakeup → l.eventfd ≠ 0) then some { l with pc := .dispatch wakeup } else none
  | .handleRead =>
    if l.pc = .dispatch true then some { l with eventfd := 0, pc := .dispatch false } else none
  | .beginFunctors =>
    if l.pc = .dispatch false then some { l with callingPendingFunctors := true, pc := .swap }
    else none
  | .swap => if l.pc = .swap then some { l with queue := l.queue.swap, pc := .run } else none
  | .runFunctor =>
    match l.pc, l.queue.rest with
    | .run, f :: _ =>
      some { l with queue := l.queue.advance, ran := l.ran ++ [f], pc := .running }
    | _, _ => none
  | .functorReturn => if l.pc = .running then some { l with pc := .run } else none
  | .endFunctors =>
    if l.pc = .run ∧ l.queue.rest = [] then
      some { l with queue := l.queue.finish, callingPendingFunctors := false, pc := .test }
    else none

/-- What one step does: `step` as a relation, with the guard of each label. -/
inductive Move (l : EventLoop F T) : Label F T → EventLoop F T → Prop
  | foreignPush {t : T} {f : F} : l.caller t = .outside → Move l (.foreignPush t f)
      { l.push f with caller := Function.update l.caller t .beforeWakeup }
  | foreignQuit {t : T} : l.caller t = .outside → Move l (.foreignQuit t)
      { l with quit := true, caller := Function.update l.caller t .beforeWakeup }
  | foreignWakeup {t : T} : l.caller t = .beforeWakeup → Move l (.foreignWakeup t)
      { l.wakeup with caller := Function.update l.caller t .outside }
  | ownQueueInLoop {f : F} : l.pc.calls → Move l (.ownQueueInLoop f) (l.queueInLoop true f)
  | ownQuit : l.pc.calls → Move l .ownQuit { l with quit := true }
  | enter : l.pc = .idle ∨ l.pc = .exited → Move l .enter { l with looping := true, pc := .entered }
  | clearQuit : l.pc = .entered → Move l .clearQuit { l with quit := false, pc := .test }
  | testQuit : l.pc = .test → Move l .testQuit { l with pc := if l.quit then .exited else .poll }
  | pollReturn {wakeup : Bool} : l.pc = .poll → (wakeup → l.eventfd ≠ 0) →
      Move l (.pollReturn wakeup) { l with pc := .dispatch wakeup }
  | handleRead : l.pc = .dispatch true → Move l .handleRead
      { l with eventfd := 0, pc := .dispatch false }
  | beginFunctors : l.pc = .dispatch false → Move l .beginFunctors
      { l with callingPendingFunctors := true, pc := .swap }
  | swap : l.pc = .swap → Move l .swap { l with queue := l.queue.swap, pc := .run }
  | runFunctor {f : F} {rest : List F} : l.pc = .run → l.queue.rest = f :: rest → Move l .runFunctor
      { l with queue := l.queue.advance, ran := l.ran ++ [f], pc := .running }
  | functorReturn : l.pc = .running → Move l .functorReturn { l with pc := .run }
  | endFunctors : l.pc = .run → l.queue.rest = [] → Move l .endFunctors
      { l with queue := l.queue.finish, callingPendingFunctors := false, pc := .test }

theorem move_of_step {l l' : EventLoop F T} {lbl : Label F T} (h : l.step lbl = some l') :
    Move l lbl l' := by
  cases lbl with
  | runFunctor =>
    simp only [step] at h
    split at h
    next f rest hpc hr =>
      cases h
      exact .runFunctor hpc hr
    next => cases h
  | pollReturn wakeup =>
    simp only [step, Option.ite_none_right_eq_some, Option.some.injEq] at h
    obtain ⟨⟨hpc, hfd⟩, rfl⟩ := h
    exact .pollReturn hpc hfd
  | endFunctors =>
    simp only [step, Option.ite_none_right_eq_some, Option.some.injEq] at h
    obtain ⟨⟨hpc, hr⟩, rfl⟩ := h
    exact .endFunctors hpc hr
  | _ =>
    simp only [step, Option.ite_none_right_eq_some, Option.some.injEq] at h
    obtain ⟨hg, rfl⟩ := h
    constructor
    exact hg

/-- All interleavings of the loop thread with the foreign threads, from construction on. -/
def sys : Sys (EventLoop F T) (Label F T) where
  init l := l = new
  step := step

end EventLoop

end Mymuduo
