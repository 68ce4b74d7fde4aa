import Mathlib.Algebra.BigOperators.Group.Finset.Piecewise
import Mathlib.Algebra.Order.BigOperators.Group.Finset
import Mathlib.Data.Fintype.EquivFin
import Mymuduo.Lib.Progress

/-!
# Mymuduo.ThreadPool — the start of a thread pool (`EventLoopThreadPool.cc`, `EventLoopThread.cc`, `Thread.cc`, `CurrentThread.cc`)

`EventLoopThreadPool::start` runs in the thread `0`, that of the base loop, and starts the threads `1, 2, …`
one after the other.  Each of them has its loop on its own stack, so a loop goes by the number of its thread.

* The new thread goes through `Thread::start`'s lambda (`tid`, `post`) and `ThreadFunc` (`construct` …
  `looping`).
* `start` waits for the semaphore, then under `mutex` for `loop`, as `startLoop` does; the wait may end
  without a notification.
* Other threads come and go, and the kernel gives a thread any `tid` that no living thread has.
-/

namespace Mymuduo

open Lib

/-! ### Threads -/

abbrev ThreadId := ℕ

/-- What a thread has of its own: its `gettid()` and its `thread_local` variables. -/
structure OsThread where
  gettid : ℕ
  cachedTid : ℕ
  loopInThisThread : Option ThreadId
  deriving DecidableEq, Repr

namespace OsThread

/-- A thread that the kernel has just created. -/
def new (tid : ℕ) : OsThread := ⟨tid, 0, none⟩

def cacheTid (t : OsThread) : OsThread :=
  if t.cachedTid = 0 then { t with cachedTid := t.gettid } else t

/-- `CurrentThread::tid`. -/
def currentTid (t : OsThread) : ℕ × OsThread :=
  let t := if t.cachedTid = 0 then t.cacheTid else t
  (t.cachedTid, t)

/-- The cache is empty or right. -/
def Cached (t : OsThread) : Prop := t.cachedTid = 0 ∨ t.cachedTid = t.gettid

theorem currentTid_eq {t : OsThread} (h : t.Cached) :
    t.currentTid = (t.gettid, { t with cachedTid := t.gettid }) := by
  obtain ⟨g, c, l⟩ := t
  by_cases h0 : c = 0
  · simp [currentTid, cacheTid, h0]
  · obtain rfl : c = g := h.resolve_left h0
    simp [currentTid, h0]

end OsThread

/-- Where a thread of the pool is; `fatal`: `LOG_FATAL` has ended the process. -/
inductive ThreadPc
  | unborn
  | tid
  | post
  | construct
  | callback
  | lock
  | publish
  | unlock
  | looping
  | fatal
  deriving DecidableEq, Repr

namespace ThreadPc

/-- The semaphore has been posted. -/
def posted : ThreadPc → Bool
  | .unborn | .tid | .post => false
  | _ => true

/-- The loop has been constructed. -/
def constructed : ThreadPc → Bool
  | .callback | .lock | .publish | .unlock | .looping => true
  | _ => false

/-- `loop_` has been set. -/
def published : ThreadPc → Bool
  | .unlock | .looping => true
  | _ => false

/-- The thread has `mutex_`. -/
def locked : ThreadPc → Bool
  | .publish | .unlock => true
  | _ => false

/-- The place after this one. -/
def next : ThreadPc → ThreadPc
  | .tid => .post
  | .post => .construct
  | .construct => .callback
  | .callback => .lock
  | .lock => .publish
  | .publish => .unlock
  | .unlock | .looping => .looping
  | .unborn => .unborn
  | .fatal => .fatal

/-- The steps that are left, those of `start` up to its wait for the semaphore included before birth. -/
def rank : ThreadPc → ℕ
  | .unborn => 15
  | .tid => 7
  | .post => 6
  | .construct => 5
  | .callback => 4
  | .lock => 3
  | .publish => 2
  | .unlock => 1
  | .looping | .fatal => 0

/-- A thread that can go on. -/
def moves : ThreadPc → Bool
  | .unborn | .looping | .fatal => false
  | _ => true

theorem rank_next {pc : ThreadPc} (h : pc.moves = true) : pc.next.rank + 1 = pc.rank := by
  cases pc with
  | unborn | looping | fatal => cases h
  | _ => rfl

theorem born_next {pc : ThreadPc} (h : pc.moves = true) : pc.next ≠ .unborn ∧ pc.next ≠ .fatal := by
  cases pc with
  | unborn | looping | fatal => cases h
  | _ => simp [next]

theorem posted_next {pc : ThreadPc} (h : pc.moves = true) :
    pc.next.posted = (pc.posted || decide (pc = .post)) := by
  cases pc with
  | unborn | looping | fatal => cases h
  | _ => rfl

theorem published_next {pc : ThreadPc} (h : pc.moves = true) :
    pc.next.published = (pc.published || decide (pc = .publish)) := by
  cases pc with
  | unborn | looping | fatal => cases h
  | _ => rfl

end ThreadPc

/-- A thread of the pool, with the loop on its stack (`threadID`, once it is constructed), its `Thread` (`tid`
and the `sem` of `start`) and its `EventLoopThread` (`mutex`, with the thread that has it, and `loop`). -/
structure PoolThread extends OsThread where
  pc : ThreadPc
  threadID : Option ℕ
  tid : ℕ
  sem : ℕ
  mutex : Option ThreadId
  loop : Option ThreadId
  deriving DecidableEq, Repr

namespace PoolThread

def unborn : PoolThread := ⟨.new 0, .unborn, none, 0, 0, none, none⟩

/-- `std::thread` has been constructed. -/
def spawned (tid : ℕ) : PoolThread := ⟨.new tid, .tid, none, 0, 0, none, none⟩

/-- The thread of the base loop, which it has constructed. -/
def base (tid : ℕ) : PoolThread := ⟨⟨tid, tid, some 0⟩, .looping, some tid, tid, 0, none, some 0⟩

/-- `EventLoop::EventLoop`, in the thread `self`. -/
def constructLoop (self : ThreadId) (t : PoolThread) : PoolThread :=
  let r := t.toOsThread.currentTid
  if r.2.loopInThisThread.isSome then { t with toOsThread := r.2, pc := .fatal }
  else { t with
    toOsThread := { r.2 with loopInThisThread := some self }
    threadID := some r.1
    pc := .callback }

/-- The next step of the thread `self`. -/
def step (self : ThreadId) (t : PoolThread) : Option PoolThread :=
  match t.pc with
  | .unborn | .looping | .fatal => none
  | .tid =>
    let r := t.toOsThread.currentTid
    some { t with toOsThread := r.2, tid := r.1, pc := .post }
  | .post => some { t with sem := t.sem + 1, pc := .construct }
  | .construct => some (t.constructLoop self)
  | .callback => some { t with pc := .lock }
  | .lock => if t.mutex = none then some { t with mutex := some self, pc := .publish } else none
  | .publish => some { t with loop := some self, pc := .unlock }
  | .unlock => some { t with mutex := none, pc := .looping }

/-- The thread `self` at `pc`, with the data that it has there. -/
def placed (self gettid : ℕ) (pc : ThreadPc) (sem : ℕ) (mutex : Option ThreadId) : PoolThread where
  gettid := gettid
  cachedTid := if pc = .tid then 0 else gettid
  loopInThisThread := if pc.constructed then some self else none
  pc := pc
  threadID := if pc.constructed then some gettid else none
  tid := if pc = .tid then 0 else gettid
  sem := sem
  mutex := mutex
  loop := if pc.published then some self else none

/-- The thread after it has taken or left the lock. -/
def nextMutex (self : ThreadId) (pc : ThreadPc) (mutex : Option ThreadId) : Option ThreadId :=
  match pc with
  | .lock => some self
  | .unlock => none
  | _ => mutex

theorem step_placed {self gettid : ℕ} {pc : ThreadPc} {sem : ℕ} {mutex : Option ThreadId}
    (hg : gettid ≠ 0) : (placed self gettid pc sem mutex).step self =
      if pc.moves = true ∧ (pc = .lock → mutex = none) then
        some (placed self gettid pc.next (if pc = .post then sem + 1 else sem) (nextMutex self pc mutex))
      else none := by
  cases pc with
  | lock => cases mutex <;> rfl
  | construct =>
    simp [placed, step, constructLoop, OsThread.currentTid, hg, ThreadPc.constructed, ThreadPc.published,
      ThreadPc.next, ThreadPc.moves, nextMutex]
  | _ => rfl

/-- The thread `t` has been started; its data are those of its place. -/
structure Shape (t : ThreadId) (th : PoolThread) : Prop where
  placed : th = .placed t th.gettid th.pc th.sem th.mutex
  born : th.pc ≠ .unborn ∧ th.pc ≠ .fatal
  gettid : th.gettid ≠ 0
  locked : th.mutex = some t ↔ th.pc.locked = true
  holder : th.mutex = none ∨ th.mutex = some 0 ∨ th.mutex = some t

theorem Shape.loop_eq {t : ThreadId} {th : PoolThread} (h : th.Shape t) :
    th.loop = if th.pc.published then some t else none := by
  rw [h.placed]
  rfl

theorem Shape.set {t : ThreadId} {th : PoolThread} (h : th.Shape t) (sem : ℕ) {mutex : Option ThreadId}
    (hl : mutex = some t ↔ th.pc.locked = true) (hh : mutex = none ∨ mutex = some 0 ∨ mutex = some t) :
    Shape t { th with sem := sem, mutex := mutex } :=
  ⟨congrArg (fun x : PoolThread => { x with sem := sem, mutex := mutex }) h.placed, h.born, h.gettid, hl, hh⟩

theorem shape_spawned {tid : ℕ} (h : tid ≠ 0) {t : ThreadId} : (spawned tid).Shape t :=
  ⟨rfl, by simp [spawned], h, iff_of_false (by simp [spawned]) (by simp [spawned, ThreadPc.locked]), .inl rfl⟩

theorem shape_base {tid : ℕ} (h : tid ≠ 0) : (base tid).Shape 0 :=
  ⟨rfl, by simp [base], h, iff_of_false (by simp [base]) (by simp [base, ThreadPc.locked]), .inl rfl⟩

theorem Shape.cached {t : ThreadId} {th : PoolThread} (h : th.Shape t) : th.toOsThread.Cached := by
  rw [h.placed]
  by_cases hpc : th.pc = .tid
  · exact .inl (if_pos hpc)
  · exact .inr (if_neg hpc)

/-- What a step of the thread `t` does: it goes on by one place and leaves the lock of `start` alone. -/
structure Steps (t : ThreadId) (th th' : PoolThread) : Prop where
  shape : th'.Shape t
  gettid : th'.gettid = th.gettid
  pc : th'.pc = th.pc.next
  sem : th'.sem = if th.pc = .post then th.sem + 1 else th.sem
  mutex : th'.mutex = some 0 ↔ th.mutex = some 0
  moves : th.pc.moves = true

/-- The lock is with the thread where it should be, and the lock of `start` is left alone. -/
theorem nextMutex_spec {t : ThreadId} {pc : ThreadPc} {mutex : Option ThreadId} (h0 : t ≠ 0)
    (hmoves : pc.moves = true) (hfree : pc = .lock → mutex = none)
    (hlocked : mutex = some t ↔ pc.locked = true)
    (hholder : mutex = none ∨ mutex = some 0 ∨ mutex = some t) :
    (nextMutex t pc mutex = some t ↔ pc.next.locked = true) ∧
      (nextMutex t pc mutex = none ∨ nextMutex t pc mutex = some 0 ∨ nextMutex t pc mutex = some t) ∧
      (nextMutex t pc mutex = some 0 ↔ mutex = some 0) := by
  cases pc with
  | unborn | looping | fatal => cases hmoves
  | lock =>
    obtain rfl := hfree rfl
    exact ⟨iff_of_true rfl rfl, .inr (.inr rfl), by simp [nextMutex, h0]⟩
  | unlock =>
    obtain rfl := hlocked.mpr rfl
    exact ⟨iff_of_false (by simp [nextMutex]) Bool.false_ne_true, .inl rfl, by simp [nextMutex, h0]⟩
  | _ => exact ⟨hlocked, hholder, Iff.rfl⟩

theorem steps_of_step {t : ThreadId} {th th' : PoolThread} (h0 : t ≠ 0) (h : th.Shape t)
    (hst : th.step t = some th') : th.Steps t th' := by
  obtain ⟨hplaced, hborn, hg, hlocked, hholder⟩ := h
  rw [hplaced, step_placed hg] at hst
  obtain ⟨⟨hmoves, hfree⟩, rfl⟩ := of_guard hst
  obtain ⟨h1, h2, h3⟩ := nextMutex_spec h0 hmoves hfree hlocked hholder
  exact ⟨⟨rfl, ThreadPc.born_next hmoves, hg, h1, h2⟩, rfl, rfl, rfl, h3, hmoves⟩

/-- Only a lock that is taken holds it up. -/
theorem step_isSome {t : ThreadId} {th : PoolThread} (h : th.Shape t) (hp : th.pc.moves = true)
    (hm : th.pc = .lock → th.mutex = none) : (th.step t).isSome = true := by
  rw [h.placed, step_placed h.gettid, if_pos ⟨hp, hm⟩]
  rfl

end PoolThread

/-! ### The pool -/

/-- Where `start` is; from `semWait` to `unlock` it starts the thread `current`. -/
inductive PoolPc
  | next
  | semWait
  | lock
  | test
  | waiting
  | unlock (loop : ThreadId)
  | returned
  deriving DecidableEq, Repr

/-- The steps that `start` has before it with the thread that it starts; `published` says that this has set
`loop`. -/
def PoolPc.rank (published : Bool) : PoolPc → ℕ
  | .semWait => 7
  | .lock => if published then 3 else 6
  | .test => if published then 2 else 5
  | .waiting => 4
  | .unlock _ => 1
  | .next | .returned => 0

theorem PoolPc.rank_mono (pc : PoolPc) {b b' : Bool} (h : b = true → b' = true) : pc.rank b' ≤ pc.rank b := by
  cases b with
  | true => rw [h rfl]
  | false => cases b' <;> cases pc <;> simp [PoolPc.rank]

/-- `notified`: the wait on `cond_` has been notified. -/
structure EventLoopThreadPool where
  pc : PoolPc
  loops : List ThreadId
  thread : ThreadId → PoolThread
  notified : Bool
  others : ℕ → Option OsThread

namespace EventLoopThreadPool

/-- The thread that is started next. -/
def current (s : EventLoopThreadPool) : ThreadId := s.loops.length + 1

def setThread (t : ThreadId) (th : PoolThread) (s : EventLoopThreadPool) : EventLoopThreadPool :=
  { s with thread := Function.update s.thread t th }

def getAllLoops (s : EventLoopThreadPool) : List ThreadId := if s.loops = [] then [0] else s.loops

/-- `loop->isInLoopThread()`, called in the thread `t`. -/
def isInLoopThread (t : OsThread) (loop : ThreadId) (s : EventLoopThreadPool) : Bool :=
  decide ((s.thread loop).threadID = some t.currentTid.1)

/-- The thread `tid` of the base loop has called `start`. -/
def started (tid : ℕ) : EventLoopThreadPool where
  pc := .next
  loops := []
  thread t := if t = 0 then .base tid else .unborn
  notified := false
  others := fun _ => none

inductive Label
  | spawn (tid : ℕ)
  | semWait
  | lock
  | test
  | wake
  | spuriousWake
  | unlock
  | startReturn
  | thread (t : ThreadId)
  | otherSpawn (o tid : ℕ)
  | otherTid (o : ℕ)
  | otherExit (o : ℕ)
  deriving DecidableEq, Repr

/-- No living thread has it; at most `m` other threads live at a time. -/
def FreeTid (m : ℕ) (s : EventLoopThreadPool) (tid : ℕ) : Prop :=
  tid ≠ 0 ∧ (∀ t ≤ s.current, (s.thread t).pc ≠ .unborn → (s.thread t).gettid ≠ tid) ∧
    ∀ o < m, ∀ t ∈ s.others o, t.gettid ≠ tid

instance (m : ℕ) (s : EventLoopThreadPool) (tid : ℕ) : Decidable (s.FreeTid m tid) :=
  inferInstanceAs (Decidable (_ ∧ _ ∧ _))

def step (numThreads : ℤ) (m : ℕ) (s : EventLoopThreadPool) : Label → Option EventLoopThreadPool
  | .spawn tid =>
    if s.pc = .next ∧ s.loops.length < numThreads ∧ s.FreeTid m tid then
      some ({ s with pc := .semWait }.setThread s.current (.spawned tid))
    else none
  | .semWait =>
    let th := s.thread s.current
    if s.pc = .semWait ∧ 0 < th.sem then
      some ({ s with pc := .lock }.setThread s.current { th with sem := th.sem - 1 })
    else none
  | .lock =>
    let th := s.thread s.current
    if s.pc = .lock ∧ th.mutex = none then
      some ({ s with pc := .test }.setThread s.current { th with mutex := some 0 })
    else none
  | .test =>
    let th := s.thread s.current
    if s.pc = .test then
      match th.loop with
      | none => some ({ s with pc := .waiting, notified := false }.setThread s.current
          { th with mutex := none })
      | some loop => some { s with pc := .unlock loop }
    else none
  | .wake => if s.pc = .waiting ∧ s.notified = true then some { s with pc := .lock } else none
  | .spuriousWake => if s.pc = .waiting then some { s with pc := .lock } else none
  | .unlock =>
    let th := s.thread s.current
    match s.pc with
    | .unlock loop => some ({ s with pc := .next, loops := s.loops ++ [loop] }.setThread s.current
        { th with mutex := none })
    | _ => none
  | .startReturn =>
    if s.pc = .next ∧ ¬ s.loops.length < numThreads then some { s with pc := .returned } else none
  | .thread t =>
    ((s.thread t).step t).map fun th =>
      { s.setThread t th with
        -- `notify_one` reaches the wait on the `cond_` of this thread only
        notified := s.notified || decide ((s.thread t).pc = .publish ∧ s.pc = .waiting ∧ t = s.current) }
  | .otherSpawn o tid =>
    if o < m ∧ s.others o = none ∧ s.FreeTid m tid then
      some { s with others := Function.update s.others o (some (.new tid)) }
    else none
  | .otherTid o =>
    (s.others o).map fun t => { s with others := Function.update s.others o (some t.currentTid.2) }
  | .otherExit o =>
    (s.others o).map fun _ => { s with others := Function.update s.others o none }

/-- The start of `numThreads` threads, in a process whose main thread is `tid`. -/
def sys (numThreads : ℤ) (m tid : ℕ) : Sys EventLoopThreadPool Label where
  init s := s = started tid ∧ tid ≠ 0
  step := step numThreads m

/-- The start of one thread, with a wait that ends without a notification. -/
def startOne : List Label :=
  [.spawn 101, .thread 1, .thread 1, .semWait, .lock, .test, .spuriousWake, .lock, .test, .thread 1, .thread 1,
    .thread 1, .thread 1, .thread 1, .wake, .lock, .test, .unlock, .startReturn]

/-! ### What the steps keep -/

section Move

variable {numThreads : ℤ} {m : ℕ} {s s' : EventLoopThreadPool}

/-- The steps, with the thread that is being started. -/
inductive Move (numThreads : ℤ) (m : ℕ) (s : EventLoopThreadPool) : Label → EventLoopThreadPool → Prop
  | spawn {tid : ℕ} : s.pc = .next → s.loops.length < numThreads → s.FreeTid m tid →
      Move numThreads m s (.spawn tid)
        ({ s with pc := .semWait }.setThread s.current (.spawned tid))
  | semWait {th : PoolThread} : s.pc = .semWait → s.thread s.current = th → 0 < th.sem →
      Move numThreads m s .semWait
        ({ s with pc := .lock }.setThread s.current { th with sem := th.sem - 1 })
  | lock {th : PoolThread} : s.pc = .lock → s.thread s.current = th → th.mutex = none →
      Move numThreads m s .lock ({ s with pc := .test }.setThread s.current { th with mutex := some 0 })
  | wait {th : PoolThread} : s.pc = .test → s.thread s.current = th → th.loop = none →
      Move numThreads m s .test
        ({ s with pc := .waiting, notified := false }.setThread s.current { th with mutex := none })
  | found {loop : ThreadId} : s.pc = .test → (s.thread s.current).loop = some loop →
      Move numThreads m s .test { s with pc := .unlock loop }
  | wake : s.pc = .waiting → s.notified = true → Move numThreads m s .wake { s with pc := .lock }
  | spuriousWake : s.pc = .waiting → Move numThreads m s .spuriousWake { s with pc := .lock }
  | unlock {th : PoolThread} {loop : ThreadId} : s.pc = .unlock loop → s.thread s.current = th →
      Move numThreads m s .unlock ({ s with pc := .next, loops := s.loops ++ [loop] }.setThread s.current
        { th with mutex := none })
  | startReturn : s.pc = .next → ¬ s.loops.length < numThreads →
      Move numThreads m s .startReturn { s with pc := .returned }
  | thread {t : ThreadId} {th th' : PoolThread} {b : Bool} : s.thread t = th → th.step t = some th' →
      b = (s.notified || decide (th.pc = .publish ∧ s.pc = .waiting ∧ t = s.current)) →
      Move numThreads m s (.thread t) { s.setThread t th' with notified := b }
  | otherSpawn {o tid : ℕ} : o < m → s.others o = none → s.FreeTid m tid →
      Move numThreads m s (.otherSpawn o tid)
        { s with others := Function.update s.others o (some (.new tid)) }
  | otherTid {o : ℕ} {t : OsThread} : s.others o = some t →
      Move numThreads m s (.otherTid o) { s with others := Function.update s.others o (some t.currentTid.2) }
  | otherExit {o : ℕ} {t : OsThread} : s.others o = some t →
      Move numThreads m s (.otherExit o) { s with others := Function.update s.others o none }

theorem move_of_step {lab : Label} (h : s.step numThreads m lab = some s') : Move numThreads m s lab s' := by
  cases lab with
  | spawn tid =>
    obtain ⟨⟨h1, h2, h3⟩, rfl⟩ := of_guard h
    exact .spawn h1 h2 h3
  | semWait =>
    obtain ⟨⟨h1, h2⟩, rfl⟩ := of_guard h
    exact .semWait h1 rfl h2
  | lock =>
    obtain ⟨⟨h1, h2⟩, rfl⟩ := of_guard h
    exact .lock h1 rfl h2
  | test =>
    simp only [step, Option.ite_none_right_eq_some] at h
    obtain ⟨hpc, h⟩ := h
    split at h
    next hl => exact Option.some.inj h ▸ .wait hpc rfl hl
    next loop hl => exact Option.some.inj h ▸ .found hpc hl
  | wake =>
    obtain ⟨⟨h1, h2⟩, rfl⟩ := of_guard h
    exact .wake h1 h2
  | spuriousWake =>
    obtain ⟨h1, rfl⟩ := of_guard h
    exact .spuriousWake h1
  | unlock =>
    simp only [step] at h
    split at h
    next loop hpc => exact Option.some.inj h ▸ .unlock hpc rfl
    next => cases h
  | startReturn =>
    obtain ⟨⟨h1, h2⟩, rfl⟩ := of_guard h
    exact .startReturn h1 h2
  | thread t =>
    obtain ⟨th, hth, rfl⟩ := Option.map_eq_some_iff.mp h
    exact .thread rfl hth rfl
  | otherSpawn o tid =>
    obtain ⟨⟨h1, h2, h3⟩, rfl⟩ := of_guard h
    exact .otherSpawn h1 h2 h3
  | otherTid o =>
    obtain ⟨t, ht, rfl⟩ := Option.map_eq_some_iff.mp h
    exact .otherTid ht
  | otherExit o =>
    obtain ⟨t, ht, rfl⟩ := Option.map_eq_some_iff.mp h
    exact .otherExit ht

end Move

@[simp] theorem setThread_self (t : ThreadId) (th : PoolThread) (s : EventLoopThreadPool) :
    (s.setThread t th).thread t = th :=
  Function.update_self ..

theorem setThread_of_ne {t t' : ThreadId} (h : t' ≠ t) (th : PoolThread) (s : EventLoopThreadPool) :
    (s.setThread t th).thread t' = s.thread t' :=
  Function.update_of_ne h ..

theorem setThread_apply (t t' : ThreadId) (th : PoolThread) (s : EventLoopThreadPool) :
    (s.setThread t th).thread t' = if t' = t then th else s.thread t' :=
  Function.update_apply ..

theorem thread_eq_ite (s : EventLoopThreadPool) (t t' : ThreadId) :
    s.thread t' = if t' = t then s.thread t else s.thread t' := by
  split
  next h => rw [h]
  next => rfl

/-- Between `start` and the thread that it starts. -/
structure Handshake (pc : PoolPc) (notified : Bool) (th : PoolThread) : Prop where
  sem : pc = .semWait → th.sem = if th.pc.posted then 1 else 0
  posted : pc ≠ .semWait → th.pc.posted = true
  mutex : th.mutex = some 0 ↔ pc = .test ∨ ∃ loop, pc = .unlock loop
  notified : pc = .waiting → (notified = true ↔ th.pc.published = true)
  found : ∀ loop, pc = .unlock loop → th.loop = some loop

/-- A living thread has its tid for itself. -/
structure Tids (m : ℕ) (s : EventLoopThreadPool) : Prop where
  pool : ∀ t t', (s.thread t).pc ≠ .unborn → (s.thread t').pc ≠ .unborn →
    (s.thread t).gettid = (s.thread t').gettid → t = t'
  others : ∀ o t, s.others o = some t → o < m ∧ t.Cached ∧ t.gettid ≠ 0 ∧ t.loopInThisThread = none ∧
    ∀ t', (s.thread t').pc ≠ .unborn → (s.thread t').gettid ≠ t.gettid

theorem Tids.of_same {m : ℕ} {s s' : EventLoopThreadPool} (h : s.Tids m)
    (hth : ∀ t, (s'.thread t).gettid = (s.thread t).gettid ∧
      ((s'.thread t).pc ≠ .unborn → (s.thread t).pc ≠ .unborn)) (ho : s'.others = s.others) :
    s'.Tids m := by
  refine ⟨fun t t' ht ht' he => ?_, fun o t hot => ?_⟩
  · rw [(hth t).1, (hth t').1] at he
    exact h.pool t t' ((hth t).2 ht) ((hth t').2 ht') he
  · obtain ⟨h1, h2, h3, h4, h5⟩ := h.others o t (ho ▸ hot)
    refine ⟨h1, h2, h3, h4, fun t' ht' => ?_⟩
    rw [(hth t').1]
    exact h5 t' ((hth t').2 ht')

/-- A new thread has a tid that is free. -/
theorem Tids.spawn {m : ℕ} {s s' : EventLoopThreadPool} (h : s.Tids m) {tid : ℕ} (hf : s.FreeTid m tid)
    (hu : ∀ t, s.current < t → s.thread t = .unborn) (ht : s'.thread s.current = .spawned tid)
    (hth : ∀ t, t ≠ s.current → s'.thread t = s.thread t) (ho : s'.others = s.others) : s'.Tids m := by
  have hfree : ∀ t, t ≠ s.current → (s'.thread t).pc ≠ .unborn → (s'.thread t).gettid ≠ tid := by
    intro t hn hb
    rw [hth t hn] at hb ⊢
    refine hf.2.1 t (not_lt.mp fun hlt => hb ?_) hb
    rw [hu t hlt]
    rfl
  refine ⟨fun t t' hb hb' he => ?_, fun o t hot => ?_⟩
  · by_cases hc : t = s.current <;> by_cases hc' : t' = s.current
    · rw [hc, hc']
    · rw [hc, ht] at he
      exact absurd he.symm (hfree t' hc' hb')
    · rw [hc', ht] at he
      exact absurd he (hfree t hc hb)
    · rw [hth t hc] at hb he
      rw [hth t' hc'] at hb' he
      exact h.pool t t' hb hb' he
  · rw [ho] at hot
    obtain ⟨h1, h2, h3, h4, h5⟩ := h.others o t hot
    refine ⟨h1, h2, h3, h4, fun t' hb => ?_⟩
    by_cases hc : t' = s.current
    · rw [hc, ht]
      exact fun he => hf.2.2 o h1 t hot he.symm
    · rw [hth t' hc] at hb ⊢
      exact h5 t' hb

/-- Another thread comes, goes, or reads its tid. -/
theorem Tids.setOther {m : ℕ} {s : EventLoopThreadPool} (h : s.Tids m) (o : ℕ) {x : Option OsThread}
    (hx : ∀ t, x = some t → o < m ∧ t.Cached ∧ t.gettid ≠ 0 ∧ t.loopInThisThread = none ∧
      ∀ t', (s.thread t').pc ≠ .unborn → (s.thread t').gettid ≠ t.gettid) :
    Tids m { s with others := Function.update s.others o x } := by
  refine ⟨h.pool, fun o' t hot => ?_⟩
  change Function.update s.others o x o' = some t at hot
  by_cases hc : o' = o
  · rw [hc, Function.update_self] at hot
    exact hc ▸ hx t hot
  · rw [Function.update_of_ne hc] at hot
    exact h.others o' t hot

/-- What holds at every moment of the start. -/
structure Good (numThreads : ℤ) (m : ℕ) (s : EventLoopThreadPool) : Prop where
  loops : s.loops = List.range' 1 s.loops.length
  count : s.loops.length ≤ numThreads.toNat
  base : (s.thread 0).pc = .looping
  unborn : ∀ t, s.current < t → s.thread t = .unborn
  resting : s.pc = .next ∨ s.pc = .returned → s.thread s.current = .unborn
  starting : s.pc ≠ .next → s.pc ≠ .returned → s.loops.length < numThreads.toNat ∧
    (s.thread s.current).Shape s.current ∧ Handshake s.pc s.notified (s.thread s.current)
  done : ∀ t ≤ s.loops.length, (s.thread t).Shape t ∧ (s.thread t).pc.published = true ∧
    (s.thread t).mutex ≠ some 0
  returned : s.pc = .returned → s.loops.length = numThreads.toNat
  tids : s.Tids m

namespace Good

variable {numThreads : ℤ} {m : ℕ} {s s' : EventLoopThreadPool}

theorem start {tid : ℕ} (h : tid ≠ 0) : Good numThreads m (started tid) where
  loops := rfl
  count := Nat.zero_le _
  base := rfl
  unborn t ht := if_neg (Nat.ne_of_gt (Nat.zero_lt_of_lt ht))
  resting _ := rfl
  starting hn := absurd rfl hn
  done t ht := by
    obtain rfl : t = 0 := Nat.le_zero.mp ht
    exact ⟨PoolThread.shape_base h, rfl, by simp [started, PoolThread.base]⟩
  returned hr := PoolPc.noConfusion hr
  tids := by
    have hborn : ∀ t, ((started tid).thread t).pc ≠ .unborn → t = 0 := by
      intro t ht
      by_contra hn
      exact ht (congrArg PoolThread.pc (if_neg hn))
    refine ⟨fun t t' ht ht' _ => (hborn t ht).trans (hborn t' ht').symm, fun o t ho => ?_⟩
    cases ho

/-- A step between `start` and the thread that it starts. -/
theorem handshake (h : Good numThreads m s) (hn : s.pc ≠ .next) (hr : s.pc ≠ .returned)
    {th : PoolThread} (hl : s'.loops = s.loops) (ho : s'.others = s.others)
    (hth : ∀ t, s'.thread t = if t = s.current then th else s.thread t)
    (hn' : s'.pc ≠ .next) (hr' : s'.pc ≠ .returned) (hshape : th.Shape s.current)
    (hget : th.gettid = (s.thread s.current).gettid) (hhand : Handshake s'.pc s'.notified th) :
    Good numThreads m s' := by
  have hcur : s'.current = s.current := congrArg (fun l : List ThreadId => l.length + 1) hl
  have hself : s'.thread s.current = th := (hth _).trans (if_pos rfl)
  have hother : ∀ t, t ≠ s.current → s'.thread t = s.thread t := fun t ht => (hth t).trans (if_neg ht)
  obtain ⟨hlt, hshape', -⟩ := h.starting hn hr
  refine ⟨hl ▸ h.loops, hl ▸ h.count, ?_, fun t ht => ?_, fun hp => ?_, fun _ _ => ?_, fun t ht => ?_,
    fun hp => absurd hp hr', h.tids.of_same (fun t => ?_) ho⟩
  · rw [hother 0 (Nat.succ_ne_zero _).symm]
    exact h.base
  · rw [hcur] at ht
    rw [hother t (Nat.ne_of_gt ht)]
    exact h.unborn t ht
  · rcases hp with hp | hp
    · exact absurd hp hn'
    · exact absurd hp hr'
  · rw [hl, hcur, hself]
    exact ⟨hlt, hshape, hhand⟩
  · rw [hl] at ht
    rw [hother t (Nat.ne_of_lt (Nat.lt_succ_of_le ht))]
    exact h.done t ht
  · by_cases ht : t = s.current
    · rw [ht, hself, hget]
      exact ⟨rfl, fun _ => hshape'.born.1⟩
    · rw [hother t ht]
      exact ⟨rfl, id⟩

theorem of_spawn (h : Good numThreads m s) (hlt : s.loops.length < numThreads) {tid : ℕ}
    (hf : s.FreeTid m tid) (hl : s'.loops = s.loops) (ho : s'.others = s.others)
    (hself : s'.thread s.current = .spawned tid)
    (hother : ∀ t, t ≠ s.current → s'.thread t = s.thread t) (hp : s'.pc = .semWait) :
    Good numThreads m s' := by
  have hcur : s'.current = s.current := congrArg (fun l : List ThreadId => l.length + 1) hl
  refine ⟨hl ▸ h.loops, hl ▸ h.count, ?_, fun t ht => ?_, fun hr => ?_, fun _ _ => ?_, fun t ht => ?_,
    fun hr => ?_, h.tids.spawn hf h.unborn hself hother ho⟩
  · rw [hother 0 (Nat.succ_ne_zero _).symm]
    exact h.base
  · rw [hcur] at ht
    rw [hother t (Nat.ne_of_gt ht)]
    exact h.unborn t ht
  · rw [hp] at hr
    rcases hr with hr | hr <;> cases hr
  · rw [hl, hcur, hself, hp]
    refine ⟨Int.lt_toNat.mpr hlt, PoolThread.shape_spawned hf.1, fun _ => rfl, fun hn => absurd rfl hn, ?_,
      fun hw => PoolPc.noConfusion hw, fun _ hw => PoolPc.noConfusion hw⟩
    simp [PoolThread.spawned]
  · rw [hl] at ht
    rw [hother t (Nat.ne_of_lt (Nat.lt_succ_of_le ht))]
    exact h.done t ht
  · rw [hp] at hr
    cases hr

/-- `startLoop` returns the loop of the thread. -/
theorem of_unlock (h : Good numThreads m s) {loop : ThreadId} (hp : s.pc = .unlock loop)
    (hl : s'.loops = s.loops ++ [loop]) (ho : s'.others = s.others)
    (hself : s'.thread s.current = { s.thread s.current with mutex := none })
    (hother : ∀ t, t ≠ s.current → s'.thread t = s.thread t) (hp' : s'.pc = .next) :
    Good numThreads m s' := by
  obtain ⟨hlt, hshape, hhand⟩ := h.starting (by simp [hp]) (by simp [hp])
  have hfound := hhand.found loop hp
  have hloop := hshape.loop_eq
  rw [hfound] at hloop
  have hpub : (s.thread s.current).pc.published = true := by
    by_contra hn
    rw [if_neg hn] at hloop
    cases hloop
  rw [if_pos hpub] at hloop
  obtain rfl := Option.some.inj hloop
  have hlen : s'.loops.length = s.loops.length + 1 := by rw [hl, List.length_append, List.length_singleton]
  have hmutex : (s.thread s.current).mutex = some 0 := hhand.mutex.mpr (.inr ⟨_, hp⟩)
  have hlocked : ¬ (s.thread s.current).pc.locked = true := by
    rw [← hshape.locked, hmutex]
    exact fun he => (Nat.succ_ne_zero _).symm (Option.some.inj he)
  refine ⟨?_, hlen ▸ hlt, ?_, fun t ht => ?_, fun _ => ?_, fun hn => absurd hp' hn, fun t ht => ?_,
    fun hr => ?_, h.tids.of_same (fun t => ?_) ho⟩
  · rw [hlen, hl, List.range'_concat, ← h.loops]
    simp [current, Nat.add_comm]
  · rw [hother 0 (Nat.succ_ne_zero _).symm]
    exact h.base
  · have ht' : s.current < t := by
      rw [current, hlen] at ht
      exact Nat.lt_of_succ_lt ht
    rw [hother t (Nat.ne_of_gt ht')]
    exact h.unborn t ht'
  · have hc : s.current < s'.current := by rw [current, current, hlen]; exact Nat.lt_succ_self _
    rw [hother _ (Nat.ne_of_gt hc)]
    exact h.unborn _ hc
  · rw [hlen] at ht
    rcases Nat.le_succ_iff.mp ht with ht | rfl
    · rw [hother t (Nat.ne_of_lt (Nat.lt_succ_of_le ht))]
      exact h.done t ht
    · show (s'.thread s.current).Shape s.current ∧ (s'.thread s.current).pc.published = true ∧
        (s'.thread s.current).mutex ≠ some 0
      rw [hself]
      exact ⟨hshape.set _ (iff_of_false (by simp) hlocked) (.inl rfl), hpub, by simp⟩
  · rw [hp'] at hr
    cases hr
  · by_cases ht : t = s.current
    · rw [ht, hself]
      exact ⟨rfl, id⟩
    · rw [hother t ht]
      exact ⟨rfl, id⟩

/-- A thread of the pool goes on. -/
theorem of_thread (h : Good numThreads m s) {t : ThreadId} {th' : PoolThread}
    (hst : (s.thread t).step t = some th') (hl : s'.loops = s.loops) (ho : s'.others = s.others)
    (hth : ∀ t', s'.thread t' = if t' = t then th' else s.thread t') (hpc : s'.pc = s.pc)
    (hb : s'.notified = (s.notified ||
      decide ((s.thread t).pc = .publish ∧ s.pc = .waiting ∧ t = s.current))) :
    Good numThreads m s' := by
  have h0 : t ≠ 0 := by
    rintro rfl
    simp [PoolThread.step, h.base] at hst
  have hself : s'.thread t = th' := (hth t).trans (if_pos rfl)
  have hother : ∀ t', t' ≠ t → s'.thread t' = s.thread t' := fun t' hn => (hth t').trans (if_neg hn)
  have hcur : s'.current = s.current := congrArg (fun l : List ThreadId => l.length + 1) hl
  have hborn : s.thread t ≠ .unborn := fun he => by
    rw [he] at hst
    cases hst
  by_cases hc : t = s.current
  · subst hc
    have hn : s.pc ≠ .next := fun hp => hborn (h.resting (.inl hp))
    have hr : s.pc ≠ .returned := fun hp => hborn (h.resting (.inr hp))
    obtain ⟨-, hshape, hhand⟩ := h.starting hn hr
    have hsteps := PoolThread.steps_of_step h0 hshape hst
    refine h.handshake hn hr hl ho hth (hpc ▸ hn) (hpc ▸ hr) hsteps.shape hsteps.gettid ?_
    rw [hpc, hb]
    refine ⟨fun hw => ?_, fun hw => ?_, hsteps.mutex.trans hhand.mutex, fun hw => ?_, fun loop hw => ?_⟩
    · rw [hsteps.sem, hsteps.pc, ThreadPc.posted_next hsteps.moves, hhand.sem hw]
      by_cases hpost : (s.thread s.current).pc = .post
      · simp [hpost, ThreadPc.posted]
      · simp [hpost]
    · rw [hsteps.pc, ThreadPc.posted_next hsteps.moves, hhand.posted hw, Bool.true_or]
    · rw [hsteps.pc, ThreadPc.published_next hsteps.moves, Bool.or_eq_true, Bool.or_eq_true,
        hhand.notified hw]
      simp [hw]
    · have hloop := hhand.found loop hw
      rw [hshape.loop_eq, Option.ite_none_right_eq_some] at hloop
      rw [hsteps.shape.loop_eq, hsteps.pc, ThreadPc.published_next hsteps.moves, hloop.1, Bool.true_or,
        if_pos rfl, hloop.2]
  · have hle : t ≤ s.loops.length := by
      by_contra hn
      refine hborn (h.unborn t (Nat.lt_of_le_of_ne (not_le.mp hn) (Ne.symm hc)))
    obtain ⟨hshape, hpub, hmutex⟩ := h.done t hle
    have hsteps := PoolThread.steps_of_step h0 hshape hst
    have hcur' : s'.thread s.current = s.thread s.current := hother _ (Ne.symm hc)
    have hb' : s'.notified = s.notified := by simp [hb, hc]
    refine ⟨hl ▸ h.loops, hl ▸ h.count, ?_, fun t' ht => ?_, fun hp => ?_, fun hn hr => ?_, fun t' ht => ?_,
      fun hr => ?_, h.tids.of_same (fun t' => ?_) ho⟩
    · rw [hother 0 (Ne.symm h0)]
      exact h.base
    · rw [hcur] at ht
      rw [hother t' fun he => Nat.not_le_of_lt (he ▸ ht) (Nat.le_succ_of_le hle)]
      exact h.unborn t' ht
    · rw [hcur, hcur']
      exact h.resting (hpc ▸ hp)
    · rw [hl, hcur, hcur', hb', hpc]
      exact h.starting (hpc ▸ hn) (hpc ▸ hr)
    · rw [hl] at ht
      by_cases he : t' = t
      · rw [he, hself, hsteps.pc, ThreadPc.published_next hsteps.moves, hpub]
        exact ⟨hsteps.shape, rfl, fun hm => hmutex (hsteps.mutex.mp hm)⟩
      · rw [hother t' he]
        exact h.done t' ht
    · rw [hl]
      exact h.returned (hpc ▸ hr)
    · by_cases he : t' = t
      · rw [he, hself]
        exact ⟨hsteps.gettid, fun _ => hshape.born.1⟩
      · rw [hother t' he]
        exact ⟨rfl, id⟩

theorem of_others (h : Good numThreads m s) (o : ℕ) {x : Option OsThread}
    (hx : ∀ t, x = some t → o < m ∧ t.Cached ∧ t.gettid ≠ 0 ∧ t.loopInThisThread = none ∧
      ∀ t', (s.thread t').pc ≠ .unborn → (s.thread t').gettid ≠ t.gettid) :
    Good numThreads m { s with others := Function.update s.others o x } :=
  { h with tids := h.tids.setOther o hx }

theorem step (h : Good numThreads m s) {lab : Label} (hst : s.step numThreads m lab = some s') :
    Good numThreads m s' := by
  cases move_of_step hst with
  | spawn hp hlt hf =>
    exact h.of_spawn hlt hf rfl rfl (Function.update_self ..) (fun t ht => Function.update_of_ne ht ..) rfl
  | semWait hp hth hsem =>
    subst hth
    obtain ⟨hn, hr⟩ : s.pc ≠ .next ∧ s.pc ≠ .returned := by simp [hp]
    obtain ⟨-, hshape, hhand⟩ := h.starting hn hr
    have hposted : (s.thread s.current).pc.posted = true := by
      by_contra hpost
      rw [hhand.sem hp, if_neg hpost] at hsem
      exact Nat.lt_irrefl 0 hsem
    have hmutex := hhand.mutex
    rw [hp] at hmutex
    exact h.handshake hn hr rfl rfl (fun t => setThread_apply _ t _ _) (fun hp => PoolPc.noConfusion hp)
      (fun hp => PoolPc.noConfusion hp) (hshape.set _ hshape.locked hshape.holder) rfl
      ⟨fun hw => PoolPc.noConfusion hw, fun _ => hposted, by simpa [setThread] using hmutex,
        fun hw => PoolPc.noConfusion hw, fun _ hw => PoolPc.noConfusion hw⟩
  | lock hp hth hm =>
    subst hth
    obtain ⟨hn, hr⟩ : s.pc ≠ .next ∧ s.pc ≠ .returned := by simp [hp]
    obtain ⟨-, hshape, hhand⟩ := h.starting hn hr
    have hfree : ¬ (s.thread s.current).pc.locked = true := by
      rw [← hshape.locked, hm]
      simp
    exact h.handshake hn hr rfl rfl (fun t => setThread_apply _ t _ _) (fun hp => PoolPc.noConfusion hp)
      (fun hp => PoolPc.noConfusion hp)
      (hshape.set _ (iff_of_false (by simp [current]) hfree) (.inr (.inl rfl))) rfl
      ⟨fun hw => PoolPc.noConfusion hw, fun _ => hhand.posted (by simp [hp]), iff_of_true rfl (.inl rfl),
        fun hw => PoolPc.noConfusion hw, fun _ hw => PoolPc.noConfusion hw⟩
  | wait hp hth hloop =>
    subst hth
    obtain ⟨hn, hr⟩ : s.pc ≠ .next ∧ s.pc ≠ .returned := by simp [hp]
    obtain ⟨-, hshape, hhand⟩ := h.starting hn hr
    have hfree : ¬ (s.thread s.current).pc.locked = true := by
      rw [← hshape.locked, hhand.mutex.mpr (.inl hp)]
      simp [current]
    -- no notification can be lost: the loop is not there yet
    have hpub : ¬ (s.thread s.current).pc.published = true := by
      intro hpub
      rw [hshape.loop_eq, if_pos hpub] at hloop
      cases hloop
    exact h.handshake hn hr rfl rfl (fun t => setThread_apply _ t _ _) (fun hp => PoolPc.noConfusion hp)
      (fun hp => PoolPc.noConfusion hp) (hshape.set _ (iff_of_false (by simp) hfree) (.inl rfl)) rfl
      ⟨fun hw => PoolPc.noConfusion hw, fun _ => hhand.posted (by simp [hp]),
        iff_of_false (by simp) (by simp [setThread]), fun _ => iff_of_false Bool.false_ne_true hpub,
        fun _ hw => PoolPc.noConfusion hw⟩
  | found hp hloop =>
    obtain ⟨hn, hr⟩ : s.pc ≠ .next ∧ s.pc ≠ .returned := by simp [hp]
    obtain ⟨-, hshape, hhand⟩ := h.starting hn hr
    refine h.handshake hn hr rfl rfl (thread_eq_ite s _) (fun hp => PoolPc.noConfusion hp)
      (fun hp => PoolPc.noConfusion hp) hshape rfl
      ⟨fun hw => PoolPc.noConfusion hw, fun _ => hhand.posted (by simp [hp]),
        iff_of_true (hhand.mutex.mpr (.inl hp)) (.inr ⟨_, rfl⟩), fun hw => PoolPc.noConfusion hw,
        fun l hw => ?_⟩
    rw [hloop, PoolPc.unlock.inj hw]
  | wake hp | spuriousWake hp =>
    obtain ⟨hn, hr⟩ : s.pc ≠ .next ∧ s.pc ≠ .returned := by simp [hp]
    obtain ⟨-, hshape, hhand⟩ := h.starting hn hr
    have hmutex := hhand.mutex
    rw [hp] at hmutex
    exact h.handshake hn hr rfl rfl (thread_eq_ite s _) (fun hp => PoolPc.noConfusion hp)
      (fun hp => PoolPc.noConfusion hp) hshape rfl
      ⟨fun hw => PoolPc.noConfusion hw, fun _ => hhand.posted (by simp [hp]), by simpa using hmutex,
        fun hw => PoolPc.noConfusion hw, fun _ hw => PoolPc.noConfusion hw⟩
  | unlock hp hth =>
    subst hth
    exact h.of_unlock hp rfl rfl (Function.update_self ..) (fun t ht => Function.update_of_ne ht ..) rfl
  | startReturn hp hge =>
    refine { h with
      resting := fun _ => h.resting (.inl hp)
      starting := fun _ hr => absurd rfl hr
      returned := fun _ => Nat.le_antisymm h.count ?_
      tids := h.tids.of_same (fun _ => ⟨rfl, id⟩) rfl }
    exact Int.toNat_le.mpr (not_lt.mp hge)
  | thread hth hst hb =>
    subst hth
    exact h.of_thread hst rfl rfl (fun t' => Function.update_apply ..) rfl hb
  | otherSpawn ho hn hf =>
    refine h.of_others _ fun t ht => ?_
    obtain rfl := Option.some.inj ht
    refine ⟨ho, .inl rfl, hf.1, rfl, fun t' hb => hf.2.1 t' (not_lt.mp fun hlt => hb ?_) hb⟩
    rw [h.unborn t' hlt]
    rfl
  | otherTid ho =>
    refine h.of_others _ fun t ht => ?_
    obtain rfl := Option.some.inj ht
    obtain ⟨h1, h2, h3, h4, h5⟩ := h.tids.others _ _ ho
    rw [OsThread.currentTid_eq h2]
    exact ⟨h1, .inr rfl, h3, h4, h5⟩
  | otherExit ho => exact h.of_others _ fun t ht => by cases ht

end Good

/-! ### One loop per thread -/

/-- The living threads, those of the pool with their numbers. -/
inductive Living (s : EventLoopThreadPool) : Option ThreadId → OsThread → Prop
  | pool {t : ThreadId} : (s.thread t).pc ≠ .unborn → Living s (some t) (s.thread t).toOsThread
  | other {o : ℕ} {t : OsThread} : s.others o = some t → Living s none t

section Runs

variable {numThreads : ℤ} {m tid : ℕ} {s : EventLoopThreadPool} {C : EventLoopThreadPool → Label → Prop}

theorem Good.of_reach (h : (sys numThreads m tid).Reach C s) : Good numThreads m s :=
  h.invariant (fun _ hs => hs.1 ▸ .start hs.2) fun _ _ _ hI _ hst => hI.step hst

theorem Good.unborn_or_shape (h : Good numThreads m s) (t : ThreadId) :
    s.thread t = .unborn ∨ (s.thread t).Shape t := by
  rcases Nat.lt_trichotomy t s.current with hlt | rfl | hgt
  · exact .inr (h.done t (Nat.le_of_lt_succ hlt)).1
  · by_cases hn : s.pc = .next
    · exact .inl (h.resting (.inl hn))
    · by_cases hr : s.pc = .returned
      · exact .inl (h.resting (.inr hr))
      · exact .inr (h.starting hn hr).2.1
  · exact .inl (h.unborn t hgt)

/-- A loop that has been constructed knows the tid of its thread. -/
theorem Good.of_loop (h : Good numThreads m s) {loop : ThreadId}
    (hl : (s.thread loop).threadID.isSome = true) : (s.thread loop).Shape loop ∧
      (s.thread loop).pc.constructed = true ∧
      (s.thread loop).threadID = some (s.thread loop).gettid := by
  rcases h.unborn_or_shape loop with hu | hs
  · rw [hu] at hl
    cases hl
  · have hid : (s.thread loop).threadID =
        if (s.thread loop).pc.constructed then some (s.thread loop).gettid else none := by
      conv_lhs => rw [hs.placed]
      rfl
    by_cases hc : (s.thread loop).pc.constructed = true
    · rw [if_pos hc] at hid
      exact ⟨hs, hc, hid⟩
    · rw [hid, if_neg hc] at hl
      cases hl

/-- **One loop per thread.**  At every moment, a loop that has been constructed takes exactly one of the living
threads for its own: the one that has constructed it, whose `t_loopInThisThread` it is. -/
theorem isInLoopThread_iff (h : (sys numThreads m tid).Reach C s) {who : Option ThreadId} {t : OsThread}
    (ht : s.Living who t) {loop : ThreadId} (hl : (s.thread loop).threadID.isSome = true) :
    (s.isInLoopThread t loop = true ↔ who = some loop) ∧
      (t.loopInThisThread = some loop ↔ who = some loop) := by
  have hgood := Good.of_reach h
  obtain ⟨hshape, hcons, hid⟩ := hgood.of_loop hl
  cases ht with
  | @pool t hborn =>
    have hst : (s.thread t).Shape t := (hgood.unborn_or_shape t).resolve_left fun hu => hborn (by rw [hu]; rfl)
    have hown : (s.thread t).loopInThisThread = if (s.thread t).pc.constructed then some t else none := by
      conv_lhs => rw [hst.placed]
      rfl
    rw [isInLoopThread, OsThread.currentTid_eq hst.cached, hid, decide_eq_true_eq, Option.some_inj, Option.some_inj,
      hown]
    refine ⟨⟨fun he => ?_, fun he => by rw [he]⟩, fun he => ?_, fun he => ?_⟩
    · exact (hgood.tids.pool loop t hshape.born.1 hborn he).symm
    · exact Option.some.inj (Option.ite_none_right_eq_some.mp he).2
    · rw [he, if_pos hcons]
  | other ho =>
    obtain ⟨-, hcached, -, hnone, hne⟩ := hgood.tids.others _ _ ho
    rw [isInLoopThread, OsThread.currentTid_eq hcached, hid, decide_eq_true_eq, Option.some_inj, hnone]
    exact ⟨iff_of_false (hne loop hshape.born.1) (by simp), iff_of_false (by simp) (by simp)⟩

/-- A pool of one thread, and another thread. -/
theorem isInLoopThread_iff_one : ∃ s : EventLoopThreadPool,
    (∃ t, s.others 0 = some t ∧ s.isInLoopThread t 1 = false) ∧
      s.isInLoopThread (s.thread 1).toOsThread 1 = true ∧
      s.isInLoopThread (s.thread 0).toOsThread 1 = false := by
  obtain ⟨s, hr, ho, h0, h1, hl⟩ := Sys.Reach.exists_of_execIf (M := sys 1 1 100) (s := started 100)
    (C := fun _ _ => True) (P := fun s => (s.others 0).isSome = true ∧ (s.thread 0).pc ≠ .unborn ∧
      (s.thread 1).pc ≠ .unborn ∧ (s.thread 1).threadID.isSome = true)
    (.init ⟨rfl, by decide⟩) (startOne ++ [.otherSpawn 0 102]) (by decide +kernel)
  obtain ⟨t, ht⟩ := Option.isSome_iff_exists.mp ho
  refine ⟨s, ⟨t, ht, ?_⟩, (isInLoopThread_iff hr (.pool h1) hl).1.mpr rfl, ?_⟩
  · rw [Bool.eq_false_iff]
    intro he
    cases (isInLoopThread_iff hr (.other ht) hl).1.mp he
  · rw [Bool.eq_false_iff]
    intro he
    cases (isInLoopThread_iff hr (.pool h0) hl).1.mp he

end Runs

/-! ### The start comes to its end -/

namespace Label

/-- What a step may add to the work that is left: a wait that ends without a notification is repeated. -/
def extra : Label → ℕ
  | .spuriousWake => 3
  | .otherSpawn .. | .otherTid _ | .otherExit _ => 1
  | _ => 0

end Label

/-- The work of the first `n + 1` threads. -/
def work (n : ℕ) (s : EventLoopThreadPool) : ℕ := ∑ t ∈ Finset.range (n + 1), (s.thread t).pc.rank

/-- The steps that are left. -/
def left (n : ℕ) (s : EventLoopThreadPool) : ℕ :=
  s.work n + s.pc.rank (s.thread s.current).pc.published + if s.pc = .returned then 0 else 1

variable {numThreads : ℤ} {m tid n : ℕ} {s s' : EventLoopThreadPool}

theorem work_congr (h : ∀ t, (s'.thread t).pc = (s.thread t).pc) : s'.work n = s.work n :=
  Finset.sum_congr rfl fun t _ => by rw [h t]

/-- One thread goes on. -/
theorem work_update {t : ThreadId} (ht : t ≤ n) (hother : ∀ t', t' ≠ t → s'.thread t' = s.thread t') :
    s'.work n + (s.thread t).pc.rank = s.work n + (s'.thread t).pc.rank := by
  have hm : t ∈ Finset.range (n + 1) := Finset.mem_range.mpr (Nat.lt_succ_of_le ht)
  have hrest : ∑ t' ∈ (Finset.range (n + 1)).erase t, (s'.thread t').pc.rank =
      ∑ t' ∈ (Finset.range (n + 1)).erase t, (s.thread t').pc.rank :=
    Finset.sum_congr rfl fun t' ht' => by rw [hother t' (Finset.ne_of_mem_erase ht')]
  have h1 := Finset.add_sum_erase (Finset.range (n + 1)) (fun t => (s.thread t).pc.rank) hm
  have h2 := Finset.add_sum_erase (Finset.range (n + 1)) (fun t => (s'.thread t).pc.rank) hm
  simp only [work]
  omega

/-- No thread of the pool goes on. -/
theorem left_le {th : PoolThread} (hl : s'.loops = s.loops)
    (hth : ∀ t, s'.thread t = if t = s.current then th else s.thread t)
    (hpc : th.pc = (s.thread s.current).pc) {extra : ℕ}
    (hrank : s'.pc.rank (s.thread s.current).pc.published + (if s'.pc = .returned then 0 else 1) <
      s.pc.rank (s.thread s.current).pc.published + (if s.pc = .returned then 0 else 1) + extra) :
    s'.left n < s.left n + extra := by
  have hcur : s'.current = s.current := congrArg (fun l : List ThreadId => l.length + 1) hl
  have hsame : ∀ t, (s'.thread t).pc = (s.thread t).pc := by
    intro t
    rw [hth t]
    split
    next ht => rw [ht, hpc]
    next => rfl
  rw [left, left, work_congr hsame, hcur, hsame]
  omega

theorem left_thread (h : Good numThreads m s) {t : ThreadId} {th' : PoolThread}
    (hst : (s.thread t).step t = some th') (hl : s'.loops = s.loops) (hpc : s'.pc = s.pc)
    (hself : s'.thread t = th') (hother : ∀ t', t' ≠ t → s'.thread t' = s.thread t') :
    s'.left numThreads.toNat < s.left numThreads.toNat := by
  have h0 : t ≠ 0 := by
    rintro rfl
    simp [PoolThread.step, h.base] at hst
  have hshape : (s.thread t).Shape t := (h.unborn_or_shape t).resolve_left fun hu => by
    rw [hu] at hst
    cases hst
  have hsteps := PoolThread.steps_of_step h0 hshape hst
  have hcur : s'.current = s.current := congrArg (fun l : List ThreadId => l.length + 1) hl
  have hle : t ≤ numThreads.toNat := by
    by_contra hn
    have hlt : s.loops.length < t := lt_of_le_of_lt h.count (not_le.mp hn)
    by_cases hc : t = s.current
    · subst hc
      have hborn : (s.thread s.current).pc ≠ .unborn := hshape.born.1
      have hpc : s.pc ≠ .next ∧ s.pc ≠ .returned := by
        refine ⟨fun hp => hborn ?_, fun hp => hborn ?_⟩
        · rw [h.resting (.inl hp)]
          rfl
        · rw [h.resting (.inr hp)]
          rfl
      exact hn (h.starting hpc.1 hpc.2).1
    · rw [h.unborn t (Nat.lt_of_le_of_ne hlt (Ne.symm hc))] at hst
      cases hst
  have hwork := work_update (n := numThreads.toNat) hle hother
  have hrank := ThreadPc.rank_next hsteps.moves
  rw [hself, hsteps.pc] at hwork
  have hstart : s'.pc.rank (s'.thread s'.current).pc.published ≤
      s.pc.rank (s.thread s.current).pc.published := by
    rw [hpc, hcur]
    by_cases hc : t = s.current
    · subst hc
      rw [hself, hsteps.pc, ThreadPc.published_next hsteps.moves]
      exact s.pc.rank_mono (by simp +contextual)
    · rw [hother _ (Ne.symm hc)]
  rw [left, left, hpc]
  rw [hpc] at hstart
  omega

theorem left_step (h : Good numThreads m s) {lab : Label} (hst : s.step numThreads m lab = some s') :
    s'.left numThreads.toNat < s.left numThreads.toNat + lab.extra := by
  cases move_of_step hst with
  | @spawn tid hp hlt hf =>
    have hlen : s.current ≤ numThreads.toNat := Int.lt_toNat.mpr hlt
    have hother : ∀ t, t ≠ s.current →
        ({ s with pc := .semWait }.setThread s.current (.spawned tid)).thread t = s.thread t :=
      fun t ht => setThread_of_ne ht ..
    have hw := work_update hlen hother
    rw [setThread_self, h.resting (.inl hp)] at hw
    have h1 : ({ s with pc := .semWait }.setThread s.current (.spawned tid)).left numThreads.toNat =
        ({ s with pc := .semWait }.setThread s.current (.spawned tid)).work numThreads.toNat + 7 + 1 := rfl
    have h2 : s.left numThreads.toNat = s.work numThreads.toNat + 0 + 1 := by
      simp [left, hp, PoolPc.rank]
    rw [h1, h2]
    simp only [PoolThread.unborn, PoolThread.spawned, ThreadPc.rank, Label.extra] at hw ⊢
    omega
  | semWait hp hth hsem =>
    subst hth
    apply left_le
    · rfl
    · exact fun t => setThread_apply _ t _ _
    · rfl
    · cases (s.thread s.current).pc.published <;> simp [setThread, hp, PoolPc.rank, Label.extra]
  | lock hp hth hm =>
    subst hth
    apply left_le
    · rfl
    · exact fun t => setThread_apply _ t _ _
    · rfl
    · cases (s.thread s.current).pc.published <;> simp [setThread, hp, PoolPc.rank, Label.extra]
  | wait hp hth hloop =>
    subst hth
    obtain ⟨-, hshape, -⟩ := h.starting (by simp [hp]) (by simp [hp])
    have hpub : (s.thread s.current).pc.published = false := by
      by_contra hn
      rw [hshape.loop_eq, if_pos (Bool.eq_true_of_not_eq_false hn)] at hloop
      cases hloop
    apply left_le
    · rfl
    · exact fun t => setThread_apply _ t _ _
    · rfl
    · simp [setThread, hp, hpub, PoolPc.rank, Label.extra]
  | found hp hloop =>
    apply left_le
    · rfl
    · exact thread_eq_ite s _
    · rfl
    · cases (s.thread s.current).pc.published <;> simp [hp, PoolPc.rank, Label.extra]
  | wake hp hnot =>
    obtain ⟨-, -, hhand⟩ := h.starting (by simp [hp]) (by simp [hp])
    apply left_le
    · rfl
    · exact thread_eq_ite s _
    · rfl
    · simp [hp, (hhand.notified hp).mp hnot, PoolPc.rank, Label.extra]
  | spuriousWake hp =>
    apply left_le
    · rfl
    · exact thread_eq_ite s _
    · rfl
    · cases (s.thread s.current).pc.published <;> simp [hp, PoolPc.rank, Label.extra]
  | @unlock _ loop hp hth =>
    subst hth
    have hw : ({ s with pc := .next, loops := s.loops ++ [loop] }.setThread s.current
        { s.thread s.current with mutex := none }).work numThreads.toNat = s.work numThreads.toNat := by
      refine work_congr fun t => ?_
      rw [setThread_apply]
      split
      next ht => rw [ht]
      next => rfl
    have h2 : s.left numThreads.toNat = s.work numThreads.toNat + 1 + 1 := by
      simp [left, hp, PoolPc.rank]
    rw [h2, ← hw]
    exact Nat.lt_succ_self _
  | startReturn hp hge =>
    apply left_le
    · rfl
    · exact thread_eq_ite s _
    · rfl
    · simp [hp, PoolPc.rank, Label.extra]
  | thread hth hst hb =>
    subst hth
    exact left_thread h hst rfl rfl (setThread_self ..) fun t' ht => setThread_of_ne ht ..
  | otherSpawn | otherTid | otherExit =>
    apply left_le
    · rfl
    · exact thread_eq_ite s _
    · rfl
    · exact Nat.lt_succ_self _

/-- While it starts a thread, `start` or this thread can go on. -/
theorem Good.enabled_of_starting (h : Good numThreads m s) (hn : s.pc ≠ .next) (hr : s.pc ≠ .returned) :
    ∃ lab : Label, lab.extra = 0 ∧ (s.step numThreads m lab).isSome = true := by
  obtain ⟨-, hshape, hhand⟩ := h.starting hn hr
  have hgo : (s.thread s.current).pc.moves = true →
      ((s.thread s.current).pc = .lock → (s.thread s.current).mutex = none) →
      ∃ lab : Label, lab.extra = 0 ∧ (s.step numThreads m lab).isSome = true := by
    intro hmoves hfree
    refine ⟨.thread s.current, rfl, ?_⟩
    simp only [EventLoopThreadPool.step, Option.isSome_map]
    exact PoolThread.step_isSome hshape hmoves hfree
  have hunpublished : ¬ (s.thread s.current).pc.published = true → (s.thread s.current).pc.moves = true := by
    intro hpub
    have hborn := hshape.born
    cases hpc : (s.thread s.current).pc <;> simp [hpc, ThreadPc.moves, ThreadPc.published] at hpub hborn ⊢
  -- the thread waits for its lock only while `start` has it
  have hfree : (¬ (s.thread s.current).mutex = some 0) →
      (s.thread s.current).pc = .lock → (s.thread s.current).mutex = none := by
    intro h0 hl
    refine hshape.holder.resolve_right (not_or.mpr ⟨h0, fun hm => ?_⟩)
    have := hshape.locked.mp hm
    rw [hl] at this
    cases this
  cases hp : s.pc with
  | next => exact absurd hp hn
  | returned => exact absurd hp hr
  | semWait =>
    by_cases hpost : (s.thread s.current).pc.posted = true
    · have hsem := hhand.sem hp
      rw [if_pos hpost] at hsem
      exact ⟨.semWait, rfl, by simp [EventLoopThreadPool.step, hp, hsem]⟩
    · refine hgo (hunpublished fun hpub => hpost ?_) fun hl => ?_
      · cases hpc : (s.thread s.current).pc <;> simp [hpc, ThreadPc.posted, ThreadPc.published] at hpub ⊢
      · rw [hl] at hpost
        exact absurd rfl hpost
  | lock =>
    by_cases hm : (s.thread s.current).mutex = none
    · exact ⟨.lock, rfl, by simp [EventLoopThreadPool.step, hp, hm]⟩
    · have hmutex := hhand.mutex
      rw [hp] at hmutex
      have hlocked := hshape.locked.mp
        ((hshape.holder.resolve_left hm).resolve_left fun h0 => by simpa using hmutex.mp h0)
      refine hgo ?_ fun hl => ?_
      · cases hpc : (s.thread s.current).pc <;> simp [hpc, ThreadPc.locked, ThreadPc.moves] at hlocked ⊢
      · rw [hl] at hlocked
        cases hlocked
  | test =>
    refine ⟨.test, rfl, ?_⟩
    simp only [EventLoopThreadPool.step, hp, if_true]
    split <;> rfl
  | waiting =>
    by_cases hnot : s.notified = true
    · exact ⟨.wake, rfl, by simp [EventLoopThreadPool.step, hp, hnot]⟩
    · have hmutex := hhand.mutex
      rw [hp] at hmutex
      exact hgo (hunpublished fun hpub => hnot ((hhand.notified hp).mpr hpub))
        (hfree fun h0 => by simpa using hmutex.mp h0)
  | unlock loop => exact ⟨.unlock, rfl, by simp [EventLoopThreadPool.step, hp]⟩

/-- The kernel has a tid for the next thread. -/
theorem exists_freeTid (m : ℕ) (s : EventLoopThreadPool) : ∃ tid, s.FreeTid m tid := by
  let used : Finset ℕ := insert 0 ((Finset.range (s.current + 1)).image fun t => (s.thread t).gettid) ∪
    (Finset.range m).image fun o => ((s.others o).map OsThread.gettid).getD 0
  obtain ⟨tid, htid⟩ := Infinite.exists_notMem_finset used
  simp only [used, Finset.mem_union, Finset.mem_insert, Finset.mem_image, Finset.mem_range, not_or, not_exists,
    not_and] at htid
  refine ⟨tid, htid.1.1, fun t ht _ => htid.1.2 t (Nat.lt_succ_of_le ht), fun o ho t hot he => ?_⟩
  rw [Option.mem_def] at hot
  exact htid.2 o ho (by rw [hot]; exact he)

theorem Good.published (h : Good numThreads m s) {loop : ThreadId} (hl : loop ∈ s.getAllLoops) :
    loop ≤ s.loops.length := by
  unfold getAllLoops at hl
  split at hl
  · rw [List.mem_singleton.mp hl]
    exact Nat.zero_le _
  · rw [h.loops, List.mem_range'_1] at hl
    exact Nat.le_of_lt_succ (by rw [Nat.succ_eq_add_one, Nat.add_comm]; exact hl.2)

/-- **`start` comes to its end**: the steps of a run are at most fifteen for each thread, the last one, three
for each wait that ends without a notification, and those of the other threads.  When nothing but these last
two can happen, `start` has returned, and the pool has one loop for each of its threads. -/
theorem start_returns (h0 : tid ≠ 0) {labs : List Label}
    (h : (sys numThreads m tid).exec (started tid) labs = some s) :
    labs.length ≤ 15 * numThreads.toNat + 1 + (labs.map Label.extra).sum ∧
      ((∀ lab : Label, lab.extra = 0 → s.step numThreads m lab = none) → s.pc = .returned ∧
        s.getAllLoops = (if numThreads ≤ 0 then [0] else List.range' 1 numThreads.toNat) ∧
        ∀ loop ∈ s.getAllLoops, (s.thread loop).threadID = some (s.thread loop).tid ∧
          (s.thread loop).tid = (s.thread loop).gettid) := by
  have hstart : Good numThreads m (started tid) := .start h0
  have hgood : Good numThreads m s :=
    .of_reach (.exec (C := fun _ _ => True) (.init ⟨rfl, h0⟩) labs (fun _ _ _ => trivial) h)
  constructor
  · have hlen : s.left numThreads.toNat + labs.length ≤
        (started tid).left numThreads.toNat + (labs.map Label.extra).sum :=
      Sys.exec_length_le (I := Good numThreads m) (fun _ _ _ hI hst => hI.step hst)
        (fun _ _ _ hI hst => left_step hI hst) hstart h
    have hleft : (started tid).left numThreads.toNat = 15 * numThreads.toNat + 1 := by
      have hwork : (started tid).work numThreads.toNat = 15 * numThreads.toNat := by
        rw [work, Finset.sum_range_succ']
        have hall : ∀ t ∈ Finset.range numThreads.toNat, ((started tid).thread (t + 1)).pc.rank = 15 :=
          fun t _ => rfl
        rw [Finset.sum_congr rfl hall, Finset.sum_const, Finset.card_range]
        simp [started, PoolThread.base, ThreadPc.rank, Nat.mul_comm]
      rw [left, hwork]
      rfl
    rw [hleft] at hlen
    omega
  · intro hstuck
    have hret : s.pc = .returned := by
      by_contra hr
      have hsome : ∃ lab : Label, lab.extra = 0 ∧ (s.step numThreads m lab).isSome = true := by
        by_cases hn : s.pc = .next
        · by_cases hlt : s.loops.length < numThreads
          · obtain ⟨tid', hf⟩ := exists_freeTid m s
            exact ⟨.spawn tid', rfl, by simp [step, hn, hlt, hf]⟩
          · exact ⟨.startReturn, rfl, by simp [step, hn, hlt]⟩
        · exact hgood.enabled_of_starting hn hr
      obtain ⟨lab, hextra, hgo⟩ := hsome
      rw [hstuck lab hextra] at hgo
      cases hgo
    refine ⟨hret, ?_, fun loop hl => ?_⟩
    · have hlen := hgood.returned hret
      unfold getAllLoops
      by_cases hle : numThreads ≤ 0
      · rw [Int.toNat_of_nonpos hle, List.length_eq_zero_iff] at hlen
        rw [if_pos hlen, if_pos hle]
      · have hpos : 0 < numThreads.toNat := Int.lt_toNat.mpr (not_le.mp hle)
        rw [if_neg (List.length_pos_iff.mp (hlen ▸ hpos)), if_neg hle, ← hlen]
        exact hgood.loops
    · obtain ⟨hshape, hpub, -⟩ := hgood.done loop (hgood.published hl)
      have hpc : (s.thread loop).pc ≠ .tid ∧ (s.thread loop).pc.constructed = true := by
        cases hp : (s.thread loop).pc <;> simp [hp, ThreadPc.published, ThreadPc.constructed] at hpub ⊢
      have htid : (s.thread loop).tid = (s.thread loop).gettid := by
        conv_lhs => rw [hshape.placed]
        exact if_neg hpc.1
      refine ⟨?_, htid⟩
      rw [htid]
      conv_lhs => rw [hshape.placed]
      exact if_pos hpc.2

/-- The bound is met by a run of nineteen steps. -/
theorem start_returns_one : ∃ s, (sys 1 0 100).exec (started 100) startOne = some s ∧
    startOne.length = 19 ∧ startOne.length ≤ 15 * (1 : ℤ).toNat + 1 + (startOne.map Label.extra).sum := by
  obtain ⟨s, hs⟩ := Option.isSome_iff_exists.mp
    (by decide +kernel : ((sys 1 0 100).exec (started 100) startOne).isSome = true)
  exact ⟨s, hs, rfl, (start_returns (by decide) hs).1⟩

end EventLoopThreadPool

end Mymuduo
