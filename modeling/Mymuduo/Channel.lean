import Mathlib.Algebra.Order.Group.Nat
import Mathlib.Logic.Function.Basic

/-!
# Mymuduo.Channel — channels and their registration with epoll (`Channel.h`, `EPollPoller.cc`)

A `Channel` holds the interest in one descriptor; the poller keeps `channels`, the kernel keeps the
epoll set.  The kernel's side is `epollCtl`, on a map from descriptors to the registered mask and
data pointer.  Event masks are the five bits the program uses.

`Coherent p c` says that the three records of one registration agree: `index`, `channels` and the
epoll set.  Every operation on a channel keeps it and touches no other descriptor.
-/

namespace Mymuduo

/-! ### Event masks -/

structure Events where
  epollin : Bool
  epollpri : Bool
  epollout : Bool
  epollerr : Bool
  epollhup : Bool
  deriving DecidableEq, Repr

namespace Events

def kNoneEvent : Events := ⟨false, false, false, false, false⟩

/-- `EPOLLIN | EPOLLPRI`. -/
def kReadEvent : Events := ⟨true, true, false, false, false⟩

/-- `EPOLLOUT`. -/
def kWriteEvent : Events := ⟨false, false, true, false, false⟩

/-- `a | b`. -/
def or (a b : Events) : Events :=
  ⟨a.epollin || b.epollin, a.epollpri || b.epollpri, a.epollout || b.epollout,
    a.epollerr || b.epollerr, a.epollhup || b.epollhup⟩

/-- `a & b`. -/
def and (a b : Events) : Events :=
  ⟨a.epollin && b.epollin, a.epollpri && b.epollpri, a.epollout && b.epollout,
    a.epollerr && b.epollerr, a.epollhup && b.epollhup⟩

/-- `a & ~b`. -/
def diff (a b : Events) : Events :=
  ⟨a.epollin && !b.epollin, a.epollpri && !b.epollpri, a.epollout && !b.epollout,
    a.epollerr && !b.epollerr, a.epollhup && !b.epollhup⟩

/-- What epoll may report for the registered mask `m`: any of its events, `EPOLLERR`, `EPOLLHUP`. -/
def Reportable (m r : Events) : Prop :=
  (r.epollin → m.epollin) ∧ (r.epollpri → m.epollpri) ∧ (r.epollout → m.epollout) ∧ r ≠ kNoneEvent

instance (m r : Events) : Decidable (Reportable m r) :=
  inferInstanceAs (Decidable (_ ∧ _ ∧ _ ∧ _))

end Events

open Events

/-! ### Channels -/

/-- The channels of the program, by address. -/
inductive ChannelPtr
  | wakeup (loop : ℕ)
  | accept
  | conn (id : ℕ)
  deriving DecidableEq, Repr

/-- The states of a channel's `index`. -/
inductive Index
  | kNew
  | kAdded
  | kDeleted
  deriving DecidableEq, Repr

structure Channel where
  this : ChannelPtr
  fd : ℕ
  events : Events
  revents : Events
  index : Index
  tied : Bool
  deriving DecidableEq, Repr

namespace Channel

/-- The constructor. -/
def new (this : ChannelPtr) (fd : ℕ) : Channel where
  this := this
  fd := fd
  events := kNoneEvent
  revents := kNoneEvent
  index := .kNew
  tied := false

def isNoneEvent (c : Channel) : Bool := c.events = kNoneEvent

def isWriting (c : Channel) : Bool := c.events.and kWriteEvent ≠ kNoneEvent

theorem isWriting_eq (c : Channel) : c.isWriting = c.events.epollout := by
  cases h : c.events.epollout <;> simp [isWriting, Events.and, kWriteEvent, kNoneEvent, h]

end Channel

/-! ### The poller and the kernel -/

inductive EpollOp
  | add
  | mod
  | del
  deriving DecidableEq, Repr

/-- The epoll set: the mask and the data pointer registered for a descriptor. -/
abbrev EpollSet := ℕ → Option (Events × ChannelPtr)

/-- `epoll_ctl`: `none` when it fails, with `EEXIST` or `ENOENT`. -/
def epollCtl (s : EpollSet) (op : EpollOp) (fd : ℕ) (event : Events × ChannelPtr) :
    Option EpollSet :=
  match op, s fd with
  | .add, none => some (Function.update s fd (some event))
  | .mod, some _ => some (Function.update s fd (some event))
  | .del, some _ => some (Function.update s fd none)
  | _, _ => none

/-- `failed` are the rejected `epoll_ctl` calls; a rejected `add` or `mod` is a `LOG_FATAL`. -/
structure EPollerPoller where
  channels : ℕ → Option ChannelPtr
  epoll : EpollSet
  failed : List (EpollOp × ℕ)

namespace EPollerPoller

def new : EPollerPoller := ⟨fun _ => none, fun _ => none, []⟩

def hasChannel (p : EPollerPoller) (c : Channel) : Bool := p.channels c.fd = some c.this

def update (p : EPollerPoller) (op : EpollOp) (c : Channel) : EPollerPoller :=
  match epollCtl p.epoll op c.fd (c.events, c.this) with
  | some epoll => { p with epoll := epoll }
  | none => { p with failed := p.failed ++ [(op, c.fd)] }

def updateChannel (p : EPollerPoller) (c : Channel) : EPollerPoller × Channel :=
  if c.index = .kNew ∨ c.index = .kDeleted then
    let p := if c.index = .kNew then
      { p with channels := Function.update p.channels c.fd (some c.this) } else p
    let c := { c with index := .kAdded }
    (p.update .add c, c)
  else if c.isNoneEvent then
    (p.update .del c, { c with index := .kDeleted })
  else
    (p.update .mod c, c)

def removeChannel (p : EPollerPoller) (c : Channel) : EPollerPoller × Channel :=
  let p := { p with channels := Function.update p.channels c.fd none }
  let p := if c.index = .kAdded then p.update .del c else p
  (p, { c with index := .kNew })

end EPollerPoller

namespace Channel

def enableReading (c : Channel) (p : EPollerPoller) : EPollerPoller × Channel :=
  p.updateChannel { c with events := c.events.or kReadEvent }

def disableReading (c : Channel) (p : EPollerPoller) : EPollerPoller × Channel :=
  p.updateChannel { c with events := c.events.diff kReadEvent }

def enableWriting (c : Channel) (p : EPollerPoller) : EPollerPoller × Channel :=
  p.updateChannel { c with events := c.events.or kWriteEvent }

def disableWriting (c : Channel) (p : EPollerPoller) : EPollerPoller × Channel :=
  p.updateChannel { c with events := c.events.diff kWriteEvent }

def disableAll (c : Channel) (p : EPollerPoller) : EPollerPoller × Channel :=
  p.updateChannel { c with events := kNoneEvent }

def remove (c : Channel) (p : EPollerPoller) : EPollerPoller × Channel := p.removeChannel c

end Channel

/-! ### What an operation does to the channel itself -/

namespace Channel

variable (c : Channel) (p : EPollerPoller)

@[simp] theorem updateChannel_events : (p.updateChannel c).2.events = c.events := by
  unfold EPollerPoller.updateChannel
  split
  · rfl
  · split <;> rfl

@[simp] theorem updateChannel_this : (p.updateChannel c).2.this = c.this := by
  unfold EPollerPoller.updateChannel
  split
  · rfl
  · split <;> rfl

@[simp] theorem updateChannel_fd : (p.updateChannel c).2.fd = c.fd := by
  unfold EPollerPoller.updateChannel
  split
  · rfl
  · split <;> rfl

@[simp] theorem updateChannel_revents : (p.updateChannel c).2.revents = c.revents := by
  unfold EPollerPoller.updateChannel
  split
  · rfl
  · split <;> rfl

/-- A registered channel with an interest stays registered. -/
theorem updateChannel_index (hi : c.index = .kAdded) (hn : c.events ≠ kNoneEvent) :
    (p.updateChannel c).2.index = .kAdded := by
  simp [EPollerPoller.updateChannel, hi, isNoneEvent, hn]

@[simp] theorem isWriting_enableReading : (c.enableReading p).2.isWriting = c.isWriting := by
  simp [isWriting_eq, enableReading, Events.or, kReadEvent]

@[simp] theorem isWriting_enableWriting : (c.enableWriting p).2.isWriting = true := by
  simp [isWriting_eq, enableWriting, Events.or, kWriteEvent]

@[simp] theorem isWriting_disableWriting : (c.disableWriting p).2.isWriting = false := by
  simp [isWriting_eq, disableWriting, Events.diff, kWriteEvent]

@[simp] theorem isWriting_disableAll : (c.disableAll p).2.isWriting = false := by
  simp [isWriting_eq, disableAll, kNoneEvent]

end Channel

/-! ### Coherent registration -/

/-- The index, `channels` and the epoll set agree on the registration of `c`. -/
structure Coherent (p : EPollerPoller) (c : Channel) : Prop where
  epoll : p.epoll c.fd = if c.index = .kAdded then some (c.events, c.this) else none
  channels : p.channels c.fd = if c.index = .kNew then none else some c.this

/-- `p'` differs from `p` at most at the descriptor `fd`. -/
structure SameBut (fd : ℕ) (p p' : EPollerPoller) : Prop where
  epoll : ∀ fd', fd' ≠ fd → p'.epoll fd' = p.epoll fd'
  channels : ∀ fd', fd' ≠ fd → p'.channels fd' = p.channels fd'

theorem SameBut.refl (fd : ℕ) (p : EPollerPoller) : SameBut fd p p :=
  ⟨fun _ _ => rfl, fun _ _ => rfl⟩

theorem SameBut.trans {fd : ℕ} {p q r : EPollerPoller} (h : SameBut fd p q) (h' : SameBut fd q r) :
    SameBut fd p r :=
  ⟨fun fd' hne => (h'.epoll fd' hne).trans (h.epoll fd' hne),
    fun fd' hne => (h'.channels fd' hne).trans (h.channels fd' hne)⟩

/-- What `updateChannel` does to a coherent registration, whatever the new interest is. -/
structure Updated (p : EPollerPoller) (c : Channel) (r : EPollerPoller × Channel) : Prop where
  channel : r.2 = { c with
    index := if c.index = .kAdded ∧ c.events = kNoneEvent then .kDeleted else .kAdded }
  coherent : Coherent r.1 r.2
  frame : SameBut c.fd p r.1
  failed : r.1.failed = p.failed

theorem updated {p : EPollerPoller} {c : Channel} {e : Events} (h : Coherent p { c with events := e }) :
    Updated p c (p.updateChannel c) := by
  obtain ⟨h1, h2⟩ := h
  simp only at h1 h2
  unfold EPollerPoller.updateChannel
  cases hi : c.index with
  | kNew =>
    simp only [hi, reduceCtorEq, if_false, if_true] at h1 h2
    simp only [true_or, if_true, EPollerPoller.update, epollCtl, h1]
    refine ⟨by simp [hi], ⟨by simp, by simp⟩, ⟨?_, ?_⟩, rfl⟩
    · exact fun fd' hne => Function.update_of_ne hne ..
    · exact fun fd' hne => Function.update_of_ne hne ..
  | kAdded =>
    simp only [hi, reduceCtorEq, if_false, if_true] at h1 h2
    simp only [reduceCtorEq, or_self, if_false]
    by_cases hn : c.events = kNoneEvent
    · simp only [Channel.isNoneEvent, hn, decide_true, if_true, EPollerPoller.update, epollCtl, h1]
      refine ⟨by simp [hi, hn], ⟨by simp, by simpa using h2⟩, ⟨?_, fun _ _ => rfl⟩, rfl⟩
      exact fun fd' hne => Function.update_of_ne hne ..
    · simp only [Channel.isNoneEvent, hn, decide_false, if_false, EPollerPoller.update, epollCtl,
        h1, Bool.false_eq_true]
      refine ⟨by simp [hn, ← hi], ⟨by simp [hi], by simpa [hi] using h2⟩, ⟨?_, fun _ _ => rfl⟩, rfl⟩
      exact fun fd' hne => Function.update_of_ne hne ..
  | kDeleted =>
    simp only [hi, reduceCtorEq, if_false] at h1 h2
    simp only [or_true, if_true, reduceCtorEq, if_false, EPollerPoller.update, epollCtl, h1]
    refine ⟨by simp [hi], ⟨by simp, by simpa using h2⟩, ⟨?_, fun _ _ => rfl⟩, rfl⟩
    exact fun fd' hne => Function.update_of_ne hne ..

/-- What `removeChannel` does to a coherent registration: nothing of it is left. -/
structure Removed (p : EPollerPoller) (c : Channel) (r : EPollerPoller × Channel) : Prop where
  channel : r.2 = { c with index := .kNew }
  coherent : Coherent r.1 r.2
  frame : SameBut c.fd p r.1
  failed : r.1.failed = p.failed

theorem removed {p : EPollerPoller} {c : Channel} (h : Coherent p c) :
    Removed p c (p.removeChannel c) := by
  obtain ⟨h1, h2⟩ := h
  unfold EPollerPoller.removeChannel
  by_cases hi : c.index = .kAdded
  · simp only [hi, if_true] at h1
    simp only [hi, if_true, EPollerPoller.update, epollCtl, h1]
    refine ⟨rfl, ⟨by simp, by simp⟩, ⟨?_, ?_⟩, rfl⟩
    · exact fun fd' hne => Function.update_of_ne hne ..
    · exact fun fd' hne => Function.update_of_ne hne ..
  · simp only [hi, if_false] at h1 ⊢
    refine ⟨rfl, ⟨by simpa using h1, by simp⟩, ⟨fun _ _ => rfl, ?_⟩, rfl⟩
    exact fun fd' hne => Function.update_of_ne hne ..

end Mymuduo
