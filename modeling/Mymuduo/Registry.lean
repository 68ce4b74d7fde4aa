import Mymuduo.Channel
import Mymuduo.Lib.Transition

/-!
# Mymuduo.Registry — the channels of one loop under any calls (`Channel.h`, `EPollPoller.cc`)

Any family of channels with distinct descriptors shares one poller; the calls that reach the poller
(`enableReading` … `remove`) come in any order, on any of them, any number of times.

* `called` is the one specification of a call: what it does to the channel, that a coherent
  registration stays coherent, and that no other descriptor is touched;
* `registration_of_reach`: the index, `channels` and the epoll set agree after every call, and the
  kernel has rejected none of them;
* `watched_iff`: a channel without interest stays out of the epoll set exactly as long as every call
  that leaves no interest is made on a registered channel.
-/

namespace Mymuduo

open Lib Events

/-! ### Calls -/

namespace Channel

/-- The member functions of a channel that reach the poller. -/
inductive Op
  | enableReading
  | disableReading
  | enableWriting
  | disableWriting
  | disableAll
  | remove
  deriving DecidableEq, Repr

def call (op : Op) (c : Channel) (p : EPollerPoller) : EPollerPoller × Channel :=
  match op with
  | .enableReading => c.enableReading p
  | .disableReading => c.disableReading p
  | .enableWriting => c.enableWriting p
  | .disableWriting => c.disableWriting p
  | .disableAll => c.disableAll p
  | .remove => c.remove p

/-- `events` after a call that found `e`; `remove` leaves it. -/
def Op.interest (op : Op) (e : Events) : Events :=
  match op with
  | .enableReading => e.or kReadEvent
  | .disableReading => e.diff kReadEvent
  | .enableWriting => e.or kWriteEvent
  | .disableWriting => e.diff kWriteEvent
  | .disableAll => kNoneEvent
  | .remove => e

theorem call_eq_update {op : Op} (h : op ≠ .remove) (c : Channel) (p : EPollerPoller) :
    c.call op p = p.updateChannel { c with events := op.interest c.events } := by
  cases op with
  | remove => exact absurd rfl h
  | _ => rfl

/-- `index` after a call that found `i` and leaves the interest `e`. -/
def Op.index (op : Op) (i : Index) (e : Events) : Index :=
  if op = .remove then .kNew else if i = .kAdded ∧ e = kNoneEvent then .kDeleted else .kAdded

/-- What a call does to a coherent registration. -/
structure Called (op : Op) (p : EPollerPoller) (c : Channel) (r : EPollerPoller × Channel) : Prop where
  channel : r.2 = { c with
    events := op.interest c.events
    index := op.index c.index (op.interest c.events) }
  coherent : Coherent r.1 r.2
  frame : SameBut c.fd p r.1
  failed : r.1.failed = p.failed

theorem called {p : EPollerPoller} {c : Channel} (op : Op) (h : Coherent p c) :
    Called op p c (c.call op p) := by
  by_cases hop : op = .remove
  · subst hop
    have hr := removed h
    exact ⟨hr.channel, hr.coherent, hr.frame, hr.failed⟩
  · have hu := updated (c := { c with events := op.interest c.events }) (e := c.events) h
    rw [call_eq_update hop]
    refine ⟨?_, hu.coherent, hu.frame, hu.failed⟩
    rw [hu.channel, Op.index, if_neg hop]

end Channel

/-! ### The channels of a loop -/

/-- A channel on a poller that differs only at another descriptor. -/
theorem Coherent.frame {p p' : EPollerPoller} {c : Channel} {fd : ℕ} (h : Coherent p c)
    (hf : SameBut fd p p') (hne : c.fd ≠ fd) : Coherent p' c :=
  ⟨(hf.epoll _ hne).trans h.epoll, (hf.channels _ hne).trans h.channels⟩

structure Registry (ι : Type*) where
  channel : ι → Channel
  poller : EPollerPoller

namespace Registry

variable {ι : Type*}

/-- The channels have been constructed, on distinct descriptors, and none has been registered. -/
structure Fresh (r : Registry ι) : Prop where
  channel : ∀ i, ∃ this fd, r.channel i = .new this fd
  fd : Function.Injective fun i => (r.channel i).fd
  epoll : ∀ i, r.poller.epoll (r.channel i).fd = none
  channels : ∀ i, r.poller.channels (r.channel i).fd = none
  failed : r.poller.failed = []

structure Inv (r : Registry ι) : Prop where
  fd : Function.Injective fun i => (r.channel i).fd
  coherent : ∀ i, Coherent r.poller (r.channel i)
  failed : r.poller.failed = []

theorem Fresh.inv {r : Registry ι} (h : r.Fresh) : r.Inv := by
  refine ⟨h.fd, ?_, h.failed⟩
  intro i
  obtain ⟨this, fd, hc⟩ := h.channel i
  have he := h.epoll i
  have hch := h.channels i
  rw [hc] at he hch ⊢
  exact ⟨he, hch⟩

variable [DecidableEq ι]

/-- The call `x.2` on the channel `x.1`. -/
def step (r : Registry ι) (x : ι × Channel.Op) : Option (Registry ι) :=
  let q := (r.channel x.1).call x.2 r.poller
  some ⟨Function.update r.channel x.1 q.2, q.1⟩

def sys : Sys (Registry ι) (ι × Channel.Op) where
  init := Fresh
  step := step

/-- Two connections, at the descriptors `7` and `8`. -/
def pair : Registry Bool where
  channel i := .new (.conn i.toNat) (7 + i.toNat)
  poller := .new

theorem pair_fresh : pair.Fresh := by
  refine ⟨fun i => ⟨_, _, rfl⟩, ?_, fun _ => rfl, fun _ => rfl, rfl⟩
  intro i j hij
  cases i <;> cases j <;> first | rfl | exact absurd hij (by decide)

/-- `acceptChannel` before `listen()`. -/
def unlistened : Registry Unit where
  channel _ := .new .accept 3
  poller := .new

theorem unlistened_fresh : unlistened.Fresh :=
  ⟨fun _ => ⟨_, _, rfl⟩, fun _ _ _ => rfl, fun _ => rfl, fun _ => rfl, rfl⟩

theorem Inv.step {r r' : Registry ι} {x : ι × Channel.Op} (h : r.Inv) (hs : r.step x = some r') :
    r'.Inv := by
  obtain ⟨i, op⟩ := x
  cases hs
  have hq := Channel.called op (h.coherent i)
  have hfd : ∀ j, (Function.update r.channel i ((r.channel i).call op r.poller).2 j).fd =
      (r.channel j).fd := by
    intro j
    by_cases hj : j = i
    · subst hj
      rw [Function.update_self, hq.channel]
    · rw [Function.update_of_ne hj]
  refine ⟨?_, ?_, hq.failed.trans h.failed⟩
  · intro j k hjk
    simp only [hfd] at hjk
    exact h.fd hjk
  · intro j
    by_cases hj : j = i
    · subst hj
      simpa using hq.coherent
    · have hne : (r.channel j).fd ≠ (r.channel i).fd := fun he => hj (h.fd he)
      simpa [Function.update_of_ne hj] using (h.coherent j).frame hq.frame hne

theorem Inv.of_reach {r : Registry ι} {C : Registry ι → ι × Channel.Op → Prop}
    (h : sys.Reach C r) : r.Inv :=
  h.invariant (fun _ hi => hi.inv) fun _ _ _ hi _ hs => hi.step hs

/-- **Registration is coherent**: after any calls on any channels, a channel is in the epoll set iff
its index is `kAdded`, with its interest and its address; `channels` holds it iff the index is not
`kNew`; and no `epoll_ctl` has been rejected. -/
theorem registration_of_reach {r : Registry ι} (h : sys.Reach (fun _ _ => True) r) (i : ι) :
    ((r.poller.epoll (r.channel i).fd).isSome ↔ (r.channel i).index = .kAdded) ∧
    ((r.channel i).index = .kAdded →
      r.poller.epoll (r.channel i).fd = some ((r.channel i).events, (r.channel i).this)) ∧
    (r.poller.channels (r.channel i).fd = some (r.channel i).this ↔
      (r.channel i).index = .kAdded ∨ (r.channel i).index = .kDeleted) ∧
    (r.poller.hasChannel (r.channel i) = true ↔ (r.channel i).index ≠ .kNew) ∧
    r.poller.failed = [] := by
  have hi := Inv.of_reach h
  obtain ⟨he, hc⟩ := hi.coherent i
  rw [EPollerPoller.hasChannel, decide_eq_true_iff, he, hc]
  refine ⟨?_, ?_, ?_, ?_, hi.failed⟩ <;> cases (r.channel i).index <;> simp

/-- Two channels: the second is registered, disabled and registered again, the first removed. -/
theorem registration_of_reach_pair :
    ∃ r : Registry Bool, sys.Reach (fun _ _ => True) r ∧
      r.poller.epoll 8 = some (kWriteEvent, .conn 1) ∧
      (r.poller.hasChannel (r.channel false) = true ↔ (r.channel false).index ≠ .kNew) ∧
      r.poller.failed = [] := by
  have hr : sys.Reach (fun _ _ => True) pair := .init pair_fresh
  have hr := hr.exec [(true, .enableReading), (false, .enableReading), (true, .disableAll),
    (true, .enableWriting), (false, .remove)] (by simp) rfl
  exact ⟨_, hr, (registration_of_reach hr true).2.1 (by decide),
    (registration_of_reach hr false).2.2.2.1, (registration_of_reach hr true).2.2.2.2⟩

/-! ### Channels without interest -/

/-- The poller may report `revents` for the channel. -/
def Reports (p : EPollerPoller) (c : Channel) (revents : Events) : Prop :=
  ∃ m, p.epoll c.fd = some (m, c.this) ∧ m.Reportable revents

/-- After an enabling or disabling call the channel is in the epoll set iff it has an interest, and
after `disableAll` nothing can be reported for it. -/
def Watched (_ : Registry ι) (x : ι × Channel.Op) (r' : Registry ι) : Prop :=
  x.2 ≠ .remove →
    ((r'.poller.epoll (r'.channel x.1).fd).isSome ↔ (r'.channel x.1).events ≠ kNoneEvent) ∧
    (x.2 = .disableAll → ∀ revents, ¬ Reports r'.poller (r'.channel x.1) revents)

/-- A call that leaves no interest is made on a registered channel. -/
def OnRegistered (r : Registry ι) (x : ι × Channel.Op) (_ : Registry ι) : Prop :=
  x.2 ≠ .remove → x.2.interest (r.channel x.1).events = kNoneEvent →
    (r.channel x.1).index = .kAdded

theorem watched_iff_onRegistered {r r' : Registry ι} {x : ι × Channel.Op} (h : r.Inv)
    (hs : r.step x = some r') : Watched r x r' ↔ OnRegistered r x r' := by
  obtain ⟨i, op⟩ := x
  cases hs
  have hq := Channel.called op (h.coherent i)
  have he := hq.coherent.epoll
  unfold Watched OnRegistered Reports
  simp only [Function.update_self]
  refine forall_congr' fun hop => ?_
  rw [he, hq.channel]
  simp only [Channel.Op.index, if_neg hop]
  by_cases hn : op.interest (r.channel i).events = kNoneEvent
  · by_cases hi : (r.channel i).index = .kAdded <;> simp [hn, hi]
  · have hd : op ≠ .disableAll := by
      rintro rfl
      exact hn rfl
    simp [hn, hd]

/-- **A channel without interest is watched** as soon as a call that leaves no interest meets an
unregistered channel, and only then. -/
theorem watched_iff {r : Registry ι} (h : r.Fresh) (calls : List (ι × Channel.Op)) :
    sys.Along Watched r calls ↔ sys.Along OnRegistered r calls :=
  Sys.along_congr (I := Inv) (fun _ _ _ hi hs _ => Inv.step hi hs)
    (fun _ _ _ hi hs => watched_iff_onRegistered hi hs) calls r h.inv

/-- A channel that is enabled before it is disabled. -/
theorem watched_iff_disabled :
    sys.Along Watched unlistened [((), .enableReading), ((), .disableAll), ((), .enableWriting)] := by
  refine (watched_iff unlistened_fresh _).mpr ?_
  rintro _ ⟨⟩
  refine ⟨fun _ hn => absurd hn (by decide), ?_⟩
  rintro _ ⟨⟩
  refine ⟨fun _ _ => rfl, ?_⟩
  rintro _ ⟨⟩
  exact ⟨fun _ hn => absurd hn (by decide), trivial⟩

/-- `~Acceptor` of a server that never listened: `disableAll` registers the channel, and epoll may
report a hangup for it. -/
theorem unlistened_watched :
    unlistened.Fresh ∧ ¬ sys.Along Watched unlistened [((), .disableAll)] ∧
      ∃ r, sys.exec unlistened [((), .disableAll)] = some r ∧
        Reports r.poller (r.channel ()) ⟨false, false, false, false, true⟩ := by
  refine ⟨unlistened_fresh, ?_, _, rfl, kNoneEvent, by decide, by decide⟩
  intro h
  have hw := (h _ rfl).1 (by decide)
  exact absurd (hw.1.mp (by decide)) (by decide)

end Registry

end Mymuduo
