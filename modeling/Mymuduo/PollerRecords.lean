import Mymuduo.ConnSpec
import Mymuduo.ServerOwn

/-!
# Mymuduo.PollerRecords — the records of the pollers and the connections

The pollers and the kernel record plain pointers under descriptors (`EPollerPoller.Entry`).  `Registered`
says that the records agree with the connections that are held: their descriptors are different, their
registrations are coherent, and every record of a connection is in its own loop, under its own
descriptor.  The member functions of a connection keep that (`Registered.setIo`), and so does a new
connection with a free descriptor (`Registered.createConnection`).
-/

namespace Mymuduo

open Lib

/-! ### The records of a descriptor -/

/-- The poller or the kernel has recorded the pointer `ptr` for the descriptor. -/
def EPollerPoller.Entry (p : EPollerPoller) (fd : ℕ) (ptr : ChannelPtr) : Prop :=
  p.channels fd = some ptr ∨ ∃ m, p.epoll fd = some (m, ptr)

open EPollerPoller

/-- What is recorded for the descriptor of a coherent channel is the channel. -/
theorem Coherent.of_entry {p : EPollerPoller} {c : Channel} {ptr : ChannelPtr} (h : Coherent p c)
    (he : p.Entry c.fd ptr) : ptr = c.this ∧ c.index ≠ .kNew := by
  rcases he with he | ⟨m, he⟩
  · rw [h.channels] at he
    split at he
    · cases he
    next hi => exact ⟨(Option.some.inj he).symm, hi⟩
  · rw [h.epoll] at he
    split at he
    next hi => exact ⟨(Prod.mk.inj (Option.some.inj he)).2.symm, by simp [hi]⟩
    · cases he

theorem SameBut.entry {fd fd' : ℕ} {p p' : EPollerPoller} {ptr : ChannelPtr} (h : SameBut fd p p')
    (hne : fd' ≠ fd) : p'.Entry fd' ptr ↔ p.Entry fd' ptr := by
  rw [Entry, Entry, h.channels fd' hne, h.epoll fd' hne]

theorem Coherent.of_sameBut {p p' : EPollerPoller} {fd : ℕ} {c : Channel} (h : Coherent p c)
    (hs : SameBut fd p p') (hne : c.fd ≠ fd) : Coherent p' c :=
  ⟨(hs.epoll _ hne).trans h.epoll, (hs.channels _ hne).trans h.channels⟩

/-- `epoll_ctl` registers nothing but its argument. -/
theorem epollCtl_entry {set set' : EpollSet} {op : EpollOp} {fd fd' : ℕ}
    {event x : Events × ChannelPtr} (h : epollCtl set op fd event = some set')
    (hx : set' fd' = some x) : set fd' = some x ∨ fd' = fd ∧ x = event := by
  by_cases hd : fd' = fd
  · subst hd
    unfold epollCtl at h
    split at h <;> cases h <;> simp_all
  · refine .inl ?_
    unfold epollCtl at h
    split at h <;> cases h <;> simpa [hd] using hx

theorem entry_update {p : EPollerPoller} {op : EpollOp} {c : Channel} {fd : ℕ} {ptr : ChannelPtr}
    (h : (p.update op c).Entry fd ptr) : p.Entry fd ptr ∨ fd = c.fd ∧ ptr = c.this := by
  unfold EPollerPoller.update at h
  split at h
  next epoll he =>
    rcases h with h | ⟨m, h⟩
    · exact .inl (.inl h)
    · rcases epollCtl_entry he h with h | ⟨hd, hx⟩
      · exact .inl (.inr ⟨m, h⟩)
      · exact .inr ⟨hd, congrArg Prod.snd hx⟩
  next => exact .inl h

/-- `updateChannel` records nothing but its channel. -/
theorem entry_updateChannel {p : EPollerPoller} {c : Channel} {fd : ℕ} {ptr : ChannelPtr}
    (h : (p.updateChannel c).1.Entry fd ptr) : p.Entry fd ptr ∨ fd = c.fd ∧ ptr = c.this := by
  unfold EPollerPoller.updateChannel at h
  split at h
  · rcases entry_update h with h | h
    · split at h
      · rcases h with h | h
        · by_cases hd : fd = c.fd
          · subst hd
            simp only [Function.update_self, Option.some.injEq] at h
            exact .inr ⟨rfl, h.symm⟩
          · simp only [Function.update_of_ne hd] at h
            exact .inl (.inl h)
        · exact .inl (.inr h)
      · exact .inl h
    · exact .inr h
  · split at h <;> exact entry_update h

/-- A new channel of a descriptor without records. -/
theorem coherent_new {p : EPollerPoller} {fd : ℕ} (h : ∀ ptr, ¬ p.Entry fd ptr) (this : ChannelPtr) :
    Coherent p (.new this fd) := by
  refine ⟨Option.eq_none_iff_forall_ne_some.mpr fun x hx => ?_,
    Option.eq_none_iff_forall_ne_some.mpr fun ptr hp => h ptr (.inl hp)⟩
  exact h x.2 (.inr ⟨x.1, hx⟩)

namespace TcpServer

/-- The records of the pollers and the connections that are held agree. -/
structure Registered (cfg : Config) (s : TcpServer) : Prop where
  this : ∀ c < s.accepted, (s.conn c).channel.this = .conn c
  fds : ∀ c < s.accepted, ∀ c' < s.accepted, s.Held cfg c → s.Held cfg c' →
    (s.conn c).channel.fd = (s.conn c').channel.fd → c = c'
  unreserved : ∀ c < s.accepted, s.Held cfg c → ¬ cfg.Reserved (s.conn c).channel.fd
  coherent : ∀ c < s.accepted, s.Held cfg c → Coherent (s.poller (s.loopOf c)) (s.conn c).channel
  entry : ∀ l fd ptr, (s.poller l).Entry fd ptr → cfg.Reserved fd ∧ (∀ c, ptr ≠ .conn c) ∨
    ∃ c < s.accepted, ptr = .conn c ∧ s.loopOf c = l ∧ (s.conn c).channel.fd = fd ∧
      (s.conn c).channel.index ≠ .kNew

variable {cfg : Config} {s s' : TcpServer} {l : LoopId} {c : ConnId}

/-! ### Holders come and go -/

theorem held_push {f : Functor} (h : (s.push l f).Held cfg c) :
    s.Held cfg c ∨ f.owns = true ∧ f.conn = c := by
  rcases h with h | ⟨l', hl', g, hg, ho, hc⟩ | h | h
  · exact .inl (.inl h)
  · rcases mem_held_push hg with hg | rfl
    · exact .inl (.inr (.inl ⟨l', hl', g, hg, ho, hc⟩))
    · exact .inr ⟨ho, hc⟩
  · exact .inl (.inr (.inr (.inl h)))
  · exact .inl (.inr (.inr (.inr h)))

/-- A queue with fewer tasks holds fewer connections. -/
theorem held_setQueue {q : TaskQueue Functor} (hq : ∀ f ∈ q.held, f ∈ (s.queue l).held)
    (h : (s.setQueue l q).Held cfg c) : s.Held cfg c := by
  have hheld := forall_setQueue (P := fun l' q => ∀ f ∈ q.held, f ∈ (s.queue l').held) hq
    fun _ _ hf => hf
  rcases h with h | ⟨l', hl', f, hf, ho⟩ | h | h
  · exact .inl h
  · exact .inr (.inl ⟨l', hl', f, hheld l' f hf, ho⟩)
  · exact .inr (.inr (.inl h))
  · exact .inr (.inr (.inr h))

/-- The user takes a pointer from a holder, or gives one up. -/
theorem held_setRefs {c' : ConnId} {n : ℕ} (hn : 0 < n → s.Held cfg c)
    (h : (s.setRefs c n).Held cfg c') : s.Held cfg c' := by
  have hrefs : ∀ c', 0 < (s.setRefs c n).userRefs c' → s.Held cfg c' :=
    forall_update (P := fun c' n => 0 < n → s.Held cfg c') hn fun _ hc => .inr (.inr (.inl hc))
  rcases h with h | h | h | h
  · exact .inl h
  · exact .inr (.inl h)
  · exact hrefs c' h
  · exact .inr (.inr (.inr h))

/-- So does a worker thread. -/
theorem held_setWorker {t : ℕ} {w : Worker}
    (hw : t < cfg.workers → ∀ c, w.conn = some c → s.Held cfg c) (h : (s.setWorker t w).Held cfg c) :
    s.Held cfg c := by
  have hworker : ∀ t' c, t' < cfg.workers → ((s.setWorker t w).worker t').conn = some c → s.Held cfg c :=
    fun t' c ht' hc => forall_update
      (P := fun t' (w : Worker) => t' < cfg.workers → ∀ c, w.conn = some c → s.Held cfg c) hw
      (fun t' ht' c hc => .inr (.inr (.inr ⟨t', ht', hc⟩))) t' ht' c hc
  rcases h with h | h | h | ⟨t', ht', hc⟩
  · exact .inl h
  · exact .inr (.inl h)
  · exact .inr (.inr (.inl h))
  · exact hworker t' c ht' hc

theorem held_removeConnectionInLoop {c' : ConnId} (h : (s.removeConnectionInLoop c').Held cfg c) :
    s.Held cfg c ∨ c' = c := by
  rcases held_push h with h | h
  · refine .inl (h.imp_left fun he => ?_)
    change Function.update s.connections (s.nameOf c') none (s.nameOf c) = some c at he
    by_cases hn : s.nameOf c = s.nameOf c'
    · simp [hn] at he
    · simpa [hn] using he
  · exact .inr h.2

theorem held_createConnection (hc : c < s.accepted) {fd : ℕ} {highWater : Option ℕ}
    (h : (s.createConnection cfg fd highWater).Held cfg c) : s.Held cfg c := by
  refine h.imp_left fun he => ?_
  change Function.update s.connections (cfg.connName s.nextConnId) (some s.accepted)
    (Function.update s.nameOf s.accepted (cfg.connName s.nextConnId) c) = some c at he
  rw [Function.update_of_ne hc.ne] at he
  by_cases hn : s.nameOf c = cfg.connName s.nextConnId
  · rw [hn, Function.update_self] at he
    exact absurd (Option.some.inj he) hc.ne'
  · rwa [Function.update_of_ne hn] at he

/-! ### Steps that keep the records in order -/

/-- What leaves the connections and the pollers as they are, and adds no holder. -/
theorem Registered.mono (h : Registered cfg s) (hacc : s'.accepted = s.accepted)
    (hconn : s'.conn = s.conn) (hpoll : s'.poller = s.poller) (hloop : s'.loopOf = s.loopOf)
    (hheld : ∀ c < s.accepted, s'.Held cfg c → s.Held cfg c) : Registered cfg s' where
  this c hc := hconn ▸ h.this c (hacc ▸ hc)
  fds c hc c' hc' hh hh' he :=
    h.fds c (hacc ▸ hc) c' (hacc ▸ hc') (hheld c (hacc ▸ hc) hh) (hheld c' (hacc ▸ hc') hh')
      (hconn ▸ he)
  unreserved c hc hh := hconn ▸ h.unreserved c (hacc ▸ hc) (hheld c (hacc ▸ hc) hh)
  coherent c hc hh := by
    rw [hpoll, hconn, hloop]
    exact h.coherent c (hacc ▸ hc) (hheld c (hacc ▸ hc) hh)
  entry l fd ptr he := by
    rw [hpoll] at he
    rw [hacc, hconn, hloop]
    exact h.entry l fd ptr he

/-- A member function of a connection that is held. -/
theorem Registered.setIo (h : Registered cfg s) (hc : c < s.accepted) (hh : s.Held cfg c) {io : Io}
    (hf : Io.Frame (fun _ => True) (s.io c) io) : Registered cfg (s.setIo c io) := by
  have hfd : ∀ c', ((s.setIo c io).conn c').channel.fd = (s.conn c').channel.fd := by
    intro c'
    by_cases hn : c' = c
    · rw [hn, setIo_conn_self]
      exact hf.fd
    · rw [setIo_conn_of_ne hn]
  have hcoh : Coherent (s.poller (s.loopOf c)) (s.conn c).channel := h.coherent c hc hh
  refine ⟨fun c' hc' => ?_, fun c' hc' c'' hc'' hh' hh'' he => ?_, fun c' hc' hh' => ?_,
    fun c' hc' hh' => ?_, fun l' fd ptr he => ?_⟩
  · by_cases hn : c' = c
    · rw [hn, setIo_conn_self]
      exact hf.this.trans (h.this c hc)
    · rw [setIo_conn_of_ne hn]
      exact h.this c' hc'
  · rw [hfd, hfd] at he
    exact h.fds c' hc' c'' hc'' hh' hh'' he
  · rw [hfd]
    exact h.unreserved c' hc' hh'
  · change Coherent ((s.setIo c io).poller (s.loopOf c')) _
    by_cases hn : c' = c
    · rw [hn, setIo_conn_self, setIo_poller_self]
      exact hf.coherent hcoh
    · rw [setIo_conn_of_ne hn]
      by_cases hl' : s.loopOf c' = s.loopOf c
      · rw [hl', setIo_poller_self]
        refine (hl' ▸ h.coherent c' hc' hh').of_sameBut (hf.others hcoh) fun he => hn ?_
        exact h.fds c' hc' c hc hh' hh he
      · rw [setIo_poller_of_ne hl']
        exact h.coherent c' hc' hh'
  · by_cases hl' : l' = s.loopOf c
    · subst hl'
      rw [setIo_poller_self] at he
      by_cases hd : fd = (s.conn c).channel.fd
      · -- the record of the connection itself
        have hfd' : io.conn.channel.fd = fd := hf.fd.trans hd.symm
        obtain ⟨hp, hi⟩ := (hf.coherent hcoh).of_entry (hfd' ▸ he)
        exact .inr ⟨c, hc, hp.trans (hf.this.trans (h.this c hc)), rfl, (hfd c).trans hd.symm,
          (setIo_conn_self c io s).symm ▸ hi⟩
      · rcases h.entry _ fd ptr (((hf.others hcoh).entry hd).mp he) with hr | ⟨c', hc', hp, hl', hd', hi⟩
        · exact .inl hr
        · have hn : c' ≠ c := by
            rintro rfl
            exact hd hd'.symm
          exact .inr ⟨c', hc', hp, hl', (hfd c').trans hd', (setIo_conn_of_ne hn io s).symm ▸ hi⟩
    · rw [setIo_poller_of_ne hl'] at he
      rcases h.entry l' fd ptr he with hr | ⟨c', hc', hp, hlc, hd', hi⟩
      · exact .inl hr
      · have hn : c' ≠ c := by
          rintro rfl
          exact hl' hlc.symm
        exact .inr ⟨c', hc', hp, hlc, (hfd c').trans hd', (setIo_conn_of_ne hn io s).symm ▸ hi⟩

theorem Registered.createConnection (h : Registered cfg s) {fd : ℕ} (hf : s.FreeFd cfg fd)
    (hn : ∀ l ptr, ¬ (s.poller l).Entry fd ptr) (highWater : Option ℕ) :
    Registered cfg (s.createConnection cfg fd highWater) := by
  have hconn : ∀ c < s.accepted, (s.createConnection cfg fd highWater).conn c = s.conn c :=
    fun c hc => Function.update_of_ne hc.ne ..
  have hnew : (s.createConnection cfg fd highWater).conn s.accepted =
      .new (.conn s.accepted) fd cfg.writeCompleteCallback highWater := Function.update_self ..
  have hloop : ∀ c < s.accepted, (s.createConnection cfg fd highWater).loopOf c = s.loopOf c :=
    fun c hc => Function.update_of_ne hc.ne ..
  have hcases : ∀ {c}, c < s.accepted + 1 → c < s.accepted ∨ c = s.accepted := fun hc =>
    Nat.lt_or_eq_of_le (Nat.le_of_lt_succ hc)
  have hfree : ∀ c < s.accepted, (s.createConnection cfg fd highWater).Held cfg c →
      (s.conn c).channel.fd ≠ fd := fun c hc hh => hf.2 c hc (held_createConnection hc hh)
  refine ⟨fun c hc => ?_, fun c hc c' hc' hh hh' he => ?_, fun c hc hh => ?_, fun c hc hh => ?_,
    fun l fd' ptr he => ?_⟩
  · rcases hcases hc with hc | rfl
    · rw [hconn c hc]
      exact h.this c hc
    · rw [hnew]
      rfl
  · rcases hcases hc with hc | rfl <;> rcases hcases hc' with hc' | rfl
    · rw [hconn c hc, hconn c' hc'] at he
      exact h.fds c hc c' hc' (held_createConnection hc hh) (held_createConnection hc' hh') he
    · rw [hconn c hc, hnew] at he
      exact absurd he (hfree c hc hh)
    · rw [hconn c' hc', hnew] at he
      exact absurd he.symm (hfree c' hc' hh')
    · rfl
  · rcases hcases hc with hc | rfl
    · rw [hconn c hc]
      exact h.unreserved c hc (held_createConnection hc hh)
    · rw [hnew]
      exact hf.1
  · rcases hcases hc with hc | rfl
    · rw [hconn c hc, hloop c hc]
      exact h.coherent c hc (held_createConnection hc hh)
    · rw [hnew]
      exact coherent_new (hn _) _
  · rcases h.entry l fd' ptr he with hr | ⟨c, hc, hp, hl, hd, hi⟩
    · exact .inl hr
    · exact .inr ⟨c, Nat.lt_succ_of_lt hc, hp, (hloop c hc).trans hl, (hconn c hc).symm ▸ hd,
        (hconn c hc).symm ▸ hi⟩

theorem Registered.reported (h : Registered cfg s) (r : ConnId → Events) :
    Registered cfg (s.reported r) where
  this := h.this
  fds := h.fds
  unreserved := h.unreserved
  coherent c hc hh := ⟨(h.coherent c hc hh).epoll, (h.coherent c hc hh).channels⟩
  entry := h.entry

theorem Registered.connectEstablished (h : Registered cfg s) (hc : c < s.accepted) (hh : s.Held cfg c)
    (acts : List UserAct) : Registered cfg (s.connectEstablished l c acts) :=
  (h.setIo hc hh (.of_steps ((Io.Steps.refl _).connectEstablished acts))).mono rfl rfl rfl rfl
    fun _ _ hh => hh

theorem entry_startPoller {fd : ℕ} {ptr : ChannelPtr} (hl : l ≤ cfg.numThreads)
    (h : (startPoller cfg l).Entry fd ptr) : cfg.Reserved fd ∧ ∀ c, ptr ≠ .conn c := by
  have hw : ∀ {fd ptr}, ((Channel.new (.wakeup l) (cfg.wakeupFd l)).enableReading .new).1.Entry fd
      ptr → cfg.Reserved fd ∧ ∀ c, ptr ≠ .conn c := by
    intro fd ptr h
    rcases entry_updateChannel h with h | ⟨rfl, rfl⟩
    · rcases h with h | ⟨m, h⟩ <;> cases h
    · exact ⟨.inr ⟨l, hl, rfl⟩, by simp [Channel.new]⟩
  unfold startPoller at h
  simp only at h
  split at h
  · rcases entry_updateChannel h with h | ⟨rfl, rfl⟩
    · exact hw h
    · exact ⟨.inl rfl, by simp [Channel.new]⟩
  · exact hw h

end TcpServer

end Mymuduo
