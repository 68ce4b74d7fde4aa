import Mymuduo.PollerRecords

/-!
# Mymuduo.ServerPlaces — everything of a connection is in its own loop

`Placed F` is an invariant of every step of a server, without a bound on the connections and with any
calls from other threads (`Placed.step`):

* a functor waits in the loop of its connection, `removeConnectionInLoop` in the base loop;
* an epoll set registers the connections of its own loop, each under its own descriptor and with the
  index `kAdded`;
* the other channels that are registered satisfy `F`, whatever `F` is: no step adds one;
* the active channels of a loop are its own.
-/

namespace Mymuduo

open Lib

/-! ### What a member function registers -/

namespace EPollerPoller

variable {p : EPollerPoller} {c : Channel} {fd : ℕ} {x : Events × ChannelPtr}

theorem epoll_update {op : EpollOp} (h : (p.update op c).epoll fd = some x) :
    p.epoll fd = some x ∨ fd = c.fd ∧ x = (c.events, c.this) := by
  unfold update at h
  split at h
  next epoll he => exact epollCtl_entry he h
  next => exact .inl h

theorem epoll_update_del : (p.update .del c).epoll c.fd = none := by
  unfold update
  cases h : p.epoll c.fd with
  | none => simp [epollCtl, h]
  | some y => simp [epollCtl, h]

/-- A descriptor that is registered after `updateChannel` was registered before, or is that of the
channel, and then the index says so. -/
theorem epoll_updateChannel (h : (p.updateChannel c).1.epoll fd = some x) :
    (p.epoll fd = some x ∨ fd = c.fd ∧ x.2 = c.this) ∧
      (fd = c.fd → (p.updateChannel c).2.index = .kAdded) := by
  unfold updateChannel at h ⊢
  split at h
  next hi =>
    rw [if_pos hi]
    refine ⟨?_, fun _ => rfl⟩
    rcases epoll_update h with h | ⟨hd, hx⟩
    · by_cases hk : c.index = .kNew
      · rw [if_pos hk] at h
        exact .inl h
      · rw [if_neg hk] at h
        exact .inl h
    · exact .inr ⟨hd, congrArg Prod.snd hx⟩
  next hi =>
    rw [if_neg hi]
    split at h
    next hn =>
      rw [if_pos hn]
      refine ⟨(epoll_update h).imp_right fun hd => ⟨hd.1, congrArg Prod.snd hd.2⟩, fun hd => ?_⟩
      rw [hd, epoll_update_del] at h
      cases h
    next hn =>
      rw [if_neg hn]
      refine ⟨(epoll_update h).imp_right fun hd => ⟨hd.1, congrArg Prod.snd hd.2⟩, fun _ => ?_⟩
      show c.index = .kAdded
      cases hk : c.index with
      | kAdded => rfl
      | kNew => exact absurd (.inl hk) hi
      | kDeleted => exact absurd (.inr hk) hi

theorem epoll_removeChannel (h : (p.removeChannel c).1.epoll fd = some x) :
    p.epoll fd = some x ∧ (fd = c.fd → c.index ≠ .kAdded) := by
  unfold removeChannel at h
  simp only at h
  split at h
  next hk =>
    have hne : fd ≠ c.fd := by
      rintro rfl
      rw [epoll_update_del] at h
      cases h
    rcases epoll_update h with h | ⟨hd, -⟩
    · exact ⟨h, fun hd => absurd hd hne⟩
    · exact absurd hd hne
  next hk => exact ⟨h, fun _ => hk⟩

end EPollerPoller

namespace Io

variable {K : Event → Prop} {io io' io'' : Io}

/-- The channel is registered under its own descriptor at most, and then its index says so. -/
def OwnFd (io : Io) : Prop :=
  ∀ fd m, io.poller.epoll fd = some (m, io.conn.channel.this) →
    fd = io.conn.channel.fd ∧ io.conn.channel.index = .kAdded

/-- What a member function does to the epoll set of its loop. -/
structure Registers (io io' : Io) : Prop where
  this : io'.conn.channel.this = io.conn.channel.this
  fd : io'.conn.channel.fd = io.conn.channel.fd
  own : io.OwnFd → io'.OwnFd
  others : ∀ fd m ptr, ptr ≠ io.conn.channel.this → io'.poller.epoll fd = some (m, ptr) →
    io.poller.epoll fd = some (m, ptr)

namespace Registers

theorem refl (io : Io) : Registers io io := ⟨rfl, rfl, id, fun _ _ _ _ h => h⟩

theorem trans (h : Registers io io') (h' : Registers io' io'') : Registers io io'' where
  this := h'.this.trans h.this
  fd := h'.fd.trans h.fd
  own ho := h'.own (h.own ho)
  others fd m ptr hn he := h.others fd m ptr hn (h'.others fd m ptr (h.this ▸ hn) he)

theorem of_prim (h : Prim K io io') : Registers io io' := by
  cases h with
  | emit _ => exact ⟨rfl, rfl, id, fun _ _ _ _ he => he⟩
  | setState s => exact ⟨rfl, rfl, id, fun _ _ _ _ he => he⟩
  | setOutput b => exact ⟨rfl, rfl, id, fun _ _ _ _ he => he⟩
  | setInput b => exact ⟨rfl, rfl, id, fun _ _ _ _ he => he⟩
  | tie => exact ⟨rfl, rfl, id, fun _ _ _ _ he => he⟩
  | update g =>
    have hthis := Channel.updateChannel_this { io.conn.channel with events := g io.conn.channel.events }
      io.poller
    have hfd := Channel.updateChannel_fd { io.conn.channel with events := g io.conn.channel.events }
      io.poller
    refine ⟨hthis, hfd, fun ho fd m he => ?_, fun fd m ptr hn he => ?_⟩
    · rw [onChannel_channel, hthis] at he
      obtain ⟨hor, hidx⟩ := EPollerPoller.epoll_updateChannel he
      have hd : fd = io.conn.channel.fd := hor.elim (fun h => (ho fd m h).1) fun h => h.1
      exact ⟨hd.trans hfd.symm, hidx hd⟩
    · rcases (EPollerPoller.epoll_updateChannel he).1 with he | ⟨-, hp⟩
      · exact he
      · exact absurd hp hn
  | remove =>
    refine ⟨rfl, rfl, fun ho fd m he => ?_, fun fd m ptr _ he => ?_⟩
    · obtain ⟨he, hne⟩ := EPollerPoller.epoll_removeChannel he
      obtain ⟨hd, hidx⟩ := ho fd m he
      exact absurd hidx (hne hd)
    · exact (EPollerPoller.epoll_removeChannel he).1

theorem of_steps (h : Steps K io io') : Registers io io' := by
  induction h with
  | refl => exact refl io
  | tail _ hp ih => exact ih.trans (of_prim hp)

end Registers

end Io

namespace TcpServer

/-! ### The invariant -/

section Defs

variable (cfg : Config) (F : LoopId → ℕ → ChannelPtr → Prop) (s : TcpServer)

/-- The channel belongs to the loop `l`. -/
def Home (l : LoopId) : ChannelPtr → Prop
  | .wakeup l' => l' = l
  | .accept => l = 0
  | .conn c => c < s.accepted ∧ s.loopOf c = l

/-- The channel may be registered in the loop `l` under the descriptor `fd`. -/
def Under (l : LoopId) (fd : ℕ) : ChannelPtr → Prop
  | .conn c => (s.conn c).channel.fd = fd ∧ (s.conn c).channel.index = .kAdded
  | ptr => F l fd ptr

structure Placed : Prop where
  queued : ∀ l, ∀ f ∈ (s.queue l).unrun, f.conn < s.accepted ∧ s.home f = l
  inline : ∀ c, .connectEstablished c ∉ (s.queue 0).unrun
  reaction : ∀ l, ∀ x ∈ s.reactions l, x.1 < s.accepted
  worker : ∀ t c, (s.worker t).conn = some c → c < s.accepted
  this : ∀ c < s.accepted, (s.conn c).channel.this = .conn c
  unreserved : ∀ c < s.accepted, ¬ cfg.Reserved (s.conn c).channel.fd
  entry : ∀ l fd m ptr, (s.poller l).epoll fd = some (m, ptr) → s.Home l ptr ∧ s.Under F l fd ptr
  active : ∀ l, ∀ ptr ∈ s.active l, s.Home l ptr

end Defs

variable {cfg : Config} {F : LoopId → ℕ → ChannelPtr → Prop} {s s' : TcpServer} {l : LoopId}
  {c : ConnId}

/-! ### Queues -/

theorem Placed.setQueue (h : Placed cfg F s) {q : TaskQueue Functor}
    (hq : ∀ f ∈ q.unrun, f.conn < s.accepted ∧ s.home f = l)
    (hin : l = 0 → ∀ c, .connectEstablished c ∉ q.unrun) : Placed cfg F (s.setQueue l q) := by
  have hqueued := forall_setQueue (P := fun l' q => ∀ f ∈ q.unrun, f.conn < s.accepted ∧ s.home f = l')
    hq h.queued
  have hinline := forall_setQueue
    (P := fun l' q => l' = 0 → ∀ c, .connectEstablished c ∉ q.unrun) hin
    fun l' hl' => hl' ▸ h.inline
  exact { h with queued := hqueued, inline := hinline 0 rfl }

/-- A queue with fewer tasks. -/
theorem Placed.shrink (h : Placed cfg F s) {q : TaskQueue Functor}
    (hq : ∀ f ∈ q.unrun, f ∈ (s.queue l).unrun) : Placed cfg F (s.setQueue l q) := by
  refine h.setQueue (fun f hf => h.queued l f (hq f hf)) fun hl c hc => ?_
  subst hl
  exact h.inline c (hq _ hc)

theorem Placed.push (h : Placed cfg F s) {f : Functor} (hc : f.conn < s.accepted)
    (hin : s.home f = 0 → ∀ c, f ≠ .connectEstablished c) : Placed cfg F (s.push (s.home f) f) := by
  refine h.setQueue (fun g hg => ?_) fun hl c hm => ?_
  · rcases TaskQueue.mem_unrun_push.mp hg with hg | rfl
    · exact h.queued _ g hg
    · exact ⟨hc, rfl⟩
  · rcases TaskQueue.mem_unrun_push.mp hm with hm | rfl
    · rw [hl] at hm
      exact h.inline c hm
    · exact hin hl c rfl

theorem Placed.removeConnectionInLoop (h : Placed cfg F s) (hc : c < s.accepted) :
    Placed cfg F (s.removeConnectionInLoop c) := by
  have h1 := h.push (f := .connectDestroyed c) hc (by simp)
  exact { h1 with }

theorem Placed.react (h : Placed cfg F s) (hc : c < s.accepted) (l : LoopId) (e : Event) :
    Placed cfg F (s.react l c e) := by
  cases e with
  | closeCallback =>
    simp only [TcpServer.react, removeConnection]
    split
    · exact h.removeConnectionInLoop hc
    · exact h.push (f := .removeConnectionInLoop c) hc (by simp)
  | writeComplete => exact h.push (f := .writeComplete c) hc (by simp)
  | highWaterMark size => exact h.push (f := .highWaterMark c size) hc (by simp)
  | _ => exact h

/-! ### Member functions -/

theorem Placed.setReactions (h : Placed cfg F s) (todo : List (ConnId × Event))
    (hx : ∀ x ∈ todo, x.1 < s.accepted) : Placed cfg F (s.setReactions l todo) := by
  have hre : ∀ l', ∀ x ∈ (s.setReactions l todo).reactions l', x.1 < s.accepted :=
    forall_update (P := fun _ (todo : List (ConnId × Event)) => ∀ x ∈ todo, x.1 < s.accepted) hx
      h.reaction
  exact { h with reaction := hre }

theorem Placed.setIo (h : Placed cfg F s) (hc : c < s.accepted) {io : Io}
    (hr : Io.Registers (s.io c) io) : Placed cfg F (s.setIo c io) := by
  have hthis : (s.conn c).channel.this = .conn c := h.this c hc
  have hown : io.OwnFd := hr.own fun fd m he => by
    obtain ⟨hd, hi⟩ := (h.entry _ fd m _ (hthis ▸ he)).2
    exact ⟨hd.symm, hi⟩
  refine { h with
    this := fun c' hc' => ?_
    unreserved := fun c' hc' => ?_
    entry := fun l' fd m ptr he => ?_ }
  · by_cases hn : c' = c
    · rw [hn, setIo_conn_self]
      exact hr.this.trans hthis
    · rw [setIo_conn_of_ne hn]
      exact h.this c' hc'
  · by_cases hn : c' = c
    · rw [hn, setIo_conn_self, hr.fd]
      exact h.unreserved c hc
    · rw [setIo_conn_of_ne hn]
      exact h.unreserved c' hc'
  · by_cases hp : ptr = .conn c
    · -- only its own loop registers the connection
      have hl' : l' = s.loopOf c := by
        by_contra hn
        rw [setIo_poller_of_ne hn] at he
        have hhome := (h.entry l' fd m ptr he).1
        rw [hp] at hhome
        exact hn hhome.2.symm
      subst hl'
      subst hp
      rw [setIo_poller_self] at he
      obtain ⟨hd, hi⟩ := hown fd m ((hr.this.trans hthis).symm ▸ he)
      refine ⟨⟨hc, rfl⟩, ?_, ?_⟩
      · rw [setIo_conn_self]
        exact hd.symm
      · rw [setIo_conn_self]
        exact hi
    · have he : (s.poller l').epoll fd = some (m, ptr) := by
        by_cases hn : l' = s.loopOf c
        · subst hn
          rw [setIo_poller_self] at he
          exact hr.others fd m ptr (fun hq => hp (hq.trans hthis)) he
        · rwa [setIo_poller_of_ne hn] at he
      obtain ⟨hhome, hunder⟩ := h.entry l' fd m ptr he
      refine ⟨hhome, ?_⟩
      cases ptr with
      | conn c' =>
        have hn : c' ≠ c := fun hn => hp (congrArg ChannelPtr.conn hn)
        show ((s.setIo c io).conn c').channel.fd = fd ∧ _
        rw [setIo_conn_of_ne hn]
        exact hunder
      | _ => exact hunder

theorem Placed.onConn (h : Placed cfg F s) (hc : c < s.accepted) {f : Io → Io}
    (hf : Io.Steps (fun _ => True) (s.io c) (f (s.io c))) : Placed cfg F (s.onConn l c f) := by
  refine (h.setIo hc (.of_steps hf)).setReactions _ fun x hx => ?_
  obtain ⟨e, -, rfl⟩ := List.mem_map.mp hx
  exact hc

theorem Placed.connectEstablished (h : Placed cfg F s) (hc : c < s.accepted)
    (acts : List UserAct) : Placed cfg F (s.connectEstablished l c acts) :=
  { h.onConn hc ((Io.Steps.refl _).connectEstablished acts) with }

theorem Placed.connectDestroyed (h : Placed cfg F s) (hc : c < s.accepted)
    (acts : List UserAct) : Placed cfg F (s.connectDestroyed l c acts) :=
  { h.onConn hc ((Io.Steps.refl _).connectDestroyed acts) with }

theorem Placed.user (h : Placed cfg F s) (hc : c < s.accepted)
    (acts : List UserAct) : Placed cfg F (s.onConn l c (Io.user acts)) :=
  h.onConn hc ((Io.Steps.refl _).user any_event acts)

theorem Placed.callFunctor (h : Placed cfg F s) {f : Functor} (hc : f.conn < s.accepted)
    (env : FunctorEnv) : Placed cfg F (s.callFunctor l env f) := by
  cases f with
  | connectEstablished c => exact h.connectEstablished hc env.acts
  | connectDestroyed c => exact h.connectDestroyed hc env.acts
  | removeConnectionInLoop c => exact h.removeConnectionInLoop hc
  | writeComplete c => exact h.user hc env.acts
  | highWaterMark c size => exact h.user hc env.acts
  | sendInLoop c => exact h.onConn hc ((Io.Steps.refl _).sendInLoop any_event _ _)
  | shutdownInLoop c => exact h.onConn hc ((Io.Steps.refl _).shutdownInLoop any_event)

/-! ### A new connection -/

theorem Home.createConnection {ptr : ChannelPtr} (h : s.Home l ptr) (fd : ℕ)
    (highWater : Option ℕ) : (s.createConnection cfg fd highWater).Home l ptr := by
  cases ptr with
  | conn c =>
    obtain ⟨hc, hl⟩ := h
    exact ⟨Nat.lt_succ_of_lt hc, (Function.update_of_ne hc.ne ..).trans hl⟩
  | _ => exact h

theorem home_createConnection {f : Functor} (hc : f.conn < s.accepted) (fd : ℕ)
    (highWater : Option ℕ) : (s.createConnection cfg fd highWater).home f = s.home f := by
  cases f with
  | removeConnectionInLoop c => rfl
  | _ => exact Function.update_of_ne hc.ne ..

theorem Placed.createConnection (h : Placed cfg F s) {fd : ℕ} (hf : s.FreeFd cfg fd)
    (highWater : Option ℕ) : Placed cfg F (s.createConnection cfg fd highWater) := by
  have hconn : ∀ c < s.accepted, (s.createConnection cfg fd highWater).conn c = s.conn c :=
    fun c hc => Function.update_of_ne hc.ne ..
  have hnew : (s.createConnection cfg fd highWater).conn s.accepted =
      .new (.conn s.accepted) fd cfg.writeCompleteCallback highWater := Function.update_self ..
  have hcases : ∀ {c}, c < s.accepted + 1 → c < s.accepted ∨ c = s.accepted := fun hc =>
    Nat.lt_or_eq_of_le (Nat.le_of_lt_succ hc)
  refine ⟨fun l f hm => ?_, h.inline, fun l x hx => Nat.lt_succ_of_lt (h.reaction l x hx),
    fun t c hw => Nat.lt_succ_of_lt (h.worker t c hw), fun c hc => ?_, fun c hc => ?_,
    fun l fd' m ptr he => ?_, fun l ptr hm => (h.active l ptr hm).createConnection fd highWater⟩
  · obtain ⟨hc, hl⟩ := h.queued l f hm
    exact ⟨Nat.lt_succ_of_lt hc, (home_createConnection hc fd highWater).trans hl⟩
  · rcases hcases hc with hc | rfl
    · rw [hconn c hc]
      exact h.this c hc
    · rw [hnew]
      rfl
  · rcases hcases hc with hc | rfl
    · rw [hconn c hc]
      exact h.unreserved c hc
    · rw [hnew]
      exact hf.1
  · obtain ⟨hhome, hunder⟩ := h.entry l fd' m ptr he
    refine ⟨hhome.createConnection fd highWater, ?_⟩
    cases ptr with
    | conn c =>
      show ((s.createConnection cfg fd highWater).conn c).channel.fd = fd' ∧ _
      rw [hconn c hhome.1]
      exact hunder
    | _ => exact hunder

theorem Placed.newConnection (h : Placed cfg F s) {fd : ℕ} (hf : s.FreeFd cfg fd)
    (highWater : Option ℕ) (acts : List UserAct) :
    Placed cfg F (s.newConnection cfg fd highWater acts) := by
  have h1 := h.createConnection hf highWater
  have hc : s.accepted < (s.createConnection cfg fd highWater).accepted := Nat.lt_succ_self _
  have hl : (s.createConnection cfg fd highWater).loopOf s.accepted = (s.getNextLoop cfg).1 :=
    Function.update_self ..
  unfold TcpServer.newConnection
  simp only
  split
  next => exact h1.connectEstablished hc acts
  next h0 =>
    have h2 := h1.push (f := .connectEstablished s.accepted) hc fun hz =>
      absurd (hl.symm.trans hz) h0
    exact hl ▸ h2

/-! ### The loop -/

theorem Placed.setActive (h : Placed cfg F s) {active : List ChannelPtr}
    (ha : ∀ ptr ∈ active, s.Home l ptr) : Placed cfg F (s.setActive l active) := by
  have hactive : ∀ l', ∀ ptr ∈ (s.setActive l active).active l', s.Home l' ptr :=
    forall_update (P := fun l' (active : List ChannelPtr) => ∀ ptr ∈ active, s.Home l' ptr) ha
      h.active
  exact { h with active := hactive }

theorem Placed.reported (h : Placed cfg F s) (r : ConnId → Events) : Placed cfg F (s.reported r) :=
  { h with }

theorem Placed.poll (h : Placed cfg F s) (l : LoopId) (reports : List (ℕ × Events)) :
    Placed cfg F (s.fillActiveChannels l reports) := by
  obtain ⟨r, hr⟩ := fillActiveChannels_eq s l reports
  rw [hr]
  refine (h.reported r).setActive fun ptr hm => ?_
  obtain ⟨x, -, hx⟩ := List.mem_filterMap.mp hm
  obtain ⟨y, hy, rfl⟩ := Option.map_eq_some_iff.mp hx
  exact (h.entry l x.1 y.1 y.2 hy).1

theorem Placed.handleEvent (h : Placed cfg F s) {ptr : ChannelPtr} {env : DispatchEnv}
    (hs : s.handleEvent cfg l ptr env = some s') : Placed cfg F s' := by
  rcases handleEvent_cases hs with rfl | ⟨-, fd, highWater, -, hf, rfl⟩ | ⟨c, hc, rfl, -, rfl⟩
  · exact h
  · exact h.newConnection hf highWater env.acts
  · exact h.onConn hc ((Io.Steps.refl _).handleEventWithGuard _)

theorem Placed.setWorker (h : Placed cfg F s) {t : ℕ} {w : Worker}
    (hw : ∀ c, w.conn = some c → c < s.accepted) : Placed cfg F (s.setWorker t w) := by
  have hworker : ∀ t' c, ((s.setWorker t w).worker t').conn = some c → c < s.accepted :=
    forall_update (P := fun _ (w : Worker) => ∀ c, w.conn = some c → c < s.accepted) hw h.worker
  exact { h with worker := hworker }

/-- The store of a worker thread is to the state, which no registration shows. -/
theorem Placed.setState (h : Placed cfg F s) (c : ConnId) (state : StateE) :
    Placed cfg F (s.setState c state) := by
  have hch : ∀ c', ((s.setState c state).conn c').channel = (s.conn c').channel := by
    intro c'
    show (Function.update s.conn c { s.conn c with state := state } c').channel = _
    by_cases hn : c' = c
    · subst hn
      rw [Function.update_self]
    · rw [Function.update_of_ne hn]
  refine { h with
    this := fun c' hc' => ?_
    unreserved := fun c' hc' => ?_
    entry := fun l fd m ptr he => ?_ }
  · rw [hch]
    exact h.this c' hc'
  · rw [hch]
    exact h.unreserved c' hc'
  · obtain ⟨hhome, hunder⟩ := h.entry l fd m ptr he
    refine ⟨hhome, ?_⟩
    cases ptr with
    | conn c' =>
      show ((s.setState c state).conn c').channel.fd = fd ∧ _
      rw [hch]
      exact hunder
    | _ => exact hunder

/-- **Everything stays in its place**, whatever the loops and the other threads do. -/
theorem Placed.step (h : Placed cfg F s) {lab : Label} (hst : step cfg s lab = some s') :
    Placed cfg F s' := by
  cases move_of_step hst with
  | poll l reports => exact { h.poll l reports with }
  | dispatch l env ptr rest s' _ _ ha hs =>
    have h1 : Placed cfg F (s.setActive l rest) := h.setActive fun ptr' hm =>
      h.active l ptr' (ha ▸ List.mem_cons_of_mem _ hm)
    exact h1.handleEvent hs
  | react l c e rest hre =>
    have h1 := h.setReactions (l := l) rest fun y hy =>
      h.reaction l y (hre ▸ List.mem_cons_of_mem _ hy)
    exact h1.react (h.reaction l (c, e) (hre ▸ List.mem_cons_self)) l e
  | doPendingFunctors l =>
    have h1 : Placed cfg F (s.setQueue l (s.queue l).swap) :=
      h.shrink fun f hf => TaskQueue.unrun_swap_subset _ hf
    exact { h1 with }
  | runFunctor l env f rest _ _ hr =>
    obtain ⟨hc, -⟩ := h.queued l f (TaskQueue.mem_unrun_of_rest hr)
    have h1 := h.callFunctor (l := l) hc env
    have h2 := h1.shrink (l := l) fun g hg => TaskQueue.unrun_advance_subset _ hg
    exact { h2 with }
  | functorReturn l => exact { h with }
  | endFunctors l =>
    have h1 : Placed cfg F (s.setQueue l (s.queue l).finish) :=
      h.shrink fun f hf => TaskQueue.unrun_finish_subset _ hf
    exact { h1 with }
  | userAct l c a _ _ hc => exact h.user hc [a]
  | keep c => exact { h with }
  | drop c => exact { h with }
  | workerTake t c _ _ hc => exact h.setWorker fun c' hc' => Option.some.inj hc' ▸ hc
  | workerTest t call c hw =>
    exact h.setWorker fun c' hc' => h.worker t c' (by rw [hw, ← hc', tested_conn]; rfl)
  | workerStore t c hw =>
    exact (h.setState c .kDisconnecting).setWorker fun c' hc' =>
      h.worker t c' (by rw [hw, ← hc']; rfl)
  | workerQueue t c call hw =>
    have hc := h.worker t c (by rw [hw]; rfl)
    have h1 : Placed cfg F (s.push (s.loopOf c) (call.functor c)) := by
      cases call with
      | send => exact h.push (f := .sendInLoop c) hc (by simp)
      | shutdown => exact h.push (f := .shutdownInLoop c) hc (by simp)
    refine h1.setWorker fun c' hc' => h.worker t c' ?_
    rw [hw, ← hc']
    rfl
  | workerDrop t c => exact h.setWorker fun _ hc' => by cases hc'

/-! ### What a connection is made with -/

/-- At most one connection is new, and the others keep their loops and descriptors. -/
structure Extends (s s' : TcpServer) : Prop where
  accepted : s.accepted ≤ s'.accepted
  one : s'.accepted ≤ s.accepted + 1
  loop : ∀ c < s.accepted, s'.loopOf c = s.loopOf c
  fd : ∀ c < s.accepted, (s'.conn c).channel.fd = (s.conn c).channel.fd

theorem Extends.of_eq (ha : s'.accepted = s.accepted) (hl : s'.loopOf = s.loopOf)
    (hf : ∀ c, (s'.conn c).channel.fd = (s.conn c).channel.fd) : Extends s s' :=
  ⟨ha.ge, by omega, fun c _ => congrFun hl c, fun c _ => hf c⟩

theorem Extends.onConn (l : LoopId) {f : Io → Io}
    (hf : Io.Steps (fun _ => True) (s.io c) (f (s.io c))) : Extends s (s.onConn l c f) := by
  refine .of_eq rfl rfl fun c' => ?_
  show (Function.update s.conn c (f (s.io c)).conn c').channel.fd = _
  by_cases hn : c' = c
  · subst hn
    rw [Function.update_self]
    exact (Io.Registers.of_steps hf).fd
  · rw [Function.update_of_ne hn]

theorem Extends.react (s : TcpServer) (l : LoopId) (c : ConnId) (e : Event) :
    Extends s (s.react l c e) := by
  refine .of_eq ?_ ?_ fun c' => ?_ <;>
  · cases e <;> try rfl
    simp only [TcpServer.react, removeConnection]
    split <;> rfl

theorem Extends.callFunctor (s : TcpServer) (l : LoopId) (env : FunctorEnv) (f : Functor) :
    Extends s (s.callFunctor l env f) := by
  cases f with
  | connectEstablished c =>
    have h := Extends.onConn (s := s) (c := c) l ((Io.Steps.refl _).connectEstablished env.acts)
    exact { h with }
  | connectDestroyed c =>
    have h := Extends.onConn (s := s) (c := c) l ((Io.Steps.refl _).connectDestroyed env.acts)
    exact { h with }
  | removeConnectionInLoop c => exact .of_eq rfl rfl fun _ => rfl
  | writeComplete c => exact .onConn l ((Io.Steps.refl _).user any_event _)
  | highWaterMark c size => exact .onConn l ((Io.Steps.refl _).user any_event _)
  | sendInLoop c => exact .onConn l ((Io.Steps.refl _).sendInLoop any_event _ _)
  | shutdownInLoop c => exact .onConn l ((Io.Steps.refl _).shutdownInLoop any_event)

theorem Extends.newConnection (cfg : Config) (s : TcpServer) (fd : ℕ) (highWater : Option ℕ)
    (acts : List UserAct) : Extends s (s.newConnection cfg fd highWater acts) := by
  have h1 : Extends s (s.createConnection cfg fd highWater) :=
    ⟨Nat.le_succ _, le_rfl, fun c hc => Function.update_of_ne hc.ne ..,
      fun c hc => congrArg (fun conn : TcpConnection => conn.channel.fd)
        (Function.update_of_ne hc.ne ..)⟩
  unfold TcpServer.newConnection
  simp only
  split
  · have h2 := Extends.onConn (s := s.createConnection cfg fd highWater) (c := s.accepted) 0
      ((Io.Steps.refl _).connectEstablished acts)
    exact ⟨h1.accepted, h1.one, h1.loop,
      fun c hc => (h2.fd c (Nat.lt_succ_of_lt hc)).trans (h1.fd c hc)⟩
  · exact ⟨h1.accepted, h1.one, h1.loop, h1.fd⟩

theorem extends_of_step {lab : Label} (hst : TcpServer.step cfg s lab = some s') :
    Extends s s' := by
  cases move_of_step hst with
  | poll l reports =>
    obtain ⟨r, hr⟩ := fillActiveChannels_eq s l reports
    refine .of_eq ?_ ?_ fun c => ?_ <;>
    · rw [hr]
      rfl
  | dispatch l env ptr rest s' _ _ _ hs =>
    rcases handleEvent_cases hs with rfl | ⟨-, fd, highWater, -, -, rfl⟩ | ⟨c, -, -, -, rfl⟩
    · exact .of_eq rfl rfl fun _ => rfl
    · exact { Extends.newConnection cfg (s.setActive l rest) fd highWater env.acts with }
    · have h1 := Extends.onConn (s := s.setActive l rest) (c := c) l
        ((Io.Steps.refl _).handleEventWithGuard env.callbacks)
      exact { h1 with }
  | react l c e rest => exact { Extends.react (s.setReactions l rest) l c e with }
  | runFunctor l env f rest => exact { Extends.callFunctor s l env f with }
  | userAct l c a => exact .onConn l ((Io.Steps.refl _).user any_event [a])
  | workerStore t c =>
    refine .of_eq rfl rfl fun c' => ?_
    show (Function.update s.conn c _ c').channel.fd = _
    by_cases hn : c' = c
    · subst hn
      rw [Function.update_self]
    · rw [Function.update_of_ne hn]
  | _ => exact .of_eq rfl rfl fun _ => rfl

end TcpServer

end Mymuduo
