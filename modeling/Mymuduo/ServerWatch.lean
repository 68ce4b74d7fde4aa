import Mymuduo.CallbackOrder
import Mymuduo.OutputStream

/-!
# Mymuduo.ServerWatch — what epoll watches a connection for (`TcpConnection.cc`, `Channel.cc`)

In the runs of a server in which the threads of the loops call the functions of the connections, an
established connection that is not closed is registered with the poller of its loop, for reading always and
for writing exactly while bytes are buffered (`open_watched`).  No such connection is forgotten by its loop,
and none with nothing to send keeps the loop awake.

`Taken` is what holds of the stream of a connection up to its close and after it.
-/

namespace Mymuduo

open Lib Events

/-! ### The channel of an open connection -/

namespace Channel

variable {c : Channel}

/-- Registered, and interested in reading. -/
structure OnReading (c : Channel) : Prop where
  index : c.index = .kAdded
  epollin : c.events.epollin = true
  epollpri : c.events.epollpri = true

theorem onReading_enableReading (c : Channel) (p : EPollerPoller) : (c.enableReading p).2.OnReading := by
  refine ⟨?_, ?_, ?_⟩
  · unfold enableReading EPollerPoller.updateChannel
    simp only
    split
    · rfl
    next hi =>
      have hn : ({ c with events := c.events.or kReadEvent } : Channel).isNoneEvent = false := by
        simp [isNoneEvent, Events.or, kReadEvent, kNoneEvent]
      rw [hn]
      cases h : c.index <;> simp [h] at hi ⊢
  · simp [enableReading, Events.or, kReadEvent]
  · simp [enableReading, Events.or, kReadEvent]

/-- An update that leaves the interest in reading. -/
theorem OnReading.update (h : c.OnReading) {e : Events} (hin : e.epollin = true) (hpri : e.epollpri = true)
    (p : EPollerPoller) : (p.updateChannel { c with events := e }).2.OnReading := by
  refine ⟨updateChannel_index _ _ h.index fun he => ?_, ?_, ?_⟩
  · have he' : e = kNoneEvent := he
    rw [he'] at hin
    cases hin
  · rwa [updateChannel_events]
  · rwa [updateChannel_events]

theorem OnReading.enableWriting (h : c.OnReading) (p : EPollerPoller) : (c.enableWriting p).2.OnReading :=
  h.update (by simp [Events.or, h.epollin]) (by simp [Events.or, h.epollpri]) p

theorem OnReading.disableWriting (h : c.OnReading) (p : EPollerPoller) : (c.disableWriting p).2.OnReading :=
  h.update (by simp [Events.diff, h.epollin, kWriteEvent]) (by simp [Events.diff, h.epollpri, kWriteEvent]) p

end Channel

/-- The connection is closed, or reads. -/
def TcpConnection.Watched (conn : TcpConnection) : Prop :=
  conn.state = .kDisconnected ∨ conn.channel.OnReading

namespace Io

variable {io io' : Io}

/-- What a handler may do to the channel. -/
inductive ChannelStep (c : Channel) : Channel → Prop
  | same : ChannelStep c c
  | enableWriting (p : EPollerPoller) : ChannelStep c (c.enableWriting p).2
  | disableWriting (p : EPollerPoller) : ChannelStep c (c.disableWriting p).2

theorem ChannelStep.onReading {c c' : Channel} (h : ChannelStep c c') (hc : c.OnReading) : c'.OnReading := by
  cases h with
  | same => exact hc
  | enableWriting p => exact hc.enableWriting p
  | disableWriting p => exact hc.disableWriting p

theorem appendRemaining_channel (message : List UInt8) (nwrote : ℕ) (io : Io) :
    ChannelStep io.conn.channel (io.appendRemaining message nwrote).conn.channel := by
  unfold appendRemaining
  simp only
  split
  · simpa using ChannelStep.same
  · simpa using ChannelStep.enableWriting _

theorem sendInLoop_channel (message : List UInt8) (env : SendEnv) (io : Io) :
    ChannelStep io.conn.channel (io.sendInLoop message env).conn.channel := by
  unfold sendInLoop
  simp only
  split
  · exact .same
  · split <;> split
    · simpa using appendRemaining_channel message _ ((io.emit (.sendInLoop message)).writeDirect message env).1
    · simpa using ChannelStep.same
    · exact appendRemaining_channel message _ (io.emit (.sendInLoop message))
    · exact .same

theorem act_channel (a : UserAct) (io : Io) : ChannelStep io.conn.channel (io.act a).conn.channel := by
  cases a with
  | send message env =>
    simp only [act, send]
    split
    · exact sendInLoop_channel ..
    · exact .same
  | shutdown =>
    simp only [act, shutdown]
    split
    · simpa using ChannelStep.same
    · exact .same
  | retrieve len => exact .same

theorem drained_channel (io : Io) : ChannelStep io.conn.channel io.drained.conn.channel := by
  unfold drained
  simp only
  split
  · simpa using ChannelStep.disableWriting _
  · simpa using ChannelStep.disableWriting _

theorem handleWrite_channel (ret : IoRet) (io : Io) :
    ChannelStep io.conn.channel (io.handleWrite ret).conn.channel := by
  unfold handleWrite
  split
  · simp only
    split
    · split
      · split
        · exact drained_channel ((io.emit (.write io.conn.outputBuffer.readable
            (ret.of io.conn.outputBuffer.readable))).setOutput (io.conn.outputBuffer.retrieve _))
        · exact .same
      · exact .same
    · exact .same
  · exact .same

theorem handleClose_watched (acts : List UserAct) (io : Io) : (io.handleClose acts).conn.Watched :=
  .inl (handleClose_state acts io)

theorem user_watched (h : io.conn.Watched) (acts : List UserAct) : (io.user acts).conn.Watched := by
  rcases h with hs | hr
  · obtain ⟨b, hb⟩ := user_of_ne io acts (by simp [hs])
    rw [hb]
    exact .inl hs
  · exact .inr (user_keeps (fun io a _ h => (act_channel a io).onReading h) hr)

theorem handleEventWithGuard_watched (h : io.conn.Watched) (env : Callback → CallbackEnv) :
    (io.handleEventWithGuard env).conn.Watched := by
  refine dispatch_keeps (P := fun io => io.conn.Watched) (fun io cb h => ?_) h
  cases cb with
  | close => exact handleClose_watched ..
  | error => exact h
  | read =>
    simp only [callback]
    cases (env .read).read with
    | err e => exact h
    | ok data =>
      simp only [handleRead]
      split
      · exact handleClose_watched ..
      · have hw : ((io.setInput (io.conn.inputBuffer.readFd
            (data.take io.conn.inputBuffer.val.offered))).emit .messageCallback).conn.Watched := h
        exact user_watched hw _
  | write =>
    rcases h with hs | hr
    · exact .inl ((handleWrite_state _ io).trans hs)
    · exact .inr ((handleWrite_channel _ io).onReading hr)

theorem connectEstablished_watched (acts : List UserAct) (io : Io) :
    (io.connectEstablished acts).conn.Watched :=
  user_watched (.inr (Channel.onReading_enableReading ..)) acts

/-- A closed connection stays closed. -/
theorem handled_disconnected : Handled fun io => io.conn.state = .kDisconnected where
  act io a hs := by
    obtain ⟨b, hb⟩ := user_of_ne io [a] (by simp [hs])
    rw [show io.act a = io.setInput b from hb]
    exact hs
  closed _ _ := rfl
  handleWrite io ret hs := (handleWrite_state ret io).trans hs
  setInput _ _ hs := hs
  emit _ _ _ hs := hs
  remove _ hs := hs
  report _ _ hs := hs

theorem handleWrite_submitted (ret : IoRet) (io : Io) :
    submitted (io.handleWrite ret).trace = submitted io.trace := by
  by_cases hw : io.conn.channel.isWriting = true
  · obtain ⟨notes, fin, h⟩ := handleWrite_cases ret hw rfl
    have hfin : submitted fin = [] := by
      rcases h.fin_cases with hf | ⟨hf, -⟩ <;> rw [hf] <;> rfl
    rw [h.trace]
    simp [Event.submitted, (silent_of_notifications h.note).submitted, hfin]
  · rw [handleWrite, if_neg hw]

/-! ### What the kernel has accepted -/

/-- A closed connection writes no more. -/
structure Taken (io : Io) : Prop where
  stream : io.StreamInv
  closed : io.conn.state = .kDisconnected → io.conn.channel.isWriting = false ∧
    (NoFault io.trace → ¬ Clobbered io.trace → accepted io.trace <+: submitted io.trace)

theorem Taken.of_open (h : io.StreamInv) (hs : io.conn.state ≠ .kDisconnected) : io.Taken :=
  ⟨h, fun hd => absurd hd hs⟩

theorem Taken.prefix_submitted (h : io.Taken) (hf : NoFault io.trace) (hc : ¬ Clobbered io.trace) :
    accepted io.trace <+: submitted io.trace := by
  by_cases hs : io.conn.state = .kDisconnected
  · exact (h.closed hs).2 hf hc
  · exact ⟨_, ((h.stream hf hs).2.exact hc).symm⟩

/-- Callbacks, and changes of the input buffer and of the registration. -/
theorem Taken.quiet (h : io.Taken) (hq : Quiet io io') (hs : io'.conn.state = io.conn.state) : io'.Taken := by
  refine ⟨kept_streamInv.quiet _ _ hq h.stream, fun hd => ?_⟩
  obtain ⟨hw, hp⟩ := h.closed (hs.symm.trans hd)
  obtain ⟨evs, ht, he⟩ := hq.silent
  refine ⟨hq.writing.trans hw, fun hf hc => ?_⟩
  rw [ht, clobbered_append, not_or] at hc
  rw [ht, accepted_append, submitted_append, he.accepted, he.submitted, List.append_nil, List.append_nil]
  exact hp (hf.of_isPrefix hq.prefix_trace) hc.1

theorem handled_taken : Handled Taken where
  act io a h := by
    by_cases hs : io.conn.state = .kConnected
    · refine .of_open (kept_streamInv.act h.stream a) ?_
      cases a with
      | send message env => simp [act, send, hs]
      | shutdown => simp [act, shutdown, hs]
      | retrieve len => simp [act, hs]
    · obtain ⟨b, hb⟩ := user_of_ne io [a] hs
      rw [show io.act a = io.setInput b from hb]
      exact h.quiet (.setInput io b) rfl
  closed io h := by
    refine ⟨fun _ hs => absurd rfl hs, fun _ => ⟨?_, fun hf hc => ?_⟩⟩
    · exact Channel.isWriting_disableAll _ _
    · have ht : io.closed.trace = io.trace ++ [.connectionCallback false] := rfl
      rw [ht, clobbered_append, not_or] at hc
      rw [ht] at hf ⊢
      simpa [Event.accepted, Event.submitted] using
        h.prefix_submitted (hf.of_isPrefix (List.prefix_append ..)) hc.1
  handleWrite io ret h := by
    by_cases hs : io.conn.state = .kDisconnected
    · rw [handleWrite, (h.closed hs).1]
      exact h
    · exact .of_open (streamInv_handleWrite ret h.stream) (by rwa [handleWrite_state])
  setInput io b h := h.quiet (.setInput io b) rfl
  emit io e he h := h.quiet (.callback io (by rcases he with rfl | rfl <;> rfl)) rfl
  remove io h := h.quiet (.remove io) rfl
  report io revents h := h.quiet ⟨⟨[], by simp, by simp⟩, rfl, rfl, rfl, id⟩ rfl

end Io

namespace Conn

variable {p : Policy} {k : Conn}

theorem taken_of_reach (h : sys.Reach (Follows p) k) : k.io.Taken := by
  refine (h.invariant (I := fun k => k.io.Taken ∧
    (k.established = false → k.io.conn.state ≠ .kDisconnected)) (fun k hi => ?_) fun k lab k' hI hp hst => ?_).1
  · have hs : k.io.conn.state ≠ .kDisconnected := by
      obtain ⟨this, fd, wc, hw, hc⟩ := hi.conn
      rw [hc]
      simp [TcpConnection.new]
    exact ⟨.of_open (streamInv_of_reach (.init hi)) hs, fun _ => hs⟩
  · have hest := established_step hst
    obtain ⟨hen, rfl⟩ := of_guard hst
    refine ⟨ioStep_keeps Io.handled_taken hI.1 (fun acts he => ?_) (fun message env he => ?_) (fun he => ?_)
      fun he => ?_, fun hf => absurd (hest.symm.trans hf) (by simp)⟩
    · subst he
      refine Io.handled_taken.user (.of_open ?_ ?_) acts
      · exact Io.kept_streamInv.connectEstablished hI.1.stream (hI.2 hen) []
      · exact fun hd => StateE.noConfusion hd
    all_goals
      subst he
      exact hp.elim

/-- A connection whose `closeCallback` has been called is closed. -/
theorem disconnected_of_reach (h : sys.Reach (Follows p) k) :
    (k.established = false → k.io.trace = []) ∧
      (.closeCallback ∈ k.io.trace → k.io.conn.state = .kDisconnected) := by
  refine h.invariant (I := fun k => (k.established = false → k.io.trace = []) ∧
    (.closeCallback ∈ k.io.trace → k.io.conn.state = .kDisconnected)) (fun k hi => ?_) fun k lab k' hI hp hst => ?_
  · exact ⟨fun _ => hi.trace, fun hm => by simp [hi.trace] at hm⟩
  · have hest := established_step hst
    obtain ⟨hen, rfl⟩ := of_guard hst
    refine ⟨fun hf => Bool.noConfusion (hest.symm.trans hf), fun hm => ?_⟩
    have hm' : .closeCallback ∈ (ioStep k.io lab).called := List.mem_filter.mpr ⟨hm, rfl⟩
    have hold : .closeCallback ∈ k.io.called → k.io.conn.state = .kDisconnected := fun hm =>
      hI.2 (List.mem_filter.mp hm).1
    cases lab with
    | connectEstablished acts =>
      have hc : (ioStep k.io (.connectEstablished acts)).called = k.io.called ++ [.up] :=
        Io.called_connectEstablished acts k.io
      rw [hc, Io.called, hI.1 hen] at hm'
      simp at hm'
    | connectDestroyed acts =>
      have hc := Io.called_connectDestroyed acts k.io
      refine Io.handled_disconnected.connectDestroyed (hold ?_) acts
      rw [show (ioStep k.io (.connectDestroyed acts)).called = _ from hc] at hm'
      rcases List.mem_append.mp hm' with hm' | hm'
      · exact hm'
      · split at hm' <;> simp at hm'
    | act a =>
      have hc : (ioStep k.io (.act a)).called = k.io.called := Io.called_user [a] k.io
      exact Io.handled_disconnected.act _ a (hold (hc ▸ hm'))
    | poll revents => exact hI.2 hm
    | dispatch env =>
      refine Io.dispatch_called
        (P := fun io => .closeCallback ∈ io.called → io.conn.state = .kDisconnected)
        (fun io acts _ => Io.handleClose_state acts io) (fun io h hm => ?_) (fun io io' h hc hs hm => ?_)
        hold env hm'
      · rw [Io.called_emit _ rfl] at hm
        exact h (by simpa using hm)
      · exact hs (h (hc ▸ hm))
    | sendInLoop | shutdownInLoop | handleRead | handleWrite | handleClose | storeDisconnecting => exact hp.elim

end Conn

/-! ### The connections of a server -/

namespace TcpServer

variable {cfg : Config} {p : Policy} {s s' : TcpServer} {c : ConnId} {lab : Label}
  {x : TcpServer × List (ConnId × Event)}

/-- Every connection in use is closed, or reads. -/
def Watching (s : TcpServer) : Prop :=
  ∀ c < s.accepted, s.established c = true → s.destroyed c = false → (s.conn c).Watched

theorem Watching.step (h : Watching s) (hs : Sound cfg s) (ho : s.Obeys p lab)
    (hst : TcpServer.step cfg s lab = some s') : Watching s' := by
  intro c hc' hest' hd'
  by_cases hc : c < s.accepted
  · have hd : s.destroyed c = false :=
      Bool.eq_false_iff.mpr fun hd => by simp [(done_of_step hst).2 hd] at hd'
    cases ConnStep.of_step hs hc ho hst with
    | same hconn hest =>
      rw [hconn]
      exact h c hc (hest ▸ hest') hd
    | poll _ x _ _ _ _ _ hest _ hcall =>
      rw [hcall.conn]
      exact (h c hc hest hd).imp id fun hr => ⟨hr.index, hr.epollin, hr.epollpri⟩
    | connectEstablished acts _ _ hcall =>
      rw [hcall.conn]
      exact Io.connectEstablished_watched ..
    | connectDestroyed _ _ _ _ _ _ hdest => simp [hdest] at hd'
    | user acts _ hest hcall =>
      rw [hcall.conn]
      exact Io.user_watched (h c hc hest hd) acts
    | dispatch env _ _ _ _ _ _ hest hcall =>
      rw [hcall.conn]
      exact Io.handleEventWithGuard_watched (h c hc hest hd) _
  · obtain ⟨rfl, hborn⟩ := ConnBorn.of_step hs ho hst hc hc'
    cases hborn with
    | queued _ _ _ hest => simp [hest] at hest'
    | established _ _ _ acts _ hconn =>
      rw [hconn]
      exact Io.connectEstablished_watched ..

theorem Watching.of_reach (h : ((sys cfg).logged shown).Reach (fun x => Obeys p x.1) x) : Watching x.1 := by
  refine (h.invariant (I := fun x => Sound cfg x.1 ∧ Watching x.1) (fun x hx => ?_)
    fun x lab x' hI ho hst => ?_).2
  · rw [show x.1 = TcpServer.start cfg from hx.1]
    exact ⟨.start, fun c hc => absurd hc (Nat.not_lt_zero c)⟩
  · obtain ⟨s', hst', rfl⟩ := Sys.step_logged.mp hst
    exact ⟨hI.1.step ho.loopThreads hst', hI.2.step hI.1 ho hst'⟩

/-- A connection is destroyed after its close. -/
theorem not_destroyed (h : ((sys cfg).logged shown).Reach (fun x => Obeys p x.1) x) (hc : c < x.1.accepted)
    (hs : (x.1.conn c).state ≠ .kDisconnected) : x.1.destroyed c = false := by
  refine Bool.eq_false_iff.mpr fun hd => hs ?_
  obtain ⟨k, hk, hview, -⟩ := exists_view h hc
  have hm : .closeCallback ∈ k.io.trace := by
    rw [hview.trace]
    exact mem_eventsOf.mpr ((Announced.of_reach h).2.past c hd)
  exact hview.conn ▸ (Conn.disconnected_of_reach hk).2 hm

/-- An open connection is registered under its descriptor, with the events its channel asks for. -/
theorem registered_of_open (h : ((sys cfg).logged shown).Reach (fun x => Obeys p x.1) x) (hc : c < x.1.accepted)
    (hest : x.1.established c = true) (hs : (x.1.conn c).state ≠ .kDisconnected) :
    (x.1.poller (x.1.loopOf c)).epoll (x.1.conn c).channel.fd =
      some ((x.1.conn c).channel.events, .conn c) := by
  obtain ⟨k, hk, hview, hsound⟩ := exists_view h hc
  have hd := not_destroyed h hc hs
  have hr := (Watching.of_reach h c hc hest hd).resolve_left hs
  rw [(hsound.registered hc ⟨hest, hd⟩).epoll, if_pos hr.index, hsound.placed.this c hc]

/-- **Every open connection is watched.**  At every moment of every run, an established connection that is
not closed is registered with the poller of its loop under its descriptor: with `EPOLLIN | EPOLLPRI`, and
with `EPOLLOUT` exactly while bytes are buffered, unless a write has failed with `EPIPE` or `ECONNRESET`. -/
theorem open_watched (h : ((sys cfg).logged shown).Reach (fun x => Obeys p x.1) x) (hc : c < x.1.accepted)
    (hest : x.1.established c = true) (hs : (x.1.conn c).state ≠ .kDisconnected) :
    ∃ m : Events, (x.1.poller (x.1.loopOf c)).epoll (x.1.conn c).channel.fd = some (m, .conn c) ∧
      m.epollin = true ∧ m.epollpri = true ∧
      (NoFault (eventsOf c x.2) → (m.epollout = true ↔ (x.1.conn c).outputBuffer.readable ≠ [])) := by
  have hr := (Watching.of_reach h c hc hest (not_destroyed h hc hs)).resolve_left hs
  refine ⟨(x.1.conn c).channel.events, registered_of_open h hc hest hs, hr.epollin, hr.epollpri, fun hf => ?_⟩
  obtain ⟨k, hk, hview, -⟩ := exists_view h hc
  have hi := ((Conn.taken_of_reach hk).stream (hview.trace ▸ hf) (hview.conn ▸ hs)).1
  rw [Io.Interest, hview.conn, Channel.isWriting_eq] at hi
  exact hi

/-- A byte waits to be written. -/
theorem open_watched_buffered : ∃ x : TcpServer × List (ConnId × Event),
    (x.1.conn 0).outputBuffer.readable = [6] ∧ ∃ m : Events,
      (x.1.poller (x.1.loopOf 0)).epoll (x.1.conn 0).channel.fd = some (m, .conn 0) ∧
      m.epollin = true ∧ m.epollpri = true ∧
      (NoFault (eventsOf 0 x.2) → (m.epollout = true ↔ (x.1.conn 0).outputBuffer.readable ≠ [])) := by
  obtain ⟨x, hx, hc, hest, hs, hb⟩ := Sys.Reach.exists_of_execIf (M := (sys config).logged shown)
    (s := (TcpServer.start config, [])) (C := fun x => Obeys .any x.1)
    (P := fun x => 0 < x.1.accepted ∧ x.1.established 0 = true ∧ (x.1.conn 0).state ≠ .kDisconnected ∧
      (x.1.conn 0).outputBuffer.readable = [6])
    (.init ⟨rfl, rfl⟩)
    (opening 7 ++ [.poll 1 [(7, kReadEvent)],
      .dispatch 1 ⟨none, [], fun _ => ⟨.ok [5], .ok 0, [.send [5, 6] ⟨.ok 1, 0⟩]⟩⟩])
    (by decide +kernel)
  exact ⟨x, hb, open_watched hx hc hest hs⟩

end TcpServer

end Mymuduo
