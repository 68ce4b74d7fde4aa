import Mymuduo.GracefulShutdown
import Mymuduo.ServerReport

/-!
# Mymuduo.ServerDrain — what is sent is written in the end (`TcpConnection.cc`, `EventLoop.cc`)

Infinite runs of a server, with the history of its connections, in which the thread of each loop comes on
again and again.  If epoll reports a connection that is watched for writing again and again, and its writes
take bytes (`Drains`), then, unless it is closed or a write of it goes wrong,

* every byte given to `sendInLoop` is accepted by the kernel (`submitted_accepted`);
* a connection that is shut down writes what it has buffered, and then ends the writing
  (`shutdown_finishes`).
-/

namespace Mymuduo

open Lib Events

/-- The write takes a byte, or fails with `EPIPE` or `ECONNRESET`. -/
def IoRet.Takes : IoRet → Prop
  | .ok n => 0 < n
  | .err e => Fatal e

instance (ret : IoRet) : Decidable ret.Takes :=
  match ret with
  | .ok n => inferInstanceAs (Decidable (0 < n))
  | .err e => inferInstanceAs (Decidable (Fatal e))

/-! ### One dispatch -/

namespace Io

variable {io io' : Io} {K : Event → Prop}

theorem accepted_ne_nil (h : accepted io.trace ≠ []) (hp : io.trace <+: io'.trace) :
    accepted io'.trace ≠ [] := by
  obtain ⟨evs, he⟩ := hp
  rw [← he, accepted_append]
  exact List.append_ne_nil_of_left_ne_nil h _

/-- The connection is closed, the kernel has accepted bytes, or bytes wait to be written. -/
def Pending (io : Io) : Prop :=
  io.conn.state = .kDisconnected ∨ accepted io.trace ≠ [] ∨
    io.conn.channel.isWriting = true ∧ io.conn.outputBuffer.readable ≠ []

theorem Pending.of_prefix (h : io.Pending) (hp : io.trace <+: io'.trace)
    (hs : io.conn.state = .kDisconnected → io'.conn.state = .kDisconnected)
    (hw : io.conn.channel.isWriting = true → io.conn.outputBuffer.readable ≠ [] → io'.Pending) :
    io'.Pending := by
  rcases h with h | h | ⟨h1, h2⟩
  · exact .inl (hs h)
  · exact .inr (.inl (accepted_ne_nil h hp))
  · exact hw h1 h2

/-- More bytes go behind those that wait. -/
theorem Pending.sendInLoop (hs : io.conn.state ≠ .kDisconnected) (hw : io.conn.channel.isWriting = true)
    (hr : io.conn.outputBuffer.readable ≠ []) (message : List UInt8) (env : SendEnv) :
    (io.sendInLoop message env).Pending := by
  obtain ⟨evs, rest, -, hb⟩ := sendInLoop_cases message env hs
  have hr' : (io.sendInLoop message env).conn.outputBuffer.readable ≠ [] := by
    rw [hb.output]
    exact List.append_ne_nil_of_left_ne_nil hr _
  exact .inr (.inr ⟨(hb.interest (iff_of_true hw hr)).mpr hr', hr'⟩)

theorem Pending.handleWrite (hw : io.conn.channel.isWriting = true)
    (hr : io.conn.outputBuffer.readable ≠ []) (ret : IoRet) : (io.handleWrite ret).Pending := by
  obtain ⟨notes, fin, h⟩ := handleWrite_cases ret hw rfl
  by_cases hr' : (io.handleWrite ret).conn.outputBuffer.readable = []
  · -- all that was buffered has been accepted
    refine .inr (.inl ?_)
    have hacc := h.stream
    rw [hr', List.append_nil] at hacc
    rw [h.trace, accepted_append, List.cons_append, accepted_cons, hacc]
    exact List.append_ne_nil_of_right_ne_nil _ (List.append_ne_nil_of_left_ne_nil hr _)
  · exact .inr (.inr ⟨(h.interest (iff_of_true hw hr)).mpr hr', hr'⟩)

theorem handled_pending : Handled Pending where
  act io a h := by
    refine h.of_prefix ((Steps.refl io).act any_event a).prefix_trace (handled_disconnected.act io a)
      fun hw hr => ?_
    cases a with
    | send message env =>
      by_cases hs : io.conn.state = .kConnected
      · rw [show io.act (.send message env) = io.sendInLoop message env from if_pos hs]
        exact .sendInLoop (by simp [hs]) hw hr message env
      · rw [show io.act (.send message env) = io from if_neg hs]
        exact .inr (.inr ⟨hw, hr⟩)
    | shutdown =>
      refine .inr (.inr ?_)
      simp only [act, shutdown]
      split
      · rw [shutdownInLoop_conn]
        exact ⟨hw, hr⟩
      · exact ⟨hw, hr⟩
    | retrieve len => exact .inr (.inr ⟨hw, hr⟩)
  closed _ _ := .inl rfl
  handleWrite io ret h := h.of_prefix ((Steps.refl io).handleWrite any_event ret).prefix_trace
    (handled_disconnected.handleWrite io ret) fun hw hr => .handleWrite hw hr ret
  setInput io b h := h
  emit io e _ h := h.of_prefix (List.prefix_append ..) id fun hw hr => .inr (.inr ⟨hw, hr⟩)
  remove io h := h
  report io revents h := h

/-- Where a dispatch that writes has come to: the connection is closed, a write has failed, or the kernel has
accepted bytes. -/
def Written (io : Io) : Prop :=
  io.conn.state = .kDisconnected ∨ ¬ NoFault io.trace ∨ accepted io.trace ≠ []

theorem Pending.written (h : io.Pending) {ret : IoRet} (hret : ret.Takes) :
    (io.handleWrite ret).Written := by
  rcases h with h | h | ⟨hw, hr⟩
  · exact .inl (handled_disconnected.handleWrite io ret h)
  · exact .inr (.inr (accepted_ne_nil h ((Steps.refl io).handleWrite any_event ret).prefix_trace))
  · obtain ⟨notes, fin, h⟩ := handleWrite_cases ret hw rfl
    refine .inr ?_
    rw [h.trace]
    cases ret with
    | ok n =>
      refine .inr ?_
      have hpos : 0 < min n io.conn.outputBuffer.readable.length :=
        lt_min hret (List.length_pos_iff.mpr hr)
      simp [Event.accepted, IoRet.of, hr, hpos.ne']
    | err e =>
      exact .inl fun hf => hf (.write io.conn.outputBuffer.readable (.err e)) (by simp [IoRet.of]) hret

/-- **A dispatch that epoll has reported for writing writes.** -/
theorem written_of_dispatch (h : io.Pending) (hout : io.conn.channel.revents.epollout = true)
    {env : Callback → CallbackEnv} (hret : (env .write).write.Takes) :
    (io.handleEventWithGuard env).Written := by
  rw [handleEventWithGuard_eq env io rfl]
  simp only
  rw [if_pos hout]
  refine Pending.written ?_ hret
  have hclose : (if (io.conn.channel.revents.epollhup && !io.conn.channel.revents.epollin) = true then
      io.handleClose (env .close).acts else io).Pending := by
    split
    · exact handled_pending.handleClose h _
    · exact h
  split
  · exact handled_pending.handleRead hclose _ _
  · exact hclose

/-- The connection is closed, or being shut down without anything submitted. -/
def ShutDown (io : Io) : Prop :=
  io.conn.state = .kDisconnected ∨ io.conn.state = .kDisconnecting ∧ submitted io.trace = []

theorem handled_shutDown : Handled ShutDown where
  act io a h := by
    have hs : io.conn.state ≠ .kConnected := by
      rcases h with h | ⟨h, -⟩ <;> simp [h]
    obtain ⟨b, hb⟩ := user_of_ne io [a] hs
    rw [show io.act a = io.setInput b from hb]
    exact h
  closed _ _ := .inl rfl
  handleWrite io ret h := by
    rw [ShutDown, handleWrite_state, handleWrite_submitted]
    exact h
  setInput _ _ h := h
  emit io e he h := by
    refine h.imp id fun ⟨hs, hsub⟩ => ⟨hs, ?_⟩
    rcases he with rfl | rfl <;> simp [hsub, Event.submitted]
  remove _ h := h
  report _ _ h := h

end Io

/-! ### A connection that drains -/

namespace TcpServer

variable {cfg : Config} {p : Policy} {s s' : TcpServer} {c : ConnId} {lab : Label}
  {x : TcpServer × List (ConnId × Event)}

/-- The connection is closed, or something went wrong on the socket or in `errno`. -/
def Broken (c : ConnId) (x : TcpServer × List (ConnId × Event)) : Prop :=
  (x.1.conn c).state = .kDisconnected ∨ ¬ Clean (eventsOf c x.2)

/-- The write of a dispatch takes bytes, if epoll has reported that the connection can be written to. -/
def WriteTakes (c : ConnId) (s : TcpServer) : Label → Prop
  | .dispatch l env => (s.active l).head? = some (.conn c) →
    (s.conn c).channel.revents.epollout = true → (env.callbacks .write).write.Takes
  | _ => True

/-- As long as the connection is watched for writing, epoll reports it again and again, and its writes take
bytes. -/
structure Drains (c : ConnId) (r : ((sys cfg).logged shown).Run fun x => Obeys p x.1) : Prop where
  reported : KeepsReporting Events.epollout c r
  taken : ∀ n, WriteTakes c (r.state n).1 (r.label n)

/-- Each write takes a byte, and nothing is read. -/
def writing : Io.Callback → Io.CallbackEnv := fun _ => ⟨.err EWOULDBLOCK, .ok 1, [.shutdown]⟩

/-- **From every reached state a run goes on in which the connection drains.** -/
theorem exists_draining_run (hp : Policy.Quiet p writing)
    (h : ((sys cfg).logged shown).Reach (fun x => Obeys p x.1) x) (c : ConnId) :
    ∃ r : ((sys cfg).logged shown).Run fun x => Obeys p x.1, r.state 0 = x ∧
      (∀ l ≤ cfg.numThreads, r.Often (Label.advances l)) ∧ Drains c r := by
  obtain ⟨r, h0, hfair, hrep, hcb⟩ := exists_reporting_run (e := Events.epollout) (m := kWriteEvent)
    (fun y hy => by simp [Reportable, kWriteEvent, kNoneEvent, hy]) hp h c rfl
  refine ⟨r, h0, hfair, hrep, fun n => ?_⟩
  unfold WriteTakes
  split
  next l env he =>
    rw [hcb n l env he]
    exact fun _ _ => Nat.one_pos
  next => trivial

/-! ### Progress -/

/-- A connection that is not broken, with its stream. -/
theorem stream_of_reach (h : ((sys cfg).logged shown).Reach (fun x => Obeys p x.1) x)
    (hc : c < x.1.accepted) (hb : ¬ Broken c x) :
    ((x.1.conn c).channel.isWriting = true ↔ (x.1.conn c).outputBuffer.readable ≠ []) ∧
      submitted (eventsOf c x.2) =
        Mymuduo.accepted (eventsOf c x.2) ++ (x.1.conn c).outputBuffer.readable := by
  obtain ⟨hs, hcl⟩ := not_or.mp hb
  obtain ⟨k, hk, hview, -⟩ := exists_view h hc
  have hcl := not_not.mp hcl
  rw [← hview.trace] at hcl ⊢
  rw [← hview.conn] at hs ⊢
  obtain ⟨hi, hp⟩ := (Conn.taken_of_reach hk).stream hcl.1 hs
  exact ⟨hi, hp.exact hcl.2⟩

/-- While bytes are buffered, epoll watches the connection for writing. -/
theorem registeredFor_of_buffered (h : ((sys cfg).logged shown).Reach (fun x => Obeys p x.1) x)
    (hc : c < x.1.accepted) (hb : ¬ Broken c x) (hr : (x.1.conn c).outputBuffer.readable ≠ []) :
    x.1.RegisteredFor Events.epollout c := by
  obtain ⟨hout, hstream⟩ := stream_of_reach h hc hb
  have hest : x.1.established c = true := by
    -- before `connectEstablished` nothing is submitted
    by_contra hn
    obtain ⟨k, hk, hview, -⟩ := exists_view h hc
    have ht : eventsOf c x.2 = [] := by
      rw [← hview.trace]
      exact (Conn.disconnected_of_reach hk).1 (hview.established.trans (Bool.eq_false_iff.mpr hn))
    rw [ht] at hstream
    exact hr hstream.symm
  have hreg := registered_of_open h hc hest (not_or.mp hb).1
  refine ⟨((x.1.conn c).channel.events, .conn c), hreg, rfl, ?_⟩
  rw [← Channel.isWriting_eq]
  exact hout.mpr hr

/-- The connection is broken, nothing is buffered, or the kernel has accepted more than `a` bytes. -/
def Moved (c : ConnId) (a : ℕ) (x : TcpServer × List (ConnId × Event)) : Prop :=
  Broken c x ∨ (x.1.conn c).outputBuffer.readable = [] ∨ a < (Mymuduo.accepted (eventsOf c x.2)).length

/-- A dispatch for writing moves the connection. -/
theorem moved_of_dispatched {a : ℕ} {env : DispatchEnv}
    (hreach : ((sys cfg).logged shown).Reach (fun x => Obeys p x.1) x) (hc : c < x.1.accepted)
    (hmoved : ¬ Moved c a x) (hlen : a ≤ (Mymuduo.accepted (eventsOf c x.2)).length)
    (hd : Dispatched Events.epollout c env x.1 lab s') (htake : WriteTakes c x.1 lab) :
    Moved c a (s', x.2 ++ shown x.1 lab s') := by
  obtain ⟨hb, hr⟩ := not_or.mp hmoved
  obtain ⟨hr, -⟩ := not_or.mp hr
  obtain ⟨rfl, hact, hout, hcall⟩ := hd
  have hpend : (x.1.io c).Pending :=
    .inr (.inr ⟨(stream_of_reach hreach hc hb).1.mpr hr, hr⟩)
  unfold Moved Broken
  simp only [eventsOf_append, hcall.conn, hcall.events, accepted_append, List.length_append]
  rcases Io.written_of_dispatch hpend hout (htake hact hout) with hdis | hf | hacc
  · exact .inl (.inl hdis)
  · exact .inl (.inr fun hcl => hf fun e he => hcl.1 e (List.mem_append_right _ he))
  · refine .inr (.inr ?_)
    have := List.length_pos_iff.mpr hacc
    omega

/-- **A connection moves again and again.** -/
theorem exists_moved {r : ((sys cfg).logged shown).Run fun x => Obeys p x.1}
    (hfair : ∀ l ≤ cfg.numThreads, r.Often (Label.advances l)) (hd : Drains c r) {n : ℕ}
    (hc : c < (r.state n).1.accepted) :
    ∃ m, n ≤ m ∧ Moved c (Mymuduo.accepted (eventsOf c (r.state n).2)).length (r.state m) := by
  by_contra hno
  have hnot : ∀ m, n ≤ m → ¬ Moved c (Mymuduo.accepted (eventsOf c (r.state n).2)).length (r.state m) :=
    fun m hm h => hno ⟨m, hm, h⟩
  have hreg : ∀ m, n ≤ m → (r.state m).1.RegisteredFor Events.epollout c := by
    intro m hm
    obtain ⟨hb, hr⟩ := not_or.mp (hnot m hm)
    exact registeredFor_of_buffered (r.reach m) (lt_accepted hm hc) hb (not_or.mp hr).1
  obtain ⟨m, hm, hout | ⟨env, s', hdis, he⟩⟩ := hd.reported.exists_dispatched hfair hc (hreg n le_rfl)
  · exact hout (hreg m hm)
  · refine hnot (m + 1) (Nat.le_succ_of_le hm) ?_
    rw [he]
    exact moved_of_dispatched (r.reach m) (lt_accepted hm hc) (hnot m hm) (accepted_mono hm).length_le hdis
      (hd.taken m)

/-- The kernel accepts as many bytes as have been submitted. -/
theorem leadsTo_accepted (r : ((sys cfg).logged shown).Run fun x => Obeys p x.1)
    (hfair : ∀ l ≤ cfg.numThreads, r.Often (Label.advances l)) (hd : Drains c r) (a : ℕ) :
    r.LeadsTo (fun x => c < x.1.accepted ∧ a ≤ (submitted (eventsOf c x.2)).length)
      fun x => Broken c x ∨ a ≤ (Mymuduo.accepted (eventsOf c x.2)).length := by
  refine Sys.Run.leadsTo_of_descent
    (fun x => a - (Mymuduo.accepted (eventsOf c x.2)).length) fun n ⟨hn, hsub⟩ => ?_
  obtain ⟨m, hm, hmoved⟩ := exists_moved hfair hd hn
  have hc := lt_accepted hm hn
  have hsub := hsub.trans (submitted_mono hm).length_le
  refine ⟨m, hm, ?_⟩
  by_cases hb : Broken c (r.state m)
  · exact .inl (.inl hb)
  have hstream := congrArg List.length (stream_of_reach (r.reach m) hc hb).2
  rw [List.length_append] at hstream
  rcases hmoved with hb' | hr | hmore
  · exact absurd hb' hb
  · -- nothing is buffered
    rw [hr, List.length_nil] at hstream
    exact .inl (.inr (by omega))
  · by_cases hle : a ≤ (Mymuduo.accepted (eventsOf c (r.state m).2)).length
    · exact .inl (.inr hle)
    · exact .inr ⟨⟨hc, hsub⟩, by omega⟩

/-- A message that was submitted has been accepted once the kernel has taken so many bytes. -/
theorem prefix_accepted {r : ((sys cfg).logged shown).Run fun x => Obeys p x.1} {n m : ℕ} (h : n ≤ m)
    {message : List UInt8} (hc : c < (r.state n).1.accepted)
    (hsub : message <+: submitted (eventsOf c (r.state n).2))
    (hacc : Broken c (r.state m) ∨ message.length ≤ (Mymuduo.accepted (eventsOf c (r.state m).2)).length) :
    Broken c (r.state m) ∨ message <+: Mymuduo.accepted (eventsOf c (r.state m).2) := by
  by_cases hb : Broken c (r.state m)
  · exact .inl hb
  · have hstream := (stream_of_reach (r.reach m) (lt_accepted h hc) hb).2
    have hsub' := hsub.trans (submitted_mono h)
    exact .inr (List.prefix_of_prefix_length_le hsub' ⟨_, hstream.symm⟩ (hacc.resolve_left hb))

/-- **What is submitted is accepted.**  In every infinite run in which the threads of the loops come on again
and again and the connection drains, the kernel has in the end accepted every byte given to `sendInLoop`, in
this order, unless the connection is closed or something goes wrong on its socket or in `errno`. -/
theorem submitted_accepted (r : ((sys cfg).logged shown).Run fun x => Obeys p x.1)
    (hfair : ∀ l ≤ cfg.numThreads, r.Often (Label.advances l)) (hd : Drains c r) (message : List UInt8) :
    r.LeadsTo (fun x => c < x.1.accepted ∧ message <+: submitted (eventsOf c x.2))
      fun x => Broken c x ∨ message <+: Mymuduo.accepted (eventsOf c x.2) := by
  intro n ⟨hc, hsub⟩
  obtain ⟨m, hm, hacc⟩ := leadsTo_accepted r hfair hd message.length n ⟨hc, hsub.length_le⟩
  exact ⟨m, hm, prefix_accepted hm hc hsub hacc⟩

/-- A byte is buffered when the run begins. -/
theorem submitted_accepted_buffered : ∃ r : ((sys config).logged shown).Run fun x => Obeys .any x.1,
    Mymuduo.accepted (eventsOf 0 (r.state 0).2) = [5] ∧
      r.LeadsTo (fun x => 0 < x.1.accepted ∧ [5, 6] <+: submitted (eventsOf 0 x.2))
        fun x => Broken 0 x ∨ [5, 6] <+: Mymuduo.accepted (eventsOf 0 x.2) := by
  obtain ⟨x, hx, hacc⟩ := Sys.Reach.exists_of_execIf (M := (sys config).logged shown)
    (s := (TcpServer.start config, [])) (C := fun x => Obeys .any x.1)
    (P := fun x => Mymuduo.accepted (eventsOf 0 x.2) = [5])
    (.init ⟨rfl, rfl⟩)
    (opening 7 ++ [.poll 1 [(7, kReadEvent)],
      .dispatch 1 ⟨none, [], fun _ => ⟨.ok [5], .ok 0, [.send [5, 6] ⟨.ok 1, 0⟩]⟩⟩])
    (by decide +kernel)
  obtain ⟨r, rfl, hfair, hd⟩ := exists_draining_run Policy.Quiet.any hx 0
  exact ⟨r, hacc, submitted_accepted r hfair hd [5, 6]⟩

/-! ### The end of writing -/

theorem graceful_of_reach (h : ((sys cfg).logged shown).Reach (fun x => Obeys p x.1) x)
    (hc : c < x.1.accepted) :
    (x.1.established c = false → (x.1.conn c).state = .kConnecting) ∧
      (Clean (eventsOf c x.2) → (x.1.conn c).state = .kDisconnecting →
        (FinSent (eventsOf c x.2) ↔ (x.1.conn c).outputBuffer.readable = [])) := by
  obtain ⟨k, hk, hview, -⟩ := exists_view h hc
  have hg := Conn.GracefulInv.of_reach (hk.mono fun k lab hp => by
    cases lab <;> first | exact trivial | exact hp.elim)
  rw [← hview.trace, ← hview.conn, ← hview.established]
  exact ⟨hg.fresh, fun hcl => (hg.io hcl).closing⟩

/-- The connection is being shut down, with everything submitted. -/
structure Ending (c : ConnId) (message : List UInt8) (x : TcpServer × List (ConnId × Event)) : Prop where
  accepted : c < x.1.accepted
  state : (x.1.conn c).state = .kDisconnecting
  submitted : submitted (eventsOf c x.2) = message

theorem Ending.step {message : List UInt8} (h : Ending c message x)
    (hreach : ((sys cfg).logged shown).Reach (fun x => Obeys p x.1) x) (hob : x.1.Obeys p lab)
    (hst : TcpServer.step cfg x.1 lab = some s') :
    Broken c (s', x.2 ++ shown x.1 lab s') ∨ Ending c message (s', x.2 ++ shown x.1 lab s') := by
  have hc' := (loopOf_of_step h.accepted hst).1
  have hio : (x.1.io c).ShutDown := .inr ⟨h.state, rfl⟩
  have hcalls : ∀ f : Io → Io, x.1.Calls c lab s' f → (f (x.1.io c)).ShutDown →
      Broken c (s', x.2 ++ shown x.1 lab s') ∨ Ending c message (s', x.2 ++ shown x.1 lab s') := by
    intro f hcall hf
    rcases hf with hd | ⟨hs, hsub⟩
    · exact .inl (.inl (hcall.conn ▸ hd))
    · refine .inr ⟨hc', hcall.conn ▸ hs, ?_⟩
      rw [eventsOf_append, submitted_append, hcall.events, hsub, List.append_nil, h.submitted]
  cases ConnStep.of_step (.of_logged hreach) h.accepted hob hst with
  | same hconn _ hevs =>
    refine .inr ⟨hc', hconn ▸ h.state, ?_⟩
    rw [eventsOf_append, hevs, List.append_nil, h.submitted]
  | poll _ y _ _ _ _ _ _ _ hcall => exact hcalls _ hcall (Io.handled_shutDown.report _ y.2 hio)
  | connectEstablished _ _ hest =>
    have hs := (graceful_of_reach hreach h.accepted).1 hest
    rw [h.state] at hs
    cases hs
  | connectDestroyed acts _ _ _ hcall => exact hcalls _ hcall (Io.handled_shutDown.connectDestroyed hio acts)
  | user acts _ _ hcall => exact hcalls _ hcall (Io.handled_shutDown.user hio acts)
  | dispatch env _ _ _ _ _ _ _ hcall =>
    exact hcalls _ hcall (Io.handled_shutDown.handleEventWithGuard hio env.callbacks)

/-- **A shutdown finishes.**  A connection in `kDisconnecting` has in the end written everything that was
given to `sendInLoop` and called `shutdownWrite`, unless it is closed before or something goes wrong. -/
theorem shutdown_finishes (r : ((sys cfg).logged shown).Run fun x => Obeys p x.1)
    (hfair : ∀ l ≤ cfg.numThreads, r.Often (Label.advances l)) (hd : Drains c r) :
    r.LeadsTo (fun x => c < x.1.accepted ∧ (x.1.conn c).state = .kDisconnecting)
      fun x => Broken c x ∨ FinSent (eventsOf c x.2) ∧
        Mymuduo.accepted (eventsOf c x.2) = submitted (eventsOf c x.2) := by
  intro n hn
  obtain ⟨m, hm, hacc⟩ := leadsTo_accepted r hfair hd _ n ⟨hn.1, le_rfl⟩
  have hwait := Sys.Run.wait (r := r) (P := Ending c (submitted (eventsOf c (r.state n).2))) (Q := Broken c)
    (fun k hk => by
      obtain ⟨s', hst, he⟩ := r.next_logged k
      rw [he]
      exact hk.step (r.reach k) (r.met k) hst) ⟨hn.1, hn.2, rfl⟩ hm
  rcases hwait with ⟨j, hj, -, hb⟩ | hend
  · exact ⟨j, hj, .inl hb⟩
  refine ⟨m, hm, ?_⟩
  rcases hacc with hb | hacc
  · exact .inl hb
  by_cases hb : Broken c (r.state m)
  · exact .inl hb
  -- nothing is buffered any more
  have hstream := (stream_of_reach (r.reach m) hend.accepted hb).2
  rw [← hend.submitted] at hacc
  have hr : ((r.state m).1.conn c).outputBuffer.readable = [] := by
    have hl := congrArg List.length hstream
    rw [List.length_append] at hl
    exact List.length_eq_zero_iff.mp (by omega)
  rw [hr, List.append_nil] at hstream
  have hclean := not_not.mp (not_or.mp hb).2
  exact .inr ⟨((graceful_of_reach (r.reach m) hend.accepted).2 hclean hend.state).mpr hr, hstream.symm⟩

/-- The user shuts the connection down while a byte is buffered. -/
theorem shutdown_finishes_buffered : ∃ r : ((sys config).logged shown).Run fun x => Obeys .any x.1,
    ((r.state 0).1.conn 0).state = .kDisconnecting ∧
      r.LeadsTo (fun x => 0 < x.1.accepted ∧ (x.1.conn 0).state = .kDisconnecting)
        fun x => Broken 0 x ∨ FinSent (eventsOf 0 x.2) ∧
          Mymuduo.accepted (eventsOf 0 x.2) = submitted (eventsOf 0 x.2) := by
  obtain ⟨x, hx, hs⟩ := Sys.Reach.exists_of_execIf (M := (sys config).logged shown)
    (s := (TcpServer.start config, [])) (C := fun x => Obeys .any x.1)
    (P := fun x => (x.1.conn 0).state = .kDisconnecting)
    (.init ⟨rfl, rfl⟩)
    (opening 7 ++ [.poll 1 [(7, kReadEvent)],
      .dispatch 1 ⟨none, [], fun _ => ⟨.ok [5], .ok 0, [.send [5, 6] ⟨.ok 1, 0⟩, .shutdown]⟩⟩])
    (by decide +kernel)
  obtain ⟨r, rfl, hfair, hd⟩ := exists_draining_run Policy.Quiet.any hx 0
  exact ⟨r, hs, shutdown_finishes r hfair hd⟩

end TcpServer

end Mymuduo
