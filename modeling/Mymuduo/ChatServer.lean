import Mymuduo.ServerDrain

/-!
# Mymuduo.ChatServer — a server that sends back what it receives (`muduo_server.cpp`)

`onConnection` and `onMessage` are the callbacks of the user; `policy` says that user code does what they do
and nothing else.  `received` are the bytes that a dispatch reads from a connection.

Each connection sends back the bytes it has received, in their order: while it is connected, what the kernel
has accepted and what is buffered make up what has been received, and after that the kernel has accepted a
prefix of it (`echo`).  In the end everything is sent back (`echoed`).
-/

namespace Mymuduo

open Lib Events

/-! ### The callbacks -/

namespace ChatServer

/-- The calls of `onConnection`. -/
def onConnection (connected : Bool) : List UserAct := if connected then [] else [.shutdown]

/-- The calls of `onMessage`; `env` is what its `send` meets. -/
def onMessage (buffer : ValidBuffer) (env : SendEnv) : List UserAct :=
  match buffer.val.retrieveAllAsString with
  | some (buf, _) => [.retrieve buffer.readableBytes, .send buf env]
  | none => []

theorem onMessage_eq (buffer : ValidBuffer) (env : SendEnv) :
    onMessage buffer env = [.retrieve buffer.readableBytes, .send buffer.readable env] := by
  have h := buffer.property.retrieveAsString le_rfl
  rw [List.take_of_length_le buffer.property.length_readable.le] at h
  rw [onMessage, Buffer.retrieveAllAsString, h]
  rfl

end ChatServer

/-- What a `readv` into the input buffer delivers. -/
def TcpConnection.delivered (conn : TcpConnection) : ReadRet → List UInt8
  | .ok data => data.take conn.inputBuffer.val.offered
  | .err _ => []

namespace ChatServer

/-- A read that delivers nothing goes on to `onConnection`. -/
def Responds (conn : TcpConnection) (env : Io.CallbackEnv) : Prop :=
  if conn.delivered env.read = [] then env.acts = onConnection false
  else ∃ send, env.acts = onMessage (conn.inputBuffer.readFd (conn.delivered env.read)) send

/-- What the `send` of such calls meets. -/
def sendEnv : List UserAct → SendEnv
  | [_, .send _ env] => env
  | _ => ⟨.ok 0, 0⟩

instance (buffer : ValidBuffer) (acts : List UserAct) :
    Decidable (∃ send, acts = onMessage buffer send) :=
  decidable_of_iff (acts = onMessage buffer (sendEnv acts)) (by
    refine ⟨fun h => ⟨_, h⟩, ?_⟩
    rintro ⟨send, rfl⟩
    simp only [onMessage_eq, sendEnv])

instance (conn : TcpConnection) (env : Io.CallbackEnv) : Decidable (Responds conn env) :=
  inferInstanceAs (Decidable (if conn.delivered env.read = [] then env.acts = onConnection false
    else ∃ send, env.acts = onMessage (conn.inputBuffer.readFd (conn.delivered env.read)) send))

/-- The callbacks of this server, and no other calls. -/
def policy : Policy where
  up acts := acts = onConnection true
  down acts := acts = onConnection false
  act _ := False
  dispatch conn env := (env .close).acts = onConnection false ∧ Responds conn (env .read)

instance : DecidablePred policy.up := fun acts => inferInstanceAs (Decidable (acts = _))

instance : DecidablePred policy.down := fun acts => inferInstanceAs (Decidable (acts = _))

instance : DecidablePred policy.act := fun _ => .isFalse id

instance (conn : TcpConnection) (env : Io.Callback → Io.CallbackEnv) :
    Decidable (policy.dispatch conn env) := inferInstanceAs (Decidable (_ ∧ _))

end ChatServer

/-! ### One dispatch -/

namespace Io

variable {io io' : Io}

/-- The bytes that a dispatch reads. -/
def received (env : Callback → CallbackEnv) (io : Io) : List UInt8 :=
  if io.conn.channel.revents.epollin || io.conn.channel.revents.epollpri then
    io.conn.delivered (env .read).read else []

theorem handleWrite_input (ret : IoRet) (io : Io) :
    (io.handleWrite ret).conn.inputBuffer = io.conn.inputBuffer := by
  have hdrained : ∀ io : Io, io.drained.conn.inputBuffer = io.conn.inputBuffer := by
    intro io
    unfold drained
    simp only
    split
    · rw [shutdownInLoop_conn, queueWriteComplete_conn]
      rfl
    · rw [queueWriteComplete_conn]
      rfl
  unfold handleWrite
  split
  · simp only
    split
    · split
      · split
        · exact hdrained _
        · rfl
      · rfl
    · rfl
  · rfl

theorem handleClose_onConnection (io : Io) :
    io.handleClose (ChatServer.onConnection false) = io.closed.emit .closeCallback := rfl

theorem sendInLoop_input (message : List UInt8) (env : SendEnv) (io : Io) :
    (io.sendInLoop message env).conn.inputBuffer = io.conn.inputBuffer := by
  have happend : ∀ (n : ℕ) (io : Io),
      (io.appendRemaining message n).conn.inputBuffer = io.conn.inputBuffer := by
    intro n io
    have h := congrArg TcpConnection.inputBuffer (queueHighWaterMark_conn (message.length - n) io)
    unfold appendRemaining
    simp only
    split <;> exact h
  unfold sendInLoop
  simp only
  split
  · rfl
  · split <;> split
    · rw [happend, writeDirect_conn]
      rfl
    · rw [writeDirect_conn]
      rfl
    · rw [happend]
      rfl
    · rfl

/-- `onMessage` sends all that is in the input buffer. -/
theorem user_onMessage (env : SendEnv) (hs : io.conn.state = .kConnected) :
    (io.user (ChatServer.onMessage io.conn.inputBuffer env)).conn.state = .kConnected ∧
      (io.user (ChatServer.onMessage io.conn.inputBuffer env)).conn.inputBuffer.readable = [] ∧
      submitted (io.user (ChatServer.onMessage io.conn.inputBuffer env)).trace =
        submitted io.trace ++ io.conn.inputBuffer.readable := by
  let io₁ := io.setInput (io.conn.inputBuffer.retrieve io.conn.inputBuffer.readableBytes)
  have huser : io.user (ChatServer.onMessage io.conn.inputBuffer env) =
      io₁.sendInLoop io.conn.inputBuffer.readable env := by
    rw [ChatServer.onMessage_eq]
    exact if_pos hs
  have hs₁ : io₁.conn.state ≠ .kDisconnected := by simp [io₁, hs]
  obtain ⟨evs, rest, hcase, hb⟩ := sendInLoop_cases io.conn.inputBuffer.readable env hs₁
  rw [huser]
  refine ⟨hb.state.trans hs, ?_, ?_⟩
  · rw [sendInLoop_input]
    exact (ValidBuffer.readable_retrieve ..).trans
      (List.drop_of_length_le (ValidBuffer.readableBytes_eq _).ge)
  · rw [hb.trace]
    simp [Event.submitted, hcase.submitted_eq, io₁]

/-- What is sent for the bytes that have been read: a prefix, and all of them if the connection is
connected afterwards. -/
structure Relays (io : Io) (read sent : List UInt8) (io' : Io) : Prop where
  prefix_read : sent <+: read
  submitted : submitted io'.trace = submitted io.trace ++ sent
  closed : io.conn.state ≠ .kConnected → sent = [] ∧ io'.conn.state ≠ .kConnected
  connected : io'.conn.state = .kConnected → sent = read ∧ io'.conn.inputBuffer.readable = []

/-- A read that sends nothing and leaves the connection closed. -/
theorem Relays.of_closed {read : List UInt8} (ht : Mymuduo.submitted io'.trace = Mymuduo.submitted io.trace)
    (hs : io'.conn.state ≠ .kConnected) : Relays io read [] io' :=
  ⟨List.nil_prefix, by rw [ht, List.append_nil], fun _ => ⟨rfl, hs⟩, fun h => absurd h hs⟩

theorem submitted_handleClose (acts : List UserAct) (io : Io) :
    submitted (io.handleClose acts).trace = submitted io.trace := by
  obtain ⟨b, hb⟩ := handleClose_eq acts io
  rw [hb]
  simp [closed, Event.submitted]

theorem handleRead_relays {env : CallbackEnv} (hp : ChatServer.Responds io.conn env)
    (hin : io.conn.state = .kConnected → io.conn.inputBuffer.readable = []) :
    ∃ sent, Relays io (io.conn.delivered env.read) sent (io.handleRead env.read env.acts) := by
  cases hread : env.read with
  | err e =>
    exact ⟨[], List.nil_prefix, (List.append_nil _).symm, fun h => ⟨rfl, h⟩, fun h => ⟨rfl, hin h⟩⟩
  | ok data =>
    rw [ChatServer.Responds, hread] at hp
    by_cases hb : io.conn.delivered (.ok data) = []
    · have he : io.handleRead (.ok data) env.acts =
          (io.setInput (io.conn.inputBuffer.readFd (io.conn.delivered (.ok data)))).handleClose env.acts :=
        if_pos hb
      rw [he]
      exact ⟨[], .of_closed (submitted_handleClose _ _) (by rw [handleClose_state]; simp)⟩
    · rw [if_neg hb] at hp
      obtain ⟨send, hacts⟩ := hp
      let io₁ := (io.setInput (io.conn.inputBuffer.readFd (io.conn.delivered (.ok data)))).emit
        .messageCallback
      have he : io.handleRead (.ok data) env.acts =
          io₁.user (ChatServer.onMessage io₁.conn.inputBuffer send) :=
        (if_neg hb).trans (congrArg (fun acts => io₁.user acts) hacts)
      have ht : submitted io₁.trace = submitted io.trace := by simp [io₁, Event.submitted]
      rw [he]
      by_cases hs : io.conn.state = .kConnected
      · have hs₁ : io₁.conn.state = .kConnected := hs
        obtain ⟨-, hinput, hsub⟩ := user_onMessage send hs₁
        have hdata : io₁.conn.inputBuffer.readable = io.conn.delivered (.ok data) := by
          refine (io.conn.inputBuffer.property.readable_readFd _).trans ?_
          rw [show io.conn.inputBuffer.val.readable = [] from hin hs, List.nil_append]
        rw [ht, hdata] at hsub
        exact ⟨_, List.prefix_rfl, hsub, fun h => absurd hs h, fun _ => ⟨rfl, hinput⟩⟩
      · obtain ⟨b, hu⟩ := user_of_ne io₁ (ChatServer.onMessage io₁.conn.inputBuffer send) hs
        rw [hu]
        exact ⟨[], .of_closed ht hs⟩

/-- **One dispatch of a connection.** -/
theorem handleEventWithGuard_relays {env : Callback → CallbackEnv}
    (hp : ChatServer.policy.dispatch io.conn env)
    (hin : io.conn.state = .kConnected → io.conn.inputBuffer.readable = []) :
    ∃ sent, Relays io (io.received env) sent (io.handleEventWithGuard env) := by
  have hwrite : ∀ {x : Io} {sent : List UInt8} (b : Bool), Relays io (io.received env) sent x →
      Relays io (io.received env) sent (if b then x.handleWrite (env .write).write else x) := by
    intro x sent b h
    cases b with
    | false => exact h
    | true =>
      refine ⟨h.prefix_read, (handleWrite_submitted _ x).trans h.submitted, fun hs => ?_, fun hs => ?_⟩
      · exact ⟨(h.closed hs).1, (handleWrite_state _ x).trans_ne (h.closed hs).2⟩
      · obtain ⟨h1, h2⟩ := h.connected ((handleWrite_state _ x).symm.trans hs)
        exact ⟨h1, (congrArg ValidBuffer.readable (handleWrite_input _ x)).trans h2⟩
  rw [handleEventWithGuard_eq env io rfl]
  simp only
  by_cases hclose : (io.conn.channel.revents.epollhup && !io.conn.channel.revents.epollin) = true
  · -- the connection is closed before the read
    rw [if_pos hclose, hp.1, handleClose_onConnection]
    have hclosed : (io.closed.emit .closeCallback).conn.state ≠ .kConnected := by simp [closed]
    refine ⟨[], hwrite _ ?_⟩
    split
    · have hresp : ChatServer.Responds (io.closed.emit .closeCallback).conn (env .read) := hp.2
      obtain ⟨sent, h⟩ := handleRead_relays hresp fun hs => absurd hs hclosed
      obtain ⟨rfl, hs⟩ := h.closed hclosed
      refine .of_closed (h.submitted.trans ?_) hs
      simp [closed, Event.submitted]
    · exact .of_closed (by simp [closed, Event.submitted]) hclosed
  · rw [if_neg hclose]
    by_cases hread : (io.conn.channel.revents.epollin || io.conn.channel.revents.epollpri) = true
    · have hresp : ChatServer.Responds io.conn (env .read) := hp.2
      obtain ⟨sent, h⟩ := handleRead_relays hresp hin
      rw [if_pos hread]
      have hrec : io.received env = io.conn.delivered (env .read).read := if_pos hread
      exact ⟨sent, hwrite _ (hrec ▸ h)⟩
    · rw [if_neg hread]
      have hrec : io.received env = [] := if_neg hread
      refine ⟨[], hwrite _ ?_⟩
      rw [hrec]
      exact ⟨List.nil_prefix, (List.append_nil _).symm, fun h => ⟨rfl, h⟩, fun h => ⟨rfl, hin h⟩⟩

end Io

/-! ### The connections of the server -/

/-- The bytes of the connection `c`, out of those of all connections. -/
def bytesOf (c : ConnId) (hist : List (ConnId × List UInt8)) : List UInt8 :=
  (hist.filter fun x => x.1 = c).flatMap Prod.snd

theorem bytesOf_append (c : ConnId) (h h' : List (ConnId × List UInt8)) :
    bytesOf c (h ++ h') = bytesOf c h ++ bytesOf c h' := by
  simp [bytesOf]

/-- A connection, what it has shown, and what it has received. -/
structure Echoes (conn : TcpConnection) (established : Bool) (evs : List Event) (bytes : List UInt8) :
    Prop where
  fresh : established = false → conn.inputBuffer.readable = [] ∧ evs = [] ∧ bytes = []
  prefix_received : submitted evs <+: bytes
  connected : conn.state = .kConnected → conn.inputBuffer.readable = [] ∧ submitted evs = bytes

namespace Echoes

variable {conn : TcpConnection} {evs : List Event} {bytes : List UInt8} {est : Bool}

/-- A connection under construction. -/
theorem new (this : ChannelPtr) (fd : ℕ) (writeComplete : Bool) (highWater : Option ℕ) :
    Echoes (.new this fd writeComplete highWater) false [] [] :=
  ⟨fun _ => ⟨ValidBuffer.readable_new _, rfl, rfl⟩, List.prefix_rfl, fun h => StateE.noConfusion h⟩

/-- The dispatch of an established connection. -/
theorem relays {io io' : Io} {read sent : List UInt8} (h : Echoes io.conn true evs bytes)
    (hr : io.Relays read sent io') (ht : io.trace = []) :
    Echoes io'.conn true (evs ++ io'.trace) (bytes ++ read) := by
  have hsub : submitted io'.trace = sent := by simpa [ht] using hr.submitted
  refine ⟨fun hf => Bool.noConfusion hf, ?_, fun hs => ?_⟩
  · rw [submitted_append, hsub]
    by_cases hs : io.conn.state = .kConnected
    · rw [(h.connected hs).2]
      exact (List.prefix_append_right_inj _).mpr hr.prefix_read
    · rw [(hr.closed hs).1, List.append_nil]
      exact h.prefix_received.trans (List.prefix_append ..)
  · obtain ⟨rfl, hin⟩ := hr.connected hs
    have hs' : io.conn.state = .kConnected := by
      by_contra hn
      exact (hr.closed hn).2 hs
    exact ⟨hin, by rw [submitted_append, hsub, (h.connected hs').2]⟩

theorem connectEstablished {io : Io} (h : Echoes io.conn false evs bytes) (ht : io.trace = []) :
    Echoes (io.connectEstablished (ChatServer.onConnection true)).conn true
      (evs ++ (io.connectEstablished (ChatServer.onConnection true)).trace) bytes := by
  obtain ⟨hin, rfl, rfl⟩ := h.fresh rfl
  have htrace : (io.connectEstablished (ChatServer.onConnection true)).trace =
      [.connectionCallback true] := by
    show io.trace ++ _ = _
    rw [ht]
    rfl
  rw [htrace]
  exact ⟨fun hf => Bool.noConfusion hf, List.prefix_rfl, fun _ => ⟨hin, rfl⟩⟩

theorem connectDestroyed {io : Io} (h : Echoes io.conn true evs bytes) (ht : io.trace = []) :
    Echoes (io.connectDestroyed (ChatServer.onConnection false)).conn true
      (evs ++ (io.connectDestroyed (ChatServer.onConnection false)).trace) bytes := by
  obtain ⟨b, hb⟩ := Io.connectDestroyed_eq (ChatServer.onConnection false) io
  rw [hb]
  by_cases hs : io.conn.state = .kConnected
  · rw [if_pos hs]
    refine ⟨fun hf => Bool.noConfusion hf, ?_, fun hs => StateE.noConfusion hs⟩
    simpa [Io.closed, ht, Event.submitted] using h.prefix_received
  · rw [if_neg hs]
    refine ⟨fun hf => Bool.noConfusion hf, ?_, fun hs' => absurd hs' hs⟩
    simpa [ht] using h.prefix_received

end Echoes

namespace TcpServer

variable {cfg : Config} {s s' : TcpServer} {l : LoopId} {c : ConnId} {lab : Label}
  {t : List (ConnId × Event)} {r : List (ConnId × List UInt8)} {evs : List Event} {bytes : List UInt8}

/-- The bytes that the step reads from a connection. -/
def received (cfg : Config) (x : TcpServer × List (ConnId × Event)) (lab : Label)
    (_ : TcpServer × List (ConnId × Event)) : List (ConnId × List UInt8) :=
  match lab with
  | .dispatch l env =>
    match x.1.active l with
    | .conn c :: _ =>
      if (x.1.conn c).channel.tied ∧ ¬ x.1.Held cfg c then []
      else [(c, (x.1.io c).received env.callbacks)]
    | _ => []
  | _ => []

/-- Bytes are read from the connection that is dispatched. -/
theorem bytesOf_received_of_not (h : ¬ s.Dispatches c lab) (y : TcpServer × List (ConnId × Event)) :
    bytesOf c (received cfg (s, t) lab y) = [] := by
  unfold received
  cases lab with
  | dispatch l env =>
    simp only
    split
    next c' rest ha =>
      have hn : c' ≠ c := by
        rintro rfl
        exact h (by simp [Dispatches, ha])
      split
      · rfl
      · simp [bytesOf, hn]
    next => rfl
  | _ => rfl

theorem bytesOf_received (hs : Sound cfg s) {env : DispatchEnv} {rest : List ChannelPtr}
    (ha : s.active l = .conn c :: rest) (y : TcpServer × List (ConnId × Event)) :
    bytesOf c (received cfg (s, t) (.dispatch l env) y) = (s.io c).received env.callbacks := by
  obtain ⟨hc, -, hlive⟩ := hs.reg.active l c (ha ▸ List.mem_cons_self)
  have hheld := hs.own.held hc hlive.2
  simp only [received, ha]
  rw [if_neg fun hn => hn.2 hheld]
  simp [bytesOf]

/-- A step of a connection that sends back what it receives. -/
theorem echoes_step (h : Echoes (s.conn c) (s.established c) evs bytes) (hs : Sound cfg s)
    (hst : ConnStep ChatServer.policy c s lab s') (y : TcpServer × List (ConnId × Event)) :
    Echoes (s'.conn c) (s'.established c) (evs ++ eventsOf c (shown s lab s'))
      (bytes ++ bytesOf c (received cfg (s, t) lab y)) := by
  cases hst with
  | same hconn hest hevs hum =>
    rw [hconn, hest, hevs, bytesOf_received_of_not hum.label, List.append_nil, List.append_nil]
    exact h
  | poll reports x hlab _ _ _ _ hest _ hcall =>
    have hevs : (Conn.report x.2 (s.io c)).trace = [] := rfl
    rw [hcall.conn, hcall.established, hcall.events, hevs, hlab, bytesOf_received_of_not id, List.append_nil,
      List.append_nil]
    exact ⟨fun hf => Bool.noConfusion hf, h.prefix_received, h.connected⟩
  | connectEstablished acts hp hest hcall hum =>
    obtain rfl : acts = ChatServer.onConnection true := hp
    have h0 : Echoes (s.io c).conn false evs bytes := hest ▸ h
    rw [hcall.conn, hcall.established, hcall.events, bytesOf_received_of_not hum.label, List.append_nil]
    exact h0.connectEstablished rfl
  | connectDestroyed acts hp hest _ hcall hum =>
    obtain rfl : acts = ChatServer.onConnection false := hp
    have h0 : Echoes (s.io c).conn true evs bytes := hest ▸ h
    rw [hcall.conn, hcall.established, hcall.events, bytesOf_received_of_not hum.label, List.append_nil]
    exact h0.connectDestroyed rfl
  | user acts hp hest hcall hum =>
    -- no callback is set
    obtain rfl : acts = [] := List.eq_nil_iff_forall_not_mem.mpr fun a ha => hp a ha
    have hevs : ((s.io c).user []).trace = [] := rfl
    rw [hcall.conn, hcall.established, hcall.events, hevs, bytesOf_received_of_not hum.label, List.append_nil,
      List.append_nil]
    exact hest ▸ h
  | dispatch env rest hlab ha _ _ hp hest hcall =>
    subst hlab
    have hin : (s.conn c).state = .kConnected → (s.conn c).inputBuffer.readable = [] :=
      fun hst => (h.connected hst).1
    have hresp : ChatServer.policy.dispatch (s.io c).conn env.callbacks := hp
    have h0 : Echoes (s.io c).conn true evs bytes := hest ▸ h
    obtain ⟨sent, hr⟩ := Io.handleEventWithGuard_relays hresp hin
    rw [hcall.conn, hcall.established, hcall.events, bytesOf_received hs ha]
    exact h0.relays hr rfl

theorem echoes_of_born (hst : ConnBorn cfg ChatServer.policy c s lab s') :
    Echoes (s'.conn c) (s'.established c) (eventsOf c (shown s lab s')) [] := by
  cases hst with
  | queued fd highWater hconn hest hevs =>
    rw [hconn, hest, hevs]
    exact .new ..
  | established fd highWater q acts hp hconn hest hevs =>
    obtain rfl : acts = ChatServer.onConnection true := hp
    rw [hconn, hest, hevs]
    exact (Echoes.new ..).connectEstablished rfl

/-- Every connection sends back what it has received. -/
structure Echoing (s : TcpServer) (t : List (ConnId × Event)) (r : List (ConnId × List UInt8)) : Prop where
  echoes : ∀ c < s.accepted, Echoes (s.conn c) (s.established c) (eventsOf c t) (bytesOf c r)
  fresh : ∀ c, s.accepted ≤ c → bytesOf c r = []

theorem Echoing.step (h : Echoing s t r) (hs : Sound cfg s) (ht : eventsOf s.accepted t = [])
    (hob : s.Obeys ChatServer.policy lab) (hst : TcpServer.step cfg s lab = some s') :
    Echoing s' (t ++ shown s lab s') (r ++ received cfg (s, t) lab (s', t ++ shown s lab s')) where
  echoes c hc' := by
    rw [eventsOf_append, bytesOf_append]
    by_cases hc : c < s.accepted
    · exact echoes_step (h.echoes c hc) hs (.of_step hs hc hob hst) _
    · obtain ⟨rfl, hborn⟩ := ConnBorn.of_step hs hob hst hc hc'
      rw [ht, h.fresh _ le_rfl, bytesOf_received_of_not hborn.label]
      exact echoes_of_born hborn
  fresh c hc := by
    have hle := (extends_of_step hst).accepted.trans hc
    rw [bytesOf_append, h.fresh c hle, bytesOf_received_of_not fun hd => ?_]
    · rfl
    · cases lab with
      | dispatch l env =>
        have hm : .conn c ∈ s.active l := List.mem_of_head? hd
        exact absurd (hs.reg.active l c hm).1 (not_lt.mpr hle)
      | _ => exact hd

/-- The runs of the server, with what its connections have shown and what they have received. -/
abbrev chat (cfg : Config) : Sys ((TcpServer × List (ConnId × Event)) × List (ConnId × List UInt8)) Label :=
  ((sys cfg).logged shown).logged (received cfg)

theorem echoing_of_reach {x : (TcpServer × List (ConnId × Event)) × List (ConnId × List UInt8)}
    (h : (chat cfg).Reach (fun x => Obeys ChatServer.policy x.1.1) x) : Echoing x.1.1 x.1.2 x.2 := by
  refine (h.invariant (I := fun x =>
    ((sys cfg).logged shown).Reach (fun x => Obeys ChatServer.policy x.1) x.1 ∧ Echoing x.1.1 x.1.2 x.2)
    (fun x hx => ?_) fun x lab x' hI hob hst => ?_).2
  · obtain ⟨⟨hs, ht⟩, hr⟩ := hx
    refine ⟨.init ⟨hs, ht⟩, fun c hc => ?_, fun c _ => by rw [hr]; rfl⟩
    rw [show x.1.1 = TcpServer.start cfg from hs] at hc
    exact absurd hc (Nat.not_lt_zero c)
  · obtain ⟨y, hy, rfl⟩ := Sys.step_logged.mp hst
    have hreach := hI.1.step hob hy
    obtain ⟨s', hst', rfl⟩ := Sys.step_logged.mp hy
    exact ⟨hreach, hI.2.step (.of_logged hI.1) (eventsOf_of_unborn hI.1) hob hst'⟩

/-- **The server echoes.**  At every moment of every run, what the kernel has accepted for a connection is a
prefix of what the connection has received, and as long as it is connected the rest is in its output buffer,
unless a write has failed with `EPIPE` or `ECONNRESET` or a direct write was clobbered. -/
theorem echo {x : (TcpServer × List (ConnId × Event)) × List (ConnId × List UInt8)}
    (h : (chat cfg).Reach (fun x => Obeys ChatServer.policy x.1.1) x) (hc : c < x.1.1.accepted)
    (hf : NoFault (eventsOf c x.1.2)) (hn : ¬ Clobbered (eventsOf c x.1.2)) :
    Mymuduo.accepted (eventsOf c x.1.2) <+: bytesOf c x.2 ∧
      ((x.1.1.conn c).state = .kConnected →
        Mymuduo.accepted (eventsOf c x.1.2) ++ (x.1.1.conn c).outputBuffer.readable = bytesOf c x.2) := by
  obtain ⟨k, hk, hview, -⟩ := exists_view (Sys.Reach.of_logged h) hc
  have htaken := Conn.taken_of_reach hk
  have hecho := (echoing_of_reach h).echoes c hc
  rw [← hview.trace] at hf hn ⊢
  rw [← hview.trace] at hecho
  refine ⟨(htaken.prefix_submitted hf hn).trans hecho.prefix_received, fun hs => ?_⟩
  rw [← (hecho.connected hs).2, ← hview.conn]
  have hopen : k.io.conn.state ≠ .kDisconnected := by
    rw [hview.conn, hs]
    simp
  exact ((htaken.stream hf hopen).2.exact hn).symm

/-- Two bytes come in, and the kernel takes one of them. -/
theorem echo_two : ∃ x : (TcpServer × List (ConnId × Event)) × List (ConnId × List UInt8),
    bytesOf 0 x.2 = [5, 6] ∧ Mymuduo.accepted (eventsOf 0 x.1.2) = [5] ∧
      (x.1.1.conn 0).outputBuffer.readable = [6] := by
  obtain ⟨x, hx, hc, hs, hf, hn, ha, hb⟩ := Sys.Reach.exists_of_execIf (M := chat config)
    (s := ((TcpServer.start config, []), [])) (C := fun x => Obeys ChatServer.policy x.1.1)
    (P := fun x => 0 < x.1.1.accepted ∧ (x.1.1.conn 0).state = .kConnected ∧
      NoFault (eventsOf 0 x.1.2) ∧ ¬ Clobbered (eventsOf 0 x.1.2) ∧
      Mymuduo.accepted (eventsOf 0 x.1.2) = [5] ∧ bytesOf 0 x.2 = [5, 6])
    (.init ⟨⟨rfl, rfl⟩, rfl⟩)
    (opening 7 ++ [.poll 1 [(7, kReadEvent)], .dispatch 1 ⟨none, [], fun cb => ⟨.ok [5, 6], .ok 0,
      if cb = .close then [.shutdown] else [.retrieve 2, .send [5, 6] ⟨.ok 1, 0⟩]⟩⟩])
    (by decide +kernel)
  have hout := (echo hx hc hf hn).2 hs
  rw [ha, hb] at hout
  exact ⟨x, hb, ha, (List.append_right_inj [5]).mp hout⟩

theorem quiet_policy : Policy.Quiet ChatServer.policy writing where
  up := rfl
  down := rfl
  dispatch _ := ⟨rfl, rfl⟩

/-- **Everything is sent back.**  In every infinite run in which the threads of the loops come on again and
again and a connection drains, what it has received while it is connected is in the end accepted by the kernel
for it, byte for byte, unless it is closed before or something goes wrong on its socket or in `errno`. -/
theorem echoed (r : (chat cfg).Run fun x => Obeys ChatServer.policy x.1.1)
    (hfair : ∀ l ≤ cfg.numThreads, r.Often (Label.advances l)) (hd : Drains c r.ofLogged) (bytes : List UInt8) :
    r.LeadsTo (fun x => c < x.1.1.accepted ∧ (x.1.1.conn c).state = .kConnected ∧ bytes <+: bytesOf c x.2)
      fun x => Broken c x.1 ∨ bytes <+: Mymuduo.accepted (eventsOf c x.1.2) := by
  intro n hn
  obtain ⟨hc, hs, hb⟩ := hn
  have hecho := (echoing_of_reach (r.reach n)).echoes c hc
  rw [← (hecho.connected hs).2] at hb
  obtain ⟨m, hm, hacc⟩ := leadsTo_accepted r.ofLogged hfair hd bytes.length n ⟨hc, hb.length_le⟩
  exact ⟨m, hm, prefix_accepted hm hc hb hacc⟩

/-- One of two bytes has been sent back. -/
theorem echoed_two : ∃ r : (chat config).Run fun x => Obeys ChatServer.policy x.1.1,
    Mymuduo.accepted (eventsOf 0 (r.state 0).1.2) = [5] ∧
      r.LeadsTo (fun x => 0 < x.1.1.accepted ∧ (x.1.1.conn 0).state = .kConnected ∧ [5, 6] <+: bytesOf 0 x.2)
        fun x => Broken 0 x.1 ∨ [5, 6] <+: Mymuduo.accepted (eventsOf 0 x.1.2) := by
  obtain ⟨x, hx, hacc⟩ := Sys.Reach.exists_of_execIf (M := chat config)
    (s := ((TcpServer.start config, []), [])) (C := fun x => Obeys ChatServer.policy x.1.1)
    (P := fun x => Mymuduo.accepted (eventsOf 0 x.1.2) = [5])
    (.init ⟨⟨rfl, rfl⟩, rfl⟩)
    (opening 7 ++ [.poll 1 [(7, kReadEvent)], .dispatch 1 ⟨none, [], fun cb => ⟨.ok [5, 6], .ok 0,
      if cb = .close then [.shutdown] else [.retrieve 2, .send [5, 6] ⟨.ok 1, 0⟩]⟩⟩])
    (by decide +kernel)
  obtain ⟨x, bytes⟩ := x
  obtain ⟨r, rfl, hfair, hd⟩ := exists_draining_run quiet_policy (.of_logged hx) 0
  exact ⟨r.logged (received config) bytes hx, hacc, echoed (r.logged _ bytes hx) hfair hd [5, 6]⟩

end TcpServer

end Mymuduo
