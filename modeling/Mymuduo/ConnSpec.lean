import Mathlib.Logic.Relation
import Mymuduo.TcpConnection

/-!
# Mymuduo.ConnSpec — what every member function of a connection keeps

* `Prim`, `Steps`: every member function is a sequence of primitive steps;
* `Frame K io io'`: the identity of the connection and the registrations of other descriptors stay, a
  coherent registration stays coherent, and the trace grows at its end by events of kind `K`; what
  only sends invokes no callback;
* `user_keeps`, `dispatch_keeps`: the induction rules for the calls a callback makes and for the
  callbacks of one dispatch;
* `user_of_ne`: user code on a connection that is not `kConnected` changes the input buffer only,
  hence `handleClose_eq` and `connectDestroyed_eq`;
* `Handled P`: what the handlers of a connection keep, from what their parts keep;
* `Kept P`: what quiet steps, `sendInLoop` and `handleWrite` keep of a connection that is not closed;
  every member function keeps it.
-/

namespace Mymuduo

open Events

/-- The callbacks of the user and of the server. -/
def Event.IsCallback : Event → Bool
  | .connectionCallback _ | .messageCallback | .closeCallback => true
  | _ => false

theorem any_event : ∀ e : Event, e.IsCallback = false → (fun _ : Event => True) e :=
  fun _ _ => trivial

namespace Io

variable {io io' io'' : Io}

/-! ### Induction rules -/

/-- What every single call of user code keeps, a callback body keeps. -/
theorem user_keeps {P : Io → Prop} {acts : List UserAct}
    (hP : ∀ io, ∀ a ∈ acts, P io → P (io.act a)) (h : P io) : P (io.user acts) := by
  unfold user
  induction acts generalizing io with
  | nil => exact h
  | cons a acts ih =>
    exact ih (fun io a ha => hP io a (by simp [ha])) (hP io a (by simp) h)

/-- What every callback of a dispatch keeps, the dispatch keeps. -/
theorem dispatch_keeps {P : Io → Prop} {env : Callback → CallbackEnv}
    (hP : ∀ io cb, P io → P (io.callback cb (env cb))) (h : P io) :
    P (io.handleEventWithGuard env) := by
  unfold handleEventWithGuard
  generalize callbacks io.conn.channel.revents = cbs
  induction cbs generalizing io with
  | nil => exact h
  | cons cb cbs ih => exact ih (hP io cb h)

/-- The dispatch as a sequence of steps; the error callback does nothing to the connection. -/
theorem handleEventWithGuard_eq (env : Callback → CallbackEnv) (io : Io) {r : Events}
    (hr : io.conn.channel.revents = r) :
    io.handleEventWithGuard env =
      let io := if r.epollhup && !r.epollin then io.handleClose (env .close).acts else io
      let io := if r.epollin || r.epollpri then io.handleRead (env .read).read (env .read).acts else io
      if r.epollout then io.handleWrite (env .write).write else io := by
  unfold handleEventWithGuard callbacks
  rw [hr]
  simp only [List.foldl_append]
  cases r.epollhup <;> cases r.epollin <;> cases r.epollpri <;> cases r.epollout <;>
    cases r.epollerr <;> rfl

/-! ### Primitive steps -/

/-- A primitive step of a member function; `K` holds of the event it emits. -/
inductive Prim (K : Event → Prop) (io : Io) : Io → Prop
  | emit {e : Event} : K e → Prim K io (io.emit e)
  | setState (s : StateE) : Prim K io (io.setState s)
  | setOutput (b : ValidBuffer) : Prim K io (io.setOutput b)
  | setInput (b : ValidBuffer) : Prim K io (io.setInput b)
  | update (g : Events → Events) :
      Prim K io (io.onChannel fun c p => p.updateChannel { c with events := g c.events })
  | remove : Prim K io (io.onChannel Channel.remove)
  | tie : Prim K io io.tie

/-- A sequence of primitive steps. -/
abbrev Steps (K : Event → Prop) : Io → Io → Prop := Relation.ReflTransGen (Prim K)

namespace Steps

variable {K : Event → Prop}

theorem refl (io : Io) : Steps K io io := Relation.ReflTransGen.refl

theorem emit (h : Steps K io io') {e : Event} (he : K e) : Steps K io (io'.emit e) :=
  h.tail (.emit he)

theorem setState (h : Steps K io io') (s : StateE) : Steps K io (io'.setState s) :=
  h.tail (.setState s)

theorem setOutput (h : Steps K io io') (b : ValidBuffer) : Steps K io (io'.setOutput b) :=
  h.tail (.setOutput b)

theorem setInput (h : Steps K io io') (b : ValidBuffer) : Steps K io (io'.setInput b) :=
  h.tail (.setInput b)

/-- Every `enable…` and `disable…` is `updateChannel` with a new interest. -/
theorem update (h : Steps K io io') (g : Events → Events) :
    Steps K io (io'.onChannel fun c p => p.updateChannel { c with events := g c.events }) :=
  h.tail (.update g)

theorem remove (h : Steps K io io') : Steps K io (io'.onChannel Channel.remove) := h.tail .remove

theorem tie (h : Steps K io io') : Steps K io io'.tie := h.tail .tie

theorem ite {c : Prop} [Decidable c] {a b : Io} (ha : Steps K io a) (hb : Steps K io b) :
    Steps K io (if c then a else b) := by
  split
  · exact ha
  · exact hb

theorem disableAll (h : Steps K io io') : Steps K io (io'.onChannel Channel.disableAll) :=
  h.update fun _ => kNoneEvent

section Quiet

variable (hK : ∀ e : Event, e.IsCallback = false → K e)

include hK

theorem queueWriteComplete (h : Steps K io io') : Steps K io io'.queueWriteComplete :=
  .ite (h.emit (hK _ rfl)) h

theorem queueHighWaterMark (h : Steps K io io') (n : ℕ) : Steps K io (io'.queueHighWaterMark n) :=
  .ite (h.emit (hK _ rfl)) h

theorem writeDirect (h : Steps K io io') (message : List UInt8) (env : SendEnv) :
    Steps K io (io'.writeDirect message env).1 := by
  unfold Io.writeDirect
  simp only
  split
  · exact .ite ((h.emit (hK _ rfl)).queueWriteComplete hK) (h.emit (hK _ rfl))
  · exact h.emit (hK _ rfl)

theorem appendRemaining (h : Steps K io io') (message : List UInt8) (nwrote : ℕ) :
    Steps K io (io'.appendRemaining message nwrote) := by
  have h1 := (h.queueHighWaterMark hK (message.length - nwrote)).setOutput
    ((io'.queueHighWaterMark (message.length - nwrote)).conn.outputBuffer.append
      (message.drop nwrote))
  exact .ite h1 (h1.update (·.or kWriteEvent))

theorem sendInLoop (h : Steps K io io') (message : List UInt8) (env : SendEnv) :
    Steps K io (io'.sendInLoop message env) := by
  have h0 := h.emit (e := .sendInLoop message) (hK _ rfl)
  have h1 := h0.writeDirect hK message env
  unfold Io.sendInLoop
  simp only
  refine .ite h0 ?_
  split
  · exact .ite (h1.appendRemaining hK _ _) h1
  · exact .ite (h0.appendRemaining hK _ _) h0

theorem shutdownInLoop (h : Steps K io io') : Steps K io io'.shutdownInLoop :=
  .ite h (h.emit (hK _ rfl))

theorem act (h : Steps K io io') (a : UserAct) : Steps K io (io'.act a) := by
  cases a with
  | send message env => exact .ite (h.sendInLoop hK message env) h
  | shutdown => exact .ite ((h.setState .kDisconnecting).shutdownInLoop hK) h
  | retrieve len => exact h.setInput _

theorem user (h : Steps K io io') (acts : List UserAct) : Steps K io (io'.user acts) :=
  user_keeps (P := Steps K io) (fun _ a _ h => h.act hK a) h

theorem drained (h : Steps K io io') : Steps K io io'.drained := by
  have h1 := (h.update (·.diff kWriteEvent)).queueWriteComplete hK
  exact .ite (h1.shutdownInLoop hK) h1

theorem handleWrite (h : Steps K io io') (ret : IoRet) : Steps K io (io'.handleWrite ret) := by
  refine .ite ?_ h
  have h1 := h.emit (hK
    (.write io'.conn.outputBuffer.readable (ret.of io'.conn.outputBuffer.readable)) rfl)
  simp only
  split
  · exact .ite (.ite ((h1.setOutput _).drained hK) (h1.setOutput _)) h1
  · exact h1

end Quiet

theorem callConnection (h : Steps (fun _ => True) io io') (acts : List UserAct) :
    Steps (fun _ => True) io (io'.callConnection acts) :=
  (h.emit trivial).user any_event acts

theorem connectEstablished (h : Steps (fun _ => True) io io') (acts : List UserAct) :
    Steps (fun _ => True) io (io'.connectEstablished acts) :=
  ((h.setState .kConnected).tie.update (·.or kReadEvent)).callConnection acts

theorem connectDestroyed (h : Steps (fun _ => True) io io') (acts : List UserAct) :
    Steps (fun _ => True) io (io'.connectDestroyed acts) :=
  Steps.remove (.ite ((h.setState .kDisconnected).disableAll.callConnection acts) h)

theorem handleClose (h : Steps (fun _ => True) io io') (acts : List UserAct) :
    Steps (fun _ => True) io (io'.handleClose acts) :=
  ((h.setState .kDisconnected).disableAll.callConnection acts).emit trivial

theorem handleRead (h : Steps (fun _ => True) io io') (ret : ReadRet) (acts : List UserAct) :
    Steps (fun _ => True) io (io'.handleRead ret acts) := by
  cases ret with
  | err e => exact h
  | ok data =>
    exact .ite ((h.setInput _).handleClose acts)
      (((h.setInput _).emit trivial).user any_event acts)

theorem callback (h : Steps (fun _ => True) io io') (cb : Callback) (env : CallbackEnv) :
    Steps (fun _ => True) io (io'.callback cb env) := by
  cases cb with
  | close => exact h.handleClose _
  | error => exact h
  | read => exact h.handleRead _ _
  | write => exact h.handleWrite any_event _

theorem handleEventWithGuard (h : Steps (fun _ => True) io io') (env : Callback → CallbackEnv) :
    Steps (fun _ => True) io (io'.handleEventWithGuard env) :=
  dispatch_keeps (P := Steps (fun _ => True) io) (fun _ cb h => h.callback cb _) h

end Steps

/-! ### The frame of a member function -/

/-- What every member function leaves as it is; `K` holds of the events it emits. -/
structure Frame (K : Event → Prop) (io io' : Io) : Prop where
  this : io'.conn.channel.this = io.conn.channel.this
  fd : io'.conn.channel.fd = io.conn.channel.fd
  trace : ∃ evs, io'.trace = io.trace ++ evs ∧ ∀ e ∈ evs, K e
  coherent : Coherent io.poller io.conn.channel → Coherent io'.poller io'.conn.channel
  others : Coherent io.poller io.conn.channel → SameBut io.conn.channel.fd io.poller io'.poller
  failed : Coherent io.poller io.conn.channel → io'.poller.failed = io.poller.failed

namespace Frame

variable {K : Event → Prop}

theorem refl (io : Io) : Frame K io io :=
  ⟨rfl, rfl, ⟨[], by simp, by simp⟩, id, fun _ => .refl _ _, fun _ => rfl⟩

theorem trans (h : Frame K io io') (h' : Frame K io' io'') : Frame K io io'' where
  this := h'.this.trans h.this
  fd := h'.fd.trans h.fd
  trace := by
    obtain ⟨s, hs, hKs⟩ := h.trace
    obtain ⟨t, ht, hKt⟩ := h'.trace
    refine ⟨s ++ t, by rw [ht, hs, List.append_assoc], fun e he => ?_⟩
    exact (List.mem_append.mp he).elim (hKs e) (hKt e)
  coherent hc := h'.coherent (h.coherent hc)
  others hc := (h.others hc).trans (h.fd ▸ h'.others (h.coherent hc))
  failed hc := (h'.failed (h.coherent hc)).trans (h.failed hc)

theorem prefix_trace (h : Frame K io io') : io.trace <+: io'.trace := by
  obtain ⟨evs, ht, -⟩ := h.trace
  exact ⟨evs, ht.symm⟩

theorem emit (h : Frame K io io') {e : Event} (he : K e) : Frame K io (io'.emit e) :=
  h.trans ⟨rfl, rfl, ⟨[e], rfl, by simpa using he⟩, id, fun _ => .refl _ _, fun _ => rfl⟩

/-- A change of the fields that no registration and no trace shows. -/
theorem of_eq (h : Frame K io io') (hc : io''.conn.channel = io'.conn.channel)
    (hp : io''.poller = io'.poller) (ht : io''.trace = io'.trace) : Frame K io io'' :=
  h.trans ⟨by rw [hc], by rw [hc], ⟨[], by simp [ht], by simp⟩, fun h => by rwa [hc, hp],
    fun _ => hp ▸ .refl _ _, fun _ => by rw [hp]⟩

theorem setState (h : Frame K io io') (s : StateE) : Frame K io (io'.setState s) :=
  h.of_eq rfl rfl rfl

theorem setOutput (h : Frame K io io') (b : ValidBuffer) : Frame K io (io'.setOutput b) :=
  h.of_eq rfl rfl rfl

theorem setInput (h : Frame K io io') (b : ValidBuffer) : Frame K io (io'.setInput b) :=
  h.of_eq rfl rfl rfl

theorem update (h : Frame K io io') (g : Events → Events) :
    Frame K io (io'.onChannel fun c p => p.updateChannel { c with events := g c.events }) := by
  refine h.trans ⟨?_, ?_, ⟨[], by simp, by simp⟩, fun hc => ?_, fun hc => ?_, fun hc => ?_⟩
  · exact Channel.updateChannel_this _ _
  · exact Channel.updateChannel_fd _ _
  all_goals
    have hu := updated (c := { io'.conn.channel with events := g io'.conn.channel.events })
      (e := io'.conn.channel.events) hc
  · exact hu.coherent
  · exact hu.frame
  · exact hu.failed

theorem remove (h : Frame K io io') : Frame K io (io'.onChannel Channel.remove) :=
  h.trans ⟨rfl, rfl, ⟨[], by simp, by simp⟩, fun hc => (removed hc).coherent,
    fun hc => (removed hc).frame, fun hc => (removed hc).failed⟩

theorem tie (h : Frame K io io') : Frame K io io'.tie :=
  h.trans ⟨rfl, rfl, ⟨[], by simp [Io.tie], by simp⟩, fun hc => ⟨hc.epoll, hc.channels⟩,
    fun _ => .refl _ _, fun _ => rfl⟩

theorem of_prim (h : Prim K io io') : Frame K io io' := by
  cases h with
  | emit he => exact (refl io).emit he
  | setState s => exact (refl io).setState s
  | setOutput b => exact (refl io).setOutput b
  | setInput b => exact (refl io).setInput b
  | update g => exact (refl io).update g
  | remove => exact (refl io).remove
  | tie => exact (refl io).tie

/-- **The frame of a member function** is that of its primitive steps. -/
theorem of_steps (h : Steps K io io') : Frame K io io' := by
  induction h with
  | refl => exact refl io
  | tail _ hp ih => exact ih.trans (of_prim hp)

end Frame

theorem Steps.prefix_trace {K : Event → Prop} (h : Steps K io io') : io.trace <+: io'.trace :=
  (Frame.of_steps h).prefix_trace

/-! ### The state -/

@[simp] theorem queueWriteComplete_conn (io : Io) : io.queueWriteComplete.conn = io.conn := by
  unfold queueWriteComplete
  split <;> rfl

@[simp] theorem queueHighWaterMark_conn (n : ℕ) (io : Io) :
    (io.queueHighWaterMark n).conn = io.conn := by
  unfold queueHighWaterMark
  simp only
  split <;> rfl

@[simp] theorem writeDirect_conn (message : List UInt8) (env : SendEnv) (io : Io) :
    (io.writeDirect message env).1.conn = io.conn := by
  unfold writeDirect
  simp only
  split
  · split <;> simp
  · rfl

@[simp] theorem appendRemaining_state (message : List UInt8) (nwrote : ℕ) (io : Io) :
    (io.appendRemaining message nwrote).conn.state = io.conn.state := by
  unfold appendRemaining
  simp only
  split <;> simp

@[simp] theorem sendInLoop_state (message : List UInt8) (env : SendEnv) (io : Io) :
    (io.sendInLoop message env).conn.state = io.conn.state := by
  unfold sendInLoop
  simp only
  split
  · rfl
  · split <;> split <;> simp

@[simp] theorem shutdownInLoop_conn (io : Io) : io.shutdownInLoop.conn = io.conn := by
  unfold shutdownInLoop
  split <;> rfl

@[simp] theorem drained_state (io : Io) : io.drained.conn.state = io.conn.state := by
  unfold drained
  simp only
  split <;> simp

@[simp] theorem handleWrite_state (ret : IoRet) (io : Io) :
    (io.handleWrite ret).conn.state = io.conn.state := by
  unfold handleWrite
  split
  · simp only
    split
    · split
      · split <;> simp
      · rfl
    · rfl
  · rfl

/-! ### A registered channel stays registered while it is only written to -/

theorem appendRemaining_index {message : List UInt8} {nwrote : ℕ}
    (h : io.conn.channel.index = .kAdded) :
    (io.appendRemaining message nwrote).conn.channel.index = .kAdded := by
  unfold appendRemaining
  simp only
  split
  · simpa using h
  · refine Channel.updateChannel_index _ _ (by simpa using h) ?_
    simp [Events.or, kWriteEvent, kNoneEvent]

theorem sendInLoop_index {message : List UInt8} {env : SendEnv}
    (h : io.conn.channel.index = .kAdded) :
    (io.sendInLoop message env).conn.channel.index = .kAdded := by
  unfold sendInLoop
  simp only
  split
  · exact h
  · split <;> split
    · exact appendRemaining_index (by simpa using h)
    · simpa using h
    · exact appendRemaining_index h
    · exact h

theorem act_index (a : UserAct) (h : io.conn.channel.index = .kAdded) :
    (io.act a).conn.channel.index = .kAdded := by
  cases a with
  | send message env =>
    simp only [act, send]
    split
    · exact sendInLoop_index h
    · exact h
  | shutdown =>
    simp only [act, shutdown]
    split
    · simpa using h
    · exact h
  | retrieve len => exact h

/-! ### User code on a connection that is not connected -/

/-- `send` and `shutdown` do nothing there: only the input buffer may change. -/
theorem user_of_ne (io : Io) (acts : List UserAct) (h : io.conn.state ≠ .kConnected) :
    ∃ b, io.user acts = io.setInput b := by
  refine user_keeps (P := fun io' => ∃ b, io' = io.setInput b) ?_ ⟨io.conn.inputBuffer, rfl⟩
  rintro _ a - ⟨b, rfl⟩
  cases a with
  | send message env => exact ⟨b, if_neg h⟩
  | shutdown => exact ⟨b, if_neg h⟩
  | retrieve len => exact ⟨_, rfl⟩

/-- `setState(kDisconnected)`, `disableAll()` and `connectionCallback`, in `handleClose` and in
`connectDestroyed`. -/
def closed (io : Io) : Io :=
  ((io.setState .kDisconnected).onChannel Channel.disableAll).emit (.connectionCallback false)

theorem coherent_closed (hc : Coherent io.poller io.conn.channel) :
    Coherent io.closed.poller io.closed.conn.channel :=
  (Frame.of_steps (((Steps.refl io).setState .kDisconnected).disableAll
    (K := fun _ => True))).coherent hc

theorem handleClose_eq (acts : List UserAct) (io : Io) :
    ∃ b, io.handleClose acts = (io.closed.setInput b).emit .closeCallback := by
  obtain ⟨b, hb⟩ := user_of_ne io.closed acts (by simp [closed])
  exact ⟨b, congrArg (emit .closeCallback) hb⟩

theorem connectDestroyed_eq (acts : List UserAct) (io : Io) :
    ∃ b, io.connectDestroyed acts =
      (if io.conn.state = .kConnected then io.closed.setInput b else io).onChannel Channel.remove := by
  obtain ⟨b, hb⟩ := user_of_ne io.closed acts (by simp [closed])
  refine ⟨b, ?_⟩
  unfold connectDestroyed
  by_cases h : io.conn.state = .kConnected
  · simp only [if_pos h]
    exact congrArg (onChannel Channel.remove) hb
  · simp only [if_neg h]

/-! ### What the handlers keep -/

/-- `P` is kept by the calls of user code, by a close, by `handleWrite`, and by the changes that come
with them: of the input buffer, of the registration, of what is reported, of the callbacks invoked. -/
structure Handled (P : Io → Prop) : Prop where
  act : ∀ (io : Io) (a : UserAct), P io → P (io.act a)
  closed : ∀ io : Io, P io → P io.closed
  handleWrite : ∀ (io : Io) ret, P io → P (io.handleWrite ret)
  setInput : ∀ (io : Io) b, P io → P (io.setInput b)
  emit : ∀ (io : Io) e, e = .messageCallback ∨ e = .closeCallback → P io → P (io.emit e)
  remove : ∀ io : Io, P io → P (io.onChannel Channel.remove)
  report : ∀ (io : Io) revents, P io →
    P (io.onChannel fun c p => (p, { c with revents := revents }))

namespace Handled

variable {P : Io → Prop}

theorem user (h : Handled P) (hP : P io) (acts : List UserAct) : P (io.user acts) :=
  user_keeps (fun io a _ hP => h.act io a hP) hP

theorem handleClose (h : Handled P) (hP : P io) (acts : List UserAct) : P (io.handleClose acts) := by
  obtain ⟨b, hb⟩ := handleClose_eq acts io
  rw [hb]
  exact h.emit _ _ (.inr rfl) (h.setInput _ b (h.closed io hP))

theorem handleRead (h : Handled P) (hP : P io) (ret : ReadRet) (acts : List UserAct) :
    P (io.handleRead ret acts) := by
  cases ret with
  | err e => exact hP
  | ok data =>
    have h1 := h.setInput io
      (io.conn.inputBuffer.readFd (data.take io.conn.inputBuffer.val.offered)) hP
    simp only [Io.handleRead]
    split
    · exact h.handleClose h1 acts
    · exact h.user (h.emit _ _ (.inl rfl) h1) acts

theorem callback (h : Handled P) (hP : P io) (cb : Callback) (env : CallbackEnv) :
    P (io.callback cb env) := by
  cases cb with
  | close => exact h.handleClose hP env.acts
  | error => exact hP
  | read => exact h.handleRead hP env.read env.acts
  | write => exact h.handleWrite io env.write hP

theorem handleEventWithGuard (h : Handled P) (hP : P io) (env : Callback → CallbackEnv) :
    P (io.handleEventWithGuard env) :=
  dispatch_keeps (fun _ cb hP => h.callback hP cb (env cb)) hP

theorem connectDestroyed (h : Handled P) (hP : P io) (acts : List UserAct) :
    P (io.connectDestroyed acts) := by
  obtain ⟨b, hb⟩ := connectDestroyed_eq acts io
  rw [hb]
  split
  · exact h.remove _ (h.setInput _ b (h.closed io hP))
  · exact h.remove _ hP

end Handled

/-! ### What a connection keeps until it is closed -/

/-- From `io` to `io'` nothing is sent, nor is a closed connection opened: callbacks are invoked,
`shutdownWrite` is called, the state or the input buffer changes. -/
structure Quiet (io io' : Io) : Prop where
  trace : ∃ evs, io'.trace = io.trace ++ evs ∧
    ∀ e ∈ evs, e.IsCallback = true ∨ ∃ b, e = .shutdownWrite b
  writing : io'.conn.channel.isWriting = io.conn.channel.isWriting
  output : io'.conn.outputBuffer = io.conn.outputBuffer
  writeComplete : io'.conn.writeCompleteCallback = io.conn.writeCompleteCallback
  opened : io'.conn.state ≠ .kDisconnected → io.conn.state ≠ .kDisconnected

namespace Quiet

theorem refl (io : Io) : Quiet io io := ⟨⟨[], by simp, by simp⟩, rfl, rfl, rfl, id⟩

theorem trans (h : Quiet io io') (h' : Quiet io' io'') : Quiet io io'' where
  trace := by
    obtain ⟨s, hs, hes⟩ := h.trace
    obtain ⟨t, ht, het⟩ := h'.trace
    refine ⟨s ++ t, by rw [ht, hs, List.append_assoc], fun e he => ?_⟩
    exact (List.mem_append.mp he).elim (hes e) (het e)
  writing := h'.writing.trans h.writing
  output := h'.output.trans h.output
  writeComplete := h'.writeComplete.trans h.writeComplete
  opened hs := h.opened (h'.opened hs)

theorem setState {s : StateE} (h : io.conn.state ≠ .kDisconnected) : Quiet io (io.setState s) :=
  ⟨⟨[], by simp, by simp⟩, rfl, rfl, rfl, fun _ => h⟩

theorem setInput (io : Io) (b : ValidBuffer) : Quiet io (io.setInput b) :=
  ⟨⟨[], by simp, by simp⟩, rfl, rfl, rfl, id⟩

theorem callback (io : Io) {e : Event} (he : e.IsCallback = true) : Quiet io (io.emit e) :=
  ⟨⟨[e], rfl, by simp [he]⟩, rfl, rfl, rfl, id⟩

theorem shutdownInLoop (io : Io) : Quiet io io.shutdownInLoop := by
  unfold Io.shutdownInLoop
  split
  · exact .refl io
  · exact ⟨⟨[.shutdownWrite _], rfl, by simp⟩, rfl, rfl, rfl, id⟩

theorem shutdown (io : Io) : Quiet io io.shutdown := by
  unfold Io.shutdown
  split
  next hc => exact (setState (by simp [hc])).trans (.shutdownInLoop _)
  next => exact .refl io

theorem remove (io : Io) : Quiet io (io.onChannel Channel.remove) :=
  ⟨⟨[], by simp, by simp⟩, rfl, rfl, rfl, id⟩

theorem prefix_trace (h : Quiet io io') : io.trace <+: io'.trace := by
  obtain ⟨evs, ht, -⟩ := h.trace
  exact ⟨evs, ht.symm⟩

end Quiet

/-- `P` says nothing of a closed connection, and quiet steps, `sendInLoop` and `handleWrite` keep it. -/
structure Kept (P : Io → Prop) : Prop where
  closed : ∀ io : Io, io.conn.state = .kDisconnected → P io
  quiet : ∀ io io' : Io, Quiet io io' → P io → P io'
  sendInLoop : ∀ (io : Io) message env, P io → P (io.sendInLoop message env)
  handleWrite : ∀ (io : Io) ret, P io → P (io.handleWrite ret)

namespace Kept

variable {P : Io → Prop}

theorem act (h : Kept P) (hP : P io) (a : UserAct) : P (io.act a) := by
  cases a with
  | send message env =>
    simp only [Io.act, send]
    split
    · exact h.sendInLoop io message env hP
    · exact hP
  | shutdown => exact h.quiet _ _ (.shutdown io) hP
  | retrieve len => exact h.quiet _ _ (.setInput io _) hP

theorem handled (h : Kept P) : Handled P where
  act io a hP := h.act hP a
  closed io _ := h.closed _ rfl
  handleWrite io ret hP := h.handleWrite io ret hP
  setInput io b hP := h.quiet _ _ (.setInput io b) hP
  emit io e he hP := h.quiet _ _ (.callback io (by rcases he with rfl | rfl <;> rfl)) hP
  remove io hP := h.quiet _ _ (.remove io) hP
  report io revents hP := h.quiet io _ ⟨⟨[], by simp, by simp⟩, rfl, rfl, rfl, id⟩ hP

theorem connectEstablished (h : Kept P) (hP : P io) (hs : io.conn.state ≠ .kDisconnected)
    (acts : List UserAct) : P (io.connectEstablished acts) := by
  refine h.handled.user (h.quiet _ _ (.trans ?_ (.callback _ rfl)) hP) acts
  exact ⟨⟨[], by simp [tie], by simp⟩, Channel.isWriting_enableReading _ _, rfl, rfl, fun _ => hs⟩

end Kept

end Io

end Mymuduo
