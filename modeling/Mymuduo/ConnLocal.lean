import Mymuduo.TcpConnection

/-!
# Mymuduo.ConnLocal — a connection does not depend on the others of its loop

The connections of a loop share its poller.  But what a member function does to its connection, and what
it shows at the border, depends on the connection alone: from one connection in front of two pollers it
comes to one connection again, and adds the same events to both traces (`Alike`).
-/

namespace Mymuduo

namespace Io

/-- One connection in front of two pollers; the trace of `io'` is that of `io` behind `t`. -/
structure Alike (t : List Event) (io io' : Io) : Prop where
  conn : io'.conn = io.conn
  trace : io'.trace = t ++ io.trace

namespace Alike

variable {t : List Event} {io io' : Io}

/-! ### Primitive steps -/

theorem emit (h : Alike t io io') (e : Event) : Alike t (io.emit e) (io'.emit e) :=
  ⟨h.conn, by rw [emit_trace, emit_trace, h.trace, List.append_assoc]⟩

theorem setState (h : Alike t io io') (s : StateE) : Alike t (io.setState s) (io'.setState s) :=
  ⟨by simp only [Io.setState, h.conn], h.trace⟩

theorem setOutput (h : Alike t io io') (b : ValidBuffer) :
    Alike t (io.setOutput b) (io'.setOutput b) :=
  ⟨by simp only [Io.setOutput, h.conn], h.trace⟩

theorem setInput (h : Alike t io io') (b : ValidBuffer) : Alike t (io.setInput b) (io'.setInput b) :=
  ⟨by simp only [Io.setInput, h.conn], h.trace⟩

/-- An operation whose effect on the channel is the same with every poller. -/
theorem onChannel (h : Alike t io io') {f : Channel → EPollerPoller → EPollerPoller × Channel}
    (hf : ∀ c p p', (f c p).2 = (f c p').2) : Alike t (io.onChannel f) (io'.onChannel f) :=
  ⟨by simp only [Io.onChannel, h.conn, hf io.conn.channel io'.poller io.poller], h.trace⟩

/-- The new index does not depend on what `epoll_ctl` says. -/
theorem updateChannel_channel (c : Channel) (p p' : EPollerPoller) :
    (p.updateChannel c).2 = (p'.updateChannel c).2 := by
  unfold EPollerPoller.updateChannel
  split
  · rfl
  · split <;> rfl

theorem enableReading (h : Alike t io io') :
    Alike t (io.onChannel Channel.enableReading) (io'.onChannel Channel.enableReading) :=
  h.onChannel fun _ => updateChannel_channel _

theorem enableWriting (h : Alike t io io') :
    Alike t (io.onChannel Channel.enableWriting) (io'.onChannel Channel.enableWriting) :=
  h.onChannel fun _ => updateChannel_channel _

theorem disableWriting (h : Alike t io io') :
    Alike t (io.onChannel Channel.disableWriting) (io'.onChannel Channel.disableWriting) :=
  h.onChannel fun _ => updateChannel_channel _

theorem disableAll (h : Alike t io io') :
    Alike t (io.onChannel Channel.disableAll) (io'.onChannel Channel.disableAll) :=
  h.onChannel fun _ => updateChannel_channel _

theorem remove (h : Alike t io io') :
    Alike t (io.onChannel Channel.remove) (io'.onChannel Channel.remove) :=
  h.onChannel fun _ _ _ => rfl

theorem tie (h : Alike t io io') : Alike t io.tie io'.tie := h.onChannel fun _ _ _ => rfl

/-- A branch on the connection is taken in both. -/
theorem ite (h : Alike t io io') {p : TcpConnection → Prop} [DecidablePred p] {a b a' b' : Io}
    (ha : p io.conn → Alike t a a') (hb : ¬ p io.conn → Alike t b b') :
    Alike t (if p io.conn then a else b) (if p io'.conn then a' else b') := by
  rw [h.conn]
  split
  next hp => exact ha hp
  next hp => exact hb hp

/-! ### Sending and shutting down -/

theorem queueWriteComplete (h : Alike t io io') :
    Alike t io.queueWriteComplete io'.queueWriteComplete :=
  h.ite (p := fun c => c.writeCompleteCallback = true) (fun _ => h.emit _) fun _ => h

theorem queueHighWaterMark (h : Alike t io io') (remaining : ℕ) :
    Alike t (io.queueHighWaterMark remaining) (io'.queueHighWaterMark remaining) := by
  unfold Io.queueHighWaterMark
  rw [h.conn]
  simp only
  split
  · exact h.emit _
  · exact h

/-- The direct write takes both as far, and finds the same error. -/
theorem writeDirect (h : Alike t io io') (message : List UInt8) (env : SendEnv) :
    Alike t (io.writeDirect message env).1 (io'.writeDirect message env).1 ∧
      (io'.writeDirect message env).2 = (io.writeDirect message env).2 := by
  have h1 := h.emit (.directWrite message (env.write.of message) env.logErrno)
  unfold Io.writeDirect
  simp only
  cases hret : env.write.of message with
  | ok n =>
    rw [hret] at h1
    refine ⟨?_, rfl⟩
    simp only
    split
    · exact h1.queueWriteComplete
    · exact h1
  | err e =>
    rw [hret] at h1
    exact ⟨h1, rfl⟩

theorem appendRemaining (h : Alike t io io') (message : List UInt8) (nwrote : ℕ) :
    Alike t (io.appendRemaining message nwrote) (io'.appendRemaining message nwrote) := by
  have h1 := h.queueHighWaterMark (message.length - nwrote)
  have h2 := h1.setOutput
    ((io.queueHighWaterMark (message.length - nwrote)).conn.outputBuffer.append
      (message.drop nwrote))
  unfold Io.appendRemaining
  simp only [h1.conn]
  exact h2.ite (p := fun c => c.channel.isWriting = true) (fun _ => h2) fun _ => h2.enableWriting

theorem sendInLoop (h : Alike t io io') (message : List UInt8) (env : SendEnv) :
    Alike t (io.sendInLoop message env) (io'.sendInLoop message env) := by
  have h0 := h.emit (.sendInLoop message)
  obtain ⟨h1, hr⟩ := h0.writeDirect message env
  unfold Io.sendInLoop
  simp only
  refine h0.ite (p := fun c => c.state = .kDisconnected) (fun _ => h0) fun _ => ?_
  rw [h0.conn]
  split
  · rw [hr]
    split
    · exact h1.appendRemaining message _
    · exact h1
  · split
    · exact h0.appendRemaining message _
    · exact h0

theorem shutdownInLoop (h : Alike t io io') : Alike t io.shutdownInLoop io'.shutdownInLoop := by
  have h1 := h.emit (.shutdownWrite io.conn.outputBuffer.readable)
  unfold Io.shutdownInLoop
  rw [h.conn]
  split
  · exact h
  · exact h1

/-! ### User code -/

theorem act (h : Alike t io io') (a : UserAct) : Alike t (io.act a) (io'.act a) := by
  cases a with
  | send message env =>
    exact h.ite (p := fun c => c.state = .kConnected) (fun _ => h.sendInLoop message env) fun _ => h
  | shutdown =>
    exact h.ite (p := fun c => c.state = .kConnected)
      (fun _ => (h.setState .kDisconnecting).shutdownInLoop) fun _ => h
  | retrieve len =>
    have h1 := h.setInput (io.conn.inputBuffer.retrieve len)
    simp only [Io.act, h.conn]
    exact h1

theorem user (h : Alike t io io') (acts : List UserAct) : Alike t (io.user acts) (io'.user acts) := by
  unfold Io.user
  induction acts generalizing io io' with
  | nil => exact h
  | cons a acts ih => exact ih (h.act a)

theorem callConnection (h : Alike t io io') (acts : List UserAct) :
    Alike t (io.callConnection acts) (io'.callConnection acts) := by
  unfold Io.callConnection
  rw [h.conn]
  exact (h.emit _).user acts

/-! ### Beginning and end -/

theorem connectEstablished (h : Alike t io io') (acts : List UserAct) :
    Alike t (io.connectEstablished acts) (io'.connectEstablished acts) :=
  ((h.setState .kConnected).tie).enableReading.callConnection acts

theorem connectDestroyed (h : Alike t io io') (acts : List UserAct) :
    Alike t (io.connectDestroyed acts) (io'.connectDestroyed acts) :=
  (h.ite (p := fun c => c.state = .kConnected)
    (fun _ => (h.setState .kDisconnected).disableAll.callConnection acts) fun _ => h).remove

theorem handleClose (h : Alike t io io') (acts : List UserAct) :
    Alike t (io.handleClose acts) (io'.handleClose acts) :=
  ((h.setState .kDisconnected).disableAll.callConnection acts).emit _

/-! ### Events -/

theorem handleRead (h : Alike t io io') (ret : ReadRet) (acts : List UserAct) :
    Alike t (io.handleRead ret acts) (io'.handleRead ret acts) := by
  cases ret with
  | err e => exact h
  | ok data =>
    have h1 := h.setInput
      (io.conn.inputBuffer.readFd (data.take io.conn.inputBuffer.val.offered))
    simp only [Io.handleRead, h.conn]
    split
    · exact h1.handleClose acts
    · exact (h1.emit _).user acts

theorem drained (h : Alike t io io') : Alike t io.drained io'.drained := by
  have h1 := h.disableWriting.queueWriteComplete
  exact h1.ite (p := fun c => c.state = .kDisconnecting) (fun _ => h1.shutdownInLoop) fun _ => h1

theorem handleWrite (h : Alike t io io') (ret : IoRet) :
    Alike t (io.handleWrite ret) (io'.handleWrite ret) := by
  have h1 := h.emit
    (.write io.conn.outputBuffer.readable (ret.of io.conn.outputBuffer.readable))
  refine h.ite (p := fun c => c.channel.isWriting = true) (fun _ => ?_) fun _ => h
  simp only [h.conn]
  cases hret : ret.of io.conn.outputBuffer.readable with
  | err e =>
    rw [hret] at h1
    exact h1
  | ok n =>
    rw [hret] at h1
    simp only [h1.conn]
    have h2 := h1.setOutput
      ((io.emit (.write io.conn.outputBuffer.readable (.ok n))).conn.outputBuffer.retrieve n)
    split
    · exact h2.ite (p := fun c => c.outputBuffer.readableBytes = 0) (fun _ => h2.drained) fun _ => h2
    · exact h1

theorem callback (h : Alike t io io') (cb : Callback) (env : CallbackEnv) :
    Alike t (io.callback cb env) (io'.callback cb env) := by
  cases cb with
  | close => exact h.handleClose env.acts
  | error => exact h
  | read => exact h.handleRead env.read env.acts
  | write => exact h.handleWrite env.write

theorem handleEventWithGuard (h : Alike t io io') (env : Callback → CallbackEnv) :
    Alike t (io.handleEventWithGuard env) (io'.handleEventWithGuard env) := by
  unfold Io.handleEventWithGuard
  rw [h.conn]
  generalize callbacks io.conn.channel.revents = cbs
  induction cbs generalizing io io' with
  | nil => exact h
  | cons cb cbs ih => exact ih (h.callback cb (env cb))

end Alike

end Io

end Mymuduo
