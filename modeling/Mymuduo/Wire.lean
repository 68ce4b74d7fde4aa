import Mymuduo.GracefulShutdown
import Mymuduo.SendCapture

/-!
# Mymuduo.Wire — what the member functions put on the wire

The wire is what the kernel has accepted, followed by what is buffered.  In whatever state the
connection is, `sendInLoop` puts a message on it as a whole or not at all (`puts_sendInLoop`), and no
other member function puts anything on it or takes anything off (`Flows`).
-/

namespace Mymuduo

open Lib

namespace Io

/-- The output stream: the bytes the kernel has accepted and those still buffered. -/
def wire (io : Io) : List UInt8 := accepted io.trace ++ io.conn.outputBuffer.readable

variable {io io' io'' : Io}

/-! ### The wire through `sendInLoop` -/

/-- Silent events in front of an unchanged buffer. -/
theorem wire_of_silent {evs : List Event} (h : Silent evs) (ht : io'.trace = io.trace ++ evs)
    (hb : io'.conn.outputBuffer = io.conn.outputBuffer) : io'.wire = io.wire := by
  unfold Io.wire
  rw [ht, hb, accepted_append, h.accepted, List.append_nil]

/-- From `io` to `io'` the events are `evs`, without `shutdownWrite`, and `bytes` are put on the
wire. -/
structure Puts (io : Io) (evs : List Event) (bytes : List UInt8) (io' : Io) : Prop where
  trace : io'.trace = io.trace ++ evs
  wire : io'.wire = io.wire ++ bytes
  fin : ∀ b, .shutdownWrite b ∉ evs

/-- On a connection that is not closed the whole message goes on the wire, or nothing of it because
a write has failed. -/
theorem puts_sendInLoop (message : List UInt8) (env : SendEnv) (hs : io.conn.state ≠ .kDisconnected) :
    ∃ evs bytes, io.Puts evs bytes (io.sendInLoop message env) ∧
      (bytes = message ∨ bytes = [] ∧ ¬ Clean (io.sendInLoop message env).trace) := by
  obtain ⟨evs, rest, h, hb⟩ := sendInLoop_cases message env hs
  rcases h.whole_or_dropped with ⟨-, he⟩ | ⟨e, rfl, rfl, -, hm, he, hlog⟩
  · refine ⟨_, message, ⟨hb.trace, ?_, h.shutdownWrite_not_mem⟩, .inl rfl⟩
    unfold wire
    rw [hb.trace, hb.output, accepted_append, accepted_cons, List.append_assoc, List.append_assoc,
      List.append_assoc, he]
    rfl
  · refine ⟨_, [], ⟨hb.trace, ?_, h.shutdownWrite_not_mem⟩, .inr ⟨rfl, fun hcl => hcl.2 ?_⟩⟩
    · simp [wire, hb.trace, hb.output, Event.accepted]
    · rw [hb.trace] at hcl ⊢
      refine ⟨.directWrite message (.err e) env.logErrno, by simp, hm, he, ?_, hlog⟩
      exact hcl.1 (.directWrite message (.err e) env.logErrno) (by simp)

/-! ### The wire through the other member functions -/

/-- The user has been told that the connection is closed. -/
def CloseSeen (trace : List Event) : Prop := .connectionCallback false ∈ trace

/-- The connection is open and its stream is in order (`OutputStream`). -/
def Streaming (io : Io) : Prop := io.conn.state ≠ .kDisconnected ∧ io.StreamInv

/-- From `io` to `io'` the events are `evs`, and `bytes` are put on the wire; an open connection stays
open until it is closed, and `shutdownWrite` finds the whole wire at the kernel. -/
structure Flows (io : Io) (evs : List Event) (bytes : List UInt8) (io' : Io) : Prop where
  trace : io'.trace = io.trace ++ evs
  wire : io'.wire = io.wire ++ bytes
  keeps : io.Streaming → ¬ CloseSeen evs → io'.Streaming
  fin : io.Streaming → ∀ pre b post, evs = pre ++ .shutdownWrite b :: post → Clean (io.trace ++ pre) →
    b = [] ∧ accepted (io.trace ++ pre) = io'.wire

namespace Flows

variable {evs : List Event} {bytes : List UInt8}

theorem of_puts (h : io.Puts evs bytes io') (ho : io.Streaming → ¬ CloseSeen evs → io'.Streaming) :
    io.Flows evs bytes io' :=
  ⟨h.trace, h.wire, ho, fun _ pre b post he => absurd (by simp [he]) (h.fin b)⟩

/-- Callbacks do not move the wire. -/
theorem of_callbacks (hcb : ∀ e ∈ evs, e.IsCallback = true) (ht : io'.trace = io.trace ++ evs)
    (hb : io'.conn.outputBuffer = io.conn.outputBuffer)
    (ho : io.Streaming → ¬ CloseSeen evs → io'.Streaming) : io.Flows evs [] io' := by
  have ha : accepted evs = [] := by
    unfold accepted
    refine List.flatMap_eq_nil_iff.mpr fun e he => ?_
    exact (List.append_nil e.accepted).symm.trans (silent_callback (hcb e he)).accepted
  refine of_puts ⟨ht, ?_, fun b hm => absurd (hcb _ hm) (by simp [Event.IsCallback])⟩ ho
  unfold Io.wire
  rw [ht, hb, accepted_append, ha, List.append_nil, List.append_nil]

theorem refl (io : Io) : io.Flows [] [] io :=
  of_callbacks (by simp) (by simp) rfl fun ho _ => ho

theorem setState {s : StateE} (hs : s ≠ .kDisconnected) : io.Flows [] [] (io.setState s) :=
  of_callbacks (by simp) (by simp) rfl fun ho _ =>
    ⟨hs, fun hf _ => (ho.2 hf ho.1).of_silent silent_nil (by simp) rfl rfl⟩

theorem setInput (b : ValidBuffer) : io.Flows [] [] (io.setInput b) :=
  of_callbacks (by simp) (by simp) rfl fun ho _ =>
    ⟨ho.1, fun hf hd => (ho.2 hf hd).of_silent silent_nil (by simp) rfl rfl⟩

theorem trans_nil (h : io.Flows [] [] io') (h' : io'.Flows evs bytes io'') :
    io.Flows evs bytes io'' := by
  have ht := h.trace
  have hw := h.wire
  rw [List.append_nil] at ht hw
  have ho : io.Streaming → io'.Streaming := fun ho => h.keeps ho (by simp [CloseSeen])
  exact ⟨ht ▸ h'.trace, hw ▸ h'.wire, fun h0 => h'.keeps (ho h0), fun h0 => ht ▸ h'.fin (ho h0)⟩

theorem shutdownInLoop (io : Io) : ∃ evs, io.Flows evs [] io.shutdownInLoop := by
  have hopen : io.Streaming → io.shutdownInLoop.Streaming := fun ho =>
    ⟨by simpa using ho.1, kept_streamInv.quiet _ _ (.shutdownInLoop _) ho.2⟩
  cases hw : io.conn.channel.isWriting with
  | true =>
    have he : io.shutdownInLoop = io := by simp [Io.shutdownInLoop, hw]
    rw [he]
    exact ⟨[], refl io⟩
  | false =>
    have he : io.shutdownInLoop = io.emit (.shutdownWrite io.conn.outputBuffer.readable) := by
      simp [Io.shutdownInLoop, hw]
    rw [he] at hopen ⊢
    have hwire : (io.emit (.shutdownWrite io.conn.outputBuffer.readable)).wire = io.wire :=
      wire_of_silent (silent_shutdownWrite _) rfl rfl
    refine ⟨[.shutdownWrite io.conn.outputBuffer.readable], rfl, by rw [hwire, List.append_nil],
      fun ho _ => hopen ho, fun ho pre b post hsplit hc => ?_⟩
    obtain ⟨rfl, rfl, -⟩ : pre = [] ∧ b = io.conn.outputBuffer.readable ∧ post = [] := by
      simpa [List.cons_eq_append_iff] using hsplit
    rw [List.append_nil] at hc ⊢
    -- write interest is off, so nothing is buffered
    have hr : io.conn.outputBuffer.readable = [] := by
      simpa [Interest, hw] using (ho.2 hc.1 ho.1).1
    exact ⟨hr, by rw [hwire, Io.wire, hr, List.append_nil]⟩

/-- `shutdown`, past its test. -/
theorem shutdown (hs : io.conn.state = .kConnected) : ∃ evs, io.Flows evs [] io.shutdown := by
  rw [Io.shutdown, if_pos hs]
  obtain ⟨evs, h⟩ := shutdownInLoop (io.setState .kDisconnecting)
  exact ⟨evs, trans_nil (setState (by simp)) h⟩

/-- `sendInLoop` of bytes found in memory: they go on the wire, or the message is given up because the
connection is closed or a write has failed. -/
theorem sendInLoopAt {mem : Memory} {f : SendFunctor} {env : SendEnv}
    (h : io.sendInLoopAt mem f env = some io') {put : Option (List UInt8)}
    (hput : put = (mem.read f.message f.len).filter fun bytes => io'.wire = io.wire ++ bytes) :
    ∃ evs, io.Flows evs (put.getD []) io' ∧ (∀ b, .shutdownWrite b ∉ evs) ∧
      (io.Streaming → Clean io'.trace → put.isSome) := by
  unfold Io.sendInLoopAt at h
  split at h
  next hs =>
    obtain rfl := Option.some.inj h
    have hnil : put.getD [] = [] := by
      rw [hput]
      cases hm : mem.read f.message f.len with
      | none => rfl
      | some bytes =>
        by_cases hb : bytes = [] <;> simp [Option.filter, hb]
    rw [hnil]
    exact ⟨[], refl io, by simp, fun ho => absurd hs ho.1⟩
  next hs =>
    obtain ⟨message, hm, rfl⟩ := Option.map_eq_some_iff.mp h
    obtain ⟨evs, bytes, hp, hcase⟩ := puts_sendInLoop message env hs
    have hgd : put.getD [] = bytes ∧ (Clean (io.sendInLoop message env).trace → put.isSome) := by
      rw [hput, hm, hp.wire]
      rcases hcase with rfl | ⟨rfl, hc⟩
      · simp [Option.filter]
      · refine ⟨?_, fun h => absurd h hc⟩
        by_cases hb : message = [] <;> simp [Option.filter, hb]
    rw [hgd.1]
    refine ⟨evs, of_puts hp fun ho _ => ⟨?_, streamInv_sendInLoop message env ho.2⟩, hp.fin,
      fun _ => hgd.2⟩
    simpa using hs

/-- `handleWrite` takes bytes from the buffer to the kernel; `shutdownWrite` comes when none is left. -/
theorem handleWrite (ret : IoRet) (io : Io) : ∃ evs, io.Flows evs [] (io.handleWrite ret) := by
  have hopen : io.Streaming → (io.handleWrite ret).Streaming := fun ho =>
    ⟨by simpa using ho.1, streamInv_handleWrite ret ho.2⟩
  cases hw : io.conn.channel.isWriting with
  | false =>
    have he : io.handleWrite ret = io := by simp [Io.handleWrite, hw]
    rw [he]
    exact ⟨[], refl io⟩
  | true =>
    obtain ⟨notes, fin, h⟩ := handleWrite_cases ret hw rfl
    set q := io.conn.outputBuffer.readable with hq
    have hwire : (io.handleWrite ret).wire = io.wire := by
      unfold Io.wire
      rw [h.trace, List.cons_append, accepted_append, accepted_cons, h.silent.accepted,
        List.append_nil, List.append_assoc, h.stream]
    refine ⟨_, h.trace, by rw [hwire, List.append_nil], fun ho _ => hopen ho,
      fun _ pre b post hsplit _ => ?_⟩
    rcases h.fin_cases with rfl | ⟨rfl, hr⟩
    · rw [List.append_nil] at hsplit
      exact absurd (by simp [hsplit]) (h.shutdownWrite_not_mem b)
    · rcases eq_concat_cons hsplit with ⟨rfl, hb, rfl⟩ | ⟨post', -, hpre⟩
      · cases hb
        refine ⟨rfl, ?_⟩
        rw [Io.wire, hr, h.trace]
        simp [Event.accepted]
      · exact absurd (by simp [hpre]) (h.shutdownWrite_not_mem b)

theorem connectDestroyed (io : Io) : ∃ evs, io.Flows evs [] (io.connectDestroyed []) := by
  by_cases hs : io.conn.state = .kConnected
  · refine ⟨[.connectionCallback false], of_callbacks (by simp [Event.IsCallback]) ?_ ?_ fun _ hc => ?_⟩
    · simp [Io.connectDestroyed, hs, callConnection, user, TcpConnection.connected]
    · simp [Io.connectDestroyed, hs, callConnection, user]
    · exact absurd (by simp [CloseSeen]) hc
  · have he : io.connectDestroyed [] = io.onChannel Channel.remove := by
      simp [Io.connectDestroyed, hs]
    rw [he]
    exact ⟨[], of_callbacks (by simp) (by simp) rfl fun ho _ =>
      ⟨ho.1, fun hf hd => (ho.2 hf hd).of_silent silent_nil (by simp) rfl rfl⟩⟩

theorem handleClose (io : Io) : ∃ evs, io.Flows evs [] (io.handleClose []) :=
  ⟨[.connectionCallback false, .closeCallback], of_callbacks (by simp [Event.IsCallback])
    (by simp [Io.handleClose, callConnection, user, TcpConnection.connected])
    (by simp [Io.handleClose, callConnection, user])
    fun _ hc => absurd (by simp [CloseSeen]) hc⟩

theorem handleRead (ret : ReadRet) (io : Io) : ∃ evs, io.Flows evs [] (io.handleRead ret []) := by
  cases ret with
  | err e => exact ⟨[], refl io⟩
  | ok data =>
    simp only [Io.handleRead]
    split
    · obtain ⟨evs, h⟩ := handleClose
        (io.setInput (io.conn.inputBuffer.readFd (data.take io.conn.inputBuffer.val.offered)))
      exact ⟨evs, trans_nil (setInput _) h⟩
    · refine ⟨[.messageCallback], of_callbacks (by simp [Event.IsCallback]) rfl rfl fun ho _ => ⟨ho.1, ?_⟩⟩
      intro hf hd
      have hsil : Silent [.messageCallback] := silent_callback rfl
      exact (ho.2 (hf.of_isPrefix (List.prefix_append _ _)) hd).of_silent hsil rfl rfl rfl

theorem connectEstablished (io : Io) : ∃ evs, io.Flows evs [] (io.connectEstablished []) := by
  refine ⟨[.connectionCallback true], of_callbacks (by simp [Event.IsCallback]) ?_ rfl fun ho _ => ?_⟩
  · simp [Io.connectEstablished, callConnection, user, TcpConnection.connected, tie]
  · exact ⟨by simp [Io.connectEstablished, callConnection, user, tie],
      kept_streamInv.connectEstablished ho.2 ho.1 []⟩

end Flows

end Io

end Mymuduo
