import Mymuduo.ConnRun
import Mymuduo.SendSpec

/-!
# Mymuduo.OutputStream — the output stream of a connection loses and reorders nothing

Over every run of a connection that is not closed: the bytes the kernel has accepted, followed by the
bytes still buffered, are the bytes given to `sendInLoop`, in this order, unless a direct write was
clobbered (`SendSpec`); and write interest is on exactly while bytes are buffered.
-/

namespace Mymuduo

open Lib

namespace Io

variable {io io' : Io}

/-- The stream from the beginning of the connection. -/
def Stream (io : Io) : Prop :=
  io.Interest ∧ Passes [] io.trace io.conn.outputBuffer.readable

/-- The stream is kept as long as the connection is not closed and no write has failed with `EPIPE`
or `ECONNRESET`. -/
def StreamInv (io : Io) : Prop :=
  NoFault io.trace → io.conn.state ≠ .kDisconnected → io.Stream

theorem Sent.stream {evs : List Event} (h : io.Sent evs io') (hi : io'.Interest) (hs : io.Stream) :
    io'.Stream :=
  ⟨hi, h.trace ▸ hs.2.trans h.passes⟩

/-- A step that shows the stream nothing new. -/
theorem Stream.of_silent {evs : List Event} (h : io.Stream) (he : Silent evs)
    (ht : io'.trace = io.trace ++ evs)
    (hw : io'.conn.channel.isWriting = io.conn.channel.isWriting)
    (hb : io'.conn.outputBuffer = io.conn.outputBuffer) : io'.Stream := by
  refine ⟨?_, ?_⟩
  · rw [Interest, hw, hb]
    exact h.1
  · rw [ht, hb]
    exact h.2.trans (.of_silent he)

theorem silent_nil : Silent [] := ⟨rfl, rfl, not_clobbered_nil⟩

theorem streamInv_sendInLoop (message : List UInt8) (env : SendEnv) (h : io.StreamInv) :
    (io.sendInLoop message env).StreamInv := by
  intro hf hs
  by_cases hd : io.conn.state = .kDisconnected
  · refine absurd ?_ hs
    simp [sendInLoop, hd]
  · have hp := ((Steps.refl io).sendInLoop any_event message env).prefix_trace
    have hio := h (hf.of_isPrefix hp) hd
    obtain ⟨evs, hsent, hi, -⟩ := sendInLoop_sent message env hd hio.1 hf
    exact hsent.stream hi hio

theorem streamInv_handleWrite (ret : IoRet) (h : io.StreamInv) :
    (io.handleWrite ret).StreamInv := by
  intro hf hs
  rw [handleWrite_state] at hs
  have hio := h (hf.of_isPrefix ((Steps.refl io).handleWrite any_event ret).prefix_trace) hs
  obtain ⟨evs, fin, hsent, hi, -⟩ := handleWrite_sent ret hio.1
  exact hsent.stream hi hio

/-- Callbacks and `shutdownWrite` are no part of the stream. -/
theorem Quiet.silent (h : Quiet io io') : ∃ evs, io'.trace = io.trace ++ evs ∧ Silent evs := by
  obtain ⟨evs, ht, he⟩ := h.trace
  refine ⟨evs, ht, silent_of_forall fun e hm => ?_⟩
  rcases he e hm with hc | ⟨b, rfl⟩
  · exact silent_callback hc
  · exact silent_shutdownWrite b

theorem kept_streamInv : Kept StreamInv where
  closed io hd _ hs := absurd hd hs
  quiet io io' hq h hf hs := by
    obtain ⟨evs, ht, he⟩ := hq.silent
    exact (h (hf.of_isPrefix hq.prefix_trace) (hq.opened hs)).of_silent he ht hq.writing hq.output
  sendInLoop _ message env h := streamInv_sendInLoop message env h
  handleWrite _ ret h := streamInv_handleWrite ret h

end Io

namespace Conn

theorem streamInv_of_reach {s : Conn}
    (h : sys.Reach (fun s _ => s.io.conn.state ≠ .kDisconnected) s) : s.io.StreamInv := by
  refine h.invariant (I := fun s => s.io.StreamInv) (fun s hi _ _ => ?_)
    (fun s l s' hI hC hst => kept_step Io.kept_streamInv hI (fun _ => hC) (fun _ => hC) hst)
  obtain ⟨⟨this, fd, wc, hw, hc⟩, -, -, -, ht, -⟩ := hi
  rw [Io.Stream, Io.Interest, hc, ht]
  refine ⟨by simp [TcpConnection.new, Channel.new, Channel.isWriting_eq, Events.kNoneEvent], ?_⟩
  exact .of_exact not_clobbered_nil (by simp [TcpConnection.new])

/-- **Output stream integrity.**  Over every run, as long as the connection is not closed and no
write has failed with `EPIPE` or `ECONNRESET`: the stream is intact exactly when no direct write was
clobbered, and write interest is on exactly while bytes are buffered. -/
theorem output_stream {s : Conn} (h : sys.Reach (fun s _ => s.io.conn.state ≠ .kDisconnected) s)
    (hs : s.io.conn.state ≠ .kDisconnected) (hf : NoFault s.io.trace) :
    ((accepted s.io.trace ++ s.io.conn.outputBuffer.readable = submitted s.io.trace ∧
        s.io.Interest) ↔ ¬ Clobbered s.io.trace) ∧ s.io.Interest := by
  obtain ⟨hi, hp⟩ := streamInv_of_reach h hf hs
  refine ⟨⟨fun ⟨he, _⟩ hc => ?_, fun hc => ⟨?_, hi⟩⟩, hi⟩
  · have hl := hp.lost hc
    have := congrArg List.length he
    rw [List.length_append] at this
    simp only [List.length_nil] at hl
    omega
  · simpa using (hp.exact hc).symm

/-- The kernel takes two of three bytes; the last one is buffered. -/
theorem output_stream_partial :
    ∃ s : Conn, accepted s.io.trace = [1, 2] ∧ submitted s.io.trace = [1, 2, 3] ∧ s.io.Interest := by
  obtain ⟨s, hr, hs, hf, ha, hm⟩ := Sys.Reach.exists_of_execIf (M := sys) (s := fresh)
    (C := fun (s : Conn) (_ : Label) => s.io.conn.state ≠ .kDisconnected)
    (P := fun s => s.io.conn.state ≠ .kDisconnected ∧ NoFault s.io.trace ∧
      accepted s.io.trace = [1, 2] ∧ submitted s.io.trace = [1, 2, 3])
    (.init fresh_fresh) ([.connectEstablished [], .sendInLoop [1, 2, 3] ⟨.ok 2, 0⟩])
    (by decide +kernel)
  exact ⟨s, ha, hm, (output_stream hr hs hf).2⟩

/-- The write fails with `ENOBUFS` (105), `LOG_ERROR` leaves `EPIPE` in `errno`: the byte is gone. -/
theorem output_stream_clobbered :
    ¬ ∀ s : Conn, sys.Reach (fun s _ => s.io.conn.state ≠ .kDisconnected) s → s.established →
      s.io.conn.state ≠ .kDisconnected → NoFault s.io.trace →
        accepted s.io.trace ++ s.io.conn.outputBuffer.readable = submitted s.io.trace ∧
          s.io.Interest := by
  intro h
  obtain ⟨s, hr, he, hs, hf, hne⟩ := Sys.Reach.exists_of_execIf (M := sys) (s := fresh)
    (C := fun (s : Conn) (_ : Label) => s.io.conn.state ≠ .kDisconnected)
    (P := fun s => s.established ∧ s.io.conn.state ≠ .kDisconnected ∧ NoFault s.io.trace ∧
      accepted s.io.trace ++ s.io.conn.outputBuffer.readable ≠ submitted s.io.trace)
    (.init fresh_fresh) ([.connectEstablished [], .sendInLoop [1] ⟨.err 105, EPIPE⟩])
    (by decide +kernel)
  exact hne (h s hr he hs hf).1

end Conn

end Mymuduo
