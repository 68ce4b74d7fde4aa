import Mymuduo.SendSpec

/-!
# Mymuduo.FaultDecision — what a failed direct write does to its message

When its direct write has failed, `sendInLoop` drops the message if the error is `EPIPE` or
`ECONNRESET` and buffers it otherwise.  It decides on `errno` as `LOG_ERROR` has left it, so that the
outcome is right, and the same whatever is logged, exactly if the logging does not turn an error of
one kind into one of the other (`fault_decision_iff`).  `EPollerPoller::poll` saves `errno` before it
logs.
-/

namespace Mymuduo

namespace Io

variable {io : Io} {message : List UInt8} {e l l' : Errno}

/-- `sendInLoop` writes directly. -/
structure Idle (io : Io) : Prop where
  state : io.conn.state ≠ .kDisconnected
  writing : io.conn.channel.isWriting = false
  output : io.conn.outputBuffer.readable = []

/-- What should have become of the message when its direct write has failed with `e`. -/
def Decided (io : Io) (message : List UInt8) (e : Errno) (io' : Io) : Prop :=
  if Fatal e then io'.conn = io.conn ∧ io'.poller = io.poller
  else io'.conn.outputBuffer.readable = message ∧ io'.conn.channel.isWriting = true

/-- The same connection and the same poller. -/
def SameEnd (io' io'' : Io) : Prop := io'.conn = io''.conn ∧ io'.poller = io''.poller

theorem SameEnd.symm {a b : Io} (h : SameEnd a b) : SameEnd b a := ⟨h.1.symm, h.2.symm⟩

theorem SameEnd.trans {a b c : Io} (h : SameEnd a b) (h' : SameEnd b c) : SameEnd a c :=
  ⟨h.1.trans h'.1, h.2.trans h'.2⟩

/-- `sendInLoop` drops the message when the write has failed with `e` and the logging leaves `l`. -/
def Drops (e l : Errno) : Prop := e ≠ EWOULDBLOCK ∧ Fatal l

instance (e l : Errno) : Decidable (Drops e l) := inferInstanceAs (Decidable (_ ∧ _))

theorem drops_iff_drops : (Drops e l ↔ Drops e l') ↔ e = EWOULDBLOCK ∨ (Fatal l ↔ Fatal l') := by
  unfold Drops
  by_cases he : e = EWOULDBLOCK <;> simp [he]

theorem drops_iff_fatal : (Drops e l ↔ Fatal e) ↔ e = EWOULDBLOCK ∨ (Fatal l ↔ Fatal e) := by
  have hne : Fatal e → e ≠ EWOULDBLOCK := by
    rintro (rfl | rfl) <;> decide
  unfold Drops
  by_cases he : e = EWOULDBLOCK
  · have hf : ¬ Fatal e := fun hf => hne hf he
    simp [he, he ▸ hf]
  · simp [he]

/-- The events so far have no part in the appending. -/
theorem appendRemaining_sameEnd (io : Io) (t : List Event) (message : List UInt8) (nwrote : ℕ) :
    SameEnd ({ io with trace := t }.appendRemaining message nwrote)
      (io.appendRemaining message nwrote) := by
  obtain ⟨evs, he, -⟩ := io.queueHighWaterMark_eq (message.length - nwrote)
  obtain ⟨evs', he', -⟩ := { io with trace := t }.queueHighWaterMark_eq (message.length - nwrote)
  unfold appendRemaining
  rw [he, he']
  by_cases hw : io.conn.channel.isWriting = true
  · simp only [setOutput_channel, hw, if_true]
    exact ⟨rfl, rfl⟩
  · simp only [setOutput_channel, hw]
    exact ⟨rfl, rfl⟩

namespace Idle

theorem interest (h : io.Idle) : io.Interest := by
  simp [Interest, h.writing, h.output]

theorem sendInLoop_err (h : io.Idle) (hm : message ≠ []) (e l : Errno) :
    ∃ t, (Drops e l → io.sendInLoop message ⟨.err e, l⟩ = { io with trace := t }) ∧
      (¬ Drops e l → io.sendInLoop message ⟨.err e, l⟩ =
        { io with trace := t }.appendRemaining message 0) := by
  have hw : (SendEnv.mk (.err e) l).write.of message = .err e := rfl
  have hd := writeDirect_err hw (io.emit (.sendInLoop message))
  have he := sendInLoop_eq h.state ((if_pos ⟨h.writing, h.output⟩).trans hd)
  refine ⟨_, fun hdrop => he.trans (if_pos ?_), fun hkeep => he.trans ((if_neg ?_).trans (if_pos ?_))⟩
  · simpa [Drops] using hdrop
  · simpa [Drops] using hkeep
  · exact List.length_pos_iff.mpr hm

theorem sendInLoop_drops (h : io.Idle) (hm : message ≠ []) (hd : Drops e l) :
    SameEnd (io.sendInLoop message ⟨.err e, l⟩) io := by
  obtain ⟨t, he, -⟩ := h.sendInLoop_err hm e l
  rw [he hd]
  exact ⟨rfl, rfl⟩

theorem sendInLoop_keeps (h : io.Idle) (hm : message ≠ []) (hd : ¬ Drops e l) :
    SameEnd (io.sendInLoop message ⟨.err e, l⟩) (io.appendRemaining message 0) := by
  obtain ⟨t, -, he⟩ := h.sendInLoop_err hm e l
  rw [he hd]
  exact io.appendRemaining_sameEnd t message 0

/-- Appended, with write interest on. -/
theorem appended (h : io.Idle) (hm : message ≠ []) :
    (io.appendRemaining message 0).conn.outputBuffer.readable = message ∧
      (io.appendRemaining message 0).conn.channel.isWriting = true := by
  obtain ⟨notes, -, hb⟩ := appendRemaining_spec message 0 io
  rw [Nat.sub_zero, if_pos (List.length_pos_iff.mpr hm)] at hb
  have hout : (io.appendRemaining message 0).conn.outputBuffer.readable = message := by
    rw [hb.output, h.output]
    rfl
  refine ⟨hout, (hb.interest h.interest).mpr ?_⟩
  rw [hout]
  exact hm

/-- The outcome is the right one exactly if the message is dropped for the right errors. -/
theorem decided_iff (h : io.Idle) (hm : message ≠ []) :
    io.Decided message e (io.sendInLoop message ⟨.err e, l⟩) ↔ (Drops e l ↔ Fatal e) := by
  obtain ⟨hread, hint⟩ := h.appended hm
  unfold Decided
  by_cases hd : Drops e l
  · obtain ⟨hconn, hpoll⟩ := h.sendInLoop_drops hm hd
    rw [hconn, hpoll, h.writing]
    simp [hd]
  · obtain ⟨hconn, hpoll⟩ := h.sendInLoop_keeps hm hd
    rw [hconn, hread, hint]
    by_cases hf : Fatal e
    · have hne : (io.appendRemaining message 0).conn ≠ io.conn := by
        intro he
        rw [he, h.writing] at hint
        cases hint
      simp [hf, hd, hne]
    · simp [hf, hd]

theorem sameEnd_iff (h : io.Idle) (hm : message ≠ []) :
    SameEnd (io.sendInLoop message ⟨.err e, l⟩) (io.sendInLoop message ⟨.err e, l'⟩) ↔
      (Drops e l ↔ Drops e l') := by
  have hne : ¬ SameEnd io (io.appendRemaining message 0) := by
    rintro ⟨he, -⟩
    have hint := (h.appended hm).2
    rw [← he, h.writing] at hint
    cases hint
  by_cases hd : Drops e l
  · by_cases hd' : Drops e l'
    · exact iff_of_true ((h.sendInLoop_drops hm hd).trans (h.sendInLoop_drops hm hd').symm) (by simp [hd, hd'])
    · refine iff_of_false (fun hs => hne ?_) (by simp [hd, hd'])
      exact ((h.sendInLoop_drops hm hd).symm.trans hs).trans (h.sendInLoop_keeps hm hd')
  · by_cases hd' : Drops e l'
    · refine iff_of_false (fun hs => hne ?_) (by simp [hd, hd'])
      exact ((h.sendInLoop_drops hm hd').symm.trans hs.symm).trans (h.sendInLoop_keeps hm hd)
    · exact iff_of_true ((h.sendInLoop_keeps hm hd).trans (h.sendInLoop_keeps hm hd').symm) (by simp [hd, hd'])

end Idle

/-- **The fault decision** is right, and the same in two runs that log differently, exactly if the
write would have blocked or the logging keeps the kind of the error. -/
theorem fault_decision_iff (io : Io) (message : List UInt8) (e : Errno) (hio : io.Idle)
    (hm : message ≠ []) :
    (∀ l, io.Decided message e (io.sendInLoop message ⟨.err e, l⟩) ↔
      e = EWOULDBLOCK ∨ (Fatal l ↔ Fatal e)) ∧
    (∀ l l', SameEnd (io.sendInLoop message ⟨.err e, l⟩) (io.sendInLoop message ⟨.err e, l'⟩) ↔
      e = EWOULDBLOCK ∨ (Fatal l ↔ Fatal l')) :=
  ⟨fun _ => (hio.decided_iff hm).trans drops_iff_fatal,
    fun _ _ => (hio.sameEnd_iff hm).trans drops_iff_drops⟩

/-- An established connection with nothing to write. -/
def idle : Io where
  conn := { TcpConnection.new (.conn 0) 7 false none with state := .kConnected }
  poller := .new
  trace := []

theorem idle_idle : idle.Idle := ⟨by decide, rfl, ValidBuffer.readable_new _⟩

/-- `EPIPE`, and the logging leaves `ECONNRESET`: the message is dropped all the same. -/
theorem fault_decision_epipe : idle.Decided [1] EPIPE (idle.sendInLoop [1] ⟨.err EPIPE, ECONNRESET⟩) :=
  ((fault_decision_iff idle [1] EPIPE idle_idle (by decide)).1 ECONNRESET).mpr (.inr (by decide))

/-- What a write of a log line leaves when the disk of its file is full. -/
def ENOSPC : Errno := 28

/-- `EPIPE`, and the log line cannot be written: the message is buffered on a broken connection, and
write interest enabled. -/
theorem fault_decision_forgotten : ¬ ∀ (io : Io) (message : List UInt8) (e : Errno), io.Idle →
    message ≠ [] → (∀ l, io.Decided message e (io.sendInLoop message ⟨.err e, l⟩)) ∧
      ∀ l l', SameEnd (io.sendInLoop message ⟨.err e, l⟩) (io.sendInLoop message ⟨.err e, l'⟩) := by
  intro h
  have hd := (h idle [1] EPIPE idle_idle (by decide)).1 ENOSPC
  exact absurd ((idle_idle.decided_iff (by decide)).mp hd) (by decide)

end Io

end Mymuduo
