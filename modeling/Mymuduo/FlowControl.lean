import Mymuduo.OutputStream

/-!
# Mymuduo.FlowControl — the notifications by which a producer is paused and resumed

`notified` are the functors queued for the user.  A `sendInLoop` queues `highWaterMarkCallback` exactly
if `outputBuffer` comes to hold as many bytes as the mark by it (`sendInLoop_notified`), and a
`handleWrite` queues `writeCompleteCallback` exactly if it empties `outputBuffer`
(`handleWrite_notified`).  Over every run, a producer that has been told of high water and of no
completion since is `Paused`; then bytes are buffered, with write interest on (`flow_control`).
-/

namespace Mymuduo

open Lib

namespace Io

variable {io io' : Io}

/-- The functors queued for the user. -/
def notified (io : Io) : List Event := io.trace.filter Event.isNotification

/-- The size of `outputBuffer`. -/
def buffered (io : Io) : ℕ := io.conn.outputBuffer.readableBytes

/-- The notification of high water when `after` bytes are buffered instead of `io.buffered`. -/
def highWaterOf (io : Io) (after : ℕ) : List Event :=
  if io.buffered < io.conn.highWaterMark ∧ io.conn.highWaterMark ≤ after ∧
      io.conn.highWaterMarkCallback then [.highWaterMark after] else []

/-- The last notification was that of high water. -/
def Paused (io : Io) : Prop := ∃ size, io.notified.getLast? = some (.highWaterMark size)

theorem notified_emit {e : Event} (he : e.isNotification = false) : (io.emit e).notified = io.notified := by
  simp [notified, he]

theorem notified_append {evs : List Event} (ht : io'.trace = io.trace ++ evs) :
    io'.notified = io.notified ++ evs.filter Event.isNotification := by
  rw [notified, ht, List.filter_append]
  rfl

theorem buffered_eq_zero : io.buffered = 0 ↔ io.conn.outputBuffer.readable = [] := by
  rw [buffered, ValidBuffer.readableBytes_eq, List.length_eq_zero_iff]

/-- Nothing is notified while the size stays. -/
theorem highWaterOf_buffered (io : Io) : io.highWaterOf io.buffered = [] :=
  if_neg fun h => absurd h.1 (not_lt.mpr h.2.1)

/-! ### `sendInLoop` -/

theorem queueWriteComplete_notified (io : Io) :
    io.queueWriteComplete.notified =
      io.notified ++ if io.conn.writeCompleteCallback then [.writeComplete] else [] := by
  unfold queueWriteComplete
  split
  · simp [notified, Event.isNotification]
  · simp

theorem appendRemaining_notified (message : List UInt8) (nwrote : ℕ) (io : Io) :
    (io.appendRemaining message nwrote).buffered = io.buffered + (message.length - nwrote) ∧
      (io.appendRemaining message nwrote).notified =
        io.notified ++ io.highWaterOf (io.buffered + (message.length - nwrote)) := by
  have hq : (io.queueHighWaterMark (message.length - nwrote)).notified =
      io.notified ++ io.highWaterOf (io.buffered + (message.length - nwrote)) := by
    unfold queueHighWaterMark highWaterOf buffered
    simp only
    by_cases hc : io.conn.outputBuffer.readableBytes < io.conn.highWaterMark ∧
        io.conn.highWaterMark ≤ io.conn.outputBuffer.readableBytes + (message.length - nwrote) ∧
        io.conn.highWaterMarkCallback = true
    · rw [if_pos hc, if_pos ⟨hc.2.1, hc.1, hc.2.2⟩]
      simp [notified, Event.isNotification]
    · rw [if_neg hc, if_neg fun h => hc ⟨h.2.1, h.1, h.2.2⟩, List.append_nil]
  have hb : ∀ b : ValidBuffer, (b.append (message.drop nwrote)).readableBytes =
      b.readableBytes + (message.length - nwrote) := by
    intro b
    simp [ValidBuffer.readableBytes_eq]
  unfold appendRemaining
  simp only
  split
  · refine ⟨?_, hq⟩
    simp only [buffered, setOutput_output, queueHighWaterMark_conn, hb]
  · refine ⟨?_, hq⟩
    simp only [buffered, onChannel_output, setOutput_output, queueHighWaterMark_conn, hb]

/-- The end of `sendInLoop`, whether it buffers anything or not. -/
theorem rest_notified (message : List UInt8) (nwrote : ℕ) (fault : Bool) (io : Io)
    (he : (if fault = true then io else if 0 < message.length - nwrote then
      io.appendRemaining message nwrote else io) = io') :
    io'.notified = io.notified ++ io.highWaterOf io'.buffered ∧
      (message.length - nwrote = 0 → io'.buffered = io.buffered) := by
  have hsame : io.notified = io.notified ++ io.highWaterOf io.buffered := by
    rw [highWaterOf_buffered, List.append_nil]
  subst he
  split
  next => exact ⟨hsame, fun _ => rfl⟩
  next =>
    split
    next hm =>
      obtain ⟨hb, hn⟩ := io.appendRemaining_notified message nwrote
      rw [hb]
      exact ⟨hn, fun h0 => by rw [h0, Nat.add_zero]⟩
    next => exact ⟨hsame, fun _ => rfl⟩

theorem writeDirect_notified (message : List UInt8) (env : SendEnv) (io : Io) :
    ∃ direct, (io.writeDirect message env).1.notified = io.notified ++ direct ∧
      (direct = [] ∨ direct = [.writeComplete] ∧ message.length - (io.writeDirect message env).2.1 = 0) := by
  have hcall : ∀ ret, (io.emit (.directWrite message ret env.logErrno)).notified = io.notified :=
    fun _ => notified_emit rfl
  unfold writeDirect
  simp only
  cases env.write.of message with
  | err e => exact ⟨[], by rw [hcall, List.append_nil], .inl rfl⟩
  | ok n =>
    by_cases hm : message.length - n = 0
    · simp only [if_pos hm, queueWriteComplete_notified, hcall]
      by_cases hc : io.conn.writeCompleteCallback = true
      · exact ⟨[.writeComplete], by rw [emit_conn, if_pos hc], .inr ⟨rfl, hm⟩⟩
      · exact ⟨[], by rw [emit_conn, if_neg hc], .inl rfl⟩
    · simp only [if_neg hm]
      exact ⟨[], by rw [hcall, List.append_nil], .inl rfl⟩

/-- What a `sendInLoop` from `io` to `io'` notifies the user of: the completion of a direct write that
has taken everything, or high water. -/
structure SendNotifies (io io' : Io) (direct : List Event) : Prop where
  notified : io'.notified = io.notified ++ (direct ++ io.highWaterOf io'.buffered)
  direct : direct = [] ∨ direct = [.writeComplete] ∧ io'.buffered = 0

/-- The notification of high water depends on the connection only. -/
theorem highWaterOf_congr (h : io'.conn = io.conn) (after : ℕ) :
    io'.highWaterOf after = io.highWaterOf after := by
  unfold highWaterOf buffered
  rw [h]

theorem sendInLoop_notified (message : List UInt8) (env : SendEnv) (io : Io) :
    ∃ direct, io.SendNotifies (io.sendInLoop message env) direct := by
  have hcall : (io.emit (.sendInLoop message)).notified = io.notified := notified_emit rfl
  by_cases hs : io.conn.state = .kDisconnected
  · have he : io.sendInLoop message env = io.emit (.sendInLoop message) := if_pos hs
    have hb : (io.emit (.sendInLoop message)).buffered = io.buffered := rfl
    rw [he]
    refine ⟨[], ?_, .inl rfl⟩
    rw [hb, highWaterOf_buffered, hcall, List.append_nil, List.append_nil]
  by_cases hi : io.conn.channel.isWriting = false ∧ io.conn.outputBuffer.readable = []
  · obtain ⟨direct, hd, hdir⟩ := writeDirect_notified message env (io.emit (.sendInLoop message))
    have hconn := writeDirect_conn message env (io.emit (.sendInLoop message))
    obtain ⟨hn, hb⟩ := rest_notified message _ _ _
      (@sendInLoop_eq io message env hs _ (if_pos hi)).symm
    rw [highWaterOf_congr hconn, hd, hcall, List.append_assoc] at hn
    refine ⟨direct, hn, hdir.imp_right fun ⟨hdir, hm⟩ => ⟨hdir, ?_⟩⟩
    rw [hb hm]
    unfold buffered
    rw [hconn]
    exact buffered_eq_zero.mpr hi.2
  · obtain ⟨hn, -⟩ := rest_notified message 0 false (io.emit (.sendInLoop message))
      (@sendInLoop_eq io message env hs _ (if_neg hi)).symm
    rw [hcall] at hn
    exact ⟨[], hn, .inl rfl⟩

/-- `sendInLoop` notifies high water. -/
def NotifiesHighWater (io : Io) (message : List UInt8) (env : SendEnv) : Prop :=
  ∃ evs size, (io.sendInLoop message env).notified = io.notified ++ (evs ++ [.highWaterMark size])

/-- The mark is crossed from below. -/
theorem NotifiesHighWater.crosses {message : List UInt8} {env : SendEnv}
    (h : io.NotifiesHighWater message env) :
    io.buffered < io.conn.highWaterMark ∧
      io.conn.highWaterMark ≤ (io.sendInLoop message env).buffered := by
  obtain ⟨evs, size, he⟩ := h
  obtain ⟨direct, hn, hd⟩ := sendInLoop_notified message env io
  rw [hn, List.append_cancel_left_eq] at he
  by_contra hc
  have hnil : io.highWaterOf (io.sendInLoop message env).buffered = [] :=
    if_neg fun h => hc ⟨h.1, h.2.1⟩
  rw [hnil, List.append_nil] at he
  have hlast := congrArg List.getLast? he
  rw [List.getLast?_concat] at hlast
  rcases hd with rfl | ⟨rfl, -⟩ <;> cases hlast

/-! ### `handleWrite` -/

theorem shutdownInLoop_notified (io : Io) : io.shutdownInLoop.notified = io.notified := by
  unfold shutdownInLoop
  split
  · rfl
  · exact notified_emit rfl

theorem drained_notified (io : Io) :
    io.drained.notified = io.notified ++ (if io.conn.writeCompleteCallback then [.writeComplete] else []) ∧
      io.drained.buffered = io.buffered := by
  have hq := queueWriteComplete_notified (io.onChannel Channel.disableWriting)
  unfold drained
  simp only
  split
  · refine ⟨(shutdownInLoop_notified _).trans hq, ?_⟩
    simp [buffered]
  · refine ⟨hq, ?_⟩
    simp [buffered]

/-- `handleWrite` notifies the user exactly if it empties `outputBuffer`. -/
theorem handleWrite_notified (ret : IoRet) (io : Io) :
    (io.handleWrite ret).notified = io.notified ++
      if (io.buffered ≠ 0 ∧ (io.handleWrite ret).buffered = 0) ∧ io.conn.writeCompleteCallback then
        [.writeComplete] else [] := by
  have hsame : ∀ {P : Prop}, ¬ ((io.buffered ≠ 0 ∧ io.buffered = 0) ∧ P) := fun h => h.1.1 h.1.2
  cases hw : io.conn.channel.isWriting with
  | false =>
    have he : io.handleWrite ret = io := by simp [handleWrite, hw]
    rw [he, if_neg hsame, List.append_nil]
  | true =>
    rcases handleWrite_eq ret hw rfl with ⟨-, he⟩ | ⟨n, io', hpos, hret, hio', he⟩
    · have hb : (io.handleWrite ret).buffered = io.buffered := by
        rw [he]
        rfl
      rw [hb, if_neg hsame, he, notified_emit rfl, List.append_nil]
    · have hne : io.buffered ≠ 0 := by
        intro h0
        have hle := IoRet.le_of_of_eq_ok hret
        rw [buffered_eq_zero.mp h0, List.length_nil] at hle
        omega
      have hout : io'.buffered = 0 ↔ io.conn.outputBuffer.readable.drop n = [] := by
        rw [buffered_eq_zero, hio']
        simp
      have hn : io'.notified = io.notified := by
        rw [hio']
        exact notified_emit rfl
      have hwc : io'.conn.writeCompleteCallback = io.conn.writeCompleteCallback := by
        rw [hio']
        rfl
      rw [he]
      by_cases hd : io.conn.outputBuffer.readable.drop n = []
      · obtain ⟨hnd, hb⟩ := drained_notified io'
        rw [if_pos hd, hnd, hb, hn, hwc]
        simp only [hne, hout.mpr hd, ne_eq, not_false_eq_true, and_self, true_and]
      · rw [if_neg hd, if_neg fun h => hd (hout.mp h.1.2), List.append_nil, hn]

/-! ### Every run -/

/-- A producer that has been told of high water last has bytes buffered, with write interest on. -/
def PacedInv (io : Io) : Prop :=
  io.conn.writeCompleteCallback = true → io.conn.state ≠ .kDisconnected →
    io.Interest ∧ (io.Paused → io.buffered ≠ 0)

theorem not_paused_append {evs : List Event} (ht : io'.notified = io.notified ++ evs)
    (he : evs = [.writeComplete]) : ¬ io'.Paused := by
  rintro ⟨size, hl⟩
  rw [ht, he, List.getLast?_concat] at hl
  cases hl

/-- No member function changes what the user has set. -/
theorem steps_settings {K : Event → Prop} (h : Steps K io io') :
    io'.conn.writeCompleteCallback = io.conn.writeCompleteCallback ∧
      io'.conn.highWaterMark = io.conn.highWaterMark := by
  induction h with
  | refl => exact ⟨rfl, rfl⟩
  | tail _ hp ih =>
    obtain ⟨hwc, hmark⟩ := ih
    cases hp <;> exact ⟨hwc, hmark⟩

theorem handled_highWaterMark (mark : ℕ) : Handled fun io => io.conn.highWaterMark = mark where
  act io a h := (steps_settings ((Steps.refl io).act any_event a)).2.trans h
  closed _ h := h
  handleWrite io ret h := (steps_settings ((Steps.refl io).handleWrite any_event ret)).2.trans h
  setInput _ _ h := h
  emit _ _ _ h := h
  remove _ h := h
  report _ _ h := h

theorem Quiet.notified (h : Quiet io io') : io'.notified = io.notified := by
  obtain ⟨evs, ht, he⟩ := h.trace
  have hnil : evs.filter Event.isNotification = [] := by
    refine List.filter_eq_nil_iff.mpr fun e hm => ?_
    rcases he e hm with hc | ⟨b, rfl⟩
    · cases e <;> simp_all [Event.IsCallback, Event.isNotification]
    · simp [Event.isNotification]
  rw [notified_append ht, hnil, List.append_nil]

theorem pacedInv_sendInLoop (message : List UInt8) (env : SendEnv) (h : io.PacedInv) :
    (io.sendInLoop message env).PacedInv := by
  intro hwc hs
  rw [(steps_settings ((Steps.refl io).sendInLoop any_event message env)).1] at hwc
  rw [sendInLoop_state] at hs
  obtain ⟨hi, hp⟩ := h hwc hs
  obtain ⟨evs, rest, -, hb⟩ := sendInLoop_cases message env hs
  obtain ⟨direct, hn, hd⟩ := sendInLoop_notified message env io
  refine ⟨hb.interest hi, fun hpaused h0 => ?_⟩
  -- nothing is buffered: it was not before either, and high water is not notified
  have hzero : io.buffered = 0 := by
    have hr := buffered_eq_zero.mp h0
    rw [hb.output, List.append_eq_nil_iff] at hr
    exact buffered_eq_zero.mpr hr.1
  rw [h0, ← hzero, highWaterOf_buffered, List.append_nil] at hn
  rcases hd with rfl | ⟨rfl, -⟩
  · rw [List.append_nil] at hn
    obtain ⟨size, hl⟩ := hpaused
    exact hp ⟨size, hn ▸ hl⟩ hzero
  · exact not_paused_append hn rfl hpaused

theorem pacedInv_handleWrite (ret : IoRet) (h : io.PacedInv) : (io.handleWrite ret).PacedInv := by
  intro hwc hs
  rw [(steps_settings ((Steps.refl io).handleWrite any_event ret)).1] at hwc
  rw [handleWrite_state] at hs
  obtain ⟨hi, hp⟩ := h hwc hs
  obtain ⟨evs, fin, -, hi', -⟩ := handleWrite_sent ret hi
  have hn := handleWrite_notified ret io
  refine ⟨hi', fun hpaused h0 => ?_⟩
  by_cases hb : io.buffered = 0
  · rw [if_neg fun hc => hc.1.1 hb, List.append_nil] at hn
    obtain ⟨size, hl⟩ := hpaused
    exact hp ⟨size, hn ▸ hl⟩ hb
  · exact not_paused_append hn (if_pos ⟨⟨hb, h0⟩, hwc⟩) hpaused

theorem kept_pacedInv : Kept PacedInv where
  closed io hd _ hs := absurd hd hs
  quiet io io' hq h hwc hs := by
    obtain ⟨hi, hp⟩ := h (hq.writeComplete ▸ hwc) (hq.opened hs)
    have hb : io'.buffered = io.buffered := by rw [buffered, buffered, hq.output]
    refine ⟨?_, ?_⟩
    · rw [Interest, hq.writing, hq.output]
      exact hi
    · rw [Paused, hq.notified, hb]
      exact hp
  sendInLoop _ message env h := pacedInv_sendInLoop message env h
  handleWrite _ ret h := pacedInv_handleWrite ret h

end Io

namespace Conn

/-- Every step of the loop thread, and the store of `kDisconnecting` on a connection that is not
closed. -/
def OpensNone (s : Conn) (l : Label) : Prop :=
  l = .storeDisconnecting → s.io.conn.state ≠ .kDisconnected

instance (s : Conn) (l : Label) : Decidable (s.OpensNone l) :=
  match l with
  | .storeDisconnecting => decidable_of_iff (s.io.conn.state ≠ .kDisconnected) ⟨fun h _ => h, fun h => h rfl⟩
  | .connectEstablished _ | .connectDestroyed _ | .sendInLoop .. | .shutdownInLoop | .act _
  | .handleRead .. | .handleWrite _ | .handleClose _ | .poll _ | .dispatch _ =>
    .isTrue fun h => by cases h

theorem pacedInv_of_reach {s : Conn} (h : sys.Reach OpensNone s) : s.io.PacedInv := by
  refine (h.invariant (I := fun s => (s.established = false → s.io.conn.state ≠ .kDisconnected) ∧
    s.io.PacedInv) (fun s hi => ?_) fun s l s' hI hC hst => ?_).2
  · obtain ⟨⟨this, fd, wc, hw, hc⟩, -, -, -, ht, -⟩ := hi
    refine ⟨fun _ => by rw [hc]; simp [TcpConnection.new], fun _ _ => ⟨?_, ?_⟩⟩
    · rw [Io.Interest, hc]
      simp [TcpConnection.new, Channel.new, Channel.isWriting_eq, Events.kNoneEvent]
    · rintro ⟨size, hl⟩
      rw [Io.notified, ht] at hl
      cases hl
  · refine ⟨fun hf => ?_, kept_step Io.kept_pacedInv hI.2 hI.1 hC hst⟩
    rw [established_step hst] at hf
    cases hf

/-- The mark is fixed. -/
theorem highWaterMark_exec {s r : Conn} {ls : List Label} (h : sys.exec s ls = some r) :
    r.io.conn.highWaterMark = s.io.conn.highWaterMark := by
  refine Sys.exec_invariant (I := fun r : Conn => r.io.conn.highWaterMark = s.io.conn.highWaterMark)
    (A := fun _ => True) (fun s₁ l s₂ hI _ hst => ?_) rfl (fun _ _ => trivial) h
  obtain ⟨-, rfl⟩ := of_guard hst
  refine ioStep_keeps (Io.handled_highWaterMark _) hI (fun acts _ => ?_) (fun message env _ => ?_)
    (fun _ => ?_) fun _ => hI
  · exact (Io.steps_settings ((Io.Steps.refl s₁.io).connectEstablished acts)).2.trans hI
  · exact (Io.steps_settings ((Io.Steps.refl s₁.io).sendInLoop any_event message env)).2.trans hI
  · rw [Io.shutdownInLoop_conn]
    exact hI

/-- **Flow control.**  Of a connection with both callbacks set: a `sendInLoop` notifies high water
exactly if it takes the buffered bytes from below the mark to the mark or beyond, with their number,
so that they have fallen below the mark again before the next time; completion is notified by a
`sendInLoop` only if it ends with nothing buffered, and by a `handleWrite` exactly if that empties the
buffer; and a producer told of high water last has bytes buffered and write interest on. -/
theorem flow_control {s : Conn} (h : sys.Reach OpensNone s)
    (hw : s.io.conn.writeCompleteCallback = true) (hh : s.io.conn.highWaterMarkCallback = true) :
    (∀ message env, ∃ direct, (direct = [] ∨
        direct = [.writeComplete] ∧ (s.io.sendInLoop message env).buffered = 0) ∧
      (s.io.sendInLoop message env).notified = s.io.notified ++ (direct ++
        if s.io.buffered < s.io.conn.highWaterMark ∧
            s.io.conn.highWaterMark ≤ (s.io.sendInLoop message env).buffered then
          [.highWaterMark (s.io.sendInLoop message env).buffered] else [])) ∧
    (∀ message env message' env' s' ls r, s.io.NotifiesHighWater message env →
      s.step (.sendInLoop message env) = some s' → sys.exec s' ls = some r →
      r.io.NotifiesHighWater message' env' →
      s.io.conn.highWaterMark ≤ s'.io.buffered ∧ r.io.buffered < s.io.conn.highWaterMark) ∧
    (∀ ret, (s.io.handleWrite ret).notified = s.io.notified ++
      if s.io.buffered ≠ 0 ∧ (s.io.handleWrite ret).buffered = 0 then [.writeComplete] else []) ∧
    (s.io.conn.state ≠ .kDisconnected → s.io.Paused →
      s.io.conn.outputBuffer.readable ≠ [] ∧ s.io.conn.channel.isWriting = true) := by
  refine ⟨fun message env => ?_, fun message env message' env' s' ls r h1 hst hex h2 => ?_, fun ret => ?_,
    fun hs hp => ?_⟩
  · obtain ⟨direct, hn, hd⟩ := s.io.sendInLoop_notified message env
    refine ⟨direct, hd, ?_⟩
    rw [hn, Io.highWaterOf, hh]
    simp
  · have hmark := highWaterMark_exec hex
    obtain ⟨-, rfl⟩ := of_guard hst
    have hsame := (Io.steps_settings ((Io.Steps.refl s.io).sendInLoop any_event message env)).2
    refine ⟨h1.crosses.2, ?_⟩
    have hlt := h2.crosses.1
    rw [hmark] at hlt
    exact hlt.trans_eq hsame
  · rw [Io.handleWrite_notified, hw]
    simp
  · obtain ⟨hi, hpaused⟩ := pacedInv_of_reach h hw hs
    have hne := (not_congr Io.buffered_eq_zero).mp (hpaused hp)
    exact ⟨hne, hi.mpr hne⟩

/-- With a mark of four bytes, the kernel takes one of six and later two: the five bytes are notified,
and the producer has to wait. -/
theorem flow_control_paused : ∃ s : Conn, s.io.Paused ∧ s.io.buffered = 3 ∧
    s.io.conn.channel.isWriting = true := by
  obtain ⟨s, hr, hw, hh, hs, hb, hl⟩ := Sys.Reach.exists_of_execIf (M := sys) (C := OpensNone)
    (s := ⟨⟨.new (.conn 0) 7 true (some 4), .new, []⟩, false, false⟩)
    (P := fun s => s.io.conn.writeCompleteCallback = true ∧ s.io.conn.highWaterMarkCallback = true ∧
      s.io.conn.state ≠ .kDisconnected ∧ s.io.buffered = 3 ∧
      s.io.notified.getLast? = some (.highWaterMark 5))
    (.init ⟨⟨.conn 0, 7, true, some 4, rfl⟩, rfl, rfl, rfl, rfl, rfl, rfl⟩)
    ([.connectEstablished [], .sendInLoop [1, 2, 3, 4, 5, 6] ⟨.ok 1, 0⟩, .handleWrite (.ok 2)])
    (by decide +kernel)
  exact ⟨s, ⟨5, hl⟩, hb, ((flow_control hr hw hh).2.2.2 hs ⟨5, hl⟩).2⟩

end Conn

end Mymuduo
