import Mymuduo.ConnSpec

/-!
# Mymuduo.SendSpec — the functions that send, on the byte stream of a connection

`submitted` are the bytes given to `sendInLoop`, `accepted` those the kernel has accepted, both read
off the trace.  A function that sends takes the readable bytes `q` of `outputBuffer` to `q'` with
`q ++ submitted = accepted ++ q'` (`Passes`), and leaves write interest on exactly while bytes are
buffered (`Interest`): `sendInLoop_sent`, `handleWrite_sent`.  Both come from what one call can do at
all, `sendInLoop_cases` and `handleWrite_cases`, on which the other modules build too.

The exception is a direct write that is `Clobbered`: it failed with an error that is neither
`EWOULDBLOCK` nor `EPIPE` nor `ECONNRESET`, but `sendInLoop` decides on the value that `LOG_ERROR` has
left in `errno`, takes the error for one of the last two, and drops the message.
-/

namespace Mymuduo

open Lib

/-! ### Reading the trace -/

namespace Event

/-- The bytes that the kernel accepted. -/
def accepted : Event → List UInt8
  | .directWrite offered (.ok n) _ | .write offered (.ok n) => offered.take n
  | _ => []

/-- The bytes given to `sendInLoop`. -/
def submitted : Event → List UInt8
  | .sendInLoop message => message
  | _ => []

/-- A write that failed with `EPIPE` or `ECONNRESET`. -/
def Fault : Event → Prop
  | .directWrite _ (.err e) _ | .write _ (.err e) => Fatal e
  | _ => False

instance (e : Event) : Decidable e.Fault :=
  match e with
  | .directWrite _ (.err e) _ | .write _ (.err e) => inferInstanceAs (Decidable (Fatal e))
  | .directWrite _ (.ok _) _ | .write _ (.ok _) | .sendInLoop _ | .shutdownWrite _
  | .connectionCallback _ | .messageCallback | .closeCallback | .writeComplete
  | .highWaterMark _ => .isFalse id

/-- A direct write whose error the logging has turned into `EPIPE` or `ECONNRESET`. -/
def Clobbered : Event → Prop
  | .directWrite message (.err e) logErrno =>
    message ≠ [] ∧ e ≠ EWOULDBLOCK ∧ ¬ Fatal e ∧ Fatal logErrno
  | _ => False

instance (e : Event) : Decidable e.Clobbered :=
  match e with
  | .directWrite _ (.err _) _ => inferInstanceAs (Decidable (_ ∧ _))
  | .directWrite _ (.ok _) _ | .write .. | .sendInLoop _ | .shutdownWrite _ | .connectionCallback _
  | .messageCallback | .closeCallback | .writeComplete | .highWaterMark _ => .isFalse id

/-- A functor queued for the user. -/
def isNotification : Event → Bool
  | .writeComplete | .highWaterMark _ => true
  | _ => false

end Event

def accepted (trace : List Event) : List UInt8 := trace.flatMap Event.accepted

def submitted (trace : List Event) : List UInt8 := trace.flatMap Event.submitted

def NoFault (trace : List Event) : Prop := ∀ e ∈ trace, ¬ e.Fault

instance (trace : List Event) : Decidable (NoFault trace) :=
  inferInstanceAs (Decidable (∀ e ∈ trace, ¬ e.Fault))

def Clobbered (trace : List Event) : Prop := ∃ e ∈ trace, e.Clobbered

instance (trace : List Event) : Decidable (Clobbered trace) :=
  inferInstanceAs (Decidable (∃ e ∈ trace, e.Clobbered))

@[simp] theorem accepted_append (s t : List Event) : accepted (s ++ t) = accepted s ++ accepted t :=
  List.flatMap_append

@[simp] theorem submitted_append (s t : List Event) :
    submitted (s ++ t) = submitted s ++ submitted t :=
  List.flatMap_append

@[simp] theorem accepted_nil : accepted [] = [] := rfl

@[simp] theorem submitted_nil : submitted [] = [] := rfl

@[simp] theorem accepted_cons (e : Event) (t : List Event) :
    accepted (e :: t) = e.accepted ++ accepted t := rfl

@[simp] theorem submitted_cons (e : Event) (t : List Event) :
    submitted (e :: t) = e.submitted ++ submitted t := rfl

@[simp] theorem not_clobbered_nil : ¬ Clobbered [] := by simp [Clobbered]

@[simp] theorem clobbered_cons (e : Event) (t : List Event) :
    Clobbered (e :: t) ↔ e.Clobbered ∨ Clobbered t := by
  simp [Clobbered]

@[simp] theorem not_clobbered_sendInLoop (message : List UInt8) :
    ¬ (Event.sendInLoop message).Clobbered := id

@[simp] theorem clobbered_append (s t : List Event) :
    Clobbered (s ++ t) ↔ Clobbered s ∨ Clobbered t := by
  simp [Clobbered, or_and_right, exists_or]

theorem NoFault.of_isPrefix {s t : List Event} (h : NoFault t) (hp : s <+: t) : NoFault s :=
  fun e he => h e (hp.subset he)

/-- Events that are no part of the stream. -/
structure Silent (evs : List Event) : Prop where
  accepted : accepted evs = []
  submitted : submitted evs = []
  clobbered : ¬ Clobbered evs

theorem silent_of_forall {evs : List Event} (h : ∀ e ∈ evs, Silent [e]) : Silent evs := by
  induction evs with
  | nil => exact ⟨rfl, rfl, not_clobbered_nil⟩
  | cons e evs ih =>
    obtain ⟨h1, h2, h3⟩ := ih fun e he => h e (by simp [he])
    obtain ⟨he1, he2, he3⟩ := h e (by simp)
    simp only [accepted_cons, submitted_cons, accepted_nil, submitted_nil, List.append_nil] at he1 he2
    refine ⟨by simp [h1, he1], by simp [h2, he2], fun hc => ?_⟩
    rcases (clobbered_cons e evs).mp hc with hc | hc
    · exact he3 ((clobbered_cons e []).mpr (.inl hc))
    · exact h3 hc

theorem silent_of_notifications {evs : List Event} (h : ∀ e ∈ evs, e.isNotification) :
    Silent evs := by
  refine silent_of_forall fun e he => ?_
  cases e with
  | writeComplete | highWaterMark _ => exact ⟨rfl, rfl, by simp [Event.Clobbered]⟩
  | _ => cases h _ he

theorem silent_callback {e : Event} (h : e.IsCallback = true) : Silent [e] := by
  cases e with
  | connectionCallback _ | messageCallback | closeCallback =>
    exact ⟨rfl, rfl, by simp [Event.Clobbered]⟩
  | _ => cases h

theorem IoRet.le_of_of_eq_ok {ret : IoRet} {offered : List UInt8} {n : ℕ}
    (h : ret.of offered = .ok n) : n ≤ offered.length := by
  cases ret with
  | ok k =>
    cases h
    exact Nat.min_le_right _ _
  | err e => cases h

/-! ### The stream through one step -/

/-- From the buffered bytes `q` to `q'`: what goes in comes out or stays, in order, unless a direct
write is clobbered; then bytes are missing. -/
structure Passes (q : List UInt8) (evs : List Event) (q' : List UInt8) : Prop where
  exact : ¬ Clobbered evs → q ++ submitted evs = accepted evs ++ q'
  le : (accepted evs).length + q'.length ≤ q.length + (submitted evs).length
  lost : Clobbered evs → (accepted evs).length + q'.length < q.length + (submitted evs).length

namespace Passes

theorem of_exact {q q' : List UInt8} {evs : List Event} (hc : ¬ Clobbered evs)
    (h : q ++ submitted evs = accepted evs ++ q') : Passes q evs q' := by
  have hl := congrArg List.length h
  simp only [List.length_append] at hl
  exact ⟨fun _ => h, by omega, fun h => absurd h hc⟩

theorem of_silent {q : List UInt8} {evs : List Event} (h : Silent evs) : Passes q evs q :=
  of_exact h.clobbered (by simp [h.accepted, h.submitted])

theorem trans {q q' q'' : List UInt8} {s t : List Event} (h : Passes q s q')
    (h' : Passes q' t q'') : Passes q (s ++ t) q'' where
  exact hc := by
    rw [clobbered_append, not_or] at hc
    rw [submitted_append, accepted_append, ← List.append_assoc, h.exact hc.1, List.append_assoc,
      h'.exact hc.2, List.append_assoc]
  le := by
    have h1 := h.le
    have h2 := h'.le
    simp only [submitted_append, accepted_append, List.length_append]
    omega
  lost hc := by
    have h1 := h.le
    have h2 := h'.le
    simp only [submitted_append, accepted_append, List.length_append]
    rcases (clobbered_append s t).mp hc with hc | hc
    · have := h.lost hc
      omega
    · have := h'.lost hc
      omega

end Passes

namespace Io

/-- The channel is interested in writing exactly while bytes are buffered. -/
def Interest (io : Io) : Prop :=
  io.conn.channel.isWriting = true ↔ io.conn.outputBuffer.readable ≠ []

/-- `io'` comes after `io`, with the events `evs` in between, in the same state. -/
structure Sent (io : Io) (evs : List Event) (io' : Io) : Prop where
  trace : io'.trace = io.trace ++ evs
  state : io'.conn.state = io.conn.state
  passes : Passes io.conn.outputBuffer.readable evs io'.conn.outputBuffer.readable

variable {io io' io'' : Io}

theorem Sent.refl (io : Io) : io.Sent [] io := ⟨by simp, rfl, .of_exact (by simp) (by simp)⟩

/-- Silent events do not move the stream. -/
theorem Sent.of_silent {evs : List Event} (h : Silent evs) (ht : io'.trace = io.trace ++ evs)
    (hs : io'.conn.state = io.conn.state) (hb : io'.conn.outputBuffer = io.conn.outputBuffer) :
    io.Sent evs io' :=
  ⟨ht, hs, hb ▸ .of_silent h⟩

theorem silent_shutdownWrite (b : List UInt8) : Silent [.shutdownWrite b] :=
  ⟨rfl, rfl, by simp [Event.Clobbered]⟩

theorem queueWriteComplete_eq (io : Io) :
    ∃ evs, io.queueWriteComplete = { io with trace := io.trace ++ evs } ∧
      ∀ e ∈ evs, e.isNotification := by
  unfold queueWriteComplete
  split
  · exact ⟨[.writeComplete], rfl, by simp [Event.isNotification]⟩
  · exact ⟨[], by simp, by simp⟩

theorem queueHighWaterMark_eq (n : ℕ) (io : Io) :
    ∃ evs, io.queueHighWaterMark n = { io with trace := io.trace ++ evs } ∧
      ∀ e ∈ evs, e.isNotification := by
  unfold queueHighWaterMark
  simp only
  split
  · exact ⟨[.highWaterMark _], rfl, by simp [Event.isNotification]⟩
  · exact ⟨[], by simp, by simp⟩

theorem shutdownWrite_not_mem {notes : List Event} (hn : ∀ e ∈ notes, e.isNotification)
    (b : List UInt8) : .shutdownWrite b ∉ notes :=
  fun hb => by simpa [Event.isNotification] using hn _ hb

/-! ### `sendInLoop` -/

/-- From `io` to `io'` the events are `evs`, and `rest` is appended to `outputBuffer`. -/
structure Buffers (io : Io) (evs : List Event) (rest : List UInt8) (io' : Io) : Prop where
  trace : io'.trace = io.trace ++ evs
  state : io'.conn.state = io.conn.state
  output : io'.conn.outputBuffer.readable = io.conn.outputBuffer.readable ++ rest
  interest : io.Interest → io'.Interest

theorem Buffers.after {s t : List Event} {rest : List UInt8}
    (h : { io with trace := io.trace ++ s }.Buffers t rest io') : io.Buffers (s ++ t) rest io' :=
  ⟨by rw [h.trace, List.append_assoc], h.state, h.output, h.interest⟩

/-- The bytes of `message` from `nwrote` on, if there are any, go behind everything buffered, with
write interest on. -/
theorem appendRemaining_spec (message : List UInt8) (nwrote : ℕ) (io : Io) :
    ∃ notes, (∀ e ∈ notes, e.isNotification) ∧ io.Buffers notes (message.drop nwrote)
      (if 0 < message.length - nwrote then io.appendRemaining message nwrote else io) := by
  by_cases hm : 0 < message.length - nwrote
  · have hd : message.drop nwrote ≠ [] := by
      simpa [List.drop_eq_nil_iff] using Nat.sub_pos_iff_lt.mp hm
    obtain ⟨notes, he, hnotes⟩ := io.queueHighWaterMark_eq (message.length - nwrote)
    rw [if_pos hm]
    unfold appendRemaining
    rw [he]
    simp only
    split
    next hw =>
      refine ⟨notes, hnotes, ⟨rfl, rfl, by simp, fun _ => ?_⟩⟩
      simpa [Interest, hd] using hw
    next hw => exact ⟨notes, hnotes, ⟨rfl, rfl, by simp, fun _ => by simp [Interest, hd]⟩⟩
  · have hd : message.drop nwrote = [] := by
      rw [List.drop_eq_nil_iff]
      omega
    rw [if_neg hm, hd]
    exact ⟨[], by simp, by simp, rfl, by simp, id⟩

/-- The direct write takes what the kernel accepts. -/
theorem writeDirect_ok {message : List UInt8} {env : SendEnv} {n : ℕ}
    (hw : env.write.of message = .ok n) (io : Io) :
    ∃ notes, (∀ e ∈ notes, e.isNotification) ∧
      io.writeDirect message env = ({ io with
        trace := io.trace ++ .directWrite message (.ok n) env.logErrno :: notes }, n, false) := by
  unfold writeDirect
  simp only [hw]
  split
  · obtain ⟨notes, he, hn⟩ :=
      queueWriteComplete_eq (io.emit (.directWrite message (.ok n) env.logErrno))
    exact ⟨notes, hn, by simp [he]⟩
  · exact ⟨[], by simp, rfl⟩

theorem writeDirect_err {message : List UInt8} {env : SendEnv} {e : Errno}
    (hw : env.write.of message = .err e) (io : Io) :
    io.writeDirect message env = ({ io with
        trace := io.trace ++ [.directWrite message (.err e) env.logErrno] }, 0,
      decide (e ≠ EWOULDBLOCK) && decide (Fatal env.logErrno)) := by
  unfold writeDirect
  simp only [hw]
  rfl

/-- What `sendInLoop` does on a connection that is not closed: its events after the call, and the
bytes that it buffers. -/
inductive SendCase (io : Io) (message : List UInt8) (env : SendEnv) : List Event → List UInt8 → Prop
  | behind {notes : List Event}
      (busy : ¬ (io.conn.channel.isWriting = false ∧ io.conn.outputBuffer.readable = []))
      (hn : ∀ e ∈ notes, e.isNotification) : SendCase io message env notes message
  | taken {n : ℕ} {notes : List Event} (hw : io.conn.channel.isWriting = false)
      (hr : io.conn.outputBuffer.readable = []) (hret : env.write.of message = .ok n)
      (hn : ∀ e ∈ notes, e.isNotification) :
      SendCase io message env (.directWrite message (.ok n) env.logErrno :: notes) (message.drop n)
  | failed {e : Errno} {notes : List Event} (hw : io.conn.channel.isWriting = false)
      (hr : io.conn.outputBuffer.readable = []) (hret : env.write.of message = .err e)
      (keep : ¬ (message ≠ [] ∧ e ≠ EWOULDBLOCK ∧ Fatal env.logErrno))
      (hn : ∀ e ∈ notes, e.isNotification) :
      SendCase io message env (.directWrite message (.err e) env.logErrno :: notes) message
  -- `faultError`
  | dropped {e : Errno} (hw : io.conn.channel.isWriting = false)
      (hr : io.conn.outputBuffer.readable = []) (hret : env.write.of message = .err e)
      (hm : message ≠ []) (he : e ≠ EWOULDBLOCK) (hf : Fatal env.logErrno) :
      SendCase io message env [.directWrite message (.err e) env.logErrno] []

/-- `r` is the direct write of an idle channel, or what stands for it on a busy one. -/
theorem sendInLoop_eq {message : List UInt8} {env : SendEnv} (hs : io.conn.state ≠ .kDisconnected)
    {r : Io × ℕ × Bool}
    (he : (if io.conn.channel.isWriting = false ∧ io.conn.outputBuffer.readable = [] then
      (io.emit (.sendInLoop message)).writeDirect message env
      else (io.emit (.sendInLoop message), 0, false)) = r) :
    io.sendInLoop message env =
      if r.2.2 = true then r.1
      else if 0 < message.length - r.2.1 then r.1.appendRemaining message r.2.1 else r.1 := by
  have hb : io.conn.outputBuffer.readableBytes = 0 ↔ io.conn.outputBuffer.readable = [] := by
    rw [ValidBuffer.readableBytes_eq, List.length_eq_zero_iff]
  unfold sendInLoop
  simp only [emit_conn, hs, if_false, hb, Bool.and_eq_true, Bool.not_eq_true', decide_eq_true_eq, he]
  cases r.2.2 with
  | true => simp
  | false => simp

theorem sendInLoop_cases (message : List UInt8) (env : SendEnv)
    (hs : io.conn.state ≠ .kDisconnected) :
    ∃ evs rest, SendCase io message env evs rest ∧
      io.Buffers (.sendInLoop message :: evs) rest (io.sendInLoop message env) := by
  by_cases hi : io.conn.channel.isWriting = false ∧ io.conn.outputBuffer.readable = []
  · obtain ⟨hw, hr⟩ := hi
    cases hret : env.write.of message with
    | ok n =>
      obtain ⟨notes, hn, he⟩ := writeDirect_ok hret (io.emit (.sendInLoop message))
      rw [emit_trace, List.append_assoc] at he
      rw [sendInLoop_eq hs ((if_pos ⟨hw, hr⟩).trans he), if_neg Bool.false_ne_true]
      obtain ⟨notes', hn', h⟩ := appendRemaining_spec message n { io with
        trace := io.trace ++ .sendInLoop message :: .directWrite message (.ok n) env.logErrno :: notes }
      refine ⟨_, _, .taken hw hr hret fun e hm => ?_, h.after⟩
      exact (List.mem_append.mp hm).elim (hn e) (hn' e)
    | err e =>
      have he := writeDirect_err hret (io.emit (.sendInLoop message))
      rw [emit_trace, List.append_assoc] at he
      rw [sendInLoop_eq hs ((if_pos ⟨hw, hr⟩).trans he)]
      by_cases hf : e ≠ EWOULDBLOCK ∧ Fatal env.logErrno
      · rw [if_pos (by simp [hf])]
        by_cases hm : message = []
        · exact ⟨_, _, .failed hw hr hret (fun h => h.1 hm) (List.forall_mem_nil _), rfl, rfl,
            by simp [hm], id⟩
        · exact ⟨_, _, .dropped hw hr hret hm hf.1 hf.2, rfl, rfl, (List.append_nil _).symm, id⟩
      · rw [if_neg (by simpa using hf)]
        obtain ⟨notes, hn, h⟩ := appendRemaining_spec message 0 { io with
          trace := io.trace ++ [.sendInLoop message, .directWrite message (.err e) env.logErrno] }
        exact ⟨_, _, .failed hw hr hret (fun h => hf h.2) hn, h.after⟩
  · obtain ⟨notes, hn, h⟩ := appendRemaining_spec message 0 (io.emit (.sendInLoop message))
    rw [sendInLoop_eq hs (if_neg hi), if_neg Bool.false_ne_true]
    exact ⟨_, _, .behind hi hn, h.after⟩

namespace SendCase

variable {message : List UInt8} {env : SendEnv} {evs : List Event} {rest : List UInt8}

theorem shutdownWrite_not_mem (h : SendCase io message env evs rest) (b : List UInt8) :
    .shutdownWrite b ∉ .sendInLoop message :: evs := by
  cases h with
  | behind _ hn | taken _ _ _ hn | failed _ _ _ _ hn =>
    simpa using Io.shutdownWrite_not_mem hn b
  | dropped => simp

theorem submitted_eq (h : SendCase io message env evs rest) : submitted evs = [] := by
  cases h with
  | behind _ hn => exact (silent_of_notifications hn).submitted
  | taken _ _ _ hn | failed _ _ _ _ hn => exact (silent_of_notifications hn).submitted
  | dropped => rfl

/-- The message goes behind what is buffered, unless it is dropped. -/
theorem whole_or_dropped (h : SendCase io message env evs rest) :
    (¬ Clobbered evs ∧ io.conn.outputBuffer.readable ++ message =
        accepted evs ++ (io.conn.outputBuffer.readable ++ rest)) ∨
      ∃ e, evs = [.directWrite message (.err e) env.logErrno] ∧ rest = [] ∧
        env.write.of message = .err e ∧ message ≠ [] ∧ e ≠ EWOULDBLOCK ∧ Fatal env.logErrno := by
  cases h with
  | behind _ hn =>
    have hsil := silent_of_notifications hn
    exact .inl ⟨hsil.clobbered, by simp [hsil.accepted]⟩
  | taken _ hr _ hn =>
    have hsil := silent_of_notifications hn
    exact .inl ⟨by simp [Event.Clobbered, hsil.clobbered], by simp [Event.accepted, hr, hsil.accepted]⟩
  | failed _ _ _ keep hn =>
    have hsil := silent_of_notifications hn
    refine .inl ⟨?_, by simp [Event.accepted, hsil.accepted]⟩
    rw [clobbered_cons, not_or]
    exact ⟨fun hc => keep ⟨hc.1, hc.2.1, hc.2.2.2⟩, hsil.clobbered⟩
  | dropped _ _ hret hm he hf => exact .inr ⟨_, rfl, rfl, hret, hm, he, hf⟩

theorem passes (h : SendCase io message env evs rest) (hf : NoFault evs) :
    Passes io.conn.outputBuffer.readable (.sendInLoop message :: evs)
      (io.conn.outputBuffer.readable ++ rest) := by
  rcases h.whole_or_dropped with ⟨hc, he⟩ | ⟨e, rfl, rfl, -, hm, he, hlog⟩
  · refine .of_exact (by simpa using hc) ?_
    simpa [Event.submitted, Event.accepted, h.submitted_eq] using he
  · have hfe : ¬ Fatal e := hf (.directWrite message (.err e) env.logErrno) (List.mem_singleton_self _)
    have hc : Event.Clobbered (.directWrite message (.err e) env.logErrno) := ⟨hm, he, hfe, hlog⟩
    have := List.length_pos_iff.mpr hm
    refine ⟨fun h => absurd (by simp [hc]) h, ?_, fun _ => ?_⟩ <;>
      simp [Event.accepted, Event.submitted, this]

end SendCase

/-- `sendInLoop` on a connection that is not closed: its message enters the stream, or a direct
write is clobbered and the message is lost. -/
theorem sendInLoop_sent (message : List UInt8) (env : SendEnv) (hs : io.conn.state ≠ .kDisconnected)
    (hi : io.Interest) (hf : NoFault (io.sendInLoop message env).trace) :
    ∃ evs, io.Sent evs (io.sendInLoop message env) ∧ (io.sendInLoop message env).Interest ∧
      ∀ b, .shutdownWrite b ∉ evs := by
  obtain ⟨evs, rest, h, hb⟩ := sendInLoop_cases message env hs
  rw [hb.trace] at hf
  refine ⟨.sendInLoop message :: evs, ⟨hb.trace, hb.state, ?_⟩, hb.interest hi,
    h.shutdownWrite_not_mem⟩
  rw [hb.output]
  exact h.passes fun e he => hf e (by simp [he])

/-! ### `shutdownInLoop` and `handleWrite` -/

/-- The end of writing is announced only when nothing is buffered. -/
theorem shutdownInLoop_eq (hi : io.Interest) :
    io.shutdownInLoop =
      if io.conn.channel.isWriting then io else io.emit (.shutdownWrite []) := by
  unfold shutdownInLoop
  split
  · rfl
  next hw =>
    have hr : io.conn.outputBuffer.readable = [] := by simpa [Interest, hw] using hi
    rw [hr]

/-- `shutdownWrite`, where the source calls `shutdownInLoop` after the drain. -/
def finOf (s : StateE) : List Event := if s = .kDisconnecting then [.shutdownWrite []] else []

theorem silent_finOf (s : StateE) : Silent (finOf s) := by
  unfold finOf
  split
  · exact silent_shutdownWrite []
  · exact ⟨rfl, rfl, not_clobbered_nil⟩

/-- After the drain: write interest off, the user notified, `shutdownWrite` if it was asked for. -/
theorem drained_sent (io : Io) (hr : io.conn.outputBuffer.readable = []) :
    ∃ notes, (∀ e ∈ notes, e.isNotification) ∧
      io.Sent (notes ++ finOf io.conn.state) io.drained ∧ io.drained.Interest ∧
      io.drained.conn.outputBuffer = io.conn.outputBuffer := by
  obtain ⟨notes, he, hn⟩ := queueWriteComplete_eq (io.onChannel Channel.disableWriting)
  have hd : io.drained = { io.onChannel Channel.disableWriting with
      trace := io.trace ++ (notes ++ finOf io.conn.state) } := by
    unfold drained finOf
    rw [he]
    by_cases hs : io.conn.state = .kDisconnecting
    · simp [hs, shutdownInLoop, hr, emit]
    · simp [hs]
  rw [hd]
  refine ⟨notes, hn, .of_silent ?_ rfl rfl rfl, by simp [Interest, hr], rfl⟩
  have h1 := silent_of_notifications hn
  have h2 := silent_finOf io.conn.state
  exact ⟨by simp [h1.accepted, h2.accepted], by simp [h1.submitted, h2.submitted],
    by simp [h1.clobbered, h2.clobbered]⟩

/-- `handleWrite` with write interest takes what the kernel accepts off the front of the buffer `q`. -/
theorem handleWrite_eq (ret : IoRet) (hw : io.conn.channel.isWriting = true) {q : List UInt8}
    (hq : io.conn.outputBuffer.readable = q) :
    ((∀ n, ret.of q = .ok n → n = 0) ∧ io.handleWrite ret = io.emit (.write q (ret.of q))) ∨
    (∃ n io', 0 < n ∧ ret.of q = .ok n ∧
      io' = (io.emit (.write q (.ok n))).setOutput (io.conn.outputBuffer.retrieve n) ∧
      io.handleWrite ret = if q.drop n = [] then io'.drained else io') := by
  unfold handleWrite
  rw [if_pos hw, hq]
  cases ret.of q with
  | err e => exact .inl ⟨by simp, rfl⟩
  | ok n =>
    by_cases hn : 0 < n
    · refine .inr ⟨n, _, hn, rfl, rfl, ?_⟩
      simp only [if_pos hn, setOutput_output, ValidBuffer.readableBytes_eq, emit_conn,
        ValidBuffer.readable_retrieve, List.length_eq_zero_iff, hq]
    · refine .inl ⟨?_, if_neg hn⟩
      rintro n ⟨⟩
      omega

/-- From `io` to `io'` one write of the buffered bytes `q` takes what the kernel accepts off their
front, and the events `fin` follow the notifications if that empties the buffer. -/
structure Writes (io : Io) (q : List UInt8) (ret : IoRet) (notes fin : List Event) (io' : Io) :
    Prop where
  note : ∀ e ∈ notes, e.isNotification
  trace : io'.trace = io.trace ++ (.write q ret :: notes ++ fin)
  state : io'.conn.state = io.conn.state
  stream : (Event.write q ret).accepted ++ io'.conn.outputBuffer.readable = q
  interest : io.Interest → io'.Interest
  fin_eq : fin = if q ≠ [] ∧ io'.conn.outputBuffer.readable = [] then finOf io.conn.state else []

namespace Writes

variable {q : List UInt8} {ret : IoRet} {notes fin : List Event}

theorem fin_cases (h : io.Writes q ret notes fin io') :
    fin = [] ∨ fin = [.shutdownWrite []] ∧ io'.conn.outputBuffer.readable = [] := by
  rw [h.fin_eq]
  unfold finOf
  split
  next hr =>
    split
    · exact .inr ⟨rfl, hr.2⟩
    · exact .inl rfl
  next => exact .inl rfl

theorem silent (h : io.Writes q ret notes fin io') : Silent (notes ++ fin) := by
  have h1 := silent_of_notifications h.note
  rcases h.fin_cases with rfl | ⟨rfl, -⟩
  · rwa [List.append_nil]
  · exact ⟨by simp [h1.accepted, Event.accepted], by simp [h1.submitted, Event.submitted],
      by simp [h1.clobbered, Event.Clobbered]⟩

theorem sent (h : io.Writes q ret notes fin io') (hq : io.conn.outputBuffer.readable = q) :
    io.Sent (.write q ret :: notes ++ fin) io' := by
  refine ⟨h.trace, h.state, ?_⟩
  rw [List.cons_append]
  refine .of_exact (by simp [Event.Clobbered, h.silent.clobbered]) ?_
  rw [submitted_cons, accepted_cons, h.silent.submitted, h.silent.accepted, List.append_nil,
    List.append_nil, h.stream, hq]
  exact List.append_nil q

theorem shutdownWrite_not_mem (h : io.Writes q ret notes fin io') (b : List UInt8) :
    .shutdownWrite b ∉ .write q ret :: notes := by
  simpa using Io.shutdownWrite_not_mem h.note b

end Writes

/-- The one write of `handleWrite`. -/
theorem handleWrite_cases (ret : IoRet) (hw : io.conn.channel.isWriting = true) {q : List UInt8}
    (hq : io.conn.outputBuffer.readable = q) :
    ∃ notes fin, io.Writes q (ret.of q) notes fin (io.handleWrite ret) := by
  rcases handleWrite_eq ret hw hq with ⟨h0, he⟩ | ⟨n, io', hpos, hret, rfl, he⟩
  · rw [he]
    refine ⟨[], [], by simp, by simp, rfl, ?_, id, by simp [hq]⟩
    cases hr : ret.of q with
    | err e => exact hq
    | ok n => simp [Event.accepted, h0 n hr, hq]
  · have hne : q ≠ [] := List.length_pos_iff.mp (hpos.trans_le (IoRet.le_of_of_eq_ok hret))
    rw [he, hret]
    by_cases hd : q.drop n = []
    · obtain ⟨notes, hn, h, hi', hb⟩ := drained_sent
        ((io.emit (.write q (.ok n))).setOutput (io.conn.outputBuffer.retrieve n))
        (by simpa [hq] using hd)
      rw [if_pos hd]
      refine ⟨notes, finOf io.conn.state, hn, ?_, h.state, ?_, fun _ => hi', ?_⟩
      · simpa using h.trace
      · rw [hb]
        simp [Event.accepted, hq]
      · rw [hb]
        simp [hq, hd, hne]
    · rw [if_neg hd]
      refine ⟨[], [], by simp, by simp, rfl, by simp [Event.accepted, hq], fun _ => ?_,
        by simp [hq, hd]⟩
      simp [Interest, hw, hq, hd]

/-- `handleWrite` on the stream; the write that empties the buffer of a connection in
`kDisconnecting` is followed by `shutdownWrite`. -/
theorem handleWrite_sent (ret : IoRet) (hi : io.Interest) :
    ∃ evs fin, io.Sent (evs ++ fin) (io.handleWrite ret) ∧ (io.handleWrite ret).Interest ∧
      (∀ b, .shutdownWrite b ∉ evs) ∧
      fin = if io.conn.channel.isWriting = true ∧
        (io.handleWrite ret).conn.outputBuffer.readable = [] then finOf io.conn.state else [] := by
  cases hw : io.conn.channel.isWriting with
  | false =>
    have he : io.handleWrite ret = io := by simp [handleWrite, hw]
    rw [he]
    exact ⟨[], [], .refl io, hi, by simp, by simp⟩
  | true =>
    obtain ⟨notes, fin, h⟩ := handleWrite_cases ret hw rfl
    refine ⟨_, fin, h.sent rfl, h.interest hi, h.shutdownWrite_not_mem, ?_⟩
    simpa [hi.mp hw] using h.fin_eq

end Io

end Mymuduo
