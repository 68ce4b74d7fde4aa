import Mymuduo.BufferRead
import Mymuduo.ConnRun
import Mymuduo.ConnSpec
import Mymuduo.Lib.Trace

/-!
# Mymuduo.CloseOnce — a connection is closed at most once

A connection is `Open` until the close callbacks have been invoked, and `Closed` after that.  The close
and the read callback of one dispatch exclude each other only as far as `EPOLLIN` tells them apart: for
`EPOLLHUP` and `EPOLLPRI` without `EPOLLIN` both are invoked (`CloseAndRead`), and a read that does not
fail then closes a second time or delivers a message after the close.

Between two dispatches a closed connection has no interest and epoll does not know its descriptor
(`Deaf`), so that it is not dispatched any more, as long as `connectDestroyed` runs as a functor
(`InTurn`).  `~TcpServer` in a callback of the same loop runs it while the channel may still be active: the
dispatch that follows finds the connection closed, and may close it again.
-/

namespace Mymuduo

open Lib Events

namespace Io

variable {io io' : Io}

/-- The close has not begun. -/
structure Open (io : Io) : Prop where
  not_called : .connectionCallback false ∉ io.trace
  not_closed : .closeCallback ∉ io.trace
  state : io.conn.state ≠ .kDisconnected

/-- The close is over. -/
structure Closed (io : Io) : Prop where
  once : NoneAfter (· = .connectionCallback false)
    (fun e => e = .connectionCallback false ∨ e = .messageCallback) io.trace
  close : NoneAfter (· = .closeCallback) (· = .closeCallback) io.trace
  called : .connectionCallback false ∈ io.trace
  state : io.conn.state = .kDisconnected

/-- The channel has no interest, and epoll does not know the descriptor. -/
structure Deaf (io : Io) : Prop where
  idle : io.conn.channel.isWriting = false
  unregistered : io.poller.epoll io.conn.channel.fd = none

theorem Open.nil (h : io.trace = []) (hs : io.conn.state ≠ .kDisconnected) : io.Open :=
  ⟨by simp [h], by simp [h], hs⟩

/-- What happens on an open connection without invoking a callback. -/
theorem Open.of_frame (h : io.Open) (hf : Frame (fun e => e.IsCallback = false) io io')
    (hs : io'.conn.state ≠ .kDisconnected) : io'.Open := by
  obtain ⟨evs, ht, hq⟩ := hf.trace
  refine ⟨fun hm => ?_, fun hm => ?_, hs⟩ <;> rw [ht, List.mem_append] at hm
  · exact hm.elim h.not_called fun hm => by cases hq _ hm
  · exact hm.elim h.not_closed fun hm => by cases hq _ hm

theorem Open.emit (h : io.Open) {e : Event} (h1 : e ≠ .connectionCallback false)
    (h2 : e ≠ .closeCallback) : (io.emit e).Open :=
  ⟨by simpa [h.not_called] using h1.symm, by simpa [h.not_closed] using h2.symm, h.state⟩

/-- What happens on a closed connection without invoking a callback. -/
theorem Closed.of_frame (h : io.Closed) (hf : Frame (fun e => e.IsCallback = false) io io')
    (hs : io'.conn.state = io.conn.state) : io'.Closed := by
  obtain ⟨evs, ht, hq⟩ := hf.trace
  refine ⟨?_, ?_, ht ▸ List.mem_append_left _ h.called, hs.trans h.state⟩
  · rw [ht]
    refine h.once.append (fun e hm he => ?_) fun _ e hm he => ?_
    · subst he
      cases hq _ hm
    · rcases he with rfl | rfl <;> cases hq _ hm
  · rw [ht]
    refine h.close.append (fun e hm he => ?_) fun _ e hm he => ?_ <;>
      (subst he; cases hq _ hm)

/-- Going down on an open connection. -/
theorem Open.closed_trace (h : io.Open) :
    NoneAfter (· = .connectionCallback false)
      (fun e => e = .connectionCallback false ∨ e = .messageCallback)
      (io.trace ++ [.connectionCallback false]) ∧
    NoneAfter (· = .closeCallback) (· = .closeCallback) (io.trace ++ [.connectionCallback false]) := by
  have hn : ∀ {R : Event → Prop} {e : Event}, e ∉ io.trace → NoneAfter (· = e) R io.trace := by
    rintro R e he pre e' post ht rfl
    exact absurd (ht ▸ by simp) he
  refine ⟨(hn h.not_called).concat ?_, (hn h.not_closed).concat ?_⟩
  · rintro ⟨e, he, rfl⟩
    exact absurd he h.not_called
  · rintro ⟨e, he, rfl⟩
    exact absurd he h.not_closed

theorem Open.handleClose (h : io.Open) (acts : List UserAct) : (io.handleClose acts).Closed := by
  obtain ⟨b, hb⟩ := handleClose_eq acts io
  obtain ⟨h1, h2⟩ := h.closed_trace
  rw [hb]
  refine ⟨h1.concat ?_, h2.concat ?_, by simp [Io.closed], rfl⟩
  · simp
  · rintro ⟨e, he, rfl⟩
    have : Event.closeCallback ∈ io.trace ++ [.connectionCallback false] := he
    simp [h.not_closed] at this

/-- `disableAll` takes a registered channel out of the epoll set. -/
theorem disableAll_epoll (hc : Coherent io.poller io.conn.channel)
    (hi : io.conn.channel.index = .kAdded) : io.closed.poller.epoll io.conn.channel.fd = none := by
  have hu := updated (c := { io.conn.channel with events := kNoneEvent })
    (e := io.conn.channel.events) hc
  have hidx : (io.poller.updateChannel { io.conn.channel with events := kNoneEvent }).2.index =
      .kDeleted := by
    rw [hu.channel]
    simp [hi]
  have he := hu.coherent.epoll
  rw [hidx, if_neg (by simp), Channel.updateChannel_fd] at he
  exact he

theorem deaf_handleClose (hc : Coherent io.poller io.conn.channel)
    (hi : io.conn.channel.index = .kAdded) (acts : List UserAct) : (io.handleClose acts).Deaf := by
  obtain ⟨b, hb⟩ := handleClose_eq acts io
  have hfd : io.closed.conn.channel.fd = io.conn.channel.fd := Channel.updateChannel_fd _ _
  rw [hb]
  exact ⟨Channel.isWriting_disableAll _ _, (congrArg _ hfd).trans (disableAll_epoll hc hi)⟩

/-- `handleClose` never leaves the trace without its callbacks. -/
theorem handleClose_trace (acts : List UserAct) (io : Io) :
    (io.handleClose acts).trace = io.trace ++ [.connectionCallback false, .closeCallback] := by
  obtain ⟨b, hb⟩ := handleClose_eq acts io
  rw [hb]
  simp [closed]

/-- User code closes no connection. -/
theorem disconnected_of_user {acts : List UserAct} (h : (io.user acts).conn.state = .kDisconnected) :
    io.conn.state = .kDisconnected := by
  refine user_keeps (P := fun io' => io'.conn.state = .kDisconnected → io.conn.state = .kDisconnected)
    (fun io' a _ hio hd => hio ?_) id h
  cases a with
  | send message env =>
    by_cases hs : io'.conn.state = .kConnected
    · simp [act, send, hs] at hd
    · simpa [act, send, hs] using hd
  | shutdown =>
    by_cases hs : io'.conn.state = .kConnected
    · simp [act, shutdown, hs] at hd
    · simpa [act, shutdown, hs] using hd
  | retrieve len => exact hd

theorem connectEstablished_ne (acts : List UserAct) (io : Io) :
    (io.connectEstablished acts).conn.state ≠ .kDisconnected :=
  fun h => StateE.noConfusion (disconnected_of_user h)

/-! ### The handlers -/

theorem Open.user (h : io.Open) (acts : List UserAct) : (io.user acts).Open :=
  h.of_frame (.of_steps ((Steps.refl io).user (fun _ h => h) acts))
    fun hs => h.state (disconnected_of_user hs)

theorem Open.handleWrite (h : io.Open) (ret : IoRet) : (io.handleWrite ret).Open :=
  h.of_frame (.of_steps ((Steps.refl io).handleWrite (fun _ h => h) ret))
    (by rw [handleWrite_state]; exact h.state)

/-- A read on an open connection delivers a message, closes it, or fails. -/
theorem Open.handleRead (h : io.Open) (ret : ReadRet) (acts : List UserAct) :
    (io.handleRead ret acts).Open ∨ (io.handleRead ret acts).Closed := by
  cases ret with
  | err e => exact .inl h
  | ok data =>
    have h1 : (io.setInput (io.conn.inputBuffer.readFd
      (data.take io.conn.inputBuffer.val.offered))).Open := ⟨h.not_called, h.not_closed, h.state⟩
    simp only [Io.handleRead]
    split
    · exact .inr (h1.handleClose acts)
    · exact .inl ((h1.emit (e := .messageCallback) (by simp) (by simp)).user acts)

theorem Open.connectDestroyed (h : io.Open) (acts : List UserAct) :
    (io.connectDestroyed acts).Open ∨ (io.connectDestroyed acts).Closed := by
  obtain ⟨b, hb⟩ := connectDestroyed_eq acts io
  rw [hb]
  split
  · obtain ⟨h1, h2⟩ := h.closed_trace
    exact .inr ⟨h1, h2, by simp [Io.closed], rfl⟩
  · exact .inl ⟨h.not_called, h.not_closed, h.state⟩

/-- A read closes the connection and its registration, or leaves the connection open. -/
theorem deaf_handleRead (hs : io.conn.state ≠ .kDisconnected) (hc : Coherent io.poller io.conn.channel)
    (hi : io.conn.channel.index = .kAdded) (ret : ReadRet) (acts : List UserAct) :
    (io.handleRead ret acts).conn.state ≠ .kDisconnected ∨ (io.handleRead ret acts).Deaf := by
  cases ret with
  | err e => exact .inl hs
  | ok data =>
    simp only [Io.handleRead]
    generalize io.conn.inputBuffer.readFd _ = b
    split
    · exact .inr (@deaf_handleClose (io.setInput b) hc hi acts)
    · exact .inl fun hd => hs (@disconnected_of_user ((io.setInput b).emit .messageCallback) _ hd)

/-! ### A closed connection -/

theorem Closed.handleWrite (h : io.Closed) (ret : IoRet) : (io.handleWrite ret).Closed :=
  h.of_frame (.of_steps ((Steps.refl io).handleWrite (fun _ h => h) ret)) (handleWrite_state ret io)

theorem Closed.connectDestroyed (h : io.Closed) (acts : List UserAct) :
    (io.connectDestroyed acts).Closed := by
  obtain ⟨b, hb⟩ := connectDestroyed_eq acts io
  rw [hb, if_neg (by simp [h.state])]
  exact ⟨h.once, h.close, h.called, h.state⟩

theorem Closed.act (h : io.Closed) (a : UserAct) : (io.act a).Closed := by
  obtain ⟨b, hb⟩ := user_of_ne io [a] (by simp [h.state])
  rw [show io.act a = io.setInput b from hb]
  exact ⟨h.once, h.close, h.called, h.state⟩

/-- Nothing is registered on a closed connection. -/
theorem Deaf.act (h : io.Deaf) (hs : io.conn.state = .kDisconnected) (a : UserAct) :
    (io.act a).Deaf := by
  obtain ⟨b, hb⟩ := user_of_ne io [a] (by simp [hs])
  rw [show io.act a = io.setInput b from hb]
  exact ⟨h.idle, h.unregistered⟩

end Io

/-! ### One dispatch -/

/-- Both the close and the read callback are invoked. -/
def Events.CloseAndRead (r : Events) : Prop :=
  r.epollhup = true ∧ r.epollpri = true ∧ r.epollin = false

instance (r : Events) : Decidable r.CloseAndRead := inferInstanceAs (Decidable (_ ∧ _ ∧ _))

/-- The close callback is invoked, or the read callback, and the read does not fail. -/
def Events.CloseOrRead (r : Events) (ok : Bool) : Prop :=
  r.epollhup = true ∧ r.epollin = false ∨ (r.epollin = true ∨ r.epollpri = true) ∧ ok = true

instance (r : Events) (ok : Bool) : Decidable (r.CloseOrRead ok) :=
  inferInstanceAs (Decidable (_ ∧ _ ∨ _ ∧ _))

def ReadRet.isOk : ReadRet → Bool
  | .ok _ => true
  | .err _ => false

/-- `handleClose` is called, at once or because the read finds the end of the stream. -/
def Events.CallsClose (r : Events) (ret : ReadRet) : Prop :=
  r.epollhup = true ∧ r.epollin = false ∨ (r.epollin = true ∨ r.epollpri = true) ∧ ret = .ok []

instance (r : Events) (ret : ReadRet) : Decidable (r.CallsClose ret) :=
  inferInstanceAs (Decidable (_ ∧ _ ∨ _ ∧ _))

namespace Io

variable {io io' : Io}

/-- A dispatch that does not both close and read leads from `O` to `C` at most once. -/
theorem dispatch_once {O C : Io → Prop} {env : Callback → CallbackEnv}
    (hclose : C (io.handleClose (env .close).acts))
    (hread : O (io.handleRead (env .read).read (env .read).acts) ∨
      C (io.handleRead (env .read).read (env .read).acts))
    (hO : ∀ io ret, O io → O (handleWrite ret io)) (hC : ∀ io ret, C io → C (handleWrite ret io))
    (h : O io) (hn : ¬ (io.conn.channel.revents.CloseAndRead ∧ (env .read).read.isOk = true)) :
    O (io.handleEventWithGuard env) ∨ C (io.handleEventWithGuard env) := by
  rw [handleEventWithGuard_eq env io rfl]
  simp only
  have hwrite : ∀ {x : Io}, O x ∨ C x →
      O (if io.conn.channel.revents.epollout then x.handleWrite (env .write).write else x) ∨
      C (if io.conn.channel.revents.epollout then x.handleWrite (env .write).write else x) := by
    intro x hx
    split
    · exact hx.imp (hO x _) (hC x _)
    · exact hx
  refine hwrite ?_
  by_cases hcl : (io.conn.channel.revents.epollhup && !io.conn.channel.revents.epollin) = true
  · -- after the close callback the read callback does nothing: there is none, or the read fails
    rw [if_pos hcl]
    rw [Bool.and_eq_true, Bool.not_eq_true'] at hcl
    split
    next hrd =>
      rw [hcl.2, Bool.false_or] at hrd
      cases hr : (env .read).read with
      | ok data => exact absurd ⟨⟨hcl.1, hrd, hcl.2⟩, by rw [hr]; rfl⟩ hn
      | err e => exact .inr hclose
    next => exact .inr hclose
  · rw [if_neg hcl]
    split
    · exact hread
    · exact .inl h

/-- A dispatch that neither closes nor reads. -/
theorem Closed.dispatch (h : io.Closed) {env : Callback → CallbackEnv}
    (hn : ¬ io.conn.channel.revents.CloseOrRead (env .read).read.isOk) :
    (io.handleEventWithGuard env).Closed := by
  obtain ⟨hc, hr⟩ := not_or.mp hn
  have hclose : (io.conn.channel.revents.epollhup && !io.conn.channel.revents.epollin) = false := by
    simpa using hc
  have hread : (if io.conn.channel.revents.epollin || io.conn.channel.revents.epollpri then
      io.handleRead (env .read).read (env .read).acts else io) = io := by
    split
    next hin =>
      cases hrd : (env .read).read with
      | ok data => exact absurd ⟨by simpa using hin, by rw [hrd]; rfl⟩ hr
      | err e => rfl
    next => rfl
  rw [handleEventWithGuard_eq env io rfl]
  simp only [hclose, Bool.false_eq_true, if_false, hread]
  split
  · exact h.handleWrite _
  · exact h

/-- A read that succeeds invokes a callback first of all. -/
theorem handleRead_trace (data : List UInt8) (acts : List UserAct) (io : Io) :
    ∃ e, (e = .connectionCallback false ∨ e = .messageCallback) ∧
      io.trace ++ [e] <+: (io.handleRead (.ok data) acts).trace := by
  simp only [handleRead]
  split
  · refine ⟨_, .inl rfl, ?_⟩
    rw [handleClose_trace]
    exact ⟨[.closeCallback], by simp⟩
  · refine ⟨_, .inr rfl, ?_⟩
    generalize io.conn.inputBuffer.readFd _ = b
    exact ((Steps.refl ((io.setInput b).emit .messageCallback)).user any_event acts).prefix_trace

/-- A dispatch that closes and reads shows both in the trace. -/
theorem dispatch_closeAndRead {env : Callback → CallbackEnv}
    (hr : io.conn.channel.revents.CloseAndRead) (hok : (env .read).read.isOk = true) :
    ∃ e, (e = .connectionCallback false ∨ e = .messageCallback) ∧
      io.trace ++ [.connectionCallback false, .closeCallback, e] <+:
        (io.handleEventWithGuard env).trace := by
  obtain ⟨hhup, hpri, hin⟩ := hr
  obtain ⟨data, hd⟩ : ∃ data, (env .read).read = .ok data := by
    cases hrd : (env .read).read with
    | ok data => exact ⟨data, rfl⟩
    | err e => simp [hrd, ReadRet.isOk] at hok
  obtain ⟨e, he, hp⟩ := handleRead_trace data (env .read).acts (io.handleClose (env .close).acts)
  refine ⟨e, he, ?_⟩
  rw [handleClose_trace, List.append_assoc] at hp
  rw [handleEventWithGuard_eq env io rfl]
  simp only [hhup, hpri, hin, hd, Bool.not_false, Bool.and_self, Bool.or_true, if_true]
  refine hp.trans ?_
  split
  · exact ((Steps.refl _).handleWrite any_event _).prefix_trace
  · exact List.prefix_rfl

/-- A dispatch that closes or reads shows the first of the two in the trace. -/
theorem dispatch_closeOrRead {env : Callback → CallbackEnv}
    (h : io.conn.channel.revents.CloseOrRead (env .read).read.isOk) :
    ∃ e, (e = .connectionCallback false ∨ e = .messageCallback) ∧
      io.trace ++ [e] <+: (io.handleEventWithGuard env).trace := by
  rw [handleEventWithGuard_eq env io rfl]
  simp only
  have hwrite : ∀ {x : Io} {t : List Event}, t <+: x.trace →
      t <+: (if io.conn.channel.revents.epollout then x.handleWrite (env .write).write else x).trace := by
    intro x t ht
    split
    · exact ht.trans ((Steps.refl x).handleWrite any_event _).prefix_trace
    · exact ht
  by_cases hcl : (io.conn.channel.revents.epollhup && !io.conn.channel.revents.epollin) = true
  · refine ⟨_, .inl rfl, hwrite ?_⟩
    have hp : io.trace ++ [.connectionCallback false] <+: (io.handleClose (env .close).acts).trace := by
      rw [handleClose_trace]
      exact ⟨[.closeCallback], by simp⟩
    rw [if_pos hcl]
    split
    · exact hp.trans ((Steps.refl _).handleRead _ _).prefix_trace
    · exact hp
  · obtain ⟨hread, hok⟩ := h.resolve_left fun hc => hcl (by simpa using hc)
    have hin : (io.conn.channel.revents.epollin || io.conn.channel.revents.epollpri) = true := by
      simpa using hread
    rw [if_neg hcl, if_pos hin]
    cases hr : (env .read).read with
    | err e => simp [hr, ReadRet.isOk] at hok
    | ok data =>
      obtain ⟨e, he, hp⟩ := handleRead_trace data (env .read).acts io
      exact ⟨e, he, hwrite hp⟩

/-- What invokes no callback does not call `closeCallback`. -/
theorem Frame.closeCallback_mem (h : Frame (fun e => e.IsCallback = false) io io') :
    .closeCallback ∈ io'.trace ↔ .closeCallback ∈ io.trace := by
  obtain ⟨evs, ht, hK⟩ := h.trace
  rw [ht, List.mem_append]
  exact or_iff_left fun hm => absurd (hK _ hm) (by simp [Event.IsCallback])

/-- User code does not call it. -/
theorem closeCallback_mem_user (acts : List UserAct) (io : Io) :
    .closeCallback ∈ (io.user acts).trace ↔ .closeCallback ∈ io.trace :=
  (Frame.of_steps ((Steps.refl io).user (fun _ h => h) acts)).closeCallback_mem

/-- A read calls `closeCallback` at the end of the stream. -/
theorem closeCallback_mem_handleRead (ret : ReadRet) (acts : List UserAct) (io : Io) :
    .closeCallback ∈ (io.handleRead ret acts).trace ↔ .closeCallback ∈ io.trace ∨ ret = .ok [] := by
  cases ret with
  | err e => simp [handleRead]
  | ok data =>
    have hroom : 0 < io.conn.inputBuffer.val.offered :=
      Nat.lt_of_lt_of_le (by decide) io.conn.inputBuffer.val.kExtraBuf_le_offered
    have htake : data.take io.conn.inputBuffer.val.offered = [] ↔ data = [] := by
      rw [List.take_eq_nil_iff]
      exact or_iff_right hroom.ne'
    simp only [handleRead, htake, ReadRet.ok.injEq]
    generalize io.conn.inputBuffer.readFd _ = b
    split
    next hd => simp [handleClose_trace, hd]
    next hd =>
      rw [closeCallback_mem_user]
      simp [hd]

/-- **Which dispatches call `closeCallback`.** -/
theorem closeCallback_mem_dispatch (env : Callback → CallbackEnv) (io : Io) :
    .closeCallback ∈ (io.handleEventWithGuard env).trace ↔
      .closeCallback ∈ io.trace ∨ io.conn.channel.revents.CallsClose (env .read).read := by
  have hwrite : ∀ x : Io, .closeCallback ∈
      (if io.conn.channel.revents.epollout then x.handleWrite (env .write).write else x).trace ↔
        .closeCallback ∈ x.trace := by
    intro x
    split
    · exact (Frame.of_steps ((Steps.refl x).handleWrite (fun _ h => h) _)).closeCallback_mem
    · rfl
  have hread : ∀ x : Io, .closeCallback ∈
      (if io.conn.channel.revents.epollin || io.conn.channel.revents.epollpri then
        x.handleRead (env .read).read (env .read).acts else x).trace ↔
      .closeCallback ∈ x.trace ∨
        (io.conn.channel.revents.epollin = true ∨ io.conn.channel.revents.epollpri = true) ∧
          (env .read).read = .ok [] := by
    intro x
    rw [← Bool.or_eq_true]
    split
    next hin => rw [closeCallback_mem_handleRead, and_iff_right hin]
    next hin => exact (or_iff_left fun h => hin h.1).symm
  rw [handleEventWithGuard_eq env io rfl]
  simp only [hwrite, hread]
  rw [Events.CallsClose, ← or_assoc]
  refine or_congr_left ?_
  split
  next hclose =>
    rw [Bool.and_eq_true, Bool.not_eq_true'] at hclose
    simp [handleClose_trace, hclose]
  next hclose =>
    rw [Bool.and_eq_true, Bool.not_eq_true'] at hclose
    exact (or_iff_left hclose).symm

end Io

/-! ### Runs -/

/-- Both close callbacks are invoked at most once, and no message comes after the close. -/
structure CloseOnce (trace : List Event) : Prop where
  connection : trace.count (.connectionCallback false) ≤ 1
  close : trace.count .closeCallback ≤ 1
  message : ∀ pre post, trace = pre ++ .connectionCallback false :: post → .messageCallback ∉ post

/-- Nothing more may come after a close. -/
theorem CloseOnce.not_of_prefix {trace pre : List Event} {e : Event}
    (hm : .connectionCallback false ∈ pre) (he : e = .connectionCallback false ∨ e = .messageCallback)
    (hp : pre ++ [e] <+: trace) : ¬ CloseOnce trace := by
  intro h
  obtain ⟨post, rfl⟩ := hp
  obtain ⟨as, bs, rfl⟩ := List.append_of_mem hm
  rcases he with rfl | rfl
  · have hcount := h.connection
    simp only [List.append_assoc, List.count_append, List.cons_append, List.count_cons_self,
      List.nil_append] at hcount
    omega
  · refine h.message as (bs ++ [.messageCallback] ++ post) (by simp) (by simp)

theorem Io.Open.closeOnce {io : Io} (h : io.Open) : CloseOnce io.trace where
  connection := by simp [List.count_eq_zero_of_not_mem h.not_called]
  close := by simp [List.count_eq_zero_of_not_mem h.not_closed]
  message pre post ht := absurd (by simp [ht]) h.not_called

theorem Io.Closed.closeOnce {io : Io} (h : io.Closed) : CloseOnce io.trace where
  connection := NoneAfter.count_le_one fun pre e post ht he e' hm he' =>
    h.once pre e post ht he e' hm (.inl he')
  close := h.close.count_le_one
  message pre post ht hm := h.once pre _ post ht rfl _ hm (.inr rfl)

namespace Conn

/-- The dispatch closes and reads, or it finds the connection closed and does one of the two. -/
def ClosesAgain (s : Conn) (env : Io.Callback → Io.CallbackEnv) : Prop :=
  s.io.conn.channel.revents.CloseAndRead ∧ (env .read).read.isOk = true ∨
    s.io.conn.state = .kDisconnected ∧ s.io.conn.channel.revents.CloseOrRead (env .read).read.isOk

instance (s : Conn) (env : Io.Callback → Io.CallbackEnv) : Decidable (s.ClosesAgain env) :=
  inferInstanceAs (Decidable (_ ∧ _ ∨ _ ∧ _))

/-- The steps that keep a connection closed once: no dispatch closes again, and no `shutdown()` of another
thread overwrites `kDisconnected`.  The handlers that invoke a callback are called by a dispatch only. -/
def Permitted (s : Conn) : Label → Prop
  | .dispatch env => ¬ s.ClosesAgain env
  | .storeDisconnecting => s.io.conn.state ≠ .kDisconnected
  | .handleRead .. | .handleClose .. => False
  | _ => True

instance (s : Conn) (l : Label) : Decidable (s.Permitted l) := by
  cases l <;> unfold Permitted <;> infer_instance

/-- The steps of the loop while no server is destroyed: `connectDestroyed` is a functor, which runs when
every active channel has been dispatched, and the handlers are called by a dispatch only. -/
def InTurn (s : Conn) : Label → Prop
  | .dispatch env => ¬ (s.io.conn.channel.revents.CloseAndRead ∧ (env .read).read.isOk = true)
  | .connectDestroyed _ => s.active = false
  | .storeDisconnecting => s.io.conn.state ≠ .kDisconnected
  | .handleRead .. | .handleWrite .. | .handleClose .. => False
  | _ => True

instance (s : Conn) (l : Label) : Decidable (s.InTurn l) := by
  cases l <;> unfold InTurn <;> infer_instance

/-- The steps of the loop thread. -/
def Label.OfLoop : Label → Prop
  | .handleRead .. | .handleWrite .. | .handleClose .. | .storeDisconnecting => False
  | _ => True

instance (l : Label) : Decidable l.OfLoop :=
  match l with
  | .handleRead .. | .handleWrite .. | .handleClose .. | .storeDisconnecting => .isFalse id
  | .connectEstablished _ | .connectDestroyed _ | .sendInLoop .. | .shutdownInLoop | .act _
  | .poll _ | .dispatch _ => .isTrue trivial

structure OnceInv (s : Conn) : Prop where
  fresh : s.established = false → s.io.trace = []
  phase : s.io.Open ∨ s.io.Closed

theorem OnceInv.closeOnce {s : Conn} (h : s.OnceInv) : CloseOnce s.io.trace :=
  h.phase.elim (fun h => h.closeOnce) fun h => h.closeOnce

theorem OnceInv.open_of_ne {s : Conn} (h : s.OnceInv) (hs : s.io.conn.state ≠ .kDisconnected) :
    s.io.Open :=
  h.phase.resolve_right fun hc => hs hc.state

theorem OnceInv.step {s s' : Conn} {l : Label} (h : s.OnceInv) (hp : s.Permitted l)
    (hst : s.step l = some s') : s'.OnceInv := by
  have hest := established_step hst
  obtain ⟨hen, rfl⟩ := of_guard hst
  refine ⟨fun hf => Bool.noConfusion (hest.symm.trans hf), ?_⟩
  have hquiet := Io.Steps.refl (K := fun e : Event => e.IsCallback = false) s.io
  -- a member function that invokes no callback and keeps the state
  have hsame : ∀ {io : Io}, Io.Frame (fun e => e.IsCallback = false) s.io io →
      io.conn.state = s.io.conn.state → io.Open ∨ io.Closed := fun hf hs =>
    h.phase.imp (fun ho => ho.of_frame hf (hs ▸ ho.state)) fun hc => hc.of_frame hf hs
  cases l with
  | connectEstablished acts =>
    have hopen : (((s.io.setState .kConnected).tie).onChannel Channel.enableReading).Open :=
      .nil (h.fresh hen) (by simp [Io.tie])
    exact .inl ((hopen.emit (e := .connectionCallback true) (by simp) (by simp)).user acts)
  | connectDestroyed acts =>
    exact h.phase.elim (fun ho => ho.connectDestroyed acts) fun hc => .inr (hc.connectDestroyed acts)
  | sendInLoop message env =>
    exact hsame (.of_steps (hquiet.sendInLoop (fun _ h => h) message env)) (Io.sendInLoop_state ..)
  | shutdownInLoop =>
    refine hsame (.of_steps (hquiet.shutdownInLoop fun _ h => h)) ?_
    exact congrArg TcpConnection.state (Io.shutdownInLoop_conn _)
  | act a => exact h.phase.imp (fun ho => ho.user [a]) fun hc => hc.act a
  | poll revents =>
    exact h.phase.imp (fun ho => ⟨ho.not_called, ho.not_closed, ho.state⟩) fun hc =>
      ⟨hc.once, hc.close, hc.called, hc.state⟩
  | dispatch env =>
    obtain ⟨hn, hcl⟩ := not_or.mp hp
    rcases h.phase with ho | hc
    · exact Io.dispatch_once (ho.handleClose _) (ho.handleRead _ _) (fun _ ret ho => ho.handleWrite ret)
        (fun _ ret hc => hc.handleWrite ret) ho hn
    · exact .inr (hc.dispatch fun hor => hcl ⟨hc.state, hor⟩)
  | handleWrite ret =>
    exact hsame (.of_steps (hquiet.handleWrite (fun _ h => h) ret)) (Io.handleWrite_state ..)
  | storeDisconnecting =>
    have ho := h.open_of_ne hp
    exact .inl ⟨ho.not_called, ho.not_closed, StateE.noConfusion⟩
  | handleRead ret acts => exact absurd hp id
  | handleClose acts => exact absurd hp id

theorem OnceInv.of_reach {s : Conn} (h : sys.Reach Permitted s) : s.OnceInv := by
  refine h.invariant (fun s hi => ?_) (fun s l s' hI hC hst => hI.step hC hst)
  obtain ⟨this, fd, wc, hw, hc⟩ := hi.conn
  exact ⟨fun _ => hi.trace, .inl (.nil hi.trace (by simp [hc, TcpConnection.new]))⟩

/-! ### While no server is destroyed -/

structure CloseInv (s : Conn) : Prop extends OnceInv s where
  coherent : Coherent s.io.poller s.io.conn.channel
  unborn : s.established = false → s.active = false
  added : s.active = true → s.io.conn.channel.index = .kAdded
  deaf : s.io.conn.state = .kDisconnected → s.active = false ∧ s.io.Deaf

/-- What epoll reports is a registered channel of a connection that is not closed. -/
theorem CloseInv.reported {s : Conn} (h : s.CloseInv) {m : Events}
    (hm : s.io.poller.epoll s.io.conn.channel.fd = some (m, s.io.conn.channel.this)) :
    s.io.conn.channel.index = .kAdded ∧ s.io.conn.state ≠ .kDisconnected := by
  constructor
  · by_contra hi
    have := h.coherent.epoll
    rw [if_neg hi, hm] at this
    cases this
  · intro hs
    rw [(h.deaf hs).2.unregistered] at hm
    cases hm

/-- Removing the channel of a closed connection, or of one that was never closed. -/
theorem epoll_remove (io : Io) (hc : Coherent io.poller io.conn.channel) :
    (io.onChannel Channel.remove).poller.epoll io.conn.channel.fd = none := by
  have he := (removed hc).coherent.epoll
  rw [(removed hc).channel] at he
  exact he

theorem CloseInv.deaf_connectDestroyed {s : Conn} (h : s.CloseInv) (acts : List UserAct)
    (hs : (s.io.connectDestroyed acts).conn.state = .kDisconnected) : (s.io.connectDestroyed acts).Deaf := by
  obtain ⟨b, hb⟩ := Io.connectDestroyed_eq acts s.io
  rw [hb] at hs ⊢
  split at hs
  next hk =>
    rw [if_pos hk]
    exact ⟨Channel.isWriting_disableAll _ _, epoll_remove s.io.closed (Io.coherent_closed h.coherent)⟩
  next hk =>
    rw [if_neg hk]
    exact ⟨(h.deaf hs).2.idle, epoll_remove s.io h.coherent⟩

theorem CloseInv.not_disconnected {s : Conn} (h : s.CloseInv) (ha : s.active = true) :
    s.io.conn.state ≠ .kDisconnected := fun hs =>
  Bool.noConfusion (ha.symm.trans (h.deaf hs).1)

theorem CloseInv.open_of_active {s : Conn} (h : s.CloseInv) (ha : s.active = true) : s.io.Open :=
  h.open_of_ne (h.not_disconnected ha)

/-- A dispatch meets no closed connection. -/
theorem CloseInv.closesAgain_iff {s : Conn} (h : s.CloseInv) (ha : s.active = true)
    (env : Io.Callback → Io.CallbackEnv) :
    s.ClosesAgain env ↔ s.io.conn.channel.revents.CloseAndRead ∧ (env .read).read.isOk = true :=
  or_iff_left fun hs => h.not_disconnected ha hs.1

theorem CloseInv.permitted {s : Conn} {l : Label} (h : s.CloseInv) (hen : s.Enabled l)
    (hp : s.InTurn l) : s.Permitted l := by
  cases l with
  | dispatch env => exact fun hca => hp ((h.closesAgain_iff hen.2 env).mp hca)
  | storeDisconnecting => exact hp
  | handleRead | handleClose => exact hp.elim
  | _ => trivial

theorem CloseInv.step {s s' : Conn} {l : Label} (h : s.CloseInv) (hp : s.InTurn l)
    (hst : s.step l = some s') : s'.CloseInv := by
  have hest := established_step hst
  have honce := h.toOnceInv.step (h.permitted (of_guard hst).1 hp) hst
  obtain ⟨hen, rfl⟩ := of_guard hst
  have hunborn : s.nextEstablished l = false → s.nextActive l = false := fun hf =>
    Bool.noConfusion (hest.symm.trans hf)
  have hio := Io.Steps.refl (K := fun _ => True) s.io
  cases l with
  | connectEstablished acts =>
    refine ⟨honce, (Io.Frame.of_steps (hio.connectEstablished acts)).coherent h.coherent, hunborn,
      fun hact => ?_, fun hs => absurd hs (Io.connectEstablished_ne acts s.io)⟩
    exact Bool.noConfusion ((h.unborn hen).symm.trans hact)
  | connectDestroyed acts =>
    refine ⟨honce, (Io.Frame.of_steps (hio.connectDestroyed acts)).coherent h.coherent, hunborn,
      fun hact => ?_, fun hs => ⟨hp, h.deaf_connectDestroyed acts hs⟩⟩
    exact Bool.noConfusion ((show s.active = false from hp).symm.trans hact)
  | sendInLoop message env =>
    refine ⟨honce, (Io.Frame.of_steps (hio.sendInLoop any_event message env)).coherent h.coherent, hunborn,
      fun ha => Io.sendInLoop_index (h.added ha), fun hs => ?_⟩
    have hd : s.io.conn.state = .kDisconnected := (Io.sendInLoop_state message env s.io).symm.trans hs
    have he : s.io.sendInLoop message env = s.io.emit (.sendInLoop message) := by
      simp [Io.sendInLoop, hd]
    rw [ioStep, he]
    exact ⟨(h.deaf hd).1, (h.deaf hd).2.idle, (h.deaf hd).2.unregistered⟩
  | shutdownInLoop =>
    have hconn := Io.shutdownInLoop_conn s.io
    refine ⟨honce, (Io.Frame.of_steps (hio.shutdownInLoop any_event)).coherent h.coherent, hunborn,
      fun ha => ?_, fun hs => ?_⟩
    · rw [ioStep, hconn]
      exact h.added ha
    · rw [ioStep, hconn] at hs
      have he : s.io.shutdownInLoop = s.io.emit (.shutdownWrite s.io.conn.outputBuffer.readable) := by
        simp [Io.shutdownInLoop, (h.deaf hs).2.idle]
      rw [ioStep, he]
      exact ⟨(h.deaf hs).1, (h.deaf hs).2.idle, (h.deaf hs).2.unregistered⟩
  | act a =>
    refine ⟨honce, (Io.Frame.of_steps (hio.act any_event a)).coherent h.coherent, hunborn,
      fun ha => Io.act_index a (h.added ha), fun hs => ?_⟩
    have hd := @Io.disconnected_of_user s.io [a] hs
    exact ⟨(h.deaf hd).1, (h.deaf hd).2.act hd a⟩
  | poll revents =>
    obtain ⟨he, ha, m, hm, -⟩ := hen
    obtain ⟨hi, hne⟩ := h.reported hm
    exact ⟨honce, ⟨h.coherent.epoll, h.coherent.channels⟩, hunborn, fun _ => hi, fun hs => absurd hs hne⟩
  | dispatch env =>
    obtain ⟨he, ha⟩ := hen
    have hne := h.not_disconnected ha
    refine ⟨honce, (Io.Frame.of_steps (hio.handleEventWithGuard env)).coherent h.coherent, hunborn,
      fun hact => Bool.noConfusion hact, fun hs => ⟨rfl, ?_⟩⟩
    refine (Io.dispatch_once (O := fun io => io.conn.state ≠ .kDisconnected) (C := Io.Deaf)
      (Io.deaf_handleClose h.coherent (h.added ha) _)
      (Io.deaf_handleRead hne h.coherent (h.added ha) _ _) (fun io ret ho => ?_) (fun io ret hd => ?_)
      hne hp).resolve_left fun hn => hn hs
    · rw [Io.handleWrite_state]
      exact ho
    · rw [show io.handleWrite ret = io by simp [Io.handleWrite, hd.idle]]
      exact hd
  | storeDisconnecting =>
    exact ⟨honce, h.coherent, hunborn, h.added, StateE.noConfusion⟩
  | handleRead ret acts => exact absurd hp id
  | handleWrite ret => exact absurd hp id
  | handleClose acts => exact absurd hp id

theorem CloseInv.of_reach {s : Conn} (h : sys.Reach InTurn s) : s.CloseInv := by
  refine h.invariant (fun s hi => ?_) (fun s l s' hI hC hst => hI.step hC hst)
  refine ⟨.of_reach (.init hi), hi.coherent, fun _ => hi.active, fun ha => ?_, fun hs => ?_⟩
  · rw [hi.active] at ha
    cases ha
  · obtain ⟨this, fd, wc, hw, hc⟩ := hi.conn
    simp [hc, TcpConnection.new] at hs

/-- **A connection is closed at most once**, in every run whose steps are permitted; and a dispatch
after such a run keeps it so exactly if it does not close again.  While no server is destroyed that is a
dispatch which both closes and reads. -/
theorem closed_at_most_once {s : Conn} (h : sys.Reach Permitted s) :
    CloseOnce s.io.trace ∧
    (∀ env s', s.step (.dispatch env) = some s' → (CloseOnce s'.io.trace ↔ ¬ s.ClosesAgain env)) ∧
    (sys.Reach InTurn s → ∀ env s', s.step (.dispatch env) = some s' →
      (s.ClosesAgain env ↔ s.io.conn.channel.revents.CloseAndRead ∧ (env .read).read.isOk = true)) := by
  have hinv := OnceInv.of_reach h
  refine ⟨hinv.closeOnce, fun env s' hst => ⟨fun hc hca => ?_, fun hp => ?_⟩, fun ht env s' hst => ?_⟩
  · obtain ⟨-, rfl⟩ := of_guard hst
    rcases hca with ⟨hr, hok⟩ | ⟨hs, hor⟩
    · obtain ⟨e, he, hpre⟩ := Io.dispatch_closeAndRead hr hok
      refine @CloseOnce.not_of_prefix _ (s.io.trace ++ [.connectionCallback false, .closeCallback]) _
        (by simp) he ?_ hc
      rw [List.append_assoc]
      exact hpre
    · obtain ⟨e, he, hpre⟩ := Io.dispatch_closeOrRead hor
      exact CloseOnce.not_of_prefix (hinv.phase.resolve_left fun ho => ho.state hs).called he hpre hc
  · exact (hinv.step (l := .dispatch env) hp hst).closeOnce
  · exact (CloseInv.of_reach ht).closesAgain_iff (of_guard hst).1.2 env

/-- The peer hangs up, and the read that comes with it finds the end of the stream. -/
theorem closed_at_most_once_hup :
    ∃ s : Conn, s.io.trace = [.connectionCallback true, .connectionCallback false, .closeCallback] ∧
      CloseOnce s.io.trace := by
  obtain ⟨s, hr, ht⟩ := Sys.Reach.exists_of_execIf (M := sys) (s := fresh) (C := Permitted)
    (P := fun s => s.io.trace =
      [.connectionCallback true, .connectionCallback false, .closeCallback])
    (.init fresh_fresh)
    ([.connectEstablished [], .poll ⟨true, false, false, false, true⟩,
      .dispatch fun _ => ⟨.ok [], .ok 0, []⟩])
    (by decide +kernel)
  exact ⟨s, ht, (closed_at_most_once hr).1⟩

/-- `EPOLLHUP` and `EPOLLPRI` in one dispatch, and a read that finds the end of the stream: closed
twice. -/
theorem closed_at_most_once_twice :
    ¬ ∀ s : Conn, sys.Reach (fun _ l => l.OfLoop) s → CloseOnce s.io.trace := by
  intro h
  obtain ⟨s, hr, ht⟩ := Sys.Reach.exists_of_execIf (M := sys) (s := fresh)
    (C := fun (_ : Conn) (l : Label) => l.OfLoop)
    (P := fun s => 1 < s.io.trace.count (.connectionCallback false))
    (.init fresh_fresh)
    ([.connectEstablished [], .poll ⟨false, true, false, false, true⟩,
      .dispatch fun _ => ⟨.ok [], .ok 0, []⟩])
    (by decide +kernel)
  exact absurd (h s hr).connection (by omega)

/-- `~TcpServer` destroys the connection while its channel waits for the dispatch: closed twice as well. -/
example : ((sys.execIf (fun _ l => l.OfLoop) fresh
    [.connectEstablished [], .poll ⟨true, false, false, false, false⟩, .connectDestroyed [],
      .dispatch fun _ => ⟨.ok [], .ok 0, []⟩]).map fun s =>
        s.io.trace.count (.connectionCallback false)) = some 2 := by
  decide +kernel

end Conn

end Mymuduo
