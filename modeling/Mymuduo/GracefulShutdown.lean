import Mymuduo.Lib.Trace
import Mymuduo.OutputStream

/-!
# Mymuduo.GracefulShutdown — the end of writing comes after the last byte

On runs of the loop thread alone, without clobbered writes: `shutdownWrite` is called with an empty
`outputBuffer`, when the kernel has accepted everything given to `sendInLoop`; after it nothing is
written and it is not called again; and in `kDisconnecting` it has been called exactly if
`outputBuffer` is empty (`Graceful`).
-/

namespace Mymuduo

open Lib

namespace Event

def IsFin : Event → Prop
  | .shutdownWrite _ => True
  | _ => False

def IsWrite : Event → Prop
  | .directWrite .. | .write .. => True
  | _ => False

end Event

/-- Nothing went wrong on the socket or in `errno`. -/
def Clean (trace : List Event) : Prop := NoFault trace ∧ ¬ Clobbered trace

theorem Clean.of_isPrefix {s t : List Event} (h : Clean t) (hp : s <+: t) : Clean s :=
  ⟨h.1.of_isPrefix hp, fun ⟨e, he, hc⟩ => h.2 ⟨e, hp.subset he, hc⟩⟩

/-- `shutdownWrite` is called at most once, when everything submitted has been accepted and nothing
is buffered, and nothing is written after it. -/
structure FinLast (trace : List Event) : Prop where
  empty : ∀ b, .shutdownWrite b ∈ trace → b = []
  flushed : Preceded Event.IsFin (fun pre => accepted pre = submitted pre) trace
  last : NoneAfter Event.IsFin (fun e => e.IsFin ∨ e.IsWrite) trace

def FinSent (trace : List Event) : Prop := ∃ e ∈ trace, e.IsFin

theorem not_isFin {evs : List Event} (h : ∀ b, .shutdownWrite b ∉ evs) : ∀ e ∈ evs, ¬ e.IsFin := by
  intro e he hf
  cases e with
  | shutdownWrite b => exact h b he
  | _ => exact hf

/-- Events without `shutdownWrite`, and without writes once it was called. -/
theorem FinLast.append {t : List Event} (h : FinLast t) (evs : List Event) (hf : ∀ e ∈ evs, ¬ e.IsFin)
    (hw : FinSent t → ∀ e ∈ evs, ¬ e.IsWrite) : FinLast (t ++ evs) where
  empty b hb := by
    rcases List.mem_append.mp hb with hb | hb
    · exact h.empty b hb
    · exact absurd trivial (hf _ hb)
  flushed := h.flushed.append hf
  last := h.last.append hf fun hs e he => not_or.mpr ⟨hf e he, hw hs e he⟩

theorem FinLast.concat {t : List Event} (h : FinLast t) (hn : ¬ FinSent t)
    (ha : accepted t = submitted t) : FinLast (t ++ [.shutdownWrite []]) where
  empty b hb := by
    rcases List.mem_append.mp hb with hb | hb
    · exact h.empty b hb
    · simpa using hb
  flushed := h.flushed.concat fun _ => ha
  last := h.last.concat fun hs => absurd hs hn

theorem FinSent.append {t evs : List Event} : FinSent (t ++ evs) ↔ FinSent t ∨ FinSent evs := by
  simp [FinSent, or_and_right, exists_or]

theorem not_finSent {evs : List Event} (h : ∀ e ∈ evs, ¬ e.IsFin) : ¬ FinSent evs :=
  fun ⟨e, he, hf⟩ => h e he hf

namespace Io

variable {io io' : Io}

/-- What holds between the steps of a connection, by its state. -/
structure Graceful (io : Io) : Prop where
  stream : io.conn.state ≠ .kDisconnected → io.Stream
  fin : FinLast io.trace
  before : io.conn.state = .kConnecting ∨ io.conn.state = .kConnected → ¬ FinSent io.trace
  closing : io.conn.state = .kDisconnecting →
    (FinSent io.trace ↔ io.conn.outputBuffer.readable = [])
  closed : io.conn.state = .kDisconnected → io.conn.channel.isWriting = false

def GracefulInv (io : Io) : Prop := Clean io.trace → io.Graceful

/-- With the stream intact and nothing buffered, everything submitted has been accepted. -/
theorem Stream.flushed (h : io.Stream) (hc : Clean io.trace)
    (hr : io.conn.outputBuffer.readable = []) : accepted io.trace = submitted io.trace := by
  have := h.2.exact hc.2
  rw [hr] at this
  simpa using this.symm

/-- Events that the property does not look at, with the same channel interest and buffer. -/
theorem Graceful.of_eq (h : io.Graceful) (evs : List Event) (ht : io'.trace = io.trace ++ evs)
    (he : Silent evs) (hf : ∀ e ∈ evs, ¬ e.IsFin ∧ ¬ e.IsWrite)
    (hs : io'.conn.state = io.conn.state)
    (hw : io'.conn.channel.isWriting = io.conn.channel.isWriting)
    (hb : io'.conn.outputBuffer = io.conn.outputBuffer) : io'.Graceful where
  stream hd := (h.stream (hs ▸ hd)).of_silent he ht hw hb
  fin := ht ▸ h.fin.append evs (fun e he => (hf e he).1) fun _ e he => (hf e he).2
  before hst := by
    rw [ht, FinSent.append, not_or]
    exact ⟨h.before (hs ▸ hst), not_finSent fun e he => (hf e he).1⟩
  closing hst := by
    rw [ht, FinSent.append, hb, or_iff_left (not_finSent fun e he => (hf e he).1)]
    exact h.closing (hs ▸ hst)
  closed hst := hw.trans (h.closed (hs ▸ hst))

theorem graceful_send {message : List UInt8} {env : SendEnv} (h : io.GracefulInv) :
    (io.send message env).GracefulInv := by
  unfold send
  split
  next hc =>
    intro hcl
    have hio := h (hcl.of_isPrefix ((Steps.refl io).sendInLoop any_event message env).prefix_trace)
    have hd : io.conn.state ≠ .kDisconnected := by simp [hc]
    have hn := hio.before (.inr hc)
    obtain ⟨evs, hsent, hi, hfin⟩ := sendInLoop_sent message env hd (hio.stream hd).1 hcl.1
    have hst : (io.sendInLoop message env).conn.state = .kConnected := by simp [hc]
    refine ⟨fun _ => hsent.stream hi (hio.stream hd), ?_, fun _ => ?_, fun hk => ?_, fun hk => ?_⟩
    · rw [hsent.trace]
      exact hio.fin.append _ (not_isFin hfin) fun hs => absurd hs hn
    · rw [hsent.trace, FinSent.append, not_or]
      exact ⟨hn, not_finSent (not_isFin hfin)⟩
    · rw [hst] at hk
      cases hk
    · rw [hst] at hk
      cases hk
  next => exact h

theorem graceful_shutdown_call (h : io.GracefulInv) : io.shutdown.GracefulInv := by
  unfold shutdown
  split
  next hc =>
    intro hcl
    have hsteps := ((Steps.refl io).setState .kDisconnecting).shutdownInLoop any_event
    have hio := h (hcl.of_isPrefix hsteps.prefix_trace)
    have hn := hio.before (.inr hc)
    have hs : (io.setState .kDisconnecting).Stream :=
      (hio.stream (by simp [hc])).of_silent silent_nil (by simp) rfl rfl
    rw [shutdownInLoop_eq hs.1] at hcl ⊢
    split at hcl
    next hw =>
      -- bytes are buffered: `shutdownWrite` is left to `handleWrite`
      rw [if_pos hw]
      have hr := hs.1.mp hw
      exact ⟨fun _ => hs, hio.fin, fun hk => by simp at hk, fun _ => iff_of_false hn hr,
        fun hk => by simp at hk⟩
    next hw =>
      rw [if_neg hw]
      have hr : io.conn.outputBuffer.readable = [] := by
        by_contra hne
        exact hw (hs.1.mpr hne)
      refine ⟨fun _ => hs.of_silent (silent_shutdownWrite []) rfl rfl rfl, ?_, fun hk => by simp at hk,
        fun _ => iff_of_true ⟨.shutdownWrite [], by simp, trivial⟩ hr, fun hk => by simp at hk⟩
      exact hio.fin.concat hn (hs.flushed (hcl.of_isPrefix (List.prefix_append _ _)) hr)
  next => exact h

theorem graceful_act (a : UserAct) (h : io.GracefulInv) : (io.act a).GracefulInv := by
  cases a with
  | send message env => exact graceful_send h
  | shutdown => exact graceful_shutdown_call h
  | retrieve len =>
    exact fun hcl => (h hcl).of_eq [] (by simp [act]) silent_nil (by simp) rfl rfl rfl

/-- A connection that has just been closed. -/
theorem graceful_closed (h : io.GracefulInv) : io.closed.GracefulInv := by
  intro hcl
  have hio := h (hcl.of_isPrefix (List.prefix_append _ _))
  refine ⟨fun hk => absurd rfl hk, ?_, fun hk => by simp [closed] at hk, fun hk => by simp [closed] at hk,
    fun _ => Channel.isWriting_disableAll _ _⟩
  exact hio.fin.append [.connectionCallback false] (by simp [Event.IsFin])
    (by simp [Event.IsWrite])

/-- With bytes buffered, `shutdownWrite` has not been called. -/
theorem Graceful.not_finSent (h : io.Graceful) (hw : io.conn.channel.isWriting = true) :
    io.conn.state ≠ .kDisconnected ∧ ¬ FinSent io.trace := by
  cases hs : io.conn.state with
  | kConnecting => exact ⟨by simp, h.before (.inl hs)⟩
  | kConnected => exact ⟨by simp, h.before (.inr hs)⟩
  | kDisconnecting =>
    refine ⟨by simp, fun hf => ?_⟩
    exact (h.stream (by simp [hs])).1.mp hw ((h.closing hs).mp hf)
  | kDisconnected =>
    rw [h.closed hs] at hw
    cases hw

theorem graceful_handleWrite (ret : IoRet) (h : io.GracefulInv) :
    (io.handleWrite ret).GracefulInv := by
  cases hw : io.conn.channel.isWriting with
  | false =>
    have he : io.handleWrite ret = io := by simp [handleWrite, hw]
    rwa [he]
  | true =>
    intro hcl
    have hio := h (hcl.of_isPrefix ((Steps.refl io).handleWrite any_event ret).prefix_trace)
    obtain ⟨hd, hn⟩ := hio.not_finSent hw
    obtain ⟨evs, fin, hsent, hi, hfin, hfeq⟩ := handleWrite_sent ret (hio.stream hd).1
    have hs' := hsent.stream hi (hio.stream hd)
    have hn' : ¬ FinSent (io.trace ++ evs) := by
      rw [FinSent.append, not_or]
      exact ⟨hn, Mymuduo.not_finSent (not_isFin hfin)⟩
    have hl : FinLast (io.trace ++ evs) := hio.fin.append _ (not_isFin hfin) fun hs => absurd hs hn
    simp only [hw, true_and] at hfeq
    have ht := hsent.trace
    rw [← List.append_assoc] at ht
    by_cases hr : (io.handleWrite ret).conn.outputBuffer.readable = [] ∧
        io.conn.state = .kDisconnecting
    · -- the drain of a connection that is being shut down
      rw [if_pos hr.1, finOf, if_pos hr.2] at hfeq
      subst hfeq
      refine ⟨fun _ => hs', ?_, fun hk => ?_, fun _ => iff_of_true ?_ hr.1, fun hk => ?_⟩
      · rw [ht]
        refine hl.concat hn' ?_
        have := hs'.flushed hcl hr.1
        rw [ht] at this
        simpa [Event.accepted, Event.submitted] using this
      · simp [hr.2] at hk
      · rw [ht]
        exact ⟨.shutdownWrite [], by simp, trivial⟩
      · simp [hr.2] at hk
    · have hnil : fin = [] := by
        rw [hfeq]
        split
        next hr' =>
          rw [finOf, if_neg]
          exact fun hk => hr ⟨hr', hk⟩
        next => rfl
      subst hnil
      rw [List.append_nil] at ht
      refine ⟨fun _ => hs', ht ▸ hl, fun _ => ht ▸ hn', fun hk => ?_, fun hk => ?_⟩
      · rw [handleWrite_state] at hk
        rw [ht]
        exact iff_of_false hn' fun hr' => hr ⟨hr', hk⟩
      · rw [handleWrite_state] at hk
        exact absurd hk hd

theorem graceful_handled : Handled GracefulInv where
  act _ a h := graceful_act a h
  closed _ h := graceful_closed h
  handleWrite _ ret h := graceful_handleWrite ret h
  setInput _ b h hcl := (h hcl).of_eq [] (by simp) silent_nil (by simp) rfl rfl rfl
  emit io e he h hcl := by
    have hio := h (hcl.of_isPrefix (List.prefix_append _ _))
    rcases he with rfl | rfl
    · exact hio.of_eq [.messageCallback] rfl (silent_callback rfl)
        (by simp [Event.IsFin, Event.IsWrite]) rfl rfl rfl
    · exact hio.of_eq [.closeCallback] rfl (silent_callback rfl)
        (by simp [Event.IsFin, Event.IsWrite]) rfl rfl rfl
  remove _ h hcl := (h hcl).of_eq [] (by simp) silent_nil (by simp) rfl rfl rfl
  report _ revents h hcl := (h hcl).of_eq [] (by simp) silent_nil (by simp) rfl rfl rfl

theorem graceful_connectEstablished (acts : List UserAct) (h : io.GracefulInv)
    (hs : io.conn.state = .kConnecting) : (io.connectEstablished acts).GracefulInv := by
  refine graceful_handled.user (fun hcl => ?_) acts
  have hio := h (hcl.of_isPrefix (List.prefix_append _ _))
  have hn := hio.before (.inl hs)
  refine ⟨fun _ => ?_, ?_, fun _ => ?_, fun hk => (by cases hk), fun hk => (by cases hk)⟩
  · have hsil : Silent [.connectionCallback true] := silent_callback rfl
    exact (hio.stream (by simp [hs])).of_silent hsil rfl (Channel.isWriting_enableReading _ _) rfl
  · exact hio.fin.append [.connectionCallback true] (by simp [Event.IsFin])
      (by simp [Event.IsWrite])
  · refine FinSent.append.not.mpr (not_or.mpr ⟨hn, ?_⟩)
    exact (Mymuduo.not_finSent (by simp [Event.IsFin]) : ¬ FinSent [.connectionCallback true])

end Io

namespace Conn

/-- The steps of the loop thread in which `send` and `shutdown` are called on it. -/
def Label.InLoop : Label → Prop
  | .sendInLoop .. | .shutdownInLoop | .storeDisconnecting => False
  | _ => True

instance (l : Label) : Decidable l.InLoop :=
  match l with
  | .sendInLoop .. | .shutdownInLoop | .storeDisconnecting => .isFalse id
  | .connectEstablished _ | .connectDestroyed _ | .act _ | .handleRead .. | .handleWrite _
  | .handleClose _ | .poll _ | .dispatch _ => .isTrue trivial

structure GracefulInv (s : Conn) : Prop where
  io : s.io.GracefulInv
  fresh : s.established = false → s.io.conn.state = .kConnecting

theorem GracefulInv.step {s s' : Conn} {l : Label} (h : s.GracefulInv) (hl : l.InLoop)
    (hst : s.step l = some s') : s'.GracefulInv := by
  have hest := established_step hst
  obtain ⟨hen, rfl⟩ := of_guard hst
  refine ⟨ioStep_keeps Io.graceful_handled h.io (fun acts he => ?_) (fun message env he => ?_) (fun he => ?_)
    fun he => ?_, fun hf => ?_⟩
  · subst he
    exact Io.graceful_connectEstablished acts h.io (h.fresh hen)
  · subst he
    exact absurd hl id
  · subst he
    exact absurd hl id
  · subst he
    exact absurd hl id
  · rw [hest] at hf
    cases hf

theorem GracefulInv.of_reach {s : Conn} (h : sys.Reach (fun _ l => l.InLoop) s) : s.GracefulInv := by
  refine h.invariant (fun s hi => ?_) (fun s l s' hI hC hst => hI.step hC hst)
  have hstream := streamInv_of_reach (.init hi)
  obtain ⟨⟨this, fd, wc, hw, hc⟩, -, -, -, ht, -⟩ := hi
  have hs : s.io.conn.state = .kConnecting := by rw [hc]; rfl
  refine ⟨fun hcl => ?_, fun _ => hs⟩
  rw [ht] at hcl
  refine ⟨fun hd => hstream (ht ▸ hcl.1) hd, ?_, fun _ => ?_, fun hk => ?_, fun hk => ?_⟩
  · rw [ht]
    exact ⟨by simp, .nil, .nil⟩
  · rw [ht]
    exact not_finSent (by simp)
  · rw [hs] at hk
    cases hk
  · rw [hs] at hk
    cases hk

/-- **Graceful shutdown flushes first.**  Over every run of the loop thread in which no write fails
with `EPIPE` or `ECONNRESET` and no direct write is clobbered: when `shutdownWrite` is called nothing
is buffered and the kernel has accepted everything submitted; after it there is no write and no
second call; and in `kDisconnecting` with an empty `outputBuffer` it has been called. -/
theorem graceful_shutdown {s : Conn} (h : sys.Reach (fun _ l => l.InLoop) s)
    (hf : NoFault s.io.trace) (hc : ¬ Clobbered s.io.trace) :
    (∀ pre b post, s.io.trace = pre ++ .shutdownWrite b :: post →
      b = [] ∧ accepted pre = submitted pre ∧ ∀ e ∈ post, ¬ e.IsFin ∧ ¬ e.IsWrite) ∧
    (s.io.conn.state = .kDisconnecting → s.io.conn.outputBuffer.readable = [] →
      FinSent s.io.trace) := by
  have hg := (GracefulInv.of_reach h).io ⟨hf, hc⟩
  refine ⟨fun pre b post ht => ⟨?_, ?_, fun e he => ?_⟩, fun hs hr => (hg.closing hs).mpr hr⟩
  · exact hg.fin.empty b (by rw [ht]; simp)
  · exact hg.fin.flushed pre _ post ht trivial
  · exact not_or.mp (hg.fin.last pre _ post ht trivial e he)

/-- `shutdown` with a byte still buffered: `handleWrite` sends it and then ends the writing. -/
theorem graceful_shutdown_drain :
    ∃ s : Conn, accepted s.io.trace = [1, 2] ∧ FinSent s.io.trace := by
  obtain ⟨s, hr, hs, hf, hc, hb, ha⟩ := Sys.Reach.exists_of_execIf (M := sys) (s := fresh)
    (C := fun (_ : Conn) (l : Label) => l.InLoop)
    (P := fun s => s.io.conn.state = .kDisconnecting ∧ NoFault s.io.trace ∧
      ¬ Clobbered s.io.trace ∧ s.io.conn.outputBuffer.readable = [] ∧ accepted s.io.trace = [1, 2])
    (.init fresh_fresh) ([.connectEstablished [], .act (.send [1, 2] ⟨.ok 1, 0⟩),
      .act .shutdown, .handleWrite (.ok 1)])
    (by decide +kernel)
  exact ⟨s, ha, (graceful_shutdown hr hf hc).2 hs hb⟩

/-- The byte dropped after a clobbered write is missing when `shutdownWrite` is called. -/
theorem graceful_shutdown_clobbered :
    ¬ ∀ s : Conn, sys.Reach (fun _ l => l.InLoop) s → NoFault s.io.trace →
      ∀ pre b post, s.io.trace = pre ++ .shutdownWrite b :: post →
        b = [] ∧ accepted pre = submitted pre ∧ ∀ e ∈ post, ¬ e.IsFin ∧ ¬ e.IsWrite := by
  intro h
  obtain ⟨s, hr, hf, ht⟩ := Sys.Reach.exists_of_execIf (M := sys) (s := fresh)
    (C := fun (_ : Conn) (l : Label) => l.InLoop)
    (P := fun s => NoFault s.io.trace ∧ s.io.trace = [.connectionCallback true, .sendInLoop [1],
      .directWrite [1] (.err 105) EPIPE] ++ .shutdownWrite [] :: [])
    (.init fresh_fresh) ([.connectEstablished [], .act (.send [1] ⟨.err 105, EPIPE⟩),
      .act .shutdown])
    (by decide +kernel)
  exact absurd (h s hr hf _ _ _ ht).2.1 (by decide)

end Conn

end Mymuduo
