import Mymuduo.ConnRun
import Mymuduo.ConnSpec

/-!
# Mymuduo.ConnEnd — what is left of a connection after `connectDestroyed`

* `Inert io`: the user has been told that the connection is down, its state is `kDisconnected`, and its
  channel has no interest and is registered nowhere;
* `EndInv io`: a connection in `kDisconnected` has been announced down and has no interest, whatever
  was called on it before and after;
* `connectDestroyed_inert_iff`: `connectDestroyed` leaves the connection inert unless it meets
  `kDisconnecting`, the state between `shutdown()` and the close by the peer.
-/

namespace Mymuduo

open Lib Events

namespace Io

variable {io io' : Io} {K : Event → Prop}

structure Inert (io : Io) : Prop where
  announced : .connectionCallback false ∈ io.trace
  state : io.conn.state = .kDisconnected
  events : io.conn.channel.events = kNoneEvent
  epoll : io.poller.epoll io.conn.channel.fd = none
  channels : io.poller.hasChannel io.conn.channel = false

structure EndInv (io : Io) : Prop where
  coherent : Coherent io.poller io.conn.channel
  up : io.conn.state ≠ .kConnecting
  down : io.conn.state = .kDisconnected →
    .connectionCallback false ∈ io.trace ∧ io.conn.channel.events = kNoneEvent

theorem EndInv.idle (h : io.EndInv) (hd : io.conn.state = .kDisconnected) :
    io.conn.channel.isWriting = false := by
  rw [Channel.isWriting_eq, (h.down hd).2]
  rfl

/-- A member function that leaves the state, and in `kDisconnected` the interest. -/
theorem EndInv.of_frame (h : io.EndInv) (hf : Frame K io io')
    (hs : io'.conn.state = io.conn.state)
    (he : io.conn.state = .kDisconnected → io'.conn.channel.events = io.conn.channel.events) :
    io'.EndInv := by
  refine ⟨hf.coherent h.coherent, hs ▸ h.up, ?_⟩
  intro hd
  rw [hs] at hd
  obtain ⟨hm, hn⟩ := h.down hd
  exact ⟨hf.prefix_trace.subset hm, (he hd).trans hn⟩

/-- A member function that ends in a state other than the initial and the final one. -/
theorem EndInv.of_state (h : io.EndInv) (hf : Frame K io io')
    (hs : io'.conn.state = .kConnected ∨ io'.conn.state = .kDisconnecting) : io'.EndInv := by
  refine ⟨hf.coherent h.coherent, ?_, ?_⟩
  · rcases hs with hs | hs <;> rw [hs] <;> simp
  · intro hd
    rcases hs with hs | hs <;> rw [hs] at hd <;> cases hd

/-! ### What the loop thread does with an established connection -/

theorem EndInv.sendInLoop (h : io.EndInv) (message : List UInt8) (env : SendEnv) :
    (io.sendInLoop message env).EndInv := by
  refine h.of_frame (.of_steps ((Steps.refl io).sendInLoop any_event message env)) (sendInLoop_state ..) ?_
  intro hd
  simp [Io.sendInLoop, hd]

theorem EndInv.shutdownInLoop (h : io.EndInv) : io.shutdownInLoop.EndInv := by
  refine h.of_frame (.of_steps ((Steps.refl io).shutdownInLoop any_event)) ?_ fun _ => ?_ <;>
    rw [shutdownInLoop_conn]

theorem EndInv.act (h : io.EndInv) (a : UserAct) : (io.act a).EndInv := by
  cases a with
  | send message env =>
    show (if io.conn.state = .kConnected then io.sendInLoop message env else io).EndInv
    split
    · exact h.sendInLoop message env
    · exact h
  | shutdown =>
    show (if io.conn.state = .kConnected then (io.setState .kDisconnecting).shutdownInLoop
      else io).EndInv
    split
    · refine h.of_state (.of_steps (((Steps.refl io).setState .kDisconnecting).shutdownInLoop any_event)) ?_
      exact .inr (congrArg TcpConnection.state (shutdownInLoop_conn _))
    · exact h
  | retrieve len => exact ⟨h.coherent, h.up, h.down⟩

/-- Closing announces the connection down and leaves no interest. -/
theorem EndInv.closed (h : io.EndInv) : io.closed.EndInv where
  coherent := coherent_closed h.coherent
  up := by simp [Io.closed]
  down _ := ⟨by simp [Io.closed], Channel.updateChannel_events _ _⟩

theorem EndInv.handleWrite (h : io.EndInv) (ret : IoRet) : (io.handleWrite ret).EndInv := by
  refine h.of_frame (.of_steps ((Steps.refl io).handleWrite any_event ret)) (handleWrite_state ret io) ?_
  intro hd
  simp [Io.handleWrite, h.idle hd]

theorem handled_endInv : Handled EndInv where
  act _ a h := h.act a
  closed _ h := h.closed
  handleWrite _ ret h := h.handleWrite ret
  setInput _ _ h := ⟨h.coherent, h.up, h.down⟩
  emit _ _ _ h := h.of_frame (K := fun _ => True) ((Frame.refl _).emit trivial) rfl fun _ => rfl
  remove _ h := ⟨(removed h.coherent).coherent, h.up, h.down⟩
  report _ _ h := ⟨⟨h.coherent.epoll, h.coherent.channels⟩, h.up, h.down⟩

theorem endInv_connectEstablished (hc : Coherent io.poller io.conn.channel) (acts : List UserAct) :
    (io.connectEstablished acts).EndInv := by
  refine handled_endInv.user ⟨?_, ?_, ?_⟩ acts
  · exact (Frame.of_steps ((((Steps.refl io).setState .kConnected).tie.update (·.or kReadEvent)).emit
      (K := fun _ => True) trivial)).coherent hc
  · simp [tie]
  · intro hd
    simp [tie] at hd

/-! ### The end -/

/-- Nothing of the registration is left, and the state tells whether the rest is done. -/
theorem EndInv.inert_iff (h : io.EndInv) (acts : List UserAct) :
    (io.connectDestroyed acts).Inert ↔ io.conn.state ≠ .kDisconnecting := by
  have hend := handled_endInv.connectDestroyed h acts
  have hidx : (io.connectDestroyed acts).conn.channel.index = .kNew := by
    unfold Io.connectDestroyed
    rfl
  have hstate : (io.connectDestroyed acts).conn.state =
      if io.conn.state = .kConnected then .kDisconnected else io.conn.state := by
    obtain ⟨b, hb⟩ := connectDestroyed_eq acts io
    rw [hb]
    split <;> rfl
  constructor
  · intro hi hd
    have := hi.state
    rw [hstate, hd] at this
    simp at this
  · intro hd
    have hdown : (io.connectDestroyed acts).conn.state = .kDisconnected := by
      rw [hstate]
      have := h.up
      cases hs : io.conn.state <;> simp_all
    obtain ⟨hm, hn⟩ := hend.down hdown
    refine ⟨hm, hdown, hn, ?_, ?_⟩
    · rw [hend.coherent.epoll, hidx, if_neg (by simp)]
    · rw [EPollerPoller.hasChannel, hend.coherent.channels, hidx]
      simp

end Io

namespace Conn

/-- A connection is under construction, or established and in order. -/
def EndInv (s : Conn) : Prop := s.Fresh ∨ s.established = true ∧ s.io.EndInv

theorem EndInv.step {s s' : Conn} {l : Label} (h : s.EndInv) (hs : s.step l = some s') :
    s'.EndInv := by
  have hest := established_step hs
  obtain ⟨hen, rfl⟩ := of_guard hs
  refine .inr ⟨hest, ?_⟩
  rcases h with hf | ⟨he, hi⟩
  · -- a connection under construction is established first
    cases l with
    | connectEstablished acts => exact Io.endInv_connectEstablished hf.coherent acts
    | poll | dispatch => exact absurd hen.1 (by simp [hf.established])
    | _ => exact absurd hen (by simp [Enabled, hf.established])
  · refine ioStep_keeps Io.handled_endInv hi (fun acts _ => ?_) (fun message env _ => ?_) (fun _ => ?_)
      fun _ => ?_
    · exact Io.endInv_connectEstablished hi.coherent acts
    · exact hi.sendInLoop message env
    · exact hi.shutdownInLoop
    · exact hi.of_state (K := fun _ => True) ((Io.Frame.refl s.io).setState .kDisconnecting) (.inr rfl)

theorem EndInv.of_reach {s : Conn} (h : sys.Reach (fun _ _ => True) s) : s.EndInv :=
  h.invariant (fun _ hi => .inl hi) fun _ _ _ hi _ hs => hi.step hs

/-- **What was announced up is announced down**: whatever was done with an established connection,
`connectDestroyed` leaves it inert iff it does not find it in `kDisconnecting`. -/
theorem connectDestroyed_inert_iff {s : Conn} (h : sys.Reach (fun _ _ => True) s)
    (he : s.established = true) (acts : List UserAct) :
    (s.io.connectDestroyed acts).Inert ↔ s.io.conn.state ≠ .kDisconnecting := by
  have hi := (EndInv.of_reach h).resolve_left fun hf => by simp [hf.established] at he
  exact hi.2.inert_iff acts

/-- Destroyed by the server while a byte is buffered: announced down once. -/
theorem connectDestroyed_inert_connected :
    ∃ s : Conn, s.io.conn.outputBuffer.readable = [2] ∧ (s.io.connectDestroyed []).Inert := by
  obtain ⟨s, hr, he, hb, hs⟩ := Sys.Reach.exists_of_execIf (M := sys) (s := fresh)
    (C := fun (_ : Conn) (_ : Label) => True)
    (P := fun s => s.established = true ∧ s.io.conn.outputBuffer.readable = [2] ∧
      s.io.conn.state ≠ .kDisconnecting)
    (.init fresh_fresh) [.connectEstablished [], .act (.send [1, 2] ⟨.ok 1, 0⟩)]
    (by decide +kernel)
  exact ⟨s, hb, (connectDestroyed_inert_iff hr he []).mpr hs⟩

/-- `shutdown()`, and the server is destroyed before the peer has closed: never announced down. -/
theorem connectDestroyed_inert_shutdown :
    ∃ s : Conn, sys.Reach (fun _ _ => True) s ∧ s.established = true ∧
      .connectionCallback false ∉ (s.io.connectDestroyed []).trace ∧
      (s.io.connectDestroyed []).conn.state = .kDisconnecting ∧
      (s.io.connectDestroyed []).conn.channel.events ≠ kNoneEvent ∧
      ¬ (s.io.connectDestroyed []).Inert := by
  obtain ⟨s, hr, he, ht, hs, hev⟩ := Sys.Reach.exists_of_execIf (M := sys) (s := fresh)
    (C := fun (_ : Conn) (_ : Label) => True)
    (P := fun s => s.established = true ∧
      .connectionCallback false ∉ (s.io.connectDestroyed []).trace ∧
      (s.io.connectDestroyed []).conn.state = .kDisconnecting ∧
      (s.io.connectDestroyed []).conn.channel.events ≠ kNoneEvent)
    (.init fresh_fresh) [.connectEstablished [], .act .shutdown]
    (by decide +kernel)
  exact ⟨s, hr, he, ht, hs, hev, fun hi => ht hi.announced⟩

end Conn

end Mymuduo
