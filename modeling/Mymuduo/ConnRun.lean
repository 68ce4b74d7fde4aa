import Mymuduo.ConnSpec
import Mymuduo.Lib.Transition

/-!
# Mymuduo.ConnRun — all runs of one connection

The steps of a connection, in any order: `connectEstablished` first, then what its loop thread does
with it (events, functors, calls of user code) and the one thing another thread does to it directly,
the store of `kDisconnecting` in `shutdown()`.  An event is either reported by the poller (`poll`, in
accordance with the epoll set) and dispatched later in the same iteration (`dispatch`), or one of
the handlers called on its own, whatever the dispatch it belongs to.  `connectDestroyed` is a functor of
the loop, or a call of `~TcpServer` in a callback of another connection of the same loop, and then the
channel may still be waiting for its dispatch; in a callback of the connection itself the call counts as
the step after the dispatch.
-/

namespace Mymuduo

open Lib

/-- `active`: the channel is in `activeChannels` and still to be dispatched. -/
structure Conn where
  io : Io
  established : Bool
  active : Bool

namespace Conn

inductive Label
  | connectEstablished (acts : List UserAct)
  | connectDestroyed (acts : List UserAct)
  | sendInLoop (message : List UInt8) (env : SendEnv)
  | shutdownInLoop
  | act (a : UserAct)
  | handleRead (ret : ReadRet) (acts : List UserAct)
  | handleWrite (ret : IoRet)
  | handleClose (acts : List UserAct)
  | poll (revents : Events)
  | dispatch (env : Io.Callback → Io.CallbackEnv)
  | storeDisconnecting

/-- The poller reports the channel: `fillActiveChannels`. -/
def report (revents : Events) (io : Io) : Io :=
  io.onChannel fun c p => (p, { c with revents := revents })

/-- A step of an established connection, on the connection and the poller. -/
def ioStep (io : Io) : Label → Io
  | .connectEstablished acts => io.connectEstablished acts
  | .connectDestroyed acts => io.connectDestroyed acts
  | .sendInLoop message env => io.sendInLoop message env
  | .shutdownInLoop => io.shutdownInLoop
  | .act a => io.act a
  | .handleRead ret acts => io.handleRead ret acts
  | .handleWrite ret => io.handleWrite ret
  | .handleClose acts => io.handleClose acts
  | .poll revents => report revents io
  | .dispatch env => io.handleEventWithGuard env
  | .storeDisconnecting => io.setState .kDisconnecting

/-- When a step can be taken. -/
def Enabled (s : Conn) : Label → Prop
  | .connectEstablished _ => s.established = false
  | .poll revents => s.established = true ∧ s.active = false ∧
      ∃ m, s.io.poller.epoll s.io.conn.channel.fd = some (m, s.io.conn.channel.this) ∧
        m.Reportable revents
  | .dispatch _ => s.established = true ∧ s.active = true
  | _ => s.established = true

instance (s : Conn) (l : Label) : Decidable (s.Enabled l) :=
  match l with
  | .connectEstablished _ => inferInstanceAs (Decidable (_ = _))
  | .poll revents =>
    match h : s.io.poller.epoll s.io.conn.channel.fd with
    | none => .isFalse fun hp => by
        obtain ⟨-, -, m, hm, -⟩ := hp
        rw [h] at hm
        cases hm
    | some (m, ptr) =>
      decidable_of_iff (s.established = true ∧ s.active = false ∧
          ptr = s.io.conn.channel.this ∧ m.Reportable revents) (by
        constructor
        · rintro ⟨h1, h2, rfl, h3⟩
          exact ⟨h1, h2, m, h, h3⟩
        · rintro ⟨h1, h2, m', h3, h4⟩
          rw [h] at h3
          cases h3
          exact ⟨h1, h2, rfl, h4⟩)
  | .dispatch _ => inferInstanceAs (Decidable (_ ∧ _))
  | .connectDestroyed _ | .sendInLoop .. | .shutdownInLoop | .act _ | .handleRead .. |
    .handleWrite _ | .handleClose _ | .storeDisconnecting => inferInstanceAs (Decidable (_ = _))

def nextEstablished (s : Conn) : Label → Bool
  | .connectEstablished _ => true
  | _ => s.established

def nextActive (s : Conn) : Label → Bool
  | .poll _ => true
  | .dispatch _ => false
  | _ => s.active

def step (s : Conn) (l : Label) : Option Conn :=
  if s.Enabled l then some ⟨ioStep s.io l, s.nextEstablished l, s.nextActive l⟩ else none

/-- A connection under construction; its descriptor is registered with no poller. -/
structure Fresh (s : Conn) : Prop where
  conn : ∃ this fd writeComplete highWater, s.io.conn = .new this fd writeComplete highWater
  epoll : s.io.poller.epoll s.io.conn.channel.fd = none
  channels : s.io.poller.channels s.io.conn.channel.fd = none
  failed : s.io.poller.failed = []
  trace : s.io.trace = []
  established : s.established = false
  active : s.active = false

/-- Nothing is registered yet. -/
theorem Fresh.coherent {s : Conn} (h : s.Fresh) : Coherent s.io.poller s.io.conn.channel := by
  obtain ⟨⟨this, fd, wc, hw, hc⟩, he, hch, -⟩ := h
  rw [hc] at he hch ⊢
  exact ⟨he, hch⟩

/-- A connection with descriptor `7` under construction, with no optional callback. -/
def fresh : Conn where
  io := ⟨.new (.conn 0) 7 false none, .new, []⟩
  established := false
  active := false

theorem fresh_fresh : Fresh fresh :=
  ⟨⟨.conn 0, 7, false, none, rfl⟩, rfl, rfl, rfl, rfl, rfl, rfl⟩

def sys : Sys Conn Label where
  init := Fresh
  step := step

theorem established_step {s s' : Conn} {l : Label} (hst : s.step l = some s') :
    s'.established = true := by
  obtain ⟨hen, rfl⟩ := of_guard hst
  cases l with
  | connectEstablished acts => rfl
  | poll | dispatch => exact hen.1
  | _ => exact hen

/-- What the handlers keep, a step keeps; the four steps that are no handler are left to show. -/
theorem ioStep_keeps {P : Io → Prop} (hP : Io.Handled P) {io : Io} (h : P io) {l : Label}
    (hest : ∀ acts, l = .connectEstablished acts → P (io.connectEstablished acts))
    (hsend : ∀ message env, l = .sendInLoop message env → P (io.sendInLoop message env))
    (hshut : l = .shutdownInLoop → P io.shutdownInLoop)
    (hstore : l = .storeDisconnecting → P (io.setState .kDisconnecting)) : P (ioStep io l) := by
  cases l with
  | connectEstablished acts => exact hest acts rfl
  | connectDestroyed acts => exact hP.connectDestroyed h acts
  | sendInLoop message env => exact hsend message env rfl
  | shutdownInLoop => exact hshut rfl
  | act a => exact hP.act io a h
  | handleRead ret acts => exact hP.handleRead h ret acts
  | handleWrite ret => exact hP.handleWrite io ret h
  | handleClose acts => exact hP.handleClose h acts
  | poll revents => exact hP.report io revents h
  | dispatch env => exact hP.handleEventWithGuard h env
  | storeDisconnecting => exact hstore rfl

/-- What the member functions keep, a step keeps that does not open a closed connection. -/
theorem kept_step {P : Io → Prop} (hP : Io.Kept P) {s s' : Conn} {l : Label} (h : P s.io)
    (hest : s.established = false → s.io.conn.state ≠ .kDisconnected)
    (hl : l = .storeDisconnecting → s.io.conn.state ≠ .kDisconnected) (hst : s.step l = some s') :
    P s'.io := by
  obtain ⟨hen, rfl⟩ := of_guard hst
  refine ioStep_keeps hP.handled h (fun acts he => ?_) (fun message env _ => ?_) (fun _ => ?_) fun he => ?_
  · subst he
    exact hP.connectEstablished h (hest hen) acts
  · exact hP.sendInLoop _ message env h
  · exact hP.quiet _ _ (.shutdownInLoop _) h
  · exact hP.quiet _ _ (.setState (hl he)) h

end Conn

end Mymuduo
