import Mymuduo.EventLoop
import Mymuduo.Wire

/-!
# Mymuduo.CallRun — `send` and `shutdown` on one connection, called by several threads

The connection (`Conn`) in its loop (`EventLoop`), with `runInLoop` as the two paths into it: the loop
thread runs `sendInLoop` and `shutdownInLoop` at once, another thread queues them.  A call of the loop
thread is one step.  In another thread the test of `state`, the store of `kDisconnecting`, the push
and the `wakeup` are steps of their own, after which the call returns (`At`).

A handler of the connection runs with an empty callback body; the calls that user code makes from a
callback are the steps that follow.  The other functors of the loop (`none` in its queue) are not
modelled: whatever one of them does with the connection are steps taken while it is running.

`log` is the history: the calls as they begin and return, each `sendInLoop` and `shutdownInLoop` with
the call it belongs to, and every event of the connection.
-/

namespace Mymuduo

open Lib

/-- A call, by the thread that makes it (`none` is the loop's) and a number. -/
structure CallId (T : Type*) where
  thread : Option T
  num : ℕ
  deriving DecidableEq, Repr

inductive UserCall (T : Type*)
  | send (i : CallId T)
  | shutdown (k : CallId T)
  deriving DecidableEq, Repr

def UserCall.id {T : Type*} : UserCall T → CallId T
  | .send i => i
  | .shutdown k => k

/-- What a call from another thread queues. -/
inductive Task (T : Type*)
  | sendInLoop (i : CallId T) (f : SendFunctor)
  | shutdownInLoop (k : CallId T)

def Task.call {T : Type*} : Task T → UserCall T
  | .sendInLoop i _ => .send i
  | .shutdownInLoop k => .shutdown k

/-- Where another thread is. -/
inductive At (T : Type*)
  | outside
  | storing (k : CallId T)
  | queueing (task : Task T)
  | returning (c : UserCall T)

def At.isOutside {T : Type*} : At T → Bool
  | .outside => true
  | _ => false

/-- The call that has passed its test and is not queued yet. -/
def At.waiting {T : Type*} : At T → Option (UserCall T)
  | .storing k => some (.shutdown k)
  | .queueing task => some task.call
  | .outside | .returning _ => none

/-- `returned c passed` tells whether the call found `kConnected`; `sendInLoop i bytes` the bytes that
it has put on the wire, `none` if it gave the message up. -/
inductive Entry (T : Type*)
  | began (c : UserCall T)
  | returned (c : UserCall T) (passed : Bool)
  | sendInLoop (i : CallId T) (bytes : Option (List UInt8))
  | shutdownInLoop (k : CallId T)
  | io (e : Event)
  deriving DecidableEq, Repr

structure CallRun (T : Type*) where
  conn : Conn
  loop : EventLoop (Option (Task T)) T
  thread : T → At T
  log : List (Entry T)

namespace CallRun

variable {T : Type*}

/-- The handlers of the loop thread, with no calls from their callbacks. -/
def Handler : Conn.Label → Prop
  | .connectEstablished acts | .connectDestroyed acts | .handleRead _ acts | .handleClose acts =>
    acts = []
  | .handleWrite _ | .act (.retrieve _) => True
  | _ => False

instance (l : Conn.Label) : Decidable (Handler l) :=
  match l with
  | .connectEstablished _ | .connectDestroyed _ | .handleRead .. | .handleClose _ =>
    inferInstanceAs (Decidable (_ = _))
  | .handleWrite _ | .act (.retrieve _) => .isTrue trivial
  | .sendInLoop .. | .shutdownInLoop | .act (.send ..) | .act .shutdown | .poll _ | .dispatch _
  | .storeDisconnecting => .isFalse id

theorem Handler.flows {l : Conn.Label} (hl : Handler l) (io : Io) :
    ∃ evs, io.Flows evs [] (Conn.ioStep io l) := by
  unfold Handler at hl
  split at hl
  · subst hl
    exact Io.Flows.connectEstablished io
  · subst hl
    exact Io.Flows.connectDestroyed io
  · subst hl
    exact Io.Flows.handleRead _ io
  · subst hl
    exact Io.Flows.handleClose io
  · exact Io.Flows.handleWrite _ io
  · exact ⟨[], .setInput _⟩
  · exact hl.elim

/-- `loop` is a step of the loop that is none of those below it. -/
inductive Label (T : Type*)
  | loop (l : EventLoop.Label (Option (Task T)) T)
  | handler (l : Conn.Label)
  | send (i : CallId T) (message : StdString) (mem : Memory) (env : SendEnv)
  | shutdown (k : CallId T)
  | foreignSend (t : T) (i : CallId T) (message : StdString)
  | foreignShutdown (t : T) (k : CallId T)
  | storeDisconnecting (t : T)
  | queueInLoop (t : T)
  | wakeup (t : T)
  | runFunctor (mem : Memory) (env : SendEnv)

/-- The loop does what does not concern the connection; other threads too, when they are in no call on
it. -/
def Apart (s : CallRun T) : EventLoop.Label (Option (Task T)) T → Prop
  | .foreignPush t task => (s.thread t).isOutside ∧ task.isNone
  | .foreignQuit t | .foreignWakeup t => (s.thread t).isOutside
  | .ownQueueInLoop task => task.isNone
  | .runFunctor => False
  | _ => True

instance (s : CallRun T) (l : EventLoop.Label (Option (Task T)) T) : Decidable (s.Apart l) :=
  match l with
  | .foreignPush .. => inferInstanceAs (Decidable (_ ∧ _))
  | .foreignQuit _ | .foreignWakeup _ | .ownQueueInLoop _ => inferInstanceAs (Decidable (_ = true))
  | .runFunctor => .isFalse id
  | .ownQuit | .enter | .clearQuit | .testQuit | .pollReturn _ | .handleRead | .beginFunctors | .swap
  | .functorReturn | .endFunctors => .isTrue trivial

def note (es : List (Entry T)) (s : CallRun T) : CallRun T := { s with log := s.log ++ es }

/-- The connection goes on to `conn`; the new events enter the log. -/
def setConn (conn : Conn) (s : CallRun T) : CallRun T :=
  { s with
    conn := conn
    log := s.log ++ (conn.io.trace.drop s.conn.io.trace.length).map .io }

def setIo (io : Io) (s : CallRun T) : CallRun T := s.setConn { s.conn with io := io }

/-- `sendInLoop` of the call `i`, with the pointer and the length `f`. -/
def sendInLoop (i : CallId T) (f : SendFunctor) (mem : Memory) (env : SendEnv) (s : CallRun T) :
    Option (CallRun T) :=
  (s.conn.io.sendInLoopAt mem f env).map fun io =>
    (s.note [.sendInLoop i ((mem.read f.message f.len).filter
      fun bytes => io.wire = s.conn.io.wire ++ bytes)]).setIo io

/-- The body of a functor. -/
def runTask (mem : Memory) (env : SendEnv) (s : CallRun T) : Option (Task T) → Option (CallRun T)
  | none => some s
  | some (.sendInLoop i f) => s.sendInLoop i f mem env
  | some (.shutdownInLoop k) => some ((s.note [.shutdownInLoop k]).setIo s.conn.io.shutdownInLoop)

variable [DecidableEq T]

def setThread (t : T) (a : At T) (s : CallRun T) : CallRun T :=
  { s with thread := Function.update s.thread t a }

/-- `c` is a new call of the loop thread, which is in a callback or outside `loop()`. -/
def OwnCall (s : CallRun T) (c : UserCall T) : Prop :=
  s.loop.pc.calls ∧ c.id.thread = none ∧ .began c ∉ s.log

/-- `c` is a new call of the thread `t`. -/
def ForeignCall (s : CallRun T) (t : T) (c : UserCall T) : Prop :=
  (s.thread t).isOutside ∧ s.loop.caller t = .outside ∧ c.id.thread = some t ∧ .began c ∉ s.log

instance (s : CallRun T) (c : UserCall T) : Decidable (s.OwnCall c) :=
  inferInstanceAs (Decidable (_ ∧ _ ∧ _))

instance (s : CallRun T) (t : T) (c : UserCall T) : Decidable (s.ForeignCall t c) :=
  inferInstanceAs (Decidable (_ ∧ _ ∧ _ ∧ _))

/-- A call that does not find `kConnected` returns. -/
def refuse (c : UserCall T) (s : CallRun T) : CallRun T := s.note [.began c, .returned c false]

def step (s : CallRun T) : Label T → Option (CallRun T)
  | .loop l => if s.Apart l then (s.loop.step l).map fun loop => { s with loop := loop } else none
  | .handler l =>
    if s.loop.pc.calls ∧ Handler l then (s.conn.step l).map fun conn => s.setConn conn else none
  | .send i message mem env =>
    if s.OwnCall (.send i) then
      if s.conn.io.conn.state = .kConnected then
        ((s.note [.began (.send i)]).sendInLoop i ⟨message.c_str, message.size⟩ mem env).map
          (note [.returned (.send i) true])
      else some (s.refuse (.send i))
    else none
  | .shutdown k =>
    if s.OwnCall (.shutdown k) then
      some (if s.conn.io.conn.state = .kConnected then
        (((s.note [.began (.shutdown k)]).note [.shutdownInLoop k]).setIo s.conn.io.shutdown).note
          [.returned (.shutdown k) true]
      else s.refuse (.shutdown k))
    else none
  | .foreignSend t i message =>
    if s.ForeignCall t (.send i) then
      some (match sendForeign s.conn.io.conn.state message with
        | some f => (s.note [.began (.send i)]).setThread t (.queueing (.sendInLoop i f))
        | none => s.refuse (.send i))
    else none
  | .foreignShutdown t k =>
    if s.ForeignCall t (.shutdown k) then
      some (if s.conn.io.conn.state = .kConnected then
        (s.note [.began (.shutdown k)]).setThread t (.storing k)
      else s.refuse (.shutdown k))
    else none
  | .storeDisconnecting t =>
    match s.thread t with
    | .storing k =>
      some ((s.setIo (s.conn.io.setState .kDisconnecting)).setThread t
        (.queueing (.shutdownInLoop k)))
    | _ => none
  | .queueInLoop t =>
    match s.thread t with
    | .queueing task =>
      (s.loop.step (.foreignPush t (some task))).map fun loop =>
        { s with loop := loop }.setThread t (.returning task.call)
    | _ => none
  | .wakeup t =>
    match s.thread t with
    | .returning c =>
      (s.loop.step (.foreignWakeup t)).map fun loop =>
        ({ s with loop := loop }.note [.returned c true]).setThread t .outside
    | _ => none
  | .runFunctor mem env =>
    match s.loop.queue.rest with
    | [] => none
    | task :: _ =>
      (s.loop.step .runFunctor).bind fun loop => { s with loop := loop }.runTask mem env task

/-- A connection under construction, in a loop that has not been entered. -/
structure Fresh (s : CallRun T) : Prop where
  conn : s.conn.Fresh
  loop : s.loop = .new
  thread : ∀ t, s.thread t = .outside
  log : s.log = []

def sys : Sys (CallRun T) (Label T) where
  init := Fresh
  step := step

end CallRun

end Mymuduo
