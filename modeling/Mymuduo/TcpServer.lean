import Mymuduo.Lib.TaskQueue
import Mymuduo.Lib.Transition
import Mymuduo.TcpConnection

/-!
# Mymuduo.TcpServer — a server, its loops and its connections (`TcpServer.cc`)

The loops are numbered: `0` is the base loop, `1 … numThreads` are those of the thread pool.
Connections are numbered in the order of their creation; the number stands for the address of the
object, and `Held s c` says that some `TcpConnectionPtr` to it exists.  The pollers and
`activeChannels` hold plain pointers, and so do the functors `sendInLoop` and `shutdownInLoop`.

A step is what one thread does between two points where another can come in:

* a loop returns from `epoll_wait` (`poll`), dispatches one active channel (`dispatch`), swaps its
  pending functors (`doPendingFunctors`), runs one of them (`runFunctor`, `functorReturn`) or drops the
  batch (`endFunctors`);
* what a member function of a connection has called or queued on the way (`reactions`) follows it one
  call after the other (`react`), before the thread goes on;
* user code calls a function of a connection of this loop (`userAct`), or keeps or drops a copy of a
  `TcpConnectionPtr`;
* a worker thread takes a pointer, tests the state in `send` or `shutdown`, stores `kDisconnecting`,
  queues the functor, and drops the pointer.

`established`, `destroying` and `destroyed` record the past of a connection: `connectEstablished` has
run, `connectDestroyed` has been taken out of `pendingFunctors`, it has run.
-/

namespace Mymuduo

open Lib

abbrev LoopId := ℕ

abbrev ConnId := ℕ

/-! ### Functors -/

inductive Functor
  | connectEstablished (c : ConnId)
  | connectDestroyed (c : ConnId)
  | removeConnectionInLoop (c : ConnId)
  | writeComplete (c : ConnId)
  | highWaterMark (c : ConnId) (size : ℕ)
  | sendInLoop (c : ConnId)
  | shutdownInLoop (c : ConnId)
  deriving DecidableEq, Repr

namespace Functor

def conn : Functor → ConnId
  | .connectEstablished c | .connectDestroyed c | .removeConnectionInLoop c | .writeComplete c
  | .highWaterMark c _ | .sendInLoop c | .shutdownInLoop c => c

/-- A `TcpConnectionPtr` is bound into the functor; the other two bind the plain `this`. -/
def owns : Functor → Bool
  | .sendInLoop _ | .shutdownInLoop _ => false
  | _ => true

end Functor

/-! ### The parts of a server -/

/-- Where the thread of a loop is. -/
inductive Phase
  | poll
  | dispatch
  | functors
  | running (f : Functor)
  deriving DecidableEq, Repr

inductive Call
  | send
  | shutdown
  deriving DecidableEq, Repr

/-- The functor that `send` or `shutdown` queues. -/
def Call.functor : Call → ConnId → Functor
  | .send, c => .sendInLoop c
  | .shutdown, c => .shutdownInLoop c

/-- Where a worker thread is.  All but `outside` hold a `TcpConnectionPtr`. -/
inductive Worker
  | outside
  | holding (c : ConnId)
  | storing (c : ConnId)
  | queueing (c : ConnId) (call : Call)
  deriving DecidableEq, Repr

def Worker.conn : Worker → Option ConnId
  | .outside => none
  | .holding c | .storing c | .queueing c _ => some c

/-- `ipPort` is a dotted quad, a colon and a port. -/
structure Config where
  name : List Char
  ipPort : List Char
  ipPort_length : ipPort.length ≤ 21
  numThreads : ℕ
  writeCompleteCallback : Bool
  listenFd : ℕ
  wakeupFd : LoopId → ℕ
  workers : ℕ

namespace Config

variable (cfg : Config)

/-- `%d`. -/
def decimal (n : ℤ) : List Char :=
  if 0 ≤ n then Nat.toDigits 10 n.toNat else '-' :: Nat.toDigits 10 n.natAbs

/-- `name_ + buf`, where `snprintf` writes `"-%s#%d"` into the 64 bytes of `buf`. -/
def connName (id : ℤ) : List Char :=
  cfg.name ++ ('-' :: cfg.ipPort ++ '#' :: decimal id).take 63

def Reserved (fd : ℕ) : Prop := fd = cfg.listenFd ∨ ∃ l ≤ cfg.numThreads, fd = cfg.wakeupFd l

instance (fd : ℕ) : Decidable (cfg.Reserved fd) := inferInstanceAs (Decidable (_ ∨ _))

end Config

/-- `++` of a 32-bit `int`. -/
def incrInt (n : ℤ) : ℤ := if n = 2147483647 then -2147483648 else n + 1

/-- `reactions l` is what the thread of the loop `l` has still to do for a member function it has called:
the callbacks of the server, and the functors to queue. -/
structure TcpServer where
  phase : LoopId → Phase
  active : LoopId → List ChannelPtr
  poller : LoopId → EPollerPoller
  queue : LoopId → TaskQueue Functor
  reactions : LoopId → List (ConnId × Event)
  nextLoop : ℕ
  nextConnId : ℤ
  connections : List Char → Option ConnId
  accepted : ℕ
  conn : ConnId → TcpConnection
  loopOf : ConnId → LoopId
  nameOf : ConnId → List Char
  established : ConnId → Bool
  destroying : ConnId → Bool
  destroyed : ConnId → Bool
  userRefs : ConnId → ℕ
  worker : ℕ → Worker

namespace TcpServer

variable (cfg : Config)

/-! ### The beginning -/

/-- The poller of a loop when the server listens: `wakeupChannel`, and `acceptChannel` in the base
loop. -/
def startPoller (l : LoopId) : EPollerPoller :=
  let wakeup := Channel.new (.wakeup l) (cfg.wakeupFd l)
  let accept := Channel.new .accept cfg.listenFd
  let p := (wakeup.enableReading .new).1
  if l = 0 then (accept.enableReading p).1 else p

def start : TcpServer where
  phase := fun _ => .poll
  active := fun _ => []
  poller := fun l => if l ≤ cfg.numThreads then startPoller cfg l else .new
  queue := fun _ => .empty
  reactions := fun _ => []
  nextLoop := 0
  nextConnId := 1
  connections := fun _ => none
  accepted := 0
  conn := fun c => .new (.conn c) 0 false none
  loopOf := fun _ => 0
  nameOf := fun _ => []
  established := fun _ => false
  destroying := fun _ => false
  destroyed := fun _ => false
  userRefs := fun _ => 0
  worker := fun _ => .outside

/-! ### Who holds a connection -/

/-- Some `TcpConnectionPtr` to `c` exists between the steps: in `connections`, bound into a functor, in
user code, or in a worker thread. -/
def Held (s : TcpServer) (c : ConnId) : Prop :=
  s.connections (s.nameOf c) = some c ∨
  (∃ l ≤ cfg.numThreads, ∃ f ∈ (s.queue l).held, f.owns = true ∧ f.conn = c) ∨
  0 < s.userRefs c ∨
  ∃ t < cfg.workers, (s.worker t).conn = some c

instance (s : TcpServer) (c : ConnId) : Decidable (s.Held cfg c) :=
  inferInstanceAs (Decidable (_ ∨ _ ∨ _ ∨ _))

/-- `fd` may be the next descriptor: a `Socket` closes its one when the connection goes away. -/
def FreeFd (s : TcpServer) (fd : ℕ) : Prop :=
  ¬ cfg.Reserved fd ∧ ∀ c < s.accepted, s.Held cfg c → (s.conn c).channel.fd ≠ fd

instance (s : TcpServer) (fd : ℕ) : Decidable (s.FreeFd cfg fd) :=
  inferInstanceAs (Decidable (_ ∧ _))

/-! ### Queues and connections -/

def setQueue (l : LoopId) (q : TaskQueue Functor) (s : TcpServer) : TcpServer :=
  { s with queue := Function.update s.queue l q }

/-- `loop->queueInLoop(f)`. -/
def push (l : LoopId) (f : Functor) (s : TcpServer) : TcpServer :=
  s.setQueue l ((s.queue l).push f)

def removeConnectionInLoop (c : ConnId) (s : TcpServer) : TcpServer :=
  push (s.loopOf c) (.connectDestroyed c)
    { s with connections := Function.update s.connections (s.nameOf c) none }

/-- `removeConnection`, called by the thread of the loop `l`. -/
def removeConnection (l : LoopId) (c : ConnId) (s : TcpServer) : TcpServer :=
  if l = 0 then s.removeConnectionInLoop c else s.push 0 (.removeConnectionInLoop c)

/-- What the thread of the loop `l` does at an event of a connection. -/
def react (l : LoopId) (c : ConnId) (s : TcpServer) : Event → TcpServer
  | .closeCallback => s.removeConnection l c
  | .writeComplete => s.push (s.loopOf c) (.writeComplete c)
  | .highWaterMark size => s.push (s.loopOf c) (.highWaterMark c size)
  | _ => s

def setReactions (l : LoopId) (todo : List (ConnId × Event)) (s : TcpServer) : TcpServer :=
  { s with reactions := Function.update s.reactions l todo }

/-- The connection and the poller of its loop after a member function. -/
def setIo (c : ConnId) (io : Io) (s : TcpServer) : TcpServer :=
  { s with
    conn := Function.update s.conn c io.conn
    poller := Function.update s.poller (s.loopOf c) io.poller }

@[simp] theorem setIo_conn_self (c : ConnId) (io : Io) (s : TcpServer) : (s.setIo c io).conn c = io.conn :=
  Function.update_self ..

theorem setIo_conn_of_ne {c c' : ConnId} (hn : c' ≠ c) (io : Io) (s : TcpServer) :
    (s.setIo c io).conn c' = s.conn c' :=
  Function.update_of_ne hn ..

@[simp] theorem setIo_poller_self (c : ConnId) (io : Io) (s : TcpServer) :
    (s.setIo c io).poller (s.loopOf c) = io.poller :=
  Function.update_self ..

theorem setIo_poller_of_ne {l : LoopId} {c : ConnId} {s : TcpServer} (hn : l ≠ s.loopOf c) (io : Io) :
    (s.setIo c io).poller l = s.poller l :=
  Function.update_of_ne hn ..

/-- The connection and the poller that `Channel::update` goes to, the one of its loop. -/
def io (c : ConnId) (s : TcpServer) : Io := ⟨s.conn c, s.poller (s.loopOf c), []⟩

/-- The thread of the loop `l` calls a member function of the connection. -/
def onConn (l : LoopId) (c : ConnId) (f : Io → Io) (s : TcpServer) : TcpServer :=
  (s.setIo c (f (s.io c))).setReactions l ((f (s.io c)).trace.map fun e => (c, e))

theorem onConn_reactions (s : TcpServer) (l : LoopId) (c : ConnId) (f : Io → Io) :
    (s.onConn l c f).reactions l = (f (s.io c)).trace.map fun e => (c, e) :=
  Function.update_self ..

def connectEstablished (l : LoopId) (c : ConnId) (acts : List UserAct) (s : TcpServer) :
    TcpServer :=
  let s := s.onConn l c (Io.connectEstablished acts)
  { s with established := Function.update s.established c true }

def connectDestroyed (l : LoopId) (c : ConnId) (acts : List UserAct) (s : TcpServer) : TcpServer :=
  let s := s.onConn l c (Io.connectDestroyed acts)
  { s with destroyed := Function.update s.destroyed c true }

/-- `getNextLoop`: the loop, and `next_` afterwards. -/
def getNextLoop (s : TcpServer) : LoopId × ℕ :=
  if cfg.numThreads = 0 then (0, s.nextLoop)
  else (s.nextLoop + 1, if cfg.numThreads ≤ s.nextLoop + 1 then 0 else s.nextLoop + 1)

/-- The connection object and its entry in `connections`. -/
def createConnection (fd : ℕ) (highWater : Option ℕ) (s : TcpServer) : TcpServer :=
  let c := s.accepted
  let connName := cfg.connName s.nextConnId
  { s with
    nextLoop := (s.getNextLoop cfg).2
    nextConnId := incrInt s.nextConnId
    accepted := c + 1
    conn := Function.update s.conn c (.new (.conn c) fd cfg.writeCompleteCallback highWater)
    loopOf := Function.update s.loopOf c (s.getNextLoop cfg).1
    nameOf := Function.update s.nameOf c connName
    connections := Function.update s.connections connName (some c) }

def newConnection (fd : ℕ) (highWater : Option ℕ) (acts : List UserAct) (s : TcpServer) :
    TcpServer :=
  let ioLoop := (s.getNextLoop cfg).1
  let c := s.accepted
  let s := s.createConnection cfg fd highWater
  if ioLoop = 0 then s.connectEstablished 0 c acts else s.push ioLoop (.connectEstablished c)

/-! ### The steps -/

/-- What the dispatch of a channel meets: the result of `accept`, with the mark the user sets on the new
connection and the body of its callback; or what the callbacks of a connection meet. -/
structure DispatchEnv where
  accept : Option (ℕ × Option ℕ)
  acts : List UserAct
  callbacks : Io.Callback → Io.CallbackEnv

/-- What a functor meets. -/
structure FunctorEnv where
  acts : List UserAct
  message : List UInt8
  send : SendEnv

inductive Label
  | poll (l : LoopId) (reports : List (ℕ × Events))
  | dispatch (l : LoopId) (env : DispatchEnv)
  | react (l : LoopId)
  | doPendingFunctors (l : LoopId)
  | runFunctor (l : LoopId) (env : FunctorEnv)
  | functorReturn (l : LoopId)
  | endFunctors (l : LoopId)
  | userAct (l : LoopId) (c : ConnId) (a : UserAct)
  | keep (c : ConnId)
  | drop (c : ConnId)
  | workerTake (t : ℕ) (c : ConnId)
  | workerTest (t : ℕ) (call : Call)
  | workerStore (t : ℕ)
  | workerQueue (t : ℕ)
  | workerDrop (t : ℕ)

/-- What `epoll_wait` may return: registered descriptors, each once, with any masks. -/
def Ready (p : EPollerPoller) (reports : List (ℕ × Events)) : Prop :=
  (reports.map Prod.fst).Nodup ∧ ∀ x ∈ reports, (p.epoll x.1).isSome = true

instance (p : EPollerPoller) (reports : List (ℕ × Events)) : Decidable (Ready p reports) :=
  inferInstanceAs (Decidable (_ ∧ _))

/-- `set_revents`, for a connection. -/
def setRevents (p : EPollerPoller) (s : TcpServer) (x : ℕ × Events) : TcpServer :=
  match p.epoll x.1 with
  | some (_, .conn c) =>
    let channel := { (s.conn c).channel with revents := x.2 }
    { s with conn := Function.update s.conn c { s.conn c with channel := channel } }
  | _ => s

/-- `fillActiveChannels`. -/
def fillActiveChannels (l : LoopId) (reports : List (ℕ × Events)) (s : TcpServer) : TcpServer :=
  let s' := reports.foldl (setRevents (s.poller l)) s
  { s' with
    active := Function.update s'.active l
      (reports.filterMap fun x => ((s.poller l).epoll x.1).map Prod.snd) }

def setPhase (l : LoopId) (p : Phase) (s : TcpServer) : TcpServer :=
  { s with phase := Function.update s.phase l p }

def setActive (l : LoopId) (active : List ChannelPtr) (s : TcpServer) : TcpServer :=
  { s with active := Function.update s.active l active }

def setWorker (t : ℕ) (w : Worker) (s : TcpServer) : TcpServer :=
  { s with worker := Function.update s.worker t w }

def setRefs (c : ConnId) (n : ℕ) (s : TcpServer) : TcpServer :=
  { s with userRefs := Function.update s.userRefs c n }

def setState (c : ConnId) (state : StateE) (s : TcpServer) : TcpServer :=
  { s with conn := Function.update s.conn c { s.conn c with state := state } }

/-- Dispatch one channel.  A tied channel whose connection is gone is left alone. -/
def handleEvent (l : LoopId) (ptr : ChannelPtr) (env : DispatchEnv) (s : TcpServer) :
    Option TcpServer :=
  match ptr with
  | .wakeup _ => some s
  | .accept =>
    match env.accept with
    | none => some s
    | some (fd, highWater) =>
      if s.FreeFd cfg fd then some (s.newConnection cfg fd highWater env.acts) else none
  | .conn c =>
    if ¬ c < s.accepted then none
    else if (s.conn c).channel.tied ∧ ¬ s.Held cfg c then some s
    else some (s.onConn l c (Io.handleEventWithGuard env.callbacks))

/-- Exchange the pending functors with an empty batch. -/
def swapFunctors (l : LoopId) (s : TcpServer) : TcpServer :=
  { s.setQueue l (s.queue l).swap with
    destroying := fun c => s.destroying c || decide (.connectDestroyed c ∈ (s.queue l).pending) }

/-- Call one functor. -/
def callFunctor (l : LoopId) (env : FunctorEnv) (s : TcpServer) : Functor → TcpServer
  | .connectEstablished c => s.connectEstablished l c env.acts
  | .connectDestroyed c => s.connectDestroyed l c env.acts
  | .removeConnectionInLoop c => s.removeConnectionInLoop c
  | .writeComplete c | .highWaterMark c _ => s.onConn l c (Io.user env.acts)
  | .sendInLoop c => s.onConn l c (Io.sendInLoop env.message env.send)
  | .shutdownInLoop c => s.onConn l c Io.shutdownInLoop

def advance (l : LoopId) (s : TcpServer) : TcpServer := s.setQueue l (s.queue l).advance

/-- Drop the batch. -/
def finish (l : LoopId) (s : TcpServer) : TcpServer := s.setQueue l (s.queue l).finish

/-- After the test of a worker thread: the call goes on only if the connection is `kConnected`. -/
def tested (s : TcpServer) (c : ConnId) (call : Call) : Worker :=
  if (s.conn c).state = .kConnected then
    match call with
    | .send => .queueing c .send
    | .shutdown => .storing c
  else .holding c

def step (s : TcpServer) : Label → Option TcpServer
  | .poll l reports =>
    if l ≤ cfg.numThreads ∧ s.phase l = .poll ∧ Ready (s.poller l) reports then
      some ((s.fillActiveChannels l reports).setPhase l .dispatch)
    else none
  | .dispatch l env =>
    match s.phase l, s.reactions l, s.active l with
    | .dispatch, [], ptr :: rest => (s.setActive l rest).handleEvent cfg l ptr env
    | _, _, _ => none
  | .react l =>
    match s.reactions l with
    | x :: rest => some ((s.setReactions l rest).react l x.1 x.2)
    | [] => none
  | .doPendingFunctors l =>
    if s.phase l = .dispatch ∧ s.reactions l = [] ∧ s.active l = [] then
      some ((s.swapFunctors l).setPhase l .functors)
    else none
  | .runFunctor l env =>
    match s.phase l, s.reactions l, (s.queue l).rest with
    | .functors, [], f :: _ => some (((s.callFunctor l env f).advance l).setPhase l (.running f))
    | _, _, _ => none
  | .functorReturn l =>
    match s.phase l, s.reactions l with
    | .running _, [] => some (s.setPhase l .functors)
    | _, _ => none
  | .endFunctors l =>
    if s.phase l = .functors ∧ s.reactions l = [] ∧ (s.queue l).rest = [] then
      some ((s.finish l).setPhase l .poll)
    else none
  | .userAct l c a =>
    if s.phase l ≠ .poll ∧ s.reactions l = [] ∧ c < s.accepted ∧ s.loopOf c = l ∧
        s.established c = true ∧ s.Held cfg c then
      some (s.onConn l c fun io => io.act a)
    else none
  | .keep c =>
    if c < s.accepted ∧ s.Held cfg c then some (s.setRefs c (s.userRefs c + 1)) else none
  | .drop c => if 0 < s.userRefs c then some (s.setRefs c (s.userRefs c - 1)) else none
  | .workerTake t c =>
    if t < cfg.workers ∧ s.worker t = .outside ∧ c < s.accepted ∧ s.established c = true ∧
        s.Held cfg c then
      some (s.setWorker t (.holding c))
    else none
  | .workerTest t call =>
    match s.worker t with
    | .holding c => some (s.setWorker t (s.tested c call))
    | _ => none
  | .workerStore t =>
    match s.worker t with
    | .storing c => some ((s.setState c .kDisconnecting).setWorker t (.queueing c .shutdown))
    | _ => none
  | .workerQueue t =>
    match s.worker t with
    | .queueing c call =>
      some ((s.push (s.loopOf c) (call.functor c)).setWorker t (.holding c))
    | _ => none
  | .workerDrop t =>
    match s.worker t with
    | .holding _ => some (s.setWorker t .outside)
    | _ => none

/-- All runs of a server that listens, with all interleavings of its threads. -/
def sys : Sys TcpServer Label where
  init s := s = start cfg
  step := step cfg

/-! ### What a step can do -/

/-- What one step does: `step` as a relation, with the guard of each label. -/
inductive Move (s : TcpServer) : Label → TcpServer → Prop
  | poll (l : LoopId) (reports : List (ℕ × Events)) : l ≤ cfg.numThreads → s.phase l = .poll →
      Ready (s.poller l) reports →
      Move s (.poll l reports) ((s.fillActiveChannels l reports).setPhase l .dispatch)
  | dispatch (l : LoopId) (env : DispatchEnv) (ptr : ChannelPtr) (rest : List ChannelPtr)
      (s' : TcpServer) : s.phase l = .dispatch → s.reactions l = [] → s.active l = ptr :: rest →
      (s.setActive l rest).handleEvent cfg l ptr env = some s' → Move s (.dispatch l env) s'
  | react (l : LoopId) (c : ConnId) (e : Event) (rest : List (ConnId × Event)) :
      s.reactions l = (c, e) :: rest → Move s (.react l) ((s.setReactions l rest).react l c e)
  | doPendingFunctors (l : LoopId) : s.phase l = .dispatch → s.reactions l = [] →
      s.active l = [] →
      Move s (.doPendingFunctors l) ((s.swapFunctors l).setPhase l .functors)
  | runFunctor (l : LoopId) (env : FunctorEnv) (f : Functor) (rest : List Functor) :
      s.phase l = .functors → s.reactions l = [] → (s.queue l).rest = f :: rest →
      Move s (.runFunctor l env) (((s.callFunctor l env f).advance l).setPhase l (.running f))
  | functorReturn (l : LoopId) (f : Functor) : s.phase l = .running f → s.reactions l = [] →
      Move s (.functorReturn l) (s.setPhase l .functors)
  | endFunctors (l : LoopId) : s.phase l = .functors → s.reactions l = [] →
      (s.queue l).rest = [] → Move s (.endFunctors l) ((s.finish l).setPhase l .poll)
  | userAct (l : LoopId) (c : ConnId) (a : UserAct) : s.phase l ≠ .poll → s.reactions l = [] →
      c < s.accepted → s.loopOf c = l → s.established c = true → s.Held cfg c →
      Move s (.userAct l c a) (s.onConn l c fun io => io.act a)
  | keep (c : ConnId) : c < s.accepted → s.Held cfg c →
      Move s (.keep c) (s.setRefs c (s.userRefs c + 1))
  | drop (c : ConnId) : 0 < s.userRefs c → Move s (.drop c) (s.setRefs c (s.userRefs c - 1))
  | workerTake (t : ℕ) (c : ConnId) : t < cfg.workers → s.worker t = .outside →
      c < s.accepted → s.established c = true → s.Held cfg c →
      Move s (.workerTake t c) (s.setWorker t (.holding c))
  | workerTest (t : ℕ) (call : Call) (c : ConnId) : s.worker t = .holding c →
      Move s (.workerTest t call) (s.setWorker t (s.tested c call))
  | workerStore (t : ℕ) (c : ConnId) : s.worker t = .storing c →
      Move s (.workerStore t)
        ((s.setState c .kDisconnecting).setWorker t (.queueing c .shutdown))
  | workerQueue (t : ℕ) (c : ConnId) (call : Call) : s.worker t = .queueing c call →
      Move s (.workerQueue t)
        ((s.push (s.loopOf c) (call.functor c)).setWorker t (.holding c))
  | workerDrop (t : ℕ) (c : ConnId) : s.worker t = .holding c →
      Move s (.workerDrop t) (s.setWorker t .outside)

section Cases

variable {cfg} {s s' : TcpServer} {l : LoopId}

theorem move_of_step {lab : Label} (h : step cfg s lab = some s') : Move cfg s lab s' := by
  cases lab with
  | poll l reports =>
    obtain ⟨⟨hl, hp, hr⟩, rfl⟩ := of_guard h
    exact .poll l reports hl hp hr
  | dispatch l env =>
    simp only [step] at h
    split at h
    next ptr rest hp hre ha => exact .dispatch l env ptr rest s' hp hre ha h
    next => cases h
  | react l =>
    simp only [step] at h
    split at h
    next x rest hx => exact Option.some.inj h ▸ .react l x.1 x.2 rest hx
    next => cases h
  | doPendingFunctors l =>
    obtain ⟨⟨hp, hre, ha⟩, rfl⟩ := of_guard h
    exact .doPendingFunctors l hp hre ha
  | runFunctor l env =>
    simp only [step] at h
    split at h
    next f rest hp hre hr => exact Option.some.inj h ▸ .runFunctor l env f rest hp hre hr
    next => cases h
  | functorReturn l =>
    simp only [step] at h
    split at h
    next f hp hre => exact Option.some.inj h ▸ .functorReturn l f hp hre
    next => cases h
  | endFunctors l =>
    obtain ⟨⟨hp, hre, hr⟩, rfl⟩ := of_guard h
    exact .endFunctors l hp hre hr
  | userAct l c a =>
    obtain ⟨⟨hp, hre, hc, hl, he, hh⟩, rfl⟩ := of_guard h
    exact .userAct l c a hp hre hc hl he hh
  | keep c =>
    obtain ⟨⟨hc, hh⟩, rfl⟩ := of_guard h
    exact .keep c hc hh
  | drop c =>
    obtain ⟨hpos, rfl⟩ := of_guard h
    exact .drop c hpos
  | workerTake t c =>
    obtain ⟨⟨ht, hw, hc, he, hh⟩, rfl⟩ := of_guard h
    exact .workerTake t c ht hw hc he hh
  | workerTest t call =>
    simp only [step] at h
    split at h
    next c hw => exact Option.some.inj h ▸ .workerTest t call c hw
    next => cases h
  | workerStore t =>
    simp only [step] at h
    split at h
    next c hw => exact Option.some.inj h ▸ .workerStore t c hw
    next => cases h
  | workerQueue t =>
    simp only [step] at h
    split at h
    next c call hw => exact Option.some.inj h ▸ .workerQueue t c call hw
    next => cases h
  | workerDrop t =>
    simp only [step] at h
    split at h
    next c hw => exact Option.some.inj h ▸ .workerDrop t c hw
    next => cases h

/-- A dispatch does nothing, accepts a connection, or calls the handler of one. -/
theorem handleEvent_cases {ptr : ChannelPtr} {env : DispatchEnv}
    (h : s.handleEvent cfg l ptr env = some s') :
    s' = s ∨
    (ptr = .accept ∧ ∃ fd highWater, env.accept = some (fd, highWater) ∧ s.FreeFd cfg fd ∧
      s' = s.newConnection cfg fd highWater env.acts) ∨
    ∃ c < s.accepted, ptr = .conn c ∧ ((s.conn c).channel.tied = true → s.Held cfg c) ∧
      s' = s.onConn l c (Io.handleEventWithGuard env.callbacks) := by
  cases ptr with
  | wakeup l' => exact .inl (Option.some.inj h).symm
  | accept =>
    simp only [handleEvent] at h
    split at h
    next => exact .inl (Option.some.inj h).symm
    next fd highWater he =>
      obtain ⟨hf, rfl⟩ := of_guard h
      exact .inr (.inl ⟨rfl, fd, highWater, he, hf, rfl⟩)
  | conn c =>
    simp only [handleEvent] at h
    split at h
    · cases h
    next hc =>
      split at h
      · exact .inl (Option.some.inj h).symm
      next ht =>
        refine .inr (.inr ⟨c, not_not.mp hc, rfl, fun htied => ?_, (Option.some.inj h).symm⟩)
        by_contra hn
        exact ht ⟨htied, hn⟩

/-- The handler of a connection that is held is called. -/
theorem handleEvent_held {c : ConnId} (hc : c < s.accepted) (hh : s.Held cfg c) (env : DispatchEnv) :
    s.handleEvent cfg l (.conn c) env = some (s.onConn l c (Io.handleEventWithGuard env.callbacks)) := by
  simp only [handleEvent]
  rw [if_neg (not_not.mpr hc), if_neg fun hn => hn.2 hh]

end Cases

/-! ### The life of a connection, in labels -/

/-- A server with one sub loop. -/
def config : Config where
  name := []
  ipPort := []
  ipPort_length := Nat.zero_le _
  numThreads := 1
  writeCompleteCallback := false
  listenFd := 3
  wakeupFd l := 4 + l
  workers := 1

/-- A functor that meets nothing. -/
def quiet : FunctorEnv := ⟨[], [], ⟨.ok 0, 0⟩⟩

/-- A dispatch that accepts a connection with the descriptor `fd`, or finds the end of the stream. -/
def dispatchEnv (fd : ℕ) : DispatchEnv := ⟨some (fd, none), [], fun _ => ⟨.ok [], .ok 0, []⟩⟩

/-- Accepted in the base loop, established in the sub loop. -/
def opening (fd : ℕ) : List Label :=
  [.poll 0 [(3, ⟨true, false, false, false, false⟩)], .dispatch 0 (dispatchEnv fd),
    .doPendingFunctors 0, .endFunctors 0, .poll 1 [], .doPendingFunctors 1, .runFunctor 1 quiet,
    .react 1, .functorReturn 1, .endFunctors 1]

/-- Closed by the peer: `handleClose` in the sub loop, `removeConnectionInLoop` in the base loop. -/
def closing (fd : ℕ) : List Label :=
  [.poll 1 [(fd, ⟨true, false, false, false, false⟩)], .dispatch 1 (dispatchEnv fd), .react 1,
    .react 1, .doPendingFunctors 1, .endFunctors 1, .poll 0 [], .doPendingFunctors 0,
    .runFunctor 0 quiet, .functorReturn 0, .endFunctors 0]

/-- The loop takes its pending functors. -/
def taking (l : LoopId) : List Label := [.poll l [], .doPendingFunctors l]

/-- The loop runs one functor. -/
def running (l : LoopId) : List Label := [.runFunctor l quiet, .functorReturn l]

end TcpServer

end Mymuduo
