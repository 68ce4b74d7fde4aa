import Mymuduo.Buffer
import Mymuduo.Channel

/-!
# Mymuduo.TcpConnection — a connection as its loop thread runs it (`TcpConnection.cc`, `Channel.cc`)

The member functions act on an `Io`: the connection, the poller of its loop, and the `trace` of what
happened at its border (system calls on the socket, callbacks, functors queued).  What the kernel and
the user code answer is an argument of each function:

* `IoRet` is the result of a `write`; of the bytes offered the kernel accepts at most all;
* `SendEnv` is what one `sendInLoop` meets: the result of its `write`, and the value that the logging
  of a failed `write` leaves in `errno`, which the source reads again afterwards;
* `UserAct` is a call that user code makes from inside a callback, on the loop thread.

`connectionCallback`, `messageCallback` and `closeCallback` are always set; whether
`writeCompleteCallback` and `highWaterMarkCallback` are is part of the connection.
-/

namespace Mymuduo

open Events

/-- A buffer together with its index invariant. -/
abbrev ValidBuffer := { b : Buffer // b.Inv }

namespace ValidBuffer

def new (initialSize : ℕ) : ValidBuffer := ⟨.new initialSize, Buffer.inv_new _⟩

def readable (b : ValidBuffer) : List UInt8 := b.val.readable

def readableBytes (b : ValidBuffer) : ℕ := b.val.readableBytes

def retrieve (b : ValidBuffer) (len : ℕ) : ValidBuffer := ⟨b.val.retrieve len, b.property.retrieve len⟩

def append (b : ValidBuffer) (data : List UInt8) : ValidBuffer :=
  ⟨b.val.append data, b.property.append data⟩

def readFd (b : ValidBuffer) (data : List UInt8) : ValidBuffer :=
  ⟨b.val.readFd data, b.property.readFd data⟩

@[simp] theorem readable_new (n : ℕ) : (new n).readable = [] := Buffer.readable_new n

@[simp] theorem readable_retrieve (b : ValidBuffer) (len : ℕ) :
    (b.retrieve len).readable = b.readable.drop len :=
  b.property.readable_retrieve len

@[simp] theorem readable_append (b : ValidBuffer) (data : List UInt8) :
    (b.append data).readable = b.readable ++ data :=
  b.property.readable_append data

theorem readableBytes_eq (b : ValidBuffer) : b.readableBytes = b.readable.length :=
  b.property.length_readable.symm

end ValidBuffer

/-! ### The environment -/

abbrev Errno := ℕ

def EWOULDBLOCK : Errno := 11

def EPIPE : Errno := 32

def ECONNRESET : Errno := 104

/-- `EPIPE` or `ECONNRESET`. -/
def Fatal (e : Errno) : Prop := e = EPIPE ∨ e = ECONNRESET

instance (e : Errno) : Decidable (Fatal e) := inferInstanceAs (Decidable (_ ∨ _))

/-- The result of a `write`. -/
inductive IoRet
  | ok (n : ℕ)
  | err (errno : Errno)
  deriving DecidableEq, Repr

/-- The kernel accepts no more bytes than it was offered. -/
def IoRet.of (ret : IoRet) (offered : List UInt8) : IoRet :=
  match ret with
  | .ok n => .ok (min n offered.length)
  | .err e => .err e

/-- The result of a `readv`: the bytes delivered, at most as many as were asked for. -/
inductive ReadRet
  | ok (data : List UInt8)
  | err (errno : Errno)
  deriving DecidableEq, Repr

structure SendEnv where
  write : IoRet
  logErrno : Errno
  deriving DecidableEq, Repr

inductive UserAct
  | send (message : List UInt8) (env : SendEnv)
  | shutdown
  | retrieve (len : ℕ)
  deriving DecidableEq, Repr

/-- What happens at the border of a connection.  The write of `sendInLoop` is a `directWrite`, with
what its `SendEnv` holds, that of `handleWrite` a `write`; `shutdownWrite` records the bytes that are
still in `outputBuffer`; `writeComplete` and `highWaterMark` are functors queued in the loop. -/
inductive Event
  | sendInLoop (message : List UInt8)
  | directWrite (message : List UInt8) (ret : IoRet) (logErrno : Errno)
  | write (offered : List UInt8) (ret : IoRet)
  | shutdownWrite (buffered : List UInt8)
  | connectionCallback (connected : Bool)
  | messageCallback
  | closeCallback
  | writeComplete
  | highWaterMark (size : ℕ)
  deriving DecidableEq, Repr

/-! ### The connection -/

inductive StateE
  | kDisconnected
  | kConnecting
  | kConnected
  | kDisconnecting
  deriving DecidableEq, Repr

structure TcpConnection where
  state : StateE
  channel : Channel
  inputBuffer : ValidBuffer
  outputBuffer : ValidBuffer
  highWaterMark : ℕ
  writeCompleteCallback : Bool
  highWaterMarkCallback : Bool

namespace TcpConnection

/-- The constructor, followed by the setters of the two optional callbacks; `highWater` is the mark
given to `setHighWaterMarkCallback`, if that is called. -/
def new (this : ChannelPtr) (fd : ℕ) (writeComplete : Bool) (highWater : Option ℕ) :
    TcpConnection where
  state := .kConnecting
  channel := .new this fd
  inputBuffer := .new Buffer.kInitialSize
  outputBuffer := .new Buffer.kInitialSize
  highWaterMark := highWater.getD (64 * 1024 * 1024)
  writeCompleteCallback := writeComplete
  highWaterMarkCallback := highWater.isSome

def connected (c : TcpConnection) : Bool := c.state = .kConnected

end TcpConnection

structure Io where
  conn : TcpConnection
  poller : EPollerPoller
  trace : List Event

namespace Io

def emit (e : Event) (io : Io) : Io := { io with trace := io.trace ++ [e] }

def setState (s : StateE) (io : Io) : Io := { io with conn := { io.conn with state := s } }

/-- An operation of the connection's channel. -/
def onChannel (f : Channel → EPollerPoller → EPollerPoller × Channel) (io : Io) : Io :=
  let r := f io.conn.channel io.poller
  { io with conn := { io.conn with channel := r.2 }, poller := r.1 }

def setOutput (b : ValidBuffer) (io : Io) : Io :=
  { io with conn := { io.conn with outputBuffer := b } }

def setInput (b : ValidBuffer) (io : Io) : Io :=
  { io with conn := { io.conn with inputBuffer := b } }

section Fields

variable (io : Io) (e : Event) (s : StateE) (b : ValidBuffer)
  (f : Channel → EPollerPoller → EPollerPoller × Channel)

@[simp] theorem emit_conn : (io.emit e).conn = io.conn := rfl
@[simp] theorem emit_poller : (io.emit e).poller = io.poller := rfl
@[simp] theorem emit_trace : (io.emit e).trace = io.trace ++ [e] := rfl
@[simp] theorem setState_state : (io.setState s).conn.state = s := rfl
@[simp] theorem setState_channel : (io.setState s).conn.channel = io.conn.channel := rfl
@[simp] theorem setState_output : (io.setState s).conn.outputBuffer = io.conn.outputBuffer := rfl
@[simp] theorem setState_poller : (io.setState s).poller = io.poller := rfl
@[simp] theorem setState_trace : (io.setState s).trace = io.trace := rfl
@[simp] theorem onChannel_state : (io.onChannel f).conn.state = io.conn.state := rfl
@[simp] theorem onChannel_channel :
    (io.onChannel f).conn.channel = (f io.conn.channel io.poller).2 := rfl
@[simp] theorem onChannel_output : (io.onChannel f).conn.outputBuffer = io.conn.outputBuffer := rfl
@[simp] theorem onChannel_poller : (io.onChannel f).poller = (f io.conn.channel io.poller).1 := rfl
@[simp] theorem onChannel_trace : (io.onChannel f).trace = io.trace := rfl
@[simp] theorem setOutput_state : (io.setOutput b).conn.state = io.conn.state := rfl
@[simp] theorem setOutput_channel : (io.setOutput b).conn.channel = io.conn.channel := rfl
@[simp] theorem setOutput_output : (io.setOutput b).conn.outputBuffer = b := rfl
@[simp] theorem setOutput_poller : (io.setOutput b).poller = io.poller := rfl
@[simp] theorem setOutput_trace : (io.setOutput b).trace = io.trace := rfl
@[simp] theorem setInput_state : (io.setInput b).conn.state = io.conn.state := rfl
@[simp] theorem setInput_channel : (io.setInput b).conn.channel = io.conn.channel := rfl
@[simp] theorem setInput_output : (io.setInput b).conn.outputBuffer = io.conn.outputBuffer := rfl
@[simp] theorem setInput_poller : (io.setInput b).poller = io.poller := rfl
@[simp] theorem setInput_trace : (io.setInput b).trace = io.trace := rfl

end Fields

/-! ### Sending -/

/-- Queue `writeCompleteCallback`, if it is set. -/
def queueWriteComplete (io : Io) : Io :=
  if io.conn.writeCompleteCallback then io.emit .writeComplete else io

/-- Queue `highWaterMarkCallback`, if it is set and `remaining` more bytes reach the mark. -/
def queueHighWaterMark (remaining : ℕ) (io : Io) : Io :=
  let oldLen := io.conn.outputBuffer.readableBytes
  if io.conn.highWaterMark ≤ oldLen + remaining ∧ oldLen < io.conn.highWaterMark ∧
      io.conn.highWaterMarkCallback then io.emit (.highWaterMark (oldLen + remaining)) else io

/-- The direct write of `sendInLoop`: the number of bytes written, and `faultError`. -/
def writeDirect (message : List UInt8) (env : SendEnv) (io : Io) : Io × ℕ × Bool :=
  let ret := env.write.of message
  let io := io.emit (.directWrite message ret env.logErrno)
  match ret with
  | .ok nwrote =>
    let remaining := message.length - nwrote
    (if remaining = 0 then io.queueWriteComplete else io, nwrote, false)
  | .err errno =>
    -- `errno` is read again after `LOG_ERROR`
    (io, 0, decide (errno ≠ EWOULDBLOCK) && decide (Fatal env.logErrno))

/-- The end of `sendInLoop`: buffer what the direct write has left. -/
def appendRemaining (message : List UInt8) (nwrote : ℕ) (io : Io) : Io :=
  let io := io.queueHighWaterMark (message.length - nwrote)
  let io := io.setOutput (io.conn.outputBuffer.append (message.drop nwrote))
  if io.conn.channel.isWriting then io else io.onChannel Channel.enableWriting

def sendInLoop (message : List UInt8) (env : SendEnv) (io : Io) : Io :=
  let io := io.emit (.sendInLoop message)
  if io.conn.state = .kDisconnected then io
  else
    let r :=
      if !io.conn.channel.isWriting && io.conn.outputBuffer.readableBytes = 0 then
        io.writeDirect message env
      else (io, 0, false)
    if !r.2.2 && 0 < message.length - r.2.1 then r.1.appendRemaining message r.2.1 else r.1

/-- `send`, called on the loop thread. -/
def send (message : List UInt8) (env : SendEnv) (io : Io) : Io :=
  if io.conn.state = .kConnected then io.sendInLoop message env else io

/-! ### Shutting down -/

def shutdownInLoop (io : Io) : Io :=
  if io.conn.channel.isWriting then io
  else io.emit (.shutdownWrite io.conn.outputBuffer.readable)

/-- `shutdown`, called on the loop thread. -/
def shutdown (io : Io) : Io :=
  if io.conn.state = .kConnected then (io.setState .kDisconnecting).shutdownInLoop else io

/-! ### User code -/

def act (io : Io) : UserAct → Io
  | .send message env => io.send message env
  | .shutdown => io.shutdown
  | .retrieve len => io.setInput (io.conn.inputBuffer.retrieve len)

def user (acts : List UserAct) (io : Io) : Io := acts.foldl act io

/-- Invoke `connectionCallback`, whose body performs `acts`. -/
def callConnection (acts : List UserAct) (io : Io) : Io :=
  (io.emit (.connectionCallback io.conn.connected)).user acts

/-! ### Beginning and end -/

/-- `channel->tie(shared_from_this())`. -/
def tie (io : Io) : Io :=
  io.onChannel fun c p => (p, { c with tied := true })

def connectEstablished (acts : List UserAct) (io : Io) : Io :=
  (((io.setState .kConnected).tie).onChannel Channel.enableReading).callConnection acts

def connectDestroyed (acts : List UserAct) (io : Io) : Io :=
  let io :=
    if io.conn.state = .kConnected then
      ((io.setState .kDisconnected).onChannel Channel.disableAll).callConnection acts
    else io
  io.onChannel Channel.remove

def handleClose (acts : List UserAct) (io : Io) : Io :=
  (((io.setState .kDisconnected).onChannel Channel.disableAll).callConnection acts).emit .closeCallback

/-! ### Events -/

def handleRead (ret : ReadRet) (acts : List UserAct) (io : Io) : Io :=
  match ret with
  | .ok data =>
    let data := data.take io.conn.inputBuffer.val.offered
    let io := io.setInput (io.conn.inputBuffer.readFd data)
    if data = [] then io.handleClose acts else (io.emit .messageCallback).user acts
  | .err _ => io

/-- What `handleWrite` does when the write has emptied `outputBuffer`. -/
def drained (io : Io) : Io :=
  let io := (io.onChannel Channel.disableWriting).queueWriteComplete
  if io.conn.state = .kDisconnecting then io.shutdownInLoop else io

def handleWrite (ret : IoRet) (io : Io) : Io :=
  if io.conn.channel.isWriting then
    let ret := ret.of io.conn.outputBuffer.readable
    let io := io.emit (.write io.conn.outputBuffer.readable ret)
    match ret with
    | .ok n =>
      if 0 < n then
        let io := io.setOutput (io.conn.outputBuffer.retrieve n)
        if io.conn.outputBuffer.readableBytes = 0 then io.drained else io
      else io
    | .err _ => io
  else io

/-- The callbacks of a channel. -/
inductive Callback
  | close
  | error
  | read
  | write
  deriving DecidableEq, Repr

/-- The callbacks that `handleEventWithGuard` invokes for `revents`, in this order. -/
def callbacks (revents : Events) : List Callback :=
  (if revents.epollhup && !revents.epollin then [.close] else []) ++
  (if revents.epollerr then [.error] else []) ++
  (if revents.epollin || revents.epollpri then [.read] else []) ++
  (if revents.epollout then [.write] else [])

/-- What one callback meets. -/
structure CallbackEnv where
  read : ReadRet
  write : IoRet
  acts : List UserAct

def callback (cb : Callback) (env : CallbackEnv) (io : Io) : Io :=
  match cb with
  | .close => io.handleClose env.acts
  | .error => io
  | .read => io.handleRead env.read env.acts
  | .write => io.handleWrite env.write

def handleEventWithGuard (env : Callback → CallbackEnv) (io : Io) : Io :=
  (callbacks io.conn.channel.revents).foldl (fun io cb => io.callback cb (env cb)) io

end Io

end Mymuduo
