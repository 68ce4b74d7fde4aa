import Mathlib.Logic.Function.Basic
import Mymuduo.Lib.Transition
import Mymuduo.SendSpec

/-!
# Mymuduo.SendCapture — what a cross-thread `send` captures

In a thread other than the loop's, `send` queues `std::bind(&TcpConnection::sendInLoop, this,
message.c_str(), message.size())`: the functor holds a pointer and a length, and the bytes are read
when it runs.  Memory maps an address to its byte, `none` where there is no storage; between the call
and the run the caller may do anything to it.
-/

namespace Mymuduo

open Lib

/-! ### Memory -/

abbrev Memory := ℕ → Option UInt8

namespace Memory

/-- The `len` bytes at `addr`; `none` when some of them have no storage. -/
def read (mem : Memory) : ℕ → ℕ → Option (List UInt8)
  | _, 0 => some []
  | addr, len + 1 => do
    let b ← mem addr
    let bs ← mem.read (addr + 1) len
    return b :: bs

/-- The second memory reads the same bytes exactly if it agrees on each of them. -/
theorem read_eq_some_iff {mem mem' : Memory} {addr len : ℕ} {bytes : List UInt8}
    (h : mem.read addr len = some bytes) :
    mem'.read addr len = some bytes ↔ ∀ i < len, mem' (addr + i) = mem (addr + i) := by
  induction len generalizing addr bytes with
  | zero => simpa [read] using h
  | succ len ih =>
    simp only [read, Option.bind_eq_bind, Option.pure_def, Option.bind_eq_some_iff,
      Option.some.injEq] at h
    obtain ⟨b, hb, bs, hbs, rfl⟩ := h
    simp only [read, Option.bind_eq_bind, Option.pure_def, Option.bind_eq_some_iff,
      Option.some.injEq, List.cons.injEq]
    constructor
    · rintro ⟨b', hb', bs', hbs', rfl, rfl⟩ i hi
      cases i with
      | zero => rw [Nat.add_zero, hb, hb']
      | succ i =>
        have := (ih hbs).mp hbs' i (by omega)
        rwa [Nat.add_right_comm, Nat.add_assoc] at this
    · intro hall
      refine ⟨b, ?_, bs, (ih hbs).mpr fun i hi => ?_, rfl, rfl⟩
      · have := hall 0 (by omega)
        rwa [Nat.add_zero, hb] at this
      · have := hall (i + 1) (by omega)
        rwa [← Nat.add_assoc, Nat.add_right_comm] at this

end Memory

/-- What the caller may do to its storage once `send` has returned. -/
inductive CallerAct
  | store (addr : ℕ) (byte : UInt8)
  | free (addr len : ℕ)
  | alloc (addr : ℕ) (bytes : List UInt8)

def Memory.act (mem : Memory) : CallerAct → Memory
  | .store addr byte => Function.update mem addr (some byte)
  | .free addr len => fun a => if addr ≤ a ∧ a < addr + len then none else mem a
  | .alloc addr bytes => fun a =>
    if addr ≤ a ∧ a < addr + bytes.length then bytes[a - addr]? else mem a

/-! ### The two ways of sending -/

/-- A `std::string`: its storage and its length. -/
structure StdString where
  c_str : ℕ
  size : ℕ

/-- The contents of the string. -/
def StdString.bytes (s : StdString) (mem : Memory) : Option (List UInt8) := mem.read s.c_str s.size

/-- The arguments bound into the deferred `sendInLoop`. -/
structure SendFunctor where
  message : ℕ
  len : ℕ

/-- `send` in another thread than the loop's. -/
def sendForeign (state : StateE) (message : StdString) : Option SendFunctor :=
  if state = .kConnected then some ⟨message.c_str, message.size⟩ else none

namespace Io

variable {io io' : Io}

/-- `sendInLoop`, run with the pointer and the length of the functor.  A closed connection does not
look at the message; `none` is a read of storage that is gone. -/
def sendInLoopAt (mem : Memory) (f : SendFunctor) (env : SendEnv) (io : Io) : Option Io :=
  if io.conn.state = .kDisconnected then some io
  else (mem.read f.message f.len).map fun bytes => io.sendInLoop bytes env

/-- Between `io` and `io'` exactly `bytes` are handed to `write`, or appended to `outputBuffer`. -/
def Sends (io : Io) (bytes : List UInt8) (io' : Io) : Prop :=
  if io.conn.channel.isWriting = false ∧ io.conn.outputBuffer.readable = [] then
    ∃ call ret e, io.trace ++ [call, .directWrite bytes ret e] <+: io'.trace
  else io'.conn.outputBuffer.readable = io.conn.outputBuffer.readable ++ bytes

theorem Sends.unique {bytes bytes' : List UInt8} (h : io.Sends bytes io')
    (h' : io.Sends bytes' io') : bytes = bytes' := by
  unfold Sends at h h'
  split at h
  next hc =>
    rw [if_pos hc] at h'
    obtain ⟨call, ret, e, hp⟩ := h
    obtain ⟨call', ret', e', hp'⟩ := h'
    have heq := (List.prefix_of_prefix_length_le hp hp' (by simp)).eq_of_length (by simp)
    simp only [List.append_cancel_left_eq, List.cons.injEq, Event.directWrite.injEq] at heq
    exact heq.2.1.1
  next hc =>
    rw [if_neg hc, h] at h'
    exact List.append_cancel_left h'

theorem sendInLoop_sends (bytes : List UInt8) (env : SendEnv) (hs : io.conn.state ≠ .kDisconnected) :
    io.Sends bytes (io.sendInLoop bytes env) := by
  obtain ⟨evs, rest, h, hb⟩ := sendInLoop_cases bytes env hs
  unfold Sends
  cases h with
  | behind busy _ =>
    rw [if_neg busy]
    exact hb.output
  | @taken n notes hw hr _ _ =>
    rw [if_pos ⟨hw, hr⟩]
    exact ⟨.sendInLoop bytes, .ok n, env.logErrno, notes, by simp [hb.trace]⟩
  | @failed e notes hw hr _ _ _ =>
    rw [if_pos ⟨hw, hr⟩]
    exact ⟨.sendInLoop bytes, .err e, env.logErrno, notes, by simp [hb.trace]⟩
  | @dropped e hw hr _ _ _ _ =>
    rw [if_pos ⟨hw, hr⟩]
    exact ⟨.sendInLoop bytes, .err e, env.logErrno, [], by simp [hb.trace]⟩

end Io

section Deferred

variable {mem mem' : Memory} {message : StdString} {bytes : List UInt8} {state : StateE}
  {f : SendFunctor} {io : Io} {env : SendEnv}

/-- While the storage holds the message, the functor is `sendInLoop` of the message. -/
theorem sendInLoopAt_eq (hm : message.bytes mem = some bytes)
    (hf : sendForeign state message = some f) (hs : io.conn.state ≠ .kDisconnected)
    (hmem : ∀ i < message.size, mem' (message.c_str + i) = mem (message.c_str + i)) :
    io.sendInLoopAt mem' f env = some (io.sendInLoop bytes env) := by
  obtain ⟨-, rfl⟩ := of_guard hf
  unfold Io.sendInLoopAt
  rw [if_neg hs, (Memory.read_eq_some_iff hm).mpr hmem, Option.map_some]

/-- The functor hands on the message exactly while the storage holds it. -/
theorem sendInLoopAt_sends_iff (hm : message.bytes mem = some bytes)
    (hf : sendForeign state message = some f) (hs : io.conn.state ≠ .kDisconnected) :
    (∃ io', io.sendInLoopAt mem' f env = some io' ∧ io.Sends bytes io') ↔
      ∀ i < message.size, mem' (message.c_str + i) = mem (message.c_str + i) := by
  constructor
  · rintro ⟨io', he, hsend⟩
    obtain ⟨-, rfl⟩ := of_guard hf
    rw [Io.sendInLoopAt, if_neg hs, Option.map_eq_some_iff] at he
    obtain ⟨read, hread, rfl⟩ := he
    obtain rfl := (Io.sendInLoop_sends read env hs).unique hsend
    exact (Memory.read_eq_some_iff hm).mp hread
  · intro hmem
    exact ⟨_, sendInLoopAt_eq hm hf hs hmem, Io.sendInLoop_sends bytes env hs⟩

end Deferred

/-- **A cross-thread send transmits the message as it was at the call** exactly if the captured
storage holds the same bytes when the functor runs, on a connection not closed meanwhile; and then the
functor does what `sendInLoop` on the loop thread does with the message. -/
theorem deferred_send {mem : Memory} {message : StdString} {bytes : List UInt8} {state : StateE}
    {f : SendFunctor} (acts : List CallerAct) (io : Io) (env : SendEnv)
    (hm : message.bytes mem = some bytes) (hf : sendForeign state message = some f)
    (hs : io.conn.state ≠ .kDisconnected) :
    ((∃ io', io.sendInLoopAt (acts.foldl Memory.act mem) f env = some io' ∧ io.Sends bytes io') ↔
      ∀ i < message.size,
        acts.foldl Memory.act mem (message.c_str + i) = mem (message.c_str + i)) ∧
    ((∀ i < message.size,
        acts.foldl Memory.act mem (message.c_str + i) = mem (message.c_str + i)) →
      io.sendInLoopAt (acts.foldl Memory.act mem) f env = some (io.sendInLoop bytes env)) :=
  ⟨sendInLoopAt_sends_iff hm hf hs, sendInLoopAt_eq hm hf hs⟩

/-- The two bytes `104 105` at address `16`. -/
def greeting : Memory := Memory.act (fun _ => none) (.alloc 16 [104, 105])

/-- An established connection on which nothing has happened. -/
def idleConn : Io := ⟨{ TcpConnection.new (.conn 0) 7 false none with state := .kConnected }, .new, []⟩

/-- The caller stores into a neighbouring address: the message arrives. -/
theorem deferred_send_untouched :
    ∃ io', idleConn.sendInLoopAt (greeting.act (.store 18 33)) ⟨16, 2⟩ ⟨.ok 2, 0⟩ = some io' ∧
      idleConn.Sends [104, 105] io' :=
  (@deferred_send greeting ⟨16, 2⟩ [104, 105] .kConnected ⟨16, 2⟩ [.store 18 33] idleConn ⟨.ok 2, 0⟩
    (by decide) rfl (by decide)).1.mpr (by decide)

/-- The caller overwrites the first byte: another message is sent.  After the storage is freed there
is none to send at all. -/
theorem deferred_send_overwritten :
    ¬ ∀ (mem : Memory) (message : StdString) (bytes : List UInt8) (f : SendFunctor)
      (acts : List CallerAct) (io : Io) (env : SendEnv), message.bytes mem = some bytes →
      sendForeign .kConnected message = some f → io.conn.state = .kConnected →
      ∃ io', io.sendInLoopAt (acts.foldl Memory.act mem) f env = some io' ∧ io.Sends bytes io' := by
  intro h
  have hm : StdString.bytes ⟨16, 2⟩ greeting = some [104, 105] := by decide
  have hf : sendForeign .kConnected ⟨16, 2⟩ = some ⟨16, 2⟩ := rfl
  have hs := h greeting ⟨16, 2⟩ [104, 105] ⟨16, 2⟩ [.store 16 72] idleConn ⟨.ok 2, 0⟩ hm hf rfl
  have hmem := (sendInLoopAt_sends_iff hm hf (by decide)).mp hs
  exact absurd (hmem 0 (by decide)) (by decide)

end Mymuduo
