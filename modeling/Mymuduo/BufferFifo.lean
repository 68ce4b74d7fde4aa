import Mymuduo.Buffer
import Mymuduo.Lib.Refinement
import Mymuduo.Lib.Transition

/-!
# Mymuduo.BufferFifo — the buffer refines a FIFO byte queue

`Buffer.obj` is the object of the buffer's public operations, `fifo` the abstract byte queue that
they implement: the list of the bytes received and not yet retrieved.  `fifo` allows
`retrieveAsString len` only within its length; everything it allows, a buffer does with the same
outputs (`refines_fifo`), from any state satisfying the index invariant.

Beyond the length of the queue `retrieveAsString` returns other bytes too, or reads past the array
(`retrieveAsString_front_iff`).
-/

namespace Mymuduo

open Lib

namespace Buffer

/-- The operations on a buffer; `readFd data` is a `readFd` whose `readv` delivers `data`. -/
inductive Op
  | append (data : List UInt8)
  | ensureWritableBytes (len : ℕ)
  | retrieve (len : ℕ)
  | retrieveAll
  | retrieveAllAsString
  | retrieveAsString (len : ℕ)
  | readFd (data : List UInt8)
  deriving DecidableEq, Repr

/-- The buffer as an object; the output is the returned string, `[]` for `void`. -/
def obj : Obj Buffer Op (List UInt8) where
  apply b
    | .append data => some ([], b.append data)
    | .ensureWritableBytes len => some ([], b.ensureWritableBytes len)
    | .retrieve len => some ([], b.retrieve len)
    | .retrieveAll => some ([], b.retrieveAll)
    | .retrieveAllAsString => b.retrieveAllAsString
    | .retrieveAsString len => b.retrieveAsString len
    | .readFd data => some ([], b.readFd data)

end Buffer

open Buffer (Op)

/-- The abstract queue of bytes. -/
def fifo : Obj (List UInt8) Op (List UInt8) where
  apply q
    | .append data => some ([], q ++ data)
    | .ensureWritableBytes _ => some ([], q)
    | .retrieve len => some ([], q.drop len)
    | .retrieveAll => some ([], [])
    | .retrieveAllAsString => some (q, [])
    | .retrieveAsString len => if len ≤ q.length then some (q.take len, q.drop len) else none
    | .readFd data => some ([], q ++ data)

namespace Buffer

/-- `b` represents the byte queue `q`. -/
structure Represents (b : Buffer) (q : List UInt8) : Prop where
  inv : b.Inv
  readable : b.readable = q

theorem Represents.retrieveAll {b : Buffer} {q : List UInt8} (h : Represents b q) :
    Represents b.retrieveAll [] :=
  ⟨h.inv.retrieveAll, by simp [Buffer.readable, Buffer.retrieveAll, readableBytes]⟩

theorem Represents.retrieve {b : Buffer} {q : List UInt8} (h : Represents b q) (len : ℕ) :
    Represents (b.retrieve len) (q.drop len) :=
  ⟨h.inv.retrieve len, by rw [h.inv.readable_retrieve, h.readable]⟩

theorem Represents.retrieveAsString {b : Buffer} {q : List UInt8} (h : Represents b q) {len : ℕ}
    (hlen : len ≤ q.length) :
    b.retrieveAsString len = some (q.take len, b.retrieve len) := by
  have hb : len ≤ b.readableBytes := by rwa [← h.inv.length_readable, h.readable]
  rw [h.inv.retrieveAsString hb, h.readable]

/-- **Refinement**: the buffer does whatever the byte queue allows, with the same outputs. -/
theorem refines_fifo : obj.Refines fifo Represents := by
  intro b q op out q' h hop
  cases op with
  | append data =>
    simp only [fifo, Option.some.injEq, Prod.mk.injEq] at hop
    obtain ⟨rfl, rfl⟩ := hop
    exact ⟨b.append data, rfl, h.inv.append data, by rw [h.inv.readable_append, h.readable]⟩
  | ensureWritableBytes len =>
    simp only [fifo, Option.some.injEq, Prod.mk.injEq] at hop
    obtain ⟨rfl, rfl⟩ := hop
    have hr := h.inv.roomFor len
    exact ⟨b.ensureWritableBytes len, rfl, hr.inv, hr.readable.trans h.readable⟩
  | retrieve len =>
    simp only [fifo, Option.some.injEq, Prod.mk.injEq] at hop
    obtain ⟨rfl, rfl⟩ := hop
    exact ⟨b.retrieve len, rfl, h.retrieve len⟩
  | retrieveAll =>
    simp only [fifo, Option.some.injEq, Prod.mk.injEq] at hop
    obtain ⟨rfl, rfl⟩ := hop
    exact ⟨b.retrieveAll, rfl, h.retrieveAll⟩
  | retrieveAllAsString =>
    simp only [fifo, Option.some.injEq, Prod.mk.injEq] at hop
    obtain ⟨rfl, rfl⟩ := hop
    have hlen : b.readableBytes = q.length := by rw [← h.inv.length_readable, h.readable]
    refine ⟨b.retrieve b.readableBytes, ?_, ?_⟩
    · show b.retrieveAsString b.readableBytes = _
      rw [h.retrieveAsString hlen.le, List.take_of_length_le hlen.ge]
    · have := h.retrieve b.readableBytes
      rwa [List.drop_eq_nil_of_le hlen.ge] at this
  | retrieveAsString len =>
    simp only [fifo] at hop
    split at hop
    next hlen =>
      simp only [Option.some.injEq, Prod.mk.injEq] at hop
      obtain ⟨rfl, rfl⟩ := hop
      exact ⟨b.retrieve len, h.retrieveAsString hlen, h.retrieve len⟩
    next => cases hop
  | readFd data =>
    simp only [fifo, Option.some.injEq, Prod.mk.injEq] at hop
    obtain ⟨rfl, rfl⟩ := hop
    exact ⟨b.readFd data, rfl, h.inv.readFd data, by rw [h.inv.readable_readFd, h.readable]⟩

/-! ### Every history -/

/-- What an operation leaves. -/
def after (b : Buffer) : Op → Buffer
  | .append data => b.append data
  | .ensureWritableBytes len => b.ensureWritableBytes len
  | .retrieve len | .retrieveAsString len => b.retrieve len
  | .retrieveAll => b.retrieveAll
  | .retrieveAllAsString => b.retrieve b.readableBytes
  | .readFd data => b.readFd data

/-- An operation that returns has left that. -/
theorem eq_after_of_apply {b b' : Buffer} {op : Op} {out : List UInt8}
    (h : obj.apply b op = some (out, b')) : b' = b.after op := by
  cases op with
  | retrieveAllAsString => exact eq_retrieve_of_retrieveAsString h
  | retrieveAsString len => exact eq_retrieve_of_retrieveAsString h
  | _ => exact (Prod.mk.inj (Option.some.inj h)).2.symm

/-- No operation, allowed by the queue or not, breaks the index invariant or shrinks the array. -/
theorem Inv.apply {b b' : Buffer} {op : Op} {out : List UInt8} (h : b.Inv)
    (hop : obj.apply b op = some (out, b')) : b'.Inv ∧ b.size ≤ b'.size := by
  obtain rfl := eq_after_of_apply hop
  cases op with
  | append data => exact ⟨h.append data, h.size_le_append data⟩
  | ensureWritableBytes len => exact ⟨(h.roomFor len).inv, (h.roomFor len).size⟩
  | retrieve len => exact ⟨h.retrieve len, size_le_retrieve b len⟩
  | retrieveAll => exact ⟨h.retrieveAll, le_rfl⟩
  | retrieveAllAsString => exact ⟨h.retrieve _, size_le_retrieve b _⟩
  | retrieveAsString len => exact ⟨h.retrieve len, size_le_retrieve b len⟩
  | readFd data => exact ⟨h.readFd data, h.size_le_readFd data⟩

/-- **The buffer is a FIFO byte queue**, over every history that the queue allows: same outputs,
the readable bytes are the queue, the index invariant holds, no further operations shrink the
array, room is made without touching the readable bytes, and `ensureWritableBytes` does nothing, or lets the
array grow, or slides the data strictly to the left. -/
theorem run_refines_fifo (initialSize : ℕ) (ops : List Op) (outs : List (List UInt8))
    (q : List UInt8) (h : fifo.run [] ops = some (outs, q)) :
    ∃ b, obj.run (new initialSize) ops = some (outs, b) ∧ b.Inv ∧ b.readable = q ∧
      (∀ ops' outs' b', obj.run b ops' = some (outs', b') → b.size ≤ b'.size) ∧
      (∀ len, (b.ensureWritableBytes len).readable = q ∧
        len ≤ (b.ensureWritableBytes len).writableBytes) ∧
      ∀ (b' : Buffer) len,
        b'.Compacts len ∧ kCheapPrepend < b'.readerIndex ∧ b'.ensureWritableBytes len =
          { buffer := copyForward b'.buffer b'.readerIndex kCheapPrepend b'.readableBytes
            readerIndex := kCheapPrepend
            writerIndex := kCheapPrepend + b'.readableBytes } ∨
        ¬ b'.Compacts len ∧ (b'.ensureWritableBytes len = b' ∨
          b'.ensureWritableBytes len = { b' with buffer := resize b'.buffer (b'.writerIndex + len) }) := by
  have h0 : Represents (new initialSize) [] := ⟨inv_new _, readable_new _⟩
  obtain ⟨b, hb, hinv, hread⟩ := refines_fifo.run h0 h
  refine ⟨b, hb, hinv, hread, ?_, ?_, fun b' len =>
    (b'.ensureWritableBytes_cases len).imp_left fun hc => ⟨hc.1, hc.1.prepend_lt, hc.2⟩⟩
  · intro ops' outs' b' hrun
    exact Obj.le_of_run size (fun _ _ _ _ => Inv.apply) hinv hrun
  · intro len
    have hr := hinv.roomFor len
    exact ⟨hr.readable.trans hread, hr.room⟩

/-- Filling, draining and refilling a four-byte buffer makes it grow and then slide. -/
theorem run_refines_fifo_slide :
    ∃ b, obj.run (new 4) [.append [1, 2, 3, 4, 5], .retrieve 4, .append [6, 7], .retrieveAsString 2] =
        some ([[], [], [], [5, 6]], b) ∧ b.readable = [7] := by
  obtain ⟨b, hrun, -, hread, -⟩ := run_refines_fifo 4
    [.append [1, 2, 3, 4, 5], .retrieve 4, .append [6, 7], .retrieveAsString 2]
    [[], [], [], [5, 6]] [7] (by decide)
  exact ⟨b, hrun, hread⟩

theorem Inv.run {b b' : Buffer} {ops : List Op} {outs : List (List UInt8)} (h : b.Inv)
    (hrun : obj.run b ops = some (outs, b')) : b'.Inv :=
  Obj.invariant_of_run (fun _ _ _ _ hi hop => (hi.apply hop).1) h hrun

/-! ### `retrieveAsString` with a length of the caller's -/

/-- `retrieveAsString len` returns the first `len` readable bytes, all of them if there are fewer, and
leaves the others. -/
def RetrievesFront (b : Buffer) (len : ℕ) : Prop :=
  ∃ out b', b.retrieveAsString len = some (out, b') ∧
    out = b.readable.take (min len b.readableBytes) ∧ out ++ b'.readable = b.readable

/-- **`retrieveAsString` returns received bytes only** exactly if there are as many as it is asked
for. -/
theorem retrieveAsString_front_iff (initialSize : ℕ) (ops : List Op) (outs : List (List UInt8))
    (b : Buffer) (h : obj.run (new initialSize) ops = some (outs, b)) (len : ℕ) :
    b.RetrievesFront len ↔ len ≤ b.readableBytes := by
  have hi : b.Inv := (inv_new initialSize).run h
  constructor
  · rintro ⟨out, b', he, hout, -⟩
    obtain ⟨result, hpeek, hr⟩ := Option.map_eq_some_iff.mp he
    obtain ⟨rfl, -⟩ := Prod.mk.inj hr
    obtain ⟨hfit, rfl⟩ := of_guard hpeek
    -- the copy has `len` bytes, whatever is readable
    have hlen := congrArg List.length hout
    rw [List.length_take, List.length_take, hi.length_readable, List.length_drop] at hlen
    unfold size at hfit
    omega
  · intro hlen
    refine ⟨_, _, hi.retrieveAsString hlen, by rw [Nat.min_eq_left hlen], ?_⟩
    rw [hi.readable_retrieve, List.take_append_drop]

/-- Two bytes of three are taken as a string. -/
theorem retrieveAsString_front_two : ∃ b, obj.run (new 4) [.append [1, 2, 3]] = some ([[]], b) ∧
    b.RetrievesFront 2 :=
  ⟨_, rfl, (retrieveAsString_front_iff 4 [.append [1, 2, 3]] [[]] _ rfl 2).mpr (by decide)⟩

/-- A message of one byte after one of three: a length of two returns a byte of the first message
behind it. -/
theorem retrieveAsString_stale : ¬ ∀ (initialSize : ℕ) (ops : List Op) (outs : List (List UInt8))
    (b : Buffer), obj.run (new initialSize) ops = some (outs, b) → ∀ len, b.RetrievesFront len := by
  intro h
  obtain ⟨out, b', he, hout, -⟩ := h 4 [.append [1, 2, 3], .retrieveAll, .append [9]] [[], [], []] _ rfl 2
  have hs : out = [9, 2] := by
    have h2 := congrArg (Option.map Prod.fst) he
    exact (Option.some.inj h2).symm
  rw [hs] at hout
  exact absurd hout (by decide)

end Buffer

end Mymuduo
