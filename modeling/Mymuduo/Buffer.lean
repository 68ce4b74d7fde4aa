import Mathlib.Algebra.Order.Group.Nat
import Mymuduo.Lib.Copy

/-!
# Mymuduo.Buffer — the byte buffer of a connection (`Buffer.h`, `Buffer.cc`)

A `Buffer` is one array with two indices: `[0, readerIndex)` is prependable, `[readerIndex,
writerIndex)` is readable, `[writerIndex, size)` is writable.  `size_t` values are natural numbers
here, so the operations below are those of the source for as long as no `size_t` sum wraps.

`Inv` is the index invariant `kCheapPrepend ≤ readerIndex ≤ writerIndex ≤ size`; a `ValidBuffer`
carries it, and is what a connection holds.
-/

namespace Mymuduo

open Lib

structure Buffer where
  buffer : List UInt8
  readerIndex : ℕ
  writerIndex : ℕ
  deriving DecidableEq, Repr

namespace Buffer

def kCheapPrepend : ℕ := 8

def kInitialSize : ℕ := 1024

/-- `sizeof extrabuf` in `readFd`. -/
def kExtraBuf : ℕ := 65536

/-- The constructor `Buffer(initialSize)`. -/
def new (initialSize : ℕ) : Buffer where
  buffer := List.replicate (kCheapPrepend + initialSize) 0
  readerIndex := kCheapPrepend
  writerIndex := kCheapPrepend

def size (b : Buffer) : ℕ := b.buffer.length

def readableBytes (b : Buffer) : ℕ := b.writerIndex - b.readerIndex

def writableBytes (b : Buffer) : ℕ := b.size - b.writerIndex

def prependableBytes (b : Buffer) : ℕ := b.readerIndex

/-- The `len` bytes at `peek()`; `none` when they reach past the end of the vector. -/
def peek (b : Buffer) (len : ℕ) : Option (List UInt8) :=
  if b.readerIndex + len ≤ b.size then some ((b.buffer.drop b.readerIndex).take len) else none

/-- The readable bytes. -/
def readable (b : Buffer) : List UInt8 := (b.buffer.drop b.readerIndex).take b.readableBytes

def retrieveAll (b : Buffer) : Buffer :=
  { b with readerIndex := kCheapPrepend, writerIndex := kCheapPrepend }

def retrieve (b : Buffer) (len : ℕ) : Buffer :=
  if len < b.readableBytes then { b with readerIndex := b.readerIndex + len } else b.retrieveAll

/-- The string is copied with `len` as given, before `retrieve` clamps it. -/
def retrieveAsString (b : Buffer) (len : ℕ) : Option (List UInt8 × Buffer) :=
  (b.peek len).map fun result => (result, b.retrieve len)

def retrieveAllAsString (b : Buffer) : Option (List UInt8 × Buffer) :=
  b.retrieveAsString b.readableBytes

/-- `std::vector<char>::resize`. -/
def resize (buf : List UInt8) (n : ℕ) : List UInt8 :=
  buf.take n ++ List.replicate (n - buf.length) 0

def makeSpace (b : Buffer) (len : ℕ) : Buffer :=
  if b.writableBytes + b.prependableBytes < len + kCheapPrepend then
    { b with buffer := resize b.buffer (b.writerIndex + len) }
  else
    { buffer := copyForward b.buffer b.readerIndex kCheapPrepend b.readableBytes
      readerIndex := kCheapPrepend
      writerIndex := kCheapPrepend + b.readableBytes }

def ensureWritableBytes (b : Buffer) (len : ℕ) : Buffer :=
  if b.writableBytes < len then b.makeSpace len else b

def append (b : Buffer) (data : List UInt8) : Buffer :=
  let b := b.ensureWritableBytes data.length
  { b with
    buffer := copyInto b.buffer b.writerIndex data
    writerIndex := b.writerIndex + data.length }

/-- The total length of the `iovec`s that `readFd` offers to `readv`. -/
def offered (b : Buffer) : ℕ :=
  if b.writableBytes < kExtraBuf then b.writableBytes + kExtraBuf else b.writableBytes

/-- `readFd` when `readv` delivers `data`: the bytes fill the writable space first, the rest is in
`extrabuf` and is appended. -/
def readFd (b : Buffer) (data : List UInt8) : Buffer :=
  let writable := b.writableBytes
  let filled := copyInto b.buffer b.writerIndex (data.take writable)
  if data.length ≤ writable then
    { b with buffer := filled, writerIndex := b.writerIndex + data.length }
  else
    append { b with buffer := filled, writerIndex := b.size } (data.drop writable)

/-! ### The index invariant -/

/-- `kCheapPrepend ≤ readerIndex ≤ writerIndex ≤ size`. -/
structure Inv (b : Buffer) : Prop where
  prepend : kCheapPrepend ≤ b.readerIndex
  reader : b.readerIndex ≤ b.writerIndex
  writer : b.writerIndex ≤ b.size

theorem inv_new (n : ℕ) : (new n).Inv :=
  ⟨le_rfl, le_rfl, by simp [new, size]⟩

@[simp] theorem readable_new (n : ℕ) : (new n).readable = [] := by
  simp [readable, readableBytes, new]

theorem eq_retrieve_of_retrieveAsString {b b' : Buffer} {len : ℕ} {out : List UInt8}
    (h : b.retrieveAsString len = some (out, b')) : b' = b.retrieve len := by
  simp only [retrieveAsString, Option.map_eq_some_iff, Prod.mk.injEq] at h
  obtain ⟨-, -, -, rfl⟩ := h
  rfl

theorem length_resize {buf : List UInt8} {n : ℕ} (h : buf.length ≤ n) : (resize buf n).length = n := by
  simp only [resize, List.length_append, List.length_take, List.length_replicate]
  omega

theorem drop_resize {buf : List UInt8} {n i k : ℕ} (h : buf.length ≤ n) (hk : i + k ≤ buf.length) :
    ((resize buf n).drop i).take k = (buf.drop i).take k := by
  rw [resize, List.take_of_length_le h, List.drop_append, List.take_append_of_le_length]
  rw [List.length_drop]
  omega

namespace Inv

variable {b : Buffer}

theorem length_readable (h : b.Inv) : b.readable.length = b.readableBytes := by
  have h1 := h.reader
  have h2 := h.writer
  simp only [readable, List.length_take, List.length_drop]
  unfold readableBytes size at *
  omega

/-! ### `retrieve` -/

theorem retrieveAll (h : b.Inv) : b.retrieveAll.Inv :=
  ⟨le_rfl, le_rfl, h.prepend.trans (h.reader.trans h.writer)⟩

theorem retrieve (h : b.Inv) (len : ℕ) : (b.retrieve len).Inv := by
  unfold Buffer.retrieve
  split
  next hlt =>
    refine ⟨h.prepend.trans (Nat.le_add_right _ _), ?_, h.writer⟩
    simp only
    unfold readableBytes at hlt
    omega
  next => exact h.retrieveAll

/-- `retrieve len` drops the first `min len readableBytes` readable bytes. -/
theorem readable_retrieve (h : b.Inv) (len : ℕ) : (b.retrieve len).readable = b.readable.drop len := by
  unfold Buffer.retrieve
  split
  next hlt =>
    simp only [readable, List.drop_take, List.drop_drop]
    congr 1
    unfold readableBytes
    simp only
    omega
  next hge =>
    rw [List.drop_eq_nil_of_le (by rw [h.length_readable]; omega)]
    simp [Buffer.retrieveAll, readable, readableBytes]

/-- Within the readable length, the string is the front of the readable bytes. -/
theorem retrieveAsString (h : b.Inv) {len : ℕ} (hlen : len ≤ b.readableBytes) :
    b.retrieveAsString len = some (b.readable.take len, b.retrieve len) := by
  have h1 := h.reader
  have h2 := h.writer
  have hfit : b.readerIndex + len ≤ b.size := by
    unfold readableBytes at hlen
    omega
  rw [Buffer.retrieveAsString, peek, if_pos hfit, Option.map_some, readable, List.take_take,
    Nat.min_eq_left hlen]

end Inv

/-! ### Making room -/

/-- `ensureWritableBytes len` calls `makeSpace`, which slides the readable bytes to the front. -/
def Compacts (b : Buffer) (len : ℕ) : Prop :=
  b.writableBytes < len ∧ ¬ b.writableBytes + b.prependableBytes < len + kCheapPrepend

/-- Compaction happens only when dead space lies before the readable bytes. -/
theorem Compacts.prepend_lt {b : Buffer} {len : ℕ} (h : b.Compacts len) :
    kCheapPrepend < b.readerIndex := by
  obtain ⟨hw, hc⟩ := h
  unfold prependableBytes at hc
  omega

/-- Then, and only then, `std::copy` runs; else nothing happens, or the array grows. -/
theorem ensureWritableBytes_cases (b : Buffer) (len : ℕ) :
    b.Compacts len ∧ b.ensureWritableBytes len =
      { buffer := copyForward b.buffer b.readerIndex kCheapPrepend b.readableBytes
        readerIndex := kCheapPrepend
        writerIndex := kCheapPrepend + b.readableBytes } ∨
    ¬ b.Compacts len ∧ (b.ensureWritableBytes len = b ∨
      b.ensureWritableBytes len = { b with buffer := resize b.buffer (b.writerIndex + len) }) := by
  unfold ensureWritableBytes makeSpace Compacts
  by_cases hw : b.writableBytes < len
  · rw [if_pos hw]
    by_cases hg : b.writableBytes + b.prependableBytes < len + kCheapPrepend
    · exact .inr ⟨fun h => h.2 hg, .inr (if_pos hg)⟩
    · exact .inl ⟨⟨hw, hg⟩, if_neg hg⟩
  · exact .inr ⟨fun h => hw h.1, .inl (if_neg hw)⟩

/-- What making room keeps, and what it gives. -/
structure RoomFor (b : Buffer) (len : ℕ) (b' : Buffer) : Prop where
  inv : b'.Inv
  readable : b'.readable = b.readable
  room : len ≤ b'.writableBytes
  size : b.size ≤ b'.size

namespace Inv

variable {b : Buffer}

/-- Growing keeps every byte at its place. -/
theorem roomFor_resize (h : b.Inv) {len : ℕ} (hw : b.writableBytes < len) :
    RoomFor b len { b with buffer := resize b.buffer (b.writerIndex + len) } := by
  have h1 := h.reader
  have h2 := h.writer
  have hle : b.buffer.length ≤ b.writerIndex + len := by
    unfold writableBytes size at hw
    omega
  have hlen := length_resize hle
  refine ⟨⟨h.prepend, h.reader, ?_⟩, ?_, ?_, ?_⟩
  · simp only [Buffer.size, hlen]
    omega
  · have hfit : b.readerIndex + (b.writerIndex - b.readerIndex) ≤ b.buffer.length := by
      unfold Buffer.size at h2
      omega
    exact drop_resize hle hfit
  · simp only [writableBytes, Buffer.size, hlen]
    omega
  · simp only [Buffer.size, hlen]
    exact hle

/-- Compacting moves the readable bytes to the left and turns the dead space into writable space. -/
theorem roomFor_compact (h : b.Inv) {len : ℕ} (hc : b.Compacts len) :
    RoomFor b len
      { buffer := copyForward b.buffer b.readerIndex kCheapPrepend b.readableBytes
        readerIndex := kCheapPrepend
        writerIndex := kCheapPrepend + b.readableBytes } := by
  have h0 := hc.prepend_lt
  have h1 := h.reader
  have h2 := h.writer
  have hfit : b.readerIndex + b.readableBytes ≤ b.buffer.length := by
    unfold readableBytes
    unfold Buffer.size at h2
    omega
  obtain ⟨-, hroom⟩ := hc
  refine ⟨⟨le_rfl, Nat.le_add_right _ _, ?_⟩, ?_, ?_, ?_⟩
  · simp only [Buffer.size, length_copyForward]
    omega
  · have htake : (b.buffer.take kCheapPrepend).length = kCheapPrepend := by
      rw [List.length_take]
      omega
    have hlen : ((b.buffer.drop b.readerIndex).take b.readableBytes).length = b.readableBytes :=
      h.length_readable
    show ((copyForward b.buffer b.readerIndex kCheapPrepend b.readableBytes).drop
      kCheapPrepend).take (kCheapPrepend + b.readableBytes - kCheapPrepend) = b.readable
    rw [copyForward_eq h0 hfit, Nat.add_sub_cancel_left, List.append_assoc,
      List.drop_append_of_le_length (by omega), List.drop_of_length_le (by omega),
      List.nil_append, List.take_append_of_le_length (by omega), List.take_of_length_le (by omega)]
    rfl
  · simp only [writableBytes, Buffer.size, length_copyForward]
    unfold writableBytes prependableBytes Buffer.size at hroom
    unfold readableBytes
    unfold Buffer.size at h2
    omega
  · simp only [Buffer.size, length_copyForward, le_rfl]

theorem roomFor (h : b.Inv) (len : ℕ) : RoomFor b len (b.ensureWritableBytes len) := by
  unfold ensureWritableBytes makeSpace
  split
  next hw =>
    split
    next => exact h.roomFor_resize hw
    next hc => exact h.roomFor_compact ⟨hw, hc⟩
  next hw => exact ⟨h, rfl, not_lt.mp hw, le_rfl⟩

/-! ### Writing behind the readable bytes -/

/-- Bytes stored in the writable space become readable behind the readable ones. -/
theorem write (h : b.Inv) {data : List UInt8} (hfit : data.length ≤ b.writableBytes) :
    Inv { b with
          buffer := copyInto b.buffer b.writerIndex data
          writerIndex := b.writerIndex + data.length } ∧
      Buffer.readable { b with
          buffer := copyInto b.buffer b.writerIndex data
          writerIndex := b.writerIndex + data.length } = b.readable ++ data := by
  have h1 := h.reader
  have h2 := h.writer
  have hle : b.writerIndex + data.length ≤ b.buffer.length := by
    unfold writableBytes Buffer.size at hfit
    unfold Buffer.size at h2
    omega
  refine ⟨⟨h.prepend, h1.trans (Nat.le_add_right _ _), ?_⟩, ?_⟩
  · simpa [Buffer.size] using hle
  · have htake : (b.buffer.take b.writerIndex).length = b.writerIndex := by
      rw [List.length_take]
      omega
    have hwin : (b.buffer.take b.writerIndex).drop b.readerIndex = b.readable := by
      rw [Buffer.readable, readableBytes, List.drop_take]
    have hlen := h.length_readable
    simp only [Buffer.readable, readableBytes] at hwin hlen ⊢
    rw [copyInto_eq hle, List.append_assoc, List.drop_append_of_le_length (by omega), hwin,
      ← List.append_assoc, List.take_append_of_le_length (by simp; omega),
      List.take_of_length_le (by simp; omega)]

theorem append_and_readable (h : b.Inv) (data : List UInt8) :
    (b.append data).Inv ∧ (b.append data).readable = b.readable ++ data := by
  obtain ⟨hinv, hread, hroom, -⟩ := h.roomFor data.length
  obtain ⟨h1, h2⟩ := hinv.write hroom
  exact ⟨h1, h2.trans (by rw [hread])⟩

theorem append (h : b.Inv) (data : List UInt8) : (b.append data).Inv :=
  (h.append_and_readable data).1

theorem readable_append (h : b.Inv) (data : List UInt8) :
    (b.append data).readable = b.readable ++ data :=
  (h.append_and_readable data).2

theorem size_le_append (h : b.Inv) (data : List UInt8) : b.size ≤ (b.append data).size := by
  have := (h.roomFor data.length).size
  unfold Buffer.append
  simpa [Buffer.size] using this

/-- Filling the whole writable space, as `readFd` does before it spills. -/
theorem fill (h : b.Inv) {data : List UInt8} (hgt : ¬ data.length ≤ b.writableBytes) :
    Inv { b with
          buffer := copyInto b.buffer b.writerIndex (data.take b.writableBytes)
          writerIndex := b.size } ∧
      Buffer.readable { b with
          buffer := copyInto b.buffer b.writerIndex (data.take b.writableBytes)
          writerIndex := b.size } = b.readable ++ data.take b.writableBytes := by
  have h2 := h.writer
  have hlen : (data.take b.writableBytes).length = b.writableBytes := by
    rw [List.length_take]
    omega
  have hend : b.writerIndex + b.writableBytes = b.size := by
    unfold writableBytes
    omega
  have hw := h.write hlen.le
  rwa [hlen, hend] at hw

/-- The spill path: the writable space is filled first, then the rest is appended. -/
theorem readFd_and_readable (h : b.Inv) (data : List UInt8) :
    (b.readFd data).Inv ∧ (b.readFd data).readable = b.readable ++ data := by
  unfold Buffer.readFd
  simp only
  split
  next hle =>
    rw [List.take_of_length_le hle]
    exact h.write hle
  next hgt =>
    obtain ⟨hi, hr⟩ := h.fill hgt
    refine ⟨hi.append _, ?_⟩
    rw [hi.readable_append, hr, List.append_assoc, List.take_append_drop]

theorem readFd (h : b.Inv) (data : List UInt8) : (b.readFd data).Inv :=
  (h.readFd_and_readable data).1

theorem readable_readFd (h : b.Inv) (data : List UInt8) :
    (b.readFd data).readable = b.readable ++ data :=
  (h.readFd_and_readable data).2

theorem size_le_readFd (h : b.Inv) (data : List UInt8) : b.size ≤ (b.readFd data).size := by
  unfold Buffer.readFd
  simp only
  split
  next => simp [Buffer.size]
  next hgt =>
    refine le_trans ?_ ((h.fill hgt).1.size_le_append _)
    simp [Buffer.size]

end Inv

theorem size_le_retrieve (b : Buffer) (len : ℕ) : b.size ≤ (b.retrieve len).size := by
  unfold retrieve
  split <;> exact le_rfl

end Buffer

end Mymuduo
