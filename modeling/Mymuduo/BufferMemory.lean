import Mymuduo.BufferFifo

/-!
# Mymuduo.BufferMemory — how far a buffer grows

A resize keeps the bytes consumed already: it grows the array to `writerIndex + len` without sliding
the data down.  It happens only while the dead space is smaller than what is to be written
(`size_makeSpace_le`), so that the new size is at most twice the load of the call, the readable bytes
and those to be written; over any history the array stays within twice its peak load
(`size_le_peak`).
-/

namespace Mymuduo

open Lib

namespace Buffer

/-- The load of an operation: the readable bytes and those still to be written when it calls
`ensureWritableBytes`, if it does. -/
def load (b : Buffer) : Op → ℕ
  | .append data => b.readableBytes + data.length
  | .ensureWritableBytes len => b.readableBytes + len
  | .readFd data => if data.length ≤ b.writableBytes then 0 else b.readableBytes + data.length
  | _ => 0

namespace Inv

variable {b : Buffer}

/-- The dead space that a resize keeps is smaller than what is to be written. -/
theorem size_makeSpace_le (h : b.Inv) (len : ℕ) :
    (b.makeSpace len).size ≤ max b.size (kCheapPrepend + 2 * (b.readableBytes + len)) := by
  have h1 := h.reader
  have h2 := h.writer
  unfold makeSpace
  split
  next hgrow =>
    simp only [Buffer.size, resize, List.length_append, List.length_take, List.length_replicate]
    unfold writableBytes prependableBytes Buffer.size at hgrow
    unfold readableBytes
    unfold Buffer.size at h2
    omega
  next =>
    refine le_max_of_le_left ?_
    simp [Buffer.size]

theorem size_ensureWritableBytes_le (h : b.Inv) (len : ℕ) :
    (b.ensureWritableBytes len).size ≤ max b.size (kCheapPrepend + 2 * (b.readableBytes + len)) := by
  unfold ensureWritableBytes
  split
  next => exact h.size_makeSpace_le len
  next => exact le_max_left _ _

theorem size_append_le (h : b.Inv) (data : List UInt8) :
    (b.append data).size ≤
      max b.size (kCheapPrepend + 2 * (b.readableBytes + data.length)) := by
  have := h.size_ensureWritableBytes_le data.length
  unfold Buffer.append
  simpa [Buffer.size] using this

/-- The spill of `readFd` writes what has not fitted behind a full array. -/
theorem size_readFd_le (h : b.Inv) (data : List UInt8) :
    (b.readFd data).size ≤ max b.size (kCheapPrepend + 2 * b.load (.readFd data)) := by
  unfold Buffer.readFd load
  simp only
  split
  next => simp [Buffer.size]
  next hgt =>
    have hlen : (data.take b.writableBytes).length = b.writableBytes := by
      rw [List.length_take]
      omega
    have hle := (h.fill hgt).1.size_append_le (data.drop b.writableBytes)
    have hload : Buffer.readableBytes { b with
          buffer := copyInto b.buffer b.writerIndex (data.take b.writableBytes)
          writerIndex := b.size } + (data.drop b.writableBytes).length =
        b.readableBytes + data.length := by
      have h1 := h.reader
      have h2 := h.writer
      simp only [Buffer.readableBytes, List.length_drop]
      unfold writableBytes at hgt ⊢
      omega
    rw [hload] at hle
    simpa [Buffer.size] using hle

theorem size_apply_le {b' : Buffer} {op : Op} {out : List UInt8} (h : b.Inv)
    (hop : obj.apply b op = some (out, b')) :
    b'.size ≤ max b.size (kCheapPrepend + 2 * b.load op) := by
  have hretrieve : ∀ len, (b.retrieve len).size ≤ b.size := by
    intro len
    unfold Buffer.retrieve
    split <;> exact le_rfl
  obtain rfl := eq_after_of_apply hop
  cases op with
  | append data => exact h.size_append_le data
  | ensureWritableBytes len => exact h.size_ensureWritableBytes_le len
  | retrieve len => exact le_max_of_le_left (hretrieve len)
  | retrieveAll => exact le_max_left _ _
  | retrieveAllAsString => exact le_max_of_le_left (hretrieve _)
  | retrieveAsString len => exact le_max_of_le_left (hretrieve len)
  | readFd data => exact h.size_readFd_le data

end Inv

/-- **Memory is bounded by twice the peak load**, whatever has passed through the buffer. -/
theorem size_le_peak (initialSize : ℕ) (ops : List Op) (outs : List (List UInt8)) (b : Buffer)
    (h : obj.run (new initialSize) ops = some (outs, b)) :
    b.size ≤ max (kCheapPrepend + initialSize)
      (kCheapPrepend + 2 * obj.peak load (new initialSize) ops) := by
  have hg : Monotone fun n : ℕ => kCheapPrepend + 2 * n := fun m n hmn =>
    Nat.add_le_add_left (Nat.mul_le_mul_left 2 hmn) _
  have hle := Obj.le_peak_of_run (m := size) hg
    (fun b op out b' hi hop => ⟨(Inv.apply hi hop).1, Inv.size_apply_le hi hop⟩) (inv_new initialSize) h
  have hnew : (new initialSize).size = kCheapPrepend + initialSize := List.length_replicate
  rwa [hnew] at hle

/-- With two bytes consumed and one unread, four more make an empty buffer grow beyond what they
need; its size stays below the bound of `18`. -/
theorem size_le_peak_prefix :
    ∃ b, obj.run (new 0) [.append [1, 2, 3], .retrieve 2, .append [4, 5, 6, 7]] = some ([[], [], []], b) ∧
      b.size = 15 ∧ b.size ≤ max (8 + 0)
        (8 + 2 * obj.peak load (new 0) [.append [1, 2, 3], .retrieve 2, .append [4, 5, 6, 7]]) ∧
      obj.peak load (new 0) [.append [1, 2, 3], .retrieve 2, .append [4, 5, 6, 7]] = 5 :=
  ⟨_, rfl, by decide, size_le_peak 0 [.append [1, 2, 3], .retrieve 2, .append [4, 5, 6, 7]] [[], [], []] _ rfl,
    by decide⟩

end Buffer

end Mymuduo
