import Mymuduo.BufferFifo
import Mymuduo.Lib.Word

/-!
# Mymuduo.BufferWord — the buffer on a 64-bit machine (`Buffer.h`, `Buffer.cc`)

The operations of `Buffer` with `size_t` arithmetic.  An operation returns, throws (a vector longer than
`maxSize` and a string longer than `maxStringSize` are refused, and the buffer is then unchanged), or
touches memory outside the array, after which nothing is known (`Outcome`).

As long as the array stays within `maxSize`, and the strings taken out within `maxStringSize`, these are
the operations over natural numbers (`exec_of_run`).  `ensureWritableBytes` is safe exactly while
`writerIndex + len` does not wrap (`safe_iff`): a sum that wraps in `makeSpace` selects a compaction that
makes no room, or a resize to a smaller array.
-/

namespace Mymuduo

open Lib

namespace Buffer

/-- `std::vector<char>::max_size()`. -/
def maxSize : ℕ := 2 ^ 63 - 1

/-- `std::string::max_size()`. -/
def maxStringSize : ℕ := 2 ^ 62 - 1

theorem kCheapPrepend_le_maxSize : kCheapPrepend ≤ maxSize := by
  unfold kCheapPrepend maxSize
  omega

inductive Outcome
  | returned (b : Buffer)
  | thrown (b : Buffer)
  | undefined
  deriving DecidableEq, Repr

/-- What is done next happens only after a return. -/
def Outcome.bind (o : Outcome) (next : Buffer → Outcome) : Outcome :=
  match o with
  | .returned b => next b
  | .thrown b => .thrown b
  | .undefined => .undefined

namespace SizeT

/-- The constructor; `none` when the vector cannot be made. -/
def new (initialSize : ℕ) : Option Buffer :=
  let size := wadd 64 kCheapPrepend initialSize
  if size ≤ maxSize then some ⟨List.replicate size 0, kCheapPrepend, kCheapPrepend⟩ else none

def readableBytes (b : Buffer) : ℕ := wsub 64 b.writerIndex b.readerIndex

def writableBytes (b : Buffer) : ℕ := wsub 64 b.size b.writerIndex

def retrieve (b : Buffer) (len : ℕ) : Buffer :=
  if len < readableBytes b then { b with readerIndex := wadd 64 b.readerIndex len }
  else b.retrieveAll

/-- `len` bytes from position `i` on lie in the array; no bytes always do. -/
def InArray (b : Buffer) (i len : ℕ) : Prop := len = 0 ∨ i + len ≤ b.size

instance (b : Buffer) (i len : ℕ) : Decidable (InArray b i len) :=
  inferInstanceAs (Decidable (_ ∨ _))

/-- The string that is built from `len` bytes at `peek()` may be refused too. -/
def retrieveAsString (b : Buffer) (len : ℕ) : Outcome :=
  if maxStringSize < len then .thrown b
  else if InArray b b.readerIndex len then .returned (retrieve b len)
  else .undefined

/-- `buffer_.resize(n)`. -/
def resize (b : Buffer) (n : ℕ) : Outcome :=
  if n ≤ maxSize then .returned { b with buffer := Buffer.resize b.buffer n } else .thrown b

def makeSpace (b : Buffer) (len : ℕ) : Outcome :=
  if wadd 64 (writableBytes b) b.prependableBytes < wadd 64 len kCheapPrepend then
    resize b (wadd 64 b.writerIndex len)
  else if InArray b b.readerIndex (readableBytes b) then
    .returned
      { buffer := copyForward b.buffer b.readerIndex kCheapPrepend (readableBytes b)
        readerIndex := kCheapPrepend
        writerIndex := wadd 64 kCheapPrepend (readableBytes b) }
  else .undefined

def ensureWritableBytes (b : Buffer) (len : ℕ) : Outcome :=
  if writableBytes b < len then makeSpace b len else .returned b

/-- Store `data` at `beginWrite()`. -/
def store (b : Buffer) (data : List UInt8) : Outcome :=
  if InArray b b.writerIndex data.length then
    .returned { b with
      buffer := copyInto b.buffer b.writerIndex data
      writerIndex := wadd 64 b.writerIndex data.length }
  else .undefined

def append (b : Buffer) (data : List UInt8) : Outcome :=
  (ensureWritableBytes b data.length).bind fun b => store b data

/-- `readFd` when `readv` delivers `data`. -/
def readFd (b : Buffer) (data : List UInt8) : Outcome :=
  let writable := writableBytes b
  (store b (data.take writable)).bind fun b' =>
    if data.length ≤ writable then .returned b'
    else append { b' with writerIndex := b.size } (data.drop writable)

def apply (b : Buffer) : Op → Outcome
  | .append data => append b data
  | .ensureWritableBytes len => ensureWritableBytes b len
  | .retrieve len => .returned (retrieve b len)
  | .retrieveAll => .returned b.retrieveAll
  | .retrieveAllAsString => retrieveAsString b (readableBytes b)
  | .retrieveAsString len => retrieveAsString b len
  | .readFd data => readFd b data

/-- The lengths are values of `size_t`. -/
def Fits : Op → Prop
  | .append data | .readFd data => data.length < 2 ^ 64
  | .ensureWritableBytes len | .retrieve len | .retrieveAsString len => len < 2 ^ 64
  | .retrieveAll | .retrieveAllAsString => True

instance (op : Op) : Decidable (Fits op) :=
  match op with
  | .append _ | .readFd _ | .ensureWritableBytes _ | .retrieve _ | .retrieveAsString _ =>
    inferInstanceAs (Decidable (_ < _))
  | .retrieveAll | .retrieveAllAsString => .isTrue trivial

/-- A buffer from its construction on; whoever calls an operation that throws goes on with the
buffer it leaves. -/
def sys : Sys Buffer Op where
  init b := ∃ initialSize < 2 ^ 64, new initialSize = some b
  step b op :=
    if Fits op then
      match apply b op with
      | .returned b' | .thrown b' => some b'
      | .undefined => none
    else none

/-! ### Every history -/

/-- What no operation breaks, whatever wraps around. -/
structure Bounds (b : Buffer) : Prop where
  prepend : kCheapPrepend ≤ b.readerIndex
  reader : b.readerIndex ≤ b.writerIndex
  writer : b.writerIndex ≤ maxSize
  size : b.size ≤ maxSize

theorem Bounds.of_inv {b : Buffer} (h : b.Inv) (hs : b.size ≤ maxSize) : Bounds b :=
  ⟨h.prepend, h.reader, h.writer.trans hs, hs⟩

/-- `P` holds of the buffer that is left. -/
def Leaves (P : Buffer → Prop) : Outcome → Prop
  | .returned b | .thrown b => P b
  | .undefined => True

theorem Leaves.bind {P : Buffer → Prop} {o : Outcome} {next : Buffer → Outcome} (h : Leaves P o)
    (hnext : ∀ b, o = .returned b → P b → Leaves P (next b)) : Leaves P (o.bind next) := by
  cases o with
  | returned b => exact hnext b rfl h
  | thrown b => exact h
  | undefined => exact trivial

theorem store_returned {b b' : Buffer} {data : List UInt8} (h : store b data = .returned b') :
    InArray b b.writerIndex data.length ∧ b' = { b with
      buffer := copyInto b.buffer b.writerIndex data
      writerIndex := wadd 64 b.writerIndex data.length } := by
  unfold store at h
  split at h
  next hin => exact ⟨hin, (Outcome.returned.inj h).symm⟩
  next => cases h

namespace Bounds

variable {b : Buffer}

theorem readableBytes (h : Bounds b) : SizeT.readableBytes b = b.readableBytes := by
  have h2 := h.writer
  unfold maxSize at h2
  exact wsub_of_le h.reader (by omega)

theorem writableBytes (h : Bounds b) (hw : b.writerIndex ≤ b.size) :
    SizeT.writableBytes b = b.writableBytes := by
  have h2 := h.size
  unfold maxSize at h2
  exact wsub_of_le hw (by omega)

/-- The writable space of an array that ends before `writerIndex`. -/
theorem writableBytes_of_lt (h : Bounds b) (hw : b.size < b.writerIndex) :
    SizeT.writableBytes b = b.size + 2 ^ 64 - b.writerIndex := by
  have h2 := h.writer
  unfold maxSize at h2
  exact wsub_of_lt hw (by omega)

theorem retrieveAll (h : Bounds b) : Bounds b.retrieveAll :=
  ⟨le_rfl, le_rfl, h.prepend.trans (h.reader.trans h.writer), h.size⟩

theorem retrieve (h : Bounds b) (len : ℕ) : Bounds (retrieve b len) := by
  have h1 := h.reader
  have h2 := h.writer
  unfold SizeT.retrieve
  split
  next hlt =>
    rw [h.readableBytes] at hlt
    unfold Buffer.readableBytes at hlt
    unfold maxSize at h2
    have he : wadd 64 b.readerIndex len = b.readerIndex + len := wadd_of_lt (by omega)
    rw [he]
    exact ⟨h.prepend.trans (Nat.le_add_right _ _), by simp only; omega, h.writer, h.size⟩
  next => exact h.retrieveAll

theorem retrieveAsString (h : Bounds b) (len : ℕ) : Leaves Bounds (retrieveAsString b len) := by
  unfold SizeT.retrieveAsString
  split
  · exact h
  · split
    · exact h.retrieve len
    · exact trivial

theorem resize (h : Bounds b) (n : ℕ) : Leaves Bounds (resize b n) := by
  unfold SizeT.resize
  split
  next hn =>
    refine ⟨h.prepend, h.reader, h.writer, ?_⟩
    simp only [Buffer.size, Buffer.resize, List.length_append, List.length_take, List.length_replicate]
    omega
  next => exact h

theorem makeSpace (h : Bounds b) (len : ℕ) : Leaves Bounds (makeSpace b len) := by
  have h0 := h.prepend
  have h1 := h.reader
  have h2 := h.writer
  unfold SizeT.makeSpace
  split
  · exact h.resize _
  split
  · rw [h.readableBytes]
    unfold Buffer.readableBytes maxSize at *
    have he : wadd 64 kCheapPrepend (b.writerIndex - b.readerIndex) =
        kCheapPrepend + (b.writerIndex - b.readerIndex) := wadd_of_lt (by omega)
    rw [he]
    refine ⟨le_rfl, Nat.le_add_right _ _, ?_, ?_⟩
    · simp only [maxSize]
      omega
    · simpa [Buffer.size, maxSize] using h.size
  · exact trivial

theorem ensureWritableBytes (h : Bounds b) (len : ℕ) :
    Leaves Bounds (ensureWritableBytes b len) := by
  unfold SizeT.ensureWritableBytes
  split
  · exact h.makeSpace len
  · exact h

theorem store (h : Bounds b) (data : List UInt8) : Leaves Bounds (store b data) := by
  have h2 := h.writer
  have h3 := h.size
  unfold SizeT.store
  split
  next hin =>
    have hle : b.writerIndex + data.length ≤ maxSize := by
      rcases hin with hin | hin
      · omega
      · exact hin.trans h3
    have he : wadd 64 b.writerIndex data.length = b.writerIndex + data.length :=
      wadd_of_lt (by unfold maxSize at hle; omega)
    rw [he]
    exact ⟨h.prepend, h.reader.trans (Nat.le_add_right _ _), hle, by simpa [Buffer.size] using h3⟩
  next => exact trivial

theorem append (h : Bounds b) (data : List UInt8) : Leaves Bounds (append b data) :=
  (h.ensureWritableBytes data.length).bind fun _ _ hb => hb.store data

/-- Data left over means that there is no writable space beyond the array. -/
theorem writer_le (h : Bounds b) {data : List UInt8} {b' : Buffer}
    (hst : SizeT.store b (data.take (SizeT.writableBytes b)) = .returned b')
    (hgt : ¬ data.length ≤ SizeT.writableBytes b) : b.writerIndex ≤ b.size := by
  by_contra hlt
  rw [h.writableBytes_of_lt (not_le.mp hlt)] at hst hgt
  have h2 := h.writer
  unfold maxSize at h2
  unfold SizeT.store at hst
  split at hst
  next hin =>
    rw [InArray, List.length_take] at hin
    omega
  next => cases hst

theorem readFd (h : Bounds b) (data : List UInt8) : Leaves Bounds (readFd b data) := by
  refine (h.store (data.take (SizeT.writableBytes b))).bind fun b' hst hb => ?_
  split
  next => exact hb
  next hgt =>
    have hle := h.writer_le hst hgt
    obtain ⟨-, rfl⟩ := store_returned hst
    have hs : (copyInto b.buffer b.writerIndex (data.take (SizeT.writableBytes b))).length ≤
        maxSize := by
      rw [length_copyInto]
      exact h.size
    have hfull : Bounds { b with
        buffer := copyInto b.buffer b.writerIndex (data.take (SizeT.writableBytes b))
        writerIndex := b.size } :=
      ⟨h.prepend, h.reader.trans hle, h.size, hs⟩
    exact hfull.append _

theorem apply (h : Bounds b) (op : Op) : Leaves Bounds (apply b op) := by
  cases op with
  | append data => exact h.append data
  | ensureWritableBytes len => exact h.ensureWritableBytes len
  | retrieve len => exact h.retrieve len
  | retrieveAll => exact h.retrieveAll
  | retrieveAllAsString => exact h.retrieveAsString _
  | retrieveAsString len => exact h.retrieveAsString len
  | readFd data => exact h.readFd data

end Bounds

theorem bounds_of_reach {b : Buffer} (h : sys.Reach (fun _ _ => True) b) : Bounds b := by
  refine h.invariant ?_ fun b op b' hb _ hst => ?_
  · rintro b ⟨initialSize, -, hnew⟩
    obtain ⟨hle, rfl⟩ := of_guard hnew
    have hs : Buffer.size ⟨List.replicate (wadd 64 kCheapPrepend initialSize) 0,
        kCheapPrepend, kCheapPrepend⟩ ≤ maxSize := by
      rw [Buffer.size, List.length_replicate]
      exact hle
    exact ⟨le_rfl, le_rfl, kCheapPrepend_le_maxSize, hs⟩
  · have hl := hb.apply op
    simp only [sys] at hst
    split at hst
    next =>
      cases ho : SizeT.apply b op with
      | returned r =>
        rw [ho] at hst hl
        exact Option.some.inj hst ▸ hl
      | thrown r =>
        rw [ho] at hst hl
        exact Option.some.inj hst ▸ hl
      | undefined =>
        rw [ho] at hst
        cases hst
    next => cases hst

/-! ### Without wraparound -/

/-- The operations of `Buffer`, as long as the sum in `makeSpace` does not wrap around. -/
theorem ensureWritableBytes_eq {b : Buffer} (h : b.Inv) (hs : b.size ≤ maxSize) {len : ℕ}
    (hlen : b.writerIndex + len < 2 ^ 64) :
    ensureWritableBytes b len =
      if (b.ensureWritableBytes len).size ≤ maxSize then .returned (b.ensureWritableBytes len)
      else .thrown b := by
  have hb := Bounds.of_inv h hs
  have h0 := h.prepend
  have h1 := h.reader
  have h2 := h.writer
  unfold ensureWritableBytes Buffer.ensureWritableBytes
  rw [hb.writableBytes h2]
  by_cases hw : b.writableBytes < len
  · have hsum : wadd 64 b.writableBytes b.prependableBytes = b.writableBytes + b.prependableBytes := by
      refine wadd_of_lt ?_
      unfold Buffer.writableBytes prependableBytes maxSize at *
      omega
    have hneed : wadd 64 len kCheapPrepend = len + kCheapPrepend := wadd_of_lt (by omega)
    rw [if_pos hw, if_pos hw]
    unfold makeSpace Buffer.makeSpace
    rw [hb.writableBytes h2, hsum, hneed, hb.readableBytes, wadd_of_lt hlen]
    by_cases hgrow : b.writableBytes + b.prependableBytes < len + kCheapPrepend
    · have hle : b.buffer.length ≤ b.writerIndex + len := by
        unfold Buffer.writableBytes Buffer.size at hw
        omega
      rw [if_pos hgrow, if_pos hgrow, resize]
      simp only [Buffer.size, length_resize hle]
    · have hin : InArray b b.readerIndex b.readableBytes := by
        refine .inr ?_
        unfold Buffer.readableBytes
        omega
      have hidx : wadd 64 kCheapPrepend b.readableBytes = kCheapPrepend + b.readableBytes := by
        refine wadd_of_lt ?_
        unfold Buffer.readableBytes maxSize at *
        omega
      have hlen : (copyForward b.buffer b.readerIndex kCheapPrepend b.readableBytes).length ≤
          maxSize := by
        rw [length_copyForward]
        exact hs
      rw [if_neg hgrow, if_neg hgrow, if_pos hin, hidx]
      exact (if_pos hlen).symm
  · rw [if_neg hw, if_neg hw, if_pos hs]

theorem retrieve_eq {b : Buffer} (h : b.Inv) (hs : b.size ≤ maxSize) (len : ℕ) :
    retrieve b len = b.retrieve len := by
  unfold retrieve Buffer.retrieve
  rw [(Bounds.of_inv h hs).readableBytes]
  by_cases hlt : len < b.readableBytes
  · have h2 := h.writer
    have hidx : wadd 64 b.readerIndex len = b.readerIndex + len := by
      refine wadd_of_lt ?_
      unfold Buffer.readableBytes at hlt
      unfold maxSize at hs
      omega
    rw [if_pos hlt, if_pos hlt, hidx]
  · rw [if_neg hlt, if_neg hlt]

theorem retrieveAsString_eq {b b' : Buffer} (h : b.Inv) (hs : b.size ≤ maxSize) {len : ℕ}
    {out : List UInt8} (he : b.retrieveAsString len = some (out, b'))
    (hout : out.length ≤ maxStringSize) : retrieveAsString b len = .returned b' := by
  obtain rfl := eq_retrieve_of_retrieveAsString he
  obtain ⟨result, hpeek, hpair⟩ := Option.map_eq_some_iff.mp he
  obtain ⟨hfit, rfl⟩ := of_guard hpeek
  obtain ⟨rfl, -⟩ := Prod.mk.inj hpair
  have hle : ¬ maxStringSize < len := by
    unfold Buffer.size at hfit
    rw [List.length_take, List.length_drop] at hout
    omega
  rw [retrieveAsString, if_neg hle, if_pos (.inr hfit), retrieve_eq h hs]

theorem store_eq {b : Buffer} (h : b.Inv) (hs : b.size ≤ maxSize) {data : List UInt8}
    (hfit : data.length ≤ b.writableBytes) :
    store b data = .returned { b with
      buffer := copyInto b.buffer b.writerIndex data
      writerIndex := b.writerIndex + data.length } := by
  have h2 := h.writer
  have hin : b.writerIndex + data.length ≤ b.size := by
    unfold Buffer.writableBytes at hfit
    omega
  have hidx : wadd 64 b.writerIndex data.length = b.writerIndex + data.length := by
    refine wadd_of_lt ?_
    unfold maxSize at hs
    omega
  rw [store, if_pos (.inr hin), hidx]

theorem append_eq {b : Buffer} (h : b.Inv) {data : List UInt8}
    (hs : (b.append data).size ≤ maxSize) : append b data = .returned (b.append data) := by
  have hr := h.roomFor data.length
  have hroom : (b.ensureWritableBytes data.length).size ≤ maxSize := by
    unfold Buffer.append at hs
    simpa [Buffer.size] using hs
  have hlen : b.writerIndex + data.length < 2 ^ 64 := by
    have h2 := h.writer
    have h3 := hr.size
    have h4 := hr.room
    unfold Buffer.writableBytes at h4
    unfold maxSize at hroom
    omega
  rw [append, ensureWritableBytes_eq h (hr.size.trans hroom) hlen, if_pos hroom]
  exact store_eq hr.inv hroom hr.room

theorem readFd_eq {b : Buffer} (h : b.Inv) {data : List UInt8}
    (hs : (b.readFd data).size ≤ maxSize) : readFd b data = .returned (b.readFd data) := by
  have hb := (h.size_le_readFd data).trans hs
  have hw := (Bounds.of_inv h hb).writableBytes h.writer
  have htake : (data.take b.writableBytes).length ≤ b.writableBytes := List.length_take_le _ _
  unfold readFd
  simp only
  rw [hw, store_eq h hb htake]
  unfold Buffer.readFd at hs ⊢
  simp only at hs ⊢
  by_cases hle : data.length ≤ b.writableBytes
  · rw [if_pos hle, List.take_of_length_le hle]
    exact if_pos hle
  · rw [if_neg hle] at hs ⊢
    exact (if_neg hle).trans (append_eq (h.fill hle).1 hs)

/-- An operation over natural numbers whose array stays within `maxSize`, and its string within
`maxStringSize`, is the one of the machine. -/
theorem apply_eq {b b' : Buffer} {op : Op} {out : List UInt8} (h : b.Inv)
    (hop : obj.apply b op = some (out, b')) (hs : b'.size ≤ maxSize)
    (hout : out.length ≤ maxStringSize) : apply b op = .returned b' := by
  have hb : b.size ≤ maxSize := (Inv.apply h hop).2.trans hs
  have hafter := eq_after_of_apply hop
  subst hafter
  cases op with
  | append data => exact append_eq h hs
  | ensureWritableBytes len =>
    have hlen : b.writerIndex + len < 2 ^ 64 := by
      have h2 := h.writer
      have h4 := (h.roomFor len).room
      unfold Buffer.writableBytes at h4
      have h5 : (b.ensureWritableBytes len).size ≤ maxSize := hs
      unfold maxSize at h5 hb
      omega
    exact (ensureWritableBytes_eq h hb hlen).trans (if_pos hs)
  | retrieve len => exact congrArg Outcome.returned (retrieve_eq h hb len)
  | retrieveAll => exact rfl
  | retrieveAllAsString =>
    have hread := (Bounds.of_inv h hb).readableBytes
    have he := retrieveAsString_eq h hb hop hout
    exact (congrArg (retrieveAsString b) hread).trans he
  | retrieveAsString len => exact retrieveAsString_eq h hb hop hout
  | readFd data => exact readFd_eq h hs

/-- **No difference within the limits**: a run over natural numbers that ends with an array of at most
`maxSize` bytes, and takes no string of more than `maxStringSize`, is a run of the machine. -/
theorem exec_of_run {b b' : Buffer} {ops : List Op} {outs : List (List UInt8)} (h : b.Inv)
    (hrun : obj.run b ops = some (outs, b')) (hs : b'.size ≤ maxSize)
    (houts : ∀ out ∈ outs, out.length ≤ maxStringSize) (hfits : ∀ op ∈ ops, Fits op) :
    sys.exec b ops = some b' := by
  induction ops generalizing b outs with
  | nil =>
    obtain ⟨-, rfl⟩ := Prod.mk.inj (Option.some.inj hrun)
    exact Sys.exec_nil b
  | cons op ops ih =>
    obtain ⟨out, b₁, rest, hop, hrest, rfl⟩ := Obj.run_cons_eq_some.mp hrun
    obtain ⟨hout, houts⟩ := List.forall_mem_cons.mp houts
    obtain ⟨hfit, hfits⟩ := List.forall_mem_cons.mp hfits
    have hi := (Inv.apply h hop).1
    have hle := Obj.le_of_run size (fun _ _ _ _ => Inv.apply) hi hrest
    have hstep : sys.step b op = some b₁ := by
      simp only [sys]
      rw [if_pos hfit, apply_eq h hop (hle.trans hs) hout]
    exact Sys.exec_cons_eq_some.mpr ⟨b₁, hstep, ih hi hrest houts hfits⟩

/-! ### `ensureWritableBytes` with any length -/

/-- What an end of `ensureWritableBytes len` should be: it has returned with enough room, the same
readable bytes and the index invariant, or has thrown and left the buffer as it was. -/
def Makes (b : Buffer) (len : ℕ) : Outcome → Prop
  | .returned b' => len ≤ writableBytes b' ∧ b'.readable = b.readable ∧ b'.Inv
  | .thrown b' => b' = b
  | .undefined => False

def Safe (b : Buffer) (len : ℕ) : Prop := Makes b len (ensureWritableBytes b len)

theorem safe_of_lt {b : Buffer} (h : b.Inv) (hs : b.size ≤ maxSize) {len : ℕ}
    (hlen : b.writerIndex + len < 2 ^ 64) : Safe b len := by
  have hr := h.roomFor len
  rw [Safe, ensureWritableBytes_eq h hs hlen]
  by_cases hle : (b.ensureWritableBytes len).size ≤ maxSize
  · have hroom : len ≤ writableBytes (b.ensureWritableBytes len) := by
      rw [(Bounds.of_inv hr.inv hle).writableBytes hr.inv.writer]
      exact hr.room
    rw [if_pos hle]
    exact ⟨hroom, hr.readable, hr.inv⟩
  · rw [if_neg hle]
    exact rfl

/-- Room for more than `maxSize` bytes is never made. -/
theorem len_le_of_returned {b' : Buffer} {len : ℕ} (hb : Bounds b') (h : b'.Inv)
    (hroom : len ≤ writableBytes b') : len ≤ maxSize := by
  rw [hb.writableBytes h.writer] at hroom
  exact hroom.trans ((Nat.sub_le _ _).trans hb.size)

/-- Only a resize beyond `maxSize` is refused. -/
theorem thrown_resize {b b' : Buffer} {len : ℕ} (h : ensureWritableBytes b len = .thrown b') :
    writableBytes b < len ∧ maxSize < wadd 64 b.writerIndex len := by
  unfold ensureWritableBytes makeSpace at h
  split at h
  next hw =>
    refine ⟨hw, ?_⟩
    split at h
    · unfold resize at h
      split at h
      · cases h
      next hgt => exact not_le.mp hgt
    · split at h <;> cases h
  next => cases h

/-- **`ensureWritableBytes` is safe** exactly if the indices are in order and `writerIndex + len`
does not wrap around. -/
theorem safe_iff (b : Buffer) (h : sys.Reach (fun _ _ => True) b) (len : ℕ) (hlen : len < 2 ^ 64) :
    Safe b len ↔ b.Inv ∧ b.writerIndex + len < 2 ^ 64 := by
  have hb := bounds_of_reach h
  have h2 := hb.writer
  have h3 := hb.size
  refine ⟨fun hsafe => ?_, fun hc => safe_of_lt hc.1 h3 hc.2⟩
  have hl := hb.ensureWritableBytes len
  unfold Safe at hsafe
  cases he : ensureWritableBytes b len with
  | returned b' =>
    rw [he] at hsafe hl
    obtain ⟨hroom, -, hi'⟩ := hsafe
    have hle := len_le_of_returned hl hi' hroom
    have hw : b.writerIndex ≤ b.size := by
      -- a writable space that wraps around is larger than any length asked for
      by_contra hlt
      have hwr := hb.writableBytes_of_lt (not_le.mp hlt)
      unfold ensureWritableBytes at he
      unfold maxSize at h2 hle
      rw [if_neg (by omega)] at he
      exact hlt (Outcome.returned.inj he ▸ hi'.writer)
    refine ⟨⟨hb.prepend, hb.reader, hw⟩, ?_⟩
    unfold maxSize at h2 hle
    omega
  | thrown b' =>
    obtain ⟨hw, hgt⟩ := thrown_resize he
    have hlt : b.writerIndex + len < 2 ^ 64 := by
      by_contra hge
      unfold maxSize at h2 hgt
      rw [wadd_of_ge (not_lt.mp hge) (by omega)] at hgt
      omega
    refine ⟨⟨hb.prepend, hb.reader, ?_⟩, hlt⟩
    by_contra hlt'
    rw [hb.writableBytes_of_lt (not_le.mp hlt')] at hw
    omega
  | undefined =>
    rw [he] at hsafe
    exact hsafe.elim

/-- A buffer for eight bytes with three of them stored. -/
theorem reach_three : sys.Reach (fun _ _ => True)
    ⟨[0, 0, 0, 0, 0, 0, 0, 0, 1, 2, 3, 0, 0, 0, 0, 0], 8, 11⟩ :=
  Sys.Reach.exec (.init ⟨8, by decide, rfl⟩) [.append [1, 2, 3]] (fun _ _ _ => trivial)
    (by decide +kernel)

/-- Room for a hundred bytes more. -/
theorem safe_iff_hundred :
    Safe ⟨[0, 0, 0, 0, 0, 0, 0, 0, 1, 2, 3, 0, 0, 0, 0, 0], 8, 11⟩ 100 :=
  (safe_iff _ reach_three 100 (by decide)).mpr ⟨⟨by decide, by decide, by decide⟩, by decide⟩

/-- Ten less than `2 ^ 64`: `writerIndex + len` wraps to one, and the array is cut to one byte. -/
theorem ensureWritableBytes_shrinks :
    ¬ ∀ b, sys.Reach (fun _ _ => True) b → ∀ len < 2 ^ 64, Safe b len := by
  intro h
  have hs := h _ reach_three (2 ^ 64 - 10) (by decide)
  have he : ensureWritableBytes ⟨[0, 0, 0, 0, 0, 0, 0, 0, 1, 2, 3, 0, 0, 0, 0, 0], 8, 11⟩
      (2 ^ 64 - 10) = .returned ⟨[0], 8, 11⟩ := by decide +kernel
  rw [Safe, he] at hs
  exact absurd hs.2.2.writer (by decide)

end SizeT

end Buffer

end Mymuduo
