import Mathlib.Algebra.GroupWithZero.Nat
import Mymuduo.ConnSpec

/-!
# Mymuduo.BufferRead — reading from a descriptor (`Buffer.cc`, `TcpConnection.cc`)

`readFdIov` is `readFd` down to its two `iovec`s: `readv` fills the writable space of the array and then,
if it has been offered, `extrabuf`, which holds anything before; the result `n` tells how much of both
is data.  It comes to `readFd` of the bytes delivered (`readFdIov_eq`), which a `ValidBuffer` holds.

At least 65536 bytes are offered whatever the buffer holds, so that a result of 0 is the end of the
stream, the only one at which `handleRead` closes the connection (`readFd_exact`).
-/

namespace Mymuduo

open Lib

namespace Buffer

/-- The lengths of the `iovec`s: `extrabuf` is offered only behind a writable space smaller than it. -/
def iovec (b : Buffer) : List ℕ :=
  if b.writableBytes < kExtraBuf then [b.writableBytes, kExtraBuf] else [b.writableBytes]

/-- The parts of `data` that go into areas of these lengths, one after the other. -/
def scatter : List ℕ → List UInt8 → List (List UInt8)
  | [], _ => []
  | n :: ns, data => data.take n :: scatter ns (data.drop n)

/-- What `readv` stores when it delivers `data`. -/
def readv (b : Buffer) (extrabuf data : List UInt8) : Buffer × List UInt8 :=
  let parts := scatter b.iovec data
  ({ b with buffer := copyInto b.buffer b.writerIndex (parts.getD 0 []) },
    copyInto extrabuf 0 (parts.getD 1 []))

/-- `readFd` when `readv` returns `n`, the first `n` bytes of `avail` if it has not failed. -/
def readFdIov (b : Buffer) (extrabuf avail : List UInt8) (n : ℤ) : ℤ × Buffer :=
  let writable := b.writableBytes
  let r := b.readv extrabuf (avail.take n.toNat)
  if n < 0 then (n, r.1)
  else if n.toNat ≤ writable then (n, { r.1 with writerIndex := b.writerIndex + n.toNat })
  else (n, append { r.1 with writerIndex := b.size } (r.2.take (n.toNat - writable)))

theorem sum_iovec (b : Buffer) : b.iovec.sum = b.offered := by
  unfold iovec offered
  split <;> simp

theorem kExtraBuf_le_offered (b : Buffer) : kExtraBuf ≤ b.offered := by
  unfold offered
  split
  next => exact Nat.le_add_left _ _
  next h => exact Nat.le_of_not_lt h

/-- What is copied to the front of a large enough area is at its front. -/
theorem take_copyInto_zero {area data : List UInt8} (h : data.length ≤ area.length) :
    (copyInto area 0 data).take data.length = data := by
  rw [copyInto_eq (by omega), List.take_zero, List.nil_append, List.take_append_of_le_length le_rfl,
    List.take_length]

theorem readv_nil (b : Buffer) (extrabuf : List UInt8) : b.readv extrabuf [] = (b, extrabuf) := by
  unfold readv iovec
  split <;> simp [scatter, copyInto]

/-- The writable space is filled first. -/
theorem readv_fst (b : Buffer) (extrabuf data : List UInt8) :
    (b.readv extrabuf data).1 =
      { b with buffer := copyInto b.buffer b.writerIndex (data.take b.writableBytes) } := by
  unfold readv iovec
  split <;> rfl

/-- The bytes that `extrabuf` holds afterwards are those that have not fitted. -/
theorem readv_snd {b : Buffer} {extrabuf data : List UInt8} (hx : extrabuf.length = kExtraBuf)
    (ho : data.length ≤ b.offered) (hgt : b.writableBytes < data.length) :
    (b.readv extrabuf data).2.take (data.length - b.writableBytes) = data.drop b.writableBytes := by
  have hsmall : b.writableBytes < kExtraBuf := by
    by_contra hn
    rw [offered, if_neg hn] at ho
    omega
  rw [offered, if_pos hsmall] at ho
  have hlen : (data.drop b.writableBytes).length = data.length - b.writableBytes := List.length_drop
  have hpart : (data.drop b.writableBytes).take kExtraBuf = data.drop b.writableBytes :=
    List.take_of_length_le (by omega)
  unfold readv iovec
  rw [if_pos hsmall]
  simp only [scatter, List.getD_cons_succ, List.getD_cons_zero, hpart]
  rw [← hlen]
  exact take_copyInto_zero (by omega)

/-- A `readv` that has failed leaves the buffer as it is. -/
theorem readFdIov_of_neg (b : Buffer) (extrabuf avail : List UInt8) {n : ℤ} (hn : n < 0) :
    b.readFdIov extrabuf avail n = (n, b) := by
  unfold readFdIov
  rw [if_pos hn, Int.toNat_of_nonpos hn.le, List.take_zero, readv_nil]

/-- The number that `readv` returns tells `readFd` where the data lies. -/
theorem readFdIov_eq {b : Buffer} {extrabuf avail : List UInt8} (hx : extrabuf.length = kExtraBuf)
    {n : ℤ} (h0 : 0 ≤ n) (ho : n ≤ b.offered) (ha : n ≤ avail.length) :
    b.readFdIov extrabuf avail n = (n, b.readFd (avail.take n.toNat)) := by
  have hlen : (avail.take n.toNat).length = n.toNat := by
    rw [List.length_take]
    omega
  unfold readFdIov Buffer.readFd
  rw [if_neg (not_lt.mpr h0), readv_fst]
  simp only [hlen]
  split
  next => rfl
  next hgt =>
    have hfit : (avail.take n.toNat).length ≤ b.offered := by omega
    have hsnd := readv_snd hx hfit (by omega)
    rw [hlen] at hsnd
    rw [hsnd]

end Buffer

/-! ### `handleRead` -/

namespace Io

/-- From `io` to `io'` the connection has been closed. -/
def Closes (io io' : Io) : Prop := ∃ evs, io'.trace = io.trace ++ evs ∧ .closeCallback ∈ evs

/-- The body of a callback closes nothing. -/
theorem not_closes_user (io : Io) (acts : List UserAct) {e : Event} (he : e ≠ .closeCallback) :
    ¬ io.Closes ((io.emit e).user acts) := by
  have hK : ∀ e : Event, e.IsCallback = false → e ≠ .closeCallback := by
    rintro e he rfl
    cases he
  have hemit : Steps (fun e => e ≠ .closeCallback) io (io.emit e) := (Steps.refl io).emit he
  obtain ⟨s, hs, hmem⟩ := (Frame.of_steps (hemit.user hK acts)).trace
  rintro ⟨evs, ht, hc⟩
  rw [hs, List.append_cancel_left_eq] at ht
  exact hmem _ (ht ▸ hc) rfl

/-- `handleRead` closes the connection when `readFd` returns `0`, and only then. -/
theorem closes_handleRead (ret : ReadRet) (acts : List UserAct) (io : Io) :
    io.Closes (io.handleRead ret acts) ↔
      ∃ data, ret = .ok data ∧ data.take io.conn.inputBuffer.val.offered = [] := by
  cases ret with
  | err e =>
    refine iff_of_false ?_ (by simp)
    rintro ⟨evs, ht, hc⟩
    have hnil : evs = [] := by simpa [handleRead] using ht
    simp [hnil] at hc
  | ok data =>
    by_cases hd : data.take io.conn.inputBuffer.val.offered = []
    · refine iff_of_true ?_ ⟨data, rfl, hd⟩
      obtain ⟨evs, ht⟩ := ((Steps.refl (io.setInput (io.conn.inputBuffer.readFd []))).setState
        .kDisconnected |>.disableAll.callConnection acts).prefix_trace
      refine ⟨evs ++ [.closeCallback], ?_, by simp⟩
      simp only [handleRead, hd, if_true, handleClose, emit_trace]
      rw [← ht, setInput_trace, List.append_assoc]
    · refine iff_of_false ?_ ?_
      · simp only [handleRead, if_neg hd]
        exact not_closes_user (io.setInput _) acts (by simp)
      · rintro ⟨data', he, hd'⟩
        cases he
        exact hd hd'

end Io

/-! ### The kernel -/

/-- The results that `readv` can have when the bytes `avail` have arrived: it fails, or delivers some
of them. -/
def ReadvReturns (offered : ℕ) (avail : List UInt8) (n : ℤ) : Prop :=
  -1 ≤ n ∧ n ≤ offered ∧ n ≤ avail.length

/-- When `readv` returns `0`: it is offered no room, or the peer has ended the stream and everything
before has been read. -/
def ReturnsZero (offered : ℕ) (avail : List UInt8) (ended : Bool) : Prop :=
  offered = 0 ∨ avail = [] ∧ ended = true

/-- The result of a `readv` as `handleRead` meets it. -/
def readRet (avail : List UInt8) (errno : Errno) (n : ℤ) : ReadRet :=
  if n < 0 then .err errno else .ok (avail.take n.toNat)

/-- From `b` to `b'` the first `n` bytes of `avail` have come in behind the readable bytes, or the
buffer is unchanged if `n` is an error. -/
structure ReadExact (b : Buffer) (avail : List UInt8) (n : ℤ) (b' : Buffer) : Prop where
  inv : b'.Inv
  delivered : 0 ≤ n → b'.readable = b.readable ++ avail.take n.toNat
  failed : n < 0 → b' = b

theorem readExact_readFdIov {b : Buffer} (h : b.Inv) {extrabuf avail : List UInt8}
    (hx : extrabuf.length = Buffer.kExtraBuf) {n : ℤ} (ho : n ≤ b.iovec.sum) (ha : n ≤ avail.length) :
    ReadExact b avail n (b.readFdIov extrabuf avail n).2 := by
  rw [b.sum_iovec] at ho
  rcases lt_or_ge n 0 with hn | hn
  · rw [b.readFdIov_of_neg extrabuf avail hn]
    exact ⟨h, fun h0 => absurd hn (not_lt.mpr h0), fun _ => rfl⟩
  · rw [Buffer.readFdIov_eq hx hn ho ha]
    exact ⟨h.readFd _, fun _ => h.readable_readFd _, fun h0 => absurd h0 (not_lt.mpr hn)⟩

/-- **`readFd` loses and invents nothing**, for every buffer and every result of `readv`; it never
offers less than 65536 bytes, so that `0` means the end of the stream, and the connection is closed
there only. -/
theorem readFd_exact (b : ValidBuffer) {extrabuf avail : List UInt8} {n : ℤ}
    (hx : extrabuf.length = 65536) (hn : ReadvReturns b.val.iovec.sum avail n) :
    (∃ b', b.val.readFdIov extrabuf avail n = (n, b') ∧ ReadExact b.val avail n b') ∧
    65536 ≤ b.val.iovec.sum ∧
    (∀ ended, ReturnsZero b.val.iovec.sum avail ended → avail = [] ∧ ended = true) ∧
    ∀ (io : Io) (errno : Errno) (acts : List UserAct), io.conn.inputBuffer = b →
      (io.Closes (io.handleRead (readRet avail errno n) acts) ↔ n = 0) := by
  obtain ⟨-, ho, ha⟩ := hn
  have hroom : 65536 ≤ b.val.iovec.sum := b.val.sum_iovec ▸ b.val.kExtraBuf_le_offered
  refine ⟨⟨_, ?_, readExact_readFdIov b.property hx ho ha⟩, hroom, fun ended hz => ?_, ?_⟩
  · rw [b.val.sum_iovec] at ho
    rcases lt_or_ge n 0 with hn | hn
    · rw [b.val.readFdIov_of_neg extrabuf avail hn]
    · rw [Buffer.readFdIov_eq hx hn ho ha]
  · exact hz.resolve_left (by omega)
  · rintro io errno acts rfl
    rw [Io.closes_handleRead, ← Buffer.sum_iovec, readRet]
    constructor
    · rintro ⟨data, he, hd⟩
      split at he
      next => cases he
      next hneg =>
        cases he
        have hlen := congrArg List.length hd
        rw [List.length_take, List.length_take, List.length_nil] at hlen
        omega
    · rintro rfl
      exact ⟨[], by simp, by simp⟩

/-- Nine bytes come into a buffer of eight, which has to grow for the last one. -/
theorem readFd_exact_spill : ∃ b',
    (Buffer.new 8).readFdIov (List.replicate 65536 0) [1, 2, 3, 4, 5, 6, 7, 8, 9] 9 = (9, b') ∧
      b'.readable = [1, 2, 3, 4, 5, 6, 7, 8, 9] := by
  have hn : ReadvReturns (Buffer.new 8).iovec.sum [1, 2, 3, 4, 5, 6, 7, 8, 9] 9 :=
    ⟨by decide, by decide, by decide⟩
  obtain ⟨⟨b', he, hb⟩, -⟩ := readFd_exact (ValidBuffer.new 8) List.length_replicate hn
  exact ⟨b', he, hb.delivered (by decide)⟩

end Mymuduo
