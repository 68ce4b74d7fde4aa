import Mathlib.Data.Nat.Notation
import Mathlib.Data.List.TakeDrop
import Mathlib.Tactic.Common

/-!
# Mymuduo.Lib.Copy — copying into an array, element by element

`copyInto buf d xs` stores `xs` from position `d` on; `copyForward buf s d n` is a forward copy
inside one array, of the `n` elements from `s` on to the positions from `d` on.  Both are loops over
single stores, front to back, so `copyForward` reads elements it may have overwritten itself.

* `copyInto_eq`: a copy that fits replaces exactly its window;
* `copyForward_eq`: a forward copy to the left moves the window as it was before the copy.
-/

namespace Mymuduo.Lib

variable {α : Type*}

/-- Store `xs` into `buf` from position `d` on. -/
def copyInto : List α → ℕ → List α → List α
  | buf, _, [] => buf
  | buf, d, x :: xs => copyInto (buf.set d x) (d + 1) xs

/-- Copy the `n` elements of `buf` from `s` on to the positions from `d` on, front to back. -/
def copyForward : List α → ℕ → ℕ → ℕ → List α
  | buf, _, _, 0 => buf
  | buf, s, d, n + 1 =>
    match buf[s]? with
    | some x => copyForward (buf.set d x) (s + 1) (d + 1) n
    | none => buf

@[simp] theorem length_copyInto (buf : List α) (d : ℕ) (xs : List α) :
    (copyInto buf d xs).length = buf.length := by
  induction xs generalizing buf d with
  | nil => rfl
  | cons x xs ih => rw [copyInto, ih, List.length_set]

@[simp] theorem length_copyForward (buf : List α) (s d n : ℕ) :
    (copyForward buf s d n).length = buf.length := by
  induction n generalizing buf s d with
  | zero => rfl
  | succ n ih =>
    rw [copyForward]
    split
    · rw [ih, List.length_set]
    · rfl

/-- A store splits the list at its position. -/
theorem set_eq_take_append {buf : List α} {d : ℕ} (h : d < buf.length) (x : α) :
    buf.set d x = buf.take d ++ x :: buf.drop (d + 1) :=
  List.set_eq_take_append_cons_drop.trans (if_pos h)

/-- A copy that fits replaces exactly its window. -/
theorem copyInto_eq {buf : List α} {d : ℕ} {xs : List α} (h : d + xs.length ≤ buf.length) :
    copyInto buf d xs = buf.take d ++ xs ++ buf.drop (d + xs.length) := by
  induction xs generalizing buf d with
  | nil => simp [copyInto]
  | cons x xs ih =>
    rw [List.length_cons] at h
    have hd : d < buf.length := by omega
    rw [copyInto, ih (by rw [List.length_set]; omega), set_eq_take_append hd]
    have hlen : (buf.take d).length = d := by rw [List.length_take]; omega
    have htake : (buf.take d ++ x :: buf.drop (d + 1)).take (d + 1) = buf.take d ++ [x] := by
      rw [List.take_append, hlen, List.take_of_length_le (by omega)]
      simp
    have hdrop : (buf.take d ++ x :: buf.drop (d + 1)).drop (d + 1 + xs.length) =
        buf.drop (d + (xs.length + 1)) := by
      rw [List.drop_append, hlen, List.drop_eq_nil_of_le (by omega)]
      rw [show d + 1 + xs.length - d = xs.length + 1 by omega, List.drop_succ_cons, List.drop_drop]
      simp only [List.nil_append]
      congr 1
      omega
    rw [htake, hdrop]
    simp

/-- A forward copy to the left moves the window as it was before the copy. -/
theorem copyForward_eq {buf : List α} {s d n : ℕ} (hd : d < s) (hs : s + n ≤ buf.length) :
    copyForward buf s d n = buf.take d ++ (buf.drop s).take n ++ buf.drop (d + n) := by
  induction n generalizing buf s d with
  | zero => simp [copyForward]
  | succ n ih =>
    have hlt : s < buf.length := by omega
    rw [copyForward, List.getElem?_eq_getElem hlt]
    simp only
    rw [ih (by omega) (by rw [List.length_set]; omega)]
    -- the store at `d` lies to the left of every element still to be read
    have hread : (buf.set d buf[s]).drop (s + 1) = buf.drop (s + 1) := by
      rw [List.drop_set, if_pos (by omega)]
    have hrest : (buf.set d buf[s]).drop (d + 1 + n) = buf.drop (d + (n + 1)) := by
      rw [List.drop_set, if_pos (by omega), show d + 1 + n = d + (n + 1) by omega]
    have hdone : (buf.set d buf[s]).take (d + 1) = buf.take d ++ [buf[s]] := by
      rw [set_eq_take_append (by omega), List.take_append, List.length_take,
        show d + 1 - min d buf.length = 1 by omega, List.take_of_length_le (by rw [List.length_take]; omega)]
      simp
    rw [hread, hrest, hdone, List.drop_eq_getElem_cons hlt, List.take_succ_cons]
    simp

end Mymuduo.Lib
