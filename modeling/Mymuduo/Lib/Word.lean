import Mathlib.Algebra.Group.Nat.Defs
import Mathlib.Tactic.Common

/-!
# Mymuduo.Lib.Word — unsigned machine arithmetic on natural numbers

`wadd w` and `wsub w` are the sum and the difference of two unsigned integers of `w` bits, which wrap
around.  Four lemmas say what they are on either side of the wrap.
-/

namespace Mymuduo.Lib

variable {w a b : ℕ}

def wadd (w a b : ℕ) : ℕ := (a + b) % 2 ^ w

def wsub (w a b : ℕ) : ℕ := (a + 2 ^ w - b) % 2 ^ w

theorem wadd_of_lt (h : a + b < 2 ^ w) : wadd w a b = a + b := Nat.mod_eq_of_lt h

/-- The sum wraps around once. -/
theorem wadd_of_ge (h : 2 ^ w ≤ a + b) (hlt : a + b < 2 ^ w + 2 ^ w) :
    wadd w a b = a + b - 2 ^ w := by
  unfold wadd
  rw [Nat.mod_eq_sub_mod h, Nat.mod_eq_of_lt (by omega)]

theorem wsub_of_le (h : b ≤ a) (ha : a < 2 ^ w) : wsub w a b = a - b := by
  have he : a + 2 ^ w - b = a - b + 2 ^ w := by omega
  unfold wsub
  rw [he, Nat.add_mod_right, Nat.mod_eq_of_lt (by omega)]

/-- The difference wraps around. -/
theorem wsub_of_lt (h : a < b) (hb : b ≤ 2 ^ w) : wsub w a b = a + 2 ^ w - b :=
  Nat.mod_eq_of_lt (by omega)

end Mymuduo.Lib
