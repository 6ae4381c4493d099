import Mathlib.Algebra.Order.Ring.Nat

/-!
# Times

A `SubsecondTime` is a 64-bit word, here a number below `2 ^ 64` with explicit reduction.
-/

namespace Sniper.SubsecondTime

open Nat

def add (a b : ℕ) : ℕ := (a + b) % 2 ^ 64

def sub (a b : ℕ) : ℕ := (2 ^ 64 + a - b) % 2 ^ 64

def maxTime : ℕ := 2 ^ 64 - 1

variable {a b : ℕ}

lemma add_eq (h : a + b < 2 ^ 64) : add a b = a + b := mod_eq_of_lt h

lemma sub_eq (ha : a < 2 ^ 64) (h : b ≤ a) : sub a b = a - b := by
  unfold sub
  omega

lemma sub_wraps (hb : b ≤ 2 ^ 64) (h : a < b) : sub a b = a + 2 ^ 64 - b := by
  unfold sub
  omega

lemma sub_le : sub a b ≤ a + 2 ^ 64 - b := by
  unfold sub
  omega

def divideRounded (lhs rhs : ℕ) : ℕ := add lhs (add (rhs / 2) 1) / rhs

lemma divideRounded_eq (pos : 0 < b) (fits : a + b < 2 ^ 64) :
    divideRounded a b = a / b + if b ≤ a % b + (b / 2 + 1) then 1 else 0 := by
  have below := mod_lt a pos
  have parts := mod_add_div a b
  have sum : a + (b / 2 + 1) = a % b + (b / 2 + 1) + b * (a / b) := by omega
  have half : add (b / 2) 1 = b / 2 + 1 := add_eq (by omega)
  rw [divideRounded, half, add_eq (by omega), sum, add_mul_div_left _ _ pos, add_comm]
  congr 1
  split
  · exact Nat.div_eq_of_lt_le (by omega) (by omega)
  · exact div_eq_of_lt (by omega)

/-- The result is a nearest integer unless the remainder is the last one below half of the divisor,
which is rounded up. -/
theorem divideRounded_nearest_iff (pos : 0 < b) (fits : a + b < 2 ^ 64) :
    (2 * ((divideRounded a b * b : ℕ) - a : ℤ)).natAbs ≤ b ↔ a % b ≠ (b - 1) / 2 := by
  have below := mod_lt a pos
  have parts := mod_add_div' a b
  rw [divideRounded_eq pos fits, add_mul]
  split <;> omega

theorem seven_rounded : (2 * ((divideRounded 7 2 * 2 : ℕ) - 7 : ℤ)).natAbs ≤ 2 :=
  (divideRounded_nearest_iff (by decide) (by decide)).mpr (by decide)

theorem four_rounded : divideRounded 4 1 = 5 ∧
    ¬ (2 * ((divideRounded 4 1 * 1 : ℕ) - 4 : ℤ)).natAbs ≤ 1 := by
  decide

end Sniper.SubsecondTime
