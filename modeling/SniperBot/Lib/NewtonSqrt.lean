import Mathlib.Data.Nat.Sqrt
import Mathlib.Tactic.Linarith
import Mathlib.Tactic.Ring

/-!
# Integer square roots by Newton's iteration

From any start at or above the root the iteration stays at or above it and falls, until
it stops at the root itself.
-/

namespace SniperBot.Lib.NewtonSqrt

open Nat

def improved (value x : ℕ) : ℕ := (x + value / x) / 2

def newton (value x : ℕ) : ℕ :=
  if improved value x < x then newton value (improved value x) else x
termination_by x

variable {value x : ℕ}

theorem sqrt_le_improved (hx : 0 < x) : value.sqrt ≤ improved value x := by
  rw [improved, le_div_iff_mul_le (by omega)]
  have hr : value.sqrt * value.sqrt ≤ value := sqrt_le value
  generalize value.sqrt = r at *
  rcases le_total (r * 2) x with hle | hg
  · exact le_trans hle (le_add_right _ _)
  · -- otherwise what is missing to twice the root is covered by the quotient
    have hq : r * 2 - x ≤ value / x := by
      rw [le_div_iff_mul_le hx]
      zify [hg]
      nlinarith [sq_nonneg ((r : ℤ) - x)]
    omega

theorem mul_self_le_of_improved (hx : x ≤ improved value x) : x * x ≤ value := by
  rcases Nat.eq_zero_or_pos x with rfl | hpos
  · exact zero_le value
  · rw [improved] at hx
    rw [← le_div_iff_mul_le hpos]
    omega

theorem newton_eq_sqrt (hx : value.sqrt ≤ x) : newton value x = value.sqrt := by
  induction x using Nat.strong_induction_on with
  | h x ih =>
    unfold newton
    split
    · next hf =>
      have hpos : 0 < x := zero_lt_of_lt hf
      exact ih _ hf (sqrt_le_improved hpos)
    · next hst =>
      exact le_antisymm (le_sqrt.mpr (mul_self_le_of_improved (not_lt.mp hst))) hx

theorem sqrt_le_two_pow {n : ℕ} (h : value < 2 ^ (2 * n)) : value.sqrt ≤ 2 ^ n := by
  apply le_of_lt
  rw [sqrt_lt', ← pow_mul, mul_comm n 2]
  exact h

end SniperBot.Lib.NewtonSqrt
