import Mathlib.Algebra.Order.Floor.Div
import Mathlib.Tactic.Linarith
import Mathlib.Tactic.Ring

/-!
# Rounded fees and a constant-product exchange

A fee is rounded up, and so is the amount asked for so that a given one is left after it. A pool
gives out, rounded down, what keeps the product of its reserves; what it asks is rounded up. Both
pairs are adjoint: the second is the least input for which the first gives enough.
-/

namespace SniperBot.Lib.Rounding

open Nat

/-! ## Quotients rounded up -/

section

variable {n d : ℕ}

theorem eq_ceilDiv {q : ℕ} (hle : n ≤ d * q) (hl : d * q < n + d) : q = n ⌈/⌉ d := by
  have hpos : 0 < d := by omega
  apply le_antisymm
  · by_contra hgt
    have hc : n ≤ d * (n ⌈/⌉ d) := (ceilDiv_le_iff_le_mul hpos).mp (le_refl _)
    have hnext : d * (n ⌈/⌉ d + 1) ≤ d * q := mul_le_mul_left d (by omega)
    rw [mul_add] at hnext
    omega
  · exact (ceilDiv_le_iff_le_mul hpos).mpr hle

theorem div_eq_ceilDiv (hd : 0 < d) (hr : n % d = 0) : n / d = n ⌈/⌉ d := by
  have hdi := div_add_mod n d
  apply eq_ceilDiv <;> omega

theorem div_add_one_eq_ceilDiv (hd : 0 < d) (hr : 0 < n % d) : n / d + 1 = n ⌈/⌉ d := by
  have hdi := div_add_mod n d
  have hm := mod_lt n hd
  apply eq_ceilDiv
  · rw [mul_add]
    omega
  · rw [mul_add]
    omega

end

/-! ## Fees -/

/-- What is left of an amount after a fee of `rate` in `unit`. -/
def net (unit rate a : ℕ) : ℕ := a - (a * rate) ⌈/⌉ unit

/-- The amount of which `n` is left. -/
def gross (unit rate n : ℕ) : ℕ := (n * unit) ⌈/⌉ (unit - rate)

section

variable {unit rate : ℕ}

theorem fee_le (hr : rate < unit) (a : ℕ) : (a * rate) ⌈/⌉ unit ≤ a := by
  rw [ceilDiv_le_iff_le_mul (zero_lt_of_lt hr), mul_comm]
  exact Nat.mul_le_mul_right a hr.le

theorem le_net_iff (hr : rate < unit) {n a : ℕ} : n ≤ net unit rate a ↔ gross unit rate n ≤ a := by
  have hun : 0 < unit := zero_lt_of_lt hr
  have hrest : 0 < unit - rate := Nat.sub_pos_of_lt hr
  have hsp : unit * a = a * rate + (unit - rate) * a := by
    rw [Nat.mul_comm a rate, ← Nat.add_mul, Nat.add_sub_cancel' hr.le]
  rw [gross, ceilDiv_le_iff_le_mul hrest, net, Nat.le_sub_iff_add_le (fee_le hr a)]
  constructor
  · intro h
    have hf : (a * rate) ⌈/⌉ unit ≤ a - n := le_sub_of_add_le (by omega)
    have hn : n ≤ a := by omega
    rw [ceilDiv_le_iff_le_mul hun, Nat.mul_sub] at hf
    have hle : unit * n ≤ unit * a := mul_le_mul_left unit hn
    rw [mul_comm n unit]
    omega
  · intro h
    rw [mul_comm n unit] at h
    have hn : n ≤ a := le_of_mul_le_mul_left (by omega : unit * n ≤ unit * a) hun
    have hf : (a * rate) ⌈/⌉ unit ≤ a - n := by
      rw [ceilDiv_le_iff_le_mul hun, Nat.mul_sub]
      omega
    omega

theorem net_zero (a : ℕ) : net unit 0 a = a := by
  have hf : (a * 0) ⌈/⌉ unit = 0 := by rw [mul_zero, zero_ceilDiv]
  rw [net, hf, Nat.sub_zero]

theorem gross_zero (hun : 0 < unit) (n : ℕ) : gross unit 0 n = n := by
  apply le_antisymm
  · rw [gross, Nat.sub_zero, ceilDiv_le_iff_le_mul hun, Nat.mul_comm]
  · have hle : n ≤ net unit 0 (gross unit 0 n) := (le_net_iff hun).mpr (le_refl _)
    rwa [net_zero] at hle

end

/-! ## A constant-product exchange -/

/-- What `a` more in the first reserve gives out of the second. -/
def bought (x y a : ℕ) : ℕ := a * y / (x + a)

/-- What is asked for `b` out of the second reserve. -/
def asked (x y b : ℕ) : ℕ := (x * b) ⌈/⌉ (y - b)

section

variable {x y a b : ℕ}

theorem le_bought_iff (hb : b < y) (hx : 0 < x + a) : b ≤ bought x y a ↔ asked x y b ≤ a := by
  have hsub : (y - b) * a + b * a = y * a := by
    rw [← Nat.add_mul, Nat.sub_add_cancel hb.le]
  rw [bought, Nat.le_div_iff_mul_le hx, asked, ceilDiv_le_iff_le_mul (Nat.sub_pos_of_lt hb),
    mul_add, mul_comm x b, mul_comm a y]
  omega

theorem bought_le : bought x y a ≤ y := by
  rcases Nat.eq_zero_or_pos (x + a) with hz | hpos
  · rw [bought, hz, Nat.div_zero]
    exact zero_le y
  · apply Nat.div_le_of_le_mul
    exact Nat.mul_le_mul_right y (Nat.le_add_left a x)

theorem product_le_of_bought : x * y ≤ (x + a) * (y - bought x y a) := by
  have hd : (x + a) * bought x y a ≤ a * y := mul_div_le _ _
  rw [Nat.mul_sub, Nat.add_mul]
  omega

theorem product_le_of_asked (hb : b < y) : x * y ≤ (x + asked x y b) * (y - b) := by
  have ha : x * b ≤ (y - b) * asked x y b :=
    (ceilDiv_le_iff_le_mul (Nat.sub_pos_of_lt hb)).mp (Nat.le_refl _)
  calc x * y = x * (y - b) + x * b := by rw [← Nat.mul_add, Nat.sub_add_cancel hb.le]
    _ ≤ x * (y - b) + (y - b) * asked x y b := Nat.add_le_add_left ha _
    _ = (x + asked x y b) * (y - b) := by ring

end

end SniperBot.Lib.Rounding
