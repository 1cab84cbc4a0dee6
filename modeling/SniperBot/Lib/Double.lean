import Mathlib.Algebra.Group.Int.Defs
import Mathlib.Algebra.Group.Nat.Defs
import Mathlib.Data.Nat.Log

/-!
# Integers in double precision

The nearest double to an integer, ties to even. Integers up to `2 ^ 53` are
represented exactly; larger ones may be moved, but never below that bound.
-/

namespace SniperBot.Lib.Double

open Nat

/-- The quotient rounded to the nearest integer, ties to even. -/
def roundedQuotient (n unit : Nat) : Nat :=
  if 2 * (n % unit) < unit then n / unit
  else if unit < 2 * (n % unit) then n / unit + 1
  else n / unit + n / unit % 2

def ofNat (n : Nat) : Nat :=
  if n ≤ 2 ^ 53 then n
  else roundedQuotient n (2 ^ (log 2 n - 52)) * 2 ^ (log 2 n - 52)

def ofInt (n : Int) : Int := if 0 ≤ n then (ofNat n.toNat : Int) else -(ofNat (-n).toNat : Int)

theorem div_le_roundedQuotient (n unit : Nat) : n / unit ≤ roundedQuotient n unit := by
  unfold roundedQuotient
  split
  · exact le_refl _
  · split <;> omega

theorem ofNat_of_le {n : Nat} (h : n ≤ 2 ^ 53) : ofNat n = n := if_pos h

theorem le_ofNat {n : Nat} (h : 2 ^ 53 ≤ n) : 2 ^ 53 ≤ ofNat n := by
  unfold ofNat
  split
  · exact h
  · have hl : 53 ≤ log 2 n := le_log_of_pow_le (by omega) h
    have hpo : 2 ^ 52 * 2 ^ (log 2 n - 52) ≤ n := by
      rw [← Nat.pow_add, Nat.add_sub_cancel' (by omega)]
      exact pow_log_le_self 2 (by omega)
    have hun : 2 ≤ 2 ^ (log 2 n - 52) := by
      calc 2 = 2 ^ 1 := rfl
        _ ≤ 2 ^ (Nat.log 2 n - 52) := Nat.pow_le_pow_right (by omega) (by omega)
    have hq : 2 ^ 52 ≤ n / 2 ^ (log 2 n - 52) := (le_div_iff_mul_le (by omega)).mpr hpo
    calc 2 ^ 53 = 2 ^ 52 * 2 := rfl
      _ ≤ _ := Nat.mul_le_mul (hq.trans (div_le_roundedQuotient _ _)) hun

variable {n : Int}

theorem ofInt_of_le (h : -2 ^ 53 ≤ n) (h' : n ≤ 2 ^ 53) : ofInt n = n := by
  unfold ofInt
  split
  · rw [ofNat_of_le (by omega)]
    omega
  · rw [ofNat_of_le (by omega)]
    omega

theorem le_ofInt (h : 2 ^ 53 ≤ n) : 2 ^ 53 ≤ ofInt n := by
  have hn := le_ofNat (n := n.toNat) (by omega)
  rw [ofInt]
  omega

theorem ofInt_le (h : n ≤ -2 ^ 53) : ofInt n ≤ -2 ^ 53 := by
  have hn := le_ofNat (n := (-n).toNat) (by omega)
  rw [ofInt]
  omega

theorem eq_of_ofInt_eq {m n : Int} (h : ofInt n = m) (hl : -2 ^ 53 < m) (hh : m < 2 ^ 53) :
    n = m := by
  by_cases h1 : 2 ^ 53 ≤ n
  · have := le_ofInt h1
    omega
  · by_cases h2 : n ≤ -2 ^ 53
    · have := ofInt_le h2
      omega
    · rw [← h, ofInt_of_le (by omega) (by omega)]

theorem ofInt_pos (h : 0 < n) : 0 < ofInt n := by
  by_cases h1 : 2 ^ 53 ≤ n
  · have := le_ofInt h1
    omega
  · rw [ofInt_of_le (by omega) (by omega)]
    exact h

end SniperBot.Lib.Double
