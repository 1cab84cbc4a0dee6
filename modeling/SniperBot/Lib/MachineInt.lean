import Mathlib.Tactic.Common
import Mathlib.Tactic.Linarith

/-!
# Checked and saturating machine integers

Sixty-four bit words with the two families of operations that neither wrap nor
trap: the checked ones report an overflow, the saturating ones stop at the end
of the range. Each operation is specified through the exact value, `toNat` for
unsigned words and `toInt` for signed ones.
-/

namespace SniperBot.Lib.MachineInt

open Option

namespace U32

def saturatingAdd (a b : UInt32) : UInt32 := UInt32.ofNat (min (a.toNat + b.toNat) (2 ^ 32 - 1))

end U32

namespace U64

def maxNat : Nat := 2 ^ 64 - 1

theorem toNat_le_max (a : UInt64) : a.toNat ≤ maxNat := by
  have h := a.toNat_lt
  unfold maxNat
  omega

def clamp (n : Nat) : UInt64 := UInt64.ofNat (min n maxNat)

@[simp] theorem toNat_clamp (n : Nat) : (clamp n).toNat = min n maxNat := by
  have h : min n maxNat < 2 ^ 64 := by unfold maxNat; omega
  exact Nat.mod_eq_of_lt h

variable (a b : UInt64)

def checkedAdd : Option UInt64 :=
  if a.toNat + b.toNat ≤ maxNat then some (clamp (a.toNat + b.toNat)) else none

def checkedSub : Option UInt64 :=
  if b.toNat ≤ a.toNat then some (clamp (a.toNat - b.toNat)) else none

def saturatingAdd : UInt64 := clamp (a.toNat + b.toNat)

def saturatingSub : UInt64 := clamp (a.toNat - b.toNat)

theorem checkedAdd_eq_some {a b c : UInt64} :
    checkedAdd a b = some c ↔ c.toNat = a.toNat + b.toNat := by
  unfold checkedAdd
  split
  · next h =>
    rw [some.injEq, ← UInt64.toNat_inj, toNat_clamp, Nat.min_eq_left h]
    exact eq_comm
  · next h =>
    have hc := toNat_le_max c
    simp only [reduceCtorEq, false_iff]
    omega

theorem checkedSub_eq_some {a b c : UInt64} :
    checkedSub a b = some c ↔ c.toNat + b.toNat = a.toNat := by
  have ha := toNat_le_max a
  unfold checkedSub
  split
  · next h =>
    rw [some.injEq, ← UInt64.toNat_inj, toNat_clamp]
    omega
  · next h =>
    simp only [reduceCtorEq, false_iff]
    omega

@[simp] theorem toNat_saturatingAdd :
    (saturatingAdd a b).toNat = min (a.toNat + b.toNat) maxNat := toNat_clamp _

@[simp] theorem toNat_saturatingSub : (saturatingSub a b).toNat = a.toNat - b.toNat := by
  have ha := toNat_le_max a
  rw [saturatingSub, toNat_clamp, Nat.min_eq_left (by omega)]

@[simp] theorem toNat_min : (min a b).toNat = min a.toNat b.toNat := by
  change (if a ≤ b then a else b).toNat = _
  split
  · next h => exact (Nat.min_eq_left (UInt64.le_iff_toNat_le.mp h)).symm
  · next h =>
    have hba : b.toNat ≤ a.toNat := by rw [UInt64.le_iff_toNat_le] at h; omega
    exact (Nat.min_eq_right hba).symm

theorem pos_iff_ne_zero {a : UInt64} : a > 0 ↔ a ≠ 0 := by
  rw [gt_iff_lt, ne_eq, ← UInt64.toNat_inj]
  exact Nat.pos_iff_ne_zero

theorem not_pos_iff {a : UInt64} : ¬ a > 0 ↔ a = 0 := by
  rw [pos_iff_ne_zero, not_not]

theorem toNat_add_of_le {a b : UInt64} (h : a.toNat + b.toNat ≤ maxNat) :
    (a + b).toNat = a.toNat + b.toNat := by
  unfold maxNat at h
  rw [UInt64.toNat_add, Nat.mod_eq_of_lt (by omega)]

theorem toNat_sub_of_le {a b : UInt64} (h : b.toNat ≤ a.toNat) :
    (a - b).toNat = a.toNat - b.toNat :=
  UInt64.toNat_sub_of_le _ _ (UInt64.le_iff_toNat_le.mpr h)

end U64

namespace U128

/-- Products of unsigned words held as naturals below `2 ^ 128`. -/
def checkedMul (a b : Nat) : Option Nat :=
  if a * b < 2 ^ 128 then some (a * b) else none

def checkedAdd (a b : Nat) : Option Nat :=
  if a + b < 2 ^ 128 then some (a + b) else none

def checkedSub (a b : Nat) : Option Nat :=
  if b ≤ a then some (a - b) else none

variable {a b c : Nat}

theorem checkedMul_eq_some : checkedMul a b = some c ↔ a * b < 2 ^ 128 ∧ c = a * b := by
  rw [checkedMul, ite_none_right_eq_some, some.injEq, @eq_comm _ c]

theorem checkedAdd_eq_some : checkedAdd a b = some c ↔ a + b < 2 ^ 128 ∧ c = a + b := by
  rw [checkedAdd, ite_none_right_eq_some, some.injEq, @eq_comm _ c]

theorem checkedSub_eq_some : checkedSub a b = some c ↔ b ≤ a ∧ c = a - b := by
  rw [checkedSub, ite_none_right_eq_some, some.injEq, @eq_comm _ c]

theorem mul_toNat_lt (a b : UInt64) : a.toNat * b.toNat < 2 ^ 128 := by
  have h := Nat.mul_lt_mul'' a.toNat_lt b.toNat_lt
  rwa [← Nat.pow_add] at h

end U128

namespace I64

def minInt : Int := -2 ^ 63

def maxInt : Int := 2 ^ 63 - 1

theorem minInt_le (a : Int64) : minInt ≤ a.toInt := a.le_toInt

theorem le_maxInt (a : Int64) : a.toInt ≤ maxInt := by
  have h := a.toInt_lt
  unfold maxInt
  omega

def clamp (n : Int) : Int64 := Int64.ofInt (max minInt (min n maxInt))

@[simp] theorem toInt_clamp (n : Int) : (clamp n).toInt = max minInt (min n maxInt) := by
  apply Int64.toInt_ofInt_of_le <;> unfold minInt maxInt <;> omega

variable (a b : Int64)

def saturatingAdd : Int64 := clamp (a.toInt + b.toInt)

def saturatingSub : Int64 := clamp (a.toInt - b.toInt)

@[simp] theorem toInt_saturatingAdd :
    (saturatingAdd a b).toInt = max minInt (min (a.toInt + b.toInt) maxInt) := toInt_clamp _

@[simp] theorem toInt_saturatingSub :
    (saturatingSub a b).toInt = max minInt (min (a.toInt - b.toInt) maxInt) := toInt_clamp _

theorem exists_toInt_eq {n : Int} (h1 : minInt ≤ n) (h2 : n ≤ maxInt) : ∃ a : Int64, a.toInt = n :=
  ⟨clamp n, by rw [toInt_clamp, Int.min_eq_left h2, Int.max_eq_right h1]⟩

end I64

theorem bmod_eq_iff {x y : Int} {m : Nat} (hx : 0 ≤ x) (hxm : x < m) (hy : 0 ≤ y)
    (hym : 2 * y < m) : x.bmod m = y ↔ x = y := by
  constructor
  · intro h
    have hm : y % m = x % m := by rw [← h, Int.bmod_emod]
    rw [Int.emod_eq_of_lt hy (by omega), Int.emod_eq_of_lt hx hxm] at hm
    exact hm.symm
  · intro h
    rw [h]
    exact Int.bmod_eq_of_le (by omega) (by omega)

end SniperBot.Lib.MachineInt
