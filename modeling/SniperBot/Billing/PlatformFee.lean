import Mathlib.Data.Rat.Floor
import Mathlib.Tactic.Ring
import SniperBot.Execution.Ledger

/-!
# The platform fee

The books charge a share of the notional, rounded half up, between a minimum and a cap; the
transfer on the chain works the same share out in wider words. A product that leaves 64 bits
makes the fee of the books the largest word.
-/

namespace SniperBot.Billing.PlatformFee

open Execution (isBlank)
open Lib.MachineInt

def bpsDenominator : Int := 10000

def maxPlatformFeeBps : UInt16 := 500

inductive PlatformFeeError where
  | rateTooHigh
  | minimumExceedsCap
  | negativeNotional

/-- A policy that has passed its checks. Amounts are millionths of the quote currency. -/
structure PlatformFeePolicy where
  feeBps : UInt16
  capMicros : Option Int64
  minimumMicros : Int64
  feeBps_le : feeBps ≤ maxPlatformFeeBps
  minimum_nonneg : 0 ≤ minimumMicros
  minimum_le_cap : ∀ cap ∈ capMicros, 0 ≤ cap ∧ minimumMicros ≤ cap

open PlatformFeePolicy

def PlatformFeePolicy.new (feeBps : UInt16) (capMicros : Option Int64) (minimumMicros : Int64) :
    Except PlatformFeeError PlatformFeePolicy :=
  if hr : feeBps ≤ maxPlatformFeeBps then
    if hm : 0 ≤ minimumMicros then
      match capMicros with
      | none => .ok ⟨feeBps, none, minimumMicros, hr, hm, nofun⟩
      | some cap =>
        if hc : 0 ≤ cap then
          if hle : minimumMicros ≤ cap then
            .ok ⟨feeBps, some cap, minimumMicros, hr, hm, by
              rintro _ ⟨⟩
              exact ⟨hc, hle⟩⟩
          else .error .minimumExceedsCap
        else .error .negativeNotional
    else .error .negativeNotional
  else .error .rateTooHigh

open I64

def checked (v : Int) : Option Int := if minInt ≤ v ∧ v ≤ maxInt then some v else none

variable (policy : PlatformFeePolicy)

namespace PlatformFeePolicy

def bounded (fee : Int) : Int :=
  let fee := match policy.capMicros with
    | some cap => min fee cap.toInt
    | none => fee
  if fee < policy.minimumMicros.toInt then policy.minimumMicros.toInt else fee

variable (notionalMicros : Int64)

/-- The share, the largest word when a product overflows. -/
def raw : Int := (((checked (notionalMicros.toInt * policy.feeBps.toNat)).bind fun v =>
    checked (v + bpsDenominator / 2)).map (· / bpsDenominator)).getD maxInt

def computePlatformFee : Int :=
  if notionalMicros ≤ 0 ∨ policy.feeBps = 0 then 0 else policy.bounded (policy.raw notionalMicros)

def share (notional : Int) : Int := ⌊(notional * policy.feeBps.toNat : ℚ) / 10000 + 1 / 2⌋

def promised : Int :=
  if notionalMicros ≤ 0 ∨ policy.feeBps = 0 then 0
  else policy.bounded (policy.share notionalMicros.toInt)

/-- The product fits, or a cap takes over before it does not. -/
def Fits : Prop := notionalMicros.toInt * policy.feeBps.toNat + 5000 ≤ maxInt ∨
    ∃ cap ∈ policy.capMicros, cap.toInt ≤ maxInt / 10000

end PlatformFeePolicy

/-! ## The transfer on the chain -/

structure PlatformFeeConfig where
  vault : String
  bps : UInt64
  minFeeLamports : UInt64

inductive FeeSkipReason where
  | charged
  | disabled
  | dust

def computeFee (notionalLamports : UInt64) (cfg : PlatformFeeConfig) : UInt64 × FeeSkipReason :=
  if isBlank cfg.vault ∨ cfg.bps = 0 then (0, .disabled)
  else
    let product := notionalLamports.toNat * cfg.bps.toNat
    let quotient := product / 10000
    let remainder := product % 10000
    let fee := U64.clamp (if 10000 ≤ remainder * 2 then quotient + 1 else quotient)
    if fee < cfg.minFeeLamports then (0, .dust) else (fee, .charged)

/-! ## The share -/

namespace PlatformFeePolicy

variable {policy} {n : Int64}

theorem share_eq (notional : Int) :
    policy.share notional = (notional * policy.feeBps.toNat + 5000) / 10000 := by
  have hsu : (notional * policy.feeBps.toNat : ℚ) / 10000 + 1 / 2 =
      ((notional * policy.feeBps.toNat + 5000 : Int) : ℚ) / (10000 : ℕ) := by
    push_cast
    ring
  rw [share, hsu, Rat.floor_intCast_div_natCast]
  rfl

open Int

theorem raw_eq {notional : Int64} (hpos : 0 ≤ notional.toInt) : policy.raw notional =
    if notional.toInt * policy.feeBps.toNat + 5000 ≤ maxInt
    then policy.share notional.toInt else maxInt := by
  have hpr : 0 ≤ notional.toInt * policy.feeBps.toNat := mul_nonneg hpos (by omega)
  have hm : minInt ≤ 0 := by decide
  have hh : bpsDenominator / 2 = 5000 := rfl
  unfold raw checked
  rw [hh]
  by_cases hf : notional.toInt * policy.feeBps.toNat + 5000 ≤ maxInt
  · rw [if_pos hf, if_pos (by omega), Option.bind_some, if_pos (by omega), share_eq]
    rfl
  · rw [if_neg hf]
    by_cases hmu : notional.toInt * policy.feeBps.toNat ≤ maxInt
    · rw [if_pos (by omega), Option.bind_some, if_neg (by omega)]
      rfl
    · rw [if_neg (by omega)]
      rfl

theorem bounded_mono {f g : Int} (h : f ≤ g) : policy.bounded f ≤ policy.bounded g := by
  unfold bounded
  cases policy.capMicros <;> dsimp only <;> split <;> split <;> omega

open Int64

theorem bounded_nonneg (f : Int) : 0 ≤ policy.bounded f := by
  have hm : 0 ≤ policy.minimumMicros.toInt := le_iff_toInt_le.mp policy.minimum_nonneg
  unfold bounded
  dsimp only
  split <;> omega

theorem bounded_le (f : Int) : policy.bounded f ≤ max f policy.minimumMicros.toInt := by
  unfold bounded
  cases policy.capMicros <;> dsimp only <;> split <;> omega

theorem share_mono {n m : Int} (h : n ≤ m) : policy.share n ≤ policy.share m := by
  rw [share_eq, share_eq]
  have hpr : n * policy.feeBps.toNat ≤ m * policy.feeBps.toNat :=
    mul_le_mul_of_nonneg_right h (by omega)
  omega

theorem raw_mono {n m : Int64} (hn : 0 ≤ n.toInt) (h : n.toInt ≤ m.toInt) :
    policy.raw n ≤ policy.raw m := by
  have hpr : n.toInt * policy.feeBps.toNat ≤ m.toInt * policy.feeBps.toNat :=
    mul_le_mul_of_nonneg_right h (by omega)
  have hno : 0 ≤ n.toInt * policy.feeBps.toNat := mul_nonneg hn (by omega)
  have hsh := @share_mono policy _ _ h
  rw [raw_eq hn, raw_eq (hn.trans h)]
  split
  · next hf =>
    split
    · exact hsh
    · rw [share_eq]
      omega
  · next ho => rw [if_neg (by omega)]

theorem computePlatformFee_eq (h : policy.Fits n) :
    policy.computePlatformFee n = policy.promised n := by
  unfold computePlatformFee promised
  split
  · rfl
  · next hc =>
    have hpos : 0 ≤ n.toInt := by
      have hl := Int64.not_le.mp (not_or.mp hc).1
      exact (lt_iff_toInt_lt.mp hl).le
    rw [raw_eq hpos]
    split
    · rfl
    · next ho =>
      obtain ⟨cap, hca, hle⟩ := h.resolve_left ho
      -- both amounts are above the cap
      have hsh := @share_eq policy n.toInt
      unfold bounded
      rw [hca]
      dsimp only
      have hm : maxInt = 9223372036854775807 := by decide
      rw [min_eq_right (by omega), min_eq_right (by omega)]

theorem computePlatformFee_saturated (h : maxInt < n.toInt * policy.feeBps.toNat + 5000) :
    policy.computePlatformFee n = policy.bounded maxInt := by
  have hm : 5000 < maxInt := by decide
  have hpos : 0 < n.toInt := by
    by_contra hle
    have hpr := mul_nonpos_of_nonpos_of_nonneg (not_lt.mp hle) (natCast_nonneg policy.feeBps.toNat)
    omega
  have hc : ¬ (n ≤ 0 ∨ policy.feeBps = 0) := by
    rintro (hle | hz)
    · exact absurd (le_iff_toInt_le.mp hle) hpos.not_ge
    · rw [hz, UInt16.toNat_zero, Int.natCast_zero, Int.mul_zero] at h
      omega
  rw [computePlatformFee, if_neg hc, raw_eq hpos.le, if_neg h.not_ge]

theorem new_eq_ok {feeBps : UInt16} {capMicros : Option Int64} {minimumMicros : Int64}
    (h : new feeBps capMicros minimumMicros = .ok policy) :
    policy.feeBps = feeBps ∧ policy.capMicros = capMicros ∧
    policy.minimumMicros = minimumMicros := by
  unfold new at h
  split at h
  · split at h
    · split at h
      · obtain rfl := Except.ok.inj h
        exact ⟨rfl, rfl, rfl⟩
      · split at h
        · split at h
          · obtain rfl := Except.ok.inj h
            exact ⟨rfl, rfl, rfl⟩
          · cases h
        · cases h
    · cases h
  · cases h

theorem promised_le (hm : policy.minimumMicros = 0) (hn : 0 ≤ n) :
    100 * policy.promised n ≤ 5 * n.toInt + 100 := by
  have hn' : 0 ≤ n.toInt := le_iff_toInt_le.mp hn
  have hr : policy.feeBps.toNat ≤ 500 := UInt16.le_iff_toNat_le.mp policy.feeBps_le
  have hpr : n.toInt * policy.feeBps.toNat ≤ n.toInt * 500 :=
    mul_le_mul_of_nonneg_left (by omega) hn'
  have hsh := @share_eq policy n.toInt
  have hbo := @bounded_le policy (policy.share n.toInt)
  rw [hm, toInt_zero] at hbo
  unfold promised
  split <;> omega

theorem computeFee_eq {lamports : UInt64} {cfg : PlatformFeeConfig} {notional : Int}
    (hl : (lamports.toNat : Int) = notional) (hv : isBlank cfg.vault = false)
    (hbp : cfg.bps.toNat = policy.feeBps.toNat) (hd : cfg.minFeeLamports = 0)
    (hch : policy.feeBps ≠ 0) :
    ((computeFee lamports cfg).1.toNat : Int) = policy.share notional := by
  have hr : policy.feeBps.toNat ≤ 500 := UInt16.le_iff_toNat_le.mp policy.feeBps_le
  have hc' : cfg.bps ≠ 0 := by
    rintro hz
    rw [hz] at hbp
    exact hch (UInt16.toNat_inj.mp hbp.symm)
  have hpr : lamports.toNat * policy.feeBps.toNat ≤ lamports.toNat * 500 := Nat.mul_le_mul_left _ hr
  have hm := U64.toNat_le_max lamports
  have hc : (lamports.toNat * policy.feeBps.toNat : ℕ) = notional * policy.feeBps.toNat := by
    rw [← hl, natCast_mul]
  rw [share_eq, ← hc]
  unfold computeFee
  rw [if_neg (by simp [hv, hc']), hbp, hd]
  simp only [UInt64.not_lt_zero, if_false, U64.toNat_clamp]
  split <;> omega

end PlatformFeePolicy

open PlatformFeePolicy

/-- The fee is the promised share as long as the product fits, saturates beyond that, and never
falls as the notional rises. Where it fits and there is no minimum it is at most five per cent and
one millionth, and without a cap and a dust threshold it is what the transfer on the chain moves. -/
theorem fee_is_promised_share (feeBps : UInt16) (capMicros : Option Int64)
    (minimumMicros : Int64) (policy : PlatformFeePolicy)
    (hnew : PlatformFeePolicy.new feeBps capMicros minimumMicros = .ok policy) :
    (∀ n m : Int64, n ≤ m → policy.computePlatformFee n ≤ policy.computePlatformFee m) ∧
    (∀ n, policy.Fits n → policy.computePlatformFee n = policy.promised n) ∧
    (∀ n, I64.maxInt < n.toInt * feeBps.toNat + 5000 →
      policy.computePlatformFee n = policy.bounded I64.maxInt) ∧
    (∀ n, policy.Fits n → 0 ≤ n → minimumMicros = 0 →
      100 * policy.computePlatformFee n ≤ 5 * n.toInt + 100) ∧
    (∀ n lamports cfg, policy.Fits n → (lamports.toNat : Int) = n.toInt →
      capMicros = none → minimumMicros = 0 → isBlank cfg.vault = false →
      cfg.bps.toNat = feeBps.toNat → cfg.minFeeLamports = 0 →
      ((computeFee lamports cfg).1.toNat : Int) = policy.computePlatformFee n) := by
  obtain ⟨rfl, rfl, rfl⟩ := new_eq_ok hnew
  refine ⟨?_, fun n => computePlatformFee_eq, fun n => computePlatformFee_saturated, ?_, ?_⟩
  · intro n m hle
    have hl' : n.toInt ≤ m.toInt := Int64.le_iff_toInt_le.mp hle
    unfold computePlatformFee
    split
    · split
      · exact le_refl 0
      · exact bounded_nonneg _
    · next hc =>
      obtain ⟨hpos, hr⟩ := not_or.mp hc
      have hp' : 0 < n.toInt := Int64.lt_iff_toInt_lt.mp (Int64.not_le.mp hpos)
      have hm : ¬ (m ≤ 0 ∨ policy.feeBps = 0) := by
        refine not_or.mpr ⟨?_, hr⟩
        rw [Int64.le_iff_toInt_le, Int64.toInt_zero]
        omega
      rw [if_neg hm]
      exact bounded_mono (raw_mono hp'.le hl')
  · intro n hf hn hmi
    rw [computePlatformFee_eq hf]
    exact promised_le hmi hn
  · intro n lamports cfg hf hl hca hmi hv hbp hd
    rw [computePlatformFee_eq hf]
    unfold promised bounded
    rw [hca, hmi, Int64.toInt_zero]
    by_cases hr : policy.feeBps = 0
    · have hz : cfg.bps = 0 := UInt64.toNat_inj.mp (hbp.trans (congrArg UInt16.toNat hr))
      rw [if_pos (.inr hr), computeFee, if_pos (.inr hz)]
      rfl
    · have hsh := @share_eq policy n.toInt
      have hpr : 0 ≤ n.toInt * policy.feeBps.toNat := Int.mul_nonneg (by omega) (by omega)
      rw [computeFee_eq hl hv hbp hd hr]
      split
      · next hno =>
        have hz : n.toInt = 0 := by
          have hle := Int64.le_iff_toInt_le.mp (hno.resolve_right hr)
          rw [Int64.toInt_zero] at hle
          omega
        rw [hsh, hz, Int.zero_mul]
        rfl
      · dsimp only
        rw [if_neg (by omega)]

/-- Half a per cent of a hundred and one. -/
theorem fee_is_promised_share_half :
    ∃ policy, PlatformFeePolicy.new 50 none 0 = .ok policy ∧ policy.Fits 101 ∧
      policy.computePlatformFee 101 = 1 ∧ policy.computePlatformFee 101 = policy.promised 101 := by
  have hn : PlatformFeePolicy.new 50 none 0 = .ok ⟨50, none, 0, by decide, by decide, nofun⟩ := rfl
  have hf : PlatformFeePolicy.Fits ⟨50, none, 0, by decide, by decide, nofun⟩ 101 :=
    .inl (by decide)
  exact ⟨_, hn, hf, by decide +kernel, (fee_is_promised_share 50 none 0 _ hn).2.1 101 hf⟩

/-- A product that overflows is charged the largest word, five hundred times the notional. -/
theorem overflowing_fee_exceeds_notional : ∃ policy, PlatformFeePolicy.new 500 none 0 = .ok policy ∧
      policy.computePlatformFee 18446744073709552 = 9223372036854775807 ∧
      (computeFee 18446744073709552 ⟨"vault", 500, 0⟩).1 = 922337203685478 :=
  ⟨⟨500, none, 0, by decide, by decide, nofun⟩, rfl, by decide +kernel, by decide +kernel⟩

end SniperBot.Billing.PlatformFee
