import SniperBot.Lib.Rounding
import SniperBot.Venues.Quoting

/-!
# Quotes of the constant-product pools

The swap arithmetic of the program as the bot repeats it: the exact-input quote takes its
fees off the input, or the creator's off the output, and the exact-output quote grosses up
in the same places.
-/

namespace SniperBot.Venues.Cpmm

open Lib.Guard Lib.MachineInt Lib.Rounding U128 Except

def feeRateDenominator : ℕ := 1000000

def ceilDiv (amount numerator denominator : ℕ) : BotResult ℕ := do
  ensure (denominator ≠ 0) (.solana "CPMM fee denominator is zero")
  okOr ((checkedMul amount numerator).bind (ceilQuotient · denominator))
    (.solana "CPMM ceiling division overflow")

def floorDiv (amount numerator denominator : ℕ) : BotResult ℕ := do
  ensure (denominator ≠ 0) (.solana "CPMM fee denominator is zero")
  okOr ((checkedMul amount numerator).map (· / denominator))
    (.solana "CPMM floor division overflow")

def checkedCeilDiv (amount denominator : ℕ) : BotResult ℕ := do
  ensure (denominator ≠ 0) (.solana "CPMM division denominator is zero")
  let quotient := amount / denominator
  let remainder := amount % denominator
  if remainder ≠ 0 then
    okOr (checkedAdd quotient 1) (.solana "CPMM ceiling division overflow")
  else pure quotient

variable (amount : ℕ) (tradeFeeRate : UInt64)

def tradingFee : BotResult ℕ := ceilDiv amount tradeFeeRate.toNat feeRateDenominator

def protocolFee (protocolFeeRate : UInt64) : BotResult ℕ :=
  floorDiv amount protocolFeeRate.toNat feeRateDenominator

def fundFee (fundFeeRate : UInt64) : BotResult ℕ :=
  floorDiv amount fundFeeRate.toNat feeRateDenominator

def creatorFee (creatorFeeRate : UInt64) : BotResult ℕ :=
  ceilDiv amount creatorFeeRate.toNat feeRateDenominator

/-- The creator's part of a fee that was taken for both. -/
def splitCreatorFee (totalFee : ℕ) (tradeFeeRate creatorFeeRate : UInt64) : BotResult ℕ := do
  let denominator ← okOr (U64.checkedAdd tradeFeeRate creatorFeeRate)
    (.solana "CPMM fee rate overflow")
  floorDiv totalFee creatorFeeRate.toNat denominator.toNat

def calculatePreFeeAmount (postFeeAmount : ℕ) (feeRate : UInt64) : BotResult ℕ :=
  if feeRate = 0 then pure postFeeAmount
  else do
    let numerator ← okOr (checkedMul postFeeAmount feeRateDenominator)
      (.solana "CPMM pre-fee amount overflow")
    let denominator ← okOr (checkedSub feeRateDenominator feeRate.toNat)
      (.solana "CPMM pre-fee amount overflow")
    ensure (denominator ≠ 0)
      (.solana "CPMM fee rate equals the denominator — the pre-fee amount is undefined")
    okOr (ceilQuotient numerator denominator) (.solana "CPMM pre-fee amount overflow")

def swapBaseInputWithoutFees (inputAmount inputVaultAmount outputVaultAmount : ℕ) :
    BotResult ℕ := do
  let numerator ← okOr (checkedMul inputAmount outputVaultAmount)
    (.solana "CPMM constant-product numerator overflow")
  let denominator ← okOr (checkedAdd inputVaultAmount inputAmount)
    (.solana "CPMM constant-product denominator overflow")
  ensure (denominator ≠ 0) (.solana "CPMM constant-product denominator is zero")
  pure (numerator / denominator)

def swapBaseOutputWithoutFees (outputAmount inputVaultAmount outputVaultAmount : ℕ) :
    BotResult ℕ := do
  let numerator ← okOr (checkedMul inputVaultAmount outputAmount)
    (.solana "CPMM constant-product numerator overflow")
  let denominator ← okOr (checkedSub outputVaultAmount outputAmount)
    (.solana "CPMM output amount exceeds the reserve")
  checkedCeilDiv numerator denominator

structure SwapResult where
  /-- The vaults after the swap, without the trade fees. -/
  newInputVaultAmount : ℕ
  newOutputVaultAmount : ℕ
  inputAmount : ℕ
  outputAmount : ℕ
  tradeFee : ℕ
  protocolFee : ℕ
  fundFee : ℕ
  creatorFee : ℕ
  deriving DecidableEq

structure FeeRates where
  tradeFeeRate : UInt64
  creatorFeeRate : UInt64
  protocolFeeRate : UInt64
  fundFeeRate : UInt64
  /-- The creator's fee is taken from the input, not from the output. -/
  creatorFeeOnInput : Bool

open FeeRates

def FeeRates.total (fees : FeeRates) : BotResult UInt64 :=
  okOr (U64.checkedAdd fees.tradeFeeRate fees.creatorFeeRate) (.solana "CPMM fee rate overflow")

/-- The trade fee, the creator's fee and what is left of the input. -/
def inputLessFees (inputAmount : ℕ) (fees : FeeRates) : BotResult (ℕ × ℕ × ℕ) :=
  if fees.creatorFeeOnInput then do
    let rate ← fees.total
    let totalFee ← tradingFee inputAmount rate
    let creatorFee ← splitCreatorFee totalFee fees.tradeFeeRate fees.creatorFeeRate
    let tradeFee ← okOr (checkedSub totalFee creatorFee) (.solana "CPMM trade fee underflow")
    let lessFees ← okOr (checkedSub inputAmount totalFee)
      (.solana "CPMM input amount is below the total fee")
    pure (tradeFee, creatorFee, lessFees)
  else do
    let tradeFee ← tradingFee inputAmount fees.tradeFeeRate
    let lessFees ← okOr (checkedSub inputAmount tradeFee)
      (.solana "CPMM input amount is below the trade fee")
    pure (tradeFee, 0, lessFees)

def outputLessFees (swapped inputCreatorFee : ℕ) (fees : FeeRates) : BotResult (ℕ × ℕ) :=
  if fees.creatorFeeOnInput then pure (inputCreatorFee, swapped)
  else do
    let creatorFee ← creatorFee swapped fees.creatorFeeRate
    let output ← okOr (checkedSub swapped creatorFee)
      (.solana "CPMM creator fee exceeds the output amount")
    pure (creatorFee, output)

def swapBaseInput (inputAmount inputVaultAmount outputVaultAmount : ℕ) (fees : FeeRates) :
    BotResult SwapResult := do
  let (tradeFee, inputCreatorFee, lessFees) ← inputLessFees inputAmount fees
  let protocolFee ← protocolFee tradeFee fees.protocolFeeRate
  let fundFee ← fundFee tradeFee fees.fundFeeRate
  let swapped ← swapBaseInputWithoutFees lessFees inputVaultAmount outputVaultAmount
  let (creatorFee, outputAmount) ← outputLessFees swapped inputCreatorFee fees
  let newInputVaultAmount ← okOr (checkedAdd inputVaultAmount lessFees)
    (.solana "CPMM input vault amount overflow")
  let newOutputVaultAmount ← okOr (checkedSub outputVaultAmount swapped)
    (.solana "CPMM output vault amount underflow")
  pure { newInputVaultAmount, newOutputVaultAmount, inputAmount, outputAmount, tradeFee,
         protocolFee, fundFee, creatorFee }

/-- The creator's fee and what has to leave the vault so that the user gets `outputAmount`. -/
def outputWithFees (outputAmount : ℕ) (fees : FeeRates) : BotResult (ℕ × ℕ) :=
  if fees.creatorFeeOnInput then pure (0, outputAmount)
  else do
    let withFee ← calculatePreFeeAmount outputAmount fees.creatorFeeRate
    let creatorFee ← okOr (checkedSub withFee outputAmount) (.solana "CPMM creator fee underflow")
    pure (creatorFee, withFee)

/-- The trade fee, the creator's fee and what the user pays so that `swapped` is swapped. -/
def inputWithFees (swapped outputCreatorFee : ℕ) (fees : FeeRates) : BotResult (ℕ × ℕ × ℕ) :=
  if fees.creatorFeeOnInput then do
    let rate ← fees.total
    let withFee ← calculatePreFeeAmount swapped rate
    let totalFee ← okOr (checkedSub withFee swapped) (.solana "CPMM total fee underflow")
    let creatorFee ← splitCreatorFee totalFee fees.tradeFeeRate fees.creatorFeeRate
    let tradeFee ← okOr (checkedSub totalFee creatorFee) (.solana "CPMM trade fee underflow")
    pure (tradeFee, creatorFee, withFee)
  else do
    let withFee ← calculatePreFeeAmount swapped fees.tradeFeeRate
    let tradeFee ← okOr (checkedSub withFee swapped) (.solana "CPMM trade fee underflow")
    pure (tradeFee, outputCreatorFee, withFee)

def swapBaseOutput (outputAmount inputVaultAmount outputVaultAmount : ℕ) (fees : FeeRates) :
    BotResult SwapResult := do
  let (outputCreatorFee, actualOutput) ← outputWithFees outputAmount fees
  let swapped ← swapBaseOutputWithoutFees actualOutput inputVaultAmount outputVaultAmount
  let (tradeFee, creatorFee, inputAmount) ← inputWithFees swapped outputCreatorFee fees
  let protocolFee ← protocolFee tradeFee fees.protocolFeeRate
  let fundFee ← fundFee tradeFee fees.fundFeeRate
  let newInputVaultAmount ← okOr (checkedAdd inputVaultAmount swapped)
    (.solana "CPMM input vault amount overflow")
  let newOutputVaultAmount ← okOr (checkedSub outputVaultAmount actualOutput)
    (.solana "CPMM output vault amount underflow")
  pure { newInputVaultAmount, newOutputVaultAmount, inputAmount, outputAmount, tradeFee,
         protocolFee, fundFee, creatorFee }

/-! ## What the quotes come to -/

theorem ceilDiv_eq_ok {amount numerator denominator v : ℕ}
    (h : ceilDiv amount numerator denominator = .ok v) :
    v = (amount * numerator) ⌈/⌉ denominator := by
  obtain ⟨-, h⟩ := ensure_bind_eq_ok.mp h
  obtain ⟨product, hpr, hq⟩ := Option.bind_eq_some_iff.mp (okOr_eq_ok.mp h)
  obtain ⟨-, rfl⟩ := checkedMul_eq_some.mp hpr
  exact ceilQuotient_eq_some hq

theorem checkedCeilDiv_eq_ok {amount denominator v : ℕ}
    (h : checkedCeilDiv amount denominator = .ok v) :
    0 < denominator ∧ v = amount ⌈/⌉ denominator := by
  obtain ⟨hn, h⟩ := ensure_bind_eq_ok.mp h
  have hpos : 0 < denominator := Nat.pos_of_ne_zero hn
  refine ⟨hpos, ?_⟩
  dsimp only at h
  split at h
  · next hr =>
    obtain ⟨-, rfl⟩ := checkedAdd_eq_some.mp (okOr_eq_ok.mp h)
    exact div_add_one_eq_ceilDiv hpos (Nat.pos_of_ne_zero hr)
  · next hr =>
    obtain rfl := ok.inj h
    exact div_eq_ceilDiv hpos (not_not.mp hr)

theorem calculatePreFeeAmount_eq_ok {amount v : ℕ} {rate : UInt64}
    (h : calculatePreFeeAmount amount rate = .ok v) :
    rate.toNat < feeRateDenominator ∧ v = gross feeRateDenominator rate.toNat amount := by
  unfold calculatePreFeeAmount at h
  split at h
  · next hz =>
    subst hz
    obtain rfl := ok.inj h
    exact ⟨by decide, (gross_zero (by decide) _).symm⟩
  · obtain ⟨numerator, hn, h⟩ := bind_eq_ok.mp h
    obtain ⟨hle, h⟩ := sub_bind_eq_ok.mp h
    obtain ⟨hne, h⟩ := ensure_bind_eq_ok.mp h
    obtain ⟨-, rfl⟩ := checkedMul_eq_some.mp (okOr_eq_ok.mp hn)
    exact ⟨by omega, ceilQuotient_eq_some (okOr_eq_ok.mp h)⟩

theorem swapBaseInputWithoutFees_eq_ok {a x y v : ℕ}
    (h : swapBaseInputWithoutFees a x y = .ok v) : 0 < x + a ∧ v = bought x y a := by
  obtain ⟨-, h⟩ := mul_bind_eq_ok.mp h
  obtain ⟨-, h⟩ := add_bind_eq_ok.mp h
  obtain ⟨hn, h⟩ := ensure_bind_eq_ok.mp h
  obtain rfl := ok.inj h
  exact ⟨Nat.pos_of_ne_zero hn, rfl⟩

theorem swapBaseOutputWithoutFees_eq_ok {b x y v : ℕ}
    (h : swapBaseOutputWithoutFees b x y = .ok v) : b < y ∧ v = asked x y b := by
  obtain ⟨-, h⟩ := mul_bind_eq_ok.mp h
  obtain ⟨hle, h⟩ := sub_bind_eq_ok.mp h
  obtain ⟨hpos, rfl⟩ := checkedCeilDiv_eq_ok h
  exact ⟨by omega, rfl⟩

namespace FeeRates

variable (fees : FeeRates)

def inputRate : ℕ :=
  if fees.creatorFeeOnInput then fees.tradeFeeRate.toNat + fees.creatorFeeRate.toNat
  else fees.tradeFeeRate.toNat

def outputRate : ℕ := if fees.creatorFeeOnInput then 0 else fees.creatorFeeRate.toNat

variable {fees}

theorem total_eq_ok {rate : UInt64} (h : fees.total = .ok rate) (hsi : fees.creatorFeeOnInput) :
    rate.toNat = fees.inputRate := by
  rw [inputRate, if_pos hsi]
  exact U64.checkedAdd_eq_some.mp (okOr_eq_ok.mp h)

end FeeRates

section

variable {fees : FeeRates} {a s c t v : ℕ}

theorem inputLessFees_eq_ok (h : inputLessFees a fees = .ok (t, c, v)) :
    v = net feeRateDenominator fees.inputRate a ∧ a = v + (t + c) ∧
    (fees.creatorFeeOnInput = false → c = 0) := by
  unfold inputLessFees at h
  split at h
  · next hsi =>
    obtain ⟨rate, hr, h⟩ := bind_eq_ok.mp h
    obtain ⟨totalFee, hto, h⟩ := bind_eq_ok.mp h
    obtain ⟨creator, -, h⟩ := bind_eq_ok.mp h
    obtain ⟨hsp, h⟩ := sub_bind_eq_ok.mp h
    obtain ⟨hle, h⟩ := sub_bind_eq_ok.mp h
    cases h
    refine ⟨?_, by omega, fun ho => absurd (hsi.symm.trans ho) (by decide)⟩
    rw [ceilDiv_eq_ok hto, total_eq_ok hr hsi]
    rfl
  · next hsi =>
    obtain ⟨tradeFee, htrade, h⟩ := bind_eq_ok.mp h
    obtain ⟨hle, h⟩ := sub_bind_eq_ok.mp h
    cases h
    refine ⟨?_, by omega, fun _ => rfl⟩
    rw [ceilDiv_eq_ok htrade, inputRate, if_neg hsi]
    rfl

theorem outputLessFees_eq_ok (h : outputLessFees s t fees = .ok (c, v)) :
    v = net feeRateDenominator fees.outputRate s ∧
    if fees.creatorFeeOnInput then s = v ∧ c = t else s = v + c := by
  unfold outputLessFees at h
  split at h
  · next hsi =>
    cases h
    rw [outputRate, if_pos hsi, if_pos hsi, net_zero]
    exact ⟨rfl, rfl, rfl⟩
  · next hsi =>
    obtain ⟨fee, hf, h⟩ := bind_eq_ok.mp h
    obtain ⟨hle, h⟩ := sub_bind_eq_ok.mp h
    cases h
    rw [if_neg hsi]
    refine ⟨?_, by omega⟩
    rw [ceilDiv_eq_ok hf, outputRate, if_neg hsi]
    rfl

theorem outputWithFees_eq_ok (h : outputWithFees a fees = .ok (c, v)) :
    (fees.outputRate < feeRateDenominator ∧
    v = gross feeRateDenominator fees.outputRate a) ∧ v = a + c ∧
    (fees.creatorFeeOnInput = true → c = 0) := by
  unfold outputWithFees at h
  split at h
  · next hsi =>
    cases h
    rw [outputRate, if_pos hsi]
    exact ⟨⟨by decide, (gross_zero (by decide) _).symm⟩, rfl, fun _ => rfl⟩
  · next hsi =>
    obtain ⟨withFee, hw, h⟩ := bind_eq_ok.mp h
    obtain ⟨hle, h⟩ := sub_bind_eq_ok.mp h
    cases h
    rw [outputRate, if_neg hsi]
    exact ⟨calculatePreFeeAmount_eq_ok hw, by omega, fun ho => absurd ho hsi⟩

theorem inputWithFees_eq_ok (h : inputWithFees s a fees = .ok (t, c, v)) :
    (fees.inputRate < feeRateDenominator ∧ v = gross feeRateDenominator fees.inputRate s) ∧
    if fees.creatorFeeOnInput then v = s + (t + c) else v = s + t ∧ c = a := by
  unfold inputWithFees at h
  split at h
  · next hsi =>
    obtain ⟨rate, hr, h⟩ := bind_eq_ok.mp h
    obtain ⟨withFee, hw, h⟩ := bind_eq_ok.mp h
    obtain ⟨hle, h⟩ := sub_bind_eq_ok.mp h
    obtain ⟨creator, -, h⟩ := bind_eq_ok.mp h
    obtain ⟨hsp, h⟩ := sub_bind_eq_ok.mp h
    cases h
    rw [← total_eq_ok hr hsi, if_pos hsi]
    exact ⟨calculatePreFeeAmount_eq_ok hw, by omega⟩
  · next hsi =>
    obtain ⟨withFee, hw, h⟩ := bind_eq_ok.mp h
    obtain ⟨hle, h⟩ := sub_bind_eq_ok.mp h
    cases h
    rw [inputRate, if_neg hsi, if_neg hsi]
    exact ⟨calculatePreFeeAmount_eq_ok hw, by omega, rfl⟩

end

/-! ## What is paid and what is given -/

/-- Of what the user pays, `reaching` goes to the curve and `total` is taken in fees; of what
the curve gives, `leaving`, the user gets what the creator does not take from it. -/
structure Conserves (x y : ℕ) (fees : FeeRates) (r : SwapResult) (reaching leaving total : ℕ) :
    Prop where
  input : r.inputAmount = reaching + total
  shares : total = r.tradeFee + if fees.creatorFeeOnInput then r.creatorFee else 0
  output : leaving = r.outputAmount + if fees.creatorFeeOnInput then 0 else r.creatorFee
  newInput : r.newInputVaultAmount = x + reaching
  newOutput : r.newOutputVaultAmount + leaving = y
  product : x * y ≤ r.newInputVaultAmount * r.newOutputVaultAmount

section

variable {fees : FeeRates} {a o x y : ℕ} {r : SwapResult}

theorem swapBaseInput_eq_ok (h : swapBaseInput a x y fees = .ok r) :
    (0 < x + net feeRateDenominator fees.inputRate a ∧
    r.outputAmount = net feeRateDenominator fees.outputRate
      (bought x y (net feeRateDenominator fees.inputRate a))) ∧
    ∃ leaving total,
    Conserves x y fees r (net feeRateDenominator fees.inputRate a) leaving total := by
  obtain ⟨⟨tradeFee, inputCreatorFee, less⟩, hl, h⟩ := bind_eq_ok.mp h
  obtain ⟨_, -, h⟩ := bind_eq_ok.mp h
  obtain ⟨_, -, h⟩ := bind_eq_ok.mp h
  obtain ⟨swapped, hsw, h⟩ := bind_eq_ok.mp h
  obtain ⟨⟨fee, output⟩, ho, h⟩ := bind_eq_ok.mp h
  obtain ⟨-, h⟩ := add_bind_eq_ok.mp h
  obtain ⟨hle, h⟩ := sub_bind_eq_ok.mp h
  cases h
  obtain ⟨hpos, rfl⟩ := swapBaseInputWithoutFees_eq_ok hsw
  obtain ⟨rfl, hi, hof⟩ := inputLessFees_eq_ok hl
  obtain ⟨hnet, hsp⟩ := outputLessFees_eq_ok ho
  refine ⟨⟨hpos, hnet⟩, _, tradeFee + inputCreatorFee, hi, ?_, ?_, rfl, Nat.sub_add_cancel hle,
    product_le_of_bought⟩
  · cases hsi : fees.creatorFeeOnInput with
    | true =>
      rw [if_pos hsi] at hsp
      rw [if_pos rfl, hsp.2]
    | false => rw [hof hsi, if_neg Bool.false_ne_true]
  · split at hsp
    · next hsi => rw [if_pos hsi, hsp.1, Nat.add_zero]
    · next hsi => rw [if_neg hsi, hsp]

theorem swapBaseOutput_eq_ok (h : swapBaseOutput o x y fees = .ok r) :
    (fees.inputRate < feeRateDenominator ∧ fees.outputRate < feeRateDenominator ∧
    gross feeRateDenominator fees.outputRate o < y ∧
    r.inputAmount = gross feeRateDenominator fees.inputRate
      (asked x y (gross feeRateDenominator fees.outputRate o))) ∧
    ∃ reaching leaving total, Conserves x y fees r reaching leaving total := by
  obtain ⟨⟨outputCreatorFee, actual⟩, ha, h⟩ := bind_eq_ok.mp h
  obtain ⟨swapped, hsw, h⟩ := bind_eq_ok.mp h
  obtain ⟨⟨tradeFee, fee, input⟩, hi, h⟩ := bind_eq_ok.mp h
  obtain ⟨_, -, h⟩ := bind_eq_ok.mp h
  obtain ⟨_, -, h⟩ := bind_eq_ok.mp h
  obtain ⟨-, h⟩ := add_bind_eq_ok.mp h
  obtain ⟨hle, h⟩ := sub_bind_eq_ok.mp h
  cases h
  obtain ⟨⟨hou, rfl⟩, ho, hon⟩ := outputWithFees_eq_ok ha
  obtain ⟨hl, rfl⟩ := swapBaseOutputWithoutFees_eq_ok hsw
  obtain ⟨⟨hin, hpa⟩, hsp⟩ := inputWithFees_eq_ok hi
  refine ⟨⟨hin, hou, hl, hpa⟩, _, _, tradeFee +
    (if fees.creatorFeeOnInput then fee else 0), ?_, rfl, ?_, rfl, Nat.sub_add_cancel hle,
    product_le_of_asked hl⟩
  · split at hsp
    · next hsi => rw [if_pos hsi, hsp]
    · next hsi => rw [if_neg hsi, Nat.add_zero, hsp.1]
  · split at hsp
    · next hsi => rw [if_pos hsi, ho, hon hsi]
    · next hsi => rw [if_neg hsi, ho, hsp.2]

/-- The exact-output quote asks for the least input that buys the output: an exact-input
quote gives at least as much exactly from that input on. -/
theorem exact_out_least_input {o a x y : ℕ} {fees : FeeRates} {quoted given : SwapResult}
    (hquoted : swapBaseOutput o x y fees = .ok quoted)
    (hgiven : swapBaseInput a x y fees = .ok given) :
    o ≤ given.outputAmount ↔ quoted.inputAmount ≤ a := by
  obtain ⟨⟨hi, ho, hl, ha⟩, -⟩ := swapBaseOutput_eq_ok hquoted
  obtain ⟨⟨hpos, hbo⟩, -⟩ := swapBaseInput_eq_ok hgiven
  rw [hbo, ha, le_net_iff ho, le_bought_iff hl hpos, le_net_iff hi]

theorem exact_out_least_input_hundred :
    swapBaseOutput 100 1000000 2000000 ⟨2500, 1000, 120000, 40000, false⟩ =
        .ok ⟨1000051, 1999899, 52, 100, 1, 0, 0, 1⟩ ∧
      swapBaseInput 52 1000000 2000000 ⟨2500, 1000, 120000, 40000, false⟩ =
        .ok ⟨1000051, 1999899, 52, 100, 1, 0, 0, 1⟩ ∧
      ∀ a given, swapBaseInput a 1000000 2000000 ⟨2500, 1000, 120000, 40000, false⟩ = .ok given →
        (100 ≤ given.outputAmount ↔ 52 ≤ a) := by
  have hq : swapBaseOutput 100 1000000 2000000 ⟨2500, 1000, 120000, 40000, false⟩ =
      .ok ⟨1000051, 1999899, 52, 100, 1, 0, 0, 1⟩ := by decide +kernel
  exact ⟨hq, by decide +kernel, fun _ _ hg => exact_out_least_input hq hg⟩

/-- Whatever the user pays goes to the curve or into the fees, whatever the curve gives goes
to the user or to the creator, and the product of the reserves does not fall. -/
theorem quotes_conserve (h : swapBaseInput a x y fees = .ok r ∨ swapBaseOutput a x y fees = .ok r) :
    ∃ reaching leaving total, Conserves x y fees r reaching leaving total := by
  rcases h with h | h
  · exact ⟨_, (swapBaseInput_eq_ok h).2⟩
  · exact (swapBaseOutput_eq_ok h).2

theorem quotes_conserve_hundred : swapBaseInput 1000 5000 7000 ⟨2500, 1000, 120000, 40000, true⟩ =
        .ok ⟨5996, 5838, 1000, 1162, 3, 0, 0, 1⟩ ∧
      ∃ reaching leaving total, Conserves 5000 7000 ⟨2500, 1000, 120000, 40000, true⟩
        ⟨5996, 5838, 1000, 1162, 3, 0, 0, 1⟩ reaching leaving total := by
  have hq : swapBaseInput 1000 5000 7000 ⟨2500, 1000, 120000, 40000, true⟩ =
      .ok ⟨5996, 5838, 1000, 1162, 3, 0, 0, 1⟩ := by decide +kernel
  exact ⟨hq, quotes_conserve (.inl hq)⟩

/-! ## No fee for the creator -/

/-- The same rates, with the creator's fee on the input or on the output. -/
def FeeRates.side (fees : FeeRates) (onInput : Bool) : FeeRates :=
  { fees with creatorFeeOnInput := onInput }

section

theorem ok_bind {α β : Type} (a : α) (f : α → BotResult β) : (ok a >>= f) = f a := rfl

variable (hcreator : fees.creatorFeeRate = 0) (htrade : fees.tradeFeeRate ≠ 0)

include hcreator

theorem total_of_no_creator (b : Bool) : (fees.side b).total = .ok fees.tradeFeeRate := by
  refine okOr_eq_ok.mpr (U64.checkedAdd_eq_some.mpr ?_)
  show fees.tradeFeeRate.toNat = fees.tradeFeeRate.toNat + fees.creatorFeeRate.toNat
  rw [hcreator]
  rfl

theorem outputLessFees_of_no_creator (s : ℕ) :
    outputLessFees s 0 (fees.side true) = outputLessFees s 0 (fees.side false) := by
  have hn : creatorFee s fees.creatorFeeRate = .ok 0 := by
    rw [hcreator]
    refine ensure_bind_eq_ok.mpr ⟨by decide, okOr_eq_ok.mpr ?_⟩
    exact Option.bind_eq_some_iff.mpr ⟨0, checkedMul_eq_some.mpr ⟨by simp, rfl⟩, by decide +kernel⟩
  simp [outputLessFees, side, hn, okOr, checkedSub, bind, Except.bind]

theorem outputWithFees_of_no_creator (o : ℕ) :
    outputWithFees o (fees.side true) = outputWithFees o (fees.side false) := by
  simp [outputWithFees, side, hcreator, calculatePreFeeAmount, okOr, checkedSub, bind,
    Except.bind, pure, Except.pure]

include htrade

theorem splitCreatorFee_of_no_creator (total : ℕ) :
    splitCreatorFee total fees.tradeFeeRate fees.creatorFeeRate = .ok 0 := by
  have hsu : okOr (U64.checkedAdd fees.tradeFeeRate fees.creatorFeeRate)
      (Failure.solana "CPMM fee rate overflow") = .ok fees.tradeFeeRate :=
    total_of_no_creator hcreator false
  have hn : fees.tradeFeeRate.toNat ≠ 0 := fun h => htrade (UInt64.toNat_inj.mp h)
  rw [splitCreatorFee, hsu, hcreator]
  simp [floorDiv, hn, ensure, checkedMul, okOr, bind, Except.bind]

theorem inputLessFees_of_no_creator (hr : fees.tradeFeeRate.toNat ≤ feeRateDenominator) (a : ℕ) :
    inputLessFees a (fees.side true) = inputLessFees a (fees.side false) := by
  have hsp := splitCreatorFee_of_no_creator hcreator htrade
  rw [inputLessFees, inputLessFees, total_of_no_creator hcreator]
  cases hf : tradingFee a fees.tradeFeeRate with
  | error e => simp [side, hf, bind, Except.bind]
  | ok fee =>
    have hle : fee ≤ a := by
      rw [ceilDiv_eq_ok hf, ceilDiv_le_iff_le_mul (by decide), Nat.mul_comm]
      exact Nat.mul_le_mul_right a hr
    simp [side, hf, hsp, hle, okOr, checkedSub, bind, Except.bind]

theorem inputWithFees_of_no_creator (s : ℕ) :
    inputWithFees s 0 (fees.side true) = inputWithFees s 0 (fees.side false) := by
  have hsp := splitCreatorFee_of_no_creator hcreator htrade
  rw [inputWithFees, inputWithFees, total_of_no_creator hcreator]
  cases hpr : calculatePreFeeAmount s fees.tradeFeeRate with
  | error e => simp [side, hpr, bind, Except.bind]
  | ok paid =>
    obtain ⟨hr, hpa⟩ := calculatePreFeeAmount_eq_ok hpr
    have hle : s ≤ paid := ((le_net_iff hr).mpr hpa.ge).trans (Nat.sub_le _ _)
    simp [side, hpr, hsp, hle, okOr, checkedSub, bind, Except.bind]

end

end

end SniperBot.Venues.Cpmm
