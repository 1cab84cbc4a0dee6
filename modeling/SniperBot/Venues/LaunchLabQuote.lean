import SniperBot.Venues.LaunchLabCurve

/-!
# Quotes of the launch pools

The adapter puts the fees around the curve: a buy pays them on its input, a sell on its
output. A quote for an exact output delivers that output when it is taken.
-/

namespace SniperBot.Venues.LaunchLab

open Lib.Guard Lib.MachineInt Lib.Rounding ConstantProductCurve LinearPriceCurve FixedPriceCurve

def feeRateDenominator : ℕ := 1000000

structure PoolState where
  virtualBase : UInt64
  virtualQuote : UInt64
  realBase : UInt64
  realQuote : UInt64
  deriving DecidableEq

structure GlobalConfig where
  curveType : UInt8
  tradeFeeRate : UInt64

structure LaunchLabPool where
  state : PoolState
  config : GlobalConfig

namespace LaunchLabPool

variable (pool : LaunchLabPool)

def curveState : CurveState where
  virtualBase := pool.state.virtualBase
  virtualQuote := pool.state.virtualQuote
  realBase := pool.state.realBase
  realQuote := pool.state.realQuote

def curveType : BotResult CurveType := CurveType.fromU8 pool.config.curveType

end LaunchLabPool

def totalFeeRate (protocolFeeRate platformFeeRate shareFeeRate creatorFeeRate : UInt64) :
    BotResult UInt64 := do
  let total ← okOr (((U64.checkedAdd protocolFeeRate platformFeeRate).bind
    (U64.checkedAdd · shareFeeRate)).bind (U64.checkedAdd · creatorFeeRate))
    (.solana "LaunchLab fee rate overflow")
  ensure (total.toNat ≤ feeRateDenominator)
    (.invalid "LaunchLab total fee rate exceeds the fee denominator")
  pure total

def calculateFee (amount : ℕ) (feeRate : UInt64) : BotResult ℕ := do
  let numerator ← okOr (U128.checkedMul amount feeRate.toNat)
    (.solana "LaunchLab fee multiplication overflow")
  okOr (ceilQuotient numerator feeRateDenominator) (.solana "LaunchLab fee addition overflow")

def calculatePreFee (postFeeAmount : ℕ) (feeRate : UInt64) : BotResult ℕ :=
  if feeRate = 0 then pure postFeeAmount
  else do
    ensure (feeRate.toNat < feeRateDenominator)
      (.invalid "LaunchLab fee rate must be below the fee denominator")
    let numerator ← okOr (U128.checkedMul postFeeAmount feeRateDenominator)
      (.solana "LaunchLab pre-fee multiplication overflow")
    okOr (ceilQuotient numerator (feeRateDenominator - feeRate.toNat))
      (.solana "LaunchLab pre-fee addition overflow")

section

variable (pool : LaunchLabPool) (platformFeeRate creatorFeeRate shareFeeRate : UInt64)

def feeRate : BotResult UInt64 :=
  totalFeeRate pool.config.tradeFeeRate platformFeeRate shareFeeRate creatorFeeRate

def quoteBuy (amountIn : UInt64) : BotResult UInt64 := do
  let rate ← feeRate pool platformFeeRate creatorFeeRate shareFeeRate
  let totalFee ← calculateFee amountIn.toNat rate
  let lessFee ← okOr (U128.checkedSub amountIn.toNat totalFee)
    (.solana "LaunchLab fee exceeds the input amount")
  let curveType ← pool.curveType
  let out ← curveType.buyExactIn pool.curveState lessFee
  toU64 out (.solana "LaunchLab quote output exceeds the u64 range")

def quoteBuyExactOut (amountOut : UInt64) : BotResult UInt64 := do
  let curveType ← pool.curveType
  let lessFee ← curveType.buyExactOut pool.curveState amountOut.toNat
  let rate ← feeRate pool platformFeeRate creatorFeeRate shareFeeRate
  let gross ← calculatePreFee lessFee rate
  toU64 gross (.solana "LaunchLab quote input exceeds the u64 range")

def quoteSell (amountIn : UInt64) : BotResult UInt64 := do
  let curveType ← pool.curveType
  let gross ← curveType.sellExactIn pool.curveState amountIn.toNat
  let rate ← feeRate pool platformFeeRate creatorFeeRate shareFeeRate
  let totalFee ← calculateFee gross rate
  let net ← okOr (U128.checkedSub gross totalFee)
    (.solana "LaunchLab fee exceeds the output amount")
  toU64 net (.solana "LaunchLab quote output exceeds the u64 range")

def quoteSellExactOut (amountOut : UInt64) : BotResult UInt64 := do
  let curveType ← pool.curveType
  let rate ← feeRate pool platformFeeRate creatorFeeRate shareFeeRate
  let gross ← calculatePreFee amountOut.toNat rate
  let needed ← curveType.sellExactOut pool.curveState gross
  toU64 needed (.solana "LaunchLab quote input exceeds the u64 range")

end

/-! ## Fees -/

section

variable {amount fee v : ℕ} {rate : UInt64} {e : Failure}

theorem lessFee_eq_ok (hf : calculateFee amount rate = .ok fee)
    (h : okOr (U128.checkedSub amount fee) e = .ok v) :
    v = net feeRateDenominator rate.toNat amount := by
  obtain ⟨-, hf⟩ := mul_bind_eq_ok.mp hf
  obtain ⟨-, rfl⟩ := U128.checkedSub_eq_some.mp (okOr_eq_ok.mp h)
  rw [ceilQuotient_eq_some (okOr_eq_ok.mp hf)]
  rfl

theorem calculatePreFee_eq_ok (h : calculatePreFee amount rate = .ok v) :
    rate.toNat < feeRateDenominator ∧ v = gross feeRateDenominator rate.toNat amount := by
  unfold calculatePreFee at h
  split at h
  · next hz =>
    subst hz
    obtain rfl := Except.ok.inj h
    exact ⟨by decide, (gross_zero (by decide) _).symm⟩
  · obtain ⟨hl, h⟩ := ensure_bind_eq_ok.mp h
    obtain ⟨-, h⟩ := mul_bind_eq_ok.mp h
    exact ⟨hl, ceilQuotient_eq_some (okOr_eq_ok.mp h)⟩

end

/-! ## The curves deliver -/

namespace CurveType

variable {s : CurveState} {x x' o o' q q' : ℕ}

theorem le_buy_iff {k : CurveType} (hq : k.buyExactOut s o = .ok x)
    (hg : k.buyExactIn s x' = .ok o') : o ≤ o' ↔ x ≤ x' := by
  cases k with
  | constantProduct =>
    obtain ⟨-, hq⟩ := buyExactOut_eq_ok hq
    obtain ⟨-, hg⟩ := buyExactIn_eq_ok hg
    obtain ⟨hl, rfl⟩ := exactOut_eq_ok hq
    obtain ⟨hpos, rfl⟩ := exactIn_eq_ok hg
    exact le_bought_iff hl hpos
  | fixedPrice =>
    obtain ⟨hba, rfl⟩ := exactOut_eq_ok hq
    obtain ⟨hqu, rfl⟩ := exactIn_eq_ok hg
    rw [ceilDiv_le_iff_le_mul hba, Nat.le_div_iff_mul_le hqu, Nat.mul_comm o]
  | linearPrice =>
    obtain ⟨newQuote, hqu, hpa⟩ := buyExactOut_eq_ok hq
    obtain ⟨newBase, hba, hso⟩ := buyExactIn_eq_ok hg
    have hc : newQuote ≤ s.realQuote.toNat + x' ↔ _ := quoteAt_le_iff hqu
    have hle : s.realBase.toNat + o ≤ newBase ↔ _ := le_baseAt_iff hba
    omega

theorem sell_delivers {k : CurveType} (hq : k.sellExactOut s q = .ok x)
    (hg : k.sellExactIn s x = .ok q') : q ≤ q' := by
  cases k with
  | constantProduct =>
    obtain ⟨-, hq⟩ := sellExactOut_eq_ok hq
    obtain ⟨-, hg⟩ := sellExactIn_eq_ok hg
    obtain ⟨hlt, rfl⟩ := exactOut_eq_ok hq
    obtain ⟨hpos, rfl⟩ := exactIn_eq_ok hg
    exact (le_bought_iff hlt hpos).mpr (Nat.le_refl _)
  | fixedPrice =>
    obtain ⟨hqu, rfl⟩ := exactOut_eq_ok hq
    obtain ⟨hba, rfl⟩ := exactIn_eq_ok hg
    rw [Nat.le_div_iff_mul_le hba, Nat.mul_comm]
    exact (ceilDiv_le_iff_le_mul hqu).mp (Nat.le_refl _)
  | linearPrice =>
    obtain ⟨hle, newBase, hba, hl⟩ := sellExactOut_eq_ok hq
    obtain ⟨-, newQuote, hqu, hpa⟩ := sellExactIn_eq_ok hg
    -- the sale leaves exactly the base that the payment that is left covers
    rw [show s.realBase.toNat - x = newBase by omega] at hqu
    have hc := (le_baseAt_iff hba).mp (Nat.le_refl newBase)
    have hco := (quoteAt_le_iff hqu).mpr hc
    omega

end CurveType

/-! ## The quotes deliver -/

section

variable {pool : LaunchLabPool} {platformFeeRate creatorFeeRate shareFeeRate a v : UInt64}

/-- The curve and the rate that every quote of a pool reads. -/
structure Terms (pool : LaunchLabPool) (platformFeeRate creatorFeeRate shareFeeRate : UInt64)
    (k : CurveType) (rate : UInt64) : Prop where
  curve : pool.curveType = .ok k
  rate : feeRate pool platformFeeRate creatorFeeRate shareFeeRate = .ok rate

theorem Terms.unique {k k' : CurveType} {rate rate' : UInt64}
    (h : Terms pool platformFeeRate creatorFeeRate shareFeeRate k rate)
    (h' : Terms pool platformFeeRate creatorFeeRate shareFeeRate k' rate') :
    k = k' ∧ rate = rate' :=
  ⟨Except.ok.inj (h.curve.symm.trans h'.curve), Except.ok.inj (h.rate.symm.trans h'.rate)⟩

theorem quoteBuy_eq_ok (h : quoteBuy pool platformFeeRate creatorFeeRate shareFeeRate a = .ok v) :
    ∃ k rate, Terms pool platformFeeRate creatorFeeRate shareFeeRate k rate ∧
    k.buyExactIn pool.curveState (net feeRateDenominator rate.toNat a.toNat) = .ok v.toNat := by
  obtain ⟨rate, hr, hrest⟩ := bind_eq_ok.mp h
  obtain ⟨fee, hf, hrest⟩ := bind_eq_ok.mp hrest
  obtain ⟨less, hl, hrest⟩ := bind_eq_ok.mp hrest
  obtain ⟨k, hk, hrest⟩ := bind_eq_ok.mp hrest
  obtain ⟨out, ho, hrest⟩ := bind_eq_ok.mp hrest
  refine ⟨k, rate, ⟨hk, hr⟩, ?_⟩
  rw [toU64_eq_ok.mp hrest, ← lessFee_eq_ok hf hl]
  exact ho

theorem quoteBuyExactOut_eq_ok
    (h : quoteBuyExactOut pool platformFeeRate creatorFeeRate shareFeeRate a = .ok v) :
    ∃ k rate cost, Terms pool platformFeeRate creatorFeeRate shareFeeRate k rate ∧
    k.buyExactOut pool.curveState a.toNat = .ok cost ∧
    rate.toNat < feeRateDenominator ∧ v.toNat = gross feeRateDenominator rate.toNat cost := by
  obtain ⟨k, hk, hrest⟩ := bind_eq_ok.mp h
  obtain ⟨cost, hc, hrest⟩ := bind_eq_ok.mp hrest
  obtain ⟨rate, hr, hrest⟩ := bind_eq_ok.mp hrest
  obtain ⟨amount, hpr, hrest⟩ := bind_eq_ok.mp hrest
  refine ⟨k, rate, cost, ⟨hk, hr⟩, hc, ?_⟩
  rw [toU64_eq_ok.mp hrest]
  exact calculatePreFee_eq_ok hpr

theorem quoteSell_eq_ok (h : quoteSell pool platformFeeRate creatorFeeRate shareFeeRate a = .ok v) :
    ∃ k rate paid, Terms pool platformFeeRate creatorFeeRate shareFeeRate k rate ∧
    k.sellExactIn pool.curveState a.toNat = .ok paid ∧
    v.toNat = net feeRateDenominator rate.toNat paid := by
  obtain ⟨k, hk, hrest⟩ := bind_eq_ok.mp h
  obtain ⟨paid, hpa, hrest⟩ := bind_eq_ok.mp hrest
  obtain ⟨rate, hr, hrest⟩ := bind_eq_ok.mp hrest
  obtain ⟨fee, hf, hrest⟩ := bind_eq_ok.mp hrest
  obtain ⟨less, hl, hrest⟩ := bind_eq_ok.mp hrest
  refine ⟨k, rate, paid, ⟨hk, hr⟩, hpa, ?_⟩
  rw [toU64_eq_ok.mp hrest]
  exact lessFee_eq_ok hf hl

theorem quoteSellExactOut_eq_ok
    (h : quoteSellExactOut pool platformFeeRate creatorFeeRate shareFeeRate a = .ok v) :
    ∃ k rate, Terms pool platformFeeRate creatorFeeRate shareFeeRate k rate ∧
    rate.toNat < feeRateDenominator ∧
    k.sellExactOut pool.curveState (gross feeRateDenominator rate.toNat a.toNat) = .ok v.toNat := by
  obtain ⟨k, hk, hrest⟩ := bind_eq_ok.mp h
  obtain ⟨rate, hr, hrest⟩ := bind_eq_ok.mp hrest
  obtain ⟨amount, hpr, hrest⟩ := bind_eq_ok.mp hrest
  obtain ⟨needed, hn, hrest⟩ := bind_eq_ok.mp hrest
  obtain ⟨hl, hg⟩ := calculatePreFee_eq_ok hpr
  refine ⟨k, rate, ⟨hk, hr⟩, hl, ?_⟩
  rw [toU64_eq_ok.mp hrest, ← hg]
  exact hn

theorem le_quoteBuy_iff {o asked : UInt64}
    (hq : quoteBuyExactOut pool platformFeeRate creatorFeeRate shareFeeRate o = .ok asked)
    (hg : quoteBuy pool platformFeeRate creatorFeeRate shareFeeRate a = .ok v) :
    o ≤ v ↔ asked ≤ a := by
  obtain ⟨k, rate, cost, hte, hc, hl, hgr⟩ := quoteBuyExactOut_eq_ok hq
  obtain ⟨k', rate', ht', ho⟩ := quoteBuy_eq_ok hg
  obtain ⟨rfl, rfl⟩ := hte.unique ht'
  rw [UInt64.le_iff_toNat_le, UInt64.le_iff_toNat_le, CurveType.le_buy_iff hc ho,
    le_net_iff hl, hgr]

end

/-- Both quotes for an exact output deliver: a buy of what was asked gets at least the output,
and a sale of what was asked pays at least the output after its fees. -/
theorem quotes_deliver (pool : LaunchLabPool)
    (platformFeeRate creatorFeeRate shareFeeRate : UInt64) :
    (∀ o asked got,
      quoteBuyExactOut pool platformFeeRate creatorFeeRate shareFeeRate o = .ok asked →
      quoteBuy pool platformFeeRate creatorFeeRate shareFeeRate asked = .ok got → o ≤ got) ∧
    (∀ q asked got,
      quoteSellExactOut pool platformFeeRate creatorFeeRate shareFeeRate q = .ok asked →
      quoteSell pool platformFeeRate creatorFeeRate shareFeeRate asked = .ok got → q ≤ got) := by
  constructor
  · intro o asked got hq hg
    exact (le_quoteBuy_iff hq hg).mpr (UInt64.le_refl asked)
  · intro q asked got hq hg
    obtain ⟨k, rate, hte, hl, hn⟩ := quoteSellExactOut_eq_ok hq
    obtain ⟨k', rate', paid, ht', hpa, hne⟩ := quoteSell_eq_ok hg
    obtain ⟨rfl, rfl⟩ := hte.unique ht'
    rw [UInt64.le_iff_toNat_le, hne, le_net_iff hl]
    exact CurveType.sell_delivers hn hpa

theorem quotes_deliver_fifty :
    let pool : LaunchLabPool := ⟨⟨1000, 500, 100, 60⟩, ⟨0, 10000⟩⟩
    quoteBuyExactOut pool 0 0 0 50 = .ok 34 ∧ quoteSellExactOut pool 0 0 0 20 = .ok 36 ∧
      (∀ got, quoteBuy pool 0 0 0 34 = .ok got → 50 ≤ got) ∧
      (∀ got, quoteSell pool 0 0 0 36 = .ok got → 20 ≤ got) ∧
      quoteBuy pool 0 0 0 34 = .ok 50 ∧ quoteSell pool 0 0 0 36 = .ok 20 := by
  intro pool
  have hbu : quoteBuyExactOut pool 0 0 0 50 = .ok 34 := by decide +kernel
  have hse : quoteSellExactOut pool 0 0 0 20 = .ok 36 := by decide +kernel
  refine ⟨hbu, hse, ?_, ?_, by decide +kernel, by decide +kernel⟩
  · intro got hg
    exact (quotes_deliver pool 0 0 0).1 50 34 got hbu hg
  · intro got hg
    exact (quotes_deliver pool 0 0 0).2 20 36 got hse hg

end SniperBot.Venues.LaunchLab
