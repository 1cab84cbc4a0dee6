import Mathlib.Data.Nat.Size
import SniperBot.Lib.NewtonSqrt
import SniperBot.Lib.Rounding
import SniperBot.Venues.Quoting

/-!
# The bonding curves of the launch pools

Three curves: constant product, fixed price, and a price that rises with what has been
sold. Each quotes a buy and a sell from either side, an exact input or an exact output.
-/

namespace SniperBot.Venues.LaunchLab

open Lib.Guard Lib.MachineInt Lib.NewtonSqrt U128 Except Nat
open Lib.Rounding

def q64 : ℕ := 2 ^ 64

inductive CurveType where
  | constantProduct
  | fixedPrice
  | linearPrice

def CurveType.fromU8 (value : UInt8) : BotResult CurveType :=
  if value = 0 then pure .constantProduct
  else if value = 1 then pure .fixedPrice
  else if value = 2 then pure .linearPrice
  else .error (.invalid ("unknown LaunchLab curve type " ++ toString value.toNat))

structure CurveState where
  /-- The slope of the price on the linear curve. -/
  virtualBase : UInt64
  virtualQuote : UInt64
  /-- What has been sold, and what was paid for it. -/
  realBase : UInt64
  realQuote : UInt64
  deriving DecidableEq

def ceilDiv (numerator denominator : ℕ) : BotResult ℕ := do
  ensure (denominator ≠ 0) (.solana "LaunchLab division denominator is zero")
  if numerator = 0 then pure 0
  else
    let quotient := numerator / denominator
    if quotient = 0 then pure 1
    else
      let remainder := numerator % denominator
      if 0 < remainder then
        okOr (checkedAdd quotient 1) (.solana "LaunchLab ceiling division overflow")
      else pure quotient

/-- Back from `x` to the first number whose square, as far as a word holds it, is not above
the value. -/
def backOff (value : ℕ) : ℕ → ℕ
  | 0 => 0
  | x + 1 => if value < min ((x + 1) * (x + 1)) (2 ^ 128 - 1) then backOff value x else x + 1

/-- The start is a power of two with half as many digits as the value. -/
def isqrt (value : ℕ) : ℕ :=
  if value = 0 then 0 else backOff value (newton value (2 ^ ((value.size + 1) / 2)))

namespace ConstantProductCurve

variable (s : CurveState) (amountOut : ℕ)

def quoteReserve (e : Failure) : BotResult ℕ :=
  okOr (checkedAdd s.virtualQuote.toNat s.realQuote.toNat) e

def baseReserve (e : Failure) : BotResult ℕ :=
  okOr (checkedSub s.virtualBase.toNat s.realBase.toNat) e

def exactIn (inputReserve outputReserve amountIn : ℕ) : BotResult ℕ := do
  let numerator ← okOr (checkedMul amountIn outputReserve) (.solana "LaunchLab numerator overflow")
  let denominator ← okOr (checkedAdd inputReserve amountIn)
    (.solana "LaunchLab denominator overflow")
  ensure (denominator ≠ 0) (.solana "LaunchLab denominator is zero")
  pure (numerator / denominator)

def exactOut (inputReserve outputReserve amountOut : ℕ) : BotResult ℕ := do
  let numerator ← okOr (checkedMul inputReserve amountOut) (.solana "LaunchLab numerator overflow")
  let denominator ← okOr (checkedSub outputReserve amountOut)
    (.solana "LaunchLab output exceeds the reserve")
  ceilDiv numerator denominator

def buyExactIn (amountIn : ℕ) : BotResult ℕ := do
  let inputReserve ← quoteReserve s (.solana "LaunchLab input reserve overflow")
  let outputReserve ← baseReserve s (.solana "LaunchLab output reserve underflow")
  exactIn inputReserve outputReserve amountIn

def buyExactOut : BotResult ℕ := do
  let inputReserve ← quoteReserve s (.solana "LaunchLab input reserve overflow")
  let outputReserve ← baseReserve s (.solana "LaunchLab output reserve underflow")
  exactOut inputReserve outputReserve amountOut

def sellExactIn (amountIn : ℕ) : BotResult ℕ := do
  let inputReserve ← baseReserve s (.solana "LaunchLab input reserve underflow")
  let outputReserve ← quoteReserve s (.solana "LaunchLab output reserve overflow")
  exactIn inputReserve outputReserve amountIn

def sellExactOut : BotResult ℕ := do
  let inputReserve ← baseReserve s (.solana "LaunchLab input reserve underflow")
  let outputReserve ← quoteReserve s (.solana "LaunchLab output reserve overflow")
  exactOut inputReserve outputReserve amountOut

end ConstantProductCurve

namespace FixedPriceCurve

/-- So many times `gives` for each `takes`, rounded down. -/
def exactIn (gives takes amountIn : ℕ) (e : Failure) : BotResult ℕ := do
  let numerator ← okOr (checkedMul gives amountIn) (.solana "LaunchLab numerator overflow")
  ensure (takes ≠ 0) e
  pure (numerator / takes)

/-- So many times `takes` for each `gives`, rounded up. -/
def exactOut (gives takes amountOut : ℕ) (e : Failure) : BotResult ℕ := do
  let numerator ← okOr (checkedMul takes amountOut) (.solana "LaunchLab numerator overflow")
  ensure (gives ≠ 0) e
  ceilDiv numerator gives

def noBase : Failure := .solana "LaunchLab virtual base is zero"

def noQuote : Failure := .solana "LaunchLab virtual quote is zero"

variable (s : CurveState) (amountOut : ℕ)

def buyExactIn (amountIn : ℕ) : BotResult ℕ :=
  exactIn s.virtualBase.toNat s.virtualQuote.toNat amountIn noQuote

def buyExactOut : BotResult ℕ := exactOut s.virtualBase.toNat s.virtualQuote.toNat amountOut noBase

def sellExactIn (amountIn : ℕ) : BotResult ℕ :=
  exactIn s.virtualQuote.toNat s.virtualBase.toNat amountIn noBase

def sellExactOut : BotResult ℕ :=
  exactOut s.virtualQuote.toNat s.virtualBase.toNat amountOut noQuote

end FixedPriceCurve

namespace LinearPriceCurve

/-- What can have been sold when `quote` has been paid. A slope of zero divides by zero. -/
def baseAt (slope quote : ℕ) : BotResult ℕ := do
  let scaled ← okOr ((checkedMul 2 quote).bind (checkedMul · q64))
    (.solana "LaunchLab sqrt term overflow")
  ensure (slope ≠ 0) .panic
  pure (isqrt (scaled / slope))

/-- What must have been paid when `base` has been sold. -/
def quoteAt (slope base : ℕ) : BotResult ℕ := do
  let squared ← okOr (checkedMul base base) (.solana "LaunchLab base squared overflow")
  let numerator ← okOr (checkedMul slope squared) (.solana "LaunchLab numerator overflow")
  ceilDiv numerator (2 * q64)

variable (s : CurveState) (amountOut : ℕ)

def buyExactIn (amountIn : ℕ) : BotResult ℕ := do
  let newQuote ← okOr (checkedAdd s.realQuote.toNat amountIn) (.solana "LaunchLab quote overflow")
  let newBase ← baseAt s.virtualBase.toNat newQuote
  okOr (checkedSub newBase s.realBase.toNat) (.solana "LaunchLab linear buy underflow")

def buyExactOut : BotResult ℕ := do
  let newBase ← okOr (checkedAdd s.realBase.toNat amountOut) (.solana "LaunchLab base overflow")
  let newQuote ← quoteAt s.virtualBase.toNat newBase
  okOr (checkedSub newQuote s.realQuote.toNat) (.solana "LaunchLab linear buy underflow")

def sellExactIn (amountIn : ℕ) : BotResult ℕ := do
  let newBase ← okOr (checkedSub s.realBase.toNat amountIn) (.solana "LaunchLab base underflow")
  let newQuote ← quoteAt s.virtualBase.toNat newBase
  okOr (checkedSub s.realQuote.toNat newQuote) (.solana "LaunchLab linear sell underflow")

def sellExactOut : BotResult ℕ := do
  let newQuote ← okOr (checkedSub s.realQuote.toNat amountOut) (.solana "LaunchLab quote underflow")
  let newBase ← baseAt s.virtualBase.toNat newQuote
  okOr (checkedSub s.realBase.toNat newBase) (.solana "LaunchLab linear sell underflow")

end LinearPriceCurve

namespace CurveType

def buyExactIn : CurveType → CurveState → ℕ → BotResult ℕ
  | .constantProduct => ConstantProductCurve.buyExactIn
  | .fixedPrice => FixedPriceCurve.buyExactIn
  | .linearPrice => LinearPriceCurve.buyExactIn

def buyExactOut : CurveType → CurveState → ℕ → BotResult ℕ
  | .constantProduct => ConstantProductCurve.buyExactOut
  | .fixedPrice => FixedPriceCurve.buyExactOut
  | .linearPrice => LinearPriceCurve.buyExactOut

def sellExactIn : CurveType → CurveState → ℕ → BotResult ℕ
  | .constantProduct => ConstantProductCurve.sellExactIn
  | .fixedPrice => FixedPriceCurve.sellExactIn
  | .linearPrice => LinearPriceCurve.sellExactIn

def sellExactOut : CurveType → CurveState → ℕ → BotResult ℕ
  | .constantProduct => ConstantProductCurve.sellExactOut
  | .fixedPrice => FixedPriceCurve.sellExactOut
  | .linearPrice => LinearPriceCurve.sellExactOut

end CurveType

/-! ## Rounded division and the square root -/

theorem ceilDiv_eq_ok {n d v : ℕ} (h : ceilDiv n d = .ok v) : 0 < d ∧ v = n ⌈/⌉ d := by
  obtain ⟨hn, h⟩ := ensure_bind_eq_ok.mp h
  have hpos : 0 < d := pos_of_ne_zero hn
  refine ⟨hpos, ?_⟩
  split at h
  · next hz =>
    obtain rfl := ok.inj h
    rw [hz, zero_ceilDiv]
  · next hnu =>
    dsimp only at h
    split at h
    · next hq =>
      obtain rfl := ok.inj h
      have hl : n < d := (div_eq_zero_iff_lt hpos).mp hq
      apply eq_ceilDiv <;> omega
    · split at h
      · next hr =>
        obtain ⟨-, rfl⟩ := checkedAdd_eq_some.mp (okOr_eq_ok.mp h)
        exact div_add_one_eq_ceilDiv hpos hr
      · next hr =>
        obtain rfl := ok.inj h
        exact div_eq_ceilDiv hpos (by omega)

theorem backOff_eq {value x : ℕ} (h : x * x ≤ value) : backOff value x = x := by
  cases x with
  | zero => rfl
  | succ x =>
    have hn : ¬ value < min ((x + 1) * (x + 1)) (2 ^ 128 - 1) := by omega
    rw [backOff, if_neg hn]

theorem isqrt_eq_sqrt (value : ℕ) : isqrt value = value.sqrt := by
  unfold isqrt
  split
  · next hz =>
    subst hz
    exact sqrt_zero.symm
  · have hsize : value < 2 ^ (2 * ((value.size + 1) / 2)) :=
      Nat.lt_of_lt_of_le (Nat.lt_size_self value) (Nat.pow_le_pow_right (by omega) (by omega))
    rw [newton_eq_sqrt (sqrt_le_two_pow hsize)]
    exact backOff_eq (sqrt_le value)

/-! ## What the quotes come to -/

section

variable {s : CurveState} {a v : ℕ}

namespace ConstantProductCurve

variable {x y : ℕ}

theorem exactIn_eq_ok (h : exactIn x y a = .ok v) : 0 < x + a ∧ v = bought x y a := by
  obtain ⟨-, h⟩ := mul_bind_eq_ok.mp h
  obtain ⟨-, h⟩ := add_bind_eq_ok.mp h
  obtain ⟨hn, h⟩ := ensure_bind_eq_ok.mp h
  obtain rfl := ok.inj h
  exact ⟨pos_of_ne_zero hn, rfl⟩

theorem exactOut_eq_ok (h : exactOut x y a = .ok v) : a < y ∧ v = asked x y a := by
  obtain ⟨-, h⟩ := mul_bind_eq_ok.mp h
  obtain ⟨hle, h⟩ := sub_bind_eq_ok.mp h
  obtain ⟨hpos, rfl⟩ := ceilDiv_eq_ok h
  exact ⟨by omega, rfl⟩

theorem buyExactIn_eq_ok (h : buyExactIn s a = .ok v) : s.realBase.toNat ≤ s.virtualBase.toNat ∧
    exactIn (s.virtualQuote.toNat + s.realQuote.toNat)
      (s.virtualBase.toNat - s.realBase.toNat) a = .ok v :=
  sub_bind_eq_ok.mp (add_bind_eq_ok.mp h).2

theorem buyExactOut_eq_ok (h : buyExactOut s a = .ok v) : s.realBase.toNat ≤ s.virtualBase.toNat ∧
    exactOut (s.virtualQuote.toNat + s.realQuote.toNat)
      (s.virtualBase.toNat - s.realBase.toNat) a = .ok v :=
  sub_bind_eq_ok.mp (add_bind_eq_ok.mp h).2

theorem sellExactIn_eq_ok (h : sellExactIn s a = .ok v) : s.realBase.toNat ≤ s.virtualBase.toNat ∧
    exactIn (s.virtualBase.toNat - s.realBase.toNat)
      (s.virtualQuote.toNat + s.realQuote.toNat) a = .ok v := by
  obtain ⟨hle, h⟩ := sub_bind_eq_ok.mp h
  exact ⟨hle, (add_bind_eq_ok.mp h).2⟩

theorem sellExactOut_eq_ok (h : sellExactOut s a = .ok v) : s.realBase.toNat ≤ s.virtualBase.toNat ∧
    exactOut (s.virtualBase.toNat - s.realBase.toNat)
      (s.virtualQuote.toNat + s.realQuote.toNat) a = .ok v := by
  obtain ⟨hle, h⟩ := sub_bind_eq_ok.mp h
  exact ⟨hle, (add_bind_eq_ok.mp h).2⟩

end ConstantProductCurve

namespace FixedPriceCurve

variable {gives takes : ℕ} {e : Failure}

theorem exactIn_eq_ok (h : exactIn gives takes a e = .ok v) :
    0 < takes ∧ v = gives * a / takes := by
  obtain ⟨-, h⟩ := mul_bind_eq_ok.mp h
  obtain ⟨hn, h⟩ := ensure_bind_eq_ok.mp h
  obtain rfl := ok.inj h
  exact ⟨pos_of_ne_zero hn, rfl⟩

theorem exactOut_eq_ok (h : exactOut gives takes a e = .ok v) :
    0 < gives ∧ v = (takes * a) ⌈/⌉ gives := by
  obtain ⟨-, h⟩ := mul_bind_eq_ok.mp h
  obtain ⟨hne, h⟩ := ensure_bind_eq_ok.mp h
  exact ceilDiv_eq_ok h

end FixedPriceCurve

namespace LinearPriceCurve

variable {slope : ℕ}

theorem baseAt_eq_ok (h : baseAt slope a = .ok v) : 0 < slope ∧ v = (2 * a * q64 / slope).sqrt := by
  obtain ⟨scaled, hsc, h⟩ := bind_eq_ok.mp h
  obtain ⟨hn, h⟩ := ensure_bind_eq_ok.mp h
  obtain ⟨doubled, hd, hsc⟩ := Option.bind_eq_some_iff.mp (okOr_eq_ok.mp hsc)
  obtain ⟨-, rfl⟩ := checkedMul_eq_some.mp hd
  obtain ⟨-, rfl⟩ := checkedMul_eq_some.mp hsc
  obtain rfl := ok.inj h
  exact ⟨pos_of_ne_zero hn, isqrt_eq_sqrt _⟩

theorem quoteAt_eq_ok (h : quoteAt slope a = .ok v) : v = (slope * (a * a)) ⌈/⌉ (2 * q64) := by
  obtain ⟨-, h⟩ := mul_bind_eq_ok.mp h
  obtain ⟨-, h⟩ := mul_bind_eq_ok.mp h
  exact (ceilDiv_eq_ok h).2

theorem le_baseAt_iff {quote base newBase : ℕ} (h : baseAt slope quote = .ok newBase) :
    base ≤ newBase ↔ slope * (base * base) ≤ 2 * q64 * quote := by
  obtain ⟨hpos, rfl⟩ := baseAt_eq_ok h
  rw [le_sqrt, le_div_iff_mul_le hpos, mul_comm slope, mul_right_comm 2 q64]

theorem quoteAt_le_iff {quote base newQuote : ℕ} (h : quoteAt slope base = .ok newQuote) :
    newQuote ≤ quote ↔ slope * (base * base) ≤ 2 * q64 * quote := by
  rw [quoteAt_eq_ok h, ceilDiv_le_iff_le_mul (by decide)]

theorem buyExactIn_eq_ok (h : buyExactIn s a = .ok v) :
    ∃ newBase, baseAt s.virtualBase.toNat (s.realQuote.toNat + a) = .ok newBase ∧
    newBase = s.realBase.toNat + v := by
  obtain ⟨-, h⟩ := add_bind_eq_ok.mp h
  obtain ⟨newBase, hba, hv⟩ := bind_eq_ok.mp h
  obtain ⟨hle, rfl⟩ := checkedSub_eq_some.mp (okOr_eq_ok.mp hv)
  exact ⟨newBase, hba, by omega⟩

theorem buyExactOut_eq_ok (h : buyExactOut s a = .ok v) :
    ∃ newQuote, quoteAt s.virtualBase.toNat (s.realBase.toNat + a) = .ok newQuote ∧
    newQuote = s.realQuote.toNat + v := by
  obtain ⟨-, h⟩ := add_bind_eq_ok.mp h
  obtain ⟨newQuote, hq, hv⟩ := bind_eq_ok.mp h
  obtain ⟨hle, rfl⟩ := checkedSub_eq_some.mp (okOr_eq_ok.mp hv)
  exact ⟨newQuote, hq, by omega⟩

theorem sellExactIn_eq_ok (h : sellExactIn s a = .ok v) : a ≤ s.realBase.toNat ∧ ∃ newQuote,
    quoteAt s.virtualBase.toNat (s.realBase.toNat - a) = .ok newQuote ∧
    newQuote + v = s.realQuote.toNat := by
  obtain ⟨hle, h⟩ := sub_bind_eq_ok.mp h
  obtain ⟨newQuote, hq, hv⟩ := bind_eq_ok.mp h
  obtain ⟨hc, rfl⟩ := checkedSub_eq_some.mp (okOr_eq_ok.mp hv)
  exact ⟨hle, newQuote, hq, by omega⟩

theorem sellExactOut_eq_ok (h : sellExactOut s a = .ok v) : a ≤ s.realQuote.toNat ∧ ∃ newBase,
    baseAt s.virtualBase.toNat (s.realQuote.toNat - a) = .ok newBase ∧
    newBase + v = s.realBase.toNat := by
  obtain ⟨hle, h⟩ := sub_bind_eq_ok.mp h
  obtain ⟨newBase, hba, hv⟩ := bind_eq_ok.mp h
  obtain ⟨hc, rfl⟩ := checkedSub_eq_some.mp (okOr_eq_ok.mp hv)
  exact ⟨hle, newBase, hba, by omega⟩

end LinearPriceCurve

end

end SniperBot.Venues.LaunchLab
