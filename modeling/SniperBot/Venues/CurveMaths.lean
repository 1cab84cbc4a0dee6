import SniperBot.Lib.Guard
import SniperBot.Lib.MachineInt
import SniperBot.Lib.Rounding

/-!
# The curve arithmetic of the engine

Quotes of a constant-product pool with a fee and of the bonding curve with its virtual reserves, in
128-bit words. A result `none` is an operation that leaves its word: it panics in a checked build.
-/

namespace SniperBot.Venues.CurveMaths

open Lib.Guard Lib.MachineInt Lib.Rounding U64 Nat Option Nat UInt64 U128

def bpsDenom : ℕ := 10000

def saturatingMul (a b : ℕ) : ℕ := min (a * b) (2 ^ 128 - 1)

/-- A denominator of zero stands for basis points. -/
def feeDen (feeDenominator : UInt64) : ℕ :=
  if feeDenominator = 0 then bpsDenom else feeDenominator.toNat

def constantProductOut (amountIn reserveIn reserveOut feeNumerator feeDenominator : UInt64) :
    Option UInt64 :=
  if amountIn = 0 ∨ reserveIn = 0 ∨ reserveOut = 0 then some 0
  else do
    let rest ← checkedSub (feeDen feeDenominator) feeNumerator.toNat
    let amountInAfterFee := saturatingMul amountIn.toNat rest / feeDen feeDenominator
    let numerator := saturatingMul amountInAfterFee reserveOut.toNat
    let denominator ← checkedAdd reserveIn.toNat amountInAfterFee
    if denominator = 0 then some 0 else some (clamp (numerator / denominator))

def constantProductIn (amountOut reserveIn reserveOut feeNumerator feeDenominator : UInt64) :
    Option UInt64 :=
  if amountOut = 0 ∨ reserveIn = 0 ∨ reserveOut = 0 ∨ reserveOut ≤ amountOut then
    some (clamp maxNat)
  else do
    let numerator ← checkedMul (saturatingMul reserveIn.toNat amountOut.toNat)
      (feeDen feeDenominator)
    let rest ← checkedSub (feeDen feeDenominator) feeNumerator.toNat
    let denominator ← checkedMul (reserveOut.toNat - amountOut.toNat) rest
    if denominator = 0 then some (clamp maxNat)
    else
      let amountIn ← checkedAdd (numerator / denominator) 1
      some (clamp amountIn)

section

variable {a o x y n d : UInt64}

theorem feeDen_pos : 0 < feeDen d := by
  unfold feeDen
  split
  · decide
  · next hn => exact pos_of_ne_zero fun h => hn (UInt64.toNat_inj.mp h)

theorem feeDen_le_max : feeDen d ≤ maxNat := by
  unfold feeDen
  split
  · decide
  · exact toNat_le_max d

theorem saturatingMul_eq {a b : ℕ} (ha : a ≤ maxNat) (hb : b ≤ maxNat) :
    saturatingMul a b = a * b := by
  have hle : a * b ≤ maxNat * maxNat := Nat.mul_le_mul ha hb
  unfold saturatingMul
  unfold maxNat at hle
  omega

def afterFee (a n d : UInt64) : ℕ := a.toNat * (feeDen d - n.toNat) / feeDen d

theorem afterFee_le : afterFee a n d ≤ a.toNat := by
  apply Nat.div_le_of_le_mul
  rw [Nat.mul_comm]
  exact mul_le_mul_right _ (sub_le _ _)

theorem constantProductOut_eq (ha : a ≠ 0) (hx : x ≠ 0) (hy : y ≠ 0) (hn : n.toNat < feeDen d) :
    constantProductOut a x y n d = some (clamp (bought x.toNat y.toNat (afterFee a n d))) := by
  have hrest := saturatingMul_eq (toNat_le_max a)
    (le_trans (sub_le (feeDen d) n.toNat) feeDen_le_max)
  have haf : afterFee a n d ≤ maxNat := le_trans afterFee_le (toNat_le_max a)
  have hxp : 0 < x.toNat := pos_of_ne_zero fun h => hx (UInt64.toNat_inj.mp h)
  have hxm := toNat_le_max x
  have hsu : checkedAdd x.toNat (afterFee a n d) = some (x.toNat + afterFee a n d) := by
    unfold maxNat at haf hxm
    exact checkedAdd_eq_some.mpr ⟨by omega, rfl⟩
  unfold constantProductOut
  rw [if_neg (by simp [ha, hx, hy]), checkedSub_eq_some.mpr ⟨hn.le, rfl⟩]
  simp only [bind_eq_bind, bind_some, hrest]
  rw [← afterFee, hsu, saturatingMul_eq haf (toNat_le_max y), bind_some, if_neg (by omega), bought]

/-- What the curve and the fee ask for an output, rounded down, and one more. -/
def needed (o x y n d : UInt64) : ℕ :=
  x.toNat * o.toNat * feeDen d / ((y.toNat - o.toNat) * (feeDen d - n.toNat)) + 1

theorem constantProductIn_eq (ho : o ≠ 0) (hx : x ≠ 0) (hl : o < y) (hn : n.toNat < feeDen d)
    (hf : x.toNat * o.toNat * feeDen d < 2 ^ 128) (hr : needed o x y n d ≤ maxNat) :
    constantProductIn o x y n d = some (clamp (needed o x y n d)) := by
  have hl' : o.toNat < y.toNat := lt_iff_toNat_lt.mp hl
  have hy : y ≠ 0 := by
    rintro rfl
    exact absurd hl' (not_lt_zero _)
  have hrest : (y.toNat - o.toNat) * (feeDen d - n.toNat) < 2 ^ 128 := by
    have hle : (y.toNat - o.toNat) * (feeDen d - n.toNat) ≤ maxNat * maxNat :=
      Nat.mul_le_mul (Nat.le_trans (Nat.sub_le _ _) (toNat_le_max y))
        (le_trans (sub_le _ _) feeDen_le_max)
    unfold maxNat at hle
    omega
  have hpos : 0 < (y.toNat - o.toNat) * (feeDen d - n.toNat) := mul_pos (by omega) (by omega)
  have hsu : needed o x y n d < 2 ^ 128 := lt_of_le_of_lt hr (by decide)
  unfold constantProductIn
  rw [if_neg (by simp [ho, hx, hy, UInt64.not_le.mpr hl]),
    saturatingMul_eq (toNat_le_max x) (toNat_le_max o),
    checkedMul_eq_some.mpr ⟨hf, rfl⟩, checkedSub_eq_some.mpr ⟨hn.le, rfl⟩]
  simp only [bind_eq_bind, bind_some]
  rw [checkedMul_eq_some.mpr ⟨hrest, rfl⟩]
  simp only [bind_some]
  rw [if_neg hpos.ne', checkedAdd_eq_some.mpr ⟨hsu, rfl⟩, bind_some]
  rfl

/-- What is asked covers the curve when the fee takes nothing or the curve asks for a whole
amount: rounding down after the fee then loses nothing that is needed. -/
theorem asked_le_afterFee (hl : o < y) (hn : n.toNat < feeDen d) (ha : a.toNat = needed o x y n d)
    (hw : n = 0 ∨ (y.toNat - o.toNat) ∣ x.toNat * o.toNat) :
    asked x.toNat y.toNat o.toNat ≤ afterFee a n d := by
  have hrest : 0 < y.toNat - o.toNat := Nat.sub_pos_of_lt (lt_iff_toNat_lt.mp hl)
  have hf : 0 < feeDen d - n.toNat := Nat.sub_pos_of_lt hn
  have hm : x.toNat * o.toNat * feeDen d <
      (y.toNat - o.toNat) * (feeDen d - n.toNat) * a.toNat := by
    rw [ha, needed]
    exact lt_mul_div_succ _ (mul_pos hrest hf)
  rw [asked, ceilDiv_le_iff_le_mul hrest, afterFee]
  rcases hw with rfl | ⟨v, hv⟩
  · rw [UInt64.toNat_zero, Nat.sub_zero, Nat.mul_div_cancel _ feeDen_pos]
    rw [UInt64.toNat_zero, Nat.sub_zero, Nat.mul_right_comm (y.toNat - _)] at hm
    exact (Nat.lt_of_mul_lt_mul_right hm).le
  · rw [hv] at hm ⊢
    apply Nat.mul_le_mul_left
    rw [le_div_iff_mul_le feeDen_pos, mul_comm a.toNat]
    rw [mul_assoc, mul_assoc] at hm
    exact (Nat.lt_of_mul_lt_mul_left hm).le

end

def pumpGetBuyCost (tokensOut virtualSolReserves virtualTokenReserves : UInt64) : Option UInt64 :=
  if tokensOut = 0 then some 0
  else if virtualTokenReserves ≤ tokensOut then none
  else do
    let numerator ← checkedMul virtualSolReserves.toNat tokensOut.toNat
    let denominator ← checkedSub virtualTokenReserves.toNat tokensOut.toNat
    if denominator = 0 then none
    else
      let cost := numerator / denominator
      let cost := if numerator % denominator ≠ 0 then cost + 1 else cost
      if maxNat < cost then none else some (clamp cost)

/-- A quotient in 128-bit words that has to fit in 64 bits. -/
def quotient (gives takes amount : UInt64) : Option UInt64 :=
  if amount = 0 then some 0
  else do
    let numerator ← checkedMul gives.toNat amount.toNat
    let denominator ← checkedAdd takes.toNat amount.toNat
    let result := numerator / denominator
    if maxNat < result then none else some (clamp result)

/-- The check of the denominator against zero is left out: the amount is not zero here. -/
def pumpGetTokensForSol (solIn virtualSolReserves virtualTokenReserves : UInt64) : Option UInt64 :=
  quotient virtualTokenReserves virtualSolReserves solIn

def pumpGetSolForTokens (tokensIn virtualSolReserves virtualTokenReserves : UInt64) :
    Option UInt64 :=
  quotient virtualSolReserves virtualTokenReserves tokensIn

structure BondingCurveState where
  virtualTokenReserves : UInt64
  virtualSolReserves : UInt64
  realTokenReserves : UInt64
  complete : Bool

namespace BondingCurveState

variable (curve : BondingCurveState)

def buyCost (tokensOut : UInt64) : Option UInt64 :=
  pumpGetBuyCost tokensOut curve.virtualSolReserves curve.virtualTokenReserves

def tokensForSol (solIn : UInt64) : Option UInt64 :=
  pumpGetTokensForSol solIn curve.virtualSolReserves curve.virtualTokenReserves

def solForTokens (tokensIn : UInt64) : Option UInt64 :=
  pumpGetSolForTokens tokensIn curve.virtualSolReserves curve.virtualTokenReserves

end BondingCurveState

inductive PlanError where
  | invalid (message : String)
  | solana (message : String)
  | other (message : String)
  | panic
  deriving DecidableEq

def u64Mul (a b : UInt64) : Option ℕ :=
  if a.toNat * b.toNat ≤ maxNat then some (a.toNat * b.toNat) else none

/-- The tokens that a budget buys, and their cost with the fee before slippage. The second
product is not checked. -/
def planBuy (curve : BondingCurveState) (solIn feeBps : UInt64) :
    Except PlanError (UInt64 × UInt64) := do
  ensure (solIn ≠ 0) (.invalid "sol_in must be > 0")
  ensure (curve.complete = false)
    (.solana "bonding curve is complete — token has graduated, use PumpSwap/Raydium")
  let product ← okOr (u64Mul solIn feeBps) (.other "fee overflow")
  let solForCurve := clamp (solIn.toNat - product / bpsDenom)
  ensure (solForCurve ≠ 0) (.invalid "sol_in is smaller than the protocol fee on its own")
  let tokensOut ← okOr (curve.tokensForSol solForCurve)
    (.solana "bonding curve overflow computing tokens out")
  ensure (tokensOut ≠ 0) (.solana "computed tokens_out = 0 — buy size too small for this curve")
  ensure (tokensOut ≤ curve.realTokenReserves) (.solana ("not enough tokens left on the curve: " ++
    toString curve.realTokenReserves ++ " available, " ++ toString tokensOut ++ " requested"))
  let curveCost ← okOr (curve.buyCost tokensOut)
    (.solana "bonding curve overflow computing buy cost")
  let fee ← okOr (u64Mul curveCost feeBps) .panic
  pure (tokensOut, clamp (curveCost.toNat + fee / bpsDenom))

section

variable {g t a : UInt64} {curve : BondingCurveState}

theorem quotient_eq : ∃ w, quotient g t a = some w ∧ w.toNat = bought t.toNat g.toNat a.toNat := by
  have hf : bought t.toNat g.toNat a.toNat ≤ maxNat := le_trans bought_le (toNat_le_max g)
  unfold quotient
  split
  · next hz =>
    subst hz
    exact ⟨0, rfl, by simp [bought]⟩
  · have hsu : t.toNat + a.toNat < 2 ^ 128 := by
      have ht := t.toNat_lt
      have ha := a.toNat_lt
      omega
    rw [checkedMul_eq_some.mpr ⟨mul_toNat_lt g a, rfl⟩, checkedAdd_eq_some.mpr ⟨hsu, rfl⟩]
    rw [bought, mul_comm a.toNat] at hf ⊢
    simp only [bind_eq_bind, bind_some, if_neg (not_lt.mpr hf)]
    exact ⟨_, rfl, by rw [toNat_clamp, min_eq_left hf]⟩

theorem pumpGetBuyCost_eq {vs vt : UInt64} (hl : t.toNat < vt.toNat)
    (hf : asked vs.toNat vt.toNat t.toNat ≤ maxNat) :
    ∃ w, pumpGetBuyCost t vs vt = some w ∧ w.toNat = asked vs.toNat vt.toNat t.toNat := by
  have hpos : 0 < vt.toNat - t.toNat := Nat.sub_pos_of_lt hl
  unfold pumpGetBuyCost
  split
  · next hz =>
    subst hz
    exact ⟨0, rfl, by simp [asked]⟩
  · have hc : (if vs.toNat * t.toNat % (vt.toNat - t.toNat) ≠ 0
        then vs.toNat * t.toNat / (vt.toNat - t.toNat) + 1
        else vs.toNat * t.toNat / (vt.toNat - t.toNat)) = asked vs.toNat vt.toNat t.toNat := by
      split
      · next hr => exact div_add_one_eq_ceilDiv hpos (pos_of_ne_zero hr)
      · next hr => exact div_eq_ceilDiv hpos (not_not.mp hr)
    rw [if_neg (UInt64.not_le.mpr (UInt64.lt_iff_toNat_lt.mpr hl)),
      checkedMul_eq_some.mpr ⟨mul_toNat_lt vs t, rfl⟩,
      checkedSub_eq_some.mpr ⟨hl.le, rfl⟩]
    simp only [bind_eq_bind, bind_some, if_neg hpos.ne', hc, if_neg (not_lt.mpr hf)]
    exact ⟨_, rfl, by rw [toNat_clamp, min_eq_left hf]⟩

theorem buyCost_tokensForSol (hso : 0 < curve.virtualSolReserves)
    (hto : 0 < curve.virtualTokenReserves) (s : UInt64) :
    ∃ tokens cost, curve.tokensForSol s = some tokens ∧ curve.buyCost tokens = some cost ∧
    cost ≤ s ∧ tokens.toNat < curve.virtualTokenReserves.toNat ∧
    cost.toNat =
      asked curve.virtualSolReserves.toNat curve.virtualTokenReserves.toNat tokens.toNat := by
  have hs' := lt_iff_toNat_lt.mp hso
  have ht' := lt_iff_toNat_lt.mp hto
  obtain ⟨tokens, htok, hv⟩ := @quotient_eq curve.virtualTokenReserves curve.virtualSolReserves s
  have hl : tokens.toNat < curve.virtualTokenReserves.toNat := by
    rw [hv, bought, div_lt_iff_lt_mul (by omega), mul_comm]
    exact Nat.mul_lt_mul_of_pos_left (Nat.lt_add_of_pos_left hs') ht'
  have hask := (le_bought_iff hl (by omega)).mp hv.le
  obtain ⟨cost, hco, hc⟩ := pumpGetBuyCost_eq hl (le_trans hask (toNat_le_max s))
  exact ⟨tokens, cost, htok, hco, le_iff_toNat_le.mpr (hc ▸ hask), hl, hc⟩

/-- A cost within what is left of a budget after its fee stays within the budget with its own
fee. -/
theorem fee_within {s f c : UInt64} {product : ℕ} (h : u64Mul s f = some product)
    (hc : c.toNat ≤ s.toNat - product / bpsDenom) :
    ∃ fee, u64Mul c f = some fee ∧ c.toNat + fee / bpsDenom ≤ s.toNat := by
  obtain ⟨hf, rfl⟩ : s.toNat * f.toNat ≤ maxNat ∧ s.toNat * f.toNat = product := by
    simpa [u64Mul] using h
  have hle : c.toNat * f.toNat ≤ s.toNat * f.toNat := mul_le_mul_right _ (le_trans hc (sub_le _ _))
  refine ⟨c.toNat * f.toNat, by rw [u64Mul, if_pos (le_trans hle hf)], ?_⟩
  have hfe : c.toNat * f.toNat / bpsDenom ≤ s.toNat * f.toNat / bpsDenom := Nat.div_le_div_right hle
  rcases Nat.eq_zero_or_pos c.toNat with hz | hpos
  · rw [hz, Nat.zero_mul, Nat.zero_div]
    exact zero_le _
  · omega

theorem curveCost_within (hso : 0 < curve.virtualSolReserves)
    (hto : 0 < curve.virtualTokenReserves) {solIn feeBps tokens cost : UInt64} {product : ℕ}
    (hpr : u64Mul solIn feeBps = some product)
    (htok : curve.tokensForSol (clamp (solIn.toNat - product / bpsDenom)) = some tokens)
    (hc : curve.buyCost tokens = some cost) :
    ∃ fee, u64Mul cost feeBps = some fee ∧ cost.toNat + fee / bpsDenom ≤ solIn.toNat := by
  obtain ⟨tokens', cost', ht', hc', hle, -⟩ := buyCost_tokensForSol hso hto
    (clamp (solIn.toNat - product / bpsDenom))
  obtain rfl := some.inj (ht'.symm.trans htok)
  obtain rfl := some.inj (hc'.symm.trans hc)
  rw [le_iff_toNat_le, toNat_clamp] at hle
  exact fee_within hpr (le_trans hle (min_le_left _ _))

end

/-- Buying never overspends and the round trip never gains: the tokens that an amount buys cost
at most that amount, a plan with its fee stays within the budget without an overflow, and on
the curve after the purchase the tokens sell for at most what the curve received. -/
theorem pump_never_overspends (curve : BondingCurveState) (hso : 0 < curve.virtualSolReserves)
    (htok : 0 < curve.virtualTokenReserves) :
    (∀ s, ∃ tokens cost, curve.tokensForSol s = some tokens ∧ curve.buyCost tokens = some cost ∧
      cost ≤ s ∧
      ∀ (received : UInt64) (after : BondingCurveState), cost ≤ received →
        after.virtualSolReserves.toNat = curve.virtualSolReserves.toNat + received.toNat →
        after.virtualTokenReserves.toNat + tokens.toNat = curve.virtualTokenReserves.toNat →
        ∃ back, after.solForTokens tokens = some back ∧ back ≤ received) ∧
    (∀ solIn feeBps, planBuy curve solIn feeBps ≠ .error .panic ∧
      ∀ tokens withFee, planBuy curve solIn feeBps = .ok (tokens, withFee) → withFee ≤ solIn) := by
  constructor
  · intro s
    obtain ⟨tokens, cost, hto, hc, hle, hl, hask⟩ := buyCost_tokensForSol hso htok s
    refine ⟨tokens, cost, hto, hc, hle, ?_⟩
    intro received after hr haf haft
    obtain ⟨back, hba, hv⟩ :=
      @quotient_eq after.virtualSolReserves after.virtualTokenReserves tokens
    refine ⟨back, hba, ?_⟩
    have hco : curve.virtualSolReserves.toNat * tokens.toNat ≤
        (curve.virtualTokenReserves.toNat - tokens.toNat) * received.toNat := by
      refine (ceilDiv_le_iff_le_mul (Nat.sub_pos_of_lt hl)).mp ?_
      exact Nat.le_trans hask.ge (UInt64.le_iff_toNat_le.mp hr)
    rw [UInt64.le_iff_toNat_le, hv, bought, haf, haft]
    apply Nat.div_le_of_le_mul
    rw [Nat.sub_mul] at hco
    have hle : tokens.toNat * received.toNat ≤ curve.virtualTokenReserves.toNat * received.toNat :=
      Nat.mul_le_mul_right _ hl.le
    rw [Nat.mul_add, Nat.mul_comm tokens.toNat]
    omega
  · intro solIn feeBps
    constructor
    · intro h
      simp only [planBuy, bind_eq_error, ensure_eq_error, okOr_eq_error, ensure_eq_ok, okOr_eq_ok,
        pure_ne_error, reduceCtorEq, and_false, false_or, and_true, exists_false, or_false] at h
      obtain ⟨-, -, -, -, product, hpr, -, -, tokens, hto, -, -, -, -, cost, hc, hnone⟩ := h
      obtain ⟨fee, hf, -⟩ := curveCost_within hso htok hpr hto hc
      rw [hnone] at hf
      cases hf
    · intro tokens withFee h
      simp only [planBuy, bind_eq_ok, ensure_eq_ok, okOr_eq_ok] at h
      obtain ⟨-, -, -, -, product, hpr, -, -, tokens, hto, -, -, -, -, cost, hc, fee, hf, ho⟩ := h
      obtain ⟨fee', hf', hle⟩ := curveCost_within hso htok hpr hto hc
      obtain rfl := Option.some.inj (hf'.symm.trans hf)
      obtain ⟨-, rfl⟩ := Prod.mk.inj (Except.ok.inj ho)
      rw [UInt64.le_iff_toNat_le, toNat_clamp]
      exact Nat.le_trans (Nat.min_le_left _ _) hle

/-- A fresh curve with thirty coins. -/
theorem pump_never_overspends_fresh :
    let curve : BondingCurveState := ⟨1073000000000000, 30000000000, 793100000000000, false⟩
    planBuy curve 1000000000 100 = .ok (34277831558567, 999900000) ∧
      ∀ tokens withFee, planBuy curve 1000000000 100 = .ok (tokens, withFee) →
        withFee ≤ 1000000000 := by
  intro curve
  exact ⟨by decide +kernel,
    ((pump_never_overspends curve (by decide) (by decide)).2 1000000000 100).2⟩

end SniperBot.Venues.CurveMaths
