import SniperBot.Lib.Runs
import SniperBot.Venues.LaunchLabCurve

/-!
# Solvency of the bonding curves

Trades move base and quote by what the curve quotes, in any order. Each curve keeps an
inequality between what has been sold and what was paid, and with it the pool can take
everything back that it has sold.
-/

namespace SniperBot.Venues.LaunchLab

open Lib.Guard Lib.MachineInt Lib.Rounding Lib.Runs ConstantProductCurve Nat Option U64

inductive Trade where
  | buyExactIn (amountIn : ℕ)
  | buyExactOut (amountOut : ℕ)
  | sellExactIn (amountIn : ℕ)
  | sellExactOut (amountOut : ℕ)

namespace CurveState

variable (s : CurveState) (base quote : ℕ)

def bought : Option CurveState :=
  if s.realBase.toNat + base ≤ maxNat ∧ s.realQuote.toNat + quote ≤ maxNat then
    some { s with
      realBase := clamp (s.realBase.toNat + base)
      realQuote := clamp (s.realQuote.toNat + quote) }
  else none

def sold : Option CurveState :=
  if base ≤ s.realBase.toNat ∧ quote ≤ s.realQuote.toNat then
    some { s with
      realBase := clamp (s.realBase.toNat - base)
      realQuote := clamp (s.realQuote.toNat - quote) }
  else none

end CurveState

/-- A trade at the amounts that the curve quotes, without fees. -/
def CurveType.trade (k : CurveType) (s : CurveState) : Trade → Option CurveState
  | .buyExactIn quote => (k.buyExactIn s quote).toOption.bind fun base => s.bought base quote
  | .buyExactOut base => (k.buyExactOut s base).toOption.bind fun quote => s.bought base quote
  | .sellExactIn base => (k.sellExactIn s base).toOption.bind fun quote => s.sold base quote
  | .sellExactOut quote => (k.sellExactOut s quote).toOption.bind fun base => s.sold base quote

/-- The inequality that a curve keeps between what was sold and what was paid. -/
def CurveType.Solvent (k : CurveType) (s : CurveState) : Prop :=
  match k with
  | .constantProduct =>
    s.realBase.toNat ≤ s.virtualBase.toNat ∧ s.virtualQuote.toNat * s.virtualBase.toNat ≤
        (s.virtualQuote.toNat + s.realQuote.toNat) * (s.virtualBase.toNat - s.realBase.toNat)
  | .fixedPrice =>
    s.realBase.toNat * s.virtualQuote.toNat ≤ s.realQuote.toNat * s.virtualBase.toNat
  | .linearPrice =>
    s.virtualBase.toNat * (s.realBase.toNat * s.realBase.toNat) ≤ 2 * q64 * s.realQuote.toNat

/-- What a trade does: the parameters of the curve stay, and the amounts move by a quote. -/
structure Moved (k : CurveType) (s t : CurveState) : Prop where
  virtualBase : t.virtualBase = s.virtualBase
  virtualQuote : t.virtualQuote = s.virtualQuote
  amounts : ∃ base quote : ℕ,
    ((k.buyExactIn s quote = .ok base ∨ k.buyExactOut s base = .ok quote) ∧
      t.realBase.toNat = s.realBase.toNat + base ∧
      t.realQuote.toNat = s.realQuote.toNat + quote) ∨
    ((k.sellExactIn s base = .ok quote ∨ k.sellExactOut s quote = .ok base) ∧
      t.realBase.toNat + base = s.realBase.toNat ∧
      t.realQuote.toNat + quote = s.realQuote.toNat)

section

variable {k : CurveType} {s t : CurveState} {base quote : ℕ}

theorem moved_of_bought (h : s.bought base quote = some t)
    (hq : k.buyExactIn s quote = .ok base ∨ k.buyExactOut s base = .ok quote) :
    Moved k s t := by
  unfold CurveState.bought at h
  split at h
  · next hf =>
    obtain rfl := some.inj h
    refine ⟨rfl, rfl, base, quote, .inl ⟨hq, ?_, ?_⟩⟩
    · exact (toNat_clamp _).trans (min_eq_left hf.1)
    · exact (toNat_clamp _).trans (min_eq_left hf.2)
  · cases h

theorem moved_of_sold (h : s.sold base quote = some t)
    (hq : k.sellExactIn s base = .ok quote ∨ k.sellExactOut s quote = .ok base) :
    Moved k s t := by
  unfold CurveState.sold at h
  split at h
  · next hf =>
    obtain rfl := some.inj h
    have hba := toNat_le_max s.realBase
    have hqu := toNat_le_max s.realQuote
    refine ⟨rfl, rfl, base, quote, .inr ⟨hq, ?_, ?_⟩⟩
    · rw [toNat_clamp]
      omega
    · rw [toNat_clamp]
      omega
  · cases h

theorem toOption_eq_some {α : Type} {x : BotResult α} {a : α} (h : x.toOption = some a) :
    x = .ok a := by
  cases x with
  | error e => cases h
  | ok b => exact congrArg _ (some.inj h)

theorem moved_of_trade {trade : Trade} (h : k.trade s trade = some t) : Moved k s t := by
  cases trade with
  | buyExactIn quote =>
    obtain ⟨base, hba, hm⟩ := bind_eq_some_iff.mp h
    exact moved_of_bought hm (.inl (toOption_eq_some hba))
  | buyExactOut base =>
    obtain ⟨quote, hq, hm⟩ := bind_eq_some_iff.mp h
    exact moved_of_bought hm (.inr (toOption_eq_some hq))
  | sellExactIn base =>
    obtain ⟨quote, hq, hm⟩ := bind_eq_some_iff.mp h
    exact moved_of_sold hm (.inl (toOption_eq_some hq))
  | sellExactOut quote =>
    obtain ⟨base, hba, hm⟩ := bind_eq_some_iff.mp h
    exact moved_of_sold hm (.inr (toOption_eq_some hba))

theorem product_kept {x y a b : ℕ} (h : exactIn x y a = .ok b ∨ exactOut x y b = .ok a) :
    b ≤ y ∧ x * y ≤ (x + a) * (y - b) := by
  rcases h with h | h
  · obtain ⟨-, rfl⟩ := exactIn_eq_ok h
    exact ⟨bought_le, product_le_of_bought⟩
  · obtain ⟨hl, rfl⟩ := exactOut_eq_ok h
    exact ⟨hl.le, product_le_of_asked hl⟩

theorem constantProduct_step (h : Moved .constantProduct s t)
    (hs : CurveType.Solvent .constantProduct s) : CurveType.Solvent .constantProduct t := by
  obtain ⟨hle, hpr⟩ := hs
  obtain ⟨base, quote, ⟨hq, hba, hqu⟩ | ⟨hq, hba, hqu⟩⟩ := h.amounts
  · have hkept := product_kept (hq.imp (fun h => (buyExactIn_eq_ok h).2)
      (fun h => (buyExactOut_eq_ok h).2))
    unfold CurveType.Solvent
    rw [h.virtualBase, h.virtualQuote, hba, hqu, ← Nat.add_assoc, ← Nat.sub_sub]
    exact ⟨by omega, hpr.trans hkept.2⟩
  · have hkept := product_kept (hq.imp (fun h => (sellExactIn_eq_ok h).2)
      (fun h => (sellExactOut_eq_ok h).2))
    unfold CurveType.Solvent
    rw [h.virtualBase, h.virtualQuote]
    have hl : s.virtualQuote.toNat + t.realQuote.toNat =
        s.virtualQuote.toNat + s.realQuote.toNat - quote := by omega
    have hbac : s.virtualBase.toNat - t.realBase.toNat =
        s.virtualBase.toNat - s.realBase.toNat + base := by omega
    rw [hl, hbac]
    refine ⟨by omega, hpr.trans ?_⟩
    rw [mul_comm, mul_comm (_ - quote)]
    exact hkept.2

open FixedPriceCurve

theorem fixedPrice_step (h : Moved .fixedPrice s t) (hs : CurveType.Solvent .fixedPrice s) :
    CurveType.Solvent .fixedPrice t := by
  have hs : s.realBase.toNat * s.virtualQuote.toNat ≤ s.realQuote.toNat * s.virtualBase.toNat := hs
  show t.realBase.toNat * t.virtualQuote.toNat ≤ t.realQuote.toNat * t.virtualBase.toNat
  rw [h.virtualBase, h.virtualQuote]
  obtain ⟨base, quote, ⟨hq, hba, hqu⟩ | ⟨hq, hba, hqu⟩⟩ := h.amounts
  · -- what is bought does not cost more than is paid
    have hc : base * s.virtualQuote.toNat ≤ quote * s.virtualBase.toNat := by
      rcases hq with hq | hq
      · obtain ⟨hpos, rfl⟩ := exactIn_eq_ok hq
        rw [mul_comm quote]
        exact div_mul_le_self _ _
      · obtain ⟨hpos, rfl⟩ := exactOut_eq_ok hq
        rw [mul_comm base, mul_comm (_ ⌈/⌉ _)]
        exact (ceilDiv_le_iff_le_mul hpos).mp (le_refl _)
    rw [hba, hqu, add_mul, add_mul]
    exact Nat.add_le_add hs hc
  · -- what is sold is worth at least what is paid out
    have hw : quote * s.virtualBase.toNat ≤ base * s.virtualQuote.toNat := by
      rcases hq with hq | hq
      · obtain ⟨hpos, rfl⟩ := exactIn_eq_ok hq
        rw [mul_comm base]
        exact div_mul_le_self _ _
      · obtain ⟨hpos, rfl⟩ := exactOut_eq_ok hq
        rw [mul_comm quote, mul_comm (_ ⌈/⌉ _)]
        exact (ceilDiv_le_iff_le_mul hpos).mp (le_refl _)
    rw [← hba, ← hqu, add_mul, add_mul] at hs
    omega

open LinearPriceCurve

theorem linearPrice_step (h : Moved .linearPrice s t) : CurveType.Solvent .linearPrice t := by
  show t.virtualBase.toNat * (t.realBase.toNat * t.realBase.toNat) ≤ 2 * q64 * t.realQuote.toNat
  rw [h.virtualBase]
  obtain ⟨base, quote, ⟨hq | hq, hba, hqu⟩ | ⟨hq | hq, hba, hqu⟩⟩ := h.amounts
  · obtain ⟨newBase, hn, rfl⟩ := buyExactIn_eq_ok hq
    rw [hba, hqu]
    exact (le_baseAt_iff hn).mp (le_refl _)
  · obtain ⟨newQuote, hn, rfl⟩ := buyExactOut_eq_ok hq
    rw [hba, hqu]
    exact (quoteAt_le_iff hn).mp (le_refl _)
  · obtain ⟨hle, newQuote, hn, hl⟩ := sellExactIn_eq_ok hq
    rw [show s.realBase.toNat - base = t.realBase.toNat by omega] at hn
    exact (quoteAt_le_iff hn).mp (by omega)
  · obtain ⟨hle, newBase, hn, hl⟩ := sellExactOut_eq_ok hq
    rw [show s.realQuote.toNat - quote = t.realQuote.toNat by omega] at hn
    exact (le_baseAt_iff hn).mp (by omega)

theorem solvent_step (h : Moved k s t) (hs : k.Solvent s) : k.Solvent t := by
  cases k with
  | constantProduct => exact constantProduct_step h hs
  | fixedPrice => exact fixedPrice_step h hs
  | linearPrice => exact linearPrice_step h

end

/-! ## Selling everything back -/

section

variable {s : CurveState}

theorem constantProduct_back (hs : CurveType.Solvent .constantProduct s)
    (hbas : 0 < s.virtualBase.toNat) :
    ∃ paid, sellExactIn s s.realBase.toNat = .ok paid ∧ paid ≤ s.realQuote.toNat := by
  obtain ⟨hle, hpr⟩ := hs
  -- by the inequality the numerator is no more than a product of two words
  have hw : s.realBase.toNat * (s.virtualQuote.toNat + s.realQuote.toNat) ≤
      s.virtualBase.toNat * s.realQuote.toNat := by
    rw [Nat.mul_sub, Nat.add_mul s.virtualQuote.toNat, Nat.mul_comm _ s.realBase.toNat] at hpr
    have hc := mul_le_mul_right (s.virtualQuote.toNat + s.realQuote.toNat) hle
    rw [mul_add s.virtualBase.toNat] at hc
    have hco := mul_comm s.virtualBase.toNat s.virtualQuote.toNat
    have hc' := mul_comm s.virtualBase.toNat s.realQuote.toNat
    omega
  have hsm : s.virtualBase.toNat * s.realQuote.toNat < 2 ^ 128 :=
    U128.mul_toNat_lt s.virtualBase s.realQuote
  have hq := s.virtualQuote.toNat_lt
  have hr := s.realQuote.toNat_lt
  have hv := s.virtualBase.toNat_lt
  have hba : s.virtualBase.toNat - s.realBase.toNat + s.realBase.toNat = s.virtualBase.toNat :=
    Nat.sub_add_cancel hle
  refine ⟨s.realBase.toNat * (s.virtualQuote.toNat + s.realQuote.toNat) / s.virtualBase.toNat,
    ?_, ?_⟩
  · refine sub_bind_eq_ok.mpr ⟨hle, ?_⟩
    refine add_bind_eq_ok.mpr ⟨by omega, ?_⟩
    refine mul_bind_eq_ok.mpr ⟨by omega, ?_⟩
    refine add_bind_eq_ok.mpr ⟨by omega, ?_⟩
    rw [hba]
    exact ensure_bind_eq_ok.mpr ⟨hbas.ne', rfl⟩
  · exact Nat.div_le_of_le_mul hw

theorem fixedPrice_back (hs : CurveType.Solvent .fixedPrice s) (hba : 0 < s.virtualBase.toNat) :
    ∃ paid, FixedPriceCurve.sellExactIn s s.realBase.toNat = .ok paid ∧
    paid ≤ s.realQuote.toNat := by
  have hsm : s.virtualQuote.toNat * s.realBase.toNat < 2 ^ 128 :=
    U128.mul_toNat_lt s.virtualQuote s.realBase
  refine ⟨s.virtualQuote.toNat * s.realBase.toNat / s.virtualBase.toNat, ?_, ?_⟩
  · exact mul_bind_eq_ok.mpr ⟨hsm, ensure_bind_eq_ok.mpr ⟨hba.ne', rfl⟩⟩
  · apply Nat.div_le_of_le_mul
    rw [Nat.mul_comm, Nat.mul_comm s.virtualBase.toNat]
    exact hs

theorem linearPrice_back :
    LinearPriceCurve.sellExactIn s s.realBase.toNat = .ok s.realQuote.toNat := by
  apply bind_eq_ok.mpr
  refine ⟨0, okOr_eq_ok.mpr (U128.checkedSub_eq_some.mpr ⟨le_refl _, by omega⟩), ?_⟩
  apply bind_eq_ok.mpr
  refine ⟨0, ?_, okOr_eq_ok.mpr (U128.checkedSub_eq_some.mpr ⟨zero_le _, rfl⟩)⟩
  apply bind_eq_ok.mpr
  refine ⟨0, rfl, bind_eq_ok.mpr ⟨0, ?_, rfl⟩⟩
  exact okOr_eq_ok.mpr (U128.checkedMul_eq_some.mpr ⟨by norm_num, rfl⟩)

end

end SniperBot.Venues.LaunchLab
