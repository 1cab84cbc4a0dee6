import SniperBot.Positions.Fills
import SniperBot.Reconciliation.Engine

/-!
# Fills conserve money

The replay of the fills and the live position carry cost along by average-cost division,
each in its own code. Whatever is bought, sold or sold beyond what is open, cost is only
moved: out of the open basis into what the profit is measured against.
-/

namespace SniperBot.Reconciliation

open Positions

/-! ## The replay -/

/-- Nothing is negative, and what was bought is still open or has been sold. -/
structure Replay.Conserves (r : Replay) : Prop where
  openQty_nonneg : 0 ≤ r.openQty
  openCost_nonneg : 0 ≤ r.openCost
  realized_eq : r.realized = r.sellProceeds - (r.buyCost - r.openCost)

theorem Replay.Conserves.fill {r : Replay} (h : r.Conserves) {f : FillRecord}
    (hq : 0 ≤ f.quote) : (r.fill f).Conserves := by
  unfold Replay.fill
  split
  · exact h
  · next hqt =>
    split
    · exact ⟨add_nonneg h.openQty_nonneg (not_not.mp hqt).le,
        add_nonneg h.openCost_nonneg hq, by rw [h.realized_eq]; ring⟩
    · split
      · dsimp only
        split
        · exact h
        · next hso =>
          have ho : 0 < r.openQty := (not_le.mp hso).trans_le (min_le_right _ _)
          rw [if_pos ho]
          have hle : r.openCost / r.openQty * min f.qty r.openQty ≤ r.openCost := by
            rw [div_mul_eq_mul_div, div_le_iff₀ ho]
            exact mul_le_mul_of_nonneg_left (min_le_right _ _) h.openCost_nonneg
          exact ⟨sub_nonneg.mpr (min_le_right _ _), sub_nonneg.mpr hle,
            by dsimp only; rw [h.realized_eq]; ring⟩
      · exact h

theorem conserves_foldl {r : Replay} (h : r.Conserves) (fills : List FillRecord)
    (hf : ∀ f ∈ fills, 0 ≤ f.quote) : (fills.foldl Replay.fill r).Conserves := by
  induction fills generalizing r with
  | nil => exact h
  | cons f fills ih =>
    exact ih (h.fill (hf f List.mem_cons_self)) fun g hg => hf g (List.mem_cons_of_mem f hg)

/-! ## The live position -/

inductive LiveFill where
  | buy (qty price quoteSpent : ℚ) (now : Int)
  | sell (qty price quoteReceived : ℚ) (now : Int)

def LiveFill.apply (p : LivePosition) : LiveFill → LivePosition
  | .buy qty price quoteSpent now => p.applyBuy qty price quoteSpent now
  | .sell qty price quoteReceived now => (p.applySell qty price quoteReceived now).1

def LiveFill.spent (p : LivePosition) : LiveFill → ℚ
  | .buy qty price quoteSpent _ =>
    if ¬ p.accountingStateIsFinite ∨ qty ≤ 0 ∨ price < 0 ∨ quoteSpent < 0 then 0 else quoteSpent
  | .sell .. => 0

def totalSpent (p : LivePosition) : List LiveFill → ℚ
  | [] => 0
  | f :: fills => f.spent p + totalSpent (f.apply p) fills

def Invested (p : LivePosition) (amount : ℚ) : Prop :=
  ∃ pnl, p.realizedPnlQuote = some pnl ∧ p.realizedQuote - pnl + p.costBasis = amount

/-- The basis that is left is what the slice does not take: the two rounding rules agree on
when everything is sold. -/
theorem costBasis_left {qty cost sold : ℚ} (hc : 0 ≤ cost) (hso : 0 < sold) (hle : sold ≤ qty) :
    (if max (qty - sold) 0 ≤ f64Epsilon then 0
    else max (cost - if qty - f64Epsilon ≤ sold then cost else cost * (sold / qty)) 0) =
    cost - if qty - f64Epsilon ≤ sold then cost else cost * (sold / qty) := by
  rw [max_eq_left (sub_nonneg.mpr hle)]
  by_cases hg : qty - sold ≤ f64Epsilon
  · rw [if_pos hg, if_pos (sub_le_comm.mp hg), sub_self]
  · rw [if_neg hg, if_neg fun h => hg (sub_le_comm.mp h)]
    refine max_eq_left (sub_nonneg.mpr ?_)
    exact mul_le_of_le_one_right hc (div_le_one_of_le₀ hle (hso.le.trans hle))

theorem Invested.apply {p : LivePosition} {amount : ℚ} (h : Invested p amount) (f : LiveFill) :
    Invested (f.apply p) (amount + f.spent p) := by
  obtain ⟨pnl, hpn, rfl⟩ := h
  cases f with
  | buy qty price quoteSpent now =>
    simp only [LiveFill.apply, LiveFill.spent, LivePosition.applyBuy]
    split
    · exact ⟨pnl, hpn, by ring⟩
    · exact ⟨pnl, hpn, by dsimp only; ring⟩
  | sell qty price quoteReceived now =>
    simp only [LiveFill.apply, LiveFill.spent, LivePosition.applySell, add_zero]
    split
    · exact ⟨pnl, hpn, rfl⟩
    · next hv =>
      split
      · exact ⟨pnl, hpn, rfl⟩
      · next hso =>
        push Not at hv hso
        have hl := costBasis_left hv.1.2.2.1 hso (min_le_right qty p.qty)
        refine ⟨_, congrArg (Option.map _) hpn, ?_⟩
        rw [hl]
        ring

theorem invested_foldl {p : LivePosition} {amount : ℚ} (h : Invested p amount)
    (fills : List LiveFill) :
    Invested (fills.foldl LiveFill.apply p) (amount + totalSpent p fills) := by
  induction fills generalizing p amount with
  | nil => exact (add_zero amount).symm ▸ h
  | cons f fills ih =>
    rw [totalSpent, ← add_assoc]
    exact ih (h.apply f)

/-- Fills conserve money. The replay leaves a quantity and a basis that are not negative, and
its profit is what the sales brought less the basis they took. On a live position the proceeds
less the profit and the open basis add up to everything that was spent. -/
theorem fills_conserve_money : (∀ fills : List FillRecord, (∀ f ∈ fills, 0 ≤ f.qty ∧ 0 ≤ f.quote) →
      0 ≤ (reconstructPnl fills).openQty ∧ 0 ≤ (reconstructPnl fills).openCostBasis ∧
      (reconstructPnl fills).realized = (reconstructPnl fills).sellProceeds -
        ((reconstructPnl fills).buyCost - (reconstructPnl fills).openCostBasis)) ∧
    (∀ id source symbol now fills, Invested (fills.foldl LiveFill.apply (.new id source symbol now))
        (totalSpent (.new id source symbol now) fills)) ∧
    (∀ p amount fills, Invested p amount →
      Invested (fills.foldl LiveFill.apply p) (amount + totalSpent p fills)) := by
  refine ⟨?_, ?_, fun _ _ fills h => invested_foldl h fills⟩
  · intro fills hfi
    have hst : Replay.start.Conserves := ⟨le_rfl, le_rfl, by norm_num [Replay.start]⟩
    have h := conserves_foldl hst fills fun f hf => (hfi f hf).2
    have hc : (reconstructPnl fills).openCostBasis = (fills.foldl Replay.fill .start).openCost :=
      max_eq_left h.openCost_nonneg
    rw [hc]
    exact ⟨h.openQty_nonneg, h.openCost_nonneg, h.realized_eq⟩
  · intro id source symbol now fills
    have hn : Invested (.new id source symbol now) 0 := ⟨0, rfl, by norm_num [LivePosition.new]⟩
    rw [← zero_add (totalSpent _ fills)]
    exact invested_foldl hn fills

theorem fills_conserve_money_over_sell :
    (∀ f ∈ [(⟨"buy", 10, 100⟩ : FillRecord), ⟨"sell", 4, 60⟩, ⟨"sell", 9, 90⟩],
      0 ≤ f.qty ∧ 0 ≤ f.quote) ∧
    (reconstructPnl [⟨"buy", 10, 100⟩, ⟨"sell", 4, 60⟩, ⟨"sell", 9, 90⟩]).realized = 20 ∧
    0 ≤ (reconstructPnl [⟨"buy", 10, 100⟩, ⟨"sell", 4, 60⟩, ⟨"sell", 9, 90⟩]).openQty := by
  have hf : ∀ f ∈ [(⟨"buy", 10, 100⟩ : FillRecord), ⟨"sell", 4, 60⟩, ⟨"sell", 9, 90⟩],
      0 ≤ f.qty ∧ 0 ≤ f.quote := by simp
  exact ⟨hf, by decide +kernel, (fills_conserve_money.1 _ hf).1⟩

end SniperBot.Reconciliation
