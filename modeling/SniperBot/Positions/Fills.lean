import Mathlib.Tactic.NormNum
import SniperBot.Lib.AverageCost
import SniperBot.Positions.Book

/-!
# Fills of a position

A buy adds to a position and a sell takes its share of the cost basis out of it. Amounts
are exact rationals, so of the checks for finite numbers only the signs are left. The
remaining basis is what an average-cost holding has, as long as what is left is nothing
or more than the rounding unit.
-/

namespace SniperBot.Positions

open Lib.AverageCost

structure LivePosition extends Position where
  realizedAt : Option Int
  /-- The highest price since the entry. -/
  trailingHighWater : Option ℚ

def f64Epsilon : ℚ := 1 / 2 ^ 52

namespace LivePosition

def new (id : String) (source : TradeSource) (symbol : String) (now : Int) : LivePosition where
  id := id
  updatedAt := now
  closedAt := none
  source := source
  status := .opened
  symbol := symbol
  qty := 0
  avgEntry := 0
  costBasis := 0
  realizedQuote := 0
  realizedPnlQuote := some 0
  lastMark := 0
  reasonClosed := none
  realizedAt := none
  trailingHighWater := none

variable (p : LivePosition)

def accountingStateIsFinite : Prop :=
  0 ≤ p.qty ∧ 0 ≤ p.avgEntry ∧ 0 ≤ p.costBasis ∧ 0 ≤ p.realizedQuote ∧ 0 ≤ p.lastMark

instance : Decidable p.accountingStateIsFinite := inferInstanceAs (Decidable (_ ∧ _ ∧ _ ∧ _ ∧ _))

def applyBuy (qty price quoteSpent : ℚ) (now : Int) : LivePosition :=
  if ¬ p.accountingStateIsFinite ∨ qty ≤ 0 ∨ price < 0 ∨ quoteSpent < 0 then p
  else
    let newQty := p.qty + qty
    { p with
      avgEntry := (p.avgEntry * p.qty + price * qty) / newQty
      qty := newQty
      costBasis := p.costBasis + quoteSpent
      lastMark := price
      updatedAt := now
      trailingHighWater := some ((p.trailingHighWater.map (max · price)).getD price) }

def applySell (qty price quoteReceived : ℚ) (now : Int) : LivePosition × ℚ :=
  if ¬ p.accountingStateIsFinite ∨ qty ≤ 0 ∨ price < 0 ∨ quoteReceived < 0 then (p, 0)
  else
    let qty := min qty p.qty
    if qty ≤ 0 then (p, 0)
    else
      let costOfSlice :=
        if p.qty - f64Epsilon ≤ qty then p.costBasis else p.costBasis * (qty / p.qty)
      let realised := quoteReceived - costOfSlice
      let newQty := max (p.qty - qty) 0
      let gone := newQty ≤ f64Epsilon
      ({ p with
          qty := if gone then 0 else newQty
          costBasis := if gone then 0 else max (p.costBasis - costOfSlice) 0
          realizedQuote := p.realizedQuote + quoteReceived
          realizedPnlQuote := p.realizedPnlQuote.map (· + realised)
          lastMark := price
          realizedAt := some now
          updatedAt := now }, realised)

structure Shows (h : Holding ℚ) : Prop where
  qty_eq : p.qty = h.qty
  costBasis_eq : p.costBasis = h.cost
  realized_eq : p.realizedPnlQuote = some h.realized
  avgEntry_nonneg : 0 ≤ p.avgEntry
  realizedQuote_nonneg : 0 ≤ p.realizedQuote
  lastMark_nonneg : 0 ≤ p.lastMark

theorem shows_new (id : String) (source : TradeSource) (symbol : String) (now : Int) :
    (new id source symbol now).Shows .empty :=
  ⟨rfl, rfl, rfl, le_rfl, le_rfl, le_rfl⟩

variable {p} {h : Holding ℚ}

theorem costOfSlice_eq {d : Deal ℚ} (hrest : h.LeavesNoDust d f64Epsilon) :
    (if h.qty - f64Epsilon ≤ h.sold d then h.cost else h.cost * (h.sold d / h.qty)) =
    h.slice d := by
  split_ifs with ha
  · have hz : h.qty - h.sold d = 0 := hrest.resolve_right (by linarith)
    exact (h.slice_of_all d (sub_eq_zero.mp hz).symm).symm
  · rfl

namespace Shows

variable (hp : p.Shows h)
include hp

theorem accountingStateIsFinite : p.accountingStateIsFinite :=
  ⟨hp.qty_eq ▸ h.qty_nonneg, hp.avgEntry_nonneg, hp.costBasis_eq ▸ h.cost_nonneg,
    hp.realizedQuote_nonneg, hp.lastMark_nonneg⟩

theorem realised_eq : p.realised = h.realized := by
  rw [Position.realised, hp.realized_eq, Option.getD_some]

variable (d : Deal ℚ) {price : ℚ} (hprice : 0 ≤ price) (now : Int)
include hprice

theorem deal_valid : ¬ (¬ p.accountingStateIsFinite ∨ d.qty ≤ 0 ∨ price < 0 ∨ d.quote < 0) := by
  intro hba
  rcases hba with hba | hba | hba | hba
  · exact hba hp.accountingStateIsFinite
  · exact absurd d.qty_pos hba.not_gt
  · exact absurd hprice hba.not_ge
  · exact absurd d.quote_nonneg hba.not_ge

theorem applyBuy : (p.applyBuy d.qty price d.quote now).Shows (h.buy d) := by
  have hq : 0 ≤ p.qty := hp.qty_eq ▸ h.qty_nonneg
  have hsu : 0 ≤ p.avgEntry * p.qty + price * d.qty :=
    add_nonneg (mul_nonneg hp.avgEntry_nonneg hq) (mul_nonneg hprice d.qty_pos.le)
  rw [LivePosition.applyBuy, if_neg (hp.deal_valid d hprice)]
  constructor
  · exact congrArg (· + d.qty) hp.qty_eq
  · exact congrArg (· + d.quote) hp.costBasis_eq
  · exact hp.realized_eq
  · exact div_nonneg hsu (add_nonneg hq d.qty_pos.le)
  · exact hp.realizedQuote_nonneg
  · exact hprice

theorem applySell (hrest : h.LeavesNoDust d f64Epsilon) :
    (p.applySell d.qty price d.quote now).1.Shows (h.sell d (unlessFlat h.qty d)) := by
  have hm : min d.qty h.qty = h.sold d := rfl
  rw [LivePosition.applySell, if_neg (hp.deal_valid d hprice)]
  simp only [hp.qty_eq, hp.costBasis_eq, hm]
  by_cases hn : h.sold d ≤ 0
  · -- Nothing was held, and nothing changes.
    have hf : h.qty = 0 := by
      rcases min_le_iff.mp hn with hd | hh
      · exact absurd d.qty_pos hd.not_gt
      · exact le_antisymm hh h.qty_nonneg
    have hse : h.sell d (unlessFlat h.qty d) = h := by
      ext
      · show h.qty - h.sold d = h.qty
        rw [h.sold_of_flat d hf, sub_zero]
      · show h.cost - h.slice d = h.cost
        rw [h.slice_of_flat d hf, sub_zero]
      · show h.realized + (unlessFlat h.qty d - h.slice d) = h.realized
        rw [h.slice_of_flat d hf, unlessFlat, if_pos hf.le, sub_zero, add_zero]
    rw [if_pos hn, hse]
    exact hp
  · have hhe : ¬ h.qty ≤ 0 := fun hh => hn ((h.sold_le d).trans hh)
    rw [if_neg hn]
    simp only [costOfSlice_eq hrest, h.max_qty_left, h.max_cost_left, Holding.qty_left hrest,
      Holding.cost_left hrest]
    constructor
    · rfl
    · rfl
    · show p.realizedPnlQuote.map (· + (d.quote - h.slice d)) = _
      rw [hp.realized_eq, unlessFlat, if_neg hhe]
      rfl
    · exact hp.avgEntry_nonneg
    · exact add_nonneg hp.realizedQuote_nonneg d.quote_nonneg
    · exact hprice

end Shows

end LivePosition

end SniperBot.Positions
