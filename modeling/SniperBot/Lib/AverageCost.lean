import Mathlib.Algebra.Order.Field.Basic
import Mathlib.Tactic.FieldSimp
import Mathlib.Tactic.Linarith
import Mathlib.Tactic.Positivity
import Mathlib.Tactic.Ring

/-!
# Holdings at average cost

A holding is an amount, what it has cost, and the profit taken so far; a sale takes its share of
the cost with it. When more is sold than is held, how much of the money counts is a rule that is
left open. Of two rules, one never crediting more, both show the same profit only if they credited
the same each time.
-/

namespace SniperBot.Lib.AverageCost

open List

variable {K : Type*} [Field K] [LinearOrder K]

@[ext]
structure Holding (K : Type*) [Field K] [LinearOrder K] where
  qty : K
  cost : K
  realized : K
  qty_nonneg : 0 ≤ qty
  cost_nonneg : 0 ≤ cost
  cost_of_flat : qty = 0 → cost = 0

inductive Side where
  | buy
  | sell
  deriving DecidableEq

structure Deal (K : Type*) [Field K] [LinearOrder K] where
  side : Side
  qty : K
  quote : K
  qty_pos : 0 < qty
  quote_nonneg : 0 ≤ quote

abbrev Credit (K : Type*) [Field K] [LinearOrder K] := K → Deal K → K

def held (qty : K) (d : Deal K) : K :=
  match d.side with
  | .buy => qty + d.qty
  | .sell => qty - min d.qty qty

variable (deals : List (Deal K))

def heldAfter : K := deals.foldl held 0

theorem heldAfter_snoc (d : Deal K) : heldAfter (deals ++ [d]) = held (heldAfter deals) d :=
  foldl_append ..

/-- Two rules credited the same for every sale. -/
def SameCredit (small large : Credit K) (deals : List (Deal K)) : Prop :=
  ∀ done d rest, deals = done ++ d :: rest → d.side = .sell →
    small (heldAfter done) d = large (heldAfter done) d

theorem sameCredit_snoc {small large : Credit K} (deals : List (Deal K)) (d : Deal K) :
    SameCredit small large (deals ++ [d]) ↔ SameCredit small large deals ∧
    (d.side = .sell → small (heldAfter deals) d = large (heldAfter deals) d) := by
  constructor
  · intro h
    constructor
    · intro done e rest heq
      exact h done e (rest ++ [d]) (by rw [heq, append_assoc, cons_append])
    · exact h deals d [] rfl
  · intro ⟨hd, hl⟩ done e rest heq
    rcases eq_nil_or_concat rest with rfl | ⟨rest, last, rfl⟩
    · obtain ⟨rfl, he⟩ := append_inj' heq rfl
      cases he
      exact hl
    · have heq : deals ++ [d] = (done ++ e :: rest) ++ [last] := by
        rw [heq, concat_eq_append, append_assoc, cons_append]
      exact hd done e rest (append_inj' heq rfl).1

namespace Holding

def empty : Holding K := ⟨0, 0, 0, le_rfl, le_rfl, fun _ => rfl⟩

variable (h : Holding K) (d : Deal K)

def sold : K := min d.qty h.qty

theorem sold_le : h.sold d ≤ h.qty := min_le_right _ _

theorem sold_nonneg : 0 ≤ h.sold d := le_min d.qty_pos.le h.qty_nonneg

theorem sold_of_flat (hf : h.qty = 0) : h.sold d = 0 := by
  rw [sold, hf]
  exact min_eq_right d.qty_pos.le

def slice : K := h.cost * (h.sold d / h.qty)

theorem slice_of_all (ha : h.sold d = h.qty) : h.slice d = h.cost := by
  rcases eq_or_ne h.qty 0 with hf | hh
  · rw [slice, h.cost_of_flat hf, zero_mul]
  · rw [slice, ha, div_self hh, mul_one]

theorem slice_of_flat (hf : h.qty = 0) : h.slice d = 0 := by
  rw [slice, h.cost_of_flat hf, zero_mul]

variable {h} {h' : Holding K}

theorem slice_congr (hq : h.qty = h'.qty) (hc : h.cost = h'.cost) : h.slice d = h'.slice d := by
  unfold slice sold
  rw [hq, hc]

variable (h) [IsStrictOrderedRing K]

theorem slice_le : h.slice d ≤ h.cost :=
  mul_le_of_le_one_right h.cost_nonneg (div_le_one_of_le₀ (h.sold_le d) h.qty_nonneg)

theorem max_qty_left : max (h.qty - h.sold d) 0 = h.qty - h.sold d :=
  max_eq_left (sub_nonneg.mpr (h.sold_le d))

theorem max_cost_left : max (h.cost - h.slice d) 0 = h.cost - h.slice d :=
  max_eq_left (sub_nonneg.mpr (h.slice_le d))

def buy : Holding K where
  qty := h.qty + d.qty
  cost := h.cost + d.quote
  realized := h.realized
  qty_nonneg := add_nonneg h.qty_nonneg d.qty_pos.le
  cost_nonneg := add_nonneg h.cost_nonneg d.quote_nonneg
  cost_of_flat hflat := absurd hflat (add_pos_of_nonneg_of_pos h.qty_nonneg d.qty_pos).ne'

def sell (proceeds : K) : Holding K where
  qty := h.qty - h.sold d
  cost := h.cost - h.slice d
  realized := h.realized + (proceeds - h.slice d)
  qty_nonneg := sub_nonneg.mpr (h.sold_le d)
  cost_nonneg := sub_nonneg.mpr (h.slice_le d)
  cost_of_flat hf := by
    rw [h.slice_of_all d (sub_eq_zero.mp hf).symm, sub_self]

def LeavesNoDust (dust : K) : Prop := h.qty - h.sold d = 0 ∨ dust < h.qty - h.sold d

section

variable {h d} {dust : K} (hrest : h.LeavesNoDust d dust)
include hrest

omit [IsStrictOrderedRing K] in
theorem qty_left : (if h.qty - h.sold d ≤ dust then 0 else h.qty - h.sold d) =
    h.qty - h.sold d := by
  split_ifs with hg
  · exact (hrest.resolve_right hg.not_gt).symm
  · rfl

omit [IsStrictOrderedRing K] in
theorem cost_left : (if h.qty - h.sold d ≤ dust then 0 else h.cost - h.slice d) =
    h.cost - h.slice d := by
  split_ifs with hg
  · have hz : h.qty - h.sold d = 0 := hrest.resolve_right hg.not_gt
    rw [h.slice_of_all d (sub_eq_zero.mp hz).symm, sub_self]
  · rfl

end

def deal (credit : Credit K) : Holding K :=
  match d.side with
  | .buy => h.buy d
  | .sell => h.sell d (credit h.qty d)

end Holding

variable [IsStrictOrderedRing K]

variable (credit : Credit K)

def after (deals : List (Deal K)) : Holding K := deals.foldl (fun h d => h.deal d credit) .empty

theorem after_snoc (deals : List (Deal K)) (d : Deal K) :
    after credit (deals ++ [d]) = (after credit deals).deal d credit :=
  foldl_append ..

open Holding

theorem Holding.qty_deal (h : Holding K) (d : Deal K) (credit : Credit K) :
    (h.deal d credit).qty = held h.qty d := by
  unfold deal held
  cases d.side <;> rfl

theorem qty_after (deals : List (Deal K)) : (after credit deals).qty = heldAfter deals := by
  induction deals using reverseRecOn with
  | nil => rfl
  | append_singleton deals d ih => rw [after_snoc, heldAfter_snoc, qty_deal, ih]

/-! ## Two rules for the proceeds -/

section

variable {small large : Credit K}

section

variable (small large : Credit K) (deals : List (Deal K))

theorem qty_after_eq : (after small deals).qty = (after large deals).qty := by
  rw [qty_after, qty_after]

theorem cost_after_eq : (after small deals).cost = (after large deals).cost := by
  induction deals using reverseRecOn with
  | nil => rfl
  | append_singleton deals d ih =>
    rw [after_snoc, after_snoc, deal, deal]
    cases d.side with
    | buy =>
      show (after small deals).cost + d.quote = (after large deals).cost + d.quote
      rw [ih]
    | sell =>
      have hsl := slice_congr d (qty_after_eq small large deals) ih
      show (after small deals).cost - (after small deals).slice d =
        (after large deals).cost - (after large deals).slice d
      rw [ih, hsl]

theorem realized_snoc (d : Deal K) :
    (after large (deals ++ [d])).realized - (after small (deals ++ [d])).realized =
    (after large deals).realized - (after small deals).realized +
      if d.side = .sell then large (heldAfter deals) d - small (heldAfter deals) d else 0 := by
  have hc := cost_after_eq small large deals
  have hsl := slice_congr d (qty_after_eq small large deals) hc
  rw [after_snoc, after_snoc, deal, deal, qty_after, qty_after]
  cases hsi : d.side with
  | buy => simp [buy]
  | sell =>
    simp only [sell, hsl, if_true]
    ring

end

variable (hle : ∀ held d, 0 ≤ held → small held d ≤ large held d)
include hle

theorem realized_le (deals : List (Deal K)) :
    (after small deals).realized ≤ (after large deals).realized := by
  induction deals using reverseRecOn with
  | nil => exact le_rfl
  | append_singleton deals d ih =>
    have hh : 0 ≤ heldAfter deals := qty_after small deals ▸ (after small deals).qty_nonneg
    have hd := hle (heldAfter deals) d hh
    have hsn := realized_snoc small large deals d
    split_ifs at hsn <;> linarith

/-- No later sale makes up for a difference. -/
theorem realized_eq_iff (deals : List (Deal K)) :
    (after small deals).realized = (after large deals).realized ↔ SameCredit small large deals := by
  induction deals using reverseRecOn with
  | nil => simp [SameCredit, after]
  | append_singleton deals d ih =>
    have hh : 0 ≤ heldAfter deals := qty_after small deals ▸ (after small deals).qty_nonneg
    have hd := hle (heldAfter deals) d hh
    have hbe := realized_le hle deals
    have hsn := realized_snoc small large deals d
    rw [sameCredit_snoc, ← ih]
    constructor
    · intro he
      split_ifs at hsn with hse
      · exact ⟨by linarith, fun _ => by linarith⟩
      · exact ⟨by linarith, fun h => absurd h hse⟩
    · intro ⟨he, hl⟩
      split_ifs at hsn with hse
      · have := hl hse
        linarith
      · linarith

end

/-! ## Rules in use -/

def full : Credit K := fun _ d => d.quote

def unlessFlat : Credit K := fun held d => if held ≤ 0 then 0 else d.quote

def prorated : Credit K := fun held d => d.quote * (min d.qty held / d.qty)

theorem prorated_le_unlessFlat (held : K) (d : Deal K) (hh : 0 ≤ held) :
    prorated held d ≤ unlessFlat held d := by
  unfold prorated unlessFlat
  split_ifs with hf
  · have hz : held = 0 := le_antisymm hf hh
    rw [hz, min_eq_right d.qty_pos.le, zero_div, mul_zero]
  · exact mul_le_of_le_one_right d.quote_nonneg (div_le_one_of_le₀ (min_le_left _ _) d.qty_pos.le)

omit [IsStrictOrderedRing K] in
theorem unlessFlat_le_full (held : K) (d : Deal K) : unlessFlat held d ≤ full held d := by
  unfold unlessFlat
  split_ifs
  · exact d.quote_nonneg
  · exact le_rfl

theorem prorated_eq_full_iff (held : K) (d : Deal K) :
    prorated held d = full held d ↔ (0 < d.quote → d.qty ≤ held) := by
  unfold prorated full
  constructor
  · intro he hq
    have ho : min d.qty held / d.qty = 1 := mul_left_cancel₀ hq.ne' (by rw [he, mul_one])
    rw [div_eq_one_iff_eq d.qty_pos.ne'] at ho
    exact min_eq_left_iff.mp ho
  · intro hc
    rcases d.quote_nonneg.eq_or_lt with hz | hpos
    · rw [← hz, zero_mul]
    · rw [min_eq_left (hc hpos), div_self d.qty_pos.ne', mul_one]

def Covered : Prop :=
  ∀ done d rest, deals = done ++ d :: rest → d.side = .sell → 0 < d.quote → d.qty ≤ heldAfter done

theorem sameCredit_iff_covered : SameCredit prorated full deals ↔ Covered deals := by
  unfold SameCredit Covered
  simp only [prorated_eq_full_iff]

theorem realized_agree_iff : ((after prorated deals).realized = (after unlessFlat deals).realized ∧
    (after unlessFlat deals).realized = (after full deals).realized) ↔ Covered deals := by
  have hl := realized_le prorated_le_unlessFlat deals
  have hh := realized_le (fun held d _ => unlessFlat_le_full held d) deals
  rw [← sameCredit_iff_covered, ← realized_eq_iff fun held d hhe =>
    (prorated_le_unlessFlat held d hhe).trans (unlessFlat_le_full held d)]
  constructor
  · intro ⟨hf, hse⟩
    exact hf.trans hse
  · intro he
    exact ⟨le_antisymm hl (hh.trans he.ge), le_antisymm hh (he.ge.trans hl)⟩

end SniperBot.Lib.AverageCost
