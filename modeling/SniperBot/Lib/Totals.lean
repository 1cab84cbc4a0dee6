import Mathlib.Algebra.BigOperators.Group.Finset.Basic
import Mathlib.Algebra.Order.BigOperators.Group.Finset
import Mathlib.Algebra.Order.BigOperators.Group.List
import Mathlib.Data.List.Nodup
import Mathlib.Tactic.Common

/-!
# Amounts covered by a reserve

A family of amounts over any index type is covered by a bound when no finite part of it adds up to
more. The lemmas say how a change of one or two amounts moves the bound. Sums over lists are
compared part by part.
-/

namespace SniperBot.Lib.Totals

open Finset

variable {ι : Type} {f g : ι → ℕ} {B C n : ℕ}

/-- No finite set of indices holds more than `B` together. -/
def Covers (B : ℕ) (f : ι → ℕ) : Prop := ∀ S : Finset ι, ∑ i ∈ S, f i ≤ B

namespace Covers

theorem mono (h : Covers B f) (hBC : B ≤ C) : Covers C f := fun S => (h S).trans hBC

theorem zero (B : ℕ) : Covers B (fun _ : ι => 0) := by
  intro S
  simp

theorem single_le (h : Covers B f) (i : ι) : f i ≤ B := by
  simpa using h {i}

variable [DecidableEq ι]

theorem iff_insert (i : ι) : Covers B f ↔ ∀ S : Finset ι, i ∉ S → f i + ∑ j ∈ S, f j ≤ B := by
  constructor
  · intro h S hi
    rw [← sum_insert hi]
    exact h _
  · intro h S
    calc ∑ j ∈ S, f j ≤ ∑ j ∈ insert i (S.erase i), f j :=
          sum_le_sum_of_subset (insert_erase_subset i S)
      _ = f i + ∑ j ∈ S.erase i, f j := sum_insert (notMem_erase i S)
      _ ≤ B := h _ (notMem_erase i S)

theorem replace (h : Covers B f) {i : ι} (hi : g i + B ≤ f i + C)
    (hn : ∀ j, j ≠ i → g j = f j) : Covers C g := by
  rw [iff_insert i]
  intro S hS
  have hsu : ∑ j ∈ S, g j = ∑ j ∈ S, f j := sum_congr rfl fun j hj => hn j fun hji => hS (hji ▸ hj)
  have hB := (iff_insert i).mp h S hS
  omega

theorem exchange (h : Covers B f) {i j : ι} (hij : i ≠ j) (hsu : g i + g j ≤ f i + f j)
    (hn : ∀ k, k ≠ i → k ≠ j → g k = f k) : Covers B g := by
  rw [iff_insert i]
  intro S hi
  -- enlarge the set so that it holds both indices, then compare term by term
  have hg : ∑ k ∈ S, g k ≤ g j + ∑ k ∈ S.erase j, g k := by
    rw [← sum_insert (notMem_erase j S)]
    exact sum_le_sum_of_subset (insert_erase_subset j S)
  have hrest : ∑ k ∈ S.erase j, g k = ∑ k ∈ S.erase j, f k := by
    refine sum_congr rfl fun k hk => hn k ?_ (ne_of_mem_erase hk)
    exact fun hki => hi (hki ▸ mem_of_mem_erase hk)
  have hi' : i ∉ insert j (S.erase j) := by
    simp only [mem_insert, mem_erase, not_or, not_and]
    exact ⟨hij, fun _ => hi⟩
  have hB := (iff_insert i).mp h _ hi'
  rw [sum_insert (notMem_erase j S)] at hB
  omega

theorem pair_le (h : Covers B f) {i j : ι} (hi : i ≠ j) : f i + f j ≤ B := by
  simpa [sum_pair hi] using h {i, j}

end Covers

section

variable {α M : Type*} [AddCommMonoid M] [PartialOrder M] [IsOrderedAddMonoid M] {w : α → M}
  {l m : List α}

theorem sum_le_of_sublist (h : l.Sublist m) (hw : ∀ a ∈ m, 0 ≤ w a) :
    (l.map w).sum ≤ (m.map w).sum :=
  (h.map w).sum_le_sum (List.forall_mem_map.mpr hw)

theorem sum_le_of_subset (hn : l.Nodup) (hsub : l ⊆ m) (hw : ∀ a ∈ m, 0 ≤ w a) :
    (l.map w).sum ≤ (m.map w).sum := by
  obtain ⟨l', hpe, hsu⟩ := List.subperm_of_subset hn hsub
  rw [← (hpe.map w).sum_eq]
  exact sum_le_of_sublist hsu hw

end

end SniperBot.Lib.Totals
