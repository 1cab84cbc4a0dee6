import Mathlib.Algebra.BigOperators.Group.List.Basic
import Mathlib.Algebra.Order.BigOperators.Group.List
import Mathlib.Algebra.Order.Monoid.Defs

/-!
# Sizes of named items

Items come one after another, each with an id of its own and a size that is not negative.
What some ids stand for is the sum of the sizes of the items that carry them.
-/

namespace SniperBot.Lib.Tally

open List

structure Item (ι K : Type*) where
  id : ι
  size : K

variable {ι K : Type*} [AddCommMonoid K]

def total (items : List (Item ι K)) : K := (items.map Item.size).sum

@[simp] theorem total_nil : total ([] : List (Item ι K)) = 0 := rfl

theorem total_append (as bs : List (Item ι K)) : total (as ++ bs) = total as + total bs := by
  rw [total, map_append, sum_append]
  rfl

theorem total_cons (x : Item ι K) (items : List (Item ι K)) :
    total (x :: items) = x.size + total items := by
  rfl

theorem total_snoc (items : List (Item ι K)) (x : Item ι K) :
    total (items ++ [x]) = total items + x.size := by
  rw [total_append, total_cons, total_nil, add_zero]

variable [DecidableEq ι]

/-- What the ids stand for. -/
def known (items : List (Item ι K)) (ids : List ι) : K := total (items.filter (·.id ∈ ids))

@[simp] theorem known_nil (items : List (Item ι K)) : known items [] = 0 := by
  simp [known]

theorem known_cons {items : List (Item ι K)} (hn : (items.map Item.id).Nodup) {x : Item ι K}
    (hx : x ∈ items) {ids : List ι} (hne : x.id ∉ ids) :
    known items (x.id :: ids) = known items ids + x.size := by
  obtain ⟨before, later, rfl⟩ := append_of_mem hx
  have ho : ∀ y, y ∈ before ∨ y ∈ later → y.id ≠ x.id := by
    intro y hy he
    rw [map_append, map_cons, perm_middle.nodup_iff] at hn
    refine (nodup_cons.mp hn).1 ?_
    rw [← he, ← map_append]
    exact mem_map_of_mem (mem_append.mpr hy)
  have hsa : ∀ part : List (Item ι K), (∀ y ∈ part, y.id ≠ x.id) →
      part.filter (·.id ∈ x.id :: ids) = part.filter (·.id ∈ ids) := by
    intro part hpa
    refine filter_congr fun y hy => ?_
    simp [hpa y hy]
  have hi : decide (x.id ∈ x.id :: ids) = true := decide_eq_true mem_cons_self
  have hou : ¬ decide (x.id ∈ ids) = true := by simpa using hne
  have hf := filter_cons_of_pos (p := fun y : Item ι K => decide (y.id ∈ x.id :: ids))
    (l := later) hi
  have hse := filter_cons_of_neg (p := fun y : Item ι K => decide (y.id ∈ ids)) (l := later) hou
  unfold known
  rw [filter_append, filter_append, hf, hse,
    hsa before fun y hy => ho y (.inl hy), hsa later fun y hy => ho y (.inr hy),
    total_append, total_append, total_cons, add_assoc, add_comm x.size]

variable [PartialOrder K] [IsOrderedAddMonoid K] {items : List (Item ι K)} {ids ids' : List ι}
  (hsize : ∀ x ∈ items, 0 ≤ x.size)
include hsize

omit [DecidableEq ι] in
theorem total_nonneg : 0 ≤ total items := by
  refine sum_nonneg ?_
  intro s hs
  obtain ⟨x, hx, rfl⟩ := mem_map.mp hs
  exact hsize x hx

omit [DecidableEq ι] in
theorem total_filter_le (p : Item ι K → Bool) : total (items.filter p) ≤ total items := by
  refine List.Sublist.sum_le_sum (filter_sublist.map _) ?_
  intro s hs
  obtain ⟨x, hx, rfl⟩ := mem_map.mp hs
  exact hsize x hx

omit [DecidableEq ι] in
theorem total_take_le (k : Nat) : total (items.take k) ≤ total items := by
  refine List.Sublist.sum_le_sum ((take_sublist k items).map _) ?_
  intro s hs
  obtain ⟨x, hx, rfl⟩ := mem_map.mp hs
  exact hsize x hx

theorem known_le_total (ids : List ι) : known items ids ≤ total items := total_filter_le hsize _

theorem known_mono (h : ∀ x ∈ items, x.id ∈ ids → x.id ∈ ids') :
    known items ids ≤ known items ids' := by
  have hf : items.filter (·.id ∈ ids) = (items.filter (·.id ∈ ids')).filter (·.id ∈ ids) := by
    rw [filter_filter]
    refine filter_congr fun x hx => ?_
    by_cases hi : x.id ∈ ids
    · simp [h x hx hi]
    · simp [hi]
  unfold known
  rw [hf]
  exact total_filter_le (fun x hx => hsize x (mem_of_mem_filter hx)) _

omit hsize in
theorem known_append_le (more : List (Item ι K)) (hm : ∀ x ∈ more, 0 ≤ x.size)
    (ids : List ι) : known items ids ≤ known (items ++ more) ids := by
  unfold known
  rw [filter_append, total_append]
  refine le_add_of_nonneg_right (total_nonneg fun x hx => ?_)
  exact hm x (mem_of_mem_filter hx)

end SniperBot.Lib.Tally
