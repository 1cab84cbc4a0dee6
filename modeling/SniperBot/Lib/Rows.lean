import Mathlib.Data.List.Forall2
import Mathlib.Data.List.Pairwise

/-!
# Tables kept as lists of rows

Rows in the order in which they were added. A write changes rows in their places, so that old
and new rows correspond one to one, and may add a row at the end. What holds between any two
rows is carried over along that correspondence.
-/

namespace SniperBot.Lib.Rows

open List

variable {α β : Type*}

def modifyFirst (p : α → Bool) (f : α → α) : List α → List α
  | [] => []
  | r :: rows => if p r then f r :: rows else r :: modifyFirst p f rows

def maxByKey (key : α → Int) : List α → Option α
  | [] => none
  | r :: rows =>
    match maxByKey key rows with
    | none => some r
    | some best => if key best < key r then some r else some best

variable {key : α → Int} {rows : List α} {R : α → β → Prop} {rows' : List β} {S : α → α → Prop} {p : α → Bool} {r : α}

theorem mem_of_maxByKey {best : α} (h : maxByKey key rows = some best) : best ∈ rows := by
  induction rows generalizing best with
  | nil => cases h
  | cons r rows ih =>
    unfold maxByKey at h
    cases hrest : maxByKey key rows with
    | none =>
      simp only [hrest] at h
      cases h
      exact mem_cons_self
    | some b =>
      simp only [hrest] at h
      split_ifs at h
      · cases h
        exact mem_cons_self
      · cases h
        exact mem_cons_of_mem r (ih hrest)

theorem maxByKey_eq_none (h : maxByKey key rows = none) : rows = [] := by
  cases rows with
  | nil => rfl
  | cons r rows =>
    unfold maxByKey at h
    cases hrest : maxByKey key rows with
    | none =>
      simp only [hrest] at h
      cases h
    | some b =>
      simp only [hrest] at h
      split_ifs at h

theorem le_maxByKey {best r : α} (h : maxByKey key rows = some best) (hr : r ∈ rows) :
    key r ≤ key best := by
  induction rows generalizing best with
  | nil => cases hr
  | cons x rows ih =>
    unfold maxByKey at h
    cases hrest : maxByKey key rows with
    | none =>
      simp only [hrest] at h
      cases h
      rw [maxByKey_eq_none hrest, mem_singleton] at hr
      exact Int.le_of_eq (congrArg key hr)
    | some b =>
      simp only [hrest] at h
      rcases mem_cons.mp hr with rfl | hr
      · split_ifs at h with hl
        · cases h
          exact Int.le_refl _
        · cases h
          omega
      · have hle := ih hrest hr
        split_ifs at h with hl
        · cases h
          omega
        · cases h
          exact hle

theorem forall₂_modifyFirst {R : α → α → Prop} {f : α → α} (hr : ∀ r, R r r)
    (hf : ∀ r, p r = true → R r (f r)) (rows : List α) : Forall₂ R rows (modifyFirst p f rows) := by
  induction rows with
  | nil => exact .nil
  | cons r rows ih =>
    unfold modifyFirst
    split_ifs with hp
    · exact .cons (hf r hp) (forall₂_same.mpr fun x _ => hr x)
    · exact .cons (hr r) ih

theorem forall₂_map {R : α → α → Prop} {f : α → α} (hf : ∀ r ∈ rows, R r (f r)) :
    Forall₂ R rows (rows.map f) := by
  rw [forall₂_map_right_iff]
  exact forall₂_same.mpr hf

theorem mem_left (h : Forall₂ R rows rows') (hr : r ∈ rows) : ∃ r' ∈ rows', R r r' := by
  induction h with
  | nil => cases hr
  | @cons a b l l' ha _ ih =>
    rcases mem_cons.mp hr with rfl | hr
    · exact ⟨b, mem_cons_self, ha⟩
    · obtain ⟨r', hr', hR⟩ := ih hr
      exact ⟨r', mem_cons_of_mem b hr', hR⟩

theorem mem_right (h : Forall₂ R rows rows') {r' : β} (hr' : r' ∈ rows') : ∃ r ∈ rows, R r r' := by
  obtain ⟨r, hr, hR⟩ := mem_left h.flip hr'
  exact ⟨r, hr, hR⟩

theorem of_mem_zip_append {added : List β} (h : Forall₂ R rows rows') {r' : β}
    (hr : (r, r') ∈ rows.zip (rows' ++ added)) :
    R r r' := by
  induction h with
  | nil => cases hr
  | cons ha _ ih =>
    rcases mem_cons.mp hr with he | hr
    · obtain ⟨rfl, rfl⟩ := Prod.mk.inj he
      exact ha
    · exact ih hr

theorem pairwise_of_forall₂ {T : β → β → Prop}
    (hT : ∀ a b a' b', R a a' → R b b' → S a b → T a' b') (h : Forall₂ R rows rows')
    (hp : rows.Pairwise S) : rows'.Pairwise T := by
  induction h with
  | nil => exact .nil
  | @cons a b l l' ha hrest ih =>
    obtain ⟨hh, hta⟩ := pairwise_cons.mp hp
    refine pairwise_cons.mpr ⟨?_, ih hta⟩
    intro b' hb'
    obtain ⟨a', ha', hR⟩ := mem_right hrest hb'
    exact hT a a' b b' ha hR (hh a' ha')

theorem pairwise_concat (hp : rows.Pairwise S) (hr : ∀ x ∈ rows, S x r) :
    (rows ++ [r]).Pairwise S := by
  refine pairwise_append.mpr ⟨hp, pairwise_singleton S r, ?_⟩
  intro x hx y hy
  obtain rfl := mem_singleton.mp hy
  exact hr x hx

theorem length_filter_le_one
    (h : rows.Pairwise fun a b => ¬ (p a = true ∧ p b = true)) : (rows.filter p).length ≤ 1 := by
  have hpa := h.filter p
  cases hr : rows.filter p with
  | nil => exact Nat.zero_le 1
  | cons a rest =>
    cases rest with
    | nil => exact Nat.le_refl 1
    | cons b rest =>
      have hp : ∀ x ∈ a :: b :: rest, p x = true := by
        intro x hx
        rw [← hr] at hx
        exact (mem_filter.mp hx).2
      rw [hr, pairwise_cons] at hpa
      exact absurd ⟨hp a mem_cons_self, hp b (mem_cons_of_mem a mem_cons_self)⟩
        (hpa.1 b mem_cons_self)

end SniperBot.Lib.Rows
