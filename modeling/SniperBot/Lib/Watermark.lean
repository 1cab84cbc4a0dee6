import Mathlib.Order.Lattice

/-!
# Watermarks

Positions are taken one after another, each beyond the one before. Whatever lies between
the first and the last of them was taken itself or is excused.
-/

namespace SniperBot.Lib.Watermark

open List

variable {α : Type*} [LinearOrder α]

structure Sound (taken : List α) (excused : α → Prop) : Prop where
  increasing : taken.Pairwise (· < ·)
  complete : ∀ {first last p}, taken.head? = some first → taken.getLast? = some last →
    first ≤ p → p ≤ last → p ∈ taken ∨ excused p

variable {taken : List α} {excused excused' : α → Prop}

theorem sound_nil : Sound ([] : List α) excused where
  increasing := .nil
  complete h := by cases h

namespace Sound

variable (h : Sound taken excused)
include h

theorem mono (hi : ∀ p, excused p → excused' p) : Sound taken excused' where
  increasing := h.increasing
  complete hf hl hg hle := (h.complete hf hl hg hle).imp_right (hi _)

theorem nodup : taken.Nodup := h.increasing.imp fun hl => hl.ne

theorem le_last {last x : α} (hl : taken.getLast? = some last) (hx : x ∈ taken) : x ≤ last := by
  obtain ⟨before, rfl⟩ := getLast?_eq_some_iff.mp hl
  rcases mem_append.mp hx with hx | hx
  · exact ((pairwise_append.mp h.increasing).2.2 x hx last mem_cons_self).le
  · exact (mem_singleton.mp hx).le

theorem push {p : α} (hnext : ∀ last, taken.getLast? = some last →
    last < p ∧ ∀ q, last < q → q < p → excused q) :
    Sound (taken ++ [p]) excused where
  increasing := by
    refine pairwise_append.mpr ⟨h.increasing, pairwise_singleton _ _, ?_⟩
    intro x hx y hy
    rw [mem_singleton.mp hy]
    cases hl : taken.getLast? with
    | none =>
      rw [getLast?_eq_none_iff.mp hl] at hx
      cases hx
    | some last => exact (h.le_last hl hx).trans_lt (hnext last hl).1
  complete := by
    intro first last q hf hl hg hle
    rw [getLast?_concat] at hl
    obtain rfl : p = last := Option.some.inj hl
    rcases hle.eq_or_lt with rfl | hlt
    · exact .inl (mem_append_right _ mem_cons_self)
    · cases hta : taken.getLast? with
      | none =>
        rw [getLast?_eq_none_iff.mp hta] at hf
        obtain rfl : p = first := Option.some.inj hf
        exact absurd hlt hg.not_gt
      | some before =>
        have hf : taken.head? = some first := by
          cases taken with
          | nil => cases hta
          | cons x rest => exact hf
        rcases le_or_gt q before with hq | hq
        · exact (h.complete hf hta hg hq).imp_left (mem_append_left _)
        · exact .inr ((hnext before hta).2 q hq hlt)

end Sound

end SniperBot.Lib.Watermark
