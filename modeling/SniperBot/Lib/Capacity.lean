import Mathlib.Algebra.BigOperators.Group.Multiset.Basic
import Mathlib.Algebra.Order.Field.Basic
import Mathlib.Algebra.Order.Group.Multiset
import Mathlib.Algebra.Order.BigOperators.Group.List
import Mathlib.Data.Multiset.AddSub
import Mathlib.Tactic.Linarith

/-!
# Capacity that is reserved before it is used

Two disciplines for sharing a bounded resource between demands that are admitted one by one, from
figures read at different moments. The first counts: a demand is reserved before it is in use, and
a newcomer has read those in use before the reservations. The second adds up: a demand is granted
what is in use and what others asked for leave, the others read first.
-/

namespace SniperBot.Lib.Capacity

open Multiset

/-! ## Counting -/

section

variable {ι : Type*}

/-- The names in use; those that are admitted but not in use yet; those in use whose
reservation is still there; and what newcomers have seen of those in use. -/
structure Slots (ι : Type*) where
  opened : Multiset ι
  waiting : Multiset ι
  done : Multiset ι
  seen : Set (Multiset ι)

namespace Slots

variable {limit : ℕ} {s t : Slots ι}

inductive Step (limit : ℕ) (s t : Slots ι) : Prop
  | shrink (hopened : t.opened ≤ s.opened) (hwaiting : t.waiting ≤ s.waiting)
      (hdone : t.done = s.done) (hseen : t.seen ⊆ s.seen)
  | look (ps : Multiset ι) (hps : s.opened ≤ ps) (hopened : t.opened = s.opened)
      (hwaiting : t.waiting = s.waiting) (hdone : t.done = s.done)
      (hseen : t.seen ⊆ insert ps s.seen)
  | enter (ps : Multiset ι) (x : ι) (hps : ps ∈ s.seen)
      (hroom : ps.card + (s.waiting + s.done).card < limit)
      (hnew : x ∉ ps) (hunreserved : x ∉ s.waiting + s.done) (hopened : t.opened = s.opened)
      (hwaiting : t.waiting = x ::ₘ s.waiting) (hdone : t.done = s.done)
      (hseen : t.seen ⊆ s.seen)
  | use (x : ι) (hopened : t.opened ≤ x ::ₘ s.opened) (hwaiting : s.waiting = x ::ₘ t.waiting)
      (hdone : t.done = x ::ₘ s.done) (hseen : t.seen ⊆ s.seen)
  | release (hopened : t.opened = s.opened) (hwaiting : t.waiting = s.waiting) (hseen : t.seen = ∅)

/-- No name twice, and within the limit as soon as anything is admitted. What a newcomer
has missed of those in use is still reserved. -/
structure Kept (limit : ℕ) (s : Slots ι) : Prop where
  room : s.waiting ≠ 0 → s.opened.card + s.waiting.card ≤ limit
  distinct : (s.opened + s.waiting).Nodup
  covered : ∀ ps ∈ s.seen, s.opened ≤ ps + s.done

theorem Kept.enter (h : Kept limit s) {ps : Multiset ι} {x : ι} (hps : ps ∈ s.seen)
    (hr : ps.card + (s.waiting + s.done).card < limit) (hn : x ∉ ps)
    (hun : x ∉ s.waiting + s.done) (ho : t.opened = s.opened)
    (hw : t.waiting = x ::ₘ s.waiting) (hd : t.done = s.done)
    (hse : t.seen ⊆ s.seen) : Kept limit t := by
  have hc := h.covered ps hps
  constructor
  · intro _
    have hca := card_le_card hc
    rw [card_add] at hca hr
    rw [ho, hw, card_cons]
    omega
  · rw [ho, hw, add_cons]
    refine nodup_cons.mpr ⟨fun hx => ?_, h.distinct⟩
    rcases mem_add.mp hx with hx | hx
    · rcases mem_add.mp (mem_of_le hc hx) with hx | hx
      · exact hn hx
      · exact hun (mem_add.mpr (.inr hx))
    · exact hun (mem_add.mpr (.inl hx))
  · intro ps' hp'
    rw [ho, hd]
    exact h.covered ps' (hse hp')

theorem Kept.use (h : Kept limit s) {x : ι} (ho : t.opened ≤ x ::ₘ s.opened)
    (hw : s.waiting = x ::ₘ t.waiting) (hd : t.done = x ::ₘ s.done)
    (hse : t.seen ⊆ s.seen) : Kept limit t := by
  constructor
  · intro _
    have hr := h.room (by rw [hw]; exact cons_ne_zero)
    have hc := card_le_card ho
    rw [card_cons] at hc
    rw [hw, card_cons] at hr
    omega
  · have hle : t.opened + t.waiting ≤ s.opened + s.waiting := by
      rw [hw, add_cons, ← cons_add]
      exact Multiset.add_le_add_right ho
    exact nodup_of_le hle h.distinct
  · intro ps hps
    rw [hd, add_cons]
    exact ho.trans (cons_le_cons x (h.covered ps (hse hps)))

theorem Kept.step (h : Kept limit s) (hs : Step limit s t) : Kept limit t := by
  cases hs with
  | shrink ho hw hd hse =>
    constructor
    · intro hn
      have hr := h.room fun hz => hn (le_zero.mp (hz ▸ hw))
      have := card_le_card ho
      have := card_le_card hw
      omega
    · exact nodup_of_le (add_le_add ho hw) h.distinct
    · intro ps hps
      rw [hd]
      exact ho.trans (h.covered ps (hse hps))
  | look ps hps ho hw hd hse =>
    constructor
    · rw [ho, hw]
      exact h.room
    · rw [ho, hw]
      exact h.distinct
    · intro ps' hp'
      rw [ho, hd]
      rcases hse hp' with rfl | hp'
      · exact hps.trans (le_add_right _ _)
      · exact h.covered ps' hp'
  | enter ps x hps hr hne hun ho hw hd hse =>
    exact h.enter hps hr hne hun ho hw hd hse
  | use x ho hw hd hse => exact h.use ho hw hd hse
  | release ho hw hse =>
    constructor
    · rw [ho, hw]
      exact h.room
    · rw [ho, hw]
      exact h.distinct
    · intro ps hps
      rw [hse] at hps
      cases hps

end Slots

end

/-! ## Adding up -/

section

variable {α : Type*} [Field α] [LinearOrder α] [IsStrictOrderedRing α]

/-- A demand that has asked for something, with what others had asked for when it came in;
or a demand that has been granted something. -/
inductive Demand (α : Type*) where
  | asked (bound others : α)
  | granted (amount : α)

namespace Demand

def weight : Demand α → α
  | asked bound _ => bound
  | granted amount => amount

def grant : Demand α → α
  | asked _ _ => 0
  | granted amount => amount

end Demand

open Demand

/-- In the order of arrival: a demand without a grant has counted all before it, and one
with a grant leaves everything up to it within the cap. -/
structure Ordered (cap used : α) (q : List (Demand α)) : Prop where
  nonneg : ∀ d ∈ q, 0 ≤ d.weight
  counted : ∀ before bound others after, q = before ++ .asked bound others :: after →
    (before.map weight).sum ≤ others
  fits : ∀ before amount after, q = before ++ .granted amount :: after →
    used + (before.map weight).sum + amount ≤ cap

variable {cap used used' bound others amount : α} {q before after : List (Demand α)}
  {d : Demand α}

theorem split_removed {β : Type*} {l l' before after : List β} {x : β}
    (h : l ++ l' = before ++ x :: after) :
    (∃ mid, l = before ++ x :: mid ∧ after = mid ++ l') ∨
    ∃ mid, before = l ++ mid ∧ l' = mid ++ x :: after := by
  rcases List.append_eq_append_iff.mp h with ⟨mid, hbe, hl'⟩ | ⟨mid, hl, ha⟩
  · exact .inr ⟨mid, hbe, hl'⟩
  · cases mid with
    | nil => exact .inr ⟨[], by simpa using hl.symm, by simpa using ha.symm⟩
    | cons y mid =>
      obtain ⟨rfl, rfl⟩ := List.cons.inj ha
      exact .inl ⟨mid, hl, rfl⟩

theorem split_replaced {β : Type*} {l l' before after : List β} {x y : β}
    (h : l ++ y :: l' = before ++ x :: after) :
    (∃ mid, l = before ++ x :: mid) ∨ (before = l ∧ x = y) ∨
    ∃ mid, before = l ++ y :: mid ∧ l' = mid ++ x :: after := by
  rcases split_removed h with ⟨mid, hl, -⟩ | ⟨mid, hbe, hta⟩
  · exact .inl ⟨mid, hl⟩
  · cases mid with
    | nil =>
      obtain ⟨rfl, -⟩ := List.cons.inj hta
      exact .inr (.inl ⟨by simpa using hbe, rfl⟩)
    | cons z mid =>
      obtain ⟨rfl, hl'⟩ := List.cons.inj hta
      exact .inr (.inr ⟨mid, hbe, hl'⟩)

namespace Ordered

theorem sum_nonneg (h : Ordered cap used q) {l : List (Demand α)} (hl : l ⊆ q) :
    0 ≤ (l.map weight).sum := by
  refine List.sum_nonneg fun w hw => ?_
  obtain ⟨d, hd, rfl⟩ := List.mem_map.mp hw
  exact h.nonneg d (hl hd)

omit [IsStrictOrderedRing α] in
theorem enqueue (h : Ordered cap used q) (hpos : 0 ≤ bound) (ho : (q.map weight).sum ≤ others) :
    Ordered cap used (q ++ [.asked bound others]) := by
  constructor
  · intro x hx
    rcases List.mem_append.mp hx with hx | hx
    · exact h.nonneg x hx
    · rw [List.mem_singleton.mp hx]
      exact hpos
  · intro front b o back he
    rcases split_replaced he with ⟨mid, hq⟩ | ⟨rfl, hl⟩ | ⟨mid, -, hn⟩
    · exact h.counted front b o mid hq
    · obtain ⟨rfl, rfl⟩ := asked.inj hl
      exact ho
    · simp at hn
  · intro front g back he
    rcases split_replaced he with ⟨mid, hq⟩ | ⟨-, hl⟩ | ⟨mid, -, hn⟩
    · exact h.fits front g mid hq
    · cases hl
    · simp at hn

theorem settle (h : Ordered cap used (before ++ .asked bound others :: after))
    (hpos : 0 ≤ amount) (hle : amount ≤ bound) (hfi : used + others + amount ≤ cap) :
    Ordered cap used (before ++ .granted amount :: after) := by
  constructor
  · intro x hx
    rcases List.mem_append.mp hx with hx | hx
    · exact h.nonneg x (List.mem_append_left _ hx)
    · rcases List.mem_cons.mp hx with rfl | hx
      · exact hpos
      · exact h.nonneg x (List.mem_append_right _ (List.mem_cons_of_mem _ hx))
  · intro front b o back he
    rcases split_replaced he with ⟨mid, hbe⟩ | ⟨-, hse⟩ | ⟨mid, hf, ha⟩
    · exact h.counted front b o (mid ++ .asked bound others :: after) (by simp [hbe])
    · cases hse
    · have hold := h.counted (before ++ .asked bound others :: mid) b o back (by simp [ha])
      rw [hf]
      simp only [List.map_append, List.map_cons, List.sum_append, List.sum_cons, weight] at hold ⊢
      linarith
  · intro front g back he
    rcases split_replaced he with ⟨mid, hbe⟩ | ⟨rfl, hse⟩ | ⟨mid, hf, ha⟩
    · exact h.fits front g (mid ++ .asked bound others :: after) (by simp [hbe])
    · obtain rfl := granted.inj hse
      have hc := h.counted front bound others after rfl
      linarith
    · have hold := h.fits (before ++ .asked bound others :: mid) g back (by simp [ha])
      rw [hf]
      simp only [List.map_append, List.map_cons, List.sum_append, List.sum_cons, weight] at hold ⊢
      linarith

theorem remove (h : Ordered cap used (before ++ d :: after))
    (hus : used' ≤ used ∨ ∃ g, d = .granted g ∧ used' ≤ used + g) :
    Ordered cap used' (before ++ after) := by
  have hd : 0 ≤ d.weight := h.nonneg d (List.mem_append_right _ List.mem_cons_self)
  have hsp : used' ≤ used + d.weight := by
    rcases hus with hle | ⟨g, rfl, hle⟩
    · linarith
    · exact hle
  constructor
  · intro x hx
    refine h.nonneg x ?_
    rcases List.mem_append.mp hx with hx | hx
    · exact List.mem_append_left _ hx
    · exact List.mem_append_right _ (List.mem_cons_of_mem _ hx)
  · intro front b o back he
    rcases split_removed he with ⟨mid, hbe, -⟩ | ⟨mid, hf, ha⟩
    · exact h.counted front b o (mid ++ d :: after) (by simp [hbe])
    · have hold := h.counted (before ++ d :: mid) b o back (by simp [ha])
      rw [hf]
      simp only [List.map_append, List.map_cons, List.sum_append, List.sum_cons] at hold ⊢
      linarith
  · intro front g back he
    rcases split_removed he with ⟨mid, hbe, -⟩ | ⟨mid, hf, ha⟩
    · have hold := h.fits front g (mid ++ d :: after) (by simp [hbe])
      rcases hus with hle | ⟨g', rfl, hle⟩
      · linarith
      · -- everything before the demand fits together with its grant
        have hl := h.fits before g' after rfl
        have hm : 0 ≤ (mid.map weight).sum := by
          refine h.sum_nonneg fun y hy => ?_
          simp [hbe, hy]
        rw [hbe] at hl
        simp only [List.map_append, List.map_cons, List.sum_append, List.sum_cons, weight] at hl
        linarith
    · have hold := h.fits (before ++ d :: mid) g back (by simp [ha])
      rw [hf]
      simp only [List.map_append, List.map_cons, List.sum_append, List.sum_cons] at hold ⊢
      linarith

end Ordered

/-- Demands that can be put in such an order. -/
def Fair (cap used : α) (m : Multiset (Demand α)) : Prop :=
  ∃ q : List (Demand α), (q : Multiset (Demand α)) = m ∧ Ordered cap used q

namespace Fair

variable {m m' : Multiset (Demand α)}

omit [IsStrictOrderedRing α] in
theorem empty : Fair cap used 0 := by
  refine ⟨[], rfl, ?_⟩
  constructor <;> simp

omit [IsStrictOrderedRing α] in
theorem exists_split (h : Fair cap used (d ::ₘ m)) :
    ∃ before after, ((before ++ after : List (Demand α)) : Multiset (Demand α)) = m ∧
    Ordered cap used (before ++ d :: after) := by
  obtain ⟨q, hq, ho⟩ := h
  have hm : d ∈ q := by
    rw [← mem_coe, hq]
    exact mem_cons_self d m
  obtain ⟨before, after, rfl⟩ := List.append_of_mem hm
  refine ⟨before, after, ?_, ho⟩
  have hpe : ((before ++ d :: after : List (Demand α)) : Multiset (Demand α)) =
      d ::ₘ ((before ++ after : List (Demand α)) : Multiset (Demand α)) := by
    rw [cons_coe, coe_eq_coe]
    exact List.perm_middle
  exact (cons_inj_right d).mp (hpe.symm.trans hq)

omit [IsStrictOrderedRing α] in
theorem enqueue (h : Fair cap used m) (hpos : 0 ≤ bound) (ho : (m.map weight).sum ≤ others) :
    Fair cap used (.asked bound others ::ₘ m) := by
  obtain ⟨q, rfl, hor⟩ := h
  refine ⟨q ++ [.asked bound others], ?_, hor.enqueue hpos (by simpa using ho)⟩
  rw [cons_coe, coe_eq_coe]
  exact List.perm_append_singleton _ q

theorem settle (h : Fair cap used (.asked bound others ::ₘ m)) (hpos : 0 ≤ amount)
    (hle : amount ≤ bound) (hf : used + others + amount ≤ cap) :
    Fair cap used (.granted amount ::ₘ m) := by
  obtain ⟨before, after, rfl, ho⟩ := h.exists_split
  refine ⟨before ++ .granted amount :: after, ?_, ho.settle hpos hle hf⟩
  rw [cons_coe, coe_eq_coe]
  exact List.perm_middle

theorem leave (h : Fair cap used (d ::ₘ m)) : Fair cap used m := by
  obtain ⟨before, after, rfl, ho⟩ := h.exists_split
  exact ⟨before ++ after, rfl, ho.remove (.inl le_rfl)⟩

theorem use (h : Fair cap used (.granted amount ::ₘ m)) (hle : used' ≤ used + amount) :
    Fair cap used' m := by
  obtain ⟨before, after, rfl, ho⟩ := h.exists_split
  exact ⟨before ++ after, rfl, ho.remove (.inr ⟨amount, rfl, hle⟩)⟩

theorem mono (h : Fair cap used m) (hm : m' ≤ m) (hle : used' ≤ used) : Fair cap used' m' := by
  obtain ⟨gone, rfl⟩ := Multiset.le_iff_exists_add.mp hm
  induction gone using Multiset.induction_on with
  | empty =>
    obtain ⟨q, hq, ho⟩ := h
    refine ⟨q, by simpa using hq, ho.nonneg, ho.counted, fun before g after he => ?_⟩
    have := ho.fits before g after he
    linarith
  | cons d gone ih =>
    rw [add_cons] at h
    exact ih h.leave (le_add_right _ _)

theorem grants_le (h : Fair cap used m) (hg : .granted amount ∈ m) :
    used + (m.map grant).sum ≤ cap := by
  obtain ⟨q, rfl, ho⟩ := h
  rw [map_coe, sum_coe]
  -- by induction from the end: the last grant accounts for all before it
  induction q using List.reverseRecOn with
  | nil => simp at hg
  | append_singleton q d ih =>
    have hi : Ordered cap used q := by
      have hr : Ordered cap used (q ++ []) := ho.remove (.inl le_rfl)
      rwa [List.append_nil] at hr
    cases d with
    | asked bound others =>
      have hrest : .granted amount ∈ q := by
        rcases List.mem_append.mp hg with hm | hm
        · exact hm
        · cases List.mem_singleton.mp hm
      simpa [grant] using ih hi hrest
    | granted g =>
      have hf := ho.fits q g [] rfl
      have hle : (q.map grant).sum ≤ (q.map weight).sum := by
        refine List.sum_le_sum fun x hx => ?_
        have hx := hi.nonneg x hx
        cases x with
        | asked bound others => exact hx
        | granted amount => exact le_rfl
      simp only [List.map_append, List.map_cons, List.map_nil, List.sum_append, List.sum_cons,
        List.sum_nil, add_zero, grant]
      linarith

end Fair

end

end SniperBot.Lib.Capacity
