import Mathlib.Data.Multiset.MapFold
import SniperBot.Lib.Interleaving

/-!
# Calls that take effect in their last section

A call reads in its first sections and writes in its last. If every section finds what its call
relies on, an interleaving does what the calls do one after the other, in the order in which they
end.
-/

namespace SniperBot.Lib.Serial

open Lib.Runs Lib.Interleaving Multiset

universe u v w z

variable {σ : Type u} {κ : Type v} {ρ : Type w} {ι : Type z}

section

variable (origin : κ → ι) (tr : List (Entry (State σ κ) (Label κ ρ)))

def begun : List ι := tr.filterMap fun e =>
    match e.label with
    | .call k => some (origin k)
    | .act _ _ => none

def ended : List ι := tr.filterMap fun e =>
    match e.label with
    | .act k (.inr _) => some (origin k)
    | _ => none

end

/-- The section that runs finds what its call relies on. -/
def Grounded (I : σ → κ → Prop) (e : Entry (State σ κ) (Label κ ρ)) : Prop :=
  match e.label with
  | .call _ => True
  | .act k _ => I e.pre.shared k

/-- The sections of a call are those of one whole: all but the last leave the shared object
alone, and the last does what the whole does. -/
structure Whole (act : κ → σ → σ × (κ ⊕ ρ)) (origin : κ → ι) (whole : ι → σ → σ)
    (I : σ → κ → Prop) : Prop where
  goes_on : ∀ k x k', I x k → (act k x).2 = .inl k' → (act k x).1 = x ∧ origin k' = origin k
  ends : ∀ k x r, I x k → (act k x).2 = .inr r → (act k x).1 = whole (origin k) x

variable {act : κ → σ → σ × (κ ⊕ ρ)} {entry : κ → Prop} {origin : κ → ι} {whole : ι → σ → σ}
  {I : σ → κ → Prop} {tr : List (Entry (State σ κ) (Label κ ρ))} {s t : State σ κ}

theorem begun_snoc_call (k : κ) :
    begun origin (tr ++ [⟨s, .call k, t⟩]) = begun origin tr ++ [origin k] := by
  unfold begun
  rw [List.filterMap_append]
  rfl

theorem begun_snoc_act (k : κ) (r : κ ⊕ ρ) :
    begun origin (tr ++ [⟨s, .act k r, t⟩]) = begun origin tr := by
  unfold begun
  rw [List.filterMap_append]
  exact List.append_nil _

theorem ended_snoc_call (k : κ) : ended origin (tr ++ [⟨s, .call k, t⟩]) = ended origin tr := by
  unfold ended
  rw [List.filterMap_append]
  exact List.append_nil _

theorem ended_snoc_next (k k' : κ) :
    ended origin (tr ++ [⟨s, .act k (.inl k'), t⟩]) = ended origin tr := by
  unfold ended
  rw [List.filterMap_append]
  exact List.append_nil _

theorem ended_snoc_last (k : κ) (r : ρ) :
    ended origin (tr ++ [⟨s, .act k (.inr r), t⟩]) = ended origin tr ++ [origin k] := by
  unfold ended
  rw [List.filterMap_append]
  rfl

/-- The shared object is what the calls that have ended make of it one after the other, and the
others are under way. -/
theorem serial_of_run (h : Whole act origin whole I) {x : σ}
    (hru : Run (Step act entry) ⟨x, []⟩ tr t) (hg : ∀ e ∈ tr, Grounded I e) :
    t.shared = (ended origin tr).foldl (fun x i => whole i x) x ∧ (begun origin tr : Multiset ι) =
      (ended origin tr : Multiset ι) + map origin (t.running : Multiset κ) := by
  generalize hs : (⟨x, []⟩ : State σ κ) = s at hru
  induction hru with
  | nil =>
    subst hs
    exact ⟨rfl, rfl⟩
  | @snoc tr t u a hpr hst ih =>
    obtain ⟨hsh, hc⟩ := ih (fun e he => hg e (List.mem_append_left _ he))
    have hl : Grounded I (⟨t, a, u⟩ : Entry (State σ κ) (Label κ ρ)) :=
      hg _ (List.mem_append_right _ (List.mem_singleton_self _))
    rcases hst.multiset_cases with
      ⟨k, rfl, -, hsa, hr⟩ | ⟨k, rest, rfl, ha, hr, hr'⟩
    · rw [begun_snoc_call, ended_snoc_call, hr, hsa]
      refine ⟨hsh, ?_⟩
      rw [← coe_add, hc, map_cons, coe_singleton,
        ← Multiset.singleton_add, Multiset.add_assoc, Multiset.add_comm {origin k}]
    · have hI : I t.shared k := hl
      rw [hr, map_cons] at hc
      cases hnext : (act k t.shared).2 with
      | inl k' =>
        obtain ⟨hkept, ho⟩ := h.goes_on k t.shared k' hI hnext
        rw [hnext] at hr'
        rw [begun_snoc_act, ended_snoc_next, ha, hkept, hr']
        refine ⟨hsh, ?_⟩
        rw [hc, map_add, ← ho]
        rfl
      | inr r =>
        rw [hnext] at hr'
        rw [begun_snoc_act, ended_snoc_last, ha, h.ends k t.shared r hI hnext, hr', hsh]
        refine ⟨by rw [List.foldl_append]; rfl, ?_⟩
        rw [hc, Multiset.map_add, ← Multiset.coe_add, Multiset.coe_singleton, Multiset.add_assoc,
          ← singleton_add]
        show _ + ({origin k} + map origin rest) = _ + ({origin k} + (0 + _))
        rw [Multiset.zero_add]

theorem exists_order (h : Whole act origin whole I) {x : σ}
    (hr : Run (Step act entry) ⟨x, []⟩ tr t) (hg : ∀ e ∈ tr, Grounded I e)
    (hd : t.running = []) :
    ∃ order : List ι, order.Perm (begun origin tr) ∧
    t.shared = order.foldl (fun x i => whole i x) x := by
  obtain ⟨hsh, hc⟩ := serial_of_run h hr hg
  refine ⟨ended origin tr, ?_, hsh⟩
  rw [hd, Multiset.coe_nil, Multiset.map_zero, Multiset.add_zero, Multiset.coe_eq_coe] at hc
  exact hc.symm

end SniperBot.Lib.Serial
