import SniperBot.Lib.Interleaving

/-!
# Interleavings with crashes

Any call under way may crash between two of its sections. What its sections have written stays.
-/

namespace SniperBot.Lib.Crashes

open Lib.Runs Lib.Interleaving Multiset

universe u v w

variable {σ : Type u} {κ : Type v} {ρ : Type w}

inductive Fate (κ : Type v) (ρ : Type w) where
  | step (a : Label κ ρ)
  | crash (k : κ)

inductive Faulty (act : κ → σ → σ × (κ ⊕ ρ)) (entry : κ → Prop) :
    State σ κ → Fate κ ρ → State σ κ → Prop
  | step {s t : State σ κ} {a : Label κ ρ} (h : Step act entry s a t) :
      Faulty act entry s (.step a) t
  | crash {x : σ} {before after : List κ} (k : κ) :
      Faulty act entry ⟨x, before ++ k :: after⟩ (.crash k) ⟨x, before ++ after⟩

variable {act : κ → σ → σ × (κ ⊕ ρ)} {entry : κ → Prop} {s t : State σ κ} {a : Fate κ ρ}

theorem Faulty.multiset_cases (h : Faulty act entry s a t) :
    (∃ k, a = .step (.call k) ∧ entry k ∧ t.shared = s.shared ∧
    (t.running : Multiset κ) = k ::ₘ s.running) ∨
    (∃ k rest, a = .step (.act k (act k s.shared).2) ∧ t.shared = (act k s.shared).1 ∧
    (s.running : Multiset κ) = k ::ₘ rest ∧
    (t.running : Multiset κ) = (continuing (act k s.shared).2 : Multiset κ) + rest) ∨
    ∃ k, a = .crash k ∧ t.shared = s.shared ∧ (s.running : Multiset κ) = k ::ₘ t.running := by
  cases h with
  | step h =>
    rcases h.multiset_cases with ⟨k, rfl, hk, hsh, hr⟩ | ⟨k, rest, rfl, hrest⟩
    · exact .inl ⟨k, rfl, hk, hsh, hr⟩
    · exact .inr (.inl ⟨k, rest, rfl, hrest⟩)
  | @crash x before after k =>
    refine .inr (.inr ⟨k, rfl, rfl, ?_⟩)
    rw [cons_coe, coe_eq_coe]
    exact List.perm_middle

theorem Faulty.mem_running {k' : κ} (h : Faulty act entry s a t) (hk' : k' ∈ t.running) :
    entry k' ∨ k' ∈ s.running ∨ ∃ k ∈ s.running, (act k s.shared).2 = .inl k' := by
  have hm : k' ∈ (t.running : Multiset κ) := mem_coe.mpr hk'
  rcases h.multiset_cases with
    ⟨k, -, hk, -, hr⟩ | ⟨k, rest, -, -, hr, hr'⟩ | ⟨k, -, -, hr⟩
  · rw [hr] at hm
    rcases mem_cons.mp hm with rfl | hm
    · exact .inl hk
    · exact .inr (.inl (mem_coe.mp hm))
  · have hk : k ∈ s.running := by
      rw [← mem_coe, hr]
      exact mem_cons_self k rest
    rw [hr'] at hm
    rcases mem_add.mp hm with hnext | hm
    · exact .inr (.inr ⟨k, hk, eq_inl_of_mem_continuing (mem_coe.mp hnext)⟩)
    · refine .inr (.inl ?_)
      rw [← mem_coe, hr]
      exact mem_cons_of_mem hm
  · refine .inr (.inl ?_)
    rw [← mem_coe, hr]
    exact mem_cons_of_mem hm

/-! ## Schedules -/

inductive FaultyMove (κ : Type v) where
  | move (m : Move κ)
  | crash (i : Nat)

def faultyMove (act : κ → σ → σ × (κ ⊕ ρ)) (s : State σ κ) :
    FaultyMove κ → Option (Fate κ ρ × State σ κ)
  | .move m => (move act s m).map fun out => (.step out.1, out.2)
  | .crash i =>
    match s.running.drop i with
    | k :: after => some (.crash k, ⟨s.shared, s.running.take i ++ after⟩)
    | [] => none

def followFaulty (act : κ → σ → σ × (κ ⊕ ρ)) (s : State σ κ) :
    List (FaultyMove κ) → Option (List (Entry (State σ κ) (Fate κ ρ)) × State σ κ)
  | [] => some ([], s)
  | m :: ms =>
    match faultyMove act s m with
    | some (a, t) => (followFaulty act t ms).map fun out => (⟨s, a, t⟩ :: out.1, out.2)
    | none => none

theorem faulty_of_move {m : FaultyMove κ} (h : faultyMove act s m = some (a, t))
    (he : ∀ k, m = .move (.call k) → entry k) :
    Faulty act entry s a t := by
  cases m with
  | move m =>
    obtain ⟨⟨a', t'⟩, hm, ho⟩ := Option.map_eq_some_iff.mp h
    cases ho
    refine .step (step_of_move hm fun k hk => he k ?_)
    rw [hk]
  | crash i =>
    simp only [faultyMove] at h
    split at h
    · next k after hd =>
      cases h
      have hc : Faulty act entry ⟨s.shared, s.running.take i ++ k :: after⟩ (.crash k)
          ⟨s.shared, s.running.take i ++ after⟩ := .crash k
      rwa [← hd, List.take_append_drop] at hc
    · cases h

theorem run_of_followFaulty {ms : List (FaultyMove κ)} {tr : List (Entry (State σ κ) (Fate κ ρ))}
    (h : followFaulty act s ms = some (tr, t)) (he : ∀ k, .move (.call k) ∈ ms → entry k) :
    Run (Faulty act entry) s tr t := by
  induction ms generalizing s tr with
  | nil =>
    cases h
    exact .nil
  | cons m ms ih =>
    simp only [followFaulty] at h
    split at h
    · next a u hm =>
      obtain ⟨⟨tr', t'⟩, hrest, ho⟩ := Option.map_eq_some_iff.mp h
      cases ho
      have hst : Faulty act entry s a u :=
        faulty_of_move hm fun k hk => he k (hk ▸ List.mem_cons_self)
      exact (Run.single hst).append (ih hrest fun k hk => he k (List.mem_cons_of_mem m hk))
    · cases h

end SniperBot.Lib.Crashes
