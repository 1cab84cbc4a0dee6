import Mathlib.Data.Multiset.AddSub
import Mathlib.Data.Multiset.Count
import SniperBot.Lib.Runs

/-!
# Interleavings of calls on a shared object

A call is a sequence of atomic sections, between which sections of others may run, so what it has
read may be stale by the time it writes. Where a call stands is data, and one function says what
the section there does.
-/

namespace SniperBot.Lib.Interleaving

open Lib.Runs List

universe u v w

variable {σ : Type u} {κ : Type v} {ρ : Type w}

structure State (σ : Type u) (κ : Type v) where
  shared : σ
  running : List κ

inductive Label (κ : Type v) (ρ : Type w) where
  | call (k : κ)
  | act (k : κ) (result : κ ⊕ ρ)

def continuing : κ ⊕ ρ → List κ
  | .inl k => [k]
  | .inr _ => []

variable {r : κ ⊕ ρ} {k : κ} {s t : State σ κ} {a : Label κ ρ} {x : σ}

theorem eq_inl_of_mem_continuing (h : k ∈ continuing r) : r = .inl k := by
  cases r with
  | inl k' => rw [mem_singleton.mp h]
  | inr r => cases h

/-- Any call may come in at any time, and any call under way may go on. -/
inductive Step (act : κ → σ → σ × (κ ⊕ ρ)) (entry : κ → Prop) :
    State σ κ → Label κ ρ → State σ κ → Prop
  | call {x : σ} {ks : List κ} {k : κ} (hk : entry k) :
      Step act entry ⟨x, ks⟩ (.call k) ⟨x, k :: ks⟩
  | act {x : σ} {before after : List κ} (k : κ) :
      Step act entry ⟨x, before ++ k :: after⟩ (.act k (act k x).2)
        ⟨(act k x).1, before ++ continuing (act k x).2 ++ after⟩

variable {act : κ → σ → σ × (κ ⊕ ρ)} {entry : κ → Prop} {y : σ}

theorem Step.shared_cases (h : Step act entry s a t) : (∃ k, a = .call k ∧ t.shared = s.shared) ∨
    ∃ k ∈ s.running, a = .act k (act k s.shared).2 ∧ t.shared = (act k s.shared).1 := by
  cases h with
  | @call x ks k => exact .inl ⟨k, rfl, rfl⟩
  | act k => exact .inr ⟨k, mem_append_right _ mem_cons_self, rfl, rfl⟩

theorem Step.persists (h : Step act entry s a t) (hk : k ∈ s.running) :
    k ∈ t.running ∨ t.shared = (act k s.shared).1 ∧
    ∀ k', (act k s.shared).2 = .inl k' → k' ∈ t.running := by
  cases h with
  | call => exact .inl (mem_cons_of_mem _ hk)
  | @act x before after k₁ =>
    rcases mem_append.mp hk with hk | hk
    · exact .inl (mem_append_left _ (mem_append_left _ hk))
    · rcases mem_cons.mp hk with rfl | hk
      · refine .inr ⟨rfl, fun k' hnext => ?_⟩
        refine mem_append_left _ (mem_append_right _ ?_)
        show k' ∈ continuing (act k x).2
        rw [show (act k x).2 = .inl k' from hnext]
        exact mem_singleton_self k'
      · exact .inl (mem_append_right _ hk)

theorem Step.mem_next {k' : κ} (h : Step act entry s (.act k (.inl k')) t) : k' ∈ t.running := by
  generalize ha : (Label.act k (.inl k') : Label κ ρ) = a at h
  cases h with
  | call => cases ha
  | @act x before after k₁ =>
    obtain ⟨rfl, hnext⟩ := Label.act.inj ha
    simp [← hnext, continuing]

theorem Step.multiset_cases (h : Step act entry s a t) :
    (∃ k, a = .call k ∧ entry k ∧ t.shared = s.shared ∧
    (t.running : Multiset κ) = k ::ₘ s.running) ∨
    ∃ k rest, a = .act k (act k s.shared).2 ∧ t.shared = (act k s.shared).1 ∧
    (s.running : Multiset κ) = k ::ₘ rest ∧
    (t.running : Multiset κ) = (continuing (act k s.shared).2 : Multiset κ) + rest := by
  cases h with
  | @call x ks k hk => exact .inl ⟨k, rfl, hk, rfl, rfl⟩
  | @act x before after k =>
    refine .inr ⟨k, (before ++ after : List κ), rfl, rfl, ?_, ?_⟩
    · rw [Multiset.cons_coe, Multiset.coe_eq_coe]
      exact perm_middle
    · rw [Multiset.coe_add, Multiset.coe_eq_coe, ← append_assoc]
      exact perm_append_comm.append_right after

theorem countP_continuing (p : κ → Bool) (r : κ ⊕ ρ) :
    (continuing r).countP p = 0 ∨ ∃ k, r = .inl k ∧ p k = true ∧ (continuing r).countP p = 1 := by
  cases r with
  | inl k =>
    cases hp : p k with
    | true => exact .inr ⟨k, rfl, hp, by simp [continuing, hp]⟩
    | false => exact .inl (by simp [continuing, hp])
  | inr r => exact .inl rfl

theorem Step.countP_cases (p : κ → Bool) (h : Step act entry s a t) :
    (∃ k, a = .call k ∧ entry k ∧ t.shared = s.shared ∧
    t.running.countP p = s.running.countP p + (p k).toNat) ∨
    ∃ k ∈ s.running, a = .act k (act k s.shared).2 ∧ t.shared = (act k s.shared).1 ∧
    t.running.countP p + (p k).toNat =
      s.running.countP p + (continuing (act k s.shared).2).countP p := by
  cases h with
  | @call x ks k hk =>
    refine .inl ⟨k, rfl, hk, rfl, ?_⟩
    rw [countP_cons]
    cases p k <;> rfl
  | @act x before after k =>
    refine .inr ⟨k, mem_append_right _ mem_cons_self, rfl, rfl, ?_⟩
    simp only [countP_append, countP_cons]
    cases p k <;> simp <;> omega

/-! ## How many calls stand somewhere -/

section

variable (p : κ → Bool)

def population (ks : Multiset κ) : Nat := ks.countP fun k => p k = true

theorem population_cons (k : κ) (ks : Multiset κ) :
    population p (k ::ₘ ks) = population p ks + (p k).toNat := by
  unfold population
  rw [Multiset.countP_cons]
  cases p k <;> rfl

theorem population_continuing (r : κ ⊕ ρ) (rest : Multiset κ) :
    population p ((continuing r : Multiset κ) + rest) =
    population p rest + (r.elim p fun _ => false).toNat := by
  cases r with
  | inl k =>
    show population p (({k} : Multiset κ) + rest) = _
    exact population_cons p k rest
  | inr r =>
    show population p (0 + rest) = _
    rw [Multiset.zero_add]
    rfl

variable {p} {ks : Multiset κ}

theorem population_pos {k : κ} (hk : k ∈ ks) (hp : p k = true) :
    0 < population p ks := Multiset.countP_pos.mpr ⟨k, hk, hp⟩

theorem exists_of_population_pos (h : 0 < population p ks) :
    ∃ k ∈ ks, p k = true := Multiset.countP_pos.mp h

theorem population_mono {q : κ → Bool} (h : ∀ k, p k = true → q k = true) (ks : Multiset κ) :
    population p ks ≤ population q ks := by
  induction ks using Multiset.induction_on with
  | empty => exact Nat.le_refl 0
  | cons k ks ih =>
    rw [population_cons, population_cons]
    by_cases hp : p k = true
    · rw [hp, h k hp]
      omega
    · rw [Bool.eq_false_iff.mpr hp, Bool.toNat_false]
      omega

end

/-! ## What a call under way may rely on -/

section

variable [DecidableEq κ]

/-- The section that runs meets `C` with every other call under way. -/
def Apart (C : σ → κ → κ → Prop) (e : Entry (State σ κ) (Label κ ρ)) : Prop :=
  match e.label with
  | .call _ => True
  | .act k _ => ∀ k' ∈ e.pre.running.erase k, C e.pre.shared k k'

instance (C : σ → κ → κ → Prop) [∀ x k k', Decidable (C x k k')]
    (e : Entry (State σ κ) (Label κ ρ)) : Decidable (Apart C e) := by
  unfold Apart
  split <;> infer_instance

def Relies (I : σ → κ → Prop) (s : State σ κ) : Prop := ∀ k ∈ s.running, I s.shared k

theorem mem_erase_middle {k k' : κ} {before after : List κ} :
    k' ∈ (before ++ k :: after).erase k ↔ k' ∈ before ++ after := by
  have hm : (before ++ k :: after).Perm (k :: (before ++ after)) := perm_middle
  have hpe : ((before ++ k :: after).erase k).Perm (before ++ after) := by
    simpa using hm.erase k
  exact hpe.mem_iff

theorem Step.mem_running {s t : State σ κ} {a : Label κ ρ} {k' : κ} (hs : Step act entry s a t)
    (hk' : k' ∈ t.running) :
    (∃ k, a = .call k ∧ t.shared = s.shared ∧ (entry k' ∨ k' ∈ s.running)) ∨
    ∃ k ∈ s.running, a = .act k (act k s.shared).2 ∧ t.shared = (act k s.shared).1 ∧
      (k' ∈ s.running.erase k ∨ (act k s.shared).2 = .inl k') := by
  cases hs with
  | @call x ks k hk =>
    rcases mem_cons.mp hk' with rfl | hm
    · exact .inl ⟨_, rfl, rfl, .inl hk⟩
    · exact .inl ⟨_, rfl, rfl, .inr hm⟩
  | @act x before after k =>
    refine .inr ⟨k, mem_append_right _ mem_cons_self, rfl, rfl, ?_⟩
    have hk' : k' ∈ continuing (act k x).2 ∨ k' ∈ before ++ after := by
      simp only [mem_append] at hk' ⊢
      tauto
    rcases hk' with hc | hm
    · exact .inr (eq_inl_of_mem_continuing hc)
    · exact .inl (mem_erase_middle.mpr hm)

/-- A section hands on what its own call relies on, and leaves alone what the others
rely on as long as it is apart from them. -/
theorem Relies.step {I : σ → κ → Prop} {C : σ → κ → κ → Prop}
    {s t : State σ κ} {a : Label κ ρ} (h : Relies I s) (ha : Apart C ⟨s, a, t⟩)
    (hs : Step act entry s a t) (he : ∀ k, entry k → I s.shared k)
    (hse : ∀ k ∈ s.running, ∀ k', I s.shared k → (act k s.shared).2 = .inl k' →
    I (act k s.shared).1 k')
    (ho : ∀ k ∈ s.running, ∀ k', I s.shared k → I s.shared k' → C s.shared k k' →
    I (act k s.shared).1 k') : Relies I t := by
  intro k' hk'
  rcases hs.mem_running hk' with
    ⟨k, rfl, hsh, hc | hm⟩ | ⟨k, hk, rfl, hsh, hm | hnext⟩
  · rw [hsh]
    exact he k' hc
  · rw [hsh]
    exact h k' hm
  · rw [hsh]
    exact ho k hk k' (h k hk) (h k' (mem_of_mem_erase hm)) (ha k' hm)
  · rw [hsh]
    exact hse k hk k' (h k hk) hnext

end

/-! ## One call at a time -/

/-- The sections of one call run to the end without another in between. -/
inductive Solo (act : κ → σ → σ × (κ ⊕ ρ)) : κ → σ → ρ → σ → Prop
  | last {k : κ} {x y : σ} {r : ρ} (h : act k x = (y, .inr r)) : Solo act k x r y
  | next {k k' : κ} {x y z : σ} {r : ρ} (h : act k x = (y, .inl k')) (hrest : Solo act k' y r z) :
      Solo act k x r z

theorem Solo.unique {y y' : σ} {r r' : ρ} (h : Solo act k x r y) (h' : Solo act k x r' y') :
    r = r' ∧ y = y' := by
  induction h with
  | last h =>
    cases h' with
    | last h' =>
      obtain ⟨rfl, hr⟩ := Prod.mk.inj (h.symm.trans h')
      exact ⟨Sum.inr.inj hr, rfl⟩
    | next h' _ => cases (Prod.mk.inj (h.symm.trans h')).2
  | next h _ ih =>
    cases h' with
    | last h' => cases (Prod.mk.inj (h.symm.trans h')).2
    | next h' hrest =>
      obtain ⟨rfl, hk⟩ := Prod.mk.inj (h.symm.trans h')
      cases hk
      exact ih hrest

theorem Solo.congr {k' : κ} {r : ρ} (h : Solo act k x r y) (he : act k' x = act k x) :
    Solo act k' x r y := by
  cases h with
  | last hl => exact .last (he.trans hl)
  | next hnext hrest => exact .next (he.trans hnext) hrest

theorem step_alone (h : act k x = (y, r)) :
    Step act entry ⟨x, [k]⟩ (.act k r) ⟨y, continuing r⟩ := by
  have hst : Step act entry ⟨x, [] ++ k :: []⟩ _ _ := .act k
  rwa [h, nil_append, append_nil] at hst

theorem apart_alone [DecidableEq κ] {C : σ → κ → κ → Prop} : Apart C ⟨⟨x, [k]⟩, .act k r, t⟩ := by
  intro k' hk'
  simp at hk'

theorem Solo.interleaves {r : ρ} (h : Solo act k x r y) (ks : List κ) :
    ∃ tr, Run (Step act entry) ⟨x, k :: ks⟩ tr ⟨y, ks⟩ := by
  induction h with
  | @last k x y r h =>
    have hst : Step act entry ⟨x, [] ++ k :: ks⟩ _ _ := .act k
    rw [h] at hst
    exact ⟨_, Run.single hst⟩
  | @next k k' x y z r h hrest ih =>
    have hst : Step act entry ⟨x, [] ++ k :: ks⟩ _ _ := .act k
    rw [h] at hst
    obtain ⟨tr, hr⟩ := ih
    exact ⟨_, (Run.single hst).append hr⟩

/-! ## Schedules -/

/-- A choice of the scheduler: let a call in, or let the `i`th call go on. -/
inductive Move (κ : Type v) where
  | call (k : κ)
  | go (i : Nat)

def move (act : κ → σ → σ × (κ ⊕ ρ)) (s : State σ κ) : Move κ → Option (Label κ ρ × State σ κ)
  | .call k => some (.call k, ⟨s.shared, k :: s.running⟩)
  | .go i =>
    match s.running.drop i with
    | k :: after =>
      some (.act k (act k s.shared).2,
        ⟨(act k s.shared).1, s.running.take i ++ continuing (act k s.shared).2 ++ after⟩)
    | [] => none

def follow (act : κ → σ → σ × (κ ⊕ ρ)) (s : State σ κ) :
    List (Move κ) → Option (List (Entry (State σ κ) (Label κ ρ)) × State σ κ)
  | [] => some ([], s)
  | m :: ms =>
    match move act s m with
    | some (a, t) => (follow act t ms).map fun out => (⟨s, a, t⟩ :: out.1, out.2)
    | none => none

theorem step_of_move {m : Move κ} (h : move act s m = some (a, t))
    (he : ∀ k, m = .call k → entry k) :
    Step act entry s a t := by
  cases m with
  | call k =>
    obtain ⟨rfl, rfl⟩ := h
    exact .call (he k rfl)
  | go i =>
    simp only [move] at h
    split at h
    · next k after hd =>
      obtain ⟨rfl, rfl⟩ := h
      have hst : Step act entry ⟨s.shared, s.running.take i ++ k :: after⟩ _ _ := .act k
      rwa [← hd, take_append_drop] at hst
    · contradiction

def Move.Allowed (entry : κ → Prop) : Move κ → Prop
  | .call k => entry k
  | .go _ => True

instance {entry : κ → Prop} [DecidablePred entry] (m : Move κ) : Decidable (m.Allowed entry) :=
  match m with
  | .call k => inferInstanceAs (Decidable (entry k))
  | .go _ => inferInstanceAs (Decidable True)

/-- Every schedule is an interleaving. -/
theorem run_of_follow {ms : List (Move κ)} {tr : List (Entry (State σ κ) (Label κ ρ))}
    (h : follow act s ms = some (tr, t)) (he : ∀ m ∈ ms, m.Allowed entry) :
    Run (Step act entry) s tr t := by
  induction ms generalizing s tr with
  | nil =>
    obtain ⟨rfl, rfl⟩ := h
    exact .nil
  | cons m ms ih =>
    simp only [follow] at h
    split at h
    · next a u hmo =>
      obtain ⟨out, ho, heq⟩ := Option.map_eq_some_iff.mp h
      obtain ⟨rfl, rfl⟩ := Prod.mk.inj heq
      have hst : Step act entry s a u := step_of_move hmo fun k hk => by
        subst hk
        exact he _ mem_cons_self
      exact (Run.single hst).append (ih ho fun m hm => he m (mem_cons_of_mem _ hm))
    · contradiction

theorem exists_run_of_follow {P : List (Entry (State σ κ) (Label κ ρ)) → State σ κ → Prop}
    (ms : List (Move κ)) (he : ∀ m ∈ ms, m.Allowed entry)
    (h : ∃ out ∈ follow act s ms, P out.1 out.2) :
    ∃ tr t, Run (Step act entry) s tr t ∧ P tr t := by
  obtain ⟨⟨tr, t⟩, hf, hP⟩ := h
  exact ⟨tr, t, run_of_follow hf he, hP⟩

end SniperBot.Lib.Interleaving
