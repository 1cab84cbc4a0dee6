import Mathlib.Data.List.Induction

/-!
# Runs of a labelled step relation

A run records every executed step together with the states around it, so a
statement about a run may speak about what held when some earlier step was
taken. Nothing here mentions a particular system; the step relation is a
parameter.
-/

namespace SniperBot.Lib.Runs

open List

universe u v

/-- One executed step: its label and the states before and after it. -/
structure Entry (σ : Type u) (ℓ : Type v) where
  pre : σ
  label : ℓ
  post : σ

variable {σ : Type u} {ℓ : Type v}

/-- `Run step s tr t`: the entries `tr`, in order, lead from `s` to `t`. -/
inductive Run (step : σ → ℓ → σ → Prop) (s : σ) : List (Entry σ ℓ) → σ → Prop
  | nil : Run step s [] s
  | snoc {tr : List (Entry σ ℓ)} {t u : σ} {a : ℓ} :
      Run step s tr t → step t a u → Run step s (tr ++ [⟨t, a, u⟩]) u

theorem countP_snoc {α : Type u} (p : α → Bool) (as : List α) (a : α) :
    (as ++ [a]).countP p = as.countP p + (p a).toNat := by
  rw [countP_append, countP_singleton]
  cases p a <;> rfl

variable {step : σ → ℓ → σ → Prop}

namespace Run

theorem single {s t : σ} {a : ℓ} (h : step s a t) : Run step s [⟨s, a, t⟩] t := snoc nil h

theorem append {s t u : σ} {tr tr' : List (Entry σ ℓ)} (h : Run step s tr t)
    (h' : Run step t tr' u) : Run step s (tr ++ tr') u := by
  induction h' with
  | nil => simpa using h
  | snoc _ hs ih =>
    rw [← append_assoc]
    exact snoc ih hs

theorem nil_inv {s t : σ} (h : Run step s [] t) : t = s := by
  generalize htr : ([] : List (Entry σ ℓ)) = tr at h
  cases h with
  | nil => rfl
  | snoc => simp at htr

theorem snoc_inv {s u : σ} {tr : List (Entry σ ℓ)} {e : Entry σ ℓ} (h : Run step s (tr ++ [e]) u) :
    Run step s tr e.pre ∧ step e.pre e.label e.post ∧ e.post = u := by
  generalize htr : tr ++ [e] = tr' at h
  cases h with
  | nil => simp at htr
  | snoc hr hs =>
    obtain ⟨rfl, he⟩ := append_inj' htr rfl
    obtain rfl := singleton_inj.mp he
    exact ⟨hr, hs, rfl⟩

theorem split {s u : σ} {tr tr' : List (Entry σ ℓ)} (h : Run step s (tr ++ tr') u) :
    ∃ t, Run step s tr t ∧ Run step t tr' u := by
  induction tr' using reverseRecOn generalizing u with
  | nil => exact ⟨u, by simpa using h, nil⟩
  | append_singleton tr' e ih =>
    rw [← append_assoc] at h
    obtain ⟨hr, hs, rfl⟩ := snoc_inv h
    obtain ⟨t, h1, h2⟩ := ih hr
    exact ⟨t, h1, snoc h2 hs⟩

theorem around {s u : σ} {tr tr' : List (Entry σ ℓ)} {e : Entry σ ℓ}
    (h : Run step s (tr ++ e :: tr') u) :
    Run step s tr e.pre ∧ step e.pre e.label e.post ∧ Run step e.post tr' u := by
  have h' : Run step s ((tr ++ [e]) ++ tr') u := by simpa using h
  obtain ⟨t, h1, h2⟩ := split h'
  obtain ⟨hr, hs, rfl⟩ := snoc_inv h1
  exact ⟨hr, hs, h2⟩

theorem around_label {s u : σ} {tr : List (Entry σ ℓ)} (h : Run step s tr u) {as bs : List ℓ}
    {a : ℓ} (htr : tr.map Entry.label = as ++ a :: bs) :
    ∃ tr1 t1 t2 tr2, Run step s tr1 t1 ∧ step t1 a t2 ∧ Run step t2 tr2 u ∧
    tr2.map Entry.label = bs := by
  obtain ⟨tr1, rest, rfl, -, hrest⟩ := map_eq_append_iff.mp htr
  obtain ⟨e, tr2, rfl, rfl, htr2⟩ := map_eq_cons_iff.mp hrest
  obtain ⟨h1, hs, h2⟩ := around h
  exact ⟨tr1, e.pre, e.post, tr2, h1, hs, h2, htr2⟩

theorem invariant {I : σ → Prop} (hst : ∀ s a t, I s → step s a t → I t)
    {s t : σ} {tr : List (Entry σ ℓ)} (h : Run step s tr t) (h0 : I s) : I t := by
  induction h with
  | nil => exact h0
  | snoc _ hs ih => exact hst _ _ _ ih hs

theorem invariant_of_entries {I : σ → Prop} {P : Entry σ ℓ → Prop}
    (hst : ∀ s a t, I s → P ⟨s, a, t⟩ → step s a t → I t)
    {s t : σ} {tr : List (Entry σ ℓ)} (h : Run step s tr t) (hP : ∀ e ∈ tr, P e)
    (h0 : I s) : I t := by
  induction h with
  | nil => exact h0
  | snoc _ hs ih =>
    refine hst _ _ _ (ih fun e he => hP e (mem_append_left _ he)) ?_ hs
    exact hP _ (mem_append_right _ (mem_singleton_self _))

/-- What every step keeps of the state and of the history up to it. -/
theorem invariant_history {I : List (Entry σ ℓ) → σ → Prop} {P : Entry σ ℓ → Prop}
    (hst : ∀ tr s a t, I tr s → P ⟨s, a, t⟩ → step s a t → I (tr ++ [⟨s, a, t⟩]) t)
    {s t : σ} {tr : List (Entry σ ℓ)} (h : Run step s tr t) (hP : ∀ e ∈ tr, P e)
    (h0 : I [] s) : I tr t := by
  induction h with
  | nil => exact h0
  | snoc _ hs ih =>
    refine hst _ _ _ _ (ih fun e he => hP e (mem_append_left _ he)) ?_ hs
    exact hP _ (mem_append_right _ (mem_singleton_self _))

theorem invariant_before {I : σ → Prop} {P : Entry σ ℓ → Prop}
    (hst : ∀ s a t, I s → P ⟨s, a, t⟩ → step s a t → I t)
    {s t : σ} {tr : List (Entry σ ℓ)} (h : Run step s tr t) (hP : ∀ e ∈ tr, P e) (h0 : I s)
    {e : Entry σ ℓ} (he : e ∈ tr) : I e.pre ∧ step e.pre e.label e.post := by
  obtain ⟨a, b, rfl⟩ := append_of_mem he
  obtain ⟨h1, h2, -⟩ := around h
  exact ⟨h1.invariant_of_entries hst (fun e' he' => hP e' (mem_append_left _ he')) h0, h2⟩

theorem restrict {P : Entry σ ℓ → Prop} {s t : σ} {tr : List (Entry σ ℓ)} (h : Run step s tr t)
    (hP : ∀ e ∈ tr, P e) : Run (fun s a t => step s a t ∧ P ⟨s, a, t⟩) s tr t := by
  induction h with
  | nil => exact nil
  | snoc _ hs ih =>
    refine snoc (ih fun e he => hP e (mem_append_left _ he)) ⟨hs, ?_⟩
    exact hP _ (mem_append_right _ (mem_singleton_self _))

theorem related {R : σ → σ → Prop} (hr : ∀ s, R s s)
    (htr : ∀ s t u, R s t → R t u → R s u) (hst : ∀ s a t, step s a t → R s t)
    {s t : σ} {tr : List (Entry σ ℓ)} (h : Run step s tr t) : R s t := by
  induction h with
  | nil => exact hr _
  | snoc _ hs ih => exact htr _ _ _ ih (hst _ _ _ hs)

theorem mem_reached {s t : σ} {tr : List (Entry σ ℓ)} (h : Run step s tr t)
    {e : Entry σ ℓ} (he : e ∈ tr) :
    ∃ tr', Run step s tr' e.pre ∧ step e.pre e.label e.post := by
  obtain ⟨a, b, rfl⟩ := append_of_mem he
  obtain ⟨h1, h2, -⟩ := around h
  exact ⟨a, h1, h2⟩

section

variable {τ κ : Type*} {step' : τ → κ → τ → Prop} (abs : σ → τ) (event : Entry σ ℓ → κ)

theorem simulate_of_entries {P : Entry σ ℓ → Prop}
    (hst : ∀ e, P e → step e.pre e.label e.post → step' (abs e.pre) (event e) (abs e.post))
    {s t : σ} {tr : List (Entry σ ℓ)} (h : Run step s tr t) (hP : ∀ e ∈ tr, P e) :
    Run step' (abs s) (tr.map fun e => ⟨abs e.pre, event e, abs e.post⟩) (abs t) := by
  induction h with
  | nil => exact nil
  | snoc hr hs ih =>
    rw [map_append]
    refine snoc (ih fun e he => hP e (mem_append_left _ he)) (hst _ (hP _ ?_) hs)
    exact mem_append_right _ (mem_singleton_self _)

theorem simulate {I : σ → Prop} (hI : ∀ s a t, I s → step s a t → I t)
    (hst : ∀ s a t, I s → step s a t → step' (abs s) (event ⟨s, a, t⟩) (abs t))
    {s t : σ} {tr : List (Entry σ ℓ)} (h : Run step s tr t) (h0 : I s) :
    Run step' (abs s) (tr.map fun e => ⟨abs e.pre, event e, abs e.post⟩) (abs t) := by
  refine h.simulate_of_entries abs event (P := fun e => I e.pre) (fun e => hst _ _ _) ?_
  intro e he
  obtain ⟨tr', hr, -⟩ := h.mem_reached he
  exact hr.invariant hI h0

end

end Run

section Deterministic

variable (f : σ → ℓ → σ)

def history (s : σ) : List ℓ → List (Entry σ ℓ)
  | [] => []
  | a :: as => ⟨s, a, f s a⟩ :: history (f s a) as

theorem run_history (s : σ) (as : List ℓ) :
    Run (fun s a t => t = f s a) s (history f s as) (as.foldl f s) := by
  induction as generalizing s with
  | nil => exact .nil
  | cons a as ih => exact (Run.single rfl).append (ih (f s a))

end Deterministic

def Reachable (init : σ → Prop) (step : σ → ℓ → σ → Prop) (t : σ) : Prop :=
  ∃ s tr, init s ∧ Run step s tr t

theorem Reachable.extend {init : σ → Prop} {s t : σ} {tr : List (Entry σ ℓ)}
    (h : Reachable init step s) (hr : Run step s tr t) : Reachable init step t := by
  obtain ⟨s0, tr0, hi, h0⟩ := h
  exact ⟨s0, tr0 ++ tr, hi, h0.append hr⟩

end SniperBot.Lib.Runs
