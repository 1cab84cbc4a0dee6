import SniperBot.Lib.Runs

/-!
# Fencing registers

A register hands out grants, each to one owner and with a larger epoch than all
before it. Only the last grant is ever honoured, and only until it is closed, so
a holder that lost its grant is recognised by the epoch it presents, for good.
-/

namespace SniperBot.Lib.Fencing

open Lib.Runs

universe u

structure Grant (ω : Type u) where
  owner : ω
  epoch : Int
  deriving DecidableEq

structure Register (ω : Type u) where
  last : Option (Grant ω)
  isOpen : Bool

/-- What a store answers, seen from one register. Everything refused is `other`. -/
inductive Event (ω : Type u) where
  | acquire (g : Grant ω)
  | use (g : Grant ω)
  | close (g : Grant ω)
  | other
  deriving DecidableEq

variable {ω : Type u}

/-- The epoch of the last grant; zero before the first. -/
def Register.epoch (r : Register ω) : Int := (r.last.map Grant.epoch).getD 0

theorem Register.epoch_of_last {r : Register ω} {g : Grant ω} (h : r.last = some g) :
    r.epoch = g.epoch := by
  simp [Register.epoch, h]

def Event.isAcquire : Event ω → Bool
  | acquire _ => true
  | _ => false

def Event.honours (g : Grant ω) : Event ω → Prop
  | use g' => g' = g
  | close g' => g' = g
  | _ => False

inductive Step : Register ω → Event ω → Register ω → Prop
  | acquire {r : Register ω} {g : Grant ω} (h : g.epoch = r.epoch + 1) :
      Step r (.acquire g) ⟨some g, true⟩
  | use {g : Grant ω} : Step ⟨some g, true⟩ (.use g) ⟨some g, true⟩
  | close {g : Grant ω} : Step ⟨some g, true⟩ (.close g) ⟨some g, false⟩
  | other {r : Register ω} : Step r .other r

/-- The answers of a store are fenced: acquisitions carry growing epochs, and a
grant that was superseded or closed is never honoured again. -/
structure Fenced (es : List (Event ω)) : Prop where
  increasing : ∀ {before between after : List (Event ω)} {g g' : Grant ω},
    es = before ++ .acquire g :: (between ++ .acquire g' :: after) → g.epoch < g'.epoch
  superseded : ∀ {before between after : List (Event ω)} {g g' : Grant ω},
    es = before ++ .acquire g :: (between ++ .acquire g' :: after) → ∀ e ∈ after, ¬ e.honours g
  closed : ∀ {before after : List (Event ω)} {g : Grant ω},
    es = before ++ .close g :: after → ∀ e ∈ after, ¬ e.honours g

def Spent (g : Grant ω) (r : Register ω) : Prop :=
  ∃ g0, r.last = some g0 ∧ (g.epoch < g0.epoch ∨ g0 = g ∧ r.isOpen = false)

variable {r r' : Register ω} {g : Grant ω} {e : Event ω}
  {tr : List (Entry (Register ω) (Event ω))}

theorem spent_step (h : Spent g r) (hs : Step r e r') : Spent g r' ∧ ¬ e.honours g := by
  obtain ⟨g0, hl, hsp⟩ := h
  cases hs with
  | @acquire _ g1 hnext =>
    refine ⟨⟨g1, rfl, .inl ?_⟩, id⟩
    rw [Register.epoch_of_last hl] at hnext
    rcases hsp with h2 | ⟨rfl, -⟩ <;> omega
  | @use g1 | @close g1 =>
    obtain rfl := Option.some.inj hl
    rcases hsp with h2 | ⟨-, h2⟩
    · refine ⟨⟨g1, rfl, .inl h2⟩, ?_⟩
      rintro rfl
      exact Int.lt_irrefl _ h2
    · contradiction
  | other => exact ⟨⟨g0, hl, hsp⟩, id⟩

theorem spent_run (h : Spent g r) (hr : Run Step r tr r') : ∀ e ∈ tr, ¬ e.label.honours g := by
  intro e he
  obtain ⟨hpr, hs⟩ := hr.invariant_before (I := Spent g) (P := fun _ => True)
    (fun _ _ _ hI _ hs => (spent_step hI hs).1) (fun _ _ => trivial) h he
  exact (spent_step hpr hs).2

theorem epoch_step (hs : Step r e r') : r'.epoch = r.epoch + e.isAcquire.toNat := by
  cases hs with
  | acquire h => simp [Register.epoch] at h ⊢; exact h
  | use | close => simp [Event.isAcquire, Register.epoch]
  | other => simp [Event.isAcquire]

theorem epoch_run (hr : Run Step r tr r') : r.epoch ≤ r'.epoch := by
  refine hr.related (R := fun r r' => r.epoch ≤ r'.epoch) (fun _ => Int.le_refl _)
    (fun _ _ _ => Int.le_trans) fun _ _ _ hs => ?_
  rw [epoch_step hs]
  omega

theorem acquired_twice {between after : List (Event ω)} {g' : Grant ω}
    (hs : Step r (.acquire g) r') {r'' : Register ω} (hr : Run Step r' tr r'')
    (htr : tr.map Entry.label = between ++ .acquire g' :: after) :
    g.epoch < g'.epoch ∧ ∀ e ∈ after, ¬ e.honours g := by
  obtain ⟨tr1, u, v, tr2, h1, hs', h2, rfl⟩ := hr.around_label htr
  have hl : r'.last = some g := by cases hs; rfl
  have hle := epoch_run h1
  rw [Register.epoch_of_last hl] at hle
  cases hs' with
  | acquire hnext =>
    have hep : g.epoch < g'.epoch := by omega
    refine ⟨hep, fun e he => ?_⟩
    obtain ⟨e0, he0, rfl⟩ := List.mem_map.mp he
    exact spent_run ⟨g', rfl, .inl hep⟩ h2 e0 he0

theorem fenced_run (hr : Run Step r tr r') : Fenced (tr.map Entry.label) where
  increasing hsplit := by
    obtain ⟨tr1, u, v, tr2, -, hs, h2, htr⟩ := hr.around_label hsplit
    exact (acquired_twice hs h2 htr).1
  superseded hsplit := by
    obtain ⟨tr1, u, v, tr2, -, hs, h2, htr⟩ := hr.around_label hsplit
    exact (acquired_twice hs h2 htr).2
  closed hsplit := by
    obtain ⟨tr1, u, v, tr2, -, hs, h2, rfl⟩ := hr.around_label hsplit
    intro e he
    obtain ⟨e0, he0, rfl⟩ := List.mem_map.mp he
    cases hs with
    | close => exact spent_run ⟨_, rfl, .inr ⟨rfl, rfl⟩⟩ h2 e0 he0

section

variable {σ ℓ : Type*} {step : σ → ℓ → σ → Prop} {register : σ → Register ω}
  {event : Entry σ ℓ → Event ω} {bound : Int} {s t : σ} {tr : List (Entry σ ℓ)}

section

variable
  (hst : ∀ e : Entry σ ℓ, step e.pre e.label e.post → (register e.pre).epoch + (event e).isAcquire.toNat ≤ bound → Step (register e.pre) (event e) (register e.post))
  (hr : Run step s tr t)
  (hc : (register s).epoch + tr.countP (fun e => (event e).isAcquire) ≤ bound)

include hst hr hc

/-- A store that keeps a register as long as its epochs are below a bound keeps it
through every run with no more acquisitions than fit under the bound. -/
theorem run_of_bounded :
    Run Step (register s) (tr.map fun e => ⟨register e.pre, event e, register e.post⟩)
    (register t) ∧
    (register t).epoch = (register s).epoch + tr.countP (fun e => (event e).isAcquire) := by
  -- the count up to a step bounds the epoch the step starts from
  induction hr with
  | nil => exact ⟨.nil, by simp⟩
  | @snoc tr u v a hr hs ih =>
    rw [countP_snoc] at hc ⊢
    obtain ⟨hru, he⟩ := ih (by omega)
    have hnext : Step (register u) (event ⟨u, a, v⟩) (register v) := by
      refine hst ⟨u, a, v⟩ hs ?_
      dsimp only
      omega
    refine ⟨by rw [List.map_append]; exact hru.snoc hnext, ?_⟩
    rw [epoch_step hnext]
    omega

theorem fenced_of_bounded : Fenced (tr.map event) := by
  have h := fenced_run (run_of_bounded hst hr hc).1
  rwa [List.map_map] at h

end

end

end SniperBot.Lib.Fencing
