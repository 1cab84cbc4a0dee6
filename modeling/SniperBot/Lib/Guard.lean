import Mathlib.Logic.Basic

/-!
# Guarded computations

A handler is a sequence of checks and calls in `Except`. These lemmas turn a
successful computation into the facts its checks established, one guard at a
time, so that no later proof has to unfold a handler again.
-/

namespace SniperBot.Lib.Guard

variable {ε α β : Type} {e : ε} {f : α → Except ε β} {p : Prop} {x : Except ε α}

/-- Fail with `e` unless `p` holds. -/
def ensure (p : Prop) [Decidable p] (e : ε) : Except ε Unit :=
  if p then .ok () else .error e

def okOr (o : Option α) (e : ε) : Except ε α :=
  match o with
  | some a => .ok a
  | none => .error e

theorem bind_eq_ok {r : β} : (x >>= f) = .ok r ↔ ∃ a, x = .ok a ∧ f a = .ok r := by
  cases x with
  | error e | ok a => simp [bind, Except.bind]

theorem ensure_eq_ok [Decidable p] {u : Unit} : ensure p e = .ok u ↔ p := by
  by_cases h : p <;> simp [ensure]

theorem ensure_bind_eq_ok [Decidable p] {f : Unit → Except ε β} {r : β} :
    (ensure p e >>= f) = .ok r ↔ p ∧ f () = .ok r := by
  by_cases h : p <;> simp [ensure, h, bind, Except.bind]

theorem okOr_eq_ok {o : Option α} {a : α} : okOr o e = .ok a ↔ o = some a := by
  cases o <;> simp [okOr]

theorem forM_eq_ok {l : List α} {f : α → Except ε Unit} :
    l.forM f = .ok () ↔ ∀ a ∈ l, f a = .ok () := by
  induction l with
  | nil => simp [pure, Except.pure]
  | cons a l ih =>
    rw [show (a :: l).forM f = f a >>= fun _ => l.forM f from rfl, bind_eq_ok, List.forall_mem_cons]
    constructor
    · intro ⟨_, ha, hl⟩
      exact ⟨ha, ih.mp hl⟩
    · intro ⟨ha, hl⟩
      exact ⟨(), ha, ih.mpr hl⟩

/-! ## Failures: the first guard that does not hold decides the error -/

theorem bind_eq_error : (x >>= f) = .error e ↔ x = .error e ∨ ∃ a, x = .ok a ∧ f a = .error e := by
  cases x with
  | error e' | ok a => simp [bind, Except.bind]

theorem ensure_eq_error [Decidable p] {e e' : ε} : ensure p e = .error e' ↔ ¬ p ∧ e = e' := by
  by_cases h : p <;> simp [ensure, h]

theorem okOr_eq_error {o : Option α} {e e' : ε} : okOr o e = .error e' ↔ o = none ∧ e = e' := by
  cases o <;> simp [okOr]

theorem pure_ne_error {a : α} : (pure a : Except ε α) = .error e ↔ False := by
  simp [pure, Except.pure]

end SniperBot.Lib.Guard
