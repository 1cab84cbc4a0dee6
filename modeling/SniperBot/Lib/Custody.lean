import Mathlib.Algebra.GroupWithZero.Nat
import SniperBot.Lib.Runs
import SniperBot.Lib.Totals

/-!
# Custody of deposits

A custodian holds one reserve and owes every depositor a share of it. A deposit raises both, a
withdrawal pays one share out in full. Over whole runs the reserve covers all shares, and a share
is what its owner deposited since their last withdrawal.
-/

namespace SniperBot.Lib.Custody

open Lib.Runs Lib.Totals Function

variable {ι : Type} [DecidableEq ι]

structure Pool (ι : Type) where
  vault : ℕ
  share : ι → ℕ

inductive Event (ι : Type) where
  | deposit (x : ι) (n : ℕ)
  | withdraw (x : ι)
  | other

/-- One step; in each case the reserve may also receive something nobody is owed. -/
inductive Step : Pool ι → Event ι → Pool ι → Prop
  | deposit {p : Pool ι} {x : ι} {n v : ℕ} (hv : p.vault + n ≤ v) :
      Step p (.deposit x n) ⟨v, update p.share x (p.share x + n)⟩
  | withdraw {p : Pool ι} {x : ι} {v : ℕ} (hv : v + p.share x = p.vault) :
      Step p (.withdraw x) ⟨v, update p.share x 0⟩
  | other {p : Pool ι} {v : ℕ} (hv : p.vault ≤ v) : Step p .other ⟨v, p.share⟩

def Solvent (p : Pool ι) : Prop := Covers p.vault p.share

variable {p q : Pool ι} {tr : List (Entry (Pool ι) (Event ι))} {x : ι}

theorem solvent_step {e : Event ι} (hp : Solvent p) (h : Step p e q) : Solvent q := by
  cases h with
  | @deposit x n v hv =>
    refine Covers.replace (i := x) hp ?_ fun j hj => update_of_ne hj _ _
    change update p.share x _ x + p.vault ≤ p.share x + v
    rw [update_self]
    omega
  | @withdraw x v hv =>
    refine Covers.replace (i := x) hp ?_ fun j hj => update_of_ne hj _ _
    change update p.share x 0 x + p.vault ≤ p.share x + v
    rw [update_self]
    omega
  | other hv => exact hp.mono hv

theorem solvent_run (h : Run Step p tr q) (hp : Solvent p) : Solvent q :=
  h.invariant (fun _ _ _ hs ht => solvent_step hs ht) hp

def Event.deposited (x : ι) : Event ι → ℕ
  | .deposit y n => if y = x then n else 0
  | _ => 0

theorem share_step {e : Event ι} (h : Step p e q) (he : e ≠ .withdraw x) :
    q.share x = p.share x + e.deposited x := by
  cases h with
  | @deposit y n v hv =>
    by_cases hy : y = x
    · subst hy
      simp [Event.deposited]
    · simp [Event.deposited, hy, update_of_ne (Ne.symm hy)]
  | @withdraw y v hv =>
    have hy : x ≠ y := fun hx => he (hx ▸ rfl)
    simp [Event.deposited, update_of_ne hy]
  | other hv => rfl

theorem share_run (h : Run Step p tr q) (hx : ∀ e ∈ tr, e.label ≠ .withdraw x) :
    q.share x = p.share x + (tr.map fun e => e.label.deposited x).sum := by
  induction h with
  | nil => simp
  | @snoc tr t u a hr hs ih =>
    have hl := share_step hs (hx ⟨t, a, u⟩ (by simp))
    rw [hl, ih fun e he => hx e (List.mem_append_left _ he)]
    simp [Nat.add_assoc]

theorem share_withdraw (h : Step p (.withdraw x) q) :
    q.share x = 0 ∧ q.vault + p.share x = p.vault := by
  cases h with
  | withdraw hv => exact ⟨update_self .., hv⟩

end SniperBot.Lib.Custody
