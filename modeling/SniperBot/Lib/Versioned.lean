import Mathlib.Logic.Function.Basic
import SniperBot.Lib.Runs

/-!
# Versioned documents

One document per key, with a version that counts its writes. A write that finds a document
replaces it only if the writer has named its version, so no write is lost unseen.
-/

namespace SniperBot.Lib.Versioned

open Lib.Runs

variable {κ δ : Type}

abbrev Register (κ δ : Type) := κ → Option (Nat × δ)

/-- A write, the version its writer named, and whether it was accepted. -/
structure Write (κ δ : Type) where
  key : κ
  doc : δ
  expected : Option Nat
  accepted : Bool

inductive Step [DecidableEq κ] (s : Register κ δ) (w : Write κ δ) : Register κ δ → Prop
  | refused (hw : w.accepted = false) : Step s w s
  | created (hw : w.accepted = true) (h : s w.key = none) :
      Step s w (Function.update s w.key (some (1, w.doc)))
  | replaced {v : Nat} {d : δ} (hw : w.accepted = true) (h : s w.key = some (v, d))
      (hv : w.expected = some v) : Step s w (Function.update s w.key (some (v + 1, w.doc)))

variable [DecidableEq κ] {s t : Register κ δ} {w : Write κ δ}

def Write.unseen (k : κ) (w : Write κ δ) : Bool := w.accepted ∧ w.key = k ∧ w.expected = none

theorem Step.isSome (h : Step s w t) {k : κ} (hk : (s k).isSome) : (t k).isSome := by
  cases h with
  | refused => exact hk
  | created | replaced =>
    by_cases hke : k = w.key
    · subst hke
      simp
    · rw [Function.update_of_ne hke]
      exact hk

theorem Step.of_unseen (h : Step s w t) {k : κ}
    (hw : w.unseen k = true) : s k = none ∧ (t k).isSome := by
  obtain ⟨ha, hk, he⟩ := of_decide_eq_true hw
  subst hk
  cases h with
  | refused hr =>
    rw [ha] at hr
    cases hr
  | created _ hn => exact ⟨hn, by simp⟩
  | replaced _ _ hv =>
    rw [he] at hv
    cases hv

theorem unseen_le_one {tr : List (Entry (Register κ δ) (Write κ δ))}
    (hr : Run Step s tr t) (k : κ) : tr.countP (fun e => e.label.unseen k) ≤ 1 := by
  -- as long as the key has no document, no such write has been accepted
  have hc : tr.countP (fun e => e.label.unseen k) ≤ ((t k).isSome).toNat := by
    induction hr with
    | nil => exact Nat.zero_le _
    | @snoc tr t u w _ hst ih =>
      rw [countP_snoc]
      cases hw : w.unseen k with
      | false =>
        refine Nat.le_trans ih ?_
        cases ht : (t k).isSome with
        | false => exact Nat.zero_le _
        | true => simp [hst.isSome ht]
      | true =>
        obtain ⟨hn, hso⟩ := hst.of_unseen hw
        rw [hn] at ih
        rw [hso]
        exact Nat.succ_le_succ ih
  exact Nat.le_trans hc (Bool.toNat_le _)

end SniperBot.Lib.Versioned
