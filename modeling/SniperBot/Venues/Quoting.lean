import Mathlib.Algebra.Order.Floor.Div
import SniperBot.Lib.Guard
import SniperBot.Lib.MachineInt

/-!
# Checked quotes

The quotes of the venues are worked out in 128-bit words. Every operation is checked and
an overflow is an error with a text of its own.
-/

namespace SniperBot.Venues

open Lib.Guard Lib.MachineInt U128

inductive Failure where
  | solana (message : String)
  | invalid (message : String)
  | panic
  deriving DecidableEq

abbrev BotResult := Except Failure

section

variable {α : Type} {a b : ℕ} {e : Failure} {f : ℕ → BotResult α} {v : α}

theorem mul_bind_eq_ok : (okOr (checkedMul a b) e >>= f) = .ok v ↔
    a * b < 2 ^ 128 ∧ f (a * b) = .ok v := by
  simp [bind_eq_ok, okOr_eq_ok, checkedMul_eq_some, and_assoc]

theorem add_bind_eq_ok : (okOr (checkedAdd a b) e >>= f) = .ok v ↔
    a + b < 2 ^ 128 ∧ f (a + b) = .ok v := by
  simp [bind_eq_ok, okOr_eq_ok, checkedAdd_eq_some, and_assoc]

theorem sub_bind_eq_ok : (okOr (checkedSub a b) e >>= f) = .ok v ↔ b ≤ a ∧ f (a - b) = .ok v := by
  simp [bind_eq_ok, okOr_eq_ok, checkedSub_eq_some, and_assoc]

end

/-- The quotient rounded up, by way of `numerator + denominator - 1`. -/
def ceilQuotient (numerator denominator : ℕ) : Option ℕ :=
  ((checkedAdd numerator denominator).bind (checkedSub · 1)).map (· / denominator)

theorem ceilQuotient_eq_some {numerator denominator v : ℕ}
    (h : ceilQuotient numerator denominator = some v) : v = numerator ⌈/⌉ denominator := by
  obtain ⟨sum, hsu, rfl⟩ := Option.map_eq_some_iff.mp h
  obtain ⟨total, hto, hsub⟩ := Option.bind_eq_some_iff.mp hsu
  obtain ⟨-, rfl⟩ := checkedAdd_eq_some.mp hto
  obtain ⟨-, rfl⟩ := checkedSub_eq_some.mp hsub
  rfl

def toU64 (n : ℕ) (e : Failure) : BotResult UInt64 :=
  if n ≤ U64.maxNat then .ok (U64.clamp n) else .error e

theorem toU64_eq_ok {n : ℕ} {e : Failure} {w : UInt64} : toU64 n e = .ok w ↔ w.toNat = n := by
  unfold toU64
  split
  · next h =>
    rw [Except.ok.injEq, ← UInt64.toNat_inj, U64.toNat_clamp, Nat.min_eq_left h]
    exact eq_comm
  · next h =>
    have hw := U64.toNat_le_max w
    simp only [reduceCtorEq, false_iff]
    omega

end SniperBot.Venues
