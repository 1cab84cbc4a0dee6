import Mathlib.Tactic.Linarith
import Mathlib.Tactic.LinearCombination
import Mathlib.Tactic.Ring
import SniperBot.Lib.Runs

/-!
# Interest that is worked out late

An account bears interest at a rate that all accounts share. When it is looked at, what has
accrued since the last time is rounded down to whole units, at the rate in force by then. If the
rate changes only while nothing is outstanding, this loses less than a unit each time.
-/

namespace SniperBot.Lib.Accrual

open Lib.Runs Nat

structure Account where
  principal : ℕ
  rate : ℕ
  since : ℤ
  clock : ℤ
  pending : ℕ

namespace Account

variable (a : Account) (principal pending : ℕ)

def live : ℕ := a.principal * a.rate * (a.clock - a.since).toNat

def accrued (unit : ℕ) (a : Account) : ℕ := a.pending + a.live / unit

def settled : Account :=
  { a with principal := principal, pending := pending, since := a.clock }

/-- Nothing is outstanding that a new rate would change. -/
def Idle : Prop := a.principal = 0 ∨ a.since = a.clock

theorem live_of_idle {a : Account} (h : a.Idle) : a.live = 0 := by
  unfold live
  rcases h with h | h
  · rw [h, zero_mul, zero_mul]
  · rw [h, sub_self]
    rfl

end Account

inductive Event where
  | tick
  | settle (paid : ℕ)
  | retune

def Event.paid : Event → ℕ
  | .settle n => n
  | _ => 0

def Event.settles : Event → Bool
  | .settle _ => true
  | _ => false

inductive Step (unit : ℕ) : Account → Event → Account → Prop
  | tick {a : Account} {now : ℤ} (h : a.clock ≤ now) : Step unit a .tick { a with clock := now }
  /-- Whole units are paid out or kept; the principal may change. -/
  | settle {a : Account} {principal pending paid : ℕ} (h : pending + paid = a.accrued unit) :
      Step unit a (.settle paid) (a.settled principal pending)
  | retune {a : Account} {rate : ℕ} (h : a.rate = rate ∨ a.Idle) :
      Step unit a .retune { a with rate := rate }

def earned (e : Entry Account Event) : ℤ :=
  e.pre.principal * e.pre.rate * (e.post.clock - e.pre.clock)

section

variable {unit : ℕ} {a b : Account} {ev : Event} {tr : List (Entry Account Event)}

section

variable (tr : List (Entry Account Event))

def totalEarned : ℤ := (tr.map earned).sum

def totalPaid : ℕ := (tr.map fun e => e.label.paid).sum

def settlements : ℕ := tr.countP fun e => e.label.settles

end

/-- All interest of a run is paid, pending or live, but for what rounding took: less than a
unit with every settlement after the first. -/
structure Books (unit : ℕ) (tr : List (Entry Account Event)) (a : Account) : Prop where
  ordered : a.principal ≠ 0 → a.since ≤ a.clock
  started : settlements tr = 0 → a.principal = 0
  balance : ∃ lost : ℕ, lost ≤ unit * (settlements tr - 1) ∧
    totalEarned tr = unit * (totalPaid tr + a.pending) + a.live + lost

section

variable (tr : List (Entry Account Event)) (e : Entry Account Event)

theorem totalEarned_snoc : totalEarned (tr ++ [e]) = totalEarned tr + earned e := by
  simp [totalEarned]

theorem totalPaid_snoc : totalPaid (tr ++ [e]) = totalPaid tr + e.label.paid := by
  simp [totalPaid]

theorem settlements_snoc : settlements (tr ++ [e]) = settlements tr + e.label.settles.toNat :=
  countP_snoc _ tr e

end

open Account

theorem live_tick {now : ℤ} (ho : a.principal ≠ 0 → a.since ≤ a.clock) (h : a.clock ≤ now) :
    (({ a with clock := now } : Account).live : ℤ) =
      a.live + a.principal * a.rate * (now - a.clock) := by
  by_cases hp : a.principal = 0
  · simp [live, hp]
  · have hsi := ho hp
    have hn : ((now - a.since).toNat : ℤ) = now - a.since := Int.toNat_of_nonneg (by omega)
    have hc : ((a.clock - a.since).toNat : ℤ) = a.clock - a.since := Int.toNat_of_nonneg (by omega)
    simp only [live, cast_mul, hn, hc]
    ring

theorem Books.step (hun : 0 < unit) (h : Books unit tr a) (hs : Step unit a ev b) :
    Books unit (tr ++ [⟨a, ev, b⟩]) b := by
  obtain ⟨lost, hl, hba⟩ := h.balance
  cases hs with
  | @tick now hno =>
    have hc : settlements (tr ++ [⟨a, .tick, { a with clock := now }⟩]) = settlements tr :=
      settlements_snoc _ _
    constructor
    · exact fun hp => (h.ordered hp).trans hno
    · rw [hc]
      exact h.started
    · refine ⟨lost, hc ▸ hl, ?_⟩
      rw [totalEarned_snoc, totalPaid_snoc, hba, live_tick h.ordered hno]
      simp only [earned, Event.paid]
      ring
  | @settle principal pending paid hpa =>
    have hc : settlements (tr ++ [⟨a, .settle paid, a.settled principal pending⟩]) =
        settlements tr + 1 := settlements_snoc _ _
    have hd := div_add_mod a.live unit
    constructor
    · exact fun _ => le_refl a.clock
    · intro hz
      omega
    · refine ⟨lost + a.live % unit, ?_, ?_⟩
      · rw [hc, Nat.add_sub_cancel]
        rcases Nat.eq_zero_or_pos (settlements tr) with hz | hpos
        · -- the first settlement finds no principal, so nothing to round
          have hli : a.live = 0 := live_of_idle (.inl (h.started hz))
          rw [hz] at hl
          rw [hz, hli]
          exact hl
        · obtain ⟨n, hn⟩ : ∃ n, settlements tr = n + 1 := ⟨_, (succ_pred_eq_of_pos hpos).symm⟩
          have hm := mod_lt a.live hun
          rw [hn, Nat.add_sub_cancel] at hl
          rw [hn, mul_succ]
          omega
      · have hz : (a.settled principal pending).live = 0 := live_of_idle (.inr rfl)
        have hpa : (pending : ℤ) + paid = a.pending + (a.live / unit : ℕ) := by
          exact_mod_cast hpa
        have hd : (unit : ℤ) * (a.live / unit : ℕ) + (a.live % unit : ℕ) = a.live := by
          exact_mod_cast hd
        rw [totalEarned_snoc, totalPaid_snoc, hba, hz]
        simp only [earned, Event.paid, settled, sub_self, mul_zero, add_zero, cast_add, cast_zero]
        linear_combination hd * (-1) - unit * hpa
  | @retune rate hr =>
    have hc : settlements (tr ++ [⟨a, .retune, { a with rate := rate }⟩]) = settlements tr :=
      settlements_snoc _ _
    have hli : ({ a with rate := rate } : Account).live = a.live := by
      rcases hr with rfl | hi
      · rfl
      · rw [live_of_idle hi]
        exact live_of_idle hi
    constructor
    · exact h.ordered
    · rw [hc]
      exact h.started
    · refine ⟨lost, hc ▸ hl, ?_⟩
      rw [totalEarned_snoc, totalPaid_snoc, hba, hli]
      simp [earned, Event.paid]

section

variable (hun : 0 < unit) (hpr : a.principal = 0) (hpending : a.pending = 0)
  (hr : Run (Step unit) a tr b)

include hun hpr hpending hr

theorem books_run : Books unit tr b := by
  induction hr with
  | nil =>
    refine ⟨fun hp => absurd hpr hp, fun _ => hpr, 0, zero_le _, ?_⟩
    have hl : a.live = 0 := live_of_idle (.inl hpr)
    simp [totalEarned, totalPaid, hpending, hl]
  | snoc _ hs ih => exact ih.step hun hs

/-- From an empty account on: what was paid and what the account shows fall short of the
interest of all periods by at most a unit for each settlement. -/
theorem accrued_run : (unit : ℤ) * (totalPaid tr + b.accrued unit) ≤ totalEarned tr ∧
    totalEarned tr ≤ unit * (totalPaid tr + b.accrued unit + settlements tr) := by
  have hbo := books_run hun hpr hpending hr
  obtain ⟨lost, hl, hba⟩ := hbo.balance
  have hd : (unit : ℤ) * (b.live / unit : ℕ) + (b.live % unit : ℕ) = b.live := by
    exact_mod_cast div_add_mod b.live unit
  have hsh : totalEarned tr =
      unit * (totalPaid tr + b.accrued unit) + (b.live % unit : ℕ) + lost := by
    rw [hba]
    simp only [accrued, cast_add]
    linear_combination hd * (-1)
  have hbou : b.live % unit + lost ≤ unit * settlements tr := by
    rcases Nat.eq_zero_or_pos (settlements tr) with hz | hpos
    · have hli : b.live = 0 := live_of_idle (.inl (hbo.started hz))
      rw [hz] at hl
      rw [hz, hli, zero_mod, zero_add]
      exact hl
    · obtain ⟨n, hn⟩ : ∃ n, settlements tr = n + 1 := ⟨_, (succ_pred_eq_of_pos hpos).symm⟩
      have hm := mod_lt b.live hun
      rw [hn, Nat.add_sub_cancel] at hl
      rw [hn, mul_succ]
      omega
  constructor
  · have := Int.natCast_nonneg (b.live % unit)
    omega
  · rw [mul_add (unit : ℤ) (_ + _)]
    omega

end

end

end SniperBot.Lib.Accrual
