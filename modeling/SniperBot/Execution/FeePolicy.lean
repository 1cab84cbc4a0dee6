import Mathlib.Order.Fin.Basic
import Mathlib.Order.Iterate
import Mathlib.Order.MinMax

/-!
# The priority-fee policy

What an attempt pays per compute unit: the requested fee, raised to a quote of the oracle,
escalated with every retry and clamped. Fees are machine words, and sums and products saturate.
-/

namespace SniperBot.Execution

open Function

abbrev Fee := Fin UInt64.size

def Fee.saturated (n : ℕ) : Fee := ⟨min n (UInt64.size - 1), by simp [UInt64.size]⟩

structure ExecutionConfig where
  feeAdaptive : Bool
  feeMinMicroLamports : Fee
  feeMaxMicroLamports : Fee
  feeEmergencyMaxMicroLamports : Fee
  feeEscalationPct : Fee

structure FeePolicy where
  adaptive : Bool
  minMicroLamports : Fee
  maxMicroLamports : Fee
  emergencyMaxMicroLamports : Fee
  escalationPct : Fee
  min_le_max : minMicroLamports ≤ maxMicroLamports
  max_le_emergency : maxMicroLamports ≤ emergencyMaxMicroLamports

inductive FeeSource where
  | requested
  | adaptive
  | escalated

structure FeeDecision where
  requested : Fee
  fee : Fee
  source : FeeSource
  clamped : Bool
  refused : Bool
  attempt : ℕ

namespace FeePolicy

def fromConfig (cfg : ExecutionConfig) : FeePolicy where
  adaptive := cfg.feeAdaptive
  minMicroLamports := cfg.feeMinMicroLamports
  maxMicroLamports := max cfg.feeMaxMicroLamports cfg.feeMinMicroLamports
  emergencyMaxMicroLamports := max cfg.feeEmergencyMaxMicroLamports
    (max cfg.feeMaxMicroLamports cfg.feeMinMicroLamports)
  escalationPct := cfg.feeEscalationPct
  min_le_max := le_max_right _ _
  max_le_emergency := le_max_right _ _

variable (p : FeePolicy)

def clamp (fee : Fee) : Fee := max p.minMicroLamports (min fee p.maxMicroLamports)

def bumped (fee : Fee) : Fee :=
  let bump := (Fee.saturated (fee * p.escalationPct)).val / 100
  .saturated (fee + max bump (if 0 < p.escalationPct then 1 else 0))

def escalateLoop : ℕ → Fee → Fee
  | 0, fee => min fee p.maxMicroLamports
  | n + 1, fee =>
    if p.maxMicroLamports ≤ p.bumped fee then p.maxMicroLamports else escalateLoop n (p.bumped fee)

def escalate (base : Fee) (attempt : ℕ) : Fee := p.escalateLoop (max attempt 1 - 1) base

section

variable (requested : Fee)

def wouldRefuse : Bool :=
  p.emergencyMaxMicroLamports < requested || p.emergencyMaxMicroLamports < p.clamp requested

def maxPayable (attempts : ℕ) : Fee :=
  if p.adaptive then max (p.clamp requested) p.maxMicroLamports
  else max (p.escalate (p.clamp requested) (max attempts 1)) (p.clamp requested)

def quoted (oracle : Option Fee) : Fee × FeeSource :=
  if p.adaptive ∧ requested < oracle.getD 0 then (oracle.getD 0, .adaptive)
  else (requested, .requested)

/-- The fee of an attempt before the last clamp, and where it comes from. -/
def raised (oracle : Option Fee) (attempt : ℕ) : Fee × FeeSource :=
  let (fee, source) := p.quoted requested oracle
  if 1 < attempt ∧ 0 < p.escalationPct ∧ p.escalate fee attempt ≠ fee then
    (p.escalate fee attempt, .escalated)
  else (fee, source)

def decide (oracle : Option Fee) (attempt : ℕ) : FeeDecision :=
  let fee := (p.raised requested oracle attempt).1
  { requested := requested
    fee := p.clamp fee
    source := (p.raised requested oracle attempt).2
    clamped := p.clamp fee != fee
    refused := p.wouldRefuse requested || p.emergencyMaxMicroLamports < p.clamp fee
    attempt := attempt }

end

/-! ## The loop -/

variable {p} {requested : Fee} {oracle : Option Fee} {attempt n : ℕ}

theorem bumped_mono : Monotone p.bumped := by
  intro x y (h : x.val ≤ y.val)
  have hm : x.val * p.escalationPct.val ≤ y.val * p.escalationPct.val := Nat.mul_le_mul_right _ h
  simp only [bumped, Fee.saturated, Fin.mk_le_mk]
  omega

theorem le_bumped (x : Fee) : x ≤ p.bumped x := by
  show x.val ≤ min _ (UInt64.size - 1)
  omega

theorem bumped_eq_self (h : ¬ 0 < p.escalationPct) (x : Fee) : p.bumped x = x := by
  have hz : p.escalationPct.val = 0 := Nat.eq_zero_of_not_pos h
  have hx : x.val ≤ UInt64.size - 1 := Nat.le_pred_of_lt x.isLt
  simpa [bumped, Fee.saturated, h, hz, Fin.ext_iff] using hx

theorem escalateLoop_eq (n : ℕ) (x : Fee) :
    p.escalateLoop n x = min (p.bumped^[n] x) p.maxMicroLamports := by
  induction n generalizing x with
  | zero => rfl
  | succ n ih =>
    rw [escalateLoop, iterate_succ_apply]
    split
    · next h => exact (min_eq_right (h.trans (id_le_iterate_of_id_le le_bumped n _))).symm
    · exact ih _

theorem clamp_mono : Monotone p.clamp := fun _ _ h => max_le_max le_rfl (min_le_min h le_rfl)

theorem clamp_le_max (x : Fee) : p.clamp x ≤ p.maxMicroLamports :=
  max_le p.min_le_max (min_le_right _ _)

theorem quoted_fee : (p.quoted requested oracle).1 =
    if p.adaptive then max requested (oracle.getD 0) else requested := by
  unfold quoted
  split_ifs <;> simp_all [le_of_lt]

theorem fee_decide : (p.decide requested oracle attempt).fee =
    p.clamp (p.bumped^[attempt - 1] (p.quoted requested oracle).1) := by
  have he : ∀ fee, p.clamp (p.escalate fee attempt) = p.clamp (p.bumped^[attempt - 1] fee) := by
    intro fee
    rw [escalate, escalateLoop_eq, show max attempt 1 - 1 = attempt - 1 by omega]
    simp [clamp]
  show p.clamp (p.raised requested oracle attempt).1 = _
  simp only [raised]
  split_ifs with hr
  · exact he _
  · by_cases ha : 1 < attempt
    · by_cases hp : 0 < p.escalationPct
      · rw [← he, not_not.mp fun hn => hr ⟨ha, hp, hn⟩]
      · rw [iterate_fixed (bumped_eq_self hp _)]
    · rw [show attempt - 1 = 0 by omega]
      rfl

theorem fee_le_maxPayable (h : attempt ≤ n) :
    (p.decide requested oracle attempt).fee ≤ p.maxPayable requested n := by
  rw [fee_decide, quoted_fee]
  unfold maxPayable
  split_ifs
  · exact (clamp_le_max _).trans (le_max_right _ _)
  · refine max_le ((le_max_left _ _).trans (le_max_right _ _)) ?_
    rw [escalate, escalateLoop_eq]
    rcases le_total requested p.maxMicroLamports with hle | hg
    · -- the request is below the clamped one, and so are its bumps
      have hc : requested ≤ p.clamp requested := le_max_of_le_right (le_min le_rfl hle)
      have hb : p.bumped^[attempt - 1] requested ≤
          p.bumped^[max (max n 1) 1 - 1] (p.clamp requested) :=
        (bumped_mono.iterate _ hc).trans (monotone_iterate_of_id_le le_bumped (by omega) _)
      exact (min_le_min hb le_rfl).trans (le_max_left _ _)
    · exact (min_le_right _ _).trans (le_max_of_le_right (le_max_of_le_right (le_min hg le_rfl)))

/-- Every attempt up to the budgeted number pays within the bounds and the budget, no later
attempt and no higher quote pays less, and the decision refuses what is foretold. -/
theorem fee_within_budget (cfg : ExecutionConfig) (requested : Fee) (n : ℕ) :
    let p := fromConfig cfg
    (∀ oracle, ∀ attempt ≤ n, p.minMicroLamports ≤ (p.decide requested oracle attempt).fee ∧
      (p.decide requested oracle attempt).fee ≤ p.maxMicroLamports ∧
      (p.decide requested oracle attempt).fee ≤ p.maxPayable requested n) ∧
    (∀ oracle, Monotone fun attempt => (p.decide requested oracle attempt).fee) ∧
    (∀ attempt, ∀ quote quote' : Option Fee, quote.getD 0 ≤ quote'.getD 0 →
      (p.decide requested quote attempt).fee ≤ (p.decide requested quote' attempt).fee) ∧
    ∀ oracle attempt, (p.decide requested oracle attempt).refused = p.wouldRefuse requested := by
  intro p
  have hm : ∀ oracle attempt, (p.decide requested oracle attempt).fee ≤ p.maxMicroLamports :=
    fun _ _ => clamp_le_max _
  refine ⟨fun oracle attempt h => ⟨le_max_left _ _, hm _ _, fee_le_maxPayable h⟩, ?_, ?_, ?_⟩
  · intro oracle attempt attempt' h
    simp only [fee_decide]
    exact clamp_mono (Function.monotone_iterate_of_id_le le_bumped (by omega) _)
  · intro attempt quote quote' h
    simp only [fee_decide, quoted_fee]
    refine clamp_mono (bumped_mono.iterate _ ?_)
    split_ifs
    · exact max_le_max le_rfl h
    · exact le_rfl
  · intro oracle attempt
    have he := not_lt.mpr ((hm oracle attempt).trans p.max_le_emergency)
    exact (congrArg _ (decide_eq_false he)).trans (Bool.or_false _)

theorem fee_within_budget_retry :
    let p := fromConfig ⟨false, 10, 1000, 5000, 25⟩
    (p.decide 100 none 2).fee = 125 ∧ (p.decide 100 none 2).fee ≤ p.maxPayable 100 3 := by
  refine ⟨by decide, ?_⟩
  exact ((fee_within_budget ⟨false, 10, 1000, 5000, 25⟩ 100 3).1 none 2 (by decide)).2.2

end FeePolicy

end SniperBot.Execution
