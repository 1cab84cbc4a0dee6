import SniperBot.Execution.DuplicateGuard

/-!
# Verdicts and the attempts they speak about

A verdict names a signature, and the index leads from it to an intent. The index
keeps the signatures of earlier attempts, so the record a verdict moves need not
be about the transaction the verdict is about.
-/

namespace SniperBot.Execution

open Lib.Runs ExecutionLedger

variable {l : ExecutionLedger} {tr : List (Entry ExecutionLedger Call)}

section

variable (l : ExecutionLedger)

/-- The index leads the signature to the attempt it belongs to, or to a record
that no verdict moves. -/
def IndexCurrent (signature : String) : Prop :=
  ∀ id r, l.bySignature.lookup signature = some id → l.get id = some r →
    r.signature = some signature ∨ r.state = .created ∨ r.state = .validated ∨ r.state = .reconciled

theorem reconcileSignature_snd (signature : String) (landed : Bool) (detail : String) :
    (l.reconcileSignature signature landed detail).2 =
      match l.bySignature.lookup signature with
      | some id => (l.apply id .reconciled (verdictFailure landed detail)).2
      | none => l := by
  unfold reconcileSignature
  cases l.bySignature.lookup signature with
  | none => rfl
  | some id =>
    cases hg : l.get id with
    | none => simp only [apply, hg]
    | some current =>
      by_cases hte : current.state.isTerminal = true
      · have hst := ExecutionState.not_canTransitionTo_of_terminal hte .reconciled
        simp [apply, hg, hte, hst]
      · simp only [hg, if_neg hte]
        exact applyVerdict_snd l id landed detail

theorem apply_reconciled_changes_iff (j id : String) (failure : Option (FailureClass × String)) :
    (l.apply j .reconciled failure).2.get id ≠ l.get id ↔
    j = id ∧ ∃ r, l.get id = some r ∧ r.state.canTransitionTo .reconciled = true := by
  unfold apply
  split
  · next r hg =>
    split
    · next hm =>
      by_cases hi : id = j
      · subst hi
        -- the record moves, since nothing moves from `reconciled` to itself
        have hn : r.moveTo .reconciled failure ≠ r := by
          intro he
          have hst := congrArg ExecutionRecord.state he
          rw [ExecutionRecord.moveTo_state] at hst
          rw [← hst] at hm
          contradiction
        simp [hg, hn, hm]
      · simp [get_setRecord_ne l _ hi, Ne.symm hi]
    · next hm =>
      simp only [ne_eq, not_true_eq_false, false_iff, not_and, not_exists]
      rintro rfl r' hr' hm'
      obtain rfl := Option.some.inj (hg.symm.trans hr')
      exact hm hm'
  · next hg =>
    simp only [ne_eq, not_true_eq_false, false_iff, not_and, not_exists]
    rintro rfl r hr
    rw [hg] at hr
    contradiction

theorem reconcileSignature_changes_iff (signature : String) (landed : Bool)
    (detail : String) (id : String) :
    (l.reconcileSignature signature landed detail).2.get id ≠ l.get id ↔
    l.bySignature.lookup signature = some id ∧
      ∃ r, l.get id = some r ∧ r.state.canTransitionTo .reconciled = true := by
  rw [reconcileSignature_snd]
  cases hi : l.bySignature.lookup signature with
  | none => simp
  | some j => simp only [apply_reconciled_changes_iff, Option.some.injEq]

end

/-- In every run, a verdict changes only the record whose current attempt carries
its signature exactly when the index is current for it. -/
theorem verdict_on_current_attempt_iff {cap : Nat} (hr : Run Performs (.new cap) tr l)
    {e : Entry ExecutionLedger Call} (he : e ∈ tr) {signature : String} {landed : Bool}
    {detail : String} (hlabel : e.label = .reconcileSignature signature landed detail) :
    (∀ id, e.post.get id ≠ e.pre.get id →
      ∃ r, e.pre.get id = some r ∧ r.signature = some signature) ↔
    IndexCurrent e.pre signature := by
  obtain ⟨-, -, hst⟩ := hr.mem_reached he
  rw [hlabel] at hst
  have hpo : e.post = (e.pre.reconcileSignature signature landed detail).2 := hst
  simp only [hpo, reconcileSignature_changes_iff, ExecutionState.canTransitionTo_reconciled]
  constructor
  · intro h id r hi hg
    by_cases hs : r.state ≠ .created ∧ r.state ≠ .validated ∧ r.state ≠ .reconciled
    · obtain ⟨r', hg', hsi⟩ := h id ⟨hi, r, hg, hs⟩
      obtain rfl := Option.some.inj (hg.symm.trans hg')
      exact .inl hsi
    · right
      by_contra hne
      simp only [not_or] at hne
      exact hs hne
  · rintro h id ⟨hi, r, hg, h1, h2, h3⟩
    rcases h id r hi hg with hsi | hs | hs | hs
    · exact ⟨r, hg, hsi⟩
    · exact absurd hs h1
    · exact absurd hs h2
    · exact absurd hs h3

def secondAttempt : List Call :=
  submit "intent" "S1" ++ [.fail "intent" .blockhashExpired "blockhash expired"] ++
    submit "intent" "S2" ++ [.transition "intent" .pending]

theorem verdict_on_current_attempt_iff_second :
    (performAll (.new 64) (secondAttempt ++ [.reconcileSignature "S2" true ""])).stateOf "intent" =
      some .reconciled ∧
    ∀ id, (performAll (.new 64) (secondAttempt ++ [.reconcileSignature "S2" true ""])).get id ≠
        (performAll (.new 64) secondAttempt).get id →
      ∃ r, (performAll (.new 64) secondAttempt).get id = some r ∧ r.signature = some "S2" := by
  have hr := run_calls (.new 64) (secondAttempt ++ [.reconcileSignature "S2" true ""])
  have hm : (⟨performAll (.new 64) secondAttempt, .reconcileSignature "S2" true "",
      performAll (.new 64) (secondAttempt ++ [.reconcileSignature "S2" true ""])⟩ :
      Entry ExecutionLedger Call) ∈
        calls (.new 64) (secondAttempt ++ [.reconcileSignature "S2" true ""]) :=
    List.getLast_mem (l := calls (.new 64) (secondAttempt ++ [.reconcileSignature "S2" true ""]))
      (by simp [calls, secondAttempt, submit, history])
  have hc : ∀ id, (performAll (.new 64) secondAttempt).bySignature.lookup "S2" = some id →
      ∀ r, (performAll (.new 64) secondAttempt).get id = some r → r.signature = some "S2" := by
    decide +kernel
  refine ⟨by decide +kernel, (verdict_on_current_attempt_iff hr hm rfl).mpr ?_⟩
  exact fun id r hi hg => .inl (hc id hi r hg)

/-- The verdict about the expired first attempt makes the intent re-armable while
the second attempt may still land. -/
theorem stale_verdict_rearms :
    Run Performs (.new 64) (calls (.new 64) secondAttempt) (performAll (.new 64) secondAttempt) ∧
      ((performAll (.new 64) secondAttempt).get "intent").map
        (fun r => (r.state, r.signature, r.canRearm)) = some (.pending, some "S2", false) ∧
      (((performAll (.new 64) secondAttempt).reconcileSignature "S1" false "not found").2.get
        "intent").map (fun r => (r.state, r.signature, r.canRearm)) =
        some (.reconciled, some "S2", true) := by
  refine ⟨run_calls _ _, ?_, ?_⟩
  all_goals decide +kernel

end SniperBot.Execution
