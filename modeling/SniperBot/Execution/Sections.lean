import SniperBot.Execution.Ledger
import SniperBot.Lib.Interleaving

/-!
# Calls on the ledger, section by section

A call takes the ledger's locks up to three times. `Section` is where it stands between two of
them and `act` what it does next. Uninterrupted, a call does what the sequential operation does,
and whatever happens to a record is one of the steps of `RecordStep`.
-/

namespace SniperBot.Execution

open Lib.Interleaving ExecutionLedger

inductive Call where
  | begin (intent : ExecutionIntent)
  | attachSubmission (id signature : String) (blockhash : Option String)
      (lastValidBlockHeight : Option UInt64) (priorityFeeMicroLamports : UInt64)
  | setPriorityFee (id : String) (microLamports : UInt64)
  | transition (id : String) (target : ExecutionState)
  | fail (id : String) (failure : FailureClass) (error : String)
  | reconcileSignature (signature : String) (landed : Bool) (detail : String)
  | hydrate (rows : List ExecutionRecord)

/-- Where a call stands: which section it runs next, and what it knows by then. -/
inductive Section where
  | begin (intent : ExecutionIntent)
  | beginEvict (outcome : BeginOutcome)
  | attach (id signature : String) (blockhash : Option String)
      (lastValidBlockHeight : Option UInt64) (priorityFeeMicroLamports : UInt64)
  | attachIndex (id signature : String) (record : ExecutionRecord)
  | setPriorityFee (id : String) (microLamports : UInt64)
  | transition (id : String) (target : ExecutionState)
  | fail (id : String) (failure : FailureClass) (error : String)
  | failAnnotate (id : String) (failure : FailureClass) (error : String)
  | failApply (id : String) (failure : FailureClass) (error : String)
  | reconcile (signature : String) (landed : Bool) (detail : String)
  | reconcileRead (id : String) (landed : Bool) (detail : String)
  | reconcileApply (id : String) (landed : Bool) (detail : String)
  | hydrate (rows : List ExecutionRecord)
  | hydrateEvict (loaded : Nat)

inductive Reply where
  | begun (outcome : Except BotError BeginOutcome)
  | updated (record : Except BotError ExecutionRecord)
  | done
  | verdict (record : Option ExecutionRecord)
  | loaded (n : Nat)

def Call.entry : Call → Section
  | .begin intent => .begin intent
  | .attachSubmission id signature blockhash height fee =>
    .attach id signature blockhash height fee
  | .setPriorityFee id microLamports => .setPriorityFee id microLamports
  | .transition id target => .transition id target
  | .fail id failure error => .fail id failure error
  | .reconcileSignature signature landed detail => .reconcile signature landed detail
  | .hydrate rows => .hydrate rows

def ExecutionLedger.perform (l : ExecutionLedger) : Call → Reply × ExecutionLedger
  | .begin intent => (.begun (l.begin intent).1, (l.begin intent).2)
  | .attachSubmission id signature blockhash height fee =>
    let out := l.attachSubmission id signature blockhash height fee
    (.updated out.1, out.2)
  | .setPriorityFee id microLamports => (.done, l.setPriorityFee id microLamports)
  | .transition id target => (.updated (l.transition id target).1, (l.transition id target).2)
  | .fail id failure error => (.updated (l.fail id failure error).1, (l.fail id failure error).2)
  | .reconcileSignature signature landed detail =>
    let out := l.reconcileSignature signature landed detail
    (.verdict out.1, out.2)
  | .hydrate rows => (.loaded (l.hydrate rows).1, (l.hydrate rows).2)

def act : Section → ExecutionLedger → ExecutionLedger × (Section ⊕ Reply)
  | .begin intent, l =>
    if isBlank intent.intentId then (l, .inr (.begun (.error emptyIntentId)))
    else
      match l.startAttempt intent with
      | (.duplicate existing, l) => (l, .inr (.begun (.ok (.duplicate existing))))
      | (outcome, l) => (l, .inl (.beginEvict outcome))
  | .beginEvict outcome, l => (l.evictIfNeeded, .inr (.begun (.ok outcome)))
  | .attach id signature blockhash height fee, l =>
    match l.attachRecord id signature blockhash height fee with
    | (.ok r, l) =>
      (l, if signature.isEmpty then .inr (.updated (.ok r)) else .inl (.attachIndex id signature r))
    | (.error e, l) => (l, .inr (.updated (.error e)))
  | .attachIndex id signature record, l =>
    (l.indexSignature signature id, .inr (.updated (.ok record)))
  | .setPriorityFee id microLamports, l => (l.setPriorityFee id microLamports, .inr .done)
  | .transition id target, l =>
    ((l.transition id target).2, .inr (.updated (l.transition id target).1))
  | .fail id failure error, l =>
    (l, .inl (if l.failedAlready id failure then .failAnnotate id failure error
      else .failApply id failure error))
  | .failAnnotate id failure error, l =>
    ((l.annotate id failure error).2, .inr (.updated (l.annotate id failure error).1))
  | .failApply id failure error, l =>
    let out := l.apply id failure.terminalState (some (failure, error))
    (out.2, .inr (.updated out.1))
  | .reconcile signature landed detail, l =>
    match l.bySignature.lookup signature with
    | some id => (l, .inl (.reconcileRead id landed detail))
    | none => (l, .inr (.verdict none))
  | .reconcileRead id landed detail, l =>
    match l.get id with
    | some current =>
      if current.state.isTerminal then (l, .inr (.verdict (some current)))
      else (l, .inl (.reconcileApply id landed detail))
    | none => (l, .inr (.verdict none))
  | .reconcileApply id landed detail, l =>
    ((l.applyVerdict id landed detail).2, .inr (.verdict (l.applyVerdict id landed detail).1))
  | .hydrate rows, l => ((l.loadRows rows).2, .inl (.hydrateEvict (l.loadRows rows).1))
  | .hydrateEvict n, l => (l.evictIfNeeded, .inr (.loaded n))

/-! ## Calls that run alone -/

section

variable (l : ExecutionLedger)

theorem begin_solo (intent : ExecutionIntent) :
    Solo act (.begin intent) l (.begun (l.begin intent).1) (l.begin intent).2 := by
  unfold begin
  by_cases hb : isBlank intent.intentId = true
  · rw [if_pos hb]
    exact .last (by simp only [act, if_pos hb])
  · rw [if_neg hb]
    rcases hst : l.startAttempt intent with ⟨outcome, l'⟩
    cases outcome with
    | duplicate existing => exact .last (by simp only [act, if_neg hb, hst])
    | fresh record =>
      have ha : act (.begin intent) l = (l', .inl (.beginEvict (.fresh record))) := by
        simp only [act, if_neg hb, hst]
      exact .next ha (.last rfl)
    | rearmed record =>
      have ha : act (.begin intent) l = (l', .inl (.beginEvict (.rearmed record))) := by
        simp only [act, if_neg hb, hst]
      exact .next ha (.last rfl)

theorem attachSubmission_solo (id signature : String) (blockhash : Option String)
    (height : Option UInt64) (fee : UInt64) :
    Solo act (.attach id signature blockhash height fee) l
    (.updated (l.attachSubmission id signature blockhash height fee).1)
    (l.attachSubmission id signature blockhash height fee).2 := by
  unfold attachSubmission
  rcases ha : l.attachRecord id signature blockhash height fee with ⟨result, l'⟩
  cases result with
  | error e => exact .last (by simp only [act, ha])
  | ok r =>
    by_cases hs : signature.isEmpty = true
    · exact .last (by simp only [act, ha, if_pos hs])
    · have hac : act (.attach id signature blockhash height fee) l =
          (l', .inl (.attachIndex id signature r)) := by
        simp only [act, ha, if_neg hs]
      exact .next hac (.last (by simp only [act, if_neg hs]))

theorem fail_solo (id : String) (failure : FailureClass) (error : String) :
    Solo act (.fail id failure error) l (.updated (l.fail id failure error).1)
    (l.fail id failure error).2 := by
  unfold fail
  by_cases hf : l.failedAlready id failure = true
  · have ha : act (.fail id failure error) l = (l, .inl (.failAnnotate id failure error)) := by
      simp only [act, if_pos hf]
    rw [if_pos hf]
    exact .next ha (.last rfl)
  · have ha : act (.fail id failure error) l = (l, .inl (.failApply id failure error)) := by
      simp only [act, if_neg hf]
    rw [if_neg hf]
    exact .next ha (.last rfl)

theorem reconcileSignature_solo (signature : String) (landed : Bool) (detail : String) :
    Solo act (.reconcile signature landed detail) l
    (.verdict (l.reconcileSignature signature landed detail).1)
    (l.reconcileSignature signature landed detail).2 := by
  unfold reconcileSignature
  cases hi : l.bySignature.lookup signature with
  | none => exact .last (by simp only [act, hi])
  | some id =>
    have hr : act (.reconcile signature landed detail) l =
        (l, .inl (.reconcileRead id landed detail)) := by
      simp only [act, hi]
    refine .next hr ?_
    cases hg : l.get id with
    | none => exact .last (by simp only [act, hg])
    | some current =>
      by_cases ht : current.state.isTerminal = true
      · exact .last (by simp only [act, hg, if_pos ht])
      · have ha : act (.reconcileRead id landed detail) l =
            (l, .inl (.reconcileApply id landed detail)) := by
          simp only [act, hg, if_neg ht]
        exact .next ha (.last (by simp only [act, hg, if_neg ht]))

theorem perform_solo (c : Call) : Solo act c.entry l (l.perform c).1 (l.perform c).2 := by
  cases c with
  | begin intent => exact begin_solo l intent
  | attachSubmission id signature blockhash height fee =>
    exact attachSubmission_solo l id signature blockhash height fee
  | setPriorityFee id microLamports | transition id target => exact .last rfl
  | fail id failure error => exact fail_solo l id failure error
  | reconcileSignature signature landed detail =>
    exact reconcileSignature_solo l signature landed detail
  | hydrate rows => exact .next rfl (.last rfl)

end

/-! ## What can happen to one record -/

/-- The sections that move the record of `id`, and what to. Only a verdict that
the transaction did not land moves a record to `reconciled` with a failure. -/
inductive Moves (id : String) :
    Section → ExecutionState → Option (FailureClass × String) → Prop
  | transition {target : ExecutionState} : Moves id (.transition id target) target none
  | fail {failure : FailureClass} {error : String} :
      Moves id (.failApply id failure error) failure.terminalState (some (failure, error))
  | verdict {landed : Bool} {detail : String} :
      Moves id (.reconcileApply id landed detail) .reconciled (verdictFailure landed detail)

def Section.evicts : Section → Bool
  | .beginEvict _ | .hydrateEvict _ => true
  | _ => false

/-- One section, seen from the record of `id`. -/
inductive RecordStep (id : String) :
    Section → Option ExecutionRecord → Option ExecutionRecord → Prop
  | keep {k : Section} {o : Option ExecutionRecord} : RecordStep id k o o
  | create {intent : ExecutionIntent} (hid : intent.intentId = id) :
      RecordStep id (.begin intent) none (some (.new intent))
  | rearm {intent : ExecutionIntent} {r : ExecutionRecord} (hid : intent.intentId = id)
      (hr : r.canRearm = true) : RecordStep id (.begin intent) (some r) (some r.rearm)
  | attach {signature : String} {blockhash : Option String} {height : Option UInt64} {fee : UInt64}
      {r : ExecutionRecord} :
      RecordStep id (.attach id signature blockhash height fee) (some r)
        (some (r.attach signature blockhash height fee))
  | fee {microLamports : UInt64} {r : ExecutionRecord} :
      RecordStep id (.setPriorityFee id microLamports) (some r)
        (some { r with priorityFeeMicroLamports := microLamports })
  | move {k : Section} {target : ExecutionState} {failure : Option (FailureClass × String)}
      {r : ExecutionRecord} (hk : Moves id k target failure)
      (hr : r.state.canTransitionTo target = true) :
      RecordStep id k (some r) (some (r.moveTo target failure))
  | annotate {failure : FailureClass} {error : String} {r : ExecutionRecord} :
      RecordStep id (.failAnnotate id failure error) (some r) (some (r.annotate failure error))
  | evict {k : Section} {r : ExecutionRecord} (hk : k.evicts = true)
      (hr : r.state.isSettled = true) : RecordStep id k (some r) none
  | load {rows : List ExecutionRecord} {row : ExecutionRecord} (hrow : row ∈ rows)
      (hid : row.intentId = id) : RecordStep id (.hydrate rows) none (some row)

section

variable (l : ExecutionLedger) (id : String) {k : Section}

theorem setRecord_record {j : String} {r' : ExecutionRecord}
    (h : id = j → RecordStep id k (l.get id) (some r')) :
    RecordStep id k (l.get id) ((l.setRecord j r').get id) := by
  by_cases hi : id = j
  · subst hi
    rw [get_setRecord_self]
    exact h rfl
  · rw [get_setRecord_ne l r' hi]
    exact .keep

theorem startAttempt_record (intent : ExecutionIntent) :
    RecordStep id (.begin intent) (l.get id) ((l.startAttempt intent).2.get id) := by
  unfold startAttempt
  split
  · next existing hg =>
    split
    · next hr =>
      refine setRecord_record l id fun hi => ?_
      rw [hi, hg]
      exact .rearm rfl hr
    · exact .keep
  · next hg =>
    refine setRecord_record l id fun hi => ?_
    rw [hi, hg]
    exact .create rfl

theorem apply_record {j : String} {target : ExecutionState}
    {failure : Option (FailureClass × String)} (hk : Moves j k target failure) :
    RecordStep id k (l.get id) ((l.apply j target failure).2.get id) := by
  unfold apply
  split
  · next r hg =>
    split
    · next hm =>
      refine setRecord_record l id fun hi => ?_
      subst hi
      rw [hg]
      exact .move hk hm
    · exact .keep
  · exact .keep

theorem applyVerdict_snd (j : String) (landed : Bool) (detail : String) :
    (l.applyVerdict j landed detail).2 =
    (l.apply j .reconciled (verdictFailure landed detail)).2 := by
  unfold applyVerdict
  split <;> next h => rw [h]

theorem evict_record (hk : k.evicts = true) :
    RecordStep id k (l.get id) (l.evictIfNeeded.get id) := by
  rcases l.evictIfNeeded_get id with h | ⟨r, hg, hse, hn⟩
  · rw [h]
    exact .keep
  · rw [hg, hn]
    exact .evict hk hse

theorem act_record (k : Section) : RecordStep id k (l.get id) ((act k l).1.get id) := by
  cases k with
  | begin intent =>
    have hst := startAttempt_record l id intent
    simp only [act]
    split
    · exact .keep
    · split
      · next h => rwa [h] at hst
      · next h => rwa [h] at hst
  | beginEvict outcome | hydrateEvict n => exact evict_record l id rfl
  | attach j signature blockhash height fee =>
    simp only [act, attachRecord]
    cases hg : l.get j with
    | none => exact .keep
    | some r =>
      refine setRecord_record l id fun hi => ?_
      subst hi
      rw [hg]
      exact .attach
  | attachIndex j signature record | fail j failure error => exact .keep
  | setPriorityFee j microLamports =>
    simp only [act, setPriorityFee]
    cases hg : l.get j with
    | none => exact .keep
    | some r =>
      refine setRecord_record l id fun hi => ?_
      subst hi
      rw [hg]
      exact .fee
  | transition j target => exact apply_record l id .transition
  | failAnnotate j failure error =>
    simp only [act, annotate]
    cases hg : l.get j with
    | none => exact .keep
    | some r =>
      refine setRecord_record l id fun hi => ?_
      subst hi
      rw [hg]
      exact .annotate
  | failApply j failure error => exact apply_record l id .fail
  | reconcile signature landed detail =>
    simp only [act]
    split <;> exact .keep
  | reconcileRead j landed detail =>
    simp only [act]
    split
    · split <;> exact .keep
    · exact .keep
  | reconcileApply j landed detail =>
    simp only [act, applyVerdict_snd]
    exact apply_record l id .verdict
  | hydrate rows =>
    rcases l.loadRows_get id rows with h | ⟨hn, row, hr, hi, hg⟩
    · simp only [act, h]
      exact .keep
    · simp only [act, hn, hg]
      exact .load hr hi

end

end SniperBot.Execution
