import SniperBot.Execution.Sections

/-!
# The duplicate guard

What the ledger promises about intents whose transaction landed. A section can take one away in
three ways: it evicts the record, applies the verdict that a confirmed transaction did not land,
or notes a failure on a reconciled record.
-/

namespace SniperBot.Execution

open Lib.Runs Lib.Interleaving ExecutionLedger

section

variable (l : ExecutionLedger) (id : String)

def HasLanded : Prop := ∃ r, l.get id = some r ∧ r.Landed

/-- The section takes away what the record of a landed intent shows: it evicts
the record, applies the verdict that a confirmed transaction did not land, or
notes a failure on a reconciled record. -/
def Overturns : Section → Prop
  | .reconcileApply j landed _ => j = id ∧ landed = false ∧ l.stateOf id = some .confirmed
  | .failAnnotate j _ _ => j = id ∧ l.stateOf id = some .reconciled
  | k => k.evicts = true ∧ (act k l).1.get id = none

instance  (k : Section) : Decidable (Overturns l id k) := by
  cases k <;> exact inferInstanceAs (Decidable (_ ∧ _))

end

variable {l l' : ExecutionLedger} {id : String}

theorem overturns_of_evicts {k : Section} (hk : k.evicts = true)
    (hg : (act k l).1.get id = none) : Overturns l id k := by
  cases k <;> first | exact ⟨hk, hg⟩ | exact absurd hk Bool.false_ne_true

theorem stateOf_eq {r : ExecutionRecord} {s : ExecutionState} (hg : l.get id = some r)
    (hr : r.state = s) : l.stateOf id = some s := by
  rw [stateOf, hg, ← hr, Option.map_some]

theorem landed_act (h : HasLanded l id) {k : Section} (hk : ¬ Overturns l id k) :
    HasLanded (act k l).1 id := by
  obtain ⟨r, hge, hl⟩ := h
  have hst := act_record l id k
  have hg : (act k l).1.get id = none → ¬ k.evicts = true := fun hn he =>
    hk (overturns_of_evicts he hn)
  unfold HasLanded
  generalize (act k l).1.get id = o at hst hg
  rw [hge] at hst
  cases hst with
  | keep => exact ⟨r, rfl, hl⟩
  | rearm hi hr =>
    rw [hl.not_canRearm] at hr
    contradiction
  | attach | fee => exact ⟨_, rfl, hl⟩
  | @move _ target failure _ hm hr =>
    refine ⟨_, rfl, hl.moveTo hr ?_⟩
    intro hta
    cases hm with
    | transition => rfl
    | @fail failure error => exact absurd hta failure.terminalState_not_landed.2
    | @verdict landed detail =>
      cases landed with
      | true => rfl
      | false =>
        rcases hl with hs | ⟨hs, -⟩
        · exact absurd ⟨rfl, rfl, stateOf_eq hge hs⟩ hk
        · rw [hs] at hr
          contradiction
  | annotate =>
    rcases hl with hs | ⟨hs, -⟩
    · exact ⟨_, rfl, .inl hs⟩
    · exact absurd ⟨rfl, stateOf_eq hge hs⟩ hk
  | evict hev => exact absurd hev (hg rfl)

/-- A landed intent is refused. A blank id can only come from a durable row, and
no attempt with it is ever started. -/
theorem act_begin_of_landed {intent : ExecutionIntent} (h : HasLanded l intent.intentId) :
    (isBlank intent.intentId = true ∧
    act (.begin intent) l = (l, .inr (.begun (.error emptyIntentId)))) ∨
    isBlank intent.intentId = false ∧
    ∃ r, act (.begin intent) l = (l, .inr (.begun (.ok (.duplicate r)))) := by
  obtain ⟨r, hg, hl⟩ := h
  by_cases hb : isBlank intent.intentId = true
  · exact .inl ⟨hb, by simp only [act, if_pos hb]⟩
  · refine .inr ⟨Bool.eq_false_iff.mpr hb, r, ?_⟩
    simp only [act, if_neg hb, startAttempt, hg, hl.not_canRearm]
    rfl

/-! ## One call after another -/

variable {tr : List (Entry ExecutionLedger Call)}

def Performs (l : ExecutionLedger) (c : Call) (l' : ExecutionLedger) : Prop := l' = (l.perform c).2

def Denies (l : ExecutionLedger) (id : String) : Call → Prop
  | .reconcileSignature signature false _ =>
    l.bySignature.lookup signature = some id ∧ l.stateOf id = some .confirmed
  | _ => False

instance (l : ExecutionLedger) (id : String) (c : Call) : Decidable (Denies l id c) := by
  unfold Denies
  split <;> infer_instance

section

variable (h : HasLanded l id)

include h

theorem HasLanded.of_get_eq (hg : l'.get id = l.get id) : HasLanded l' id := by
  unfold HasLanded
  rwa [hg]

theorem landed_evict (hkept : (l.evictIfNeeded.get id).isSome = true) :
    HasLanded l.evictIfNeeded id := by
  rcases l.evictIfNeeded_get id with hg | ⟨r, -, -, hn⟩
  · exact h.of_get_eq hg
  · rw [hn] at hkept
    contradiction

theorem landed_begin {intent : ExecutionIntent}
    (hkept : ((l.begin intent).2.get id).isSome = true) : HasLanded (l.begin intent).2 id := by
  have ha : HasLanded (act (.begin intent) l).1 id := landed_act h (by rintro ⟨hk, -⟩; cases hk)
  by_cases hb : isBlank intent.intentId = true
  · simpa only [begin, if_pos hb] using h
  · simp only [act, if_neg hb] at ha
    simp only [begin, if_neg hb] at hkept ⊢
    rcases hst : l.startAttempt intent with ⟨outcome, l'⟩
    rw [hst] at ha hkept
    cases outcome with
    | duplicate existing => exact ha
    | fresh record | rearmed record => exact landed_evict ha hkept

theorem landed_attachSubmission (j signature : String)
    (blockhash : Option String) (height : Option UInt64) (fee : UInt64) :
    HasLanded (l.attachSubmission j signature blockhash height fee).2 id := by
  have hac : HasLanded (act (.attach j signature blockhash height fee) l).1 id :=
    landed_act h (by rintro ⟨hk, -⟩; cases hk)
  unfold attachSubmission
  simp only [act] at hac
  rcases ha : l.attachRecord j signature blockhash height fee with ⟨result, l'⟩
  rw [ha] at hac
  cases result with
  | error e => exact hac
  | ok r =>
    refine hac.of_get_eq ?_
    by_cases hs : signature.isEmpty = true
    · simp only [if_pos hs]
    · simp only [if_neg hs]
      rfl

theorem landed_fail (j : String) (failure : FailureClass) (error : String) :
    HasLanded (l.fail j failure error).2 id := by
  unfold fail
  by_cases hf : l.failedAlready j failure = true
  · rw [if_pos hf]
    refine landed_act (k := .failAnnotate j failure error) h ?_
    rintro ⟨rfl, hs⟩
    have hst : l.stateOf j = some failure.terminalState := by
      simpa only [failedAlready, beq_iff_eq] using hf
    exact failure.terminalState_not_landed.2 (Option.some.inj (hst.symm.trans hs))
  · rw [if_neg hf]
    exact landed_act (k := .failApply j failure error) h (by rintro ⟨hk, -⟩; cases hk)

theorem landed_reconcileSignature (signature : String) (landed : Bool)
    (detail : String) (hc : ¬ Denies l id (.reconcileSignature signature landed detail)) :
    HasLanded (l.reconcileSignature signature landed detail).2 id := by
  unfold reconcileSignature
  split
  · next j hi =>
    split
    · next current hg =>
      split
      · exact h
      · refine landed_act (k := .reconcileApply j landed detail) h ?_
        rintro ⟨rfl, rfl, hs⟩
        exact hc ⟨hi, hs⟩
    · exact h
  · exact h

theorem landed_perform {c : Call} (hc : ¬ Denies l id c)
    (hkept : ((l.perform c).2.get id).isSome = true) : HasLanded (l.perform c).2 id := by
  cases c with
  | begin intent => exact landed_begin h hkept
  | attachSubmission j signature blockhash height fee =>
    exact landed_attachSubmission h j signature blockhash height fee
  | setPriorityFee j fee =>
    exact landed_act (k := .setPriorityFee j fee) h (by rintro ⟨hk, -⟩; cases hk)
  | transition j target =>
    exact landed_act (k := .transition j target) h (by rintro ⟨hk, -⟩; cases hk)
  | fail j failure error => exact landed_fail h j failure error
  | reconcileSignature signature landed detail =>
    exact landed_reconcileSignature h signature landed detail hc
  | hydrate rows =>
    have hl : HasLanded (l.loadRows rows).2 id :=
      landed_act (k := .hydrate rows) h (by rintro ⟨hk, -⟩; cases hk)
    exact landed_evict hl hkept

end

/-- Once an intent has landed, every later `begin` for it is refused as a
duplicate, as long as its record is not evicted and no verdict denies it. -/
theorem duplicate_guard_remembers (hr : Run Performs l tr l') (hland : HasLanded l id)
    (hkept : ∀ e ∈ tr, (e.post.get id).isSome = true)
    (hverdict : ∀ e ∈ tr, ¬ Denies e.pre id e.label) {intent : ExecutionIntent}
    (hid : intent.intentId = id) (hblank : isBlank id = false) :
    ∃ r, (l'.begin intent).1 = .ok (.duplicate r) := by
  have hl' : HasLanded l' id := by
    refine hr.invariant_of_entries (I := fun l => HasLanded l id)
      (P := fun e => (e.post.get id).isSome = true ∧ ¬ Denies e.pre id e.label) ?_
      (fun e he => ⟨hkept e he, hverdict e he⟩) hland
    rintro s c t hs ⟨hpo, hc⟩ rfl
    exact landed_perform hs hc hpo
  subst hid
  obtain ⟨r, hg, hl⟩ := hl'
  refine ⟨r, ?_⟩
  simp only [begin, hblank, startAttempt, hg, hl.not_canRearm]
  rfl

def snipe (id : String) : ExecutionIntent := ⟨id, "sniper", "snipe", "wallet", ""⟩

def submit (id signature : String) : List Call :=
  [.begin (snipe id), .attachSubmission id signature none none 0, .transition id .validated,
    .transition id .submitted]

section

variable (l : ExecutionLedger) (cs : List Call)

def performAll : ExecutionLedger := cs.foldl (fun l c => (l.perform c).2) l

def calls : List (Entry ExecutionLedger Call) := history (fun l c => (l.perform c).2) l cs

theorem run_calls : Run Performs l (calls l cs) (performAll l cs) := run_history _ l cs

end

def landing : List Call := submit "landed" "S" ++ [.transition "landed" .confirmed]

def confirmed : ExecutionLedger := performAll (.new 64) landing

theorem hasLanded_confirmed : HasLanded confirmed "landed" := by
  obtain ⟨r, hr⟩ : ∃ r, confirmed.get "landed" = some r :=
    Option.isSome_iff_exists.mp (by decide +kernel)
  have hl : ∀ r, confirmed.get "landed" = some r → r.Landed := by decide +kernel
  exact ⟨r, hr, hl r hr⟩

theorem duplicate_guard_remembers_other :
    (confirmed.get "landed").map ExecutionRecord.state = some .confirmed ∧
      ∃ r, ((performAll confirmed (submit "other" "T")).begin (snipe "landed")).1 =
        .ok (.duplicate r) := by
  exact ⟨by decide +kernel, duplicate_guard_remembers (run_calls confirmed (submit "other" "T"))
    hasLanded_confirmed (by decide +kernel) (by decide +kernel) rfl (by decide +kernel)⟩

def crowd : List Call := (List.range 64).map fun n => .begin (snipe (toString n))

/-- The crowd pushes the confirmed intent out, and it starts afresh. -/
theorem landed_intent_evicted : Run Performs (.new 64) (calls (.new 64) landing) confirmed ∧
      (confirmed.get "landed").map ExecutionRecord.state = some .confirmed ∧
      Run Performs confirmed (calls confirmed crowd) (performAll confirmed crowd) ∧
      ((performAll confirmed crowd).begin (snipe "landed")).1 =
        .ok (.fresh (.new (snipe "landed"))) := by
  refine ⟨run_calls _ _, ?_, run_calls _ _, ?_⟩
  all_goals decide +kernel

end SniperBot.Execution
