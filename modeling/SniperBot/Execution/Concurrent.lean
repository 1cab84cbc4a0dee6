import SniperBot.Execution.DuplicateGuard

/-!
# The duplicate guard under concurrency

Calls interleave at their sections. `fail` decides on a state it read before, so
by the time it notes a failure the record may have been reconciled; apart from
that, concurrency takes nothing from the guard.
-/

namespace SniperBot.Execution

open Lib.Runs Lib.Interleaving

variable {id : String} {s t : State ExecutionLedger Section}
  {tr : List (Entry (State ExecutionLedger Section) (Label Section Reply))}

def IsCall (k : Section) : Prop := ∃ c : Call, c.entry = k

section

variable (id : String) (e : Entry (State ExecutionLedger Section) (Label Section Reply))

def Respects : Prop :=
  match e.label with
  | .call _ => True
  | .act k _ => ¬ Overturns e.pre.shared id k

instance  : Decidable (Respects id e) := by
  unfold Respects
  split <;> infer_instance

end

theorem landed_step {a : Label Section Reply} (h : HasLanded s.shared id)
    (he : Respects id ⟨s, a, t⟩) (hs : Step act IsCall s a t) : HasLanded t.shared id := by
  rcases hs.shared_cases with ⟨k, -, hsh⟩ | ⟨k, -, rfl, hsh⟩
  · rwa [hsh]
  · rw [hsh]
    exact landed_act h he

/-- Once an intent has landed, no interleaving of calls starts another attempt
for it, as long as nothing overturns what its record shows. -/
theorem landed_stays_landed (hr : Run (Step act IsCall) s tr t) (hland : HasLanded s.shared id)
    (hkeep : ∀ e ∈ tr, Respects id e) :
    HasLanded t.shared id ∧
    ∀ e ∈ tr, ∀ intent result, e.label = .act (.begin intent) result → intent.intentId = id →
      result = .inr (.begun (.error ExecutionLedger.emptyIntentId)) ∨
        ∃ r, result = .inr (.begun (.ok (.duplicate r))) := by
  have hst := fun s a t (h : HasLanded s.shared id) he =>
    landed_step (s := s) (t := t) (a := a) h he
  refine ⟨hr.invariant_of_entries hst hkeep hland, ?_⟩
  rintro e he intent result hl rfl
  obtain ⟨hpr, hs⟩ := hr.invariant_before hst hkeep hland he
  have hre : result = (act (.begin intent) e.pre.shared).2 := by
    rcases hs.shared_cases with ⟨k, hk, -⟩ | ⟨k, -, hk, -⟩
    · rw [hl] at hk
      contradiction
    · rw [hl] at hk
      obtain ⟨rfl, rfl⟩ := Label.act.inj hk
      rfl
  rcases act_begin_of_landed hpr with ⟨-, ha⟩ | ⟨-, r, ha⟩
  · exact .inl (hre.trans (congrArg Prod.snd ha))
  · exact .inr ⟨r, hre.trans (congrArg Prod.snd ha)⟩

theorem sequential_interleaves {l l' : ExecutionLedger} {calls : List (Entry ExecutionLedger Call)}
    (hr : Run Performs l calls l') : ∃ tr, Run (Step act IsCall) ⟨l, []⟩ tr ⟨l', []⟩ := by
  induction hr with
  | nil => exact ⟨[], .nil⟩
  | @snoc calls l1 l2 c hr hs ih =>
    obtain ⟨tr, hru⟩ := ih
    have hc : Step act IsCall ⟨l1, []⟩ (.call c.entry) ⟨l1, [c.entry]⟩ := .call ⟨c, rfl⟩
    obtain ⟨tr', hso⟩ : ∃ tr', Run (Step act IsCall) ⟨l1, [c.entry]⟩ tr' ⟨(l1.perform c).2, []⟩ :=
      (perform_solo l1 c).interleaves []
    rw [hs]
    exact ⟨_, (hru.snoc hc).append hso⟩

def schedule (ms : List (Call ⊕ Nat)) : List (Move Section) := ms.map fun
    | .inl c => .call c.entry
    | .inr i => .go i

theorem allowed_schedule (ms : List (Call ⊕ Nat)) : ∀ m ∈ schedule ms, m.Allowed IsCall := by
  intro m hm
  obtain ⟨c, -, rfl⟩ := List.mem_map.mp hm
  cases c with
  | inl c => exact ⟨c, rfl⟩
  | inr i => trivial

def alone (c : Call) (n : Nat) : List (Call ⊕ Nat) := .inl c :: List.replicate n (.inr 0)

def returnsRearmed (id : String) : Label Section Reply → Bool
  | .act _ (.inr (.begun (.ok (.rearmed r)))) => r.intentId == id
  | _ => false

def concurrently (l : ExecutionLedger) (ms : List (Call ⊕ Nat)) :
    Option (List (Entry (State ExecutionLedger Section) (Label Section Reply)) ×
      State ExecutionLedger Section) :=
  follow act ⟨l, []⟩ (schedule ms)

theorem run_of_concurrently {l : ExecutionLedger} {ms : List (Call ⊕ Nat)}
    (h : concurrently l ms = some (tr, t)) : Run (Step act IsCall) ⟨l, []⟩ tr t :=
  run_of_follow h (allowed_schedule ms)

/-- A failure reported while the transaction is being reconciled: `fail` reads,
the verdict is applied, `fail` goes on, and a second attempt is asked for. -/
def lateFailure (failure : FailureClass) : List (Call ⊕ Nat) :=
  [.inl (.fail "landed" failure "late"), .inr 0] ++
    alone (.reconcileSignature "S" true "found") 3 ++ [.inr 0] ++ alone (.begin (snipe "landed")) 1

theorem landed_stays_landed_late :
    ∃ tr t, concurrently confirmed (lateFailure .rejected) = some (tr, t) ∧
      HasLanded t.shared "landed" ∧
      ∀ e ∈ tr, ∀ intent result, e.label = .act (.begin intent) result →
        intent.intentId = "landed" →
        result = .inr (.begun (.error ExecutionLedger.emptyIntentId)) ∨
          ∃ r, result = .inr (.begun (.ok (.duplicate r))) := by
  obtain ⟨⟨tr, t⟩, hf⟩ : ∃ out, concurrently confirmed (lateFailure .rejected) = some out :=
    Option.isSome_iff_exists.mp (by decide +kernel)
  have hk : ∀ out, concurrently confirmed (lateFailure .rejected) = some out →
      ∀ e ∈ out.1, Respects "landed" e := by decide +kernel
  exact ⟨tr, t, hf, landed_stays_landed (run_of_concurrently hf) hasLanded_confirmed (hk _ hf)⟩

/-- A verdict that the confirmed transaction did not land re-arms the intent. -/
theorem contrary_verdict_rearms :
    ∃ tr tr' t, Run (Step act IsCall) ⟨.new 64, []⟩ tr ⟨confirmed, []⟩ ∧
      HasLanded confirmed "landed" ∧ Run (Step act IsCall) ⟨confirmed, []⟩ tr' t ∧
      (∀ e ∈ tr', (e.post.shared.get "landed").isSome = true) ∧
      ∃ e ∈ tr', returnsRearmed "landed" e.label = true := by
  obtain ⟨tr, hr⟩ := sequential_interleaves (run_calls (.new 64) landing)
  obtain ⟨⟨tr', t⟩, hf⟩ : ∃ out, concurrently confirmed
      (alone (.reconcileSignature "S" false "not found") 3 ++ alone (.begin (snipe "landed")) 2) =
        some out := Option.isSome_iff_exists.mp (by decide +kernel)
  have hfa : ∀ out, concurrently confirmed
      (alone (.reconcileSignature "S" false "not found") 3 ++ alone (.begin (snipe "landed")) 2) =
        some out → (∀ e ∈ out.1, (e.post.shared.get "landed").isSome = true) ∧
          ∃ e ∈ out.1, returnsRearmed "landed" e.label = true := by decide +kernel
  exact ⟨tr, tr', t, hr, hasLanded_confirmed, run_of_concurrently hf, hfa _ hf⟩

/-- Not yet confirmed but reconciled as landed, the same intent is lost to a
failure noted too late: the reader found it pending. -/
example :
    ((concurrently (performAll (.new 64) (submit "landed" "S" ++ [.transition "landed" .pending]))
      (lateFailure .transportAmbiguous ++ [.inr 0])).map fun out =>
        (out.1.map (·.post.shared.stateOf "landed"), out.1.any (returnsRearmed "landed" ·.label))) =
      some ([.pending, .pending, .pending, .pending, .pending, .reconciled, .reconciled,
        .reconciled, .created, .created].map some, true) := by
  decide +kernel

end SniperBot.Execution
