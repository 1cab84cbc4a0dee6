import SniperBot.Execution.Concurrent

/-!
# The ledger after a restart

The durable rows are loaded, and what no process can finish any more is settled: an attempt that
never reached the network fails, one that may have is left to reconciliation. The open records
come in any order.
-/

namespace SniperBot.Execution

open Lib.Runs Lib.Interleaving List

namespace ExecutionRecord

variable (r : ExecutionRecord)

def restartFailure : Option (FailureClass × String) :=
  match r.state with
  | .created | .validated =>
    some (.internal, "process restart before submission — nothing was broadcast")
  | .submitted =>
    some (.transportAmbiguous, "process restart during submission — outcome unknown")
  | _ => none

def isAmbiguous : Bool := r.state == .submitted || r.state == .pending

def resolved : ExecutionRecord :=
  match r.restartFailure with
  | some f => r.moveTo f.1.terminalState (some f)
  | none => r

end ExecutionRecord

namespace ExecutionLedger

open ExecutionRecord

structure IsOpen (l : ExecutionLedger) (opened : List ExecutionRecord) : Prop where
  nodup : (opened.map intentId).Nodup
  mem_iff : ∀ r, r ∈ opened ↔ l.get r.intentId = some r ∧ r.state.isSettled = false

/-- With the records that are handed to reconciliation. -/
def resolveAfterRestart : List ExecutionRecord → ExecutionLedger →
    List ExecutionRecord × ExecutionLedger
  | [], l => ([], l)
  | r :: rest, l =>
    let l :=
      match r.restartFailure with
      | some f => (l.fail r.intentId f.1 f.2).2
      | none => l
    let out := resolveAfterRestart rest l
    (if r.isAmbiguous then r :: out.1 else out.1, out.2)

variable {l : ExecutionLedger} {rows opened : List ExecutionRecord} {r row : ExecutionRecord}
  {id : String}

theorem resolveAfterRestart_fst :
    (resolveAfterRestart opened l).1 = opened.filter (·.isAmbiguous) := by
  induction opened generalizing l with
  | nil => rfl
  | cons r rest ih => simp only [resolveAfterRestart, filter_cons, ih]

theorem fail_restart {f : FailureClass × String} (hg : l.get r.intentId = some r)
    (hf : r.restartFailure = some f) :
    (l.fail r.intentId f.1 f.2).2 = l.setRecord r.intentId r.resolved := by
  rw [show r.resolved = r.moveTo f.1.terminalState (some f) by rw [resolved, hf]]
  unfold restartFailure at hf
  split at hf <;> cases hf <;> next hs =>
    simp [fail, failedAlready, stateOf, apply, hg, hs, FailureClass.terminalState,
      ExecutionState.canTransitionTo]

theorem get_resolveAfterRestart (hn : (opened.map intentId).Nodup)
    (hg : ∀ r ∈ opened, l.get r.intentId = some r) :
    (∀ r ∈ opened, (resolveAfterRestart opened l).2.get r.intentId = some r.resolved) ∧
    ∀ id ∉ opened.map intentId, (resolveAfterRestart opened l).2.get id = l.get id := by
  induction opened generalizing l with
  | nil => exact ⟨by simp, fun _ _ => rfl⟩
  | cons r rest ih =>
    obtain ⟨hr, hn⟩ := nodup_cons.mp hn
    have hse := hg r mem_cons_self
    -- the first step sets the record of `r`, to itself where nothing is marked
    obtain ⟨l', hl', how, ho⟩ : ∃ l', (resolveAfterRestart (r :: rest) l).2 =
        (resolveAfterRestart rest l').2 ∧ l'.get r.intentId = some r.resolved ∧
        ∀ id ≠ r.intentId, l'.get id = l.get id := by
      refine ⟨_, rfl, ?_⟩
      split
      · next f hf =>
        rw [fail_restart hse hf]
        exact ⟨get_setRecord_self _ _ _, fun id hi => get_setRecord_ne l _ hi⟩
      · next hf => exact ⟨by rw [hse, resolved, hf], fun _ _ => rfl⟩
    have hrest : ∀ q ∈ rest, l'.get q.intentId = some q := by
      intro q hq
      rw [ho _ fun h => hr (h ▸ mem_map_of_mem hq)]
      exact hg q (mem_cons_of_mem r hq)
    obtain ⟨hin, hou⟩ := ih hn hrest
    rw [hl']
    refine ⟨?_, fun id hi => ?_⟩
    · intro q hq
      rcases mem_cons.mp hq with rfl | hq
      · rw [hou _ hr, how]
      · exact hin q hq
    · rw [map_cons, mem_cons, not_or] at hi
      rw [hou id hi.2, ho id hi.1]

theorem loadRows_get_of_mem (hn : (rows.map intentId).Nodup)
    (hf : ∀ row ∈ rows, l.get row.intentId = none) (hr : row ∈ rows) :
    (l.loadRows rows).2.get row.intentId = some row := by
  induction rows generalizing l with
  | nil => cases hr
  | cons first rows ih =>
    obtain ⟨hfi, hn⟩ := nodup_cons.mp hn
    rw [loadRows, if_neg (by simp [hf first mem_cons_self])]
    show ((l.insertRow first).loadRows rows).2.get row.intentId = _
    rcases mem_cons.mp hr with rfl | hr
    · have h := loadRows_get (l.insertRow row) row.intentId rows
      simpa [get_insertRow_self] using h
    · refine ih hn (fun q hq => ?_) hr
      rw [get_insertRow_ne l fun h => hfi (h ▸ mem_map_of_mem hq)]
      exact hf q (mem_cons_of_mem first hq)

/-- An unsettled row is loaded and kept, and nothing but rows is there. -/
theorem hydrate_get (cap : ℕ) (hn : (rows.map intentId).Nodup) :
    (∀ row ∈ rows, row.state.isSettled = false →
    ((new cap).hydrate rows).2.get row.intentId = some row) ∧
    ∀ id r, ((new cap).hydrate rows).2.get id = some r → r ∈ rows ∧ r.intentId = id := by
  let l := ((new cap).loadRows rows).2
  have hne : ∀ id, (new cap).get id = none := fun _ => Finmap.lookup_empty _
  refine ⟨fun row hro hs => ?_, fun id r hr => ?_⟩
  · have hg := loadRows_get_of_mem hn (fun q _ => hne q.intentId) hro
    rcases evictIfNeeded_get l row.intentId with h | ⟨r, hr, hse, -⟩
    · exact h.trans hg
    · cases hg.symm.trans hr
      rw [hs] at hse
      cases hse
  · rcases evictIfNeeded_get l id with h | ⟨_, -, -, h⟩
    · rcases loadRows_get (new cap) id rows with hl | ⟨-, row, hro, hi, hl⟩
      · cases hr.symm.trans (h.trans (hl.trans (hne id)))
      · cases hr.symm.trans (h.trans hl)
        exact ⟨hro, hi⟩
    · cases hr.symm.trans h

variable {s t : State ExecutionLedger Section} {a : Label Section Reply}

/-- A section that moves the record of `id`, as every verdict about it does. -/
def MovesRecord (id : String) (e : Entry (State ExecutionLedger Section) (Label Section Reply)) :
    Prop :=
  ∃ k r target failure, e.label = .act k r ∧ Moves id k target failure

theorem pending_step (h : stateOf s.shared id = some .pending) (hm : ¬ MovesRecord id ⟨s, a, t⟩)
    (hs : Step act IsCall s a t) : stateOf t.shared id = some .pending := by
  rcases hs.shared_cases with ⟨k, -, hsh⟩ | ⟨k, -, rfl, hsh⟩
  · rwa [hsh]
  · have hst := act_record s.shared id k
    unfold stateOf at h ⊢
    rw [hsh]
    generalize s.shared.get id = before, (act k s.shared).1.get id = after at hst h
    cases hst with
    | keep | attach | fee | annotate => exact h
    | create | load => cases h
    | rearm _ hr =>
      rw [canRearm, Option.some.inj h] at hr
      cases hr
    | move hk => exact absurd ⟨_, _, _, _, rfl, hk⟩ hm
    | evict _ hr =>
      rw [Option.some.inj h] at hr
      cases hr

variable {cap : ℕ} {intent : ExecutionIntent}

theorem begin_of_get (hb : ¬ isBlank intent.intentId) (hr : l.get intent.intentId = some r) :
    (l.begin intent).1 = .ok (if r.canRearm then .rearmed r.rearm else .duplicate r) := by
  simp only [begin, if_neg hb, startAttempt, hr]
  cases r.canRearm <;> rfl

theorem restarted (hn : (rows.map intentId).Nodup)
    (ho : IsOpen ((new cap).hydrate rows).2 opened) (hro : row ∈ rows)
    (hs : row.state.isSettled = false) :
    row ∈ opened ∧ (resolveAfterRestart opened ((new cap).hydrate rows).2).2.get row.intentId =
    some row.resolved := by
  have hm : row ∈ opened := (ho.mem_iff row).mpr ⟨(hydrate_get cap hn).1 row hro hs, hs⟩
  exact ⟨hm, (get_resolveAfterRestart ho.nodup fun r hr => ((ho.mem_iff r).mp hr).1).1 row hm⟩

/-- The open rows are the open records, for one. -/
theorem isOpen_filter (cap : ℕ) (hn : (rows.map intentId).Nodup) :
    IsOpen ((new cap).hydrate rows).2 (rows.filter (!·.state.isSettled)) where
  nodup := hn.sublist (filter_sublist.map _)
  mem_iff r := by
    obtain ⟨hi, ho⟩ := hydrate_get cap hn
    simp only [mem_filter, Bool.not_eq_true']
    exact ⟨fun h => ⟨hi r h.1 h.2, h.2⟩, fun h => ⟨(ho _ r h.1).1, h.2⟩⟩

private def interrupted (id : String) (s : ExecutionState) : ExecutionRecord :=
  { ExecutionRecord.new (snipe id) with state := s }

end ExecutionLedger

end SniperBot.Execution
