import Mathlib.Data.Finmap
import SniperBot.Execution.Record

/-!
# The execution ledger

The in-memory mirror of all intents: the records, the index from signatures, and the order in
which the intents came. Where an operation takes its locks more than once, each part under one set
of locks is a definition of its own. The sinks, which only listen, are left out.
-/

namespace SniperBot.Execution

open List

abbrev HashMap (α : Type) := Finmap fun _ : String => α

structure ExecutionLedger where
  records : HashMap ExecutionRecord
  bySignature : HashMap String
  fifo : List String
  cap : Nat

inductive BeginOutcome where
  | fresh (record : ExecutionRecord)
  | rearmed (record : ExecutionRecord)
  | duplicate (record : ExecutionRecord)
  deriving DecidableEq

def isWhitespace (c : Char) : Bool :=
  let n := c.toNat
  (9 ≤ n && n ≤ 13) || n == 0x20 || n == 0x85 || n == 0xA0 || n == 0x1680 ||
    (0x2000 ≤ n && n ≤ 0x200A) || n == 0x2028 || n == 0x2029 || n == 0x202F || n == 0x205F ||
    n == 0x3000

def trim (s : String) : String :=
  String.ofList ((s.toList.dropWhile isWhitespace).reverse.dropWhile isWhitespace).reverse

def isBlank (s : String) : Bool := s.toList.all isWhitespace

theorem all_dropWhile {α : Type*} (p : α → Bool) (l : List α) :
    (l.dropWhile p).all p = l.all p := by
  induction l with
  | nil => rfl
  | cons a l ih =>
    by_cases h : p a = true
    · rw [dropWhile_cons_of_pos h, ih, all_cons, h, Bool.true_and]
    · rw [dropWhile_cons_of_neg h]

theorem isBlank_trim (s : String) : isBlank (trim s) = isBlank s := by
  unfold isBlank trim
  rw [String.toList_ofList, all_reverse, all_dropWhile, all_reverse, all_dropWhile]

namespace ExecutionLedger

def new (cap : Nat) : ExecutionLedger where
  records := ∅
  bySignature := ∅
  fifo := []
  cap := max cap 64

section

variable (l : ExecutionLedger)

variable (id : String)

def get : Option ExecutionRecord := l.records.lookup id

def stateOf : Option ExecutionState := (l.get id).map ExecutionRecord.state

def setRecord (r : ExecutionRecord) : ExecutionLedger :=
  { l with records := l.records.insert id r }

def indexSignature (signature id : String) : ExecutionLedger :=
  { l with bySignature := l.bySignature.insert signature id }

/-! ## Eviction -/

def evictable : Bool :=
  match l.get id with
  | some r => r.state.isSettled
  | none => true

def forget : ExecutionLedger :=
  { l with
    records := l.records.erase id
    bySignature :=
      match (l.get id).bind ExecutionRecord.signature with
      | some signature => l.bySignature.erase signature
      | none => l.bySignature }

end

/-- Evict up to `n` intents, the oldest settled one first. Where everything is
live the loop ends early: correctness beats the bound. -/
def evictLoop : Nat → ExecutionLedger → ExecutionLedger
  | 0, l => l
  | n + 1, l =>
    match l.fifo.find? l.evictable with
    | some evicted => evictLoop n { l.forget evicted with fifo := l.fifo.eraseP l.evictable }
    | none => l

/-- Every round removes one intent, so the excess bounds the number of rounds. -/
def evictIfNeeded (l : ExecutionLedger) : ExecutionLedger := evictLoop (l.fifo.length - l.cap) l

/-! ## Operations -/

def startAttempt (l : ExecutionLedger) (intent : ExecutionIntent) :
    BeginOutcome × ExecutionLedger :=
  match l.get intent.intentId with
  | some existing =>
    if existing.canRearm then
      (.rearmed existing.rearm, l.setRecord intent.intentId existing.rearm)
    else (.duplicate existing, l)
  | none =>
    (.fresh (.new intent),
      { l.setRecord intent.intentId (.new intent) with fifo := l.fifo ++ [intent.intentId] })

def emptyIntentId : BotError := .invalidArgument "execution intent_id must not be empty"

def begin (l : ExecutionLedger) (intent : ExecutionIntent) :
    Except BotError BeginOutcome × ExecutionLedger :=
  if isBlank intent.intentId then (.error emptyIntentId, l)
  else
    match l.startAttempt intent with
    | (.duplicate existing, l) => (.ok (.duplicate existing), l)
    | (outcome, l) => (.ok outcome, l.evictIfNeeded)

def unknownIntent (id : String) : BotError := .notFound ("execution intent " ++ id)

section

variable (l : ExecutionLedger) (id signature : String) (blockhash : Option String)
  (lastValidBlockHeight : Option UInt64) (priorityFeeMicroLamports : UInt64)

def attachRecord : Except BotError ExecutionRecord × ExecutionLedger :=
  match l.get id with
  | some r =>
    let r := r.attach signature blockhash lastValidBlockHeight priorityFeeMicroLamports
    (.ok r, l.setRecord id r)
  | none => (.error (unknownIntent id), l)

def attachSubmission : Except BotError ExecutionRecord × ExecutionLedger :=
  match l.attachRecord id signature blockhash lastValidBlockHeight priorityFeeMicroLamports with
  | (.ok r, l) => (.ok r, if signature.isEmpty then l else l.indexSignature signature id)
  | (.error e, l) => (.error e, l)

end

def setPriorityFee (l : ExecutionLedger) (id : String) (microLamports : UInt64) : ExecutionLedger :=
  match l.get id with
  | some r => l.setRecord id { r with priorityFeeMicroLamports := microLamports }
  | none => l

def illegalTransition (id : String) (source target : ExecutionState) : BotError := .invalidArgument
    ("illegal execution transition " ++ source.asStr ++ " -> " ++ target.asStr ++ " for " ++ id)

section

variable (l : ExecutionLedger) (id : String)

def apply (target : ExecutionState) (failure : Option (FailureClass × String)) :
    Except BotError ExecutionRecord × ExecutionLedger :=
  match l.get id with
  | some r =>
    if r.state.canTransitionTo target then
      (.ok (r.moveTo target failure), l.setRecord id (r.moveTo target failure))
    else (.error (illegalTransition id r.state target), l)
  | none => (.error (unknownIntent id), l)

def transition (target : ExecutionState) : Except BotError ExecutionRecord × ExecutionLedger :=
  l.apply id target none

variable (failure : FailureClass) (error : String)

/-- The part of `fail` that notes a failure where no move is due. It does not
look at the state again. -/
def annotate : Except BotError ExecutionRecord × ExecutionLedger :=
  match l.get id with
  | some r => (.ok (r.annotate failure error), l.setRecord id (r.annotate failure error))
  | none => (.error (unknownIntent id), l)

def failedAlready : Bool := l.stateOf id == some failure.terminalState

def fail : Except BotError ExecutionRecord × ExecutionLedger :=
  if l.failedAlready id failure then l.annotate id failure error
  else l.apply id failure.terminalState (some (failure, error))

end

def verdictFailure (landed : Bool) (detail : String) : Option (FailureClass × String) :=
  if landed then none else some (.landedFailed, detail)

/-- The part of `reconcile_signature` that moves the record. A rejected move is
logged and not reported. -/
def applyVerdict (l : ExecutionLedger) (id : String) (landed : Bool) (detail : String) :
    Option ExecutionRecord × ExecutionLedger :=
  match l.apply id .reconciled (verdictFailure landed detail) with
  | (.ok r, l) => (some r, l)
  | (.error _, l) => (none, l)

/-- The verdict about the transaction with this signature: `landed` says whether
the chain shows that it succeeded. -/
def reconcileSignature (l : ExecutionLedger) (signature : String) (landed : Bool)
    (detail : String) : Option ExecutionRecord × ExecutionLedger :=
  match l.bySignature.lookup signature with
  | some id =>
    match l.get id with
    | some current =>
      if current.state.isTerminal then (some current, l) else l.applyVerdict id landed detail
    | none => (none, l)
  | none => (none, l)

def insertRow (l : ExecutionLedger) (row : ExecutionRecord) : ExecutionLedger :=
  let indexed :=
    match row.signature with
    | some signature => l.indexSignature signature row.intentId
    | none => l
  { indexed.setRecord row.intentId row with fifo := l.fifo ++ [row.intentId] }

/-- The part of `hydrate` under the locks, with the number of rows loaded. Rows
of known intents are skipped. -/
def loadRows (l : ExecutionLedger) : List ExecutionRecord → Nat × ExecutionLedger
  | [] => (0, l)
  | row :: rows =>
    if (l.get row.intentId).isSome then l.loadRows rows
    else
      let (n, l) := (l.insertRow row).loadRows rows
      (n + 1, l)

def hydrate (l : ExecutionLedger) (rows : List ExecutionRecord) : Nat × ExecutionLedger :=
  let (n, l) := l.loadRows rows
  (n, l.evictIfNeeded)

/-! ## What the operations leave behind -/

section

variable (l : ExecutionLedger) (id : String)

@[simp] theorem get_setRecord_self (r : ExecutionRecord) : (l.setRecord id r).get id = some r :=
  Finmap.lookup_insert _

variable {id} in
theorem get_setRecord_ne {j : String} (r : ExecutionRecord) (h : id ≠ j) :
    (l.setRecord j r).get id = l.get id :=
  Finmap.lookup_insert_of_ne _ h

@[simp] theorem get_forget_self : (l.forget id).get id = none := Finmap.lookup_erase _ _

variable {id} in
theorem get_forget_ne {j : String} (h : id ≠ j) : (l.forget j).get id = l.get id :=
  Finmap.lookup_erase_ne h

theorem evictLoop_get (n : Nat) : (evictLoop n l).get id = l.get id ∨
    ∃ r, l.get id = some r ∧ r.state.isSettled = true ∧ (evictLoop n l).get id = none := by
  induction n generalizing l with
  | zero => exact .inl rfl
  | succ n ih =>
    unfold evictLoop
    cases hf : l.fifo.find? l.evictable with
    | none => exact .inl rfl
    | some evicted =>
      have hrest := ih { l.forget evicted with fifo := l.fifo.eraseP l.evictable }
      by_cases hi : id = evicted
      · subst hi
        have hg : get { l.forget id with fifo := l.fifo.eraseP l.evictable } id = none :=
          get_forget_self l id
        simp only [hg, reduceCtorEq, false_and, exists_false, or_false] at hrest
        cases hge : l.get id with
        | none => exact .inl hrest
        | some r =>
          have hse : l.evictable id = true := find?_some hf
          simp only [evictable, hge] at hse
          exact .inr ⟨r, rfl, hse, hrest⟩
      · have hkept : get { l.forget evicted with fifo := l.fifo.eraseP l.evictable } id = l.get id :=
          get_forget_ne l hi
        rwa [hkept] at hrest

theorem evictIfNeeded_get : l.evictIfNeeded.get id = l.get id ∨
    ∃ r, l.get id = some r ∧ r.state.isSettled = true ∧ l.evictIfNeeded.get id = none :=
  evictLoop_get l id _

theorem evictLoop_fifo (n : Nat) : (evictLoop n l).fifo.length ≤ l.fifo.length - n ∨
    ∀ j ∈ (evictLoop n l).fifo, (evictLoop n l).evictable j = false := by
  induction n generalizing l with
  | zero => exact .inl (Nat.le_refl _)
  | succ n ih =>
    unfold evictLoop
    cases hf : l.fifo.find? l.evictable with
    | none => exact .inr fun j hj => Bool.eq_false_iff.mpr (find?_eq_none.mp hf j hj)
    | some evicted =>
      have hl : (l.fifo.eraseP l.evictable).length = l.fifo.length - 1 :=
        length_eraseP_of_mem (mem_of_find?_eq_some hf) (find?_some hf)
      rcases ih { l.forget evicted with fifo := l.fifo.eraseP l.evictable } with h | h
      · refine .inl (h.trans ?_)
        change (l.fifo.eraseP l.evictable).length - n ≤ _
        omega
      · exact .inr h

theorem evictIfNeeded_fifo : l.evictIfNeeded.fifo.length ≤ l.cap ∨
    ∀ j ∈ l.evictIfNeeded.fifo, l.evictIfNeeded.evictable j = false := by
  rcases evictLoop_fifo l (l.fifo.length - l.cap) with h | h
  · exact .inl (h.trans (by omega))
  · exact .inr h

theorem get_insertRow_self (row : ExecutionRecord) :
    (l.insertRow row).get row.intentId = some row :=
  Finmap.lookup_insert _

variable {id} in
theorem get_insertRow_ne {row : ExecutionRecord} (h : id ≠ row.intentId) :
    (l.insertRow row).get id = l.get id := by
  refine (Finmap.lookup_insert_of_ne _ h).trans ?_
  cases row.signature <;> rfl

theorem loadRows_get (rows : List ExecutionRecord) : (l.loadRows rows).2.get id = l.get id ∨
    l.get id = none ∧ ∃ row ∈ rows, row.intentId = id ∧ (l.loadRows rows).2.get id = some row := by
  induction rows generalizing l with
  | nil => exact .inl rfl
  | cons row rows ih =>
    unfold loadRows
    by_cases hk : (l.get row.intentId).isSome = true
    · rw [if_pos hk]
      rcases ih l with h | ⟨hn, row', hm, hr⟩
      · exact .inl h
      · exact .inr ⟨hn, row', mem_cons_of_mem _ hm, hr⟩
    · rw [if_neg hk]
      have hrest := ih (l.insertRow row)
      by_cases hi : id = row.intentId
      · subst hi
        -- once loaded, later rows of the same intent are skipped
        simp only [get_insertRow_self, reduceCtorEq, false_and, or_false] at hrest
        exact .inr ⟨Option.not_isSome_iff_eq_none.mp hk, row, mem_cons_self, rfl, hrest⟩
      · rw [get_insertRow_ne l hi] at hrest
        rcases hrest with h | ⟨hn, row', hm, hr⟩
        · exact .inl h
        · exact .inr ⟨hn, row', mem_cons_of_mem _ hm, hr⟩

end

end ExecutionLedger

end SniperBot.Execution
