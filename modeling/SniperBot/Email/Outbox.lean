import Mathlib.Algebra.Group.Int.Defs
import SniperBot.Lib.Interleaving
import SniperBot.Lib.LeaseTable

/-!
# The email outbox

A dispatcher fetches copies of rows that are due and, for one copy after the other, claims the
row, sends the email and marks the result; a reaper re-queues rows that have been in delivery for
too long. Each of these is one statement. Locks of a fetch end with it. Times are microseconds.
-/

namespace SniperBot.Email

open Lib.LeaseTable

def secs (n : Int) : Int := n * 1000000

/-- Backoff before the next attempt, in seconds: doubled with every attempt up to 30 minutes. -/
def backoff (attempts : Int) : Int := min (60 * 2 ^ (min (max attempts 0) 10).toNat) (30 * 60)

inductive EmailError where
  | config (message : String)
  | rejected (message : String)
  | transport (message : String)
  | tlsRequired (message : String)
  | timeout

namespace EmailError

def display : EmailError → String
  | config m => "email provider configuration error: " ++ m
  | rejected m => "email rejected by provider: " ++ m
  | transport m => "email transport failure: " ++ m
  | tlsRequired m => "email requires TLS: " ++ m
  | timeout => "email delivery timed out"

def isRetryable : EmailError → Bool
  | transport _ | timeout => true
  | _ => false

def sanitized (e : EmailError) : String :=
  String.ofList ((e.display.toList.take 300).map fun c => if c = '\r' ∨ c = '\n' then ' ' else c)

end EmailError

abbrev Answer := Except EmailError (Option String)

/-! ## The table -/

inductive OutboxStatus where
  | pending
  | sending
  | sent
  | failed
  | dead
  deriving DecidableEq

structure OutboxRecord where
  status : OutboxStatus
  attempts : Nat
  maxAttempts : Nat
  nextAttemptAt : Int
  lastError : Option String
  providerId : Option String
  sentAt : Option Int

namespace OutboxRecord

variable (now : Int) (r : OutboxRecord)

def enqueued : OutboxRecord where
  status := .pending
  attempts := 0
  maxAttempts := 5
  nextAttemptAt := now
  lastError := none
  providerId := none
  sentAt := none

def claimable (r : OutboxRecord) : Bool := r.status = .pending || r.status = .failed

def Due : Prop := r.claimable = true ∧ r.nextAttemptAt ≤ now

instance : Decidable (r.Due now) := inferInstanceAs (Decidable (_ ∧ _))

def claimed : OutboxRecord :=
  { r with status := .sending, attempts := r.attempts + 1, nextAttemptAt := now }

def Stale (now staleAfter : Int) (r : OutboxRecord) : Prop :=
  r.status = .sending ∧ r.nextAttemptAt ≤ now - secs staleAfter

instance (now staleAfter : Int) (r : OutboxRecord) : Decidable (r.Stale now staleAfter) :=
  inferInstanceAs (Decidable (_ ∧ _))

def requeued : OutboxRecord :=
  { r with
    status := .failed
    lastError := some "dispatcher restart while sending"
    nextAttemptAt := now }

end OutboxRecord

structure OutboxRow where
  id : String
  attempts : Nat
  maxAttempts : Nat

inductive DeliveryOutcome where
  | sent
  | retry
  | dead

/-- What the answer of the provider makes of a row. The attempts are those of the copy. -/
def OutboxRow.marked (row : OutboxRow) (answer : Answer) (now : Int) (r : OutboxRecord) :
    OutboxRecord :=
  match answer with
  | .ok providerId => { r with status := .sent, sentAt := some now, providerId := providerId }
  | .error e =>
    let attemptsNow := row.attempts + 1
    if row.maxAttempts ≤ attemptsNow ∨ e.isRetryable = false then
      { r with status := .dead, lastError := some e.sanitized, nextAttemptAt := now }
    else
      { r with
        status := .failed
        lastError := some e.sanitized
        nextAttemptAt := now + secs (backoff attemptsNow) }

def OutboxRow.outcome (row : OutboxRow) : Answer → DeliveryOutcome
  | .ok _ => .sent
  | .error e =>
    if row.maxAttempts ≤ row.attempts + 1 ∨ e.isRetryable = false then .dead else .retry

structure Outbox where
  clock : Int
  rows : Table String OutboxRecord
  dedupKeys : Table String String
  answers : Nat → Answer
  sends : Nat

namespace Outbox

variable (x : Outbox) (row : OutboxRow)

def fetchDue (scanned : List String) (batchSize : Nat) : List OutboxRow :=
  (x.rows.select (OutboxRecord.Due x.clock) scanned batchSize).filterMap fun id =>
    (x.rows id).map fun r => ⟨id, r.attempts, r.maxAttempts⟩

def claim (id : String) : Outbox × Bool :=
  ({ x with rows :=
      x.rows.update (fun i r => i = id ∧ r.claimable = true) (OutboxRecord.claimed x.clock) },
    (x.rows id).any (·.claimable))

def mark (answer : Answer) : Outbox :=
  { x with rows := x.rows.update (fun i _ => i = row.id) (row.marked answer x.clock) }

def reapStaleSending (staleAfter : Int) : Outbox :=
  { x with rows :=
      x.rows.update (fun _ r => r.Stale x.clock staleAfter) (OutboxRecord.requeued x.clock) }

def enqueue (id dedupKey : String) : Outbox × Bool :=
  if (x.dedupKeys dedupKey).isSome ∨ (x.rows id).isSome then (x, false)
  else
    ({ x with
        rows := fun i => if i = id then some (.enqueued x.clock) else x.rows i
        dedupKeys := fun k => if k = dedupKey then some id else x.dedupKeys k }, true)

end Outbox

/-! ## Dispatchers and reapers -/

structure OutboxReport where
  sent : Nat
  retried : Nat
  dead : Nat

def OutboxReport.count (report : OutboxReport) : DeliveryOutcome → OutboxReport
  | .sent => { report with sent := report.sent + 1 }
  | .retry => { report with retried := report.retried + 1 }
  | .dead => { report with dead := report.dead + 1 }

/-- Where a call stands, with the copies that are still to be delivered. -/
inductive Dispatch where
  | fetch (scanned : List String) (batchSize : Nat)
  | claim (row : OutboxRow) (rest : List OutboxRow) (report : OutboxReport)
  | send (row : OutboxRow) (rest : List OutboxRow) (report : OutboxReport)
  | mark (row : OutboxRow) (answer : Answer) (rest : List OutboxRow) (report : OutboxReport)
  | reap (staleAfter : Int)
  | enqueue (id dedupKey : String)
  | tick (time : Int)

inductive Reply where
  | ran (report : OutboxReport)
  | enqueued (created : Bool)
  | done

def goOn (rest : List OutboxRow) (report : OutboxReport) : Dispatch ⊕ Reply :=
  match rest with
  | [] => .inr (.ran report)
  | row :: rest => .inl (.claim row rest report)

namespace Dispatch

def act : Dispatch → Outbox → Outbox × (Dispatch ⊕ Reply)
  | fetch scanned batchSize, x => (x, goOn (x.fetchDue scanned batchSize) ⟨0, 0, 0⟩)
  | claim row rest report, x =>
    ((x.claim row.id).1,
      if (x.claim row.id).2 then .inl (send row rest report)
      else goOn rest (report.count .retry))
  | send row rest report, x =>
    ({ x with sends := x.sends + 1 }, .inl (mark row (x.answers x.sends) rest report))
  | mark row answer rest report, x =>
    (x.mark row answer, goOn rest (report.count (row.outcome answer)))
  | reap staleAfter, x => (x.reapStaleSending staleAfter, .inr .done)
  | enqueue id dedupKey, x =>
    ((x.enqueue id dedupKey).1, .inr (.enqueued (x.enqueue id dedupKey).2))
  | tick time, x => ({ x with clock := max x.clock time }, .inr .done)

def Entry : Dispatch → Prop
  | claim .. | send .. | mark .. => False
  | _ => True

instance : DecidablePred Entry := fun k => by
  unfold Entry
  split <;> infer_instance

def current : Dispatch → Option OutboxRow
  | send row _ _ | mark row _ _ _ => some row
  | _ => none

def waiting : Dispatch → List OutboxRow
  | claim row rest _ => row :: rest
  | send _ rest _ | mark _ _ rest _ => rest
  | _ => []

end Dispatch

end SniperBot.Email
