import Mathlib.Algebra.Order.Field.Rat
import SniperBot.Lib.LeaseTable
import SniperBot.Lib.Runs
import SniperBot.Lib.Slots

/-!
# The DCA workers

Workers claim schedules that are due and record one run for the slot of each, in one statement
that also charges the budget and moves the clock on. Tenants pause, resume and cancel. Each
transaction is one step; times are microseconds and amounts exact.
-/

namespace SniperBot.Dca

open Lib.LeaseTable Lib.Slots

inductive DcaStatus where
  | active
  | completed
  | paused
  | cancelled
  deriving DecidableEq

structure DcaSchedule where
  organizationId : String
  mint : String
  amountPerRunSol : ℚ
  intervalSecs : Int
  budgetSol : ℚ
  spentSol : ℚ
  status : DcaStatus
  createdAt : Int
  nextRunAt : Int
  lastRunAt : Option Int
  lease : Lease String
  attempts : Nat
  lastError : Option String

def DcaSchedule.interval (d : DcaSchedule) : Int := d.intervalSecs * 1000000

structure DcaSchedule.Checks (d : DcaSchedule) : Prop where
  amount_pos : 0 < d.amountPerRunSol
  interval_pos : 0 < d.intervalSecs
  budget_pos : 0 < d.budgetSol
  spent_nonneg : 0 ≤ d.spentSol
  covers_one_run : d.amountPerRunSol ≤ d.budgetSol
  spent_le : d.spentSol ≤ d.budgetSol

structure DueSchedule where
  id : String
  organizationId : String
  mint : String
  amountPerRunSol : ℚ
  budgetSol : ℚ
  spentSol : ℚ
  intervalSecs : Int
  nextRunAt : Int
  deriving DecidableEq

def DueSchedule.ofRow (id : String) (d : DcaSchedule) : DueSchedule where
  id := id
  organizationId := d.organizationId
  mint := d.mint
  amountPerRunSol := d.amountPerRunSol
  budgetSol := d.budgetSol
  spentSol := d.spentSol
  intervalSecs := d.intervalSecs
  nextRunAt := d.nextRunAt

inductive RunStatus where
  | intent
  | submitted
  | failed
  deriving DecidableEq

structure DcaRun where
  organizationId : String
  scheduleId : String
  slotAt : Int
  amountSol : ℚ
  status : RunStatus
  createdAt : Int
  deriving DecidableEq

inductive RunOutcome where
  | recorded (amountSol : ℚ) (completed : Bool)
  | budgetExhausted
  | alreadyRecorded

def maxAttempts : Nat := 5

def claimBatch : Nat := 100

/-! ## Statements -/

abbrev Schedules := Table String DcaSchedule

namespace Schedules

variable (t : Schedules)

variable (organizationId : String) (now : Int)

def Due (d : DcaSchedule) : Prop :=
  d.organizationId = organizationId ∧ d.status = .active ∧ d.nextRunAt ≤ now ∧
    d.lease.free now = true ∧ d.attempts < maxAttempts

instance  (d : DcaSchedule) :
    Decidable (Due organizationId now d) := inferInstanceAs (Decidable (_ ∧ _))

/-- The rows of a claim. Those that another transaction has locked are skipped. -/
def claimable (unlocked : List String) : List String :=
  t.select (Due organizationId now) unlocked claimBatch

def claimDue (worker : String) (lease : Int) (organizationId : String) (now : Int)
    (unlocked : List String) : Schedules × List DueSchedule :=
  let ids := t.claimable organizationId now unlocked
  (t.update (fun id _ => id ∈ ids) fun d => { d with lease := .taken worker (now + lease) },
    ids.filterMap fun id => (t id).map (DueSchedule.ofRow id))

variable (schedule : DueSchedule) (worker : String) (id : String) (d : DcaSchedule)

/-- The schedule's row, if the worker is its lease owner. Whether the lease has run out is not
asked. -/
def Owned : Prop :=
  id = schedule.id ∧ d.organizationId = schedule.organizationId ∧ d.lease.owner = some worker

instance : Decidable (Owned schedule worker id d) := inferInstanceAs (Decidable (_ ∧ _))

def complete : Schedules :=
  t.update (Owned schedule worker) fun d => { d with status := .completed, lease := .released }

def release : Schedules := t.update (Owned schedule worker) fun d => { d with lease := .released }

def recordFailure (worker reason : String) : Schedules := t.update (Owned schedule worker) fun d =>
    { d with attempts := d.attempts + 1
             lastError := some (String.ofList (reason.toList.take 512))
             lease := .released }

/-- Pause, resume and cancel: from one of some states to another, if no worker holds the
schedule. A resumed schedule is due one interval from now. -/
def transition (organizationId id : String) (sources : List DcaStatus) (target : DcaStatus)
    (now : Int) : Schedules :=
  t.update (fun i d => i = id ∧ d.organizationId = organizationId ∧ d.status ∈ sources ∧
      d.lease.free now = true) fun d =>
    if target = .active then { d with status := .active, nextRunAt := now + d.interval }
    else { d with status := target }

end Schedules

def DcaSchedule.charged (d : DcaSchedule) (amountSol : ℚ) (now : Int) : DcaSchedule :=
  { d with
    spentSol := d.spentSol + amountSol
    lastRunAt := some d.nextRunAt
    nextRunAt := nextSlot d.interval d.nextRunAt now
    status := if d.budgetSol ≤ d.spentSol + amountSol then .completed else d.status
    lease := .released
    attempts := 0 }

structure Store where
  schedules : Schedules
  runs : List DcaRun

namespace Store

variable (s : Store)

def runsOf (id : String) : List DcaRun := s.runs.filter fun run => run.scheduleId = id

def intent (id : String) (d : DcaSchedule) (now : Int) : DcaRun where
  organizationId := d.organizationId
  scheduleId := id
  slotAt := d.nextRunAt
  amountSol := min d.amountPerRunSol (d.budgetSol - d.spentSol)
  status := .intent
  createdAt := now

variable (schedule : DueSchedule) (worker : String) (d : DcaSchedule)

/-- The row that a run is recorded for: the worker is its lease owner, budget is left, and the
slot has no run yet. -/
def Records : Prop := Schedules.Owned schedule worker schedule.id d ∧ 0 < d.budgetSol - d.spentSol ∧
    ∀ run ∈ s.runs, ¬ (run.scheduleId = schedule.id ∧ run.slotAt = d.nextRunAt)

instance : Decidable (s.Records schedule worker d) := inferInstanceAs (Decidable (_ ∧ _))

/-- The transaction of one claimed schedule. Only the first check reads the worker's copy. -/
def recordSlot (now : Int) : Store × RunOutcome :=
  if max (schedule.budgetSol - schedule.spentSol) 0 ≤ 0 then
    ({ s with schedules := s.schedules.complete schedule worker }, .budgetExhausted)
  else
    match (s.schedules schedule.id).filter fun d => s.Records schedule worker d with
    | some d =>
      let run := intent schedule.id d now
      let charged := d.charged run.amountSol now
      (⟨Function.update s.schedules schedule.id (some charged), s.runs ++ [run]⟩,
        .recorded run.amountSol (charged.status = .completed))
    | none =>
      ({ s with schedules := s.schedules.release schedule worker }, .alreadyRecorded)

end Store

/-! ## Steps -/

inductive Request where
  | pause
  | resume
  | cancel

def Request.sources : Request → List DcaStatus
  | pause => [.active]
  | resume => [.paused]
  | cancel => [.active, .paused]

def Request.target : Request → DcaStatus
  | pause => .paused
  | resume => .active
  | cancel => .cancelled

structure System where
  clock : Int
  store : Store
  /-- Every schedule that a worker was given by a claim, whether it is done with it or not. -/
  claims : List (String × DueSchedule)

inductive Label where
  | advance (time : Int)
  | create (id : String) (row : DcaSchedule)
  | claim (worker : String) (lease : Int) (organizationId : String) (unlocked : List String)
  | record (worker : String) (schedule : DueSchedule)
  | fail (worker : String) (schedule : DueSchedule) (reason : String)
  | request (kind : Request) (organizationId id : String)

structure DcaSchedule.Fresh (d : DcaSchedule) : Prop where
  checks : d.Checks
  active : d.status = .active
  spent : d.spentSol = 0
  lease : d.lease = .released

/-- A worker may record or fail any schedule that it was ever given, as often as it likes. -/
inductive Step : System → Label → System → Prop
  | advance {s : System} {time : Int} : s.clock ≤ time →
      Step s (.advance time) { s with clock := time }
  | create {s : System} {id : String} {row : DcaSchedule} : s.store.schedules id = none →
      row.Fresh →
      Step s (.create id row)
        { s with store := { s.store with
            schedules := Function.update s.store.schedules id (some row) } }
  | claim {s : System} {worker organizationId : String} {lease : Int} {unlocked : List String}
      {schedules : Schedules} {due : List DueSchedule} :
      s.store.schedules.claimDue worker lease organizationId s.clock unlocked = (schedules, due) →
      Step s (.claim worker lease organizationId unlocked)
        { s with
          store := { s.store with schedules := schedules }
          claims := s.claims ++ due.map fun d => (worker, d) }
  | record {s : System} {worker : String} {schedule : DueSchedule} : (worker, schedule) ∈ s.claims →
      Step s (.record worker schedule)
        { s with store := (s.store.recordSlot schedule worker s.clock).1 }
  | fail {s : System} {worker : String} {schedule : DueSchedule} {reason : String} :
      (worker, schedule) ∈ s.claims →
      Step s (.fail worker schedule reason)
        { s with store := { s.store with
            schedules := s.store.schedules.recordFailure schedule worker reason } }
  | request {s : System} {kind : Request} {organizationId id : String} :
      Step s (.request kind organizationId id)
        { s with store := { s.store with
            schedules := s.store.schedules.transition organizationId id kind.sources kind.target
              s.clock } }

end SniperBot.Dca
