import Mathlib.Data.Rat.Defs
import Mathlib.Logic.Function.Basic
import SniperBot.Lib.LeaseTable
import SniperBot.Lib.Runs

/-!
# The limit-order workers

Replicas claim batches of active orders from one table, look up a mark for each, and hand off
those whose price is met. The claim, the lookup, the two ends of the hand-off and the status
update are separate steps, and time may pass between any two.
-/

namespace SniperBot.LimitOrders

open Lib.LeaseTable

inductive OrderSide where
  | buy
  | sell
  deriving DecidableEq

inductive TriggerKind where
  | atOrBelow
  | atOrAbove
  deriving DecidableEq

inductive OrderStatus where
  | active
  | triggered
  | cancelled
  | expired
  deriving DecidableEq

/-- A price as a float: a number, or none of the finite ones. -/
inductive Mark where
  | finite (value : ℚ)
  | notFinite
  deriving DecidableEq

structure LimitOrderRow where
  organizationId : String
  mint : String
  side : OrderSide
  trigger : TriggerKind
  priceSol : ℚ
  amount : ℚ
  status : OrderStatus
  createdAt : Int
  expiresAt : Option Int
  resolvedAt : Option Int
  executedAt : Option Int
  lease : Lease String
  attempts : Nat
  lastError : Option String
  deriving DecidableEq

structure ClaimedOrder where
  id : String
  organizationId : String
  mint : String
  side : OrderSide
  trigger : TriggerKind
  priceSol : ℚ
  amount : ℚ
  createdAt : Int
  expiresAt : Option Int
  attempts : Nat
  deriving DecidableEq

def ClaimedOrder.ofRow (id : String) (r : LimitOrderRow) : ClaimedOrder where
  id := id
  organizationId := r.organizationId
  mint := r.mint
  side := r.side
  trigger := r.trigger
  priceSol := r.priceSol
  amount := r.amount
  createdAt := r.createdAt
  expiresAt := r.expiresAt
  attempts := r.attempts

/-- A malformed mark never fires a trigger. -/
def ClaimedOrder.evaluate (order : ClaimedOrder) : Mark → Bool
  | .notFinite => false
  | .finite mark =>
    if mark ≤ 0 then false
    else match order.trigger with
      | .atOrBelow => mark ≤ order.priceSol
      | .atOrAbove => order.priceSol ≤ mark

inductive Decision where
  | wait
  | expire
  | fire (mark : Mark)
  deriving DecidableEq

def overdue (expiresAt : Option Int) (now : Int) : Bool := expiresAt.any fun e => e ≤ now

def ClaimedOrder.decide (order : ClaimedOrder) (now : Int) (mark : Option Mark) : Decision :=
  if overdue order.expiresAt now then .expire
  else match mark with
    | some m => if order.evaluate m then .fire m else .wait
    | none => .wait

theorem not_overdue_of_fire {order : ClaimedOrder} {now : Int} {mark : Option Mark} {m : Mark}
    (h : order.decide now mark = .fire m) : overdue order.expiresAt now = false := by
  unfold ClaimedOrder.decide at h
  split_ifs at h with he
  exact Bool.not_eq_true _ ▸ he

def maxHandoffAttempts : Nat := 5

def claimBatch : Nat := 100

def maxErrorChars : Nat := 512

def clampError (message : String) : String := String.ofList (message.toList.take maxErrorChars)

/-! ## Statements -/

abbrev Orders := Table String LimitOrderRow

namespace Orders

variable (t : Orders)

variable (organizationId : String) (now : Int)

def Due (r : LimitOrderRow) : Prop :=
  r.organizationId = organizationId ∧ r.status = .active ∧ r.lease.free now = true ∧
    r.attempts < maxHandoffAttempts

instance  (r : LimitOrderRow) :
    Decidable (Due organizationId now r) := inferInstanceAs (Decidable (_ ∧ _))

/-- The rows of a claim. Those that another transaction has locked are skipped. -/
def claimable (unlocked : List String) : List String :=
  t.select (Due organizationId now) unlocked claimBatch

def claimDue (worker : String) (leaseSecs : Int) (organizationId : String) (now : Int)
    (unlocked : List String) : Orders × List ClaimedOrder :=
  let ids := t.claimable organizationId now unlocked
  (t.update (fun id _ => id ∈ ids) fun r => { r with lease := .taken worker (now + leaseSecs) },
    ids.filterMap fun id => (t id).map (ClaimedOrder.ofRow id))

variable (order : ClaimedOrder) (worker : String) (id : String) (r : LimitOrderRow)

/-- A write under the lease: the order's row, if the worker is still its owner. -/
def Owned : Prop :=
  id = order.id ∧ r.organizationId = order.organizationId ∧ r.lease.owner = some worker

instance : Decidable (Owned order worker id r) := inferInstanceAs (Decidable (_ ∧ _))

def releaseLease : Orders := t.update (Owned order worker) fun r => { r with lease := .released }

/-- The writes that resolve an order or count a failure also ask that it is active. -/
def writeActive (set : LimitOrderRow → LimitOrderRow) : Orders :=
  t.update (fun id r => Owned order worker id r ∧ r.status = .active) set

def markExpired (now : Int) : Orders := t.writeActive order worker fun r =>
    { r with status := .expired, resolvedAt := some now, lease := .released }

def markTriggered (now : Int) : Orders := t.writeActive order worker fun r =>
    { r with status := .triggered, resolvedAt := some now, executedAt := some now,
             lease := .released }

def recordHandoffFailure (worker reason : String) : Orders := t.writeActive order worker fun r =>
    { r with attempts := r.attempts + 1, lastError := some (clampError reason),
             lease := .released }

def cancel (organizationId id : String) (now : Int) : Orders :=
  t.update (fun i r => i = id ∧ r.organizationId = organizationId ∧ r.status = .active ∧
      r.lease.free now = true) fun r =>
    { r with status := .cancelled, resolvedAt := some now, lease := .released }

end Orders

/-! ## Workers -/

structure TickReport where
  claimed : Nat
  fired : Nat
  expired : Nat
  waiting : Nat
  failed : Nat
  deriving DecidableEq

structure Tick where
  now : Int
  tenants : List String
  leaseEnd : Int
  orders : List ClaimedOrder
  report : TickReport
  deriving DecidableEq

inductive Stage where
  | next
  | decided (order : ClaimedOrder) (decision : Decision)
  | handing (order : ClaimedOrder) (mark : Mark)
  /-- The hand-off has returned, with the reason if it was refused. -/
  | handed (order : ClaimedOrder) (refusal : Option String)
  deriving DecidableEq

def Stage.order : Stage → List ClaimedOrder
  | next => []
  | decided order _ | handing order _ | handed order _ => [order]

structure System where
  clock : Int
  table : Orders
  ticks : String → Option (Tick × Stage)
  handedOff : List String

inductive Label where
  | advance (time : Int)
  | create (id : String) (row : LimitOrderRow)
  | cancel (organizationId id : String)
  | start (worker : String) (tenants : List String)
  | claim (worker : String) (unlocked : Option (List String))
  | look (worker : String) (mark : Option Mark)
  | resolve (worker : String) (stored : Bool)
  | startHandOff (worker : String)
  | endHandOff (worker : String) (refusal : Option String)
  | record (worker : String) (stored : Bool)
  | finish (worker : String)

namespace System

variable (s : System)

def put (worker : String) (tick : Tick) (stage : Stage) : System :=
  { s with ticks := Function.update s.ticks worker (some (tick, stage)) }

def idle (worker : String) : System :=
  { s with ticks := Function.update s.ticks worker none }

end System

def Orders.resolve (t : Orders) (order : ClaimedOrder) (worker : String) (now : Int) :
    Decision → Orders
  | .wait => t.releaseLease order worker
  | .expire => t.markExpired order worker now
  | .fire _ => t

def TickReport.resolved (r : TickReport) (stored : Bool) : Decision → TickReport
  | .wait => { r with waiting := r.waiting + 1 }
  | .expire =>
    if stored then { r with expired := r.expired + 1 } else { r with failed := r.failed + 1 }
  | .fire _ => r

/-- The write that follows a hand-off, and its count. A lease that was lost in between counts
as fired too. -/
def Orders.record (t : Orders) (order : ClaimedOrder) (worker : String) (now : Int) :
    Option String → Orders
  | none => t.markTriggered order worker now
  | some reason => t.recordHandoffFailure order worker reason

def TickReport.recorded (r : TickReport) (stored : Bool) : Option String → TickReport
  | none => if stored then { r with fired := r.fired + 1 } else { r with failed := r.failed + 1 }
  | some _ => { r with failed := r.failed + 1 }

inductive Step (leaseSecs : String → Int) : System → Label → System → Prop
  | advance {s : System} {time : Int} : s.clock ≤ time →
      Step leaseSecs s (.advance time) { s with clock := time }
  | create {s : System} {id : String} {row : LimitOrderRow} : s.table id = none →
      row.status = .active → row.lease = .released →
      Step leaseSecs s (.create id row)
        { s with table := Function.update s.table id (some row) }
  | cancel {s : System} {organizationId id : String} : Step leaseSecs s (.cancel organizationId id)
        { s with table := s.table.cancel organizationId id s.clock }
  | start {s : System} {worker : String} {tenants : List String} : s.ticks worker = none →
      Step leaseSecs s (.start worker tenants)
        (s.put worker ⟨s.clock, tenants, s.clock, [], ⟨0, 0, 0, 0, 0⟩⟩ .next)
  | claim {s : System} {worker tenant : String} {tick : Tick} {tenants unlocked : List String}
      {table : Orders} {orders : List ClaimedOrder} :
      s.ticks worker = some (tick, .next) → tick.orders = [] → tick.tenants = tenant :: tenants →
      s.table.claimDue worker (leaseSecs worker) tenant s.clock unlocked = (table, orders) →
      Step leaseSecs s (.claim worker (some unlocked)) ({ s with table := table }.put worker
          { tick with
            tenants := tenants
            leaseEnd := s.clock + leaseSecs worker
            orders := orders
            report := { tick.report with claimed := tick.report.claimed + orders.length } } .next)
  | claimFails {s : System} {worker tenant : String} {tick : Tick} {tenants : List String} :
      s.ticks worker = some (tick, .next) → tick.orders = [] → tick.tenants = tenant :: tenants →
      Step leaseSecs s (.claim worker none) (s.idle worker)
  | look {s : System} {worker : String} {tick : Tick} {order : ClaimedOrder}
      {orders : List ClaimedOrder} {mark : Option Mark} :
      s.ticks worker = some (tick, .next) → tick.orders = order :: orders →
      Step leaseSecs s (.look worker mark) (s.put worker { tick with orders := orders }
          (.decided order (order.decide tick.now mark)))
  | resolve {s : System} {worker : String} {tick : Tick} {order : ClaimedOrder} {d : Decision}
      {stored : Bool} :
      s.ticks worker = some (tick, .decided order d) → (∀ mark, d ≠ .fire mark) →
      Step leaseSecs s (.resolve worker stored)
        ({ s with table := if stored then s.table.resolve order worker s.clock d else s.table }.put
          worker { tick with report := tick.report.resolved stored d } .next)
  | startHandOff {s : System} {worker : String} {tick : Tick} {order : ClaimedOrder}
      {mark : Mark} :
      s.ticks worker = some (tick, .decided order (.fire mark)) →
      Step leaseSecs s (.startHandOff worker) (s.put worker tick (.handing order mark))
  | endHandOff {s : System} {worker : String} {tick : Tick} {order : ClaimedOrder}
      {mark : Mark} {refusal : Option String} :
      s.ticks worker = some (tick, .handing order mark) →
      Step leaseSecs s (.endHandOff worker refusal)
        ({ s with handedOff := if refusal = none then order.id :: s.handedOff
                               else s.handedOff }.put worker tick (.handed order refusal))
  | record {s : System} {worker : String} {tick : Tick} {order : ClaimedOrder}
      {refusal : Option String} {stored : Bool} :
      s.ticks worker = some (tick, .handed order refusal) →
      Step leaseSecs s (.record worker stored)
        ({ s with table := if stored then s.table.record order worker s.clock refusal
                           else s.table }.put
          worker { tick with report := tick.report.recorded stored refusal } .next)
  | finish {s : System} {worker : String} {tick : Tick} :
      s.ticks worker = some (tick, .next) → tick.orders = [] → tick.tenants = [] →
      Step leaseSecs s (.finish worker) (s.idle worker)

end SniperBot.LimitOrders
