import SniperBot.Lib.Interleaving
import SniperBot.GlobalRisk.Engine

/-!
# Admission of entries by replicas that share a reservation store

`decide_with_reservation` runs under the replica's gate and under an admission lock in the
database, a lease that lapses after two minutes. Under the lock a replica reads the shared
reservations into its book, decides, stores a row for an accepted entry and hands out a lease on
it, which is released when the entry is done or expires after five minutes. Every statement,
lock-held section and reading of the clock is an atomic step.
-/

namespace SniperBot.GlobalRisk

open Lib.Interleaving
open Positions (BotModule)

structure RiskEntryReservation where
  reservationId : String
  module : BotModule
  organization : Option String
  venue : Venue
  wallet : String
  strategy : String
  asset : String
  quoteAsset : String
  requestedQuote : ℚ
  requestedRef : ℚ
  expiresAt : Int
  deriving DecidableEq

def RiskEntryReservation.entry (res : RiskEntryReservation) (distributed : Bool) :
    ReservedEntry where
  module := res.module
  organization := res.organization
  wallet := res.wallet
  venue := res.venue.asStr
  strategy := res.strategy
  asset := res.asset
  quoteAsset := res.quoteAsset
  requestedQuote := res.requestedQuote
  requestedRef := res.requestedRef
  expiresAt := res.expiresAt
  distributed := distributed

def reservationRecord (id : String) (req : GlobalRiskRequest) (requestedRef : ℚ)
    (organization : Option String) (expiresAt : Int) : RiskEntryReservation where
  reservationId := id
  module := req.module
  organization := organization
  venue := req.venue
  wallet := req.wallet
  strategy := req.strategy
  asset := req.asset
  quoteAsset := req.quoteAsset
  requestedQuote := req.requestedQuote
  requestedRef := requestedRef
  expiresAt := expiresAt

/-! ## The book of a replica -/

variable (entries : Entries) (id : String) {p : String × ReservedEntry}

def Entries.remove : Entries := entries.filter (·.1 ≠ id)

def Entries.put (e : ReservedEntry) : Entries := (id, e) :: entries.remove id

theorem mem_remove {es : Entries} {id : String} : p ∈ es.remove id ↔ p ∈ es ∧ p.1 ≠ id := by
  simp [Entries.remove]

theorem mem_put {es : Entries} {id : String} {e : ReservedEntry} :
    p ∈ es.put id e ↔ p = (id, e) ∨ p ∈ es ∧ p.1 ≠ id := by
  rw [Entries.put, List.mem_cons, mem_remove]

def Entries.installDistributed (active : List RiskEntryReservation) (now : Int) : Entries :=
  (active.filter (now < ·.expiresAt)).foldl
    (fun es res => es.put res.reservationId (res.entry true)) (entries.filter (!·.2.distributed))

structure Engine where
  gate : Bool
  seq : Nat
  entries : Entries

/-! ## The cluster -/

structure Hold where
  holder : Nat
  leaseUntil : Int
  deriving DecidableEq

structure Lease where
  replica : String
  res : RiskEntryReservation
  deriving DecidableEq

structure Cluster where
  now : Int
  lock : Option Hold
  nextHolder : Nat
  rows : List RiskEntryReservation
  engines : String → Engine
  leases : List Lease

namespace Cluster

variable (c : Cluster) (r : String) (g : Engine → Engine)

def onEngine : Cluster :=
  { c with engines := Function.update c.engines r (g (c.engines r)) }

def onEntries (g : Entries → Entries) : Cluster :=
  c.onEngine r fun e => { e with entries := g e.entries }

def lockIsFree : Bool :=
  match c.lock with
  | some hold => hold.leaseUntil ≤ c.now
  | none => true

def takeLock : Cluster × Hold :=
  let hold : Hold := ⟨c.nextHolder, c.now + 120000⟩
  ({ c with lock := some hold, nextHolder := c.nextHolder + 1 }, hold)

def dropLock (hold : Hold) : Cluster :=
  { c with lock := c.lock.filter (·.holder ≠ hold.holder) }

def hasRow (id : String) : Bool := c.rows.any (·.reservationId = id)

def findLease (r id : String) : Option Lease :=
  c.leases.find? fun l => l.replica = r ∧ l.res.reservationId = id

def live : List RiskEntryReservation := (c.leases.map Lease.res).filter (c.now < ·.expiresAt)

end Cluster

/-! ## Calls -/

/-- How the database answers a call: statements that fail, and the number of times the
lock is tried again. A failed insert may have been carried out all the same. -/
structure Database where
  retries : Nat
  lockFails : Bool
  purgeFails : Bool
  selectFails : Bool
  insertFails : Bool
  insertLost : Bool
  deriving DecidableEq

structure Ask where
  replica : String
  req : GlobalRiskRequest
  ctx : DecisionContext
  db : Database
  deriving DecidableEq

inductive Section where
  | wait (millis : Nat)
  | gate (ask : Ask)
  | acquire (ask : Ask) (retries : Nat)
  | purge (ask : Ask) (hold : Hold)
  | select (ask : Ask) (hold : Hold)
  | install (ask : Ask) (hold : Hold) (active : List RiskEntryReservation)
  | number (ask : Ask) (hold : Hold)
  | judge (ask : Ask) (hold : Hold) (ts : Int) (id : String)
  | date (ask : Ask) (hold : Hold) (id : String) (requestedRef : ℚ)
  | create (ask : Ask) (hold : Hold) (res : RiskEntryReservation)
  | reserve (ask : Ask) (hold : Hold) (res : RiskEntryReservation)
  | refuse (ask : Ask) (hold : Option Hold)
  | leave (ask : Ask) (hold : Option Hold) (verdict : Except GlobalRejectReason String)
  | unlock (hold : Hold) (verdict : Except GlobalRejectReason String)
  | release (r id : String)
  | deleteRow (id : String)
  deriving DecidableEq

inductive Reply where
  | done
  | decided (verdict : Except GlobalRejectReason String)

def reservationMillis : Int := 300000

def act (S : Setting) : Section → Cluster → Cluster × (Section ⊕ Reply)
  | .wait millis, c => ({ c with now := c.now + millis }, .inr .done)
  | .gate ask, c =>
    if (c.engines ask.replica).gate then (c, .inl (.gate ask))
    else (c.onEngine ask.replica ({ · with gate := true }), .inl (.acquire ask ask.db.retries))
  | .acquire ask retries, c =>
    if ask.db.lockFails then (c, .inl (.refuse ask none))
    else if c.lockIsFree then (c.takeLock.1, .inl (.purge ask c.takeLock.2))
    else match retries with
      | 0 => (c, .inl (.refuse ask none))
      | n + 1 => (c, .inl (.acquire ask n))
  | .purge ask hold, c =>
    if ask.db.purgeFails then (c, .inl (.refuse ask (some hold)))
    else ({ c with rows := c.rows.filter (c.now < ·.expiresAt) }, .inl (.select ask hold))
  | .select ask hold, c =>
    if ask.db.selectFails then (c, .inl (.refuse ask (some hold)))
    else (c, .inl (.install ask hold (c.rows.filter (c.now < ·.expiresAt))))
  | .install ask hold active, c =>
    (c.onEntries ask.replica (·.installDistributed active c.now), .inl (.number ask hold))
  | .number ask hold, c =>
    (c.onEngine ask.replica (fun e => { e with seq := e.seq + 1 }),
      .inl (.judge ask hold c.now (S.decisionId ask.req c.now (c.engines ask.replica).seq)))
  | .judge ask hold ts id, c =>
    match decideInner S ask.ctx (c.engines ask.replica).entries ts ask.req with
    | .ok snapshot => (c, .inl (.date ask hold id snapshot.requestedRef))
    | .error reason => (c, .inl (.leave ask (some hold) (.error reason)))
  | .date ask hold id requestedRef, c =>
    (c, .inl (.create ask hold
      (reservationRecord id ask.req requestedRef none (c.now + reservationMillis))))
  | .create ask hold res, c =>
    -- the id is the primary key
    if c.hasRow res.reservationId || ask.db.insertFails then
      (c, .inl (.leave ask (some hold) (.error .invalidPortfolio)))
    else if ask.db.insertLost then
      ({ c with rows := c.rows ++ [res] }, .inl (.leave ask (some hold) (.error .invalidPortfolio)))
    else ({ c with rows := c.rows ++ [res] }, .inl (.reserve ask hold res))
  | .reserve ask hold res, c =>
    ({ c.onEntries ask.replica (·.put res.reservationId (res.entry true)) with
        leases := c.leases ++ [⟨ask.replica, res⟩] },
      .inl (.leave ask (some hold) (.ok res.reservationId)))
  | .refuse ask hold, c =>
    (c.onEngine ask.replica (fun e => { e with seq := e.seq + 1 }),
      .inl (.leave ask hold (.error .invalidPortfolio)))
  | .leave ask hold verdict, c =>
    (c.onEngine ask.replica ({ · with gate := false }),
      match hold with
      | some hold => .inl (.unlock hold verdict)
      | none => .inr (.decided verdict))
  | .unlock hold verdict, c => (c.dropLock hold, .inr (.decided verdict))
  | .release r id, c =>
    match c.findLease r id with
    | some lease =>
      ({ c.onEntries r (·.remove id) with leases := c.leases.erase lease }, .inl (.deleteRow id))
    | none => (c, .inr .done)
  | .deleteRow id, c => ({ c with rows := c.rows.filter (·.reservationId ≠ id) }, .inr .done)

/-- Time passes, an entry is asked for, or a lease is released or dropped. -/
inductive IsCall : Section → Prop
  | wait (millis : Nat) : IsCall (.wait millis)
  | decide (ask : Ask) : IsCall (.gate ask)
  | release (r id : String) : IsCall (.release r id)

end SniperBot.GlobalRisk
