import SniperBot.GlobalRisk.Admission
import SniperBot.Risk.Entry

/-!
# Entries of one process

`check_entry` asks the global engine, which reserves what it accepts, and then reads the open
positions, the entries in flight and the exposure of the open positions. An entry that is let
through keeps its reservation until it has recorded its position. The reservations are those of a
store that is not shared. Every section that holds a lock and every reading of the clock is an
atomic step.
-/

namespace SniperBot.Risk

open Lib.Interleaving
open Positions (Book BotModule Position PositionStatus sourceOf)
open GlobalRisk (Engine Entries RiskEntryReservation reservationRecord reservationMillis
  decideInner decideTenantInner GlobalRejectReason GlobalRiskRequest quoteAssetFor)

structure Approval where
  res : RiskEntryReservation
  sized : ℚ
  recorded : Bool
  deriving DecidableEq

structure Desk where
  now : Int
  engine : Engine
  book : Book
  approvals : List Approval

def Desk.onEntries (d : Desk) (g : Entries → Entries) : Desk :=
  { d with engine := { d.engine with entries := g d.engine.entries } }

structure Fill where
  positionId : String
  qty : ℚ

def Approval.position (a : Approval) (fill : Fill) (now : Int) : Position where
  id := fill.positionId
  updatedAt := now
  closedAt := none
  source := (sourceOf a.res.module).getD .manual
  status := .opened
  symbol := a.res.asset
  qty := fill.qty
  avgEntry := a.sized / fill.qty
  costBasis := a.sized
  realizedQuote := 0
  realizedPnlQuote := some 0
  lastMark := a.sized / fill.qty
  reasonClosed := none

def Ask.globalRequest (ask : Ask) : GlobalRiskRequest := ask.req.globalRequest ask.readings.mode

def Rules.judge (R : Rules) (ask : Ask) (entries : Entries) (ts : Int) :
    Except GlobalRejectReason ℚ :=
  match R.tenant with
  | none =>
    (decideInner ask.readings.global ask.readings.context entries ts ask.globalRequest).map
      (·.requestedRef)
  | some _ => decideTenantInner ask.readings.global ask.readings.context ask.globalRequest

abbrev EndStatus := { status : PositionStatus // status.isTerminal = true }

inductive Section where
  | wait (millis : Nat)
  | check (ask : Ask)
  | gate (ask : Ask)
  | number (ask : Ask)
  | judge (ask : Ask) (ts : Int) (id : String)
  | date (ask : Ask) (id : String) (requestedRef : ℚ)
  | reserve (ask : Ask) (res : RiskEntryReservation)
  | leave (ask : Ask) (outcome : Except RiskCode RiskEntryReservation)
  | positions (ask : Ask) (res : RiskEntryReservation)
  | usage (ask : Ask) (res : RiskEntryReservation) (opened : List Position)
  | exposure (ask : Ask) (res : RiskEntryReservation) (reserved : ℚ)
  | approve (ask : Ask) (res : RiskEntryReservation) (reserved own : ℚ)
  | drop (ask : Ask) (res : RiskEntryReservation) (code : RiskCode)
  | look (id : String) (fill : Fill)
  | record (id : String) (fill : Fill) (isNew : Bool)
  | push (id : String) (fill : Fill)
  | release (id : String)
  | close (positionId : String) (status : EndStatus) (reason : String)

inductive Reply where
  | done
  | decided (decision : RiskDecision)

def act (R : Rules) : Section → Desk → Desk × (Section ⊕ Reply)
  | .wait millis, d => ({ d with now := d.now + millis }, .inr .done)
  | .check ask, d =>
    match R.checkRequest ask with
    | .error code => (d, .inr (.decided (.reject code ask.req.requestedQuote)))
    | .ok _ => (d, .inl (.gate ask))
  | .gate ask, d =>
    if d.engine.gate then (d, .inl (.gate ask))
    else ({ d with engine := { d.engine with gate := true } }, .inl (.number ask))
  | .number ask, d =>
    ({ d with engine := { d.engine with seq := d.engine.seq + 1 } },
      .inl (.judge ask d.now (R.decisionId ask.globalRequest d.now d.engine.seq)))
  | .judge ask ts id, d =>
    match R.judge ask d.engine.entries ts with
    | .ok requestedRef => (d, .inl (.date ask id requestedRef))
    | .error reason => (d, .inl (.leave ask (.error (.fromGlobal reason))))
  | .date ask id requestedRef, d =>
    (d, .inl (.reserve ask
      (reservationRecord id ask.globalRequest requestedRef R.tenant (d.now + reservationMillis))))
  | .reserve ask res, d =>
    (d.onEntries (·.put res.reservationId (res.entry false)), .inl (.leave ask (.ok res)))
  | .leave ask outcome, d =>
    ({ d with engine := { d.engine with gate := false } },
      match outcome with
      | .error code => .inr (.decided (.reject code ask.req.requestedQuote))
      | .ok res =>
        if ask.req.slippageBps ≤ R.risk.maxSlippageBps then .inl (.positions ask res)
        else .inl (.drop ask res .slippageCap))
  | .positions ask res, d => (d, .inl (.usage ask res (d.book.openPositionsFor ask.req.module)))
  | .usage ask res opened, d =>
    let (count, exposure, symbol) := reservedEntryUsage d.engine.entries d.now ask.req.module
      R.tenant (quoteAssetFor ask.req.venue) ask.req.symbol res.reservationId
    match R.checkCapacity ask opened count symbol with
    | .error code => (d, .inl (.drop ask res code))
    | .ok _ => (d, .inl (.exposure ask res exposure))
  | .exposure ask res reserved, d =>
    (d, .inl (.approve ask res reserved (d.book.openExposure ask.req.module)))
  | .approve ask res reserved own, d =>
    match R.finish ask reserved own with
    | .error code => (d, .inl (.drop ask res code))
    | .ok decision =>
      ({ d with approvals := ⟨res, decision.sizedQuote, false⟩ :: d.approvals },
        .inr (.decided decision))
  | .drop ask res code, d =>
    (d.onEntries (·.remove res.reservationId),
      .inr (.decided (.reject code ask.req.requestedQuote)))
  | .look id fill, d => (d, .inl (.record id fill (d.book.position fill.positionId).isNone))
  | .record id fill isNew, d =>
    match d.approvals.find? fun a => a.res.reservationId = id ∧ a.recorded = false with
    | some a =>
      ({ d with
          book := d.book.insert (a.position fill d.now)
          approvals := { a with recorded := true } :: d.approvals.erase a },
        .inl (if isNew then .push id fill else .release id))
    | none => (d, .inr .done)
  | .push id fill, d => ({ d with book := d.book.pushOrder fill.positionId }, .inl (.release id))
  | .release id, d =>
    match d.approvals.find? (·.res.reservationId = id) with
    | some a => ({ d.onEntries (·.remove id) with approvals := d.approvals.erase a }, .inr .done)
    | none => (d, .inr .done)
  | .close positionId status reason, d =>
    ({ d with book := (d.book.closePosition positionId status.1 reason d.now).1 }, .inr .done)

/-- Time passes, an entry is checked, an entry that was let through completes or is given up,
and a position is closed. -/
inductive IsCall : Section → Prop
  | wait (millis : Nat) : IsCall (.wait millis)
  | check (ask : Ask) : IsCall (.check ask)
  | complete (id : String) (fill : Fill) : IsCall (.look id fill)
  | abandon (id : String) : IsCall (.release id)
  | close (positionId : String) (status : EndStatus) (reason : String) :
      IsCall (.close positionId status reason)

end SniperBot.Risk
