import SniperBot.Accounting.Event
import SniperBot.Lib.AverageCost

/-!
# The aggregated position book

One book over the fills of every module, rebuilt from the events of the ledger. Positions
are carried at the running average cost without fees.
-/

namespace SniperBot.Accounting

open GlobalRisk (PositionKey)
open Lib.AverageCost
open Lib.MachineInt

structure BookPosition where
  key : PositionKey
  qty : ℚ
  /-- Cost of the open quantity, without fees. -/
  costBasis : ℚ
  realized : ℚ
  fees : ℚ
  boughtQuote : ℚ
  soldQuote : ℚ
  boughtQty : ℚ
  soldQty : ℚ
  lastPrice : ℚ
  openedAt : Int
  updatedAt : Int
  eventCount : UInt64
  lastEventId : String
  positionIds : List String

/-- Quantities up to this one count as none. -/
def dust : ℚ := 1 / 10 ^ 12

namespace BookPosition

def new (key : PositionKey) (ts : Int) : BookPosition where
  key := key
  qty := 0
  costBasis := 0
  realized := 0
  fees := 0
  boughtQuote := 0
  soldQuote := 0
  boughtQty := 0
  soldQty := 0
  lastPrice := 0
  openedAt := ts
  updatedAt := ts
  eventCount := 0
  lastEventId := ""
  positionIds := []

variable (pos : BookPosition)

def avgCost : ℚ := if 0 < pos.qty ∧ 0 < pos.costBasis then pos.costBasis / pos.qty else 0

variable (quantity quoteAmount fee : ℚ)

def buy : BookPosition :=
  { pos with
    qty := pos.qty + quantity
    costBasis := pos.costBasis + max (quoteAmount - fee) 0
    boughtQuote := pos.boughtQuote + quoteAmount
    boughtQty := pos.boughtQty + quantity }

/-- The part of a sale that is covered by what is open. -/
def covered (quantity : ℚ) : ℚ := max (min quantity pos.qty) 0

def costOfSlice (quantity : ℚ) : ℚ := pos.avgCost * pos.covered quantity

def realizedDelta : ℚ := quoteAmount + fee - pos.costOfSlice quantity

def sell : BookPosition :=
  let qty := max (pos.qty - pos.covered quantity) 0
  let costBasis := max (pos.costBasis - pos.costOfSlice quantity) 0
  { pos with
    realized := pos.realized + pos.realizedDelta quantity quoteAmount fee
    qty := if qty ≤ dust then 0 else qty
    costBasis := if qty ≤ dust then 0 else costBasis
    soldQuote := pos.soldQuote + quoteAmount
    soldQty := pos.soldQty + pos.covered quantity }

def priceOf (event : AccountingEvent) : ℚ :=
  match event.price.filter (0 < ·) with
  | some p => p
  | none =>
    if 0 < event.quantity ∧ 0 < event.quoteAmount then event.quoteAmount / event.quantity
    else pos.lastPrice

def stamp (event : AccountingEvent) (eventId : String) : BookPosition :=
  { pos with
    fees := pos.fees + event.fee
    lastPrice := pos.priceOf event
    updatedAt := max event.ts pos.updatedAt
    eventCount := U64.saturatingAdd pos.eventCount 1
    lastEventId := eventId
    positionIds := match event.positionId with
      | none => pos.positionIds
      | some id => if id ∈ pos.positionIds then pos.positionIds else pos.positionIds ++ [id] }

end BookPosition

inductive Transition where
  | opened
  | increased
  | reduced
  | closed
  | cash

def Transition.of (qtyBefore qtyAfter : ℚ) : Transition :=
  if qtyAfter ≤ dust then .closed
  else if qtyBefore ≤ dust then .opened
  else if qtyBefore < qtyAfter then .increased
  else .reduced

structure BookEffect where
  key : PositionKey
  qtyBefore : ℚ
  qtyAfter : ℚ
  realizedDelta : ℚ
  feeDelta : ℚ
  costOfSlice : ℚ
  transition : Transition

abbrev Cash := AList fun _ : String × String => ℚ

def Cash.add (c : Cash) (key : String × String) (delta : ℚ) : Cash :=
  c.insert key ((c.lookup key).getD 0 + delta)

structure PositionBook where
  positions : AList fun _ : PositionKey => BookPosition
  cash : Cash
  standaloneFees : Cash

namespace PositionBook

def new : PositionBook := ⟨∅, ∅, ∅⟩

variable (b : PositionBook) (event : AccountingEvent) (eventId : String)

def standaloneFee : ℚ := if 0 < event.fee then event.fee else event.quoteAmount

def cashDelta : ℚ :=
  match event.kind with
  | .deposit => event.quoteAmount
  | .withdrawal | .transfer => -(event.quoteAmount + event.fee)
  | .fundingAdjustment =>
    match event.side with
    | some .sell => -event.quoteAmount
    | _ => event.quoteAmount
  | .fee => -standaloneFee event
  | .fill | .settlement | .correction => 0

def applyCash : PositionBook :=
  let cashKey := (event.wallet, event.quoteAsset)
  -- The receiver of a transfer is credited before the sender is charged.
  let cash := match event.kind, event.counterpartyWallet with
    | .transfer, some receiver => b.cash.add (receiver, event.quoteAsset) event.quoteAmount
    | _, _ => b.cash
  let fees := match event.kind with
    | .fee => b.standaloneFees.add cashKey (standaloneFee event)
    | _ => b.standaloneFees
  { b with cash := cash.add cashKey (cashDelta event), standaloneFees := fees }

def entry : BookPosition := (b.positions.lookup event.key).getD (.new event.key event.ts)

def apply : PositionBook × BookEffect :=
  if ¬ event.kind.movesInventory then
    (b.applyCash event,
      { key := event.key, qtyBefore := 0, qtyAfter := 0, realizedDelta := 0,
        feeDelta := event.fee, costOfSlice := 0, transition := .cash })
  else
    let pos := b.entry event
    let moved := match event.side.getD .buy with
      | .buy => pos.buy event.quantity event.quoteAmount event.fee
      | .sell => pos.sell event.quantity event.quoteAmount event.fee
    let (realizedDelta, costOfSlice) := match event.side.getD .buy with
      | .buy => (0, 0)
      | .sell =>
        (pos.realizedDelta event.quantity event.quoteAmount event.fee,
          pos.costOfSlice event.quantity)
    ({ b with positions := b.positions.insert event.key (moved.stamp event eventId) },
      { key := event.key, qtyBefore := pos.qty, qtyAfter := moved.qty,
        realizedDelta := realizedDelta, feeDelta := event.fee, costOfSlice := costOfSlice,
        transition := .of pos.qty moved.qty })

end PositionBook

/-! ## The book as average-cost holdings -/

namespace BookPosition

structure Shows (pos : BookPosition) (h : Holding ℚ) : Prop where
  qty_eq : pos.qty = h.qty
  costBasis_eq : pos.costBasis = h.cost
  realized_eq : pos.realized = h.realized

theorem shows_new (key : PositionKey) (ts : Int) : (new key ts).Shows .empty := ⟨rfl, rfl, rfl⟩

variable {pos : BookPosition} {h : Holding ℚ}

theorem Shows.stamp (hpos : pos.Shows h) (event : AccountingEvent) (eventId : String) :
    (pos.stamp event eventId).Shows h :=
  ⟨hpos.qty_eq, hpos.costBasis_eq, hpos.realized_eq⟩

variable (hpos : pos.Shows h) (d : Deal ℚ)
include hpos

theorem Shows.buy : (pos.buy d.qty d.quote 0).Shows (h.buy d) := by
  constructor
  · exact congrArg (· + d.qty) hpos.qty_eq
  · show pos.costBasis + max (d.quote - 0) 0 = h.cost + d.quote
    rw [hpos.costBasis_eq, sub_zero, max_eq_left d.quote_nonneg]
  · exact hpos.realized_eq

theorem Shows.covered_eq : pos.covered d.qty = h.sold d := by
  rw [covered, hpos.qty_eq]
  exact max_eq_left (h.sold_nonneg d)

theorem Shows.costOfSlice_eq : pos.costOfSlice d.qty = h.slice d := by
  rw [costOfSlice, avgCost, hpos.covered_eq, hpos.qty_eq, hpos.costBasis_eq, Holding.slice]
  split_ifs with hpr
  · ring
  · -- Without cost or without quantity there is nothing to share out.
    have hco : h.cost = 0 := by
      by_cases hq : 0 < h.qty
      · exact le_antisymm (not_lt.mp fun hc => hpr ⟨hq, hc⟩) h.cost_nonneg
      · exact h.cost_of_flat (le_antisymm (not_lt.mp hq) h.qty_nonneg)
    rw [hco, zero_mul, zero_mul]

theorem Shows.sell (hrest : h.LeavesNoDust d dust) :
    (pos.sell d.qty d.quote 0).Shows (h.sell d (full h.qty d)) := by
  have hq : max (pos.qty - pos.covered d.qty) 0 = h.qty - h.sold d := by
    rw [hpos.qty_eq, hpos.covered_eq, h.max_qty_left]
  have hc : max (pos.costBasis - pos.costOfSlice d.qty) 0 = h.cost - h.slice d := by
    rw [hpos.costBasis_eq, hpos.costOfSlice_eq, h.max_cost_left]
  constructor
  · show (if max (pos.qty - pos.covered d.qty) 0 ≤ dust then 0 else _) = h.qty - h.sold d
    rw [hq, Holding.qty_left hrest]
  · show (if max (pos.qty - pos.covered d.qty) 0 ≤ dust then 0 else _) = h.cost - h.slice d
    rw [hq, hc, Holding.cost_left hrest]
  · show pos.realized + (d.quote + 0 - pos.costOfSlice d.qty) = _
    rw [hpos.realized_eq, hpos.costOfSlice_eq, add_zero]
    rfl

end BookPosition

end SniperBot.Accounting
