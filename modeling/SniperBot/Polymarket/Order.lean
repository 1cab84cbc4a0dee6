import SniperBot.Orders.Manager
import SniperBot.Reconciliation.Engine

/-!
# Orders on the venue

What the engine knows of one order of the venue, and how an observation of it is applied.
Sizes and prices are exact rationals, so the checks for finite numbers are gone. Of an
order only what these functions read is kept. A refused observation is an error with the
data of its message.
-/

namespace SniperBot.Polymarket

open Execution (isBlank trim)
open Orders (ExecutionMode)
open Reconciliation (eqIgnoreAsciiCase)

inductive VenueOrderState where
  | live
  | matched
  | delayed
  | unmatched
  | cancelled
  | expired
  | unknown
  deriving DecidableEq

def VenueOrderState.parse (raw : String) : VenueOrderState :=
  let label := (trim raw).toList.map Char.toLower
  if label = "live".toList ∨ label = "open".toList then .live
  else if label = "matched".toList ∨ label = "filled".toList then .matched
  else if label = "delayed".toList then .delayed
  else if label = "unmatched".toList ∨ label = "placement".toList then .unmatched
  else if label = "cancelled".toList ∨ label = "canceled".toList then .cancelled
  else if label = "expired".toList then .expired
  else .unknown

inductive LocalOrderState where
  | submitted
  | resting
  | partiallyFilled
  | filled
  | cancelled
  | expired
  | unknown
  | failed
  deriving DecidableEq

namespace LocalOrderState

def asStr : LocalOrderState → String
  | .submitted => "submitted"
  | .resting => "resting"
  | .partiallyFilled => "partially_filled"
  | .filled => "filled"
  | .cancelled => "cancelled"
  | .expired => "expired"
  | .unknown => "unknown"
  | .failed => "failed"

def parse (raw : String) : LocalOrderState :=
  match trim raw with
  | "submitted" => .submitted
  | "resting" => .resting
  | "partially_filled" => .partiallyFilled
  | "filled" => .filled
  | "cancelled" => .cancelled
  | "expired" => .expired
  | "failed" => .failed
  | _ => .unknown

def isTerminal : LocalOrderState → Bool
  | .filled | .cancelled | .expired | .failed => true
  | .submitted | .resting | .partiallyFilled | .unknown => false

def canTransitionTo (s target : LocalOrderState) : Bool :=
  if s = target then false
  else match s with
    | .submitted => true
    | .resting => target ≠ .submitted
    | .partiallyFilled =>
      target = .filled ∨ target = .cancelled ∨ target = .expired ∨ target = .unknown ∨
        target = .failed
    | .unknown => true
    | .filled | .cancelled | .expired | .failed => false

theorem parse_asStr (s : LocalOrderState) : parse s.asStr = s := by
  cases s <;> decide +kernel

end LocalOrderState

inductive FillSource where
  | poll
  | userWs
  | paper
  | recon

def FillSource.asStr : FillSource → String
  | .poll => "poll"
  | .userWs => "user_ws"
  | .paper => "paper"
  | .recon => "recon"

structure TrackedOrder where
  venueOrderId : String
  isBuy : Bool
  orderType : String
  limitPrice : ℚ
  sizeTokens : ℚ
  sizeMatched : ℚ
  mode : ExecutionMode
  state : LocalOrderState
  venueStatus : String
  positionId : Option String
  submittedAt : Int
  updatedAt : Int
  bookedTradeIds : List String
  tradeMatched : ℚ
  deriving DecidableEq

structure VenueObservation where
  state : VenueOrderState
  rawStatus : String
  sizeMatched : Option ℚ
  fillDelta : Option ℚ
  tradeId : Option String
  price : Option ℚ
  source : FillSource
  observedAt : Int
  /-- The trades that make up the cumulative size, if they are named. -/
  associateTrades : List String

structure LifecycleEffect where
  fillDelta : ℚ
  fillPrice : ℚ
  fromState : LocalOrderState
  toState : LocalOrderState
  transitioned : Bool
  tradeId : Option String
  deriving DecidableEq

inductive LifecycleError where
  | tradeFillInvalid (delta : ℚ) (venueOrderId : String)
  | matchedInvalid (matched : ℚ) (venueOrderId : String)
  | matchedAboveSize (matched size : ℚ) (venueOrderId : String)
  | illegalTransition (fromState toState : LocalOrderState) (venueOrderId : String)
  deriving DecidableEq

def fillThreshold : ℚ := 1 / 10 ^ 9

/-- An order that lacks no more than this is full. -/
def sizeSlack : ℚ := 1 / 10 ^ 6

namespace TrackedOrder

variable (t : TrackedOrder)

def new (venueOrderId : String) (isBuy : Bool) (orderType : String) (limitPrice sizeTokens : ℚ)
    (mode : ExecutionMode) (submittedAt : Int) : TrackedOrder where
  venueOrderId := venueOrderId
  isBuy := isBuy
  orderType := orderType
  limitPrice := limitPrice
  sizeTokens := sizeTokens
  sizeMatched := 0
  mode := mode
  state := .submitted
  venueStatus := ""
  positionId := none
  submittedAt := submittedAt
  updatedAt := submittedAt
  bookedTradeIds := []
  tradeMatched := 0

def ageSecs (now : Int) : Int := max (now - t.submittedAt) 0

def isFillAndKill : Bool := eqIgnoreAsciiCase t.orderType "FAK"

def venueAcknowledged : Bool := VenueOrderState.parse t.venueStatus ≠ .unknown

def rememberTrade (tradeId : String) : TrackedOrder :=
  if ¬ isBlank tradeId ∧ tradeId ∉ t.bookedTradeIds then
    { t with bookedTradeIds := t.bookedTradeIds ++ [tradeId] }
  else t

variable (obs : VenueObservation) (matched : ℚ)

/-- What an observation amounts to: the cumulative size, with the new sum of the single
trades if it is one of them. -/
def evidence : Except LifecycleError (Option (ℚ × Option ℚ)) :=
  match obs.sizeMatched, obs.fillDelta with
  | some matched, _ => .ok (some (matched, none))
  | none, some delta =>
    if delta < 0 then .error (.tradeFillInvalid delta t.venueOrderId)
    else
      -- The trade may be one that a poll has already captured.
      let tradeMatched := t.tradeMatched + delta
      .ok (some (max tradeMatched t.sizeMatched, some tradeMatched))
  | none, none => .ok none

/-- Ids and sums after a cumulative size that is not refused. -/
def noteEvidence (pending : Option ℚ) : TrackedOrder :=
  let t := { t with tradeMatched := pending.getD t.tradeMatched }
  let t := obs.associateTrades.foldl rememberTrade t
  if obs.sizeMatched.isSome ∧ obs.associateTrades ≠ [] then
    -- Every trade behind this size is known by now.
    { t with tradeMatched := max t.tradeMatched matched }
  else t

/-- The order with what is new of the cumulative size booked, what that is, and the trade
it is booked under. -/
def bookMatched : TrackedOrder × ℚ × Option String :=
  let delta := matched - t.sizeMatched
  let ids := t.bookedTradeIds ++ obs.tradeId.toList
  if fillThreshold < delta then
    ({ t with sizeMatched := min matched t.sizeTokens, bookedTradeIds := ids }, delta, obs.tradeId)
  else ({ t with bookedTradeIds := ids }, 0, none)

/-- The first part of applying an observation: the order, the new size, the trade, and
whether any size was reported. -/
def applySize : Except LifecycleError (TrackedOrder × ℚ × Option String × Bool) := do
  match ← t.evidence obs with
  | none => pure (t, 0, none, false)
  | some (matched, pending) =>
    if matched < 0 then throw (.matchedInvalid matched t.venueOrderId)
    else if t.sizeTokens + sizeSlack < matched then
      throw (.matchedAboveSize matched t.sizeTokens t.venueOrderId)
    else
      let (t, delta, tradeId) := (t.noteEvidence obs matched pending).bookMatched obs matched
      pure (t, delta, tradeId, true)

def fully : Bool := t.sizeTokens - sizeSlack ≤ t.sizeMatched

def openState (otherwise : LocalOrderState) : LocalOrderState :=
  if t.fully then .filled
  else if fillThreshold < t.sizeMatched then .partiallyFilled
  else otherwise

/-- The state that the venue's answer leads to, and the order with the rest of its size
booked where the answer stands for it. -/
def target (state : VenueOrderState) (reported : Bool) : LocalOrderState × TrackedOrder × ℚ :=
  match state with
  | .matched =>
    if t.fully then (.filled, t, 0)
    else if t.isFillAndKill then
      -- The rest was killed: nothing is made up for it.
      if ¬ reported then (t.state, t, 0)
      else if fillThreshold < t.sizeMatched then (.filled, t, 0)
      else (.cancelled, t, 0)
    else
      let delta := t.sizeTokens - t.sizeMatched
      if fillThreshold < delta then (.filled, { t with sizeMatched := t.sizeTokens }, delta)
      else (.filled, t, 0)
  | .cancelled => (.cancelled, t, 0)
  | .expired => (.expired, t, 0)
  | .live | .delayed | .unmatched => (t.openState .resting, t, 0)
  | .unknown => (t.openState .unknown, t, 0)

def fillPrice : ℚ := (obs.price.filter (0 < ·)).getD t.limitPrice

def unchanged : LifecycleEffect where
  fillDelta := 0
  fillPrice := t.fillPrice obs
  fromState := t.state
  toState := t.state
  transitioned := false
  tradeId := none

def ignores : Prop := t.state.isTerminal = true ∨ ∃ id ∈ obs.tradeId, id ∈ t.bookedTradeIds

instance : Decidable (t.ignores obs) := inferInstanceAs (Decidable (_ ∨ _))

/-- The order as it is left, and the effect or the error. A refused transition leaves the
sizes as they were booked. -/
def applyVenue : TrackedOrder × Except LifecycleError LifecycleEffect :=
  if t.ignores obs then ({ t with updatedAt := obs.observedAt }, .ok (t.unchanged obs))
  else match t.applySize obs with
    | .error e => (t, .error e)
    | .ok (sized, delta, tradeId, reported) =>
      let (state, filled, rest) := sized.target obs.state reported
      let next := { filled with venueStatus := obs.rawStatus, updatedAt := obs.observedAt }
      let effect := { t.unchanged obs with fillDelta := delta + rest, tradeId := tradeId }
      if state = t.state then (next, .ok effect)
      else if ¬ t.state.canTransitionTo state then
        (next, .error (.illegalTransition t.state state t.venueOrderId))
      else
        ({ next with state := state }, .ok { effect with toState := state, transitioned := true })

def forceState (target : LocalOrderState) (rawStatus : String) (now : Int) :
    TrackedOrder × Except LifecycleError Bool :=
  if t.state = target then (t, .ok false)
  else if ¬ t.state.canTransitionTo target then
    (t, .error (.illegalTransition t.state target t.venueOrderId))
  else ({ t with state := target, venueStatus := rawStatus, updatedAt := now }, .ok true)

end TrackedOrder

end SniperBot.Polymarket
