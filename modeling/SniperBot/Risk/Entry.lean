import SniperBot.Flags.Replica
import SniperBot.GlobalRisk.Engine

/-!
# The checks of the module risk engine

The parts of `check_entry` that compute on what has been read: the limits of a module, the checks
before and after the global engine, and the sizing. Amounts are exact rationals; of a refusal only
the code is kept.
-/

namespace SniperBot.Risk

open Lib.Guard Option
open Positions (BotModule Position)
open Execution (isBlank trim)
open Orders (ExecutionMode)
open GlobalRisk

inductive RiskCode where
  | killSwitch
  | moduleDisabled
  | dailyLossLimit
  | invalidSize
  | slippageCap
  | maxOpenPositions
  | duplicateSymbol
  | reentryCooldown
  | insufficientBalance
  | exposureCap
  | venueCheck
  | sniperEmergencyDisabled
  | sniperDailyLoss
  | sniperPendingCap
  | sniperTokenCooldown
  | sniperFailedEntryCooldown
  | copyEmergencyDisabled
  | copyDailyLoss
  | copyPendingCap
  | copyFailedEntryCooldown
  | polyEmergencyDisabled
  | polyDailyLoss
  | globalKillSwitch
  | globalExposure
  | globalDailyLoss
  | globalDrawdown
  | globalUnavailable

def RiskCode.fromGlobal : GlobalRejectReason → RiskCode
  | .globalKillSwitch | .venueKillSwitch | .strategyKillSwitch => .globalKillSwitch
  | .maxOpenPositions | .orderNotional | .portfolioExposure | .walletExposure | .venueExposure
  | .strategyExposure | .assetExposure => .globalExposure
  | .dailyLoss => .globalDailyLoss
  | .drawdown => .globalDrawdown
  | .referenceRateMissing | .invalidRequest | .invalidPortfolio => .globalUnavailable

/-! ## Configuration -/

structure RiskConfig where
  maxOpenPositions : Nat
  maxPositionFraction : ℚ
  maxPositionQuote : ℚ
  dailyLossLimitQuote : ℚ
  defaultStopLossPct : ℚ
  defaultTakeProfitPct : ℚ
  trailingStopPct : Option ℚ
  maxHoldSecs : Option Int
  maxSlippageBps : Nat
  minSolReserve : ℚ
  reentryCooldownSecs : Int
  polyMinLiquidityUsd : ℚ
  polyMinEdge : ℚ
  polyPriceFloor : ℚ
  polyPriceCeiling : ℚ
  sniperMaxPositionQuote : ℚ
  sniperMaxTotalExposureQuote : ℚ
  sniperMaxConcurrentPositions : Nat
  sniperMaxPendingExecutions : Nat
  sniperTokenCooldownSecs : Int
  sniperFailedEntryCooldownSecs : Int
  sniperDailyLossLimitQuote : ℚ
  sniperEmergencyDisable : Bool
  copyMaxPositionQuote : ℚ
  copyMaxTotalExposureQuote : ℚ
  copyMaxConcurrentPositions : Nat
  copyMaxPendingExecutions : Nat
  copyFailedEntryCooldownSecs : Int
  copyDailyLossLimitQuote : ℚ
  copyEmergencyDisable : Bool
  polyMaxPositionQuote : ℚ
  polyMaxTotalExposureQuote : ℚ
  polyMaxConcurrentPositions : Nat
  polyDailyLossLimitQuote : ℚ
  polyEmergencyDisable : Bool

instance : Inhabited RiskConfig :=
  ⟨{ maxOpenPositions := 8, maxPositionFraction := 1 / 10, maxPositionQuote := 1 / 2,
     dailyLossLimitQuote := 2, defaultStopLossPct := 3 / 10, defaultTakeProfitPct := 1,
     trailingStopPct := some (1 / 4), maxHoldSecs := some 3600, maxSlippageBps := 3000,
     minSolReserve := 1 / 20, reentryCooldownSecs := 600, polyMinLiquidityUsd := 1000,
     polyMinEdge := 3 / 100, polyPriceFloor := 2 / 100, polyPriceCeiling := 98 / 100,
     sniperMaxPositionQuote := 0, sniperMaxTotalExposureQuote := 0,
     sniperMaxConcurrentPositions := 0, sniperMaxPendingExecutions := 2,
     sniperTokenCooldownSecs := 0, sniperFailedEntryCooldownSecs := 120,
     sniperDailyLossLimitQuote := 0, sniperEmergencyDisable := false,
     copyMaxPositionQuote := 0, copyMaxTotalExposureQuote := 0, copyMaxConcurrentPositions := 0,
     copyMaxPendingExecutions := 0, copyFailedEntryCooldownSecs := 0,
     copyDailyLossLimitQuote := 0, copyEmergencyDisable := false, polyMaxPositionQuote := 0,
     polyMaxTotalExposureQuote := 0, polyMaxConcurrentPositions := 0,
     polyDailyLossLimitQuote := 0, polyEmergencyDisable := false }⟩

/-- A module's own setting, where zero means the generic one. -/
def ownOr {α : Type} [Zero α] [LT α] [DecidableLT α] (own generic : α) : α :=
  if 0 < own then own else generic

namespace RiskConfig

variable (cfg : RiskConfig)

def sniperPositionCap : ℚ := ownOr cfg.sniperMaxPositionQuote cfg.maxPositionQuote
def copyPositionCap : ℚ := ownOr cfg.copyMaxPositionQuote cfg.maxPositionQuote
def polyPositionCap : ℚ := ownOr cfg.polyMaxPositionQuote cfg.maxPositionQuote

def sniperPositionLimit : Nat := ownOr cfg.sniperMaxConcurrentPositions cfg.maxOpenPositions
def copyPositionLimit : Nat := ownOr cfg.copyMaxConcurrentPositions cfg.maxOpenPositions
def polyPositionLimit : Nat := ownOr cfg.polyMaxConcurrentPositions cfg.maxOpenPositions

def positionLimit : BotModule → Nat
  | .sniper => min cfg.sniperPositionLimit cfg.maxOpenPositions
  | .copy => min cfg.copyPositionLimit cfg.maxOpenPositions
  | .polymarket => min cfg.polyPositionLimit cfg.maxOpenPositions
  | _ => cfg.maxOpenPositions

def positionCap : BotModule → ℚ
  | .sniper => min cfg.sniperPositionCap cfg.maxPositionQuote
  | .copy => min cfg.copyPositionCap cfg.maxPositionQuote
  | .polymarket => min cfg.polyPositionCap cfg.maxPositionQuote
  | _ => cfg.maxPositionQuote

def exposureCap (module : BotModule) : ℚ :=
  let envelope := max (cfg.maxPositionQuote * cfg.maxOpenPositions) cfg.maxPositionQuote
  let tightened (own : ℚ) : ℚ := if 0 < own then min envelope own else envelope
  match module with
  | .sniper => tightened cfg.sniperMaxTotalExposureQuote
  | .copy => tightened cfg.copyMaxTotalExposureQuote
  | .polymarket => tightened cfg.polyMaxTotalExposureQuote
  | _ => envelope

end RiskConfig

/-! ## Requests and what is read for them -/

structure EntryRequest where
  module : BotModule
  venue : Venue
  symbol : String
  requestedQuote : ℚ
  availableQuote : ℚ
  slippageBps : Nat
  price : Option ℚ
  fairValue : Option ℚ
  liquidity : Option ℚ
  wallet : String
  strategy : String

namespace EntryRequest

variable (req : EntryRequest)

def walletLabel : String := if isBlank req.wallet then req.module.asStr else trim req.wallet

def strategyLabel : String := if isBlank req.strategy then req.module.asStr else trim req.strategy

def globalRequest (mode : ExecutionMode) : GlobalRiskRequest where
  module := req.module
  venue := req.venue
  wallet := req.walletLabel
  strategy := req.strategyLabel
  asset := req.symbol
  quoteAsset := quoteAssetFor req.venue
  requestedQuote := req.requestedQuote
  mode := mode

end EntryRequest

inductive RealizedPnlRead where
  | known (value : ℚ)
  | unavailable
  | incomplete

/-- What other components answer while a check is under way. The durable figures are `none`
without a store that has them; ages are in seconds. -/
structure Readings where
  killSwitch : Bool
  enabled : Bool
  lossLimitTripped : Bool
  realized : ℚ
  durableRealized : RealizedPnlRead
  moduleRealized : ℚ
  durableModuleRealized : RealizedPnlRead
  mode : ExecutionMode
  global : Setting
  context : DecisionContext
  openCount : Option Nat
  openSymbol : Option Bool
  openExposure : Option ℚ
  exitAge : Option Int
  failedEntryAge : Option Int
  attemptAge : Option Int
  pendingEntries : Nat

structure Ask where
  req : EntryRequest
  readings : Readings

/-- What all checks of one engine have in common: the digest that names a decision, the
configuration, and the tenant the engine is bound to. -/
structure Rules where
  decisionId : GlobalRiskRequest → Int → Nat → String
  risk : RiskConfig
  tenant : Option String

namespace Rules

variable (R : Rules)

/-- The more negative figure wins; an engine without a tenant may go by its own. -/
def effectiveRealized (own : ℚ) : RealizedPnlRead → Option ℚ
  | .known value => some (min own value)
  | .unavailable => if R.tenant.isNone then some own else none
  | .incomplete => none

def effectiveOpenCount (own : Nat) : Option Nat → Option Nat
  | some durable => some (max own durable)
  | none => if R.tenant.isNone then some own else none

def effectiveHasOpenSymbol (own : Bool) (durable : Option Bool) : Option Bool :=
  if R.tenant.isNone then some own else durable.map (own || ·)

def effectiveOpenExposure (own : ℚ) (durable : Option ℚ) : Option ℚ :=
  if R.tenant.isNone then some own else durable.map (max own ·)

/-! ## The checks in order -/

def lossCheck (limit own : ℚ) (durable : RealizedPnlRead) (code : RiskCode) :
    Except RiskCode Unit := do
  if 0 < limit then
    let realized ← okOr (R.effectiveRealized own durable) .globalUnavailable
    ensure (-limit < realized) code

def preflightCoded (r : Readings) (module : BotModule) : Except RiskCode Unit := do
  ensure (r.killSwitch = false) .killSwitch
  ensure r.enabled .moduleDisabled
  ensure (R.tenant.isNone → r.lossLimitTripped = false) .dailyLossLimit
  R.lossCheck R.risk.dailyLossLimitQuote r.realized r.durableRealized .dailyLossLimit
  match module with
  | .sniper =>
    ensure (R.risk.sniperEmergencyDisable = false) .sniperEmergencyDisabled
    R.lossCheck R.risk.sniperDailyLossLimitQuote r.moduleRealized r.durableModuleRealized
      .sniperDailyLoss
  | .copy =>
    ensure (R.risk.copyEmergencyDisable = false) .copyEmergencyDisabled
    R.lossCheck R.risk.copyDailyLossLimitQuote r.moduleRealized r.durableModuleRealized
      .copyDailyLoss
  | .polymarket =>
    ensure (R.risk.polyEmergencyDisable = false) .polyEmergencyDisabled
    R.lossCheck R.risk.polyDailyLossLimitQuote r.moduleRealized r.durableModuleRealized
      .polyDailyLoss
  | _ => pure ()

def checkRequest (ask : Ask) : Except RiskCode Unit := do
  R.preflightCoded ask.readings ask.req.module
  ensure (0 < ask.req.requestedQuote) .invalidSize
  ensure (0 ≤ ask.req.availableQuote) .insufficientBalance

end Rules

/-- The event lies back as long as the cooldown asks, if there is one. -/
def CooledDown (secs : Int) (age : Option Int) : Prop := 0 < secs → ∀ a ∈ age, secs ≤ a

instance (secs : Int) (age : Option Int) : Decidable (CooledDown secs age) :=
  inferInstanceAs (Decidable (0 < secs → ∀ a ∈ age, secs ≤ a))

def RiskConfig.throttle (cfg : RiskConfig) (r : Readings) : BotModule → Except RiskCode Unit
  | .sniper => do
    ensure (CooledDown cfg.sniperFailedEntryCooldownSecs r.failedEntryAge)
      .sniperFailedEntryCooldown
    ensure (CooledDown cfg.sniperTokenCooldownSecs r.attemptAge) .sniperTokenCooldown
    ensure (0 < cfg.sniperMaxPendingExecutions → r.pendingEntries < cfg.sniperMaxPendingExecutions)
      .sniperPendingCap
  | .copy => do
    ensure (CooledDown cfg.copyFailedEntryCooldownSecs r.failedEntryAge) .copyFailedEntryCooldown
    ensure (0 < cfg.copyMaxPendingExecutions → r.pendingEntries < cfg.copyMaxPendingExecutions)
      .copyPendingCap
  | _ => pure ()

namespace RiskConfig

variable (cfg : RiskConfig) (req : EntryRequest)

def spendable : ℚ :=
  req.availableQuote - if req.venue = .polymarketClob then 0 else cfg.minSolReserve

def fractionCap : ℚ := cfg.spendable req * max 0 (min 1 cfg.maxPositionFraction)

def size (exposure : ℚ) : ℚ :=
  let sized := min (min req.requestedQuote (cfg.positionCap req.module)) (cfg.fractionCap req)
  let cap := cfg.exposureCap req.module
  let sized := if cap < exposure + sized then max (cap - exposure) 0 else sized
  if cfg.spendable req < sized then cfg.spendable req else sized

def venueCheck : Except RiskCode Unit := do
  if req.venue = .polymarketClob then
    ensure (∀ price ∈ req.price, 0 < price ∧ price < 1) .venueCheck
    ensure (∀ price ∈ req.price, cfg.polyPriceFloor ≤ price ∧ price ≤ cfg.polyPriceCeiling)
      .venueCheck
    ensure (∀ liquidity ∈ req.liquidity, 0 ≤ liquidity ∧ cfg.polyMinLiquidityUsd ≤ liquidity)
      .venueCheck
    ensure (∀ fair ∈ req.fairValue, 0 ≤ fair ∧ fair ≤ 1) .venueCheck
    ensure (∀ price ∈ req.price, ∀ fair ∈ req.fairValue, cfg.polyMinEdge ≤ fair - price) .venueCheck

end RiskConfig

section

variable (entries : Entries) (now : Int) (module : BotModule) (organization : Option String)

/-- Entries in flight in the module and scope other than the caller's own. -/
def othersInFlight (excludeId : String) : Entries := entries.filter fun p =>
    p.1 ≠ excludeId ∧ now < p.2.expiresAt ∧ p.2.module = module ∧ p.2.organization = organization

/-- How many there are, what those in the same quote asset ask for, and whether one is for
the asset. -/
def reservedEntryUsage (quoteAsset asset excludeId : String) : Nat × ℚ × Bool :=
  let others := othersInFlight entries now module organization excludeId
  (others.length, ((others.filter (·.2.quoteAsset = quoteAsset)).map (·.2.requestedQuote)).sum,
    others.any (·.2.asset = asset))

end

namespace Rules

variable (R : Rules) (ask : Ask)

def checkCapacity (opened : List Position) (reservedCount : Nat) (reservedSymbol : Bool) :
    Except RiskCode Unit := do
  let count ← okOr (R.effectiveOpenCount opened.length ask.readings.openCount) .globalUnavailable
  ensure (count + reservedCount < R.risk.positionLimit ask.req.module) .maxOpenPositions
  let already ← okOr (R.effectiveHasOpenSymbol
    (opened.any (·.symbol = ask.req.symbol) || reservedSymbol) ask.readings.openSymbol)
    .globalUnavailable
  ensure (already = false) .duplicateSymbol
  ensure (CooledDown R.risk.reentryCooldownSecs ask.readings.exitAge) .reentryCooldown
  R.risk.throttle ask.readings ask.req.module
  ensure (0 < R.risk.spendable ask.req) .insufficientBalance

end Rules

inductive RiskVerdict where
  | allow
  | allowReduced
  | reject

structure RiskDecision where
  verdict : RiskVerdict
  code : Option RiskCode
  sizedQuote : ℚ
  requestedQuote : ℚ
  stopLoss : Option ℚ
  takeProfit : Option ℚ
  trailingStopPct : Option ℚ
  maxHoldSecs : Option Int

def RiskDecision.reject (code : RiskCode) (requested : ℚ) : RiskDecision where
  verdict := .reject
  code := some code
  sizedQuote := 0
  requestedQuote := requested
  stopLoss := none
  takeProfit := none
  trailingStopPct := none
  maxHoldSecs := none

def Rules.finish (R : Rules) (ask : Ask) (reservedExposure localExposure : ℚ) :
    Except RiskCode RiskDecision := do
  let durable ← okOr (R.effectiveOpenExposure localExposure ask.readings.openExposure)
    .globalUnavailable
  let exposure := durable + reservedExposure
  ensure (0 ≤ exposure) .globalUnavailable
  let sized := R.risk.size ask.req exposure
  ensure (0 < sized) .exposureCap
  R.risk.venueCheck ask.req
  pure
    { verdict := if |sized - ask.req.requestedQuote| < 1 / 10 ^ 12 then .allow else .allowReduced
      code := none
      sizedQuote := sized
      requestedQuote := ask.req.requestedQuote
      stopLoss := ask.req.price.map (· * (1 - R.risk.defaultStopLossPct))
      takeProfit := ask.req.price.map (· * (1 + R.risk.defaultTakeProfitPct))
      trailingStopPct := R.risk.trailingStopPct
      maxHoldSecs := R.risk.maxHoldSecs }

/-! ## What a passed check has established -/

variable {R : Rules} {ask : Ask}

/-- A size within every cap, next to what is at stake already. -/
structure Granted (cfg : RiskConfig) (req : EntryRequest) (exposure sized : ℚ) : Prop where
  pos : 0 < sized
  le_requested : sized ≤ req.requestedQuote
  le_positionCap : sized ≤ cfg.positionCap req.module
  le_fractionCap : sized ≤ cfg.fractionCap req
  le_spendable : sized ≤ cfg.spendable req
  fits : exposure + sized ≤ cfg.exposureCap req.module

theorem granted_size {cfg : RiskConfig} {req : EntryRequest} {exposure : ℚ}
    (hpos : 0 < cfg.size req exposure) : Granted cfg req exposure (cfg.size req exposure) := by
  let sized := min (min req.requestedQuote (cfg.positionCap req.module)) (cfg.fractionCap req)
  let clamped := if cfg.exposureCap req.module < exposure + sized then
    max (cfg.exposureCap req.module - exposure) 0 else sized
  have hsize : cfg.size req exposure =
    if cfg.spendable req < clamped then cfg.spendable req else clamped := rfl
  have hle : cfg.size req exposure ≤ clamped ∧ cfg.size req exposure ≤ cfg.spendable req := by
    rw [hsize]
    split
    · next h => exact ⟨h.le, le_rfl⟩
    · next h => exact ⟨le_rfl, not_lt.mp h⟩
  have hc : clamped ≤ sized ∧ exposure + clamped ≤ cfg.exposureCap req.module := by
    have hpos : 0 < clamped := hpos.trans_le hle.1
    by_cases ho : cfg.exposureCap req.module < exposure + sized
    · have hm : clamped = max (cfg.exposureCap req.module - exposure) 0 := if_pos ho
      have hr : clamped = cfg.exposureCap req.module - exposure := by
        rcases max_choice (cfg.exposureCap req.module - exposure) 0 with h | h
        · rw [hm, h]
        · rw [hm, h] at hpos
          exact absurd hpos (lt_irrefl 0)
      constructor <;> linarith
    · have hsa : clamped = sized := if_neg ho
      rw [hsa]
      exact ⟨le_rfl, not_lt.mp ho⟩
  have hsi : sized ≤ req.requestedQuote ∧ sized ≤ cfg.positionCap req.module ∧
      sized ≤ cfg.fractionCap req :=
    ⟨(min_le_left _ _).trans (min_le_left _ _), (min_le_left _ _).trans (min_le_right _ _),
      min_le_right _ _⟩
  constructor
  · exact hpos
  · linarith [hle.1, hc.1, hsi.1]
  · linarith [hle.1, hc.1, hsi.2.1]
  · linarith [hle.1, hc.1, hsi.2.2]
  · exact hle.2
  · linarith [hle.1, hc.2]

theorem le_of_effectiveOpenExposure {x y : ℚ} {durable : Option ℚ}
    (h : R.effectiveOpenExposure x durable = some y) : x ≤ y := by
  unfold Rules.effectiveOpenExposure at h
  split at h
  · exact (some.inj h).le
  · obtain ⟨z, -, rfl⟩ := map_eq_some_iff.mp h
    exact le_max_left _ _

theorem granted_of_finish {reserved own : ℚ} {decision : RiskDecision}
    (h : R.finish ask reserved own = .ok decision) :
    Granted R.risk ask.req (own + reserved) decision.sizedQuote := by
  obtain ⟨durable, hd, h⟩ := bind_eq_ok.mp h
  simp only [ensure_bind_eq_ok] at h
  obtain ⟨-, hpos, h⟩ := h
  obtain ⟨_, -, h⟩ := bind_eq_ok.mp h
  obtain rfl := Except.ok.inj h
  have hle := le_of_effectiveOpenExposure (okOr_eq_ok.mp hd)
  have hg := granted_size hpos
  refine { hg with fits := ?_ }
  have hf := hg.fits
  show _ + R.risk.size ask.req (durable + reserved) ≤ _
  linarith

theorem le_of_effectiveOpenCount {n m : Nat} {durable : Option Nat}
    (h : R.effectiveOpenCount n durable = some m) : n ≤ m := by
  unfold Rules.effectiveOpenCount at h
  split at h
  · obtain rfl := some.inj h
    exact le_max_left _ _
  · split at h
    · exact (some.inj h).le
    · cases h

theorem room_of_checkCapacity {opened : List Position} {count : Nat} {symbol : Bool} {u : Unit}
    (h : R.checkCapacity ask opened count symbol = .ok u) :
    opened.length + count < R.risk.positionLimit ask.req.module ∧
    (∀ p ∈ opened, p.symbol ≠ ask.req.symbol) ∧ symbol = false := by
  obtain ⟨n, hn, h⟩ := bind_eq_ok.mp h
  simp only [ensure_bind_eq_ok] at h
  obtain ⟨hr, h⟩ := h
  obtain ⟨already, ha, h⟩ := bind_eq_ok.mp h
  simp only [ensure_bind_eq_ok] at h
  obtain ⟨hno, -⟩ := h
  have hl : (opened.any (·.symbol = ask.req.symbol) || symbol) = false := by
    have hso := okOr_eq_ok.mp ha
    unfold Rules.effectiveHasOpenSymbol at hso
    split at hso
    · rw [some.inj hso, hno]
    · obtain ⟨_, -, ho⟩ := map_eq_some_iff.mp hso
      rw [hno, Bool.or_eq_false_iff] at ho
      exact ho.1
  rw [Bool.or_eq_false_iff, List.any_eq_false] at hl
  refine ⟨?_, fun p hp => by simpa using hl.1 p hp, hl.2⟩
  have hle := le_of_effectiveOpenCount (okOr_eq_ok.mp hn)
  omega

end SniperBot.Risk
