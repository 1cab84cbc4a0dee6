import Mathlib.Algebra.Order.BigOperators.Group.List
import SniperBot.Lib.Guard
import SniperBot.Orders.Manager

/-!
# The decision of the global risk engine

One request is judged against the configuration, the portfolio view of the ledger
and the entries in flight. Amounts are exact rationals, so the checks for finite
numbers are gone. Of a refusal only the reason is kept; its text and the journal
are left out. Times are milliseconds.
-/

namespace SniperBot.GlobalRisk

open Lib.Guard
open Execution (isBlank trim)
open Orders (ExecutionMode)
open Positions (BotModule)

inductive Venue where
  | pumpFun
  | pumpSwap
  | raydiumAmmV4
  | raydiumClmm
  | raydiumCpmm
  | raydiumLaunchLab
  | jupiter
  | polymarketClob
  | paper
  deriving DecidableEq

def Venue.asStr : Venue → String
  | .pumpFun => "pump.fun"
  | .pumpSwap => "pumpswap"
  | .raydiumAmmV4 => "raydium-amm-v4"
  | .raydiumClmm => "raydium-clmm"
  | .raydiumCpmm => "raydium-cpmm"
  | .raydiumLaunchLab => "raydium-launchlab"
  | .jupiter => "jupiter"
  | .polymarketClob => "polymarket"
  | .paper => "paper"

inductive GlobalRejectReason where
  | globalKillSwitch
  | venueKillSwitch
  | strategyKillSwitch
  | referenceRateMissing
  | maxOpenPositions
  | orderNotional
  | portfolioExposure
  | walletExposure
  | venueExposure
  | strategyExposure
  | assetExposure
  | dailyLoss
  | drawdown
  | invalidRequest
  | invalidPortfolio
  deriving DecidableEq

structure GlobalRiskRequest where
  module : BotModule
  venue : Venue
  wallet : String
  strategy : String
  asset : String
  quoteAsset : String
  requestedQuote : ℚ
  mode : ExecutionMode
  deriving DecidableEq

structure PositionKey where
  module : BotModule
  venue : Venue
  wallet : String
  strategy : String
  asset : String
  quoteAsset : String
  mode : ExecutionMode
  deriving DecidableEq

def GlobalRiskRequest.key (req : GlobalRiskRequest) : PositionKey :=
  ⟨req.module, req.venue, req.wallet, req.strategy, req.asset, req.quoteAsset, req.mode⟩

/-! ## Configuration -/

structure GlobalRiskConfig where
  referenceAsset : String
  referenceRates : List (String × ℚ)
  capitalBaseRef : ℚ
  maxPortfolioExposureRef : ℚ
  maxWalletExposureRef : ℚ
  maxVenueExposureRef : ℚ
  maxStrategyExposureRef : ℚ
  maxAssetExposureRef : ℚ
  maxOpenPositions : Nat
  maxOrderNotionalRef : ℚ
  maxDailyLossRef : ℚ
  maxDrawdownRef : ℚ
  maxDrawdownPct : ℚ

instance : Inhabited GlobalRiskConfig :=
  ⟨{ referenceAsset := "USD", referenceRates := [("USDC", 1)], capitalBaseRef := 0,
     maxPortfolioExposureRef := 0, maxWalletExposureRef := 0, maxVenueExposureRef := 0,
     maxStrategyExposureRef := 0, maxAssetExposureRef := 0, maxOpenPositions := 0,
     maxOrderNotionalRef := 0, maxDailyLossRef := 0, maxDrawdownRef := 0, maxDrawdownPct := 0 }⟩

inductive Dimension where
  | portfolio
  | wallet
  | venue
  | strategy
  | asset
  deriving DecidableEq

open Dimension

/-- In the order in which the caps are checked. -/
def Dimension.all : List Dimension := [.portfolio, .wallet, .venue, .strategy, .asset]

variable (d : Dimension) (entry : ReservedEntry)

theorem Dimension.mem_all : d ∈ all := by
  cases d <;> decide

def Dimension.reason : Dimension → GlobalRejectReason
  | .portfolio => .portfolioExposure
  | .wallet => .walletExposure
  | .venue => .venueExposure
  | .strategy => .strategyExposure
  | .asset => .assetExposure

/-- The slice of a dimension that a request falls in. The portfolio has one slice. -/
def Dimension.slice (req : GlobalRiskRequest) : String :=
  match d with
  | .portfolio => ""
  | .wallet => req.wallet
  | .venue => req.venue.asStr
  | .strategy => req.strategy
  | .asset => req.asset

namespace GlobalRiskConfig

variable (cfg : GlobalRiskConfig) (quoteAsset : String)

def limit : Dimension → ℚ
  | .portfolio => cfg.maxPortfolioExposureRef
  | .wallet => cfg.maxWalletExposureRef
  | .venue => cfg.maxVenueExposureRef
  | .strategy => cfg.maxStrategyExposureRef
  | .asset => cfg.maxAssetExposureRef

def isValid : Bool := !isBlank cfg.referenceAsset &&
    [cfg.capitalBaseRef, cfg.maxPortfolioExposureRef, cfg.maxWalletExposureRef,
      cfg.maxVenueExposureRef, cfg.maxStrategyExposureRef, cfg.maxAssetExposureRef,
      cfg.maxOrderNotionalRef, cfg.maxDailyLossRef, cfg.maxDrawdownRef].all (0 ≤ ·) &&
    (0 ≤ cfg.maxDrawdownPct && cfg.maxDrawdownPct ≤ 1) &&
    cfg.referenceRates.all fun p => !isBlank p.1 && 0 < p.2

/-- The tighter of the absolute limit and the fraction of the capital base. -/
def effectiveDrawdownLimit : Option ℚ :=
  let pct := if 0 < cfg.maxDrawdownPct ∧ 0 < cfg.capitalBaseRef then
    some (cfg.capitalBaseRef * cfg.maxDrawdownPct) else none
  match (if 0 < cfg.maxDrawdownRef then some cfg.maxDrawdownRef else none), pct with
  | some a, some p => some (min a p)
  | some a, none => some a
  | none, pct => pct

def anyExposureCap : Bool := all.any fun d => 0 < cfg.limit d

def needsReferenceRates : Bool :=
  cfg.anyExposureCap || 0 < cfg.maxOrderNotionalRef || 0 < cfg.maxDailyLossRef ||
    cfg.effectiveDrawdownLimit.isSome

def aggregateLimitsEnabled : Bool :=
  cfg.anyExposureCap || 0 < cfg.maxDailyLossRef || 0 < cfg.maxDrawdownRef ||
    0 < cfg.maxDrawdownPct || 0 < cfg.maxOpenPositions

def rate : Option ℚ := (cfg.referenceRates.lookup quoteAsset).filter (0 < ·)

theorem rate_pos {cfg : GlobalRiskConfig} {quoteAsset : String} {r : ℚ}
    (h : cfg.rate quoteAsset = some r) : 0 < r := by
  obtain ⟨-, hpos⟩ := Option.filter_eq_some_iff.mp h
  simpa using hpos

end GlobalRiskConfig

/-! ## What a decision reads -/

/-- The part of the ledger's portfolio view that decisions use: exposure in reference
units, in total and by slice. -/
structure PortfolioView where
  totalExposureRef : ℚ
  byWallet : List (String × ℚ)
  byVenue : List (String × ℚ)
  byStrategy : List (String × ℚ)
  byAsset : List (String × ℚ)
  openPositions : Nat
  realizedTodayRef : ℚ
  unrealizedRef : ℚ
  peakRealizedRef : ℚ
  cumulativeRealizedRef : ℚ
  missingRates : List String
  missingDailyLossRates : List String
  missingDrawdownRates : List String

instance : Inhabited PortfolioView :=
  ⟨{ totalExposureRef := 0, byWallet := [], byVenue := [], byStrategy := [], byAsset := [],
     openPositions := 0, realizedTodayRef := 0, unrealizedRef := 0, peakRealizedRef := 0,
     cumulativeRealizedRef := 0, missingRates := [], missingDailyLossRates := [],
     missingDrawdownRates := [] }⟩

namespace PortfolioView

def exposure (view : PortfolioView) (d : Dimension) (slice : String) : ℚ :=
  match d with
  | .portfolio => view.totalExposureRef
  | .wallet => (view.byWallet.lookup slice).getD 0
  | .venue => (view.byVenue.lookup slice).getD 0
  | .strategy => (view.byStrategy.lookup slice).getD 0
  | .asset => (view.byAsset.lookup slice).getD 0

def drawdownRef (view : PortfolioView) : ℚ :=
  max (view.peakRealizedRef - (view.cumulativeRealizedRef + view.unrealizedRef)) 0

end PortfolioView

structure ReservedEntry where
  module : BotModule
  organization : Option String
  wallet : String
  venue : String
  strategy : String
  asset : String
  quoteAsset : String
  requestedQuote : ℚ
  requestedRef : ℚ
  expiresAt : Int
  distributed : Bool

def Dimension.ofEntry : String :=
  match d with
  | .portfolio => ""
  | .wallet => entry.wallet
  | .venue => entry.venue
  | .strategy => entry.strategy
  | .asset => entry.asset

/-- What stays fixed while decisions are made: the configuration, the ledger with its
open positions, and the switches; and the digest of a request, the time in milliseconds
and a sequence number that names a decision. -/
structure Setting where
  decisionId : GlobalRiskRequest → Int → Nat → String
  cfg : GlobalRiskConfig
  view : PortfolioView
  isOpen : PositionKey → Bool
  venueKilled : Venue → Bool
  strategyKilled : String → Bool

structure DecisionContext where
  globalKill : Bool
  /-- Whether the ledger was refreshed and is known to be complete, and the number of
  events it has not worked in. -/
  refreshed : Bool
  ready : Bool
  pendingEvents : Nat
  deriving DecidableEq

structure DecisionSnapshot where
  requestedRef : ℚ
  rate : ℚ
  portfolioRef : ℚ
  walletRef : ℚ
  venueRef : ℚ
  strategyRef : ℚ
  assetRef : ℚ
  openPositions : Nat
  realizedTodayRef : ℚ
  drawdownRef : ℚ
  capitalBaseRef : ℚ

namespace DecisionSnapshot

def current (s : DecisionSnapshot) : Dimension → ℚ
  | .portfolio => s.portfolioRef
  | .wallet => s.walletRef
  | .venue => s.venueRef
  | .strategy => s.strategyRef
  | .asset => s.assetRef

def ofView (S : Setting) (req : GlobalRiskRequest) : DecisionSnapshot where
  requestedRef := req.requestedQuote * (S.cfg.rate req.quoteAsset).getD 0
  rate := (S.cfg.rate req.quoteAsset).getD 0
  portfolioRef := S.view.exposure .portfolio (portfolio.slice req)
  walletRef := S.view.exposure .wallet (wallet.slice req)
  venueRef := S.view.exposure .venue (venue.slice req)
  strategyRef := S.view.exposure .strategy (strategy.slice req)
  assetRef := S.view.exposure .asset (asset.slice req)
  openPositions := S.view.openPositions
  realizedTodayRef := S.view.realizedTodayRef
  drawdownRef := S.view.drawdownRef
  capitalBaseRef := S.cfg.capitalBaseRef

def addEntry (req : GlobalRiskRequest) (ts : Int) (s : DecisionSnapshot) (e : ReservedEntry) :
    DecisionSnapshot :=
  if e.expiresAt ≤ ts ∨ e.organization.isSome then s
  else
    { s with
      portfolioRef := s.portfolioRef + e.requestedRef
      walletRef := if e.wallet = req.wallet then s.walletRef + e.requestedRef else s.walletRef
      venueRef := if e.venue = req.venue.asStr then s.venueRef + e.requestedRef else s.venueRef
      strategyRef :=
        if e.strategy = req.strategy then s.strategyRef + e.requestedRef else s.strategyRef
      assetRef := if e.asset = req.asset then s.assetRef + e.requestedRef else s.assetRef
      openPositions := s.openPositions + 1 }

end DecisionSnapshot

abbrev Entries := List (String × ReservedEntry)

open DecisionSnapshot

variable (S : Setting) (entries : Entries) (ts : Int) (req : GlobalRiskRequest)

def takeSnapshot : DecisionSnapshot :=
  (entries.map Prod.snd).foldl (addEntry req ts) (.ofView S req)

def isTrimmed (s : String) : Bool := !isBlank s && trim s == s

/-- Judge a request; the first check that fails gives the reason. -/
def decideInner (ctx : DecisionContext) (entries : Entries) (ts : Int)
    (req : GlobalRiskRequest) : Except GlobalRejectReason DecisionSnapshot := do
  ensure (0 < req.requestedQuote) .invalidRequest
  ensure ([req.wallet, req.strategy, req.asset, req.quoteAsset].all isTrimmed) .invalidRequest
  ensure (ctx.globalKill = false) .globalKillSwitch
  ensure (S.venueKilled req.venue = false) .venueKillSwitch
  ensure (S.strategyKilled req.strategy = false) .strategyKillSwitch
  ensure S.cfg.isValid .invalidPortfolio
  ensure (S.cfg.aggregateLimitsEnabled → ctx.ready ∧ ctx.refreshed ∧ ctx.pendingEvents = 0)
    .invalidPortfolio
  let snapshot := takeSnapshot S entries ts req
  ensure (S.cfg.needsReferenceRates → (S.cfg.rate req.quoteAsset).isSome) .referenceRateMissing
  ensure (S.cfg.needsReferenceRates → S.view.missingRates = []) .referenceRateMissing
  ensure (0 < S.cfg.maxDailyLossRef → S.view.missingDailyLossRates = []) .referenceRateMissing
  ensure (S.cfg.effectiveDrawdownLimit.isSome → S.view.missingDrawdownRates = [])
    .referenceRateMissing
  -- the number of open positions is that of the ledger, without the entries in flight
  ensure (0 < S.cfg.maxOpenPositions →
    S.isOpen req.key ∨ S.view.openPositions < S.cfg.maxOpenPositions) .maxOpenPositions
  ensure (0 < S.cfg.maxOrderNotionalRef → snapshot.requestedRef ≤ S.cfg.maxOrderNotionalRef)
    .orderNotional
  all.forM fun d =>
    ensure (0 < S.cfg.limit d → snapshot.current d + snapshot.requestedRef ≤ S.cfg.limit d) d.reason
  ensure (0 < S.cfg.maxDailyLossRef → -S.cfg.maxDailyLossRef < snapshot.realizedTodayRef) .dailyLoss
  ensure (∀ limit ∈ S.cfg.effectiveDrawdownLimit, snapshot.drawdownRef < limit) .drawdown
  pure snapshot

/-- Judge a tenant's request, without the portfolio: a limit that would need it refuses the
request. -/
def decideTenantInner (ctx : DecisionContext) (req : GlobalRiskRequest) :
    Except GlobalRejectReason ℚ := do
  ensure (0 < req.requestedQuote) .invalidRequest
  ensure ([req.wallet, req.strategy, req.asset, req.quoteAsset].all isTrimmed) .invalidRequest
  ensure (ctx.globalKill = false) .globalKillSwitch
  ensure (S.venueKilled req.venue = false) .venueKillSwitch
  ensure (S.strategyKilled req.strategy = false) .strategyKillSwitch
  ensure S.cfg.isValid .invalidPortfolio
  let rate := S.cfg.referenceRates.lookup req.quoteAsset
  ensure (0 < S.cfg.maxOrderNotionalRef → rate.isSome) .referenceRateMissing
  let requestedRef := if 0 < S.cfg.maxOrderNotionalRef then req.requestedQuote * rate.getD 0 else 0
  ensure (0 < S.cfg.maxOrderNotionalRef → requestedRef ≤ S.cfg.maxOrderNotionalRef) .orderNotional
  ensure (S.cfg.aggregateLimitsEnabled = false) .invalidPortfolio
  pure requestedRef

def quoteAssetFor : Venue → String
  | .polymarketClob => "USDC"
  | _ => "SOL"

/-! ## What an accepted request was checked against -/

variable (e : ReservedEntry) (es : List ReservedEntry)

def ReservedEntry.Counts (ts : Int) (d : Dimension) (slice : String) : Prop :=
  ts < e.expiresAt ∧ e.organization = none ∧ d.ofEntry e = slice

instance  (ts : Int) (d : Dimension) (slice : String) : Decidable (e.Counts ts d slice) :=
  inferInstanceAs (Decidable (_ ∧ _))

def reservedRef (entries : List ReservedEntry) (ts : Int) (d : Dimension) (slice : String) : ℚ :=
  ((entries.filter (·.Counts ts d slice)).map ReservedEntry.requestedRef).sum

theorem reservedRef_cons (ts : Int) (d : Dimension) (slice : String) :
    reservedRef (e :: es) ts d slice =
    (if e.Counts ts d slice then e.requestedRef else 0) + reservedRef es ts d slice := by
  unfold reservedRef
  by_cases h : e.Counts ts d slice
  · simp [h]
  · simp [h]

section

variable (req : GlobalRiskRequest) (ts : Int) (s : DecisionSnapshot) (e : ReservedEntry)

theorem current_addEntry (d : Dimension) : (s.addEntry req ts e).current d =
    s.current d + if e.Counts ts d (d.slice req) then e.requestedRef else 0 := by
  by_cases hsk : e.expiresAt ≤ ts ∨ e.organization.isSome = true
  · have hn : ¬ e.Counts ts d (d.slice req) := by
      intro ⟨hl, ho, _⟩
      rcases hsk with h | h
      · omega
      · simp [ho] at h
    rw [addEntry, if_pos hsk, if_neg hn, add_zero]
  · have hc : e.Counts ts d (d.slice req) ↔ d.ofEntry e = d.slice req := by
      push Not at hsk
      simp only [Bool.not_eq_true, Option.isSome_eq_false_iff, Option.isNone_iff_eq_none] at hsk
      simp [ReservedEntry.Counts, hsk.1, hsk.2]
    rw [addEntry, if_neg hsk]
    by_cases hsl : d.ofEntry e = d.slice req
    · rw [if_pos (hc.mpr hsl)]
      cases d with
      | portfolio => rfl
      | wallet | venue | strategy | asset => exact if_pos hsl
    · rw [if_neg (hc.not.mpr hsl), add_zero]
      cases d with
      | portfolio => exact absurd rfl hsl
      | wallet | venue | strategy | asset => exact if_neg hsl

theorem requestedRef_addEntry : (s.addEntry req ts e).requestedRef = s.requestedRef := by
  unfold addEntry
  split <;> rfl

end

theorem current_ofView (req : GlobalRiskRequest) (d : Dimension) :
    (ofView S req).current d = S.view.exposure d (d.slice req) := by
  cases d <;> rfl

theorem current_takeSnapshot :
    (takeSnapshot S entries ts req).current d = S.view.exposure d (d.slice req) +
      reservedRef (entries.map Prod.snd) ts d (d.slice req) := by
  have hf : ∀ (es : List ReservedEntry) (s : DecisionSnapshot),
      (es.foldl (addEntry req ts) s).current d =
        s.current d + reservedRef es ts d (d.slice req) := by
    intro es
    induction es with
    | nil => simp [reservedRef]
    | cons e es ih =>
      intro s
      rw [List.foldl_cons, ih, current_addEntry, reservedRef_cons, add_assoc]
  rw [takeSnapshot, hf, current_ofView]

theorem requestedRef_takeSnapshot : (takeSnapshot S entries ts req).requestedRef =
    req.requestedQuote * (S.cfg.rate req.quoteAsset).getD 0 := by
  have hf : ∀ (es : List ReservedEntry) (s : DecisionSnapshot),
      (es.foldl (addEntry req ts) s).requestedRef = s.requestedRef := by
    intro es
    induction es with
    | nil => exact fun _ => rfl
    | cons e es ih =>
      intro s
      rw [List.foldl_cons, ih, requestedRef_addEntry]
  exact hf _ _

structure Admits (requestedRef : ℚ) : Prop where
  nonneg : 0 ≤ requestedRef
  slot : 0 < S.cfg.maxOpenPositions →
    S.isOpen req.key = true ∨ S.view.openPositions < S.cfg.maxOpenPositions
  fits : ∀ d, 0 < S.cfg.limit d →
    S.view.exposure d (d.slice req) + reservedRef (entries.map Prod.snd) ts d (d.slice req) +
      requestedRef ≤ S.cfg.limit d

theorem admits_of_decideInner {S : Setting} {ctx : DecisionContext} {entries : Entries} {ts : Int}
    {req : GlobalRiskRequest} {s : DecisionSnapshot}
    (h : decideInner S ctx entries ts req = .ok s) : Admits S entries ts req s.requestedRef := by
  simp only [decideInner, ensure_bind_eq_ok] at h
  obtain ⟨hsize, -, -, -, -, -, -, -, -, -, -, hsl, -, h⟩ := h
  obtain ⟨_, hc, h⟩ := bind_eq_ok.mp h
  simp only [ensure_bind_eq_ok] at h
  obtain ⟨-, -, hs⟩ := h
  obtain rfl := Except.ok.inj hs
  refine ⟨?_, hsl, fun d hd => ?_⟩
  · rw [requestedRef_takeSnapshot]
    refine mul_nonneg hsize.le ?_
    cases hr : S.cfg.rate req.quoteAsset with
    | none => exact le_rfl
    | some r => exact (GlobalRiskConfig.rate_pos hr).le
  · have hca := ensure_eq_ok.mp (forM_eq_ok.mp hc d d.mem_all) hd
    rwa [current_takeSnapshot] at hca

end SniperBot.GlobalRisk
