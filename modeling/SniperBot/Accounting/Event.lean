import SniperBot.GlobalRisk.Engine

/-!
# Accounting events

The only way money moves through the global ledger. Amounts are exact rationals, so the
checks for finite numbers are gone.
-/

namespace SniperBot.Accounting

open Execution (isBlank)
open GlobalRisk (PositionKey Venue)
open Lib.Guard
open Orders (ExecutionMode)
open Positions (BotModule)

inductive EventKind where
  | fill
  | fee
  | settlement
  | deposit
  | withdrawal
  | transfer
  | fundingAdjustment
  | correction
  deriving DecidableEq

def EventKind.asStr : EventKind → String
  | .fill => "fill"
  | .fee => "fee"
  | .settlement => "settlement"
  | .deposit => "deposit"
  | .withdrawal => "withdrawal"
  | .transfer => "transfer"
  | .fundingAdjustment => "funding_adjustment"
  | .correction => "correction"

/-- Kinds that change how much of an asset is held. -/
def EventKind.movesInventory : EventKind → Bool
  | .fill | .settlement | .correction => true
  | .fee | .deposit | .withdrawal | .transfer | .fundingAdjustment => false

inductive EventSide where
  | buy
  | sell
  deriving DecidableEq

def EventSide.asStr : EventSide → String
  | .buy => "buy"
  | .sell => "sell"

structure AccountingEvent where
  kind : EventKind
  module : BotModule
  venue : Venue
  wallet : String
  strategy : String
  asset : String
  quoteAsset : String
  /-- Missing for the kinds that only move cash. -/
  side : Option EventSide
  quantity : ℚ
  price : Option ℚ
  /-- The cash that moved: spent with the fee, or received after the fee. -/
  quoteAmount : ℚ
  fee : ℚ
  mode : ExecutionMode
  referenceId : String
  correlationId : Option String
  positionId : Option String
  tradeId : Option String
  counterpartyWallet : Option String
  ts : Int
  detail : String
  deriving DecidableEq

namespace AccountingEvent

variable (e : AccountingEvent)

def key : PositionKey := ⟨e.module, e.venue, e.wallet, e.strategy, e.asset, e.quoteAsset, e.mode⟩

private def missing (text : Option String) : Prop := isBlank (text.getD "") = true

instance (text : Option String) : Decidable (missing text) := inferInstanceAs (Decidable (_ = true))

def validateKind : Except String Unit :=
  match e.kind with
  | .fill | .settlement => do
    ensure (e.side ≠ none) (e.kind.asStr ++ " requires a side")
    ensure (0 < e.quantity) (e.kind.asStr ++ " requires quantity > 0")
  | .correction => do
    ensure (e.side ≠ none) "correction requires a side"
    ensure (0 < e.quantity ∨ 0 < e.quoteAmount) "correction must move quantity or cash"
    ensure (¬ missing e.correlationId) "correction must reference the finding / ticket it answers"
  | .transfer => do
    ensure (¬ missing e.counterpartyWallet) "transfer requires counterparty_wallet"
    ensure (0 < e.quoteAmount) "transfer requires quote_amount > 0"
  | .deposit | .withdrawal | .fundingAdjustment =>
    ensure (0 < e.quoteAmount ∨ 0 < e.fee) (e.kind.asStr ++ " requires quote_amount > 0")
  | .fee => ensure (0 < e.fee ∨ 0 < e.quoteAmount) "fee event requires fee > 0"

def validate : Except String Unit := do
  ensure (isBlank e.wallet = false) "wallet must not be empty"
  ensure (isBlank e.referenceId = false) "reference_id must not be empty"
  ensure (isBlank e.asset = false) "asset must not be empty"
  ensure (isBlank e.quoteAsset = false) "quote_asset must not be empty"
  [("quantity", e.quantity), ("quote_amount", e.quoteAmount), ("fee", e.fee)].forM
    fun (label, v) => ensure (0 ≤ v) (label ++ " must be >= 0")
  ensure (∀ p ∈ e.price, 0 ≤ p) "price must be finite and >= 0"
  e.validateKind

theorem amounts_and_kind_of_validate (h : e.validate = .ok ()) :
    (0 ≤ e.quantity ∧ 0 ≤ e.quoteAmount ∧ 0 ≤ e.fee) ∧ e.validateKind = .ok () := by
  obtain ⟨-, h⟩ := ensure_bind_eq_ok.mp h
  obtain ⟨-, h⟩ := ensure_bind_eq_ok.mp h
  obtain ⟨-, h⟩ := ensure_bind_eq_ok.mp h
  obtain ⟨-, h⟩ := ensure_bind_eq_ok.mp h
  obtain ⟨_, ha, h⟩ := bind_eq_ok.mp h
  obtain ⟨-, hk⟩ := ensure_bind_eq_ok.mp h
  have hl := forM_eq_ok.mp ha
  simp only [List.forall_mem_cons, ensure_eq_ok] at hl
  exact ⟨⟨hl.1, hl.2.1, hl.2.2.1⟩, hk⟩

theorem receiver_of_validate (h : e.validate = .ok ()) (hk : e.kind = .transfer) :
    ∃ receiver, e.counterpartyWallet = some receiver := by
  have hv := (amounts_and_kind_of_validate e h).2
  unfold validateKind at hv
  rw [hk] at hv
  obtain ⟨hn, -⟩ := ensure_bind_eq_ok.mp hv
  cases hw : e.counterpartyWallet with
  | some receiver => exact ⟨receiver, rfl⟩
  | none =>
    rw [hw] at hn
    exact (hn rfl).elim

end AccountingEvent

def fillEvent (key : PositionKey) (side : EventSide) (quantity price quoteAmount fee : ℚ)
    (referenceId : String) (correlationId positionId : Option String) (ts : Int)
    (detail : String) : AccountingEvent where
  kind := .fill
  module := key.module
  venue := key.venue
  wallet := key.wallet
  strategy := key.strategy
  asset := key.asset
  quoteAsset := key.quoteAsset
  side := some side
  quantity := quantity
  price := some price
  quoteAmount := quoteAmount
  fee := fee
  mode := key.mode
  referenceId := referenceId
  correlationId := correlationId
  positionId := positionId
  tradeId := none
  counterpartyWallet := none
  ts := ts
  detail := detail

end SniperBot.Accounting
