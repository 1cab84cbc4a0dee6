import SniperBot.Polymarket.Handlers

/-!
# Resolving the trades of an accepted order

An acceptance whose settlement is open is resolved from the venue's order and its list of trades,
asked for one after the other. Each answer comes with everything the venue showed at that moment,
so that a statement may compare what was concluded with what there was to see.
-/

namespace SniperBot.Polymarket

open Execution (trim isBlank)
open Reconciliation (eqIgnoreAsciiCase)

inductive TradeSettlement where
  | unseen
  | matched
  | settling (status : String)
  | confirmed (transactionHash : String) (bucketIndex : Option Int)
  | failed (status : String)
  deriving DecidableEq

namespace TradeSettlement

def asStr : TradeSettlement → String
  | unseen => "unseen"
  | matched => "matched"
  | settling _ => "settling"
  | confirmed _ _ => "confirmed"
  | failed _ => "failed"

def isTerminal : TradeSettlement → Bool
  | confirmed _ _ | failed _ => true
  | _ => false

end TradeSettlement

structure ClobTrade where
  id : String
  orderId : String
  assetId : String
  side : String
  size : Option ℚ
  price : Option ℚ
  status : String
  transactionHash : String
  bucketIndex : Option Int
  deriving DecidableEq

namespace ClobTrade

variable (trade : ClobTrade) (status : String)

def sizeF64 : ℚ := trade.size.getD 0

def priceF64 : ℚ := trade.price.getD 0

def HasStatus : Prop := eqIgnoreAsciiCase (trim trade.status) status = true

instance : Decidable (trade.HasStatus status) := inferInstanceAs (Decidable (_ = true))

end ClobTrade

def classifyTrade (trade : ClobTrade) : TradeSettlement :=
  if trade.HasStatus "CONFIRMED" then
    .confirmed (trim trade.transactionHash) trade.bucketIndex
  else if trade.HasStatus "FAILED" then .failed (trim trade.status)
  else if trade.HasStatus "MATCHED" then .matched
  -- mined, retrying or unknown to us: the venue has the trade, its outcome is not final
  else .settling (trim trade.status)

variable {trade : ClobTrade} {orderId : String} {requested : List String} {shown : Shown}
  {outcome : SettlementOutcome} {rounds : List Round} {order : ClobOrder}

theorem isTerminal_classifyTrade (h : (classifyTrade trade).isTerminal = true)
    (hf : ¬ trade.HasStatus "FAILED") :
    trade.HasStatus "CONFIRMED" := by
  unfold classifyTrade at h
  split_ifs at h with hc hm
  · exact hc
  · cases h
  · cases h

theorem classifyTrade_confirmed (h : trade.HasStatus "CONFIRMED") :
    classifyTrade trade = .confirmed (trim trade.transactionHash) trade.bucketIndex :=
  if_pos h

structure ResolvedTrade where
  tradeId : String
  orderId : String
  settlement : TradeSettlement
  size : ℚ
  price : ℚ
  assetId : String
  side : String
  deriving DecidableEq

namespace ResolvedTrade

def fromTrade (trade : ClobTrade) : ResolvedTrade where
  tradeId := trade.id
  orderId := trade.orderId
  settlement := classifyTrade trade
  size := trade.sizeF64
  price := trade.priceF64
  assetId := trade.assetId
  side := trade.side

theorem fromTrade_settlement (trade : ClobTrade) :
    (fromTrade trade).settlement = classifyTrade trade := by
  unfold fromTrade
  dsimp only

def unseen (orderId id : String) : ResolvedTrade where
  tradeId := id
  orderId := orderId
  settlement := .unseen
  size := 0
  price := 0
  assetId := ""
  side := ""

end ResolvedTrade

def ClobTrade.BelongsTo (trade : ClobTrade) (orderId : String) : Prop :=
  eqIgnoreAsciiCase (trim trade.orderId) (trim orderId) = true

instance (trade : ClobTrade) (orderId : String) : Decidable (trade.BelongsTo orderId) :=
  inferInstanceAs (Decidable (_ = true))

/-- Trades that were asked for, those of the order that have an id, and the requested ids that
the list does not have. The source keeps the latter in a hash map, in no particular order. -/
def projectTrades (trades : List ClobTrade) (orderId : String) (requested : List String) :
    List ResolvedTrade :=
  ((trades.filter fun trade =>
      trade.id ∈ requested ∨ (trade.BelongsTo orderId ∧ isBlank trade.id = false)).map
    ResolvedTrade.fromTrade) ++
  ((requested.dedup.filter fun id => id ∉ trades.map ClobTrade.id).map
    (ResolvedTrade.unseen orderId))

open List

theorem mem_projectTrades {trades : List ClobTrade} (hm : trade ∈ trades)
    (h : trade.id ∈ requested ∨ (trade.BelongsTo orderId ∧ isBlank trade.id = false)) :
    ResolvedTrade.fromTrade trade ∈ projectTrades trades orderId requested := by
  apply mem_append_left
  apply mem_map_of_mem
  rw [mem_filter]
  exact ⟨hm, decide_eq_true h⟩

def allTerminal (trades : List ResolvedTrade) : Bool :=
  !trades.isEmpty && trades.all fun t => t.settlement.isTerminal

theorem allTerminal_mem {trades : List ResolvedTrade} (h : allTerminal trades = true)
    {t : ResolvedTrade} (ht : t ∈ trades) : t.settlement.isTerminal = true := by
  have ha := (Bool.and_eq_true _ _ ▸ h).2
  exact all_eq_true.mp ha t ht

/-- What the venue shows at one moment: the order that was asked for, if it knows it, and the
list of trades. -/
structure Shown where
  order : Option ClobOrder
  trades : List ClobTrade
  deriving DecidableEq

abbrev Answer := Except String Shown

inductive SettlementOutcome where
  | allTerminal (trades : List ResolvedTrade)
  | stillSettling (trades : List ResolvedTrade)
  | orderUnknownOnVenue
  deriving DecidableEq

def orderUnknownVerdict (order : ClobOrder) : Option SettlementOutcome :=
  let s := trim order.status
  if eqIgnoreAsciiCase s "unmatched" || eqIgnoreAsciiCase s "canceled" ||
      eqIgnoreAsciiCase s "cancelled" || eqIgnoreAsciiCase s "expired" then
    some .orderUnknownOnVenue
  else none

/-- The venue does not know the order, or has it in a state that counts as if it did not. -/
def Shown.OrderGone (shown : Shown) : Prop :=
  ∀ order, shown.order = some order → orderUnknownVerdict order = some .orderUnknownOnVenue

theorem Shown.orderGone_of_none (h : shown.order = none) : shown.OrderGone := by
  intro order ho
  rw [h] at ho
  cases ho

theorem orderUnknownVerdict_eq (h : orderUnknownVerdict order = some outcome) :
    outcome = .orderUnknownOnVenue := by
  unfold orderUnknownVerdict at h
  dsimp only at h
  split_ifs at h
  exact (Option.some.inj h).symm

theorem Shown.orderGone_of_some (h : shown.order = some order)
    (ho : orderUnknownVerdict order = some outcome) : shown.OrderGone := by
  intro order' hor
  rw [h] at hor
  obtain rfl := Option.some.inj hor
  rw [ho, orderUnknownVerdict_eq ho]

/-- One round of a wait. After a list that is not final the clock is read, and again after the
pause; if the deadline has passed by then, the list is asked for a last time. -/
structure Round where
  order : Answer
  trades : Answer
  checkedAt : Nat
  wokenAt : Nat
  last : Answer

inductive Concludes (orderId : String) (requested : List String) :
    SettlementOutcome → Shown → Prop
  | gone {shown : Shown} : shown.OrderGone → Concludes orderId requested .orderUnknownOnVenue shown
  | terminal {shown : Shown} : allTerminal (projectTrades shown.trades orderId requested) = true →
      Concludes orderId requested
        (.allTerminal (projectTrades shown.trades orderId requested)) shown
  | settling {shown : Shown} : Concludes orderId requested
        (.stillSettling (projectTrades shown.trades orderId requested)) shown

/-- The wait on a sequence of rounds, `none` while it goes on. With the outcome comes what the
venue showed at the request that decided it. -/
def waitForSettlement (orderId : String) (requested : List String) (deadline : Nat) :
    List Round → Option (Except String (SettlementOutcome × Shown))
  | [] => none
  | round :: rest =>
    match round.order with
    | .error e => some (.error e)
    | .ok shown =>
      match shown.order with
      | none => some (.ok (.orderUnknownOnVenue, shown))
      | some order =>
        match orderUnknownVerdict order with
        | some verdict => some (.ok (verdict, shown))
        | none =>
          match round.trades with
          | .error e => some (.error e)
          | .ok shown =>
            let trades := projectTrades shown.trades orderId requested
            if allTerminal trades then some (.ok (.allTerminal trades, shown))
            else if deadline ≤ round.checkedAt then some (.ok (.stillSettling trades, shown))
            else if deadline ≤ round.wokenAt then
              match round.last with
              | .error e => some (.error e)
              | .ok shown =>
                let trades := projectTrades shown.trades orderId requested
                if allTerminal trades then some (.ok (.allTerminal trades, shown))
                else some (.ok (.stillSettling trades, shown))
            else waitForSettlement orderId requested deadline rest

/-- Every outcome of the wait is one of the rounds' answers, read as the source reads it: an
order that is gone by the answer to the question for the order, trades by the answer to one of
the questions for the list. -/
theorem waitForSettlement_concludes {deadline : Nat}
    (h : waitForSettlement orderId requested deadline rounds = some (.ok (outcome, shown))) :
    Concludes orderId requested outcome shown ∧ ∃ round ∈ rounds,
    if outcome = .orderUnknownOnVenue then round.order = .ok shown
    else round.trades = .ok shown ∨ round.last = .ok shown := by
  induction rounds with
  | nil => cases h
  | cons round rest ih =>
    rw [waitForSettlement] at h
    cases ho : round.order with
    | error e => simp only [ho] at h; cases h
    | ok before =>
      simp only [ho] at h
      cases hk : before.order with
      | none =>
        simp only [hk] at h
        cases h
        refine ⟨.gone (Shown.orderGone_of_none hk), round, mem_cons_self, ?_⟩
        rw [if_pos rfl]
        exact ho
      | some order =>
        simp only [hk] at h
        cases hv : orderUnknownVerdict order with
        | some verdict =>
          simp only [hv] at h
          cases h
          obtain rfl := orderUnknownVerdict_eq hv
          refine ⟨.gone (Shown.orderGone_of_some hk hv), round, mem_cons_self, ?_⟩
          rw [if_pos rfl]
          exact ho
        | none =>
          simp only [hv] at h
          cases htr : round.trades with
          | error e => simp only [htr] at h; cases h
          | ok listed =>
            simp only [htr] at h
            split_ifs at h with ha hla hw
            · cases h
              exact ⟨.terminal ha, round, mem_cons_self, Or.inl htr⟩
            · cases h
              exact ⟨.settling, round, mem_cons_self, Or.inl htr⟩
            · cases hl : round.last with
              | error e => simp only [hl] at h; cases h
              | ok final =>
                simp only [hl] at h
                split_ifs at h with hf
                · cases h
                  exact ⟨.terminal hf, round, mem_cons_self, Or.inr hl⟩
                · cases h
                  exact ⟨.settling, round, mem_cons_self, Or.inr hl⟩
            · obtain ⟨hc, r, hr, hsh⟩ := ih h
              exact ⟨hc, r, mem_cons_of_mem _ hr, hsh⟩

end SniperBot.Polymarket
