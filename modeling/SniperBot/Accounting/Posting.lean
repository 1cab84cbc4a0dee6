import SniperBot.Accounting.Book
import SniperBot.Flags.Replica
import SniperBot.Lib.DoubleEntry

/-!
# Double-entry postings

Every event becomes the lines of one entry, in its quote asset. The lines and the book are
worked out apart from each other; what the book tells the lines is the cost of what a sale
takes away. The digest behind the id of an event is a parameter.
-/

namespace SniperBot.Accounting

open Execution (trim)
open GlobalRisk (PositionKey)
open Lib.DoubleEntry
open Lib.Guard

open AccountingEvent

/-- The id names the fact, not its amounts. -/
def AccountingEvent.eventId (sha : String → String) (e : AccountingEvent) : String :=
  let text := "ledger-event-v1|" ++ e.kind.asStr ++ "|" ++ e.module.asStr ++ "|" ++
    e.venue.asStr ++ "|" ++ trim e.wallet ++ "|" ++ trim e.referenceId
  "led_" ++ String.ofList ((sha text).toList.take 40)

def AccountingEvent.grossQuote (e : AccountingEvent) : ℚ :=
  match e.side with
  | some .sell => e.quoteAmount + e.fee
  | _ => e.quoteAmount

inductive Account where
  | cash
  | inventory
  | fees
  | realizedPnl
  | equity
  | funding
  | adjustments
  deriving DecidableEq

abbrev EntrySide := Side

structure Posting where
  eventId : String
  seq : ℕ
  account : Account
  wallet : String
  asset : String
  side : EntrySide
  amount : ℚ
  quantity : ℚ
  baseAsset : Option String
  deriving DecidableEq

structure PostingError where
  invalid : String
  deriving DecidableEq

def PostingError.text (err : PostingError) : String := "invalid accounting event: " ++ err.invalid

structure Entry where
  postings : List Posting
  deriving DecidableEq

namespace Entry

variable (entry : Entry)

open Posting

def totals : ℚ × ℚ := Lib.DoubleEntry.totals side amount entry.postings

def isBalanced : Bool :=
  let (d, c) := entry.totals
  decide (|d - c| ≤ 1 / 10 ^ 9 * max (max |d| |c|) 1)

/-- What an account moved by: debits up, credits down. -/
def net (account : Account) : ℚ := Lib.DoubleEntry.net side amount
    (entry.postings.filter fun p => p.account = account)

def netOf (account : Account) (wallet : String) : ℚ := Lib.DoubleEntry.net side amount
    (entry.postings.filter fun p => p.account = account ∧ p.wallet = wallet)

end Entry

structure Leg where
  account : Account
  wallet : String
  side : EntrySide
  amount : ℚ
  quantity : ℚ
  base : Option String

/-- A line of nothing is left out, and a negative amount changes its side. -/
def push (eventId asset : String) (lines : List Posting) (leg : Leg) : List Posting :=
  if |leg.amount| ≤ 0 ∧ |leg.quantity| ≤ 0 then lines
  else
    let (side, amount) := normal leg.side leg.amount
    lines ++ [{
      eventId := eventId
      seq := lines.length
      account := leg.account
      wallet := leg.wallet
      asset := asset
      side := side
      amount := amount
      quantity := leg.quantity
      baseAsset := leg.base }]

namespace AccountingEvent

variable (sha : String → String) (e : AccountingEvent) (costOfSlice : ℚ)

/-- The account that pays for a trade; a correction moves no money. -/
def cashAccount : Account := if e.kind = .correction then .adjustments else .cash

def tradeLegs : List Leg :=
  let q := e.quoteAmount
  let f := e.fee
  let w := e.wallet
  match e.side.getD .buy with
  | .buy =>
    [⟨.inventory, w, .debit, max (q - f) 0, e.quantity, some e.asset⟩,
      ⟨.fees, w, .debit, f, 0, none⟩,
      ⟨e.cashAccount, w, .credit, q, 0, none⟩]
  | .sell =>
    let c := max costOfSlice 0
    [⟨e.cashAccount, w, .debit, q, 0, none⟩, ⟨.fees, w, .debit, f, 0, none⟩,
      ⟨.inventory, w, .credit, c, e.quantity, some e.asset⟩,
      ⟨.realizedPnl, w, .credit, q + f - c, 0, none⟩]

def legs : List Leg :=
  let q := e.quoteAmount
  let f := e.fee
  let w := e.wallet
  match e.kind with
  | .fill | .settlement | .correction => e.tradeLegs costOfSlice
  | .fee =>
    let amount := if 0 < f then f else q
    [⟨.fees, w, .debit, amount, 0, none⟩, ⟨.cash, w, .credit, amount, 0, none⟩]
  | .deposit => [⟨.cash, w, .debit, q, 0, none⟩, ⟨.equity, w, .credit, q, 0, none⟩]
  | .withdrawal =>
    [⟨.equity, w, .debit, q, 0, none⟩, ⟨.fees, w, .debit, f, 0, none⟩,
      ⟨.cash, w, .credit, q + f, 0, none⟩]
  | .transfer =>
    [⟨.cash, e.counterpartyWallet.getD "", .debit, q, 0, none⟩, ⟨.fees, w, .debit, f, 0, none⟩,
      ⟨.cash, w, .credit, q + f, 0, none⟩]
  | .fundingAdjustment =>
    match e.side with
    | some .sell => [⟨.funding, w, .debit, q, 0, none⟩, ⟨.cash, w, .credit, q, 0, none⟩]
    | _ => [⟨.cash, w, .debit, q, 0, none⟩, ⟨.funding, w, .credit, q, 0, none⟩]

def entry : Entry := ⟨(e.legs costOfSlice).foldl (push (e.eventId sha) e.quoteAsset) []⟩

/-- Without the tests for finite numbers, which exact amounts always pass. -/
def expand : Except PostingError Entry := do
  e.validate.mapError PostingError.mk
  let entry := e.entry sha costOfSlice
  ensure (∀ p ∈ entry.postings, 0 ≤ p.amount)
    (PostingError.mk "posting amounts and quantities must be finite")
  ensure (entry.isBalanced = true) (PostingError.mk "expanded entry is non-finite or unbalanced")
  return entry

end AccountingEvent

/-! ## The lines of an entry -/

section

variable (sha : String → String) {e : AccountingEvent} {costOfSlice : ℚ}

open List

theorem push_nonneg {eventId asset : String} {lines : List Posting}
    (h : ∀ p ∈ lines, 0 ≤ p.amount) (leg : Leg) :
    ∀ p ∈ push eventId asset lines leg, 0 ≤ p.amount := by
  unfold push
  split
  · exact h
  · intro p hp
    rcases mem_append.mp hp with hp | hp
    · exact h p hp
    · rw [mem_singleton.mp hp]
      exact normal_nonneg leg.side leg.amount

theorem entry_nonneg : ∀ p ∈ (e.entry sha costOfSlice).postings, 0 ≤ p.amount := by
  suffices h : ∀ (legs : List Leg) (lines : List Posting), (∀ p ∈ lines, 0 ≤ p.amount) →
      ∀ p ∈ legs.foldl (push (e.eventId sha) e.quoteAsset) lines, 0 ≤ p.amount from
    h _ [] fun p hp => (not_mem_nil hp).elim
  intro legs
  induction legs with
  | nil => exact fun lines h => h
  | cons leg legs ih => exact fun lines h => ih _ (push_nonneg h leg)

/-- What the legs that are selected by account and wallet add up to. -/
def legNet (select : Account → String → Bool) (legs : List Leg) : ℚ :=
  net Leg.side Leg.amount (legs.filter fun leg => select leg.account leg.wallet)

theorem net_entry (select : Account → String → Bool) : net Posting.side Posting.amount
      ((e.entry sha costOfSlice).postings.filter fun p => select p.account p.wallet) =
    legNet select (e.legs costOfSlice) := by
  suffices h : ∀ (legs : List Leg) (lines : List Posting), net Posting.side Posting.amount
          ((legs.foldl (push (e.eventId sha) e.quoteAsset) lines).filter
            fun p => select p.account p.wallet) =
        net Posting.side Posting.amount (lines.filter fun p => select p.account p.wallet) +
          legNet select legs from (h _ []).trans (zero_add _)
  intro legs
  induction legs with
  | nil => exact fun lines => (add_zero _).symm
  | cons leg legs ih =>
    intro lines
    have hl : legNet select (leg :: legs) = legNet select [leg] + legNet select legs := by
      rw [legNet, ← singleton_append, filter_append, net_append]
      rfl
    rw [foldl_cons, ih, hl, ← add_assoc]
    unfold push
    split
    · next hn =>
      have hz : leg.amount = 0 := abs_nonpos_iff.mp hn.1
      unfold legNet
      cases hse : select leg.account leg.wallet <;> simp [hse, net, hz]
    · rw [filter_append]
      unfold legNet
      cases hse : select leg.account leg.wallet <;> simp [hse, net, signed_normal]

theorem netOf_entry (account : Account) (wallet : String) :
    (e.entry sha costOfSlice).netOf account wallet =
    legNet (fun a w => a = account ∧ w = wallet) (e.legs costOfSlice) :=
  net_entry sha fun a w => a = account ∧ w = wallet

theorem net_account_entry (account : Account) : (e.entry sha costOfSlice).net account =
    legNet (fun a _ => a = account) (e.legs costOfSlice) :=
  net_entry sha fun a _ => a = account

end

/-! ## Balance -/

section

variable (sha : String → String) {e : AccountingEvent} {costOfSlice : ℚ}

def AccountingEvent.Sells (e : AccountingEvent) : Prop :=
  e.kind.movesInventory = true ∧ e.side = some .sell

instance : Decidable e.Sells := inferInstanceAs (Decidable (_ ∧ _))

def AccountingEvent.Buys (e : AccountingEvent) : Prop :=
  e.kind.movesInventory = true ∧ e.side ≠ some .sell

instance : Decidable e.Buys := inferInstanceAs (Decidable (_ ∧ _))

theorem legs_of_moves (h : e.kind.movesInventory = true) :
    e.legs costOfSlice = e.tradeLegs costOfSlice := by
  revert h
  unfold legs
  cases e.kind <;> simp [EventKind.movesInventory]

theorem legs_of_buys (h : e.Buys) : e.legs costOfSlice =
    [⟨.inventory, e.wallet, .debit, max (e.quoteAmount - e.fee) 0, e.quantity, some e.asset⟩,
      ⟨.fees, e.wallet, .debit, e.fee, 0, none⟩,
      ⟨e.cashAccount, e.wallet, .credit, e.quoteAmount, 0, none⟩] := by
  have hbu : e.side.getD .buy = .buy := by
    rcases hsi : e.side with _ | _ | _
    · rfl
    · rfl
    · exact (h.2 hsi).elim
  rw [legs_of_moves h.1, tradeLegs, hbu]

theorem legs_of_sells (h : e.Sells) : e.legs costOfSlice =
    [⟨e.cashAccount, e.wallet, .debit, e.quoteAmount, 0, none⟩,
      ⟨.fees, e.wallet, .debit, e.fee, 0, none⟩,
      ⟨.inventory, e.wallet, .credit, max costOfSlice 0, e.quantity, some e.asset⟩,
      ⟨.realizedPnl, e.wallet, .credit, e.quoteAmount + e.fee - max costOfSlice 0, 0, none⟩] := by
  rw [legs_of_moves h.1, tradeLegs, h.2]
  rfl

theorem legNet_all (h : e.Buys → e.fee ≤ e.quoteAmount) :
    legNet (fun _ _ => true) (e.legs costOfSlice) = 0 := by
  by_cases hm : e.kind.movesInventory = true
  · by_cases hsi : e.side = some .sell
    · rw [legs_of_sells ⟨hm, hsi⟩]
      simp only [legNet, net, List.filter_true, List.map_cons, List.map_nil, List.sum_cons,
        List.sum_nil, signed]
      ring
    · have hpa := h ⟨hm, hsi⟩
      rw [legs_of_buys ⟨hm, hsi⟩, max_eq_left (sub_nonneg.mpr hpa)]
      simp only [legNet, net, List.filter_true, List.map_cons, List.map_nil, List.sum_cons,
        List.sum_nil, signed]
      ring
  · revert hm
    unfold legs
    cases e.kind with
    | fill | settlement | correction => exact fun hm => (hm rfl).elim
    | fundingAdjustment =>
      rcases e.side with _ | _ | _ <;> simp [legNet, net, signed]
    | fee | deposit | withdrawal | transfer =>
      intro _
      simp only [legNet, net, List.filter_true, List.map_cons, List.map_nil, List.sum_cons,
        List.sum_nil, signed]
      ring

theorem totals_entry (h : e.Buys → e.fee ≤ e.quoteAmount) :
    (e.entry sha costOfSlice).totals.1 = (e.entry sha costOfSlice).totals.2 := by
  have hn : net Posting.side Posting.amount
      ((e.entry sha costOfSlice).postings.filter fun _ => true) = _ :=
    net_entry sha fun _ _ => true
  rw [List.filter_true, legNet_all h] at hn
  exact sub_eq_zero.mp ((totals_sub Posting.side Posting.amount _).trans hn)

theorem isBalanced_of_totals {entry : Entry} (h : entry.totals.1 = entry.totals.2) :
    entry.isBalanced = true := by
  unfold Entry.isBalanced
  rw [decide_eq_true_iff, h, sub_self]
  positivity

theorem isBalanced_entry_congr (c c' : ℚ) :
    (e.entry sha c).isBalanced = (e.entry sha c').isBalanced := by
  by_cases hbu : e.Buys
  · rw [entry, entry, legs_of_buys hbu, legs_of_buys hbu]
  · have hpa : e.Buys → e.fee ≤ e.quoteAmount := fun h => (hbu h).elim
    rw [isBalanced_of_totals (totals_entry sha hpa), isBalanced_of_totals (totals_entry sha hpa)]

def AccountingEvent.Acceptable (e : AccountingEvent) : Prop :=
  e.validate = .ok () ∧ (e.entry sha 0).isBalanced = true

theorem expand_eq_ok {entry : Entry} : e.expand sha costOfSlice = .ok entry ↔
    e.Acceptable sha ∧ entry = e.entry sha costOfSlice := by
  unfold expand AccountingEvent.Acceptable
  rw [isBalanced_entry_congr sha 0 costOfSlice]
  cases hv : e.validate with
  | error reason =>
    constructor
    · intro h
      cases h
    · rintro ⟨⟨h, -⟩, -⟩
      cases h
  | ok u =>
    show (ensure _ _ >>= fun _ => ensure _ _ >>= fun _ => _) = _ ↔ _
    rw [ensure_bind_eq_ok, ensure_bind_eq_ok]
    constructor
    · rintro ⟨-, hba, he⟩
      exact ⟨⟨rfl, hba⟩, (Except.ok.inj he).symm⟩
    · rintro ⟨⟨-, hba⟩, he⟩
      exact ⟨entry_nonneg sha, hba, congrArg Except.ok he.symm⟩

end

end SniperBot.Accounting
