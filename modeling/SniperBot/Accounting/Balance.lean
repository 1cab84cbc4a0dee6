import SniperBot.Accounting.Ledger

/-!
# The book against the journal

The book keeps the cash that belongs to no position and the cost of what is open; the journal has
lines for both. Cash lines also carry what trades moved. Inventory lines add up to the cost in the
book and what the dust rule has dropped.
-/

namespace SniperBot.Accounting

open GlobalRisk (PositionKey)
open Lib.DoubleEntry

/-! ## Cash -/

open AccountingEvent

/-- The cash that a trade moves outside of the book's cash. -/
def AccountingEvent.tradeCash (e : AccountingEvent) : ℚ :=
  match e.kind with
  | .fill | .settlement => if e.side = some .sell then e.quoteAmount else -e.quoteAmount
  | _ => 0

namespace Inner

variable (inner : Inner) (wallet quote : String)

def postedCash : ℚ :=
  ((inner.events.filter fun row => row.1.event.quoteAsset = quote).map fun row =>
    row.2.netOf .cash wallet).sum

def tradedCash : ℚ := ((inner.events.filter fun row =>
    row.1.event.quoteAsset = quote ∧ row.1.event.wallet = wallet).map fun row =>
      row.1.event.tradeCash).sum

variable {inner}

open List

theorem postedCash_enter (row : Row) :
    (inner.enter row).postedCash wallet quote = inner.postedCash wallet quote +
    if row.1.event.quoteAsset = quote then row.2.netOf .cash wallet else 0 := by
  rw [postedCash, events_enter, filter_append, map_append, sum_append]
  congr 1
  by_cases hq : row.1.event.quoteAsset = quote <;> simp [hq]

theorem tradedCash_enter (row : Row) :
    (inner.enter row).tradedCash wallet quote = inner.tradedCash wallet quote +
    if row.1.event.quoteAsset = quote ∧ row.1.event.wallet = wallet then
      row.1.event.tradeCash else 0 := by
  rw [tradedCash, events_enter, filter_append, map_append, sum_append]
  congr 1
  by_cases hq : row.1.event.quoteAsset = quote ∧ row.1.event.wallet = wallet <;> simp [hq]

end Inner

section

variable {sha : String → String} {b : PositionBook} {e : AccountingEvent}
  {costOfSlice : ℚ} {wallet quote : String}

theorem balance_cash_add (c : Cash) (w q wallet quote : String) (delta : ℚ) :
    balance (c.add (w, q) delta) (wallet, quote) = balance c (wallet, quote) +
    if q = quote then if w = wallet then delta else 0 else 0 := by
  refine (balance_add c (w, q) (wallet, quote) delta).trans ?_
  by_cases hw : w = wallet
  · by_cases hq : q = quote
    · rw [if_pos (by rw [hw, hq]), if_pos hq, if_pos hw]
    · rw [if_neg (fun h => hq (Prod.mk.inj h).2.symm), if_neg hq]
  · rw [if_neg (fun h => hw (Prod.mk.inj h).1.symm), if_neg hw, ite_self]

def AccountingEvent.receives (e : AccountingEvent) (wallet : String) : ℚ :=
  if e.kind = .transfer ∧ e.counterpartyWallet = some wallet then e.quoteAmount else 0

open PositionBook

theorem balance_applyCash :
    balance (b.applyCash e).cash (wallet, quote) = balance b.cash (wallet, quote) +
    if e.quoteAsset = quote then
      e.receives wallet + if e.wallet = wallet then cashDelta e else 0
    else 0 := by
  unfold applyCash receives
  rw [balance_cash_add]
  split
  · next receiver hk hr =>
    rw [balance_cash_add, hr, add_assoc]
    by_cases hq : e.quoteAsset = quote <;> simp [hk, hq]
  · next ho =>
    have hn : ¬ (e.kind = .transfer ∧ e.counterpartyWallet = some wallet) :=
      fun h => ho wallet h.1 h.2
    rw [if_neg hn, zero_add]

theorem netOf_cash_of_cash (hc : e.kind.movesInventory = false) (hv : e.validate = .ok ()) :
    (e.entry sha costOfSlice).netOf .cash wallet =
    e.receives wallet + if e.wallet = wallet then cashDelta e else 0 := by
  rw [netOf_entry]
  unfold legs receives cashDelta standaloneFee
  cases hk : e.kind with
  | fill | settlement | correction =>
    rw [hk] at hc
    cases hc
  | fee | deposit | withdrawal =>
    by_cases hw : e.wallet = wallet <;> simp [legNet, net, signed, hw]
  | fundingAdjustment =>
    rcases e.side with _ | _ | _ <;> by_cases hw : e.wallet = wallet <;>
      simp [legNet, net, signed, hw]
  | transfer =>
    obtain ⟨receiver, hr⟩ := e.receiver_of_validate hv hk
    by_cases hw : e.wallet = wallet <;> by_cases hto : receiver = wallet <;>
      simp [legNet, net, signed, hr, hw, hto]

theorem netOf_cash_of_moves (hm : e.kind.movesInventory = true) :
    (e.entry sha costOfSlice).netOf .cash wallet =
    if e.wallet = wallet then e.tradeCash else 0 := by
  rw [netOf_entry, legs_of_moves hm]
  unfold tradeLegs tradeCash cashAccount
  cases hk : e.kind with
  | fee | deposit | withdrawal | transfer | fundingAdjustment =>
    rw [hk] at hm
    cases hm
  | fill | settlement | correction =>
    rcases e.side with _ | _ | _ <;> by_cases hw : e.wallet = wallet <;>
      simp [legNet, net, signed, hw]

end

/-! ## Inventory -/

namespace BookPosition

variable (pos : BookPosition) (quantity : ℚ)

def residual : ℚ := max (pos.qty - pos.covered quantity) 0

/-- The cost that the dust rule drops with the residual of a sale. -/
def dropped : ℚ :=
  if pos.residual quantity ≤ dust then max (pos.costBasis - pos.costOfSlice quantity) 0 else 0

structure Sound (pos : BookPosition) : Prop where
  qty_nonneg : 0 ≤ pos.qty
  costBasis_nonneg : 0 ≤ pos.costBasis

variable {pos} {quantity}

theorem sound_new (key : PositionKey) (ts : Int) : (new key ts).Sound := ⟨le_rfl, le_rfl⟩

theorem Sound.stamp (h : pos.Sound) (e : AccountingEvent) (eventId : String) :
    (pos.stamp e eventId).Sound := ⟨h.qty_nonneg, h.costBasis_nonneg⟩

theorem Sound.buy (h : pos.Sound) (hq : 0 ≤ quantity) (quoteAmount fee : ℚ) :
    (pos.buy quantity quoteAmount fee).Sound :=
  ⟨add_nonneg h.qty_nonneg hq, add_nonneg h.costBasis_nonneg (le_max_right _ _)⟩

theorem sound_sell (quantity quoteAmount fee : ℚ) : (pos.sell quantity quoteAmount fee).Sound := by
  constructor
  · dsimp only [sell]
    split
    · exact le_rfl
    · exact le_max_right _ _
  · dsimp only [sell]
    split
    · exact le_rfl
    · exact le_max_right _ _

theorem Sound.covered_le (h : pos.Sound) (quantity : ℚ) : pos.covered quantity ≤ pos.qty :=
  max_le (min_le_right _ _) h.qty_nonneg

theorem Sound.costOfSlice_le (h : pos.Sound) (quantity : ℚ) :
    pos.costOfSlice quantity ≤ pos.costBasis := by
  unfold costOfSlice avgCost
  split
  · next hpr =>
    rw [div_mul_eq_mul_div, div_le_iff₀ hpr.1]
    exact mul_le_mul_of_nonneg_left (h.covered_le quantity) h.costBasis_nonneg
  · rw [zero_mul]
    exact h.costBasis_nonneg

theorem Sound.costBasis_sell (h : pos.Sound) (quantity quoteAmount fee : ℚ) :
    pos.costBasis = (pos.sell quantity quoteAmount fee).costBasis + pos.costOfSlice quantity +
    pos.dropped quantity := by
  have hl := max_eq_left (sub_nonneg.mpr (h.costOfSlice_le quantity))
  show _ = (if pos.residual quantity ≤ dust then 0 else
    max (pos.costBasis - pos.costOfSlice quantity) 0) + _ + _
  rw [dropped, hl]
  split <;> ring

theorem Sound.dropped_bounds (h : pos.Sound) :
    0 ≤ pos.dropped quantity ∧ (pos.dropped quantity ≠ 0 →
    pos.residual quantity ≤ dust ∧ (0 < pos.residual quantity ∨ pos.qty = 0)) := by
  have hl := max_eq_left (sub_nonneg.mpr (h.costOfSlice_le quantity))
  unfold dropped
  split
  · next hd =>
    refine ⟨le_max_right _ _, fun hco => ⟨hd, ?_⟩⟩
    by_contra hn
    rw [not_or, not_lt] at hn
    obtain ⟨hr, ho⟩ := hn
    -- everything that was open is sold, so the slice is the whole cost
    have ha : pos.covered quantity = pos.qty :=
      le_antisymm (h.covered_le quantity) (sub_nonpos.mp ((le_max_left _ _).trans hr))
    have hq : 0 < pos.qty := lt_of_le_of_ne h.qty_nonneg (Ne.symm ho)
    apply hco
    rw [hl, costOfSlice, avgCost, ha]
    split
    · rw [div_mul_cancel₀ _ ho, sub_self]
    · next hf =>
      rw [zero_mul, sub_zero]
      exact le_antisymm (not_lt.mp fun hc => hf ⟨hq, hc⟩) h.costBasis_nonneg
  · exact ⟨le_rfl, fun h => (h rfl).elim⟩

end BookPosition

section

variable {sha : String → String} {b : PositionBook} {e : AccountingEvent}
  {costOfSlice : ℚ}

theorem cashAccount_ne_inventory : e.cashAccount ≠ .inventory := by
  unfold cashAccount
  split <;> simp

theorem net_inventory_of_cash (hc : e.kind.movesInventory = false) :
    (e.entry sha costOfSlice).net .inventory = 0 := by
  rw [net_account_entry]
  unfold legs
  cases hk : e.kind with
  | fill | settlement | correction =>
    rw [hk] at hc
    cases hc
  | fundingAdjustment => rcases e.side with _ | _ | _ <;> rfl
  | fee | deposit | withdrawal | transfer => rfl

theorem net_inventory_of_buys (hbu : e.Buys) :
    (e.entry sha costOfSlice).net .inventory = max (e.quoteAmount - e.fee) 0 := by
  rw [net_account_entry, legs_of_buys hbu]
  simp [legNet, net, signed, cashAccount_ne_inventory]

theorem net_inventory_of_sells (hse : e.Sells) :
    (e.entry sha (b.costOfSlice e)).net .inventory = -(b.entry e).costOfSlice e.quantity := by
  rw [net_account_entry, legs_of_sells hse, max_eq_left PositionBook.costOfSlice_nonneg,
    costOfSlice_of_sells hse]
  simp [legNet, net, signed, cashAccount_ne_inventory]

end

namespace PositionBook

variable {b : PositionBook} {e : AccountingEvent} {eventId : String} {key : PositionKey}

def costBasisOf (b : PositionBook) (key : PositionKey) : ℚ :=
  ((b.positions.lookup key).map BookPosition.costBasis).getD 0

theorem costBasis_entry : (b.entry e).costBasis = b.costBasisOf e.key := by
  unfold entry costBasisOf
  cases b.positions.lookup e.key <;> rfl

theorem costBasisOf_insert (pos : BookPosition) :
    costBasisOf { b with positions := b.positions.insert e.key pos } key =
      if e.key = key then pos.costBasis else b.costBasisOf key := by
  unfold costBasisOf
  split
  · next hk =>
    subst hk
    rw [AList.lookup_insert]
    rfl
  · next hk => rw [AList.lookup_insert_ne (Ne.symm hk)]

def Sound (b : PositionBook) : Prop := ∀ key pos, b.positions.lookup key = some pos → pos.Sound

theorem sound_new : new.Sound := fun _ _ h => nomatch h

theorem Sound.entry (h : b.Sound) (e : AccountingEvent) : (b.entry e).Sound := by
  unfold PositionBook.entry
  cases hpos : b.positions.lookup e.key with
  | none => exact BookPosition.sound_new e.key e.ts
  | some pos => exact h e.key pos hpos

theorem Sound.insert (h : b.Sound) {pos : BookPosition} (hpos : pos.Sound) :
    Sound { b with positions := b.positions.insert e.key pos } := by
  intro key pos' hl
  by_cases hk : key = e.key
  · subst hk
    rw [AList.lookup_insert] at hl
    exact Option.some.inj hl ▸ hpos
  · rw [AList.lookup_insert_ne hk] at hl
    exact h key pos' hl

theorem Sound.apply (h : b.Sound) (hq : 0 ≤ e.quantity) : (b.apply e eventId).1.Sound := by
  rcases moves_cases e with hc | hbu | hse
  · rw [apply_of_cash hc]
    exact h
  · rw [(book_of_buys hbu).1]
    exact h.insert (((h.entry e).buy hq _ _).stamp _ _)
  · rw [(book_of_sells hse).1]
    exact h.insert ((BookPosition.sound_sell _ _ _).stamp _ _)

end PositionBook

/-! ## Whole histories -/

/-- The book after one more event, and the sales out of a position with what was open before
each of them. -/
def saleStep (key : PositionKey) (s : PositionBook × List (BookPosition × ℚ))
    (stored : StoredEvent) : PositionBook × List (BookPosition × ℚ) :=
  ((s.1.apply stored.event stored.eventId).1,
    if stored.event.Sells ∧ stored.event.key = key then
      s.2 ++ [(s.1.entry stored.event, stored.event.quantity)]
    else s.2)

def salesOf (key : PositionKey) (events : List StoredEvent) : List (BookPosition × ℚ) :=
  (events.foldl (saleStep key) (.new, [])).2

def droppedCost (key : PositionKey) (events : List StoredEvent) : ℚ :=
  ((salesOf key events).map fun sale => sale.1.dropped sale.2).sum

open Inner

def Inner.postedInventory (inner : Inner) (key : PositionKey) : ℚ :=
  ((inner.events.filter fun row => row.1.event.key = key).map fun row =>
    row.2.net .inventory).sum

theorem postedInventory_enter (inner : Inner) (row : Row) (key : PositionKey) :
    (inner.enter row).postedInventory key = inner.postedInventory key +
    if row.1.event.key = key then row.2.net .inventory else 0 := by
  rw [postedInventory, events_enter, List.filter_append, List.map_append, List.sum_append]
  congr 1
  by_cases hk : row.1.event.key = key <;> simp [hk]

structure Agrees (key : PositionKey) (events : List StoredEvent) (inner : Inner) : Prop where
  book_eq : (events.foldl (saleStep key) (.new, [])).1 = inner.book
  sound : inner.book.Sound
  sales_sound : ∀ sale ∈ salesOf key events, sale.1.Sound
  posted : inner.postedInventory key = inner.book.costBasisOf key + droppedCost key events

theorem agrees_empty (key : PositionKey) : Agrees key [] .empty where
  book_eq := rfl
  sound := PositionBook.sound_new
  sales_sound := fun _ h => (List.not_mem_nil h).elim
  posted := (add_zero (0 : ℚ)).symm

theorem salesOf_snoc (key : PositionKey) (events : List StoredEvent) (stored : StoredEvent) :
    salesOf key (events ++ [stored]) = salesOf key events ++
    if stored.event.Sells ∧ stored.event.key = key then
      [((events.foldl (saleStep key) (.new, [])).1.entry stored.event, stored.event.quantity)]
    else [] := by
  unfold salesOf
  rw [List.foldl_append, List.foldl_cons, List.foldl_nil, saleStep]
  split
  · rfl
  · rw [List.append_nil]

theorem costBasisOf_apply (sha : String → String) {b : PositionBook} (hb : b.Sound)
    (e : AccountingEvent) (eventId : String) (key : PositionKey) :
    (if e.key = key then (e.entry sha (b.costOfSlice e)).net .inventory else 0) +
      b.costBasisOf key =
    (b.apply e eventId).1.costBasisOf key +
      if e.Sells ∧ e.key = key then (b.entry e).dropped e.quantity else 0 := by
  rcases moves_cases e with hc | hbu | hse
  · have hn : ¬ (e.Sells ∧ e.key = key) := fun h => by rw [h.1.1] at hc; cases hc
    rw [apply_of_cash hc, net_inventory_of_cash hc, if_neg hn, ite_self, zero_add, add_zero]
    rfl
  · have hn : ¬ (e.Sells ∧ e.key = key) := fun h => hbu.2 h.1.2
    rw [(book_of_buys hbu).1, PositionBook.costBasisOf_insert, net_inventory_of_buys hbu,
      if_neg hn, add_zero]
    split
    · next hk =>
      subst hk
      show _ = (b.entry e).costBasis + _
      rw [PositionBook.costBasis_entry, add_comm]
    · exact zero_add _
  · rw [(book_of_sells hse).1, PositionBook.costBasisOf_insert, net_inventory_of_sells hse]
    by_cases hk : e.key = key
    · have hco := (hb.entry e).costBasis_sell e.quantity e.quoteAmount e.fee
      subst hk
      rw [if_pos rfl, if_pos rfl, if_pos ⟨hse, rfl⟩, ← PositionBook.costBasis_entry, hco]
      show _ = ((b.entry e).sell e.quantity e.quoteAmount e.fee).costBasis + _
      ring
    · rw [if_neg hk, if_neg hk, if_neg fun h => hk h.2, zero_add, add_zero]

variable {sha : String → String} {inner : Inner} {events : List StoredEvent} {stored : StoredEvent}

theorem Agrees.step {key : PositionKey} {inner' : Inner} (h : Agrees key events inner)
    (ha : inner.accept sha stored = .ok inner') :
    Agrees key (events ++ [stored]) inner' := by
  obtain ⟨hac, rfl⟩ := accept_eq_ok.mp ha
  have hq := (amounts_and_kind_of_validate _ hac.1).1.1
  have hm := costBasisOf_apply sha h.sound stored.event stored.eventId key
  constructor
  · rw [List.foldl_append, List.foldl_cons, saleStep, h.book_eq]
    rfl
  · exact h.sound.apply hq
  · intro sale hsa
    rw [salesOf_snoc, List.mem_append] at hsa
    rcases hsa with hsa | hsa
    · exact h.sales_sound sale hsa
    · split at hsa
      · rw [List.mem_singleton.mp hsa, h.book_eq]
        exact h.sound.entry stored.event
      · exact (List.not_mem_nil hsa).elim
  · have hd : droppedCost key (events ++ [stored]) = droppedCost key events +
        if stored.event.Sells ∧ stored.event.key = key then
          (inner.book.entry stored.event).dropped stored.event.quantity else 0 := by
      unfold droppedCost
      rw [salesOf_snoc, List.map_append, h.book_eq]
      split <;> simp
    rw [postedInventory_enter, book_enter, h.posted]
    linarith

theorem cash_step {inner' : Inner} {wallet quote : String} (h : inner.postedCash wallet quote =
    balance inner.book.cash (wallet, quote) + inner.tradedCash wallet quote)
    (ha : inner.accept sha stored = .ok inner') :
    inner'.postedCash wallet quote =
    balance inner'.book.cash (wallet, quote) + inner'.tradedCash wallet quote := by
  obtain ⟨hac, rfl⟩ := accept_eq_ok.mp ha
  rw [postedCash_enter, tradedCash_enter, book_enter, h]
  cases hm : stored.event.kind.movesInventory with
  | false =>
    have hn : stored.event.tradeCash = 0 := by
      unfold tradeCash
      cases hk : stored.event.kind <;> first | rfl | (rw [hk] at hm; cases hm)
    rw [apply_of_cash hm, balance_applyCash, netOf_cash_of_cash hm hac.1, hn, ite_self]
    ring
  | true =>
    have hsa : (inner.book.apply stored.event stored.eventId).1.cash = inner.book.cash := by
      rcases moves_cases stored.event with hc | hbu | hse
      · rw [hm] at hc
        cases hc
      · rw [(book_of_buys hbu).1]
      · rw [(book_of_sells hse).1]
    rw [hsa, netOf_cash_of_moves hm]
    by_cases hq : stored.event.quoteAsset = quote <;>
      by_cases hw : stored.event.wallet = wallet <;> simp [hq, add_assoc]

theorem expanded_of_acceptAll (h : empty.acceptAll sha events = .ok inner) :
    ∀ row ∈ inner.events, ∃ cost, row.2 = row.1.event.entry sha cost := by
  refine acceptAll_invariant (P := fun _ => True)
    (I := fun _ inner => ∀ row ∈ inner.events, ∃ cost, row.2 = row.1.event.entry sha cost)
    ?_ h (fun _ _ => trivial) fun _ hro => (List.not_mem_nil hro).elim
  intro _ inner stored inner' _ hr ha row hro
  obtain ⟨-, rfl⟩ := accept_eq_ok.mp ha
  rcases List.mem_append.mp hro with hro | hro
  · exact hr row hro
  · rw [List.mem_singleton.mp hro]
    exact ⟨_, rfl⟩

/-- After every accepted sequence of events: the entries balance exactly, the cash lines are
the book's cash and what trades moved, and the inventory lines are the cost in the book and
what the dust rule dropped, which is the cost of a residual that counts as dust or of a
position that had cost and no quantity. -/
theorem journal_agrees_with_book {sha : String → String} {events : List StoredEvent}
    {inner : Inner} (h : empty.acceptAll sha events = .ok inner) :
    (∀ row ∈ inner.events, (row.1.event.Buys → row.1.event.fee ≤ row.1.event.quoteAmount) →
      row.2.totals.1 = row.2.totals.2) ∧
    (∀ wallet quote, inner.postedCash wallet quote =
      balance inner.book.cash (wallet, quote) + inner.tradedCash wallet quote) ∧
    ∀ key, inner.postedInventory key = inner.book.costBasisOf key + droppedCost key events ∧
      ∀ sale ∈ salesOf key events, 0 ≤ sale.1.dropped sale.2 ∧ (sale.1.dropped sale.2 ≠ 0 →
        sale.1.residual sale.2 ≤ dust ∧ (0 < sale.1.residual sale.2 ∨ sale.1.qty = 0)) := by
  refine ⟨?_, ?_, ?_⟩
  · intro row hr hpa
    obtain ⟨cost, he⟩ := expanded_of_acceptAll h row hr
    rw [he]
    exact totals_entry sha hpa
  · intro wallet quote
    refine acceptAll_invariant (P := fun _ => True)
      (I := fun _ inner => inner.postedCash wallet quote =
        balance inner.book.cash (wallet, quote) + inner.tradedCash wallet quote)
      ?_ h (fun _ _ => trivial) (add_zero (0 : ℚ)).symm
    exact fun _ inner stored inner' _ hc hac => cash_step hc hac
  · intro key
    have ha : Agrees key events inner := by
      refine acceptAll_invariant (P := fun _ => True) (I := Agrees key) ?_ h
        (fun _ _ => trivial) (agrees_empty key)
      exact fun _ inner stored inner' _ ha hac => ha.step hac
    exact ⟨ha.posted, fun sale hsa => (ha.sales_sound sale hsa).dropped_bounds⟩

private def tradeKey : PositionKey := ⟨.sniper, .paper, "w", "s", "TOKEN", "SOL", .paper⟩

private def trade (side : EventSide) (quantity quoteAmount fee : ℚ) (reference : String) :
    StoredEvent :=
  let event := fillEvent tradeKey side quantity 1 quoteAmount fee reference none none 0 ""
  ⟨event.eventId id, event, 0, "a"⟩

private def costOnly : StoredEvent :=
  let event := { fillEvent tradeKey .buy 0 1 5 0 "c" (some "ticket") none 0 "" with
    kind := .correction }
  ⟨event.eventId id, event, 0, "a"⟩

theorem journal_agrees_with_book_two_trades :
    ∃ inner, empty.acceptAll id [trade .buy 10 11 1 "b", trade .sell 4 6 0 "s"] = .ok inner ∧
      inner.postedCash "w" "SOL" = -5 ∧ inner.postedInventory tradeKey = 6 ∧
      inner.postedCash "w" "SOL" =
        balance inner.book.cash ("w", "SOL") + inner.tradedCash "w" "SOL" ∧
      inner.postedInventory tradeKey = inner.book.costBasisOf tradeKey +
        droppedCost tradeKey [trade .buy 10 11 1 "b", trade .sell 4 6 0 "s"] := by
  have hr : (empty.acceptAll id [trade .buy 10 11 1 "b", trade .sell 4 6 0 "s"]).map
      (fun inner => (inner.postedCash "w" "SOL", inner.postedInventory tradeKey)) =
        .ok (-5, 6) := by decide +kernel
  cases ha : empty.acceptAll id [trade .buy 10 11 1 "b", trade .sell 4 6 0 "s"] with
  | error err =>
    rw [ha] at hr
    cases hr
  | ok inner =>
    rw [ha] at hr
    obtain ⟨hc, hi⟩ := Prod.mk.inj (Except.ok.inj hr)
    have hag := journal_agrees_with_book ha
    exact ⟨inner, rfl, hc, hi, hag.2.1 "w" "SOL", (hag.2.2 tradeKey).1⟩

/-- The cash of a purchase is posted and is not in the book's cash; and a correction that
books cost without quantity leaves a cost that a later sale drops with no residual. -/
theorem book_leaves_out_trades_and_cost_without_quantity :
    (empty.acceptAll id [trade .buy 10 11 1 "b"]).map
      (fun inner => (inner.postedCash "w" "SOL", balance inner.book.cash ("w", "SOL"))) =
        .ok (-11, 0) ∧
    (empty.acceptAll id [costOnly, trade .sell 1 0 0 "s"]).map
      (fun inner => (inner.postedInventory tradeKey, inner.book.costBasisOf tradeKey)) =
        .ok (5, 0) ∧
    (salesOf tradeKey [costOnly, trade .sell 1 0 0 "s"]).map
      (fun sale => sale.1.residual sale.2) = [0] := by
  refine ⟨?_, ?_, ?_⟩ <;> decide +kernel

end SniperBot.Accounting
