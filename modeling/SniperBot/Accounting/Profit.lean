import SniperBot.Accounting.Ledger

/-!
# The realized series against the journal

The series that the risk engine reads and the lines on the accounts for profit and fees are
worked out apart from each other. Kind by kind they show the same, with one exception: the
fee of a deposit or of a funding adjustment counts in the series and is posted nowhere.
-/

namespace SniperBot.Accounting

open Lib.DoubleEntry Inner RealizedSeries List

/-- What the journal shows as profit: nothing is lost to a fee that is not posted. -/
def AccountingEvent.PostsItsFee (e : AccountingEvent) : Prop :=
  (e.kind = .deposit ∨ e.kind = .fundingAdjustment) → e.fee = 0

def Entry.profit (entry : Entry) : ℚ := entry.net .realizedPnl + entry.net .fees

def Inner.postedProfit (inner : Inner) (quote : String) : ℚ :=
  ((inner.events.filter fun row => row.1.event.quoteAsset = quote).map fun row =>
    row.2.profit).sum

section

variable {sha : String → String} {b : PositionBook} {e : AccountingEvent}

theorem profit_of_cash (hc : e.kind.movesInventory = false) (hf : e.PostsItsFee) (costOfSlice : ℚ) :
    (e.entry sha costOfSlice).profit = feeOf e := by
  rw [Entry.profit, net_account_entry, net_account_entry]
  unfold AccountingEvent.legs feeOf
  cases hk : e.kind with
  | fill | settlement | correction =>
    rw [hk] at hc
    cases hc
  | deposit => simp [legNet, net, hf (Or.inl hk)]
  | fundingAdjustment =>
    rcases e.side with _ | _ | _ <;> simp [legNet, net, hf (Or.inr hk)]
  | fee =>
    by_cases hpos : 0 < e.fee
    · simp [legNet, net, signed, hpos]
    · simp [legNet, net, signed, hpos]
  | withdrawal | transfer => simp [legNet, net, signed]

theorem profit_entry (hfe : e.PostsItsFee) (eventId : String) :
    (e.entry sha (b.costOfSlice e)).profit = -((b.apply e eventId).2.realizedDelta - feeOf e) := by
  -- a trade is no fee event, so its own fee counts
  have hf (hm : e.kind.movesInventory = true) : feeOf e = e.fee := by
    refine if_neg fun h => ?_
    rw [h.1] at hm
    cases hm
  have ha : e.cashAccount ≠ .realizedPnl ∧ e.cashAccount ≠ .fees := by
    unfold AccountingEvent.cashAccount
    split <;> simp
  rcases moves_cases e with hc | hbu | hse
  · rw [profit_of_cash hc hfe, apply_of_cash hc]
    ring
  · rw [Entry.profit, net_account_entry, net_account_entry, (book_of_buys hbu).2,
      hf hbu.1, legs_of_buys hbu]
    simp [legNet, net, signed, ha]
  · rw [Entry.profit, net_account_entry, net_account_entry, (book_of_sells hse).2,
      hf hse.1, legs_of_sells hse, max_eq_left PositionBook.costOfSlice_nonneg]
    simp [legNet, net, signed, ha]
    ring

end

theorem total_foldSeries (series : RealizedSeries) (e : AccountingEvent) (effect : BookEffect)
    (quote : String) :
    balance (series.foldSeries e effect).total quote = balance series.total quote +
      if e.quoteAsset = quote then effect.realizedDelta - feeOf e else 0 := by
  dsimp only [foldSeries]
  split
  · next hn => rw [hn, ite_self, add_zero]
  · rw [balance_add]
    simp only [eq_comm]

theorem postedProfit_enter (inner : Inner) (row : Row) (quote : String) :
    (inner.enter row).postedProfit quote =
    inner.postedProfit quote + if row.1.event.quoteAsset = quote then row.2.profit else 0 := by
  show (((inner.events ++ [row]).filter _).map _).sum = _
  rw [filter_append, map_append, sum_append]
  congr 1
  by_cases hq : row.1.event.quoteAsset = quote <;> simp [hq]

/-- After every accepted sequence of events in which no deposit and no funding adjustment
carries a fee, the series shows what the journal shows. -/
theorem series_shows_posted_profit {sha : String → String} {events : List StoredEvent}
    {inner : Inner} (h : empty.acceptAll sha events = .ok inner)
    (hfees : ∀ stored ∈ events, stored.event.PostsItsFee) (quote : String) :
    balance inner.series.total quote = -inner.postedProfit quote := by
  refine acceptAll_invariant
    (I := fun _ inner => balance inner.series.total quote = -inner.postedProfit quote)
    ?_ h hfees rfl
  intro _ inner stored inner' hf hsa ha
  obtain ⟨-, rfl⟩ := accept_eq_ok.mp ha
  rw [postedProfit_enter, series_enter, total_foldSeries, hsa, profit_entry hf stored.eventId]
  split <;> ring

private def depositWithFee : AccountingEvent where
  kind := .deposit
  module := .sniper
  venue := .paper
  wallet := "w"
  strategy := "s"
  asset := "SOL"
  quoteAsset := "SOL"
  side := none
  quantity := 0
  price := none
  quoteAmount := 10
  fee := 1
  mode := .paper
  referenceId := "r"
  correlationId := none
  positionId := none
  tradeId := none
  counterpartyWallet := none
  ts := 0
  detail := ""

private def stored (event : AccountingEvent) (recordedAt : Int) : StoredEvent :=
  ⟨event.eventId id, event, recordedAt, "a"⟩

private def plainDeposit : StoredEvent := stored { depositWithFee with fee := 0 } 0

private def plainWithdrawal : StoredEvent := stored { depositWithFee with kind := .withdrawal } 1

/-- A deposit and a withdrawal that pays a fee. -/
theorem series_shows_posted_profit_withdrawal :
    ∃ inner, empty.acceptAll id [plainDeposit, plainWithdrawal] = .ok inner ∧
      balance inner.series.total "SOL" = -inner.postedProfit "SOL" ∧
      balance inner.series.total "SOL" = -1 := by
  have hr : (empty.acceptAll id [plainDeposit, plainWithdrawal]).map
      (fun inner => balance inner.series.total "SOL") = .ok (-1) := by decide +kernel
  cases ha : empty.acceptAll id [plainDeposit, plainWithdrawal] with
  | error err =>
    rw [ha] at hr
    cases hr
  | ok inner =>
    rw [ha] at hr
    refine ⟨inner, rfl, series_shows_posted_profit ha ?_ "SOL", Except.ok.inj hr⟩
    intro stored hst
    rcases List.mem_cons.mp hst with rfl | hst
    · exact fun _ => rfl
    · rw [List.mem_singleton.mp hst]
      exact fun hk => by rcases hk with h | h <;> cases h

/-- A deposit with a fee is taken: the series loses the fee, and the journal shows no line
for it. -/
theorem deposit_fee_is_not_posted : (empty.acceptAll id [stored depositWithFee 0]).map
      (fun inner => (balance inner.series.total "SOL", inner.postedProfit "SOL")) =
        .ok (-1, 0) := by
  decide +kernel

/-! ## Drawdown -/

open GlobalRisk (PortfolioView)

structure PortfolioInputs where
  marks : String → Option ℚ
  rates : String → Option ℚ

def PortfolioInputs.rate (input : PortfolioInputs) (quote : String) : Option ℚ :=
  (input.rates quote).filter (0 < ·)

/-- What a position would gain if it were sold at its mark or, without one, at its last price. -/
def BookPosition.unrealized (pos : BookPosition) (mark : Option ℚ) : ℚ :=
  if dust < pos.qty then pos.qty * (mark.filter (0 < ·)).getD pos.lastPrice - pos.costBasis
  else 0

namespace Inner

variable (input : PortfolioInputs)

/-- Amounts by quote asset in the reference; those without a rate are left out. -/
def converted (amounts : AList fun _ : String => ℚ) : ℚ :=
  (amounts.keys.map fun quote => balance amounts quote * (input.rate quote).getD 0).sum

def view (inner : Inner) : PortfolioView :=
  { (default : PortfolioView) with
    unrealizedRef := (inner.book.positions.entries.map fun pos =>
      pos.2.unrealized (input.marks pos.1.asset) * (input.rate pos.1.quoteAsset).getD 0).sum
    peakRealizedRef := converted input inner.series.peak
    cumulativeRealizedRef := converted input inner.series.total }

end Inner

/-- Every amount is at most its peak, and peaks are never negative. -/
structure Covers (peak total : AList fun _ : String => ℚ) : Prop where
  mem : ∀ quote ∈ total, quote ∈ peak
  le : ∀ quote, balance total quote ≤ balance peak quote
  nonneg : ∀ quote, 0 ≤ balance peak quote

section

variable {peak total : AList fun _ : String => ℚ} {series : RealizedSeries}

theorem Covers.converted_le (h : Covers peak total) (input : PortfolioInputs) :
    converted input total ≤ converted input peak := by
  have hr : ∀ quote, 0 ≤ (input.rate quote).getD 0 := by
    intro quote
    cases hr : input.rate quote with
    | none => exact le_refl _
    | some r => exact (of_decide_eq_true (Option.filter_eq_some_iff.mp hr).2).le
  unfold converted
  rw [← sum_toFinset _ total.keys_nodup, ← sum_toFinset _ peak.keys_nodup]
  calc ∑ quote ∈ total.keys.toFinset, balance total quote * (input.rate quote).getD 0
      ≤ ∑ quote ∈ total.keys.toFinset, balance peak quote * (input.rate quote).getD 0 :=
        Finset.sum_le_sum fun quote _ => mul_le_mul_of_nonneg_right (h.le quote) (hr quote)
    _ ≤ ∑ quote ∈ peak.keys.toFinset, balance peak quote * (input.rate quote).getD 0 := by
        refine Finset.sum_le_sum_of_subset_of_nonneg ?_ fun quote _ _ =>
          mul_nonneg (h.nonneg quote) (hr quote)
        exact fun quote hq => mem_toFinset.mpr (h.mem quote (mem_toFinset.mp hq))

theorem balance_insert (quote other : String) (v : ℚ) :
    balance (peak.insert quote v) other = if other = quote then v else balance peak other := by
  unfold balance
  split
  · next he =>
    subst he
    rw [AList.lookup_insert]
    rfl
  · next hn => rw [AList.lookup_insert_ne hn]

variable (e : AccountingEvent) (effect : BookEffect)

theorem Covers.foldSeries (h : Covers series.peak total) :
    Covers (series.foldSeries e effect).peak total := by
  dsimp only [RealizedSeries.foldSeries]
  split
  · exact h
  · have hr : ∀ quote v, balance series.peak quote ≤ balance (series.peak.insert e.quoteAsset
        (max (balance series.peak e.quoteAsset) v)) quote := by
      intro quote v
      rw [balance_insert]
      split
      · next he => exact he ▸ le_max_left _ _
      · exact le_refl _
    constructor
    · exact fun quote hq => (AList.mem_insert _).mpr (.inr (h.mem quote hq))
    · exact fun quote => (h.le quote).trans (hr quote _)
    · exact fun quote => (h.nonneg quote).trans (hr quote _)

theorem covers_foldSeries (h : Covers series.peak series.total) :
    Covers (series.foldSeries e effect).peak (series.foldSeries e effect).total := by
  refine ⟨fun quote => ?_, fun quote => ?_, (h.foldSeries e effect).nonneg⟩
  all_goals
    dsimp only [foldSeries]
    split
  · exact h.mem quote
  · intro hq
    rcases (AList.mem_insert _).mp hq with rfl | hq
    · exact (AList.mem_insert _).mpr (.inl rfl)
    · exact (AList.mem_insert _).mpr (.inr (h.mem quote hq))
  · exact h.le quote
  · rw [balance_insert]
    split
    · next he => exact he ▸ le_max_right _ _
    · next hn =>
      rw [balance_add, if_neg hn, add_zero]
      exact h.le quote

end

/-- With what the open positions would gain, the drawdown is never understated: it is at least
what the converted total has lost since any prefix of the accepted events. -/
theorem drawdown_covers_loss {sha : String → String} {before after : List StoredEvent}
    {earlier inner : Inner} (hearlier : empty.acceptAll sha before = .ok earlier)
    (h : empty.acceptAll sha (before ++ after) = .ok inner)
    (input : PortfolioInputs) :
    converted input earlier.series.total - converted input inner.series.total ≤
      (inner.view input).drawdownRef + (inner.view input).unrealizedRef := by
  have hn : Covers earlier.series.peak earlier.series.total := by
    refine acceptAll_invariant (I := fun _ inner => Covers inner.series.peak inner.series.total)
      (P := fun _ => True) ?_ hearlier (fun _ _ => trivial) ⟨fun _ h => h, fun _ => le_refl _,
        fun _ => le_refl _⟩
    intro _ inner stored inner' _ hc ha
    obtain ⟨-, rfl⟩ := accept_eq_ok.mp ha
    exact covers_foldSeries _ _ hc
  have hl : Covers inner.series.peak earlier.series.total := by
    rw [acceptAll, List.foldlM_append, ← acceptAll, hearlier] at h
    refine acceptAll_invariant (I := fun _ inner => Covers inner.series.peak earlier.series.total)
      (P := fun _ => True) ?_ h (fun _ _ => trivial) hn
    intro _ inner stored inner' _ hc ha
    obtain ⟨-, rfl⟩ := accept_eq_ok.mp ha
    exact hc.foldSeries _ _
  have hle : _ ≤ (inner.view input).peakRealizedRef := hl.converted_le input
  have hcu : (inner.view input).cumulativeRealizedRef = converted input inner.series.total := rfl
  have hm := le_max_left ((inner.view input).peakRealizedRef -
    ((inner.view input).cumulativeRealizedRef + (inner.view input).unrealizedRef)) 0
  unfold PortfolioView.drawdownRef
  linarith

private def feePaid : StoredEvent :=
  stored { depositWithFee with kind := .fee, quoteAmount := 0, fee := 10 } 0

private def bought : StoredEvent :=
  stored { depositWithFee with
    kind := .fill, side := some .buy, asset := "X", quantity := 1, quoteAmount := 100, fee := 0 } 1

private def atMark (mark : ℚ) : PortfolioInputs := ⟨fun _ => some mark, fun _ => some 1⟩

theorem drawdown_covers_loss_at_cost : ∃ inner, empty.acceptAll id [feePaid, bought] = .ok inner ∧
      (inner.view (atMark 100)).drawdownRef = 10 ∧
      converted (atMark 100) empty.series.total - converted (atMark 100) inner.series.total ≤
        (inner.view (atMark 100)).drawdownRef + (inner.view (atMark 100)).unrealizedRef := by
  have hr : (empty.acceptAll id [feePaid, bought]).map
      (fun inner => (inner.view (atMark 100)).drawdownRef) = .ok 10 := by decide +kernel
  cases ha : empty.acceptAll id [feePaid, bought] with
  | error err =>
    rw [ha] at hr
    cases hr
  | ok inner =>
    rw [ha] at hr
    have he : empty.acceptAll id [] = .ok empty := rfl
    exact ⟨inner, rfl, Except.ok.inj hr, drawdown_covers_loss he ha (atMark 100)⟩

/-- The gain of an open position hides a fee of ten. -/
theorem gain_hides_drawdown : (empty.acceptAll id [feePaid, bought]).map (fun inner =>
      (converted (atMark 150) empty.series.total -
        converted (atMark 150) inner.series.total, (inner.view (atMark 150)).drawdownRef)) =
      .ok (10, 0) := by
  decide +kernel

end SniperBot.Accounting
