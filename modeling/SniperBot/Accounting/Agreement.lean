import SniperBot.Accounting.Book
import SniperBot.Positions.Fills
import SniperBot.Reconciliation.Engine

/-!
# Three average-cost books

The reconciler replays fills, a position applies them, and the ledger's book applies their events,
all at average cost. They differ in what they credit when more is sold than is held: the
reconciler prorates the money, the position takes all of it unless it is flat, the book always
does.
-/

namespace SniperBot.Accounting

open GlobalRisk (PositionKey)
open Lib.AverageCost
open Positions (LivePosition TradeSource f64Epsilon)
open Reconciliation

/-- A buy or a sell without a fee, with what it is booked under. -/
structure Trade extends Deal ℚ where
  price : ℚ
  price_nonneg : 0 ≤ price
  ts : Int
  now : Int
  referenceId : String
  correlationId : Option String
  positionId : Option String
  detail : String
  eventId : String

namespace Trade

variable (t : Trade)

def eventSide : EventSide :=
  match t.side with
  | .buy => .buy
  | .sell => .sell

def record : FillRecord := ⟨t.eventSide.asStr, t.qty, t.quote⟩

theorem record_isBuy : t.record.isBuy = decide (t.side = .buy) := by
  show eqIgnoreAsciiCase t.eventSide.asStr "buy" = _
  unfold eventSide
  cases t.side <;> decide +kernel

theorem record_isSell : t.record.isSell = decide (t.side = .sell) := by
  show eqIgnoreAsciiCase t.eventSide.asStr "sell" = _
  unfold eventSide
  cases t.side <;> decide +kernel

def onPosition (p : LivePosition) : LivePosition :=
  match t.side with
  | .buy => p.applyBuy t.qty t.price t.quote t.now
  | .sell => (p.applySell t.qty t.price t.quote t.now).1

def event (key : PositionKey) : AccountingEvent :=
  fillEvent key t.eventSide t.qty t.price t.quote 0 t.referenceId t.correlationId t.positionId
    t.ts t.detail

end Trade

open Trade

def openQty (trades : List Trade) : ℚ := heldAfter (trades.map toDeal)

/-- At no time is a trace of the asset held that a book would take for nothing. -/
def NoDust (trades : List Trade) : Prop :=
  ∀ done, done <+: trades → openQty done = 0 ∨ dust < openQty done

open List

instance (trades : List Trade) : Decidable (NoDust trades) :=
  decidable_of_iff (∀ done ∈ trades.inits, openQty done = 0 ∨ dust < openQty done)
    (by simp only [mem_inits, NoDust])

variable {trades : List Trade} {h : Holding ℚ} {p : LivePosition}

theorem NoDust.init {t : Trade} (h : NoDust (trades ++ [t])) : NoDust trades :=
  fun done hd => h done (hd.trans (prefix_append _ _))

open Holding

theorem NoDust.leaves {t : Trade} (h : NoDust (trades ++ [t])) (hse : t.side = .sell)
    (credit : Credit ℚ) :
    (after credit (trades.map toDeal)).LeavesNoDust t.toDeal dust := by
  have hl := h _ (prefix_refl _)
  have hh : openQty (trades ++ [t]) = (after credit (trades.map toDeal)).qty -
        (after credit (trades.map toDeal)).sold t.toDeal := by
    rw [openQty, map_append, map_singleton, heldAfter_snoc, held, hse, sold, qty_after]
  rwa [hh] at hl

/-! ## The reconciler -/

structure ReplayShows (r : Replay) (h : Holding ℚ) : Prop where
  openQty_eq : r.openQty = h.qty
  openCost_eq : r.openCost = h.cost
  realized_eq : r.realized = h.realized

theorem ReplayShows.fill {r : Replay} (hr : ReplayShows r h) (t : Trade) :
    ReplayShows (r.fill t.record) (h.deal t.toDeal prorated) := by
  have hqt : t.record.qty = t.qty := rfl
  rw [Replay.fill, if_neg (not_not.mpr (hqt ▸ t.qty_pos)), deal]
  rw [t.record_isBuy, t.record_isSell]
  cases hsi : t.side with
  | buy =>
    constructor
    · exact congrArg (· + t.qty) hr.openQty_eq
    · exact congrArg (· + t.quote) hr.openCost_eq
    · exact hr.realized_eq
  | sell =>
    have hm : min t.qty h.qty = h.sold t.toDeal := rfl
    simp only [hqt, hr.openQty_eq, hr.openCost_eq, hm]
    by_cases hn : h.sold t.toDeal ≤ 0
    · have hz : h.sold t.toDeal = 0 := le_antisymm hn (h.sold_nonneg t.toDeal)
      have hsl : h.slice t.toDeal = 0 := by rw [slice, hz, zero_div, mul_zero]
      have hc : prorated h.qty t.toDeal = 0 := by
        show t.quote * (h.sold t.toDeal / t.qty) = 0
        rw [hz, zero_div, mul_zero]
      rw [if_pos hn]
      constructor
      · show r.openQty = h.qty - h.sold t.toDeal
        rw [hr.openQty_eq, hz, sub_zero]
      · show r.openCost = h.cost - h.slice t.toDeal
        rw [hr.openCost_eq, hsl, sub_zero]
      · show r.realized = h.realized + (prorated h.qty t.toDeal - h.slice t.toDeal)
        rw [hr.realized_eq, hc, hsl, sub_zero, add_zero]
    · have hh : 0 < h.qty := (not_le.mp hn).trans_le (h.sold_le t.toDeal)
      have hsl : h.cost / h.qty * h.sold t.toDeal = h.slice t.toDeal := by
        rw [slice]
        ring
      rw [if_neg hn]
      simp only [if_pos hh, hsl, hr.realized_eq]
      exact ⟨rfl, rfl, rfl⟩

theorem replay_shows (trades : List Trade) :
    ReplayShows ((trades.map record).foldl Replay.fill Replay.start)
    (after prorated (trades.map toDeal)) := by
  induction trades using reverseRecOn with
  | nil => exact ⟨rfl, rfl, rfl⟩
  | append_singleton trades t ih =>
    rw [map_append, map_append, map_singleton, map_singleton, after_snoc, foldl_append]
    exact ih.fill t

/-! ## The position -/

theorem Trade.onPosition_shows (hp : p.Shows h) (t : Trade)
    (hrest : t.side = .sell → h.LeavesNoDust t.toDeal dust) :
    (t.onPosition p).Shows (h.deal t.toDeal unlessFlat) := by
  rw [onPosition, deal]
  cases hsi : t.side with
  | buy => exact hp.applyBuy t.toDeal t.price_nonneg t.now
  | sell =>
    have hun : f64Epsilon < dust := by norm_num [f64Epsilon, dust]
    exact hp.applySell t.toDeal t.price_nonneg t.now ((hrest hsi).imp_right hun.trans)

theorem position_shows (hp : p.Shows .empty) (hd : NoDust trades) :
    (trades.foldl (fun p t => t.onPosition p) p).Shows (after unlessFlat (trades.map toDeal)) := by
  induction trades using reverseRecOn with
  | nil => exact hp
  | append_singleton trades t ih =>
    rw [map_append, map_singleton, after_snoc, foldl_append]
    exact t.onPosition_shows (ih hd.init) fun hse => hd.leaves hse unlessFlat

/-! ## The book of the ledger -/

variable (key : PositionKey) {b : PositionBook}

def bookAfter (b : PositionBook) (trades : List Trade) : PositionBook :=
  trades.foldl (fun b t => (b.apply (t.event key) t.eventId).1) b

def BookShows (b : PositionBook) (key : PositionKey) (h : Holding ℚ) : Prop :=
  ∀ ts, ((b.positions.lookup key).getD (.new key ts)).Shows h

theorem BookShows.apply {key : PositionKey} (hb : BookShows b key h) (t : Trade)
    (hrest : t.side = .sell → h.LeavesNoDust t.toDeal dust) :
    BookShows (b.apply (t.event key) t.eventId).1 key (h.deal t.toDeal full) := by
  intro ts
  have hbe : (b.entry (t.event key)).Shows h := hb t.ts
  rw [PositionBook.apply, deal]
  show (((b.positions.insert key _).lookup key).getD _).Shows _
  rw [AList.lookup_insert]
  refine BookPosition.Shows.stamp ?_ _ _
  have he : (t.event key).side.getD .buy = t.eventSide := rfl
  rw [he, eventSide]
  cases hsi : t.side with
  | buy => exact hbe.buy t.toDeal
  | sell => exact hbe.sell t.toDeal (hrest hsi)

theorem book_shows {key : PositionKey} (hb : BookShows b key .empty) (hd : NoDust trades) :
    BookShows (bookAfter key b trades) key (after full (trades.map toDeal)) := by
  induction trades using reverseRecOn with
  | nil => exact hb
  | append_singleton trades t ih =>
    rw [map_append, map_singleton, after_snoc, bookAfter, foldl_append]
    exact (ih hd.init).apply t fun hse => hd.leaves hse full

/-! ## Agreement -/

@[ext]
structure Figures where
  openQty : ℚ
  costBasis : ℚ
  realized : ℚ
  deriving DecidableEq

def reconstructed (trades : List Trade) : Figures :=
  let r := reconstructPnl (trades.map record)
  ⟨r.openQty, r.openCostBasis, r.realized⟩

def applied (p : LivePosition) (trades : List Trade) : Figures :=
  let p := trades.foldl (fun p t => t.onPosition p) p
  ⟨p.qty, p.costBasis, p.realised⟩

def booked (trades : List Trade) : Figures :=
  match (bookAfter key .new trades).positions.lookup key with
  | none => ⟨0, 0, 0⟩
  | some pos => ⟨pos.qty, pos.costBasis, pos.realized⟩

private def figuresOf (h : Holding ℚ) : Figures := ⟨h.qty, h.cost, h.realized⟩

private theorem reconstructed_eq (trades : List Trade) :
    reconstructed trades = figuresOf (after prorated (trades.map toDeal)) := by
  have hr := replay_shows trades
  ext
  · exact hr.openQty_eq
  · show max _ 0 = _
    rw [hr.openCost_eq]
    exact max_eq_left (cost_nonneg _)
  · exact hr.realized_eq

private theorem applied_eq (hp : p.Shows .empty) (hd : NoDust trades) :
    applied p trades = figuresOf (after unlessFlat (trades.map toDeal)) := by
  have hsh := position_shows hp hd
  ext
  · exact hsh.qty_eq
  · exact hsh.costBasis_eq
  · exact hsh.realised_eq

private theorem booked_eq (hd : NoDust trades) :
    booked key trades = figuresOf (after full (trades.map toDeal)) := by
  have hsh := book_shows (fun ts => BookPosition.shows_new key ts) hd (b := .new) 0
  have hbo : booked key trades =
      let pos := ((bookAfter key .new trades).positions.lookup key).getD (.new key 0)
      ⟨pos.qty, pos.costBasis, pos.realized⟩ := by
    unfold booked
    split
    · next hn => rw [hn]; rfl
    · next pos hso => rw [hso]; rfl
  rw [hbo]
  ext
  · exact hsh.qty_eq
  · exact hsh.costBasis_eq
  · exact hsh.realized_eq

private theorem figuresOf_eq_iff (small large : Credit ℚ) (deals : List (Deal ℚ)) :
    figuresOf (after small deals) = figuresOf (after large deals) ↔
    (after small deals).realized = (after large deals).realized := by
  rw [figuresOf, figuresOf, qty_after_eq small large, cost_after_eq small large]
  simp

/-- Nothing is sold for money beyond what is held at that time. -/
def NothingSoldShort (trades : List Trade) : Prop :=
  ∀ done t rest, trades = done ++ t :: rest → t.side = .sell → 0 < t.quote → t.qty ≤ openQty done

private theorem covered_iff (trades : List Trade) :
    Lib.AverageCost.Covered (trades.map toDeal) ↔ NothingSoldShort trades := by
  constructor
  · intro h done t rest he
    refine h (done.map toDeal) t.toDeal (rest.map toDeal) ?_
    rw [he, map_append, map_cons]
  · intro h done d rest he
    obtain ⟨before, later, rfl, rfl, hl⟩ := map_eq_append_iff.mp he
    obtain ⟨t, last, rfl, rfl, rfl⟩ := map_eq_cons_iff.mp hl
    exact h before t last rfl

/-- Away from dust, the three books agree if and only if nothing was sold short. -/
theorem books_agree_iff (id : String) (source : TradeSource) (key : PositionKey) (opened : Int)
    (trades : List Trade) (hdust : NoDust trades) :
    (reconstructed trades = applied (.new id source key.asset opened) trades ∧
      applied (.new id source key.asset opened) trades = booked key trades) ↔
        NothingSoldShort trades := by
  rw [reconstructed_eq, applied_eq (LivePosition.shows_new ..) hdust, booked_eq key hdust,
    figuresOf_eq_iff, figuresOf_eq_iff, realized_agree_iff, covered_iff]

private def sampleTrade (side : Side) (qty quote : ℕ) (hqty : 0 < qty) : Trade where
  side := side
  qty := qty
  quote := quote
  qty_pos := Nat.cast_pos.mpr hqty
  quote_nonneg := Nat.cast_nonneg quote
  price := 1
  price_nonneg := by decide
  ts := 0
  now := 0
  referenceId := "sig"
  correlationId := none
  positionId := none
  detail := ""
  eventId := "led"

private def sampleKey : PositionKey := ⟨.sniper, .pumpFun, "wallet", "sniper", "MINT", "SOL", .live⟩

private def partialExit : List Trade :=
  [sampleTrade .buy 10 10 (by decide), sampleTrade .sell 4 8 (by decide)]

theorem books_agree_partialExit : NoDust partialExit ∧
      reconstructed partialExit = applied (.new "p" .sniper "MINT" 0) partialExit ∧
      applied (.new "p" .sniper "MINT" 0) partialExit = booked sampleKey partialExit ∧
      NothingSoldShort partialExit := by
  have ha : reconstructed partialExit = applied (.new "p" .sniper "MINT" 0) partialExit ∧
      applied (.new "p" .sniper "MINT" 0) partialExit = booked sampleKey partialExit := by
    decide +kernel
  have hd : NoDust partialExit := by decide +kernel
  exact ⟨hd, ha.1, ha.2, (books_agree_iff "p" .sniper sampleKey 0 partialExit hd).mp ha⟩

private def overSell : List Trade :=
  [sampleTrade .buy 10 10 (by decide), sampleTrade .sell 20 40 (by decide)]

/-- Ten units bought for 10, then a sale of twenty for 40: the reconciler counts a profit
of 10, the position and the book one of 30. -/
theorem overSell_disagrees : NoDust overSell ∧ reconstructed overSell = ⟨0, 0, 10⟩ ∧
      applied (.new "p" .sniper "MINT" 0) overSell = ⟨0, 0, 30⟩ ∧
      booked sampleKey overSell = ⟨0, 0, 30⟩ := by
  decide +kernel

end SniperBot.Accounting
