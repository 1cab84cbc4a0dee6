import SniperBot.Accounting.Posting

/-!
# The global ledger of a replica

The book, the realized series and the applied events change together, one event at a time. What
the source keeps in maps of their own is read off the list of applied events. Amounts are exact,
times of record are nanoseconds and times of events milliseconds. Metrics, audit records and
position snapshots are left out.
-/

namespace SniperBot.Accounting

open GlobalRisk (PositionKey)
open Lib.DoubleEntry
open Lib.Guard

/-! ## The realized series -/

/-- Realized profit after fees by day and quote asset, and its sum and peak by quote asset. -/
structure RealizedSeries where
  byDay : AList fun _ : Int × String => ℚ
  total : AList fun _ : String => ℚ
  peak : AList fun _ : String => ℚ

namespace RealizedSeries

def empty : RealizedSeries := ⟨∅, ∅, ∅⟩

/-- The fee that counts: a fee event without a fee pays its quote amount. -/
def feeOf (event : AccountingEvent) : ℚ :=
  if event.kind = .fee ∧ event.fee ≤ 0 then event.quoteAmount else event.fee

def dayOf (event : AccountingEvent) : Int := event.ts / 86400000

def foldSeries (series : RealizedSeries) (event : AccountingEvent) (effect : BookEffect) :
    RealizedSeries :=
  let net := effect.realizedDelta - feeOf event
  if net = 0 then series
  else
    let total := add series.total event.quoteAsset net
    { byDay := add series.byDay (dayOf event, event.quoteAsset) net
      total := total
      peak := series.peak.insert event.quoteAsset
        (max (balance series.peak event.quoteAsset) (balance total event.quoteAsset)) }

end RealizedSeries

/-! ## Applied events -/

structure StoredEvent where
  eventId : String
  event : AccountingEvent
  recordedAt : Int
  replicaId : String
  deriving DecidableEq

abbrev Row := StoredEvent × Entry

open PositionBook

def PositionBook.costOfSlice (b : PositionBook) (event : AccountingEvent) : ℚ :=
  if event.kind.movesInventory = false ∨ event.side ≠ some .sell then 0
  else ((b.positions.lookup event.key).map (·.costOfSlice event.quantity)).getD 0

structure Inner where
  book : PositionBook
  events : List Row
  /-- Ids of applied events that are not known to be in the journal. -/
  pending : List String
  series : RealizedSeries
  lastRecordedAt : Option Int

namespace Inner

def empty : Inner := ⟨.new, [], [], .empty, none⟩

variable (sha : String → String) (inner : Inner)

def find (eventId : String) : Option Row := inner.events.find? fun row => row.1.eventId = eventId

variable (row : Row)

def enter : Inner :=
  let (book, effect) := inner.book.apply row.1.event row.1.eventId
  { inner with
    book := book
    series := inner.series.foldSeries row.1.event effect
    events := inner.events ++ [row] }

@[simp] theorem book_enter :
    (inner.enter row).book = (inner.book.apply row.1.event row.1.eventId).1 := rfl

@[simp] theorem series_enter : (inner.enter row).series =
    inner.series.foldSeries row.1.event (inner.book.apply row.1.event row.1.eventId).2 := rfl

@[simp] theorem events_enter : (inner.enter row).events = inner.events ++ [row] := rfl

@[simp] theorem pending_enter : (inner.enter row).pending = inner.pending := rfl

def accept (stored : StoredEvent) : Except PostingError Inner := do
  let entry ← stored.event.expand sha (inner.book.costOfSlice stored.event)
  return inner.enter (stored, entry)

def acceptAll (events : List StoredEvent) : Except PostingError Inner :=
  events.foldlM (accept sha) inner

end Inner

/-! ## What one accepted event does -/

section

variable {sha : String → String} {inner inner' : Inner} {stored : StoredEvent}

theorem accept_eq_ok : inner.accept sha stored = .ok inner' ↔
    stored.event.Acceptable sha ∧ inner' = inner.enter
        (stored, stored.event.entry sha (inner.book.costOfSlice stored.event)) := by
  unfold Inner.accept
  rw [bind_eq_ok]
  constructor
  · rintro ⟨entry, he, heq⟩
    obtain ⟨ha, rfl⟩ := (expand_eq_ok sha).mp he
    exact ⟨ha, (Except.ok.inj heq).symm⟩
  · rintro ⟨ha, rfl⟩
    exact ⟨_, (expand_eq_ok sha).mpr ⟨ha, rfl⟩, rfl⟩

section

variable {I : List StoredEvent → Inner → Prop} {P : StoredEvent → Prop} {events : List StoredEvent}
  (hst : ∀ done inner stored inner', P stored → I done inner → inner.accept sha stored = .ok inner' → I (done ++ [stored]) inner')
  (h : inner.acceptAll sha events = .ok inner') (hP : ∀ stored ∈ events, P stored)

include hst h hP

private theorem acceptAll_invariant_from {done : List StoredEvent} (h0 : I done inner) : I (done ++ events) inner' := by
  induction events generalizing inner done with
  | nil =>
    rw [List.append_nil, ← Except.ok.inj h]
    exact h0
  | cons stored events ih =>
    rw [Inner.acceptAll, List.foldlM_cons, bind_eq_ok] at h
    obtain ⟨next, hnext, hrest⟩ := h
    rw [← List.singleton_append, ← List.append_assoc]
    exact ih hrest (fun s hs => hP s (List.mem_cons_of_mem _ hs))
      (hst done inner stored next (hP stored List.mem_cons_self) h0 hnext)

theorem acceptAll_invariant (h0 : I [] inner) : I events inner' :=
  acceptAll_invariant_from hst h hP h0

end

end

/-! ## What the book does with an event -/

section

variable {b : PositionBook} {e : AccountingEvent} {eventId : String}

theorem BookPosition.costOfSlice_nonneg (pos : BookPosition) (quantity : ℚ) :
    0 ≤ pos.costOfSlice quantity := by
  refine mul_nonneg ?_ (le_max_right _ _)
  unfold BookPosition.avgCost
  split
  · next h => exact (div_pos h.2 h.1).le
  · exact le_rfl

theorem costOfSlice_of_sells (h : e.Sells) :
    b.costOfSlice e = (b.entry e).costOfSlice e.quantity := by
  rw [costOfSlice, if_neg (by simp [h.1, h.2]), entry]
  cases b.positions.lookup e.key with
  | some pos => rfl
  | none =>
    show 0 = BookPosition.avgCost _ * _
    rw [BookPosition.avgCost, if_neg (fun h => lt_irrefl _ h.1), zero_mul]

theorem PositionBook.costOfSlice_nonneg : 0 ≤ b.costOfSlice e := by
  unfold costOfSlice
  split
  · exact le_rfl
  · cases b.positions.lookup e.key with
    | none => exact le_rfl
    | some pos => exact pos.costOfSlice_nonneg e.quantity

theorem apply_of_cash (h : e.kind.movesInventory = false) : b.apply e eventId = (b.applyCash e,
    { key := e.key, qtyBefore := 0, qtyAfter := 0, realizedDelta := 0, feeDelta := e.fee,
        costOfSlice := 0, transition := .cash }) := by
  rw [apply, if_pos (by simp [h])]

theorem book_of_buys (h : e.Buys) :
    (b.apply e eventId).1 = { b with
    positions := b.positions.insert e.key
        (((b.entry e).buy e.quantity e.quoteAmount e.fee).stamp e eventId) } ∧
      (b.apply e eventId).2.realizedDelta = 0 := by
  rw [apply, if_neg (by simp [h.1])]
  rcases hsi : e.side with _ | _ | _
  · exact ⟨rfl, rfl⟩
  · exact ⟨rfl, rfl⟩
  · exact (h.2 hsi).elim

theorem book_of_sells (h : e.Sells) :
    (b.apply e eventId).1 = { b with
    positions := b.positions.insert e.key
        (((b.entry e).sell e.quantity e.quoteAmount e.fee).stamp e eventId) } ∧
      (b.apply e eventId).2.realizedDelta = e.quoteAmount + e.fee - b.costOfSlice e := by
  rw [costOfSlice_of_sells h, apply, if_neg (by simp [h.1]), h.2]
  exact ⟨rfl, rfl⟩

theorem moves_cases (e : AccountingEvent) : e.kind.movesInventory = false ∨ e.Buys ∨ e.Sells := by
  by_cases hm : e.kind.movesInventory = true
  · by_cases hsi : e.side = some .sell
    · exact Or.inr (Or.inr ⟨hm, hsi⟩)
    · exact Or.inr (Or.inl ⟨hm, hsi⟩)
  · exact Or.inl (by simpa using hm)

end

end SniperBot.Accounting
