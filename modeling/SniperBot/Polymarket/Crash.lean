import SniperBot.Polymarket.Journal

/-!
# Crashes and recovery

The process may stop at any point, in particular between a fill row and the snapshot of its
order, and comes back with what the journal holds. One order is followed; what other orders
journal may come in between.
-/

namespace SniperBot.Polymarket

open Execution (isBlank)
open Lib.Runs
open Lib.Tally

inductive Process where
  | down
  | idle (tracked : Option TrackedOrder)
  | writing (next : TrackedOrder) (newRow : Bool)

def Process.rowAhead : Process → Bool
  | .writing _ newRow => newRow
  | .down | .idle _ => false

/-- Restart recovery of one order. An open paper row means that the process died while it
was filled. -/
def PolyStore.recover (store : PolyStore) (venueOrderId : String) (now : Int) : Process :=
  match store.openOrder venueOrderId with
  | none => .idle none
  | some row =>
    let tracked := row.tracked now
    if tracked.mode ≠ .live then
      match tracked.finishLocally .failed "stale paper order after restart" now with
      | some next => .writing next false
      | none => .idle none
    else .idle (some tracked)

structure Engine (size : ℚ) where
  venue : Venue size
  store : PolyStore
  process : Process

namespace Engine

inductive Event where
  | trade
  | observe
  | save
  | finish
  | prune
  | elsewhere
  | crash
  | recover

variable {size : ℚ} (sha : String → String) (venueOrderId : String)

inductive Step : Engine size → Event → Engine size → Prop
  | trade {s : Engine size} {v : Venue size} {x : VenueTrade}
      (h : v.trades = s.venue.trades ++ [x]) : Step s .trade { s with venue := v }
  | observe {v : Venue size} {store : PolyStore} {t : TrackedOrder} {obs : VenueObservation}
      {position : String} {b : Booking} (hobs : Consistent v t obs)
      (hbook : store.bookObservation sha position t obs = .ok b) :
      Step ⟨v, store, .idle (some t)⟩ .observe ⟨v, b.store, .writing b.tracked b.newRow⟩
  | save {v : Venue size} {store : PolyStore} {next : TrackedOrder} {newRow : Bool} :
      Step ⟨v, store, .writing next newRow⟩ .save ⟨v, store.journalOrder next, .idle (some next)⟩
  | finish {v : Venue size} {store : PolyStore} {t next : TrackedOrder}
      {target : LocalOrderState} {reason : String} {now : Int}
      (htarget : target = .failed ∨ target = .unknown ∨ target = .cancelled)
      (h : t.finishLocally target reason now = some next) :
      Step ⟨v, store, .idle (some t)⟩ .finish ⟨v, store, .writing next false⟩
  | prune {v : Venue size} {store : PolyStore} {t : TrackedOrder} (h : t.state.isTerminal = true) :
      Step ⟨v, store, .idle (some t)⟩ .prune ⟨v, store, .idle none⟩
  | elsewhere {s : Engine size} {rows : List PolyFillRecord}
      (h : ∀ row ∈ rows, row.venueOrderId ≠ venueOrderId) :
      Step s .elsewhere { s with store := { s.store with fills := s.store.fills ++ rows } }
  | crash {s : Engine size} : Step s .crash { s with process := .down }
  | recover {v : Venue size} {store : PolyStore} {now : Int} :
      Step ⟨v, store, .down⟩ .recover ⟨v, store, store.recover venueOrderId now⟩

end Engine

/-! ## What is journaled of the order -/

structure RowSound {size : ℚ} (v : Venue size) (venueOrderId : String) (row : PolyOrderRecord) :
    Prop where
  id_eq : row.venueOrderId = venueOrderId
  size_eq : row.sizeTokens = size
  nonneg : 0 ≤ row.sizeMatched
  le_matched : row.sizeMatched ≤ v.matched
  part : LocalOrderState.parse row.state = .partiallyFilled → fillThreshold < row.sizeMatched

section

variable {size : ℚ} {v : Venue size} {t : TrackedOrder} {row : PolyOrderRecord} {now : Int}
  {venueOrderId : String} {store : PolyStore}

theorem RowSound.extends_venue (h : RowSound v venueOrderId row) {v' : Venue size} {x : VenueTrade}
    (hv : v'.trades = v.trades ++ [x]) : RowSound v' venueOrderId row :=
  { h with le_matched := h.le_matched.trans (Venue.matched_extends hv) }

theorem RowSound.tracked (h : RowSound v venueOrderId row) : Sound v (row.tracked now) where
  size_eq := h.size_eq
  nonneg := h.nonneg
  le_matched := h.le_matched
  trades_le := by
    show (0 : ℚ) ≤ known v.trades []
    rw [known_nil]
  part := by
    unfold PolyOrderRecord.tracked
    exact h.part

theorem Sound.journalRecord (h : Sound v t) : RowSound v t.venueOrderId t.journalRecord where
  id_eq := rfl
  size_eq := h.size_eq
  nonneg := h.nonneg
  le_matched := h.le_matched
  part := by
    show LocalOrderState.parse t.state.asStr = _ → _
    rw [LocalOrderState.parse_asStr]
    exact h.part

theorem journalOrder_row (h : Sound v t) (hro : store.orders t.venueOrderId = some row)
    (hso : RowSound v t.venueOrderId row) :
    ∃ row', (store.journalOrder t).orders t.venueOrderId = some row' ∧
    RowSound v t.venueOrderId row' ∧ t.sizeMatched ≤ row'.sizeMatched := by
  have hr := h.journalRecord
  have hm := store.upsertOrder_orders t.journalRecord hro
  exact ⟨_, hm, ⟨rfl, h.size_eq, le_max_of_le_left hso.nonneg,
    max_le hso.le_matched h.le_matched, fun hpa => lt_max_of_lt_right (hr.part hpa)⟩,
    le_max_right _ _⟩

end

/-! ## What every step keeps -/

namespace Engine

variable {size : ℚ} {sha : String → String} {venueOrderId : String} {s s' : Engine size}
  {ev : Event}

/-- The rows of the order are covered by the size that the process stands for. -/
def Covers (s : Engine size) (venueOrderId : String) (row : PolyOrderRecord) : Prop :=
  match s.process with
  | .down => s.store.booked venueOrderId ≤ row.sizeMatched
  | .idle tracked => s.store.booked venueOrderId ≤ row.sizeMatched ∧
      ∀ t ∈ tracked, Sound s.venue t ∧ t.venueOrderId = venueOrderId ∧
        s.store.booked venueOrderId ≤ t.sizeMatched
  | .writing next newRow => Sound s.venue next ∧ next.venueOrderId = venueOrderId ∧
      s.store.booked venueOrderId ≤ next.sizeMatched ∧
      (newRow = false → s.store.booked venueOrderId ≤ row.sizeMatched)

structure Kept (venueOrderId : String) (s : Engine size) (row : PolyOrderRecord) : Prop where
  row_eq : s.store.orders venueOrderId = some row
  sound : RowSound s.venue venueOrderId row
  covers : s.Covers venueOrderId row

theorem booked_elsewhere (store : PolyStore) {rows : List PolyFillRecord}
    (h : ∀ row ∈ rows, row.venueOrderId ≠ venueOrderId) :
    ({ store with fills := store.fills ++ rows } : PolyStore).booked venueOrderId =
      store.booked venueOrderId := by
  have hn : rows.filter (·.venueOrderId = venueOrderId) = [] := by
    simpa [List.filter_eq_nil_iff] using h
  unfold PolyStore.booked
  rw [List.filter_append, hn, List.append_nil]

variable {row : PolyOrderRecord}

theorem Kept.crash (h : Kept venueOrderId s row) (hsa : s.process.rowAhead = false) :
    Kept venueOrderId { s with process := .down } row := by
  refine ⟨h.row_eq, h.sound, ?_⟩
  have hc := h.covers
  show s.store.booked venueOrderId ≤ row.sizeMatched
  obtain ⟨v, store, process⟩ := s
  cases process with
  | down => exact hc
  | idle tracked => exact hc.1
  | writing next newRow => exact hc.2.2.2 hsa

theorem recover_cases (store : PolyStore) (now : Int) :
    store.recover venueOrderId now = .idle none ∨ ∃ row, store.orders venueOrderId = some row ∧
      (store.recover venueOrderId now = .idle (some (row.tracked now)) ∨
        ∃ reason next, (row.tracked now).finishLocally .failed reason now = some next ∧
          store.recover venueOrderId now = .writing next false) := by
  unfold PolyStore.recover
  cases ho : store.openOrder venueOrderId with
  | none => exact .inl rfl
  | some row =>
    have hr : store.orders venueOrderId = some row := by
      exact (Option.filter_eq_some_iff.mp ho).1
    dsimp only
    generalize "stale paper order after restart" = reason
    by_cases hl : (row.tracked now).mode = .live
    · exact .inr ⟨row, hr, .inl (if_neg (not_not.mpr hl))⟩
    · rw [if_pos hl]
      cases hf : (row.tracked now).finishLocally .failed reason now with
      | none => exact .inl rfl
      | some next => exact .inr ⟨row, hr, .inr ⟨reason, next, hf, rfl⟩⟩

theorem Kept.recover {v : Venue size} {store : PolyStore} (now : Int)
    (h : Kept venueOrderId ⟨v, store, .down⟩ row) :
    Kept venueOrderId ⟨v, store, store.recover venueOrderId now⟩ row := by
  refine ⟨h.row_eq, h.sound, ?_⟩
  have hbo : store.booked venueOrderId ≤ row.sizeMatched := h.covers
  have htr : Sound v (row.tracked now) := h.sound.tracked
  have hsa : ∀ row', store.orders venueOrderId = some row' → row' = row := fun row' hr' =>
    Option.some.inj (hr'.symm.trans h.row_eq)
  rcases recover_cases store now with hn | ⟨row', hr', hi | ⟨reason, next, hf, hw⟩⟩
  · rw [hn]
    exact ⟨hbo, by simp⟩
  · obtain rfl := hsa row' hr'
    rw [hi]
    refine ⟨hbo, fun t ht => ?_⟩
    obtain rfl := Option.some.inj ht
    exact ⟨htr, h.sound.id_eq, hbo⟩
  · obtain rfl := hsa row' hr'
    rw [hw]
    obtain ⟨hso, hid, hsize⟩ := htr.finishLocally (by decide) hf
    exact ⟨hso, hid.trans h.sound.id_eq, hsize ▸ hbo, fun _ => hbo⟩

theorem Step.kept (hs : Step sha venueOrderId s ev s') (h : Kept venueOrderId s row)
    (hcr : ev = .crash → s.process.rowAhead = false) :
    ∃ row, Kept venueOrderId s' row := by
  cases hs with
  | trade hv =>
    refine ⟨row, h.row_eq, h.sound.extends_venue hv, ?_⟩
    have hc := h.covers
    obtain ⟨v, store, process⟩ := s
    cases process with
    | down => exact hc
    | idle tracked =>
      exact ⟨hc.1, fun t ht => ⟨(hc.2 t ht).1.extends_venue hv, (hc.2 t ht).2⟩⟩
    | writing next newRow => exact ⟨hc.1.extends_venue hv, hc.2⟩
  | @observe v store t obs position b ho hboo =>
    obtain ⟨hbo, htr⟩ := h.covers
    obtain ⟨hso, rfl, hsize⟩ := htr t rfl
    obtain ⟨b', hb', hk⟩ := bookObservation_booked position hso ho
    obtain rfl : b' = b := Except.ok.inj (hb'.symm.trans hboo)
    refine ⟨row, ?_, h.sound, hk.sound, hk.same_id, ?_, ?_⟩
    · show b'.store.orders _ = _
      rw [hk.same_orders]
      exact h.row_eq
    · have hr := hk.rows
      linarith
    · intro hold
      show b'.store.booked _ ≤ _
      rw [hk.old hold]
      exact hbo
  | @save v store next newRow =>
    obtain ⟨hso, rfl, hsize, -⟩ := h.covers
    obtain ⟨row', hr', hso', hm⟩ := journalOrder_row hso h.row_eq h.sound
    refine ⟨row', hr', hso', le_trans hsize hm, ?_⟩
    intro t ht
    obtain rfl := Option.some.inj ht
    exact ⟨hso, rfl, hsize⟩
  | @finish v store t next target reason now hta hf =>
    obtain ⟨hbo, htr⟩ := h.covers
    obtain ⟨hso, hi, hsize⟩ := htr t rfl
    obtain ⟨hnext, hi', hs'⟩ := hso.finishLocally (by rcases hta with rfl | rfl | rfl <;> decide) hf
    exact ⟨row, h.row_eq, h.sound, hnext, hi'.trans hi, hs' ▸ hsize, fun _ => hbo⟩
  | prune =>
    exact ⟨row, h.row_eq, h.sound, h.covers.1, by simp⟩
  | elsewhere hr =>
    refine ⟨row, h.row_eq, h.sound, ?_⟩
    have hc := h.covers
    unfold Covers at ⊢
    rwa [booked_elsewhere s.store hr]
  | crash => exact ⟨row, h.crash (hcr rfl)⟩
  | recover => exact ⟨row, h.recover _⟩

theorem Kept.booked_le (h : Kept venueOrderId s row) :
    s.store.booked venueOrderId ≤ s.venue.matched := by
  have hc := h.covers
  have hm := h.sound.le_matched
  obtain ⟨v, store, process⟩ := s
  cases process with
  | down => exact le_trans hc hm
  | idle tracked => exact le_trans hc.1 hm
  | writing next newRow => exact le_trans hc.2.2.1 hc.1.le_matched

end Engine

/-- As long as no crash falls between a new fill row and the snapshot of its order, the rows
of the order never exceed what the venue has matched. -/
theorem journal_within_matched (sha : String → String) {size : ℚ} (v : Venue size)
    (t : TrackedOrder) (ht : t.Fresh size) (store : PolyStore)
    (hrow : store.orders t.venueOrderId = some t.journalRecord)
    (hnone : ∀ row ∈ store.fills, row.venueOrderId ≠ t.venueOrderId)
    {tr : List (Entry (Engine size) Engine.Event)} {s : Engine size}
    (hr : Run (Engine.Step sha t.venueOrderId) ⟨v, store, .idle (some t)⟩ tr s)
    (hcrash : ∀ e ∈ tr, e.label = .crash → e.pre.process.rowAhead = false) :
    s.store.booked t.venueOrderId ≤ s.venue.matched := by
  have hso : Sound v t := .of_fresh ht
  have hbo : store.booked t.venueOrderId = 0 := Engine.booked_elsewhere ⟨store.orders, []⟩ hnone
  have h0 : Engine.Kept t.venueOrderId ⟨v, store, .idle (some t)⟩ t.journalRecord := by
    refine ⟨hrow, hso.journalRecord, ?_, ?_⟩
    · exact hbo.trans_le hso.nonneg
    · intro t' ht'
      obtain rfl := Option.some.inj ht'
      exact ⟨hso, rfl, hbo.trans_le hso.nonneg⟩
  obtain ⟨row, hkept⟩ := hr.invariant_of_entries
    (I := fun s => ∃ row, Engine.Kept t.venueOrderId s row)
    (P := fun e => e.label = .crash → e.pre.process.rowAhead = false)
    (fun s ev s' ⟨row, hkept⟩ hsa hst => hst.kept hkept hsa) hcrash ⟨_, h0⟩
  exact hkept.booked_le

/-! ## A crash after a fill row -/

private def fiveOfTen : Venue 10 where
  trades := [⟨"t1", 5⟩]
  ids_nodup := by decide +kernel
  ids_named := by decide +kernel
  sizes_nonneg := by decide +kernel
  total_le := by decide +kernel

private theorem fiveOfTen_matched : fiveOfTen.matched = 5 := by decide +kernel

private def sentBid : TrackedOrder := .new "0x1" true "GTC" (1 / 2) 10 .live 0

private def sentStore : PolyStore where
  orders id := if id = "0x1" then some sentBid.journalRecord else none
  fills := []

private def pollFive : VenueObservation where
  state := .live
  rawStatus := "live"
  sizeMatched := some 5
  fillDelta := none
  tradeId := none
  price := none
  source := .poll
  observedAt := 1
  associateTrades := []

private def tradeFive : VenueObservation :=
  { pollFive with
    rawStatus := "trade", sizeMatched := none, fillDelta := some 5, tradeId := some "t1",
    source := .userWs }

private theorem pollFive_consistent (t : TrackedOrder) : Consistent fiveOfTen t pollFive where
  evidence := .cumulative 1 (by decide +kernel) rfl rfl fun h => absurd rfl h
  whole h := by cases h

private theorem tradeFive_consistent (t : TrackedOrder) : Consistent fiveOfTen t tradeFive where
  evidence := .trade ⟨"t1", 5⟩ (List.mem_singleton_self _) rfl rfl rfl rfl
  whole h := by cases h

private def effectOf (source : Option String) : LifecycleEffect where
  fillDelta := 5
  fillPrice := 1 / 2
  fromState := .submitted
  toState := .partiallyFilled
  transitioned := true
  tradeId := source

private def recoveredBid : TrackedOrder := sentBid.journalRecord.tracked 2

section

variable (sha : String → String)

private def pollRow : PolyFillRecord :=
  (sentBid.applyVenue pollFive).1.fillRecord sha "p1" 5 (1 / 2) .poll none

private def tradeRow : PolyFillRecord :=
  (recoveredBid.applyVenue tradeFive).1.fillRecord sha "p1" 5 (1 / 2) .userWs (some "t1")

private theorem pollFive_booked : ∃ tracked, sentStore.bookObservation sha "p1" sentBid pollFive =
    .ok ⟨{ sentStore with fills := [pollRow sha] }, tracked, true, effectOf none⟩ := by
  have ha : sentBid.applyVenue pollFive =
      ((sentBid.applyVenue pollFive).1, .ok (effectOf none)) := by
    decide +kernel
  exact ⟨_, bookObservation_of_new "p1" ha (by decide +kernel) List.not_mem_nil⟩

private theorem tradeFive_booked : ∃ tracked, PolyStore.bookObservation sha
      { sentStore with fills := [pollRow sha] } "p1" recoveredBid tradeFive =
      .ok ⟨{ sentStore with fills := [pollRow sha, tradeRow sha] }, tracked, true,
        effectOf (some "t1")⟩ := by
  have ha : recoveredBid.applyVenue tradeFive =
      ((recoveredBid.applyVenue tradeFive).1, .ok (effectOf (some "t1"))) := by
    decide +kernel
  refine ⟨_, bookObservation_of_new "p1" ha (by decide +kernel) ?_⟩
  intro hi
  have hbl : isBlank "t1" = false := by decide +kernel
  exact fillId_trade_ne _ _ hbl _ _ (List.mem_singleton.mp hi)

end

/-- The poll's fill is journaled, the process stops before the order is, and the trade is
booked again under its own id when it comes. -/
theorem crash_after_row_books_twice : ∃ (v : Venue 10) (t : TrackedOrder) (store : PolyStore),
      t.Fresh 10 ∧ store.orders t.venueOrderId = some t.journalRecord ∧ store.fills = [] ∧
      ∀ sha : String → String, ∃ (s : Engine 10) (tr : List (Entry (Engine 10) Engine.Event)),
          Run (Engine.Step sha t.venueOrderId) ⟨v, store, .idle (some t)⟩ tr s ∧
          tr.map Entry.label = [.observe, .crash, .recover, .observe] ∧
          s.venue.matched = 5 ∧ s.store.booked t.venueOrderId = 10 := by
  refine ⟨fiveOfTen, sentBid, sentStore, ⟨rfl, rfl, rfl, rfl, by decide⟩, rfl, rfl, ?_⟩
  intro sha
  obtain ⟨polled, hpo⟩ := pollFive_booked sha
  obtain ⟨traded, htrade⟩ := tradeFive_booked sha
  have hr : Engine.Step sha "0x1"
      ⟨fiveOfTen, { sentStore with fills := [pollRow sha] }, .down⟩ .recover
      ⟨fiveOfTen, { sentStore with fills := [pollRow sha] }, .idle (some recoveredBid)⟩ :=
    .recover
  have hru := (((Run.single (.observe (pollFive_consistent _) hpo)).snoc .crash).snoc
    hr).snoc (.observe (tradeFive_consistent _) htrade)
  refine ⟨_, _, hru, rfl, fiveOfTen_matched, ?_⟩
  have hpol : (pollRow sha).venueOrderId = "0x1" := sentBid.applyVenue_venueOrderId _
  have htr : (tradeRow sha).venueOrderId = "0x1" := recoveredBid.applyVenue_venueOrderId _
  show (([pollRow sha, tradeRow sha].filter
    (·.venueOrderId = "0x1")).map PolyFillRecord.sizeTokens).sum = 10
  rw [List.filter_cons_of_pos (by simpa using hpol), List.filter_cons_of_pos (by simpa using htr)]
  show (5 : ℚ) + (5 + 0) = 10
  norm_num

/-- With the snapshot written before the crash. -/
theorem journal_within_matched_saved :
    ∃ (s : Engine 10) (tr : List (Entry (Engine 10) Engine.Event)),
    Run (Engine.Step id "0x1") ⟨fiveOfTen, sentStore, .idle (some sentBid)⟩ tr s ∧
      tr.map Entry.label = [.observe, .save, .crash] ∧ s.store.booked "0x1" ≤ s.venue.matched := by
  obtain ⟨polled, hpo⟩ := pollFive_booked id
  have hr : Run (Engine.Step id "0x1") ⟨fiveOfTen, sentStore, .idle (some sentBid)⟩ _ _ :=
    ((Run.single (.observe (pollFive_consistent _) hpo)).snoc .save).snoc .crash
  refine ⟨_, _, hr, rfl, journal_within_matched id fiveOfTen sentBid
    ⟨rfl, rfl, rfl, rfl, by decide⟩ sentStore rfl (fun _ h => by cases h) hr ?_⟩
  simp [Process.rowAhead]

end SniperBot.Polymarket
