import SniperBot.Lib.Double
import SniperBot.Polymarket.Fills

/-!
# The journal of orders and fills

A fill is journaled under an id of its own before the order's snapshot is, and an id that
the journal already holds is not booked again. Positions, trades and the accounting ledger
are booked with a new row and leave the sizes alone. The journal always answers.
-/

namespace SniperBot.Polymarket

open Execution (isBlank trim)
open Lib.Double (roundedQuotient)
open Lib.Tally
open Orders (ExecutionMode)

structure PolyFillRecord where
  fillId : String
  venueOrderId : String
  side : String
  price : ℚ
  sizeTokens : ℚ
  quoteUsd : ℚ
  source : String
  positionId : Option String

structure PolyOrderRecord where
  venueOrderId : String
  side : String
  orderType : String
  limitPrice : ℚ
  sizeTokens : ℚ
  sizeMatched : ℚ
  mode : String
  state : String
  venueStatus : String
  positionId : Option String
  submittedAt : Int
  updatedAt : Int
  closedAt : Option Int

structure PolyStore where
  orders : String → Option PolyOrderRecord
  fills : List PolyFillRecord

namespace PolyStore

variable (store : PolyStore)

/-- A matched size never falls and a closed order stays closed. -/
def upsertOrder (rec : PolyOrderRecord) : PolyStore :=
  let merged := match store.orders rec.venueOrderId with
    | none => rec
    | some existing =>
      { rec with
        submittedAt := existing.submittedAt
        sizeMatched := max existing.sizeMatched rec.sizeMatched
        positionId := rec.positionId.or existing.positionId
        closedAt := rec.closedAt.or existing.closedAt }
  { store with orders := fun id => if id = rec.venueOrderId then some merged else store.orders id }

def recordFill (rec : PolyFillRecord) : PolyStore × Bool :=
  if rec.fillId ∈ store.fills.map PolyFillRecord.fillId then (store, false)
  else ({ store with fills := store.fills ++ [rec] }, true)

def openOrder (venueOrderId : String) : Option PolyOrderRecord :=
  (store.orders venueOrderId).filter (·.closedAt.isNone)

def booked (venueOrderId : String) : ℚ :=
  ((store.fills.filter (·.venueOrderId = venueOrderId)).map PolyFillRecord.sizeTokens).sum

end PolyStore

def sideStr (isBuy : Bool) : String := if isBuy then "buy" else "sell"

def fixedSix (q : ℚ) : String :=
  let scaled := roundedQuotient (q.num.natAbs * 10 ^ 6) q.den
  let decimals := (Nat.repr (scaled % 10 ^ 6)).toList
  (if q < 0 then "-" else "") ++ Nat.repr (scaled / 10 ^ 6) ++ "." ++
    String.ofList (List.replicate (6 - decimals.length) '0' ++ decimals)

namespace TrackedOrder

def journalRecord (t : TrackedOrder) : PolyOrderRecord where
  venueOrderId := t.venueOrderId
  side := sideStr t.isBuy
  orderType := t.orderType
  limitPrice := t.limitPrice
  sizeTokens := t.sizeTokens
  sizeMatched := t.sizeMatched
  mode := t.mode.asStr
  state := t.state.asStr
  venueStatus := t.venueStatus
  positionId := t.positionId
  submittedAt := t.submittedAt
  updatedAt := t.updatedAt
  closedAt := if t.state.isTerminal then some t.updatedAt else none

/-- A local state; `none` if it is refused, which leaves everything as it was. -/
def finishLocally (t : TrackedOrder) (target : LocalOrderState) (reason : String) (now : Int) :
    Option TrackedOrder :=
  match t.forceState target reason now with
  | (next, .ok _) => some next
  | (_, .error _) => none

end TrackedOrder

open PolyStore

def PolyStore.journalOrder (store : PolyStore) (t : TrackedOrder) : PolyStore :=
  store.upsertOrder t.journalRecord

/-- The order as it is rebuilt from its row: the trades are forgotten. -/
def PolyOrderRecord.tracked (rec : PolyOrderRecord) (now : Int) : TrackedOrder where
  venueOrderId := rec.venueOrderId
  isBuy := rec.side = "buy"
  orderType := rec.orderType
  limitPrice := rec.limitPrice
  sizeTokens := rec.sizeTokens
  sizeMatched := rec.sizeMatched
  mode := (ExecutionMode.fromStr rec.mode).getD .paper
  state := .parse rec.state
  venueStatus := rec.venueStatus
  positionId := rec.positionId
  submittedAt := rec.submittedAt
  updatedAt := now
  bookedTradeIds := []
  tradeMatched := 0

section

variable (sha : String → String)

/-- The trade's id, or a digest of what is matched after the fill. -/
def TrackedOrder.fillId (t : TrackedOrder) (tradeId : Option String) (source : FillSource) :
    String :=
  let digest := sha ("pfill|" ++ t.venueOrderId ++ "|" ++ fixedSix t.sizeMatched ++ "|" ++
    source.asStr)
  let untraded := "pfill_" ++ String.ofList (digest.toList.take 32)
  match tradeId with
  | some id => if ¬ isBlank id then "trade:" ++ trim id else untraded
  | none => untraded

/-- The row of a fill. The position is the order's own, or the given one. -/
def TrackedOrder.fillRecord (t : TrackedOrder) (position : String) (delta price : ℚ)
    (source : FillSource) (tradeId : Option String) : PolyFillRecord where
  fillId := t.fillId sha tradeId source
  venueOrderId := t.venueOrderId
  side := sideStr t.isBuy
  price := price
  sizeTokens := delta
  quoteUsd := delta * price
  source := source.asStr
  positionId := some (t.positionId.getD position)

def PolyStore.bookFill (store : PolyStore) (position : String) (t : TrackedOrder) (delta price : ℚ)
    (source : FillSource) (tradeId : Option String) : PolyStore × TrackedOrder × Bool :=
  let row := t.fillRecord sha position delta price source tradeId
  let (store, booked) := store.recordFill row
  (store, if booked then { t with positionId := row.positionId } else t, booked)

/-- What an observation leaves behind before the snapshot is written. -/
structure Booking where
  store : PolyStore
  tracked : TrackedOrder
  newRow : Bool
  effect : LifecycleEffect

/-- Applying an observation, up to the write of the snapshot. A trade that the journal holds
is only remembered; a cumulative size that it holds still moves the order on. -/
def PolyStore.bookObservation (store : PolyStore) (position : String) (t : TrackedOrder)
    (obs : VenueObservation) : Except LifecycleError Booking :=
  match t.applyVenue obs with
  | (_, .error e) => .error e
  | (next, .ok effect) =>
    if 0 < effect.fillDelta then
      let (store, next, booked) := store.bookFill sha position next effect.fillDelta
        effect.fillPrice obs.source effect.tradeId
      if ¬ booked ∧ obs.fillDelta.isSome then
        let t := match effect.tradeId with
          | some id => t.rememberTrade id
          | none => t
        .ok ⟨store, { t with updatedAt := obs.observedAt }, false, t.unchanged obs⟩
      else .ok ⟨store, next, booked, effect⟩
    else .ok ⟨store, next, false, effect⟩

end

/-! ## What a booking keeps -/

theorem PolyStore.upsertOrder_orders (store : PolyStore) (row : PolyOrderRecord)
    {existing : PolyOrderRecord} (h : store.orders row.venueOrderId = some existing) :
    (store.upsertOrder row).orders row.venueOrderId = some
      { row with
        submittedAt := existing.submittedAt
        sizeMatched := max existing.sizeMatched row.sizeMatched
        positionId := row.positionId.or existing.positionId
        closedAt := row.closedAt.or existing.closedAt } := by
  unfold upsertOrder
  dsimp only
  rw [if_pos rfl, h]

theorem PolyStore.recordFill_cases (store : PolyStore) (rec : PolyFillRecord) :
    store.recordFill rec = (store, false) ∨
      ∃ store', store.recordFill rec = (store', true) ∧ store'.orders = store.orders ∧
        store'.booked rec.venueOrderId = store.booked rec.venueOrderId + rec.sizeTokens := by
  unfold recordFill
  split_ifs
  · exact .inl rfl
  · refine .inr ⟨_, rfl, rfl, ?_⟩
    simp [booked]

structure Booked {size : ℚ} (v : Venue size) (store : PolyStore) (t : TrackedOrder) (b : Booking) :
    Prop where
  sound : Sound v b.tracked
  same_id : b.tracked.venueOrderId = t.venueOrderId
  same_orders : b.store.orders = store.orders
  grows : t.sizeMatched ≤ b.tracked.sizeMatched
  rows : b.store.booked t.venueOrderId + t.sizeMatched ≤
    store.booked t.venueOrderId + b.tracked.sizeMatched
  old : b.newRow = false → b.store = store

section

variable {sha : String → String} {size : ℚ} {v : Venue size} {store : PolyStore}
  {t : TrackedOrder} {obs : VenueObservation}

theorem Sound.rememberTrade (h : Sound v t) (id : String) : Sound v (t.rememberTrade id) := by
  obtain ⟨ids, he, hkept, -⟩ := t.rememberTrade_eq id
  rw [he]
  refine ⟨h.size_eq, h.nonneg, h.le_matched, ?_, h.part⟩
  exact h.trades_le.trans (known_mono v.sizes_nonneg fun x _ hx => hkept _ hx)

theorem booked_remembered (h : Sound v t) (id : Option String) (now : Int)
    (effect : LifecycleEffect) :
    Booked v store t ⟨store, { (match id with
      | some id => t.rememberTrade id
      | none => t) with updatedAt := now }, false, effect⟩ := by
  generalize hnext : (match id with
    | some id => t.rememberTrade id
    | none => t) = next
  have hkept : Sound v next ∧ next.venueOrderId = t.venueOrderId ∧
      next.sizeMatched = t.sizeMatched := by
    rw [← hnext]
    cases id with
    | none => exact ⟨h, rfl, rfl⟩
    | some id =>
      obtain ⟨ids, he, -, -⟩ := t.rememberTrade_eq id
      have hso := h.rememberTrade id
      rw [he] at hso
      dsimp only
      rw [he]
      exact ⟨hso, rfl, rfl⟩
  obtain ⟨hso, hi, hsize⟩ := hkept
  refine ⟨⟨hso.size_eq, hso.nonneg, hso.le_matched, hso.trades_le, hso.part⟩, hi,
    rfl, hsize.ge, ?_, fun _ => rfl⟩
  show _ ≤ store.booked t.venueOrderId + next.sizeMatched
  rw [hsize]

theorem bookFill_cases (store : PolyStore) (t : TrackedOrder) (position : String)
    (delta price : ℚ) (source : FillSource) (tradeId : Option String) :
    store.bookFill sha position t delta price source tradeId = (store, t, false) ∨
      ∃ store' positionId, store.bookFill sha position t delta price source tradeId =
        (store', { t with positionId := positionId }, true) ∧ store'.orders = store.orders ∧
          store'.booked t.venueOrderId = store.booked t.venueOrderId + delta := by
  unfold bookFill
  dsimp only
  rcases store.recordFill_cases (t.fillRecord sha position delta price source tradeId) with
    hheld | ⟨store', hn, ho, hr⟩
  · rw [hheld]
    exact .inl rfl
  · rw [hn]
    exact .inr ⟨store', _, rfl, ho, hr⟩

variable (position : String)

theorem bookObservation_booked (h : Sound v t) (hob : Consistent v t obs) :
    ∃ b, store.bookObservation sha position t obs = .ok b ∧ Booked v store t b := by
  obtain ⟨next, effect, hap, ha⟩ := applyVenue_applied h hob
  have hi : next.venueOrderId = t.venueOrderId := by
    have := t.applyVenue_venueOrderId obs
    rwa [hap] at this
  have hg : t.sizeMatched ≤ next.sizeMatched := by
    rw [ha.booked]
    exact le_add_of_nonneg_right ha.nonneg
  have hun : Booked v store t ⟨store, next, false, effect⟩ :=
    ⟨ha.sound, hi, rfl, hg, by gcongr, fun _ => rfl⟩
  unfold bookObservation
  rw [hap]
  dsimp only
  by_cases hf : 0 < effect.fillDelta
  swap
  · exact ⟨_, if_neg hf, hun⟩
  rw [if_pos hf]
  rcases bookFill_cases store next position effect.fillDelta effect.fillPrice obs.source
    effect.tradeId with hh | ⟨_, _, hn, ho, hr⟩
  · rw [hh]
    by_cases htrade : obs.fillDelta.isSome = true
    · exact ⟨_, if_pos ⟨Bool.false_ne_true, htrade⟩, booked_remembered h _ _ _⟩
    · exact ⟨_, if_neg fun hbo => htrade hbo.2, hun⟩
  · rw [hn]
    refine ⟨_, if_neg (by simp), ?_⟩
    have hso := ha.sound
    refine ⟨⟨hso.size_eq, hso.nonneg, hso.le_matched, hso.trades_le, hso.part⟩, hi,
      ho, hg, ?_, fun h => by cases h⟩
    show _ ≤ _ + next.sizeMatched
    rw [← hi, hr, ha.booked]
    linarith

section

variable {next : TrackedOrder} {effect : LifecycleEffect}
  (ha : t.applyVenue obs = (next, .ok effect))

include ha

theorem bookObservation_of_no_fill (hf : ¬ 0 < effect.fillDelta) :
    store.bookObservation sha position t obs = .ok ⟨store, next, false, effect⟩ := by
  unfold bookObservation
  rw [ha]
  exact if_neg hf

theorem bookObservation_of_new (hf : 0 < effect.fillDelta)
    (hn : next.fillId sha effect.tradeId obs.source ∉ store.fills.map PolyFillRecord.fillId) :
    let row := next.fillRecord sha position effect.fillDelta effect.fillPrice obs.source
      effect.tradeId
    store.bookObservation sha position t obs =
      .ok ⟨{ store with fills := store.fills ++ [row] }, { next with positionId := row.positionId },
        true, effect⟩ := by
  intro row
  have hbo : store.bookFill sha position next effect.fillDelta effect.fillPrice obs.source
      effect.tradeId = ({ store with fills := store.fills ++ [row] },
        { next with positionId := row.positionId }, true) := by
    have hr : store.recordFill row = ({ store with fills := store.fills ++ [row] }, true) :=
      if_neg hn
    unfold bookFill
    dsimp only
    rw [hr]
    rfl
  unfold bookObservation
  rw [ha]
  dsimp only
  rw [if_pos hf, hbo]
  exact if_neg fun h => h.1 rfl

end

theorem bookObservation_cases {position : String} {b : Booking}
    (h : store.bookObservation sha position t obs = .ok b) :
    ∃ next effect, t.applyVenue obs = (next, .ok effect) ∧
      ((∃ positionId, b.tracked = { next with positionId := positionId }) ∨
        obs.fillDelta.isSome = true ∧ ∃ ids updatedAt,
          b.tracked = { t with bookedTradeIds := ids, updatedAt := updatedAt }) := by
  unfold bookObservation at h
  cases ha : t.applyVenue obs with
  | mk next result =>
    rw [ha] at h
    cases result with
    | error e => cases h
    | ok effect =>
      refine ⟨next, effect, rfl, ?_⟩
      dsimp only at h
      split_ifs at h with hf hse
      · refine .inr ⟨hse.2, ?_⟩
        rw [← Except.ok.inj h]
        cases effect.tradeId with
        | none => exact ⟨_, _, rfl⟩
        | some id =>
          obtain ⟨ids, he, -, -⟩ := t.rememberTrade_eq id
          dsimp only
          rw [he]
          exact ⟨_, _, rfl⟩
      · left
        rw [← Except.ok.inj h]
        rcases bookFill_cases store next position effect.fillDelta effect.fillPrice obs.source
          effect.tradeId with hh | ⟨_, positionId, hn, -, -⟩
        · rw [hh]
          exact ⟨next.positionId, rfl⟩
        · rw [hn]
          exact ⟨positionId, rfl⟩
      · rw [← Except.ok.inj h]
        exact .inl ⟨next.positionId, rfl⟩

theorem fillId_trade_ne (t t' : TrackedOrder) {id : String} (hi : isBlank id = false)
    (source source' : FillSource) :
    t.fillId sha (some id) source ≠ t'.fillId sha none source' := by
  unfold TrackedOrder.fillId
  dsimp only
  rw [if_pos (by rw [hi]; exact Bool.false_ne_true)]
  intro he
  have hc := congrArg String.toList he
  rw [String.toList_append, String.toList_append] at hc
  cases (List.cons.inj hc).1

end

/-! ## Local transitions -/

section

variable {size : ℚ} {v : Venue size} {t next : TrackedOrder} {target : LocalOrderState}
  {reason : String} {now : Int}

theorem finishLocally_eq (h : t.finishLocally target reason now = some next) :
    next = t ∨ t.state.canTransitionTo target = true ∧
      next = { t with state := target, venueStatus := reason, updatedAt := now } := by
  unfold TrackedOrder.finishLocally TrackedOrder.forceState at h
  split_ifs at h with hsa hl
  · exact .inl (Option.some.inj h).symm
  · exact .inr ⟨hl, (Option.some.inj h).symm⟩

theorem Sound.finishLocally (h : Sound v t) (hta : target ≠ .partiallyFilled)
    (hnext : t.finishLocally target reason now = some next) :
    Sound v next ∧ next.venueOrderId = t.venueOrderId ∧ next.sizeMatched = t.sizeMatched := by
  rcases finishLocally_eq hnext with rfl | ⟨-, rfl⟩
  · exact ⟨h, rfl, rfl⟩
  · exact ⟨⟨h.size_eq, h.nonneg, h.le_matched, h.trades_le, fun hp => absurd hp hta⟩, rfl, rfl⟩

theorem canTransitionTo_terminal {s : LocalOrderState} (h : s.isTerminal = true) :
    s.canTransitionTo target = false := by
  revert h
  cases s <;> cases target <;> decide

theorem finishLocally_terminal (h : t.state.isTerminal = true)
    (hnext : t.finishLocally target reason now = some next) : next = t := by
  rcases finishLocally_eq hnext with rfl | ⟨hl, -⟩
  · rfl
  · rw [canTransitionTo_terminal h] at hl
    cases hl

end

theorem bookObservation_terminal {sha : String → String} {store : PolyStore}
    {position : String} {t : TrackedOrder} {obs : VenueObservation}
    (h : t.state.isTerminal = true) :
    store.bookObservation sha position t obs =
      .ok ⟨store, { t with updatedAt := obs.observedAt }, false, t.unchanged obs⟩ := by
  have ha : t.applyVenue obs =
      ({ t with updatedAt := obs.observedAt }, .ok (t.unchanged obs)) := if_pos (.inl h)
  exact bookObservation_of_no_fill position ha (lt_irrefl (0 : ℚ))

end SniperBot.Polymarket
