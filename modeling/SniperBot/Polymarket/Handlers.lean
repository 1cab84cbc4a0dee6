import SniperBot.Polymarket.Journal

/-!
# Handling what the venue says of one order

Polls, the open list and lookups of reconciliation, events of the user channel and answers
to a cancel, each handled to its end before the next. What is booked besides the order and
its fills is left out, and so are the reasons for which a cancel is asked.
-/

namespace SniperBot.Polymarket

open Reconciliation (eqIgnoreAsciiCase)

structure ClobOrder where
  status : String
  /-- `none` if no size could be read. -/
  sizeMatched : Option ℚ
  associateTrades : List String
  deriving DecidableEq

namespace ClobOrder

variable (order : ClobOrder) (source : FillSource) (now : Int)

def state : VenueOrderState := .parse order.status

def observation : VenueObservation where
  state := order.state
  rawStatus := order.status
  sizeMatched := order.sizeMatched
  fillDelta := none
  tradeId := none
  price := none
  source := source
  observedAt := now
  associateTrades := order.associateTrades

theorem observation_state : (order.observation source now).state = order.state := by
  unfold observation
  dsimp only

theorem observation_sizeMatched :
    (order.observation source now).sizeMatched = order.sizeMatched := by
  unfold observation
  dsimp only

end ClobOrder

/-- The part of the user channel's trade event that concerns one order. -/
structure TradeEvent where
  tradeId : String
  status : String
  delta : ℚ
  price : ℚ
  time : Int

namespace TradeEvent

def isFailed (event : TradeEvent) : Bool := eqIgnoreAsciiCase event.status "FAILED"

def observation (event : TradeEvent) : VenueObservation where
  state := .live
  rawStatus := "trade"
  sizeMatched := none
  fillDelta := some event.delta
  tradeId := some event.tradeId
  price := some event.price
  source := .userWs
  observedAt := event.time
  associateTrades := []

end TradeEvent

inductive Lookup where
  | found (order : ClobOrder)
  | missing
  | failed

/-- The answer to a cancel. One that names the order nowhere is followed by a question for
the order. -/
inductive CancelAnswer where
  | confirmed
  | refused
  | unclear (order : Lookup)

inductive Message where
  | poll (answer : Lookup) (pollInterval now : Int)
  /-- The order in the open list, and the answer that is asked for if it is not there. -/
  | reconcile (listed : Option ClobOrder) (answer : Lookup) (now : Int)
  | userOrder (order : ClobOrder) (time : Int)
  | userTrade (event : TradeEvent)
  | cancel (answer : CancelAnswer) (reason : String) (now : Int)

structure Tracker where
  store : PolyStore
  tracked : TrackedOrder

def TrackedOrder.neverAcknowledged (t : TrackedOrder) : Bool :=
  (t.state = .submitted ∨ t.state = .unknown) ∧ ¬ t.venueAcknowledged

namespace Tracker

variable (sha : String → String) (position : String) (k : Tracker)

def Watched : Prop := k.tracked.state.isTerminal = false ∧ k.tracked.mode = .live

instance : Decidable k.Watched := inferInstanceAs (Decidable (_ ∧ _))

def applyObservation (obs : VenueObservation) : Tracker :=
  match k.store.bookObservation sha position k.tracked obs with
  | .ok b => ⟨b.store.journalOrder b.tracked, b.tracked⟩
  | .error _ => k

def finishLocally (target : LocalOrderState) (reason : String) (now : Int) : Tracker :=
  match k.tracked.finishLocally target reason now with
  | some next => ⟨k.store.journalOrder next, next⟩
  | none => k

def pollOrder (answer : Lookup) (pollInterval now : Int) : Tracker :=
  match answer with
  | .found order => k.applyObservation sha position (order.observation .poll now)
  | .missing =>
    if k.tracked.neverAcknowledged then
      if pollInterval ≤ k.tracked.ageSecs now then k.finishLocally .failed "not on venue" now
      else k
    else if k.tracked.state ≠ .unknown then k.finishLocally .unknown "vanished from venue" now
    else k
  | .failed => k

/-- The order is on the open list: its size is booked if it differs, and a state that was in
doubt is settled. -/
def reconcileListed (order : ClobOrder) (now : Int) : Tracker :=
  let obs := order.observation .recon now
  let k := if ∃ m ∈ order.sizeMatched, sizeSlack < |m - k.tracked.sizeMatched| then
    k.applyObservation sha position obs else k
  if k.tracked.state = .unknown ∨ k.tracked.state = .submitted then
    k.applyObservation sha position obs
  else k

def reconcileUnlisted (answer : Lookup) (now : Int) : Tracker :=
  match answer with
  | .found order => k.applyObservation sha position (order.observation .recon now)
  | .missing =>
    if k.tracked.neverAcknowledged then k.finishLocally .failed "not on venue" now
    else k.finishLocally .unknown "vanished from venue" now
  | .failed => k

def applyTrade (event : TradeEvent) : Tracker :=
  if event.isFailed then k else k.applyObservation sha position event.observation

def cancelOrder (answer : CancelAnswer) (reason : String) (now : Int) : Tracker :=
  match answer with
  | .confirmed => k.finishLocally .cancelled reason now
  | .refused => k
  | .unclear (.found order) => k.applyObservation sha position (order.observation .poll now)
  | .unclear _ => k

def handle : Message → Tracker
  | .poll answer pollInterval now =>
    if k.Watched then k.pollOrder sha position answer pollInterval now else k
  | .reconcile (some order) _ now =>
    if k.Watched then k.reconcileListed sha position order now else k
  | .reconcile none answer now =>
    if k.Watched then k.reconcileUnlisted sha position answer now else k
  | .userOrder order time => k.applyObservation sha position (order.observation .userWs time)
  | .userTrade event => k.applyTrade sha position event
  | .cancel answer reason now =>
    if k.Watched then k.cancelOrder sha position answer reason now else k

/-- The messages are handled one after another; the position of a first fill is any. -/
def Step (k : Tracker) (m : Message) (k' : Tracker) : Prop :=
  ∃ position, k' = k.handle sha position m

end Tracker

/-! ## What a message may do -/

def Message.report : Message → Option (ClobOrder × FillSource × Int)
  | .poll (.found order) _ now => some (order, .poll, now)
  | .reconcile (some order) _ now => some (order, .recon, now)
  | .reconcile none (.found order) now => some (order, .recon, now)
  | .userOrder order time => some (order, .userWs, time)
  | .cancel (.unclear (.found order)) _ now => some (order, .poll, now)
  | _ => none

def Message.isMissing : Message → Bool
  | .poll .missing _ _ => true
  | .reconcile none .missing _ => true
  | _ => false

namespace Tracker

variable {sha : String → String} {position : String} {k : Tracker}

inductive Handled (sha : String → String) (position : String) (k : Tracker) :
    Message → Tracker → Prop
  | nothing {m : Message} (hm : m.isMissing = false ∨ ¬ k.Watched ∨
      k.tracked.neverAcknowledged = true ∨ k.tracked.state = .unknown)
      (hreport : ∀ order source now, m.report = some (order, source, now) →
        k.tracked.neverAcknowledged = false ∨ ¬ k.Watched) : Handled sha position k m k
  | report {m : Message} {order : ClobOrder} {source : FillSource} {now : Int}
      (hm : m.report = some (order, source, now)) :
      Handled sha position k m (k.applyObservation sha position (order.observation source now))
  | twice {m : Message} {order : ClobOrder} {source : FillSource} {now : Int}
      (hm : m.report = some (order, source, now)) :
      Handled sha position k m
        ((k.applyObservation sha position (order.observation source now)).applyObservation
          sha position (order.observation source now))
  | trade {event : TradeEvent} (h : event.isFailed = false) :
      Handled sha position k (.userTrade event) (k.applyObservation sha position event.observation)
  | failed {m : Message} {now : Int} (hm : m.isMissing = true) (hopen : k.Watched)
      (hnever : k.tracked.neverAcknowledged = true) :
      Handled sha position k m (k.finishLocally .failed "not on venue" now)
  | vanished {m : Message} {now : Int} (hm : m.isMissing = true) (hopen : k.Watched)
      (hknown : k.tracked.neverAcknowledged = false) :
      Handled sha position k m (k.finishLocally .unknown "vanished from venue" now)
  | cancelled {reason : String} {now : Int} (hopen : k.Watched) :
      Handled sha position k (.cancel .confirmed reason now) (k.finishLocally .cancelled reason now)

theorem handled_unwatched (h : ¬ k.Watched) (m : Message) : Handled sha position k m k :=
  .nothing (.inr (.inl h)) fun _ _ _ _ => .inr h

theorem handled_silent {m : Message} (hm : m.isMissing = false) (hr : m.report = none) :
    Handled sha position k m k := by
  refine .nothing (.inl hm) fun order source now hso => ?_
  rw [hr] at hso
  cases hso

theorem pollOrder_handled (ho : k.Watched) (answer : Lookup) (pollInterval now : Int) :
    Handled sha position k (.poll answer pollInterval now)
    (k.pollOrder sha position answer pollInterval now) := by
  cases answer with
  | found order => exact .report rfl
  | failed => exact handled_silent rfl rfl
  | missing =>
    unfold pollOrder
    split_ifs with hn ha hst
    · exact .failed rfl ho hn
    · exact .nothing (.inr (.inr (.inl hn))) fun _ _ _ h => by cases h
    · exact .vanished rfl ho (Bool.eq_false_iff.mpr hn)
    · exact .nothing (.inr (.inr (.inr (not_not.mp hst)))) fun _ _ _ h => by cases h

theorem reconcileListed_handled (order : ClobOrder) (answer : Lookup) (now : Int) :
    Handled sha position k (.reconcile (some order) answer now)
    (k.reconcileListed sha position order now) := by
  unfold reconcileListed
  dsimp only
  split_ifs with hdi hd hd
  · exact .twice rfl
  · exact .report rfl
  · exact .report rfl
  · refine .nothing (.inl rfl) fun _ _ _ _ => .inl ?_
    refine decide_eq_false fun h => hd ?_
    exact h.1.symm

theorem reconcileUnlisted_handled (ho : k.Watched) (answer : Lookup) (now : Int) :
    Handled sha position k (.reconcile none answer now)
    (k.reconcileUnlisted sha position answer now) := by
  cases answer with
  | found order => exact .report rfl
  | failed => exact handled_silent rfl rfl
  | missing =>
    unfold reconcileUnlisted
    split_ifs with hn
    · exact .failed rfl ho hn
    · exact .vanished rfl ho (Bool.eq_false_iff.mpr hn)

theorem cancelOrder_handled (ho : k.Watched) (answer : CancelAnswer) (reason : String) (now : Int) :
    Handled sha position k (.cancel answer reason now)
    (k.cancelOrder sha position answer reason now) := by
  cases answer with
  | confirmed => exact .cancelled ho
  | refused => exact handled_silent rfl rfl
  | unclear order =>
    cases order with
    | found order => exact .report rfl
    | missing | failed => exact handled_silent rfl rfl

theorem handled (sha : String → String) (position : String) (k : Tracker) (m : Message) :
    Handled sha position k m (k.handle sha position m) := by
  cases m with
  | poll answer pollInterval now =>
    unfold handle
    split_ifs with ho
    · exact pollOrder_handled ho answer pollInterval now
    · exact handled_unwatched ho _
  | reconcile listed answer now =>
    cases listed with
    | some order =>
      unfold handle
      split_ifs with ho
      · exact reconcileListed_handled order answer now
      · exact handled_unwatched ho _
    | none =>
      unfold handle
      split_ifs with ho
      · exact reconcileUnlisted_handled ho answer now
      · exact handled_unwatched ho _
  | userOrder order time => exact .report rfl
  | userTrade event =>
    unfold handle applyTrade
    dsimp only
    split_ifs with hf
    · exact handled_silent rfl rfl
    · exact .trade (Bool.eq_false_iff.mpr hf)
  | cancel answer reason now =>
    unfold handle
    split_ifs with ho
    · exact cancelOrder_handled ho answer reason now
    · exact handled_unwatched ho _

end Tracker

/-! ## What is left of the order -/

def TrackedOrder.accepts (t : TrackedOrder) (obs : VenueObservation) : Bool :=
  (t.applyVenue obs).2.toBool

namespace Tracker

section

variable (sha : String → String) (position : String) (k : Tracker) (obs : VenueObservation)

theorem applyObservation_cases :
    ((k.applyObservation sha position obs).tracked = k.tracked ∧ k.tracked.accepts obs = false) ∨
    ∃ next effect, k.tracked.applyVenue obs = (next, .ok effect) ∧
      ((∃ positionId, (k.applyObservation sha position obs).tracked =
          { next with positionId := positionId }) ∨
          obs.fillDelta.isSome = true ∧ ∃ ids updatedAt,
            (k.applyObservation sha position obs).tracked =
              { k.tracked with bookedTradeIds := ids, updatedAt := updatedAt }) := by
  unfold applyObservation
  cases hbo : k.store.bookObservation sha position k.tracked obs with
  | ok b => exact .inr (bookObservation_cases hbo)
  | error e =>
    refine .inl ⟨rfl, ?_⟩
    cases ha : (k.tracked.applyVenue obs).2 with
    | error e => unfold TrackedOrder.accepts; rw [ha]; rfl
    | ok effect =>
      unfold PolyStore.bookObservation at hbo
      rw [show k.tracked.applyVenue obs = (_, .ok effect) from Prod.ext rfl ha] at hbo
      dsimp only at hbo
      split_ifs at hbo

theorem applyObservation_static :
    (k.applyObservation sha position obs).tracked.mode = k.tracked.mode ∧
    (k.applyObservation sha position obs).tracked.orderType = k.tracked.orderType := by
  rcases applyObservation_cases sha position k obs with
    ⟨hsa, -⟩ | ⟨next, effect, ha, ⟨_, hnext⟩ | ⟨-, _, _, hold⟩⟩
  · rw [hsa]
    exact ⟨rfl, rfl⟩
  · obtain ⟨_, _, _, _, _, _, hf⟩ := k.tracked.applyVenue_frame obs
    rw [ha] at hf
    rw [hnext, show next = _ from hf]
    exact ⟨rfl, rfl⟩
  · rw [hold]
    exact ⟨rfl, rfl⟩

end

theorem open_of_applyObservation {sha : String → String} {position : String} {k : Tracker}
    {obs : VenueObservation}
    (h : (k.applyObservation sha position obs).tracked.state.isTerminal = false) :
    k.tracked.state.isTerminal = false := by
  refine Bool.eq_false_iff.mpr fun hte => ?_
  have hc : (k.applyObservation sha position obs).tracked.state = k.tracked.state := by
    unfold applyObservation
    rw [bookObservation_terminal hte]
  rw [hc, hte] at h
  cases h

theorem finishLocally_cases (k : Tracker) (target : LocalOrderState) (reason : String) (now : Int) :
    (k.finishLocally target reason now).tracked = k.tracked ∨
    k.tracked.state.canTransitionTo target = true ∧ (k.finishLocally target reason now).tracked =
        { k.tracked with state := target, venueStatus := reason, updatedAt := now } := by
  unfold finishLocally
  cases hnext : k.tracked.finishLocally target reason now with
  | none => exact .inl rfl
  | some next => exact finishLocally_eq hnext

end Tracker

end SniperBot.Polymarket
