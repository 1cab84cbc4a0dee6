import SniperBot.Polymarket.Handlers

/-!
# Orders that the venue does not find

Whether the venue has ever known an order is read off the last status text, which the
engine's own transitions overwrite. What has been heard of the order is followed here along
the whole run, from the messages alone.
-/

namespace SniperBot.Polymarket

open Lib.Runs TrackedOrder

/-- A report that is not refused counts, if its status is a known one. -/
def heardReport (before : Bool) (t : TrackedOrder) (order : ClobOrder) (source : FillSource)
    (now : Int) : Bool :=
  if t.accepts (order.observation source now) then decide (order.state ≠ .unknown) else before

/-- Whether the venue has reported the order with a status that is known since it was last
missing, given whether it had before the message. -/
def heardAfter (before : Bool) (t : TrackedOrder) (m : Message) : Bool :=
  match m.report with
  | some (order, source, now) => heardReport before t order source now
  | none => if m.isMissing then false else before

def heard (tr : List (Entry Tracker Message)) : Bool :=
  tr.foldl (fun before e => heardAfter before e.pre.tracked e.label) true

/-- The venue says something of the order: a report, a trade, or that it is cancelled. -/
def Message.ofOrder : Message → Bool
  | .userTrade _ => true
  | .cancel .confirmed _ _ => true
  | m => m.report.isSome

theorem Message.report_of_missing {m : Message} (h : m.isMissing = true) : m.report = none := by
  cases m with
  | poll answer pollInterval now => cases answer <;> first | rfl | cases h
  | reconcile listed answer now =>
    cases listed with
    | some order => cases h
    | none => cases answer <;> first | rfl | cases h
  | userOrder | userTrade | cancel => cases h

/-! ## One observation -/

section

variable {sha : String → String} {position : String} {k : Tracker} {obs : VenueObservation}
  {t : TrackedOrder}

theorem target_ne_failed (h : t.state ≠ .failed) (state : VenueOrderState) (reported : Bool) :
    (t.target state reported).1 ≠ .failed := by
  have ho : ∀ otherwise, otherwise ≠ .failed → t.openState otherwise ≠ .failed := by
    intro otherwise hot
    rcases openState_cases t otherwise with he | he | he <;> rw [he]
    · decide
    · decide
    · exact hot
  cases state with
  | matched =>
    unfold target
    dsimp only
    split_ifs <;> first | exact h | exact fun hf => by cases hf
  | cancelled | expired => exact fun hf => by cases hf
  | unknown | live | delayed | unmatched => exact ho _ (by decide)

theorem target_live (reported : Bool) :
    (t.target .live reported).1 ≠ .submitted ∧ (t.target .live reported).1 ≠ .unknown := by
  show t.openState .resting ≠ .submitted ∧ t.openState .resting ≠ .unknown
  rcases openState_cases t .resting with he | he | he <;> rw [he] <;> decide

theorem applyVenue_ne_failed {next : TrackedOrder} {effect : LifecycleEffect}
    (h : t.applyVenue obs = (next, .ok effect)) (hst : t.state ≠ .failed) :
    next.state ≠ .failed := by
  by_cases hus : t.ignores obs
  · rw [t.applyVenue_of_ignores hus] at h
    obtain rfl := (Prod.mk.inj h).1
    exact hst
  · obtain ⟨sized, _, _, reported, ha, rfl⟩ := t.applyVenue_used hus h
    obtain ⟨_, _, _, hsi⟩ := t.applySize_frame ha
    exact target_ne_failed (hsi ▸ hst) _ _

namespace Tracker

theorem applyObservation_refused (h : k.tracked.accepts obs = false) :
    (k.applyObservation sha position obs).tracked = k.tracked := by
  rcases applyObservation_cases sha position k obs with
    ⟨hsa, -⟩ | ⟨next, effect, ha, -⟩
  · exact hsa
  · unfold accepts at h
    rw [ha] at h
    cases h

theorem applyObservation_ne_failed (h : k.tracked.state ≠ .failed) :
    (k.applyObservation sha position obs).tracked.state ≠ .failed := by
  rcases applyObservation_cases sha position k obs with
    ⟨hsa, -⟩ | ⟨next, effect, ha, ⟨_, hnext⟩ | ⟨-, _, _, hold⟩⟩
  · rwa [hsa]
  · rw [hnext]
    show next.state ≠ .failed
    exact applyVenue_ne_failed ha h
  · rw [hold]
    exact h

theorem Watched.of_applyObservation
    (h : (k.applyObservation sha position obs).Watched) : k.Watched := by
  refine ⟨open_of_applyObservation h.1, ?_⟩
  rw [← h.2, (applyObservation_static sha position k obs).1]

theorem applyObservation_trade {event : TradeEvent} (h : k.tracked.neverAcknowledged = false) :
    (k.applyObservation sha position event.observation).tracked.neverAcknowledged = false := by
  rcases applyObservation_cases sha position k event.observation with
    ⟨hsa, -⟩ | ⟨next, effect, ha, ⟨_, hnext⟩ | ⟨-, _, _, hold⟩⟩
  · rwa [hsa]
  · rw [hnext]
    by_cases hus : k.tracked.ignores event.observation
    · rw [k.tracked.applyVenue_of_ignores hus] at ha
      obtain rfl := (Prod.mk.inj ha).1
      exact h
    · obtain ⟨sized, _, _, reported, -, rfl⟩ := k.tracked.applyVenue_used hus ha
      obtain ⟨hsu, hun⟩ := target_live (t := sized) reported
      refine decide_eq_false fun hn => ?_
      rcases hn.1 with he | he
      · exact hsu he
      · exact hun he
  · rw [hold]
    exact h

theorem applyObservation_report {order : ClobOrder} {source : FillSource} {now : Int}
    (ho : k.Watched) (h : k.tracked.accepts (order.observation source now) = true) :
    (k.applyObservation sha position (order.observation source now)).tracked.venueStatus =
    order.status := by
  have hus : ¬ k.tracked.ignores (order.observation source now) := by
    rintro (hte | ⟨id, hi, -⟩)
    · rw [ho.1] at hte
      cases hte
    · cases hi
  rcases applyObservation_cases sha position k (order.observation source now) with
    ⟨-, hr⟩ | ⟨next, effect, ha, ⟨_, hnext⟩ | ⟨htrade, -⟩⟩
  · rw [h] at hr
    cases hr
  · rw [hnext]
    obtain ⟨_, _, _, _, -, rfl⟩ := k.tracked.applyVenue_used hus ha
    rfl
  · cases htrade

end Tracker

end

/-! ## Local transitions -/

namespace Tracker

variable {sha : String → String} {position : String} {k k' : Tracker} {m : Message}
  {target : LocalOrderState} {reason : String} {now : Int}

theorem finishLocally_ne_failed (h : k.tracked.state ≠ .failed) (hta : target ≠ .failed) :
    (k.finishLocally target reason now).tracked.state ≠ .failed := by
  rcases finishLocally_cases k target reason now with hsa | ⟨-, hnext⟩
  · rwa [hsa]
  · rw [hnext]
    exact hta

theorem finishLocally_unknown (ho : k.Watched) :
    (k.finishLocally .unknown reason now).tracked.state = .unknown := by
  unfold finishLocally TrackedOrder.finishLocally TrackedOrder.forceState
  by_cases hsa : k.tracked.state = .unknown
  · rw [if_pos hsa]
    exact hsa
  · have hl : k.tracked.state.canTransitionTo .unknown = true := by
      have hst := ho.1
      generalize k.tracked.state = state at hsa hst
      revert hsa hst
      cases state <;> decide
    rw [if_neg hsa, if_neg (not_not.mpr hl)]

/-! ## One message -/

/-- The order has not failed, and unless the venue has gone silent on it, it is known there. -/
structure Known (before : Bool) (k : Tracker) : Prop where
  not_failed : k.tracked.state ≠ .failed
  acknowledged : before = true → k.Watched → k.tracked.neverAcknowledged = false

variable {t : TrackedOrder} {before : Bool} {order : ClobOrder}

theorem neverAcknowledged_of_status (hst : t.venueStatus = order.status)
    (hk : order.state ≠ .unknown) :
    t.neverAcknowledged = false := by
  refine decide_eq_false fun hn => hn.2 ?_
  unfold venueAcknowledged
  rw [hst]
  exact decide_eq_true hk

theorem Known.mono {before' : Bool} (h : Known before k) (hi : before' = true → before = true) :
    Known before' k :=
  ⟨h.not_failed, fun hh => h.acknowledged (hi hh)⟩

theorem Known.congr (h : Known before k) (he : k'.tracked = k.tracked) : Known before k' := by
  refine ⟨he ▸ h.not_failed, fun hh ho => ?_⟩
  rw [he]
  exact h.acknowledged hh ⟨he ▸ ho.1, he ▸ ho.2⟩

section

variable (h : Known before k) (order : ClobOrder) (source : FillSource) (now : Int)

include h

theorem Known.report : Known (heardReport before k.tracked order source now)
    (k.applyObservation sha position (order.observation source now)) := by
  refine ⟨applyObservation_ne_failed h.not_failed, fun hh ho => ?_⟩
  have hbe := ho.of_applyObservation
  unfold heardReport at hh
  by_cases ha : k.tracked.accepts (order.observation source now) = true
  · rw [if_pos ha] at hh
    exact neverAcknowledged_of_status (applyObservation_report hbe ha) (of_decide_eq_true hh)
  · rw [if_neg ha] at hh
    rw [applyObservation_refused (Bool.eq_false_iff.mpr ha)]
    exact h.acknowledged hh hbe

theorem Known.report_twice : Known (heardReport before k.tracked order source now)
    ((k.applyObservation sha position (order.observation source now)).applyObservation
      sha position (order.observation source now)) := by
  by_cases ha : k.tracked.accepts (order.observation source now) = true
  · refine ((h.report order source now).report order source now).mono fun hh => ?_
    have hk : decide (order.state ≠ .unknown) = true := by
      rwa [heardReport, if_pos ha] at hh
    rw [heardReport, hk, hh, ite_self]
  · -- What is refused once leaves the order as it was and is refused again.
    have hr := Bool.eq_false_iff.mpr ha
    have hsa : (k.applyObservation sha position
        (order.observation source now)).tracked = k.tracked := applyObservation_refused hr
    rw [heardReport, if_neg ha]
    refine h.congr (Eq.trans (applyObservation_refused ?_) hsa)
    rwa [hsa]

end

theorem heardAfter_report {source : FillSource} (hm : m.report = some (order, source, now)) :
    heardAfter before t m = heardReport before t order source now := by
  unfold heardAfter
  rw [hm]

theorem heardAfter_silent (hm : m.report = none) :
    heardAfter before t m = if m.isMissing then false else before := by
  unfold heardAfter
  rw [hm]

theorem Known.handle (h : Known before k) (hmi : m.isMissing = true → before = true) :
    Known (heardAfter before k.tracked m) (k.handle sha position m) := by
  have hha := handled sha position k m
  generalize k.handle sha position m = k' at hha
  cases hha with
  | nothing hm hr =>
    refine ⟨h.not_failed, fun hh ho => ?_⟩
    cases hso : m.report with
    | some r =>
      obtain ⟨order, source, now⟩ := r
      rcases hr order source now hso with hk | hc
      · exact hk
      · exact absurd ho hc
    | none =>
      rw [heardAfter_silent hso] at hh
      split_ifs at hh
      exact h.acknowledged hh ho
  | report hm =>
    rw [heardAfter_report hm]
    exact h.report _ _ _
  | twice hm =>
    rw [heardAfter_report hm]
    exact h.report_twice _ _ _
  | trade hre =>
    refine ⟨applyObservation_ne_failed h.not_failed, fun hh ho => ?_⟩
    exact applyObservation_trade (h.acknowledged hh ho.of_applyObservation)
  | failed hm ho hn =>
    rw [h.acknowledged (hmi hm) ho] at hn
    cases hn
  | vanished hm =>
    refine ⟨finishLocally_ne_failed h.not_failed (by decide), fun hh => ?_⟩
    rw [heardAfter_silent (Message.report_of_missing hm), if_pos hm] at hh
    cases hh
  | @cancelled reason now ho =>
    refine ⟨finishLocally_ne_failed h.not_failed (by decide), fun hh ho' => ?_⟩
    rcases finishLocally_cases k .cancelled reason now with hsa | ⟨-, hnext⟩
    · rw [hsa]
      exact h.acknowledged hh ho
    · have hst := ho'.1
      rw [hnext] at hst
      cases hst

theorem Known.missing (h : Known before k) (hbe : before = true) (hm : m.isMissing = true)
    (ho : k.Watched) :
    (k.handle sha position m).tracked.state = .unknown := by
  have hh := handled sha position k m
  have hk := h.acknowledged hbe ho
  have hr := Message.report_of_missing hm
  generalize k.handle sha position m = k' at hh
  cases hh with
  | nothing hc =>
    rcases hc with hno | hcl | hn | hst
    · rw [hm] at hno
      cases hno
    · exact absurd ho hcl
    · rw [hk] at hn
      cases hn
    · exact hst
  | report hso | twice hso => rw [hr] at hso; cases hso
  | trade | cancelled => cases hm
  | failed _ _ hn => rw [hk] at hn; cases hn
  | vanished => exact finishLocally_unknown ho

theorem Known.held (h : Known before k) (hmis : m.isMissing = true → before = true)
    (hst : k.tracked.state = .unknown) (hm : m.ofOrder = false) :
    (k.handle sha position m).tracked.state = .unknown := by
  have hr : m.report = none := by
    cases hso : m.report with
    | none => rfl
    | some r =>
      have hof : m.ofOrder = true := by
        unfold Message.ofOrder
        split <;> first | rfl | (rw [hso]; rfl)
      rw [hm] at hof
      cases hof
  have hh := handled sha position k m
  generalize k.handle sha position m = k' at hh
  cases hh with
  | nothing => exact hst
  | report hso | twice hso => rw [hr] at hso; cases hso
  | trade | cancelled => cases hm
  | failed hmi ho hn =>
    rw [h.acknowledged (hmis hmi) ho] at hn
    cases hn
  | vanished _ ho => exact finishLocally_unknown ho

/-! ## Whole runs -/

theorem heard_snoc (tr : List (Entry Tracker Message)) (e : Entry Tracker Message) :
    heard (tr ++ [e]) = heardAfter (heard tr) e.pre.tracked e.label := by
  unfold heard
  rw [List.foldl_append]
  rfl

end Tracker

/-- The venue has reported the order between any two answers that do not find it. -/
def HeardBeforeMissing (tr : List (Entry Tracker Message)) : Prop :=
  ∀ before e after, tr = before ++ e :: after → e.label.isMissing = true → heard before = true

theorem known_run {sha : String → String} {k k' : Tracker} (h : Tracker.Known true k)
    {tr : List (Entry Tracker Message)} (hr : Run (Tracker.Step sha) k tr k')
    (hh : HeardBeforeMissing tr) : Tracker.Known (heard tr) k' := by
  induction hr with
  | nil => exact h
  | @snoc tr k₁ k₂ m hr hst ih =>
    obtain ⟨position, rfl⟩ := hst
    rw [Tracker.heard_snoc]
    refine (ih fun before e after htr => ?_).handle fun hm => hh tr _ [] rfl hm
    exact hh before e (after ++ [_]) (by rw [htr, List.append_assoc, List.cons_append])

/-- An order that the venue has acknowledged never fails for being missing, as long as the
venue reports it with a known status between any two answers that do not find it; until then
it is held as unknown. -/
theorem acknowledged_never_failed (sha : String → String) (k : Tracker)
    (hknown : k.tracked.venueAcknowledged = true) (hfailed : k.tracked.state ≠ .failed)
    {tr : List (Entry Tracker Message)} {k' : Tracker}
    (hr : Run (Tracker.Step sha) k tr k') (hheard : HeardBeforeMissing tr) :
    k'.tracked.state ≠ .failed ∧
    ∀ e ∈ tr, (e.label.isMissing = true → e.pre.Watched → e.post.tracked.state = .unknown) ∧
      (e.label.ofOrder = false → e.pre.tracked.state = .unknown →
        e.post.tracked.state = .unknown) := by
  have h0 : Tracker.Known true k := by
    refine ⟨hfailed, fun _ _ => decide_eq_false fun hn => hn.2 hknown⟩
  refine ⟨(known_run h0 hr hheard).not_failed, ?_⟩
  intro e he
  obtain ⟨before, after, rfl⟩ := List.append_of_mem he
  obtain ⟨hbe, ⟨position, hpo⟩, -⟩ := hr.around
  have hpr : HeardBeforeMissing before := by
    intro earlier e' later heq
    exact hheard earlier e' (later ++ e :: after) (by rw [heq, List.append_assoc, List.cons_append])
  have hsa : e.label.isMissing = true → heard before = true := hheard before e after rfl
  have hpre := known_run h0 hbe hpr
  rw [hpo]
  exact ⟨fun hm ho => hpre.missing (hsa hm) hm ho, fun hm hst => hpre.held hsa hst hm⟩

/-! ## An order that is missing twice -/

private def restingOrder : TrackedOrder :=
  { new "0x1" true "GTC" (1 / 2) 10 .live 0 with
    state := .resting, venueStatus := "live" }

private def restingTracker : Tracker where
  store := { orders := fun _ => none, fills := [] }
  tracked := restingOrder

private def vanishedTracker : Tracker :=
  restingTracker.finishLocally .unknown "vanished from venue" 60

private def failedTracker : Tracker := vanishedTracker.finishLocally .failed "not on venue" 90

private theorem poll_restingTracker (sha : String → String) :
    Tracker.Step sha restingTracker (.poll .missing 30 60) vanishedTracker := by
  refine ⟨"p1", ?_⟩
  unfold Tracker.handle
  rfl

private theorem poll_vanishedTracker (sha : String → String) :
    Tracker.Step sha vanishedTracker (.poll .missing 30 90) failedTracker := by
  refine ⟨"p1", ?_⟩
  unfold Tracker.handle
  rfl

/-- The engine's own note that the order has vanished makes the next answer count as if the
venue had never known it. -/
theorem missing_twice_fails :
    ∃ k : Tracker, k.tracked.venueAcknowledged = true ∧ k.tracked.state = .resting ∧
      ∀ sha : String → String, ∃ (k' : Tracker) (tr : List (Entry Tracker Message)),
        Run (Tracker.Step sha) k tr k' ∧
        tr.map Entry.label = [.poll .missing 30 60, .poll .missing 30 90] ∧
        k'.tracked.state = .failed := by
  refine ⟨restingTracker, by decide +kernel, rfl, ?_⟩
  intro sha
  have hr := (Run.single (poll_restingTracker sha)).snoc (poll_vanishedTracker sha)
  exact ⟨_, _, hr, rfl, by decide +kernel⟩

theorem acknowledged_never_failed_once : ∃ (k : Tracker) (tr : List (Entry Tracker Message)),
      Run (Tracker.Step id) restingTracker tr k ∧ tr.map Entry.label = [.poll .missing 30 60] ∧
      k.tracked.state ≠ .failed := by
  have hr := Run.single (poll_restingTracker id)
  refine ⟨_, _, hr, rfl, (acknowledged_never_failed id restingTracker (by decide +kernel)
    (by decide) hr ?_).1⟩
  intro before e after htr _
  cases before with
  | nil => rfl
  | cons => simp at htr

end SniperBot.Polymarket
