import SniperBot.Polymarket.Journal

/-!
# Observers of one order

The order poller, the user channel and reconciliation each take a copy of the tracked order,
book what they have heard, and put their copy back. The run loop of the engine handles them
one after another; here their steps may also be taken in any other order.
-/

namespace SniperBot.Polymarket

open Execution (isBlank)
open Lib.Runs
open Lib.Tally (Item)

inductive Observer where
  | poller
  | userChannel
  | reconciliation
  deriving DecidableEq

inductive Copy where
  | none
  | read (t : TrackedOrder)
  | changed (t : TrackedOrder)

structure Watch (size : ℚ) where
  venue : Venue size
  store : PolyStore
  tracked : TrackedOrder
  copies : Observer → Copy

namespace Watch

variable {size : ℚ}

def setCopy (s : Watch size) (o : Observer) (c : Copy) : Watch size :=
  { s with copies := fun o' => if o' = o then c else s.copies o' }

inductive Event where
  | trade
  | read (o : Observer)
  | book (o : Observer)
  | finish (o : Observer)
  | drop (o : Observer)
  | write (o : Observer)

inductive Step (sha : String → String) : Watch size → Event → Watch size → Prop
  | trade {s : Watch size} {v : Venue size} {x : VenueTrade}
      (h : v.trades = s.venue.trades ++ [x]) : Step sha s .trade { s with venue := v }
  | read {s : Watch size} {o : Observer} (h : s.copies o = .none) :
      Step sha s (.read o) (s.setCopy o (.read s.tracked))
  | book {s : Watch size} {o : Observer} {t : TrackedOrder} {obs : VenueObservation}
      {position : String} {b : Booking} (h : s.copies o = .read t) (hobs : Consistent s.venue t obs)
      (hbook : s.store.bookObservation sha position t obs = .ok b) :
      Step sha s (.book o) { s.setCopy o (.changed b.tracked) with store := b.store }
  | finish {s : Watch size} {o : Observer} {t next : TrackedOrder} {target : LocalOrderState}
      {reason : String} {now : Int} (h : s.copies o = .read t)
      (htarget : target = .failed ∨ target = .unknown ∨ target = .cancelled)
      (hnext : t.finishLocally target reason now = some next) :
      Step sha s (.finish o) (s.setCopy o (.changed next))
  | drop {s : Watch size} {o : Observer} {t : TrackedOrder} (h : s.copies o = .read t) :
      Step sha s (.drop o) (s.setCopy o .none)
  | write {s : Watch size} {o : Observer} {t : TrackedOrder} (h : s.copies o = .changed t) :
      Step sha s (.write o)
        { s.setCopy o .none with tracked := t, store := s.store.journalOrder t }

/-! ## One observer at a time -/

def Alone (e : Entry (Watch size) Event) : Prop :=
  ∀ o, e.label = .read o → ∀ o', e.pre.copies o' = .none

/-- Who holds what, and which size covers the rows of the order. -/
inductive Held (s : Watch size) (venueOrderId : String) : Prop
  | nobody (hnone : ∀ o, s.copies o = .none)
      (hrows : s.store.booked venueOrderId ≤ s.tracked.sizeMatched)
  | reader (o : Observer) (hothers : ∀ o' ≠ o, s.copies o' = .none)
      (hcopy : s.copies o = .read s.tracked)
      (hrows : s.store.booked venueOrderId ≤ s.tracked.sizeMatched)
  | writer (o : Observer) (t : TrackedOrder) (hothers : ∀ o' ≠ o, s.copies o' = .none)
      (hcopy : s.copies o = .changed t) (hsound : Sound s.venue t)
      (hid : t.venueOrderId = venueOrderId) (hrows : s.store.booked venueOrderId ≤ t.sizeMatched)
      (hterminal : s.tracked.state.isTerminal = true → t.state.isTerminal = true)

structure Kept (venueOrderId : String) (s : Watch size) : Prop where
  sound : Sound s.venue s.tracked
  id_eq : s.tracked.venueOrderId = venueOrderId
  held : Held s venueOrderId

variable {sha : String → String} {venueOrderId : String} {s s' : Watch size} {ev : Event}
  {o : Observer} {t : TrackedOrder}

theorem setCopy_others (h : ∀ o' ≠ o, s.copies o' = .none) (c : Copy) :
    ∀ o' ≠ o, (s.setCopy o c).copies o' = .none := by
  intro o' hn
  show (if o' = o then c else s.copies o') = _
  rw [if_neg hn]
  exact h o' hn

theorem setCopy_self (s : Watch size) (o : Observer) (c : Copy) : (s.setCopy o c).copies o = c :=
  if_pos rfl

theorem setCopy_nobody (h : ∀ o' ≠ o, s.copies o' = .none) :
    ∀ o', (s.setCopy o .none).copies o' = .none := by
  intro o'
  by_cases he : o' = o
  · rw [he, setCopy_self]
  · exact setCopy_others h .none o' he

theorem Held.of_read (h : Held s venueOrderId) (hc : s.copies o = .read t) :
    t = s.tracked ∧ (∀ o' ≠ o, s.copies o' = .none) ∧
    s.store.booked venueOrderId ≤ s.tracked.sizeMatched := by
  cases h with
  | nobody hn => rw [hn o] at hc; cases hc
  | reader o₁ ho hr hro =>
    obtain rfl : o = o₁ := by
      by_contra hne
      rw [ho o hne] at hc
      cases hc
    rw [hr] at hc
    cases hc
    exact ⟨rfl, ho, hro⟩
  | writer o₁ t₁ ho hch =>
    by_cases he : o = o₁
    · rw [he, hch] at hc
      cases hc
    · rw [ho o he] at hc
      cases hc

theorem Held.of_changed (h : Held s venueOrderId) (hc : s.copies o = .changed t) :
    (∀ o' ≠ o, s.copies o' = .none) ∧ Sound s.venue t ∧ t.venueOrderId = venueOrderId ∧
    s.store.booked venueOrderId ≤ t.sizeMatched ∧
    (s.tracked.state.isTerminal = true → t.state.isTerminal = true) := by
  cases h with
  | nobody hn => rw [hn o] at hc; cases hc
  | reader o₁ ho hr =>
    by_cases he : o = o₁
    · rw [he, hr] at hc
      cases hc
    · rw [ho o he] at hc
      cases hc
  | writer o₁ t₁ ho hch hso hi hro hte =>
    obtain rfl : o = o₁ := by
      by_contra hne
      rw [ho o hne] at hc
      cases hc
    rw [hch] at hc
    cases hc
    exact ⟨ho, hso, hi, hro, hte⟩

theorem Step.kept (hs : Step sha s ev s') (h : Kept venueOrderId s)
    (ha : Alone ⟨s, ev, s'⟩) : Kept venueOrderId s' := by
  cases hs with
  | trade hv =>
    refine ⟨h.sound.extends_venue hv, h.id_eq, ?_⟩
    cases h.held with
    | nobody hno hr => exact .nobody hno hr
    | reader o ho hc hr => exact .reader o ho hc hr
    | writer o t ho hc hso hi hr hte =>
      exact .writer o t ho hc (hso.extends_venue hv) hi hr hte
  | @read o hno =>
    have hn : ∀ o', s.copies o' = .none := ha o rfl
    refine ⟨h.sound, h.id_eq, .reader o (setCopy_others (fun o' _ => hn o') _)
      (setCopy_self s o _) ?_⟩
    cases h.held with
    | nobody _ hr | reader _ _ _ hr => exact hr
    | writer o₁ t ho hc => rw [hn o₁] at hc; cases hc
  | @book o t obs position b hc hob hbo =>
    obtain ⟨rfl, ho, hr⟩ := h.held.of_read hc
    obtain ⟨b', hb', hk⟩ := bookObservation_booked position h.sound hob
    obtain rfl : b' = b := Except.ok.inj (hb'.symm.trans hbo)
    have hi := h.id_eq
    refine ⟨h.sound, hi, .writer o b'.tracked (setCopy_others ho _) (setCopy_self s o _)
      hk.sound (hk.same_id.trans hi) ?_ ?_⟩
    · have hm := hk.rows
      rw [hi] at hm
      show b'.store.booked venueOrderId ≤ _
      linarith
    · intro hte
      have hte : s.tracked.state.isTerminal = true := hte
      rw [bookObservation_terminal hte] at hbo
      rw [← Except.ok.inj hbo]
      exact hte
  | @finish o t next target reason now hc hta hnext =>
    obtain ⟨rfl, ho, hr⟩ := h.held.of_read hc
    have hpa : target ≠ .partiallyFilled := by
      rcases hta with rfl | rfl | rfl <;> decide
    obtain ⟨hso, hi, hsize⟩ := h.sound.finishLocally hpa hnext
    refine ⟨h.sound, h.id_eq, .writer o next (setCopy_others ho _) (setCopy_self s o _) hso
      (hi.trans h.id_eq) (hsize ▸ hr) ?_⟩
    intro hte
    rw [finishLocally_terminal hte hnext]
    exact hte
  | @drop o t hc =>
    obtain ⟨-, ho, hr⟩ := h.held.of_read hc
    exact ⟨h.sound, h.id_eq, .nobody (setCopy_nobody ho) hr⟩
  | @write o t hc =>
    obtain ⟨ho, hso, hi, hr, -⟩ := h.held.of_changed hc
    exact ⟨hso, hi, .nobody (setCopy_nobody ho) hr⟩

theorem Step.stays_terminal (hs : Step sha s ev s') (h : Kept venueOrderId s)
    (hte : s.tracked.state.isTerminal = true) : s'.tracked.state.isTerminal = true := by
  cases hs with
  | write hc =>
    obtain ⟨-, -, -, -, hk⟩ := h.held.of_changed hc
    exact hk hte
  | trade | read | book | finish | drop => exact hte

theorem Kept.booked_le (h : Kept venueOrderId s) :
    s.store.booked venueOrderId ≤ s.venue.matched := by
  cases h.held with
  | nobody _ hr | reader _ _ _ hr => exact hr.trans h.sound.le_matched
  | writer _ _ _ _ hso _ hr => exact hr.trans hso.le_matched

end Watch

/-- When no observer reads the order while another holds a copy, each fill is booked once and
a closed order stays closed. -/
theorem observers_book_once (sha : String → String) {size : ℚ} (v : Venue size)
    (t : TrackedOrder) (ht : t.Fresh size) (store : PolyStore)
    (hnone : store.booked t.venueOrderId = 0) {tr : List (Entry (Watch size) Watch.Event)}
    {s : Watch size} (hr : Run (Watch.Step sha) ⟨v, store, t, fun _ => .none⟩ tr s)
    (halone : ∀ e ∈ tr, Watch.Alone e) :
    s.store.booked t.venueOrderId ≤ s.venue.matched ∧
      ∀ e ∈ tr, e.pre.tracked.state.isTerminal = true → e.post.tracked.state.isTerminal = true := by
  have h0 : Watch.Kept t.venueOrderId ⟨v, store, t, fun _ => .none⟩ := by
    refine ⟨.of_fresh ht, rfl, .nobody (fun _ => rfl) ?_⟩
    show store.booked t.venueOrderId ≤ t.sizeMatched
    rw [hnone, ht.nothing]
  have hst : ∀ (s : Watch size) ev s', Watch.Kept t.venueOrderId s →
      Watch.Alone ⟨s, ev, s'⟩ → Watch.Step sha s ev s' → Watch.Kept t.venueOrderId s' :=
    fun s ev s' hkept halone hs => hs.kept hkept halone
  refine ⟨(hr.invariant_of_entries hst halone h0).booked_le, ?_⟩
  intro e he
  obtain ⟨hkept, hs⟩ := hr.invariant_before hst halone h0 he
  exact hs.stays_terminal hkept

/-! ## Interleaved observers -/

private def wholeFiveTrades : List VenueTrade := [⟨"t1", 5⟩]

private theorem wholeFive_nodup : (wholeFiveTrades.map Item.id).Nodup := by decide +kernel

private theorem wholeFive_named : ∀ x ∈ wholeFiveTrades, isBlank x.id = false := by decide +kernel

private theorem wholeFive_nonneg : ∀ x ∈ wholeFiveTrades, 0 ≤ x.size := by decide +kernel

private def wholeFive : Venue 5 where
  trades := wholeFiveTrades
  ids_nodup := wholeFive_nodup
  ids_named := wholeFive_named
  sizes_nonneg := wholeFive_nonneg
  total_le := by decide +kernel

private theorem wholeFive_matched : wholeFive.matched = 5 := by decide +kernel

private def bidForFive : TrackedOrder := .new "0x1" true "GTC" (1 / 2) 5 .live 0

private def emptyStore : PolyStore where
  orders _ := none
  fills := []

/-- A status answer that says nothing of sizes. -/
private def staleLive : VenueObservation where
  state := .live
  rawStatus := "live"
  sizeMatched := none
  fillDelta := none
  tradeId := none
  price := none
  source := .recon
  observedAt := 1
  associateTrades := []

private def pollAll : VenueObservation := { staleLive with sizeMatched := some 5, source := .poll }

private def tradeAll : VenueObservation :=
  { staleLive with
    rawStatus := "trade", fillDelta := some 5, tradeId := some "t1", source := .userWs }

variable (t : TrackedOrder)

private theorem staleLive_consistent : Consistent wholeFive t staleLive where
  evidence := .status rfl rfl rfl
  whole h := by cases h

private theorem pollAll_consistent : Consistent wholeFive t pollAll where
  evidence := .cumulative 1 (by decide +kernel) rfl rfl fun h => absurd rfl h
  whole h := by cases h

open List

private theorem tradeAll_consistent : Consistent wholeFive t tradeAll where
  evidence := .trade ⟨"t1", 5⟩ (mem_singleton_self _) rfl rfl rfl rfl
  whole h := by cases h

private def filledEffect (tradeId : Option String) : LifecycleEffect where
  fillDelta := 5
  fillPrice := 1 / 2
  fromState := .submitted
  toState := .filled
  transitioned := true
  tradeId := tradeId

private def restingEffect : LifecycleEffect :=
  { filledEffect none with fillDelta := 0, toState := .resting }

section

variable (sha : String → String)

private def allRow (obs : VenueObservation) : PolyFillRecord :=
  (bidForFive.applyVenue obs).1.fillRecord sha "p1" 5 (1 / 2) obs.source obs.tradeId

private def allFilled (obs : VenueObservation) : TrackedOrder :=
  { (bidForFive.applyVenue obs).1 with positionId := (allRow sha obs).positionId }

private theorem pollAll_booked : emptyStore.bookObservation sha "p1" bidForFive pollAll =
    .ok ⟨{ emptyStore with fills := [allRow sha pollAll] }, allFilled sha pollAll,
        true, filledEffect none⟩ := by
  have ha : bidForFive.applyVenue pollAll =
      ((bidForFive.applyVenue pollAll).1, .ok (filledEffect none)) := by
    decide +kernel
  exact bookObservation_of_new "p1" ha (by decide +kernel) not_mem_nil

private theorem tradeAll_booked (store : PolyStore) (hst : store.fills = [allRow sha pollAll]) :
    store.bookObservation sha "p1" bidForFive tradeAll =
    .ok ⟨{ store with fills := store.fills ++ [allRow sha tradeAll] },
        allFilled sha tradeAll, true, filledEffect (some "t1")⟩ := by
  have ha : bidForFive.applyVenue tradeAll =
      ((bidForFive.applyVenue tradeAll).1, .ok (filledEffect (some "t1"))) := by
    decide +kernel
  refine bookObservation_of_new "p1" ha (by decide +kernel) ?_
  rw [hst]
  intro hi
  have hbl : isBlank "t1" = false := by decide +kernel
  exact fillId_trade_ne _ _ hbl _ _ (mem_singleton.mp hi)

private theorem staleLive_booked (store : PolyStore) :
    store.bookObservation sha "p1" bidForFive staleLive =
    .ok ⟨store, (bidForFive.applyVenue staleLive).1, false, restingEffect⟩ := by
  have ha : bidForFive.applyVenue staleLive =
      ((bidForFive.applyVenue staleLive).1, .ok restingEffect) := by
    decide +kernel
  exact bookObservation_of_no_fill "p1" ha (lt_irrefl (0 : ℚ))

end

/-- Three copies are taken before anything is written: the same trade is booked by the poller
and by the user channel, and what reconciliation puts back opens the order again. -/
theorem interleaved_observers_book_twice : ∃ (v : Venue 5) (t : TrackedOrder) (store : PolyStore),
      t.Fresh 5 ∧ store.booked t.venueOrderId = 0 ∧
      ∀ sha : String → String, ∃ (s : Watch 5) (tr : List (Entry (Watch 5) Watch.Event)),
          Run (Watch.Step sha) ⟨v, store, t, fun _ => .none⟩ tr s ∧
          tr.map Entry.label = [.read .poller, .read .userChannel, .read .reconciliation,
            .book .poller, .write .poller, .book .userChannel, .write .userChannel,
            .book .reconciliation, .write .reconciliation] ∧
          s.venue.matched = 5 ∧ s.store.booked t.venueOrderId = 10 ∧
          ∃ e ∈ tr, e.pre.tracked.state.isTerminal = true ∧
            e.post.tracked.state.isTerminal = false := by
  refine ⟨wholeFive, bidForFive, emptyStore, ⟨rfl, rfl, rfl, rfl, by decide⟩, rfl, ?_⟩
  intro sha
  have hr : Run (Watch.Step sha) ⟨wholeFive, emptyStore, bidForFive, fun _ => .none⟩ _ _ :=
    ((Run.single (.read (o := .poller) rfl)).snoc (.read (o := .userChannel) rfl)).snoc
      (.read (o := .reconciliation) rfl)
  have hpo := (hr.snoc (.book (o := .poller) rfl (pollAll_consistent _)
    (pollAll_booked sha))).snoc (.write (o := .poller) rfl)
  have hus := (hpo.snoc (.book (o := .userChannel) rfl (tradeAll_consistent _)
    (tradeAll_booked sha _ rfl))).snoc (.write (o := .userChannel) rfl)
  have hre := (hus.snoc (.book (o := .reconciliation) rfl (staleLive_consistent _)
    (staleLive_booked sha _))).snoc (.write (o := .reconciliation) rfl)
  refine ⟨_, _, hre, rfl, wholeFive_matched, ?_, _,
    List.mem_append_right _ (List.mem_singleton_self _), ?_, ?_⟩
  rotate_left
  · show (bidForFive.applyVenue tradeAll).1.state.isTerminal = true
    decide +kernel
  · show (bidForFive.applyVenue staleLive).1.state.isTerminal = false
    decide +kernel
  have hro : ∀ obs, (allRow sha obs).venueOrderId = "0x1" :=
    fun obs => bidForFive.applyVenue_venueOrderId obs
  show (([allRow sha pollAll, allRow sha tradeAll].filter
    (·.venueOrderId = "0x1")).map PolyFillRecord.sizeTokens).sum = 10
  rw [List.filter_cons_of_pos (by simpa using hro pollAll),
    List.filter_cons_of_pos (by simpa using hro tradeAll)]
  show (5 : ℚ) + (5 + 0) = 10
  norm_num

theorem observers_book_once_in_turn : ∃ (s : Watch 5) (tr : List (Entry (Watch 5) Watch.Event)),
      Run (Watch.Step id) ⟨wholeFive, emptyStore, bidForFive, fun _ => .none⟩ tr s ∧
      tr.map Entry.label = [.read .poller, .book .poller, .write .poller, .read .userChannel] ∧
      s.store.booked "0x1" ≤ s.venue.matched := by
  have hr : Run (Watch.Step id) ⟨wholeFive, emptyStore, bidForFive, fun _ => .none⟩ _ _ :=
    (((Run.single (.read (o := .poller) rfl)).snoc (.book (o := .poller) rfl (pollAll_consistent _)
      (pollAll_booked id))).snoc (.write (o := .poller) rfl)).snoc (.read (o := .userChannel) rfl)
  refine ⟨_, _, hr, rfl, (observers_book_once id wholeFive bidForFive
    ⟨rfl, rfl, rfl, rfl, by decide⟩ emptyStore rfl hr ?_).1⟩
  intro e he o hl o'
  simp only [List.nil_append, List.cons_append, List.mem_cons, List.not_mem_nil, or_false] at he
  rcases he with rfl | rfl | rfl | rfl
  · rfl
  · cases hl
  · cases hl
  · cases o' <;> rfl

end SniperBot.Polymarket
