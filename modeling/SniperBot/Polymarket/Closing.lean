import Mathlib.Algebra.Group.Subgroup.ZPowers.Basic
import Mathlib.Algebra.Group.Submonoid.BigOperators
import SniperBot.Polymarket.Handlers

/-!
# Orders that end

The venue matches trades until it is finished with the order. The engine closes its own
order when the venue says so, and takes nothing in from then on, so whatever has not been
booked by then is lost.
-/

namespace SniperBot.Polymarket

open Execution (isBlank)
open Lib.Runs
open Lib.Tally

/-! ## Sizes in whole units -/

abbrev Units (u : ℚ) : AddSubgroup ℚ := AddSubgroup.zmultiples u

theorem eq_of_units {u a b : ℚ} (ha : a ∈ Units u) (hb : b ∈ Units u) (hle : a ≤ b)
    (hl : b < a + u) : a = b := by
  obtain ⟨m, rfl⟩ := ha
  obtain ⟨n, rfl⟩ := hb
  have hu : 0 < u := by linarith
  simp only [zsmul_eq_mul] at hle hl ⊢
  have hm : m ≤ n := (Int.cast_le (R := ℚ)).mp (le_of_mul_le_mul_right hle hu)
  have hn : n < m + 1 := by
    refine (Int.cast_lt (R := ℚ)).mp (lt_of_mul_lt_mul_right ?_ hu.le)
    rw [Int.cast_add, Int.cast_one, add_mul, one_mul]
    exact hl
  rw [show m = n by omega]

structure SizesIn (G : AddSubgroup ℚ) (t : TrackedOrder) : Prop where
  size : t.sizeTokens ∈ G
  matched : t.sizeMatched ∈ G
  trades : t.tradeMatched ∈ G

section

variable {G : AddSubgroup ℚ} {t : TrackedOrder} {obs : VenueObservation}

theorem max_mem_of {a b : ℚ} (ha : a ∈ G) (hb : b ∈ G) : max a b ∈ G := by
  rcases max_choice a b with h | h <;> rw [h] <;> assumption

theorem min_mem_of {a b : ℚ} (ha : a ∈ G) (hb : b ∈ G) : min a b ∈ G := by
  rcases min_choice a b with h | h <;> rw [h] <;> assumption

theorem total_mem_of {trades : List VenueTrade} (h : ∀ x ∈ trades, x.size ∈ G) :
    total trades ∈ G := by
  refine list_sum_mem ?_
  intro s hs
  obtain ⟨x, hx, rfl⟩ := List.mem_map.mp hs
  exact h x hx

section

variable (h : SizesIn G t) (hsize : ∀ m ∈ obs.sizeMatched, m ∈ G) (hd : ∀ d ∈ obs.fillDelta, d ∈ G)

include h hsize hd

theorem evidence_mem {matched : ℚ} {pending : Option ℚ}
    (he : t.evidence obs = .ok (some (matched, pending))) :
    matched ∈ G ∧ pending.getD t.tradeMatched ∈ G := by
  unfold TrackedOrder.evidence at he
  cases hc : obs.sizeMatched with
  | some m =>
    rw [hc] at he
    cases he
    exact ⟨hsize matched hc, h.trades⟩
  | none =>
    rw [hc] at he
    cases hsi : obs.fillDelta with
    | none => rw [hsi] at he; cases he
    | some d =>
      rw [hsi] at he
      dsimp only at he
      split_ifs at he
      cases he
      have hsu : t.tradeMatched + d ∈ G := G.add_mem h.trades (hd d hsi)
      exact ⟨max_mem_of hsu h.matched, hsu⟩

theorem SizesIn.applySize {sized : TrackedOrder} {delta : ℚ} {id : Option String}
    {reported : Bool} (ha : t.applySize obs = .ok (sized, delta, id, reported)) :
    SizesIn G sized := by
  rcases t.applySize_ok ha with ⟨-, -, rfl⟩ | ⟨matched, pending, ids, he, rfl⟩
  · exact h
  · obtain ⟨hm, hpending⟩ := evidence_mem h hsize hd he
    refine ⟨h.size, ?_, ?_⟩
    · show (if _ then _ else _) ∈ G
      split_ifs
      · exact min_mem_of hm h.size
      · exact h.matched
    · show (if _ then _ else _) ∈ G
      split_ifs
      · exact max_mem_of hpending hm
      · exact hpending

theorem SizesIn.applyVenue {next : TrackedOrder} {effect : LifecycleEffect}
    (ha : t.applyVenue obs = (next, .ok effect)) : SizesIn G next := by
  by_cases hus : t.ignores obs
  · rw [t.applyVenue_of_ignores hus] at ha
    obtain rfl := (Prod.mk.inj ha).1
    exact ⟨h.size, h.matched, h.trades⟩
  · obtain ⟨sized, _, _, reported, hsiz, rfl⟩ := t.applyVenue_used hus ha
    have hsi := h.applySize hsize hd hsiz
    obtain ⟨m, hf, hm⟩ := sized.target_frame obs.state reported
    rw [hf]
    refine ⟨hsi.size, ?_, hsi.trades⟩
    show m ∈ G
    rcases hm with rfl | rfl
    · exact hsi.matched
    · exact hsi.size

end

end

/-! ## What closes an order -/

def VenueOrderState.EndsOrder (state : VenueOrderState) (t : TrackedOrder) : Prop :=
  state = .cancelled ∨ state = .expired ∨ state = .matched ∧ t.isFillAndKill = true

/-- The report closes the order at whatever is booked of it by then. -/
def ClobOrder.Closes (order : ClobOrder) (t : TrackedOrder) : Prop :=
  order.state.EndsOrder t ∧ (order.state = .matched → order.sizeMatched.isSome = true)

section

variable {size u : ℚ} {v : Venue size} {t next : TrackedOrder} {obs : VenueObservation}
  {effect : LifecycleEffect}

theorem target_ends (ho : t.state.isTerminal = false) (state : VenueOrderState)
    (reported : Bool) (he : (t.target state reported).1.isTerminal = true) :
    (t.target state reported).2.1.fully = true ∨
    state.EndsOrder t ∧ (state = .matched → reported = true) := by
  have hst : ∀ otherwise : LocalOrderState, otherwise.isTerminal = false →
      (t.openState otherwise).isTerminal = true → t.fully = true := by
    intro otherwise hot
    unfold TrackedOrder.openState
    split_ifs with hf hpa
    · exact fun _ => hf
    · exact fun h => by cases h
    · rw [hot]
      exact fun h => by cases h
  cases state with
  | cancelled => exact .inr ⟨.inl rfl, fun h => by cases h⟩
  | expired => exact .inr ⟨.inr (.inl rfl), fun h => by cases h⟩
  | live | delayed | unmatched | unknown => exact .inl (hst _ rfl he)
  | matched =>
    unfold TrackedOrder.target at he ⊢
    dsimp only at he ⊢
    split_ifs at he ⊢ with hf hk hr hso hrest
    · exact .inl hf
    · exact .inr ⟨.inr (.inr ⟨rfl, hk⟩), fun _ => hr⟩
    · exact .inr ⟨.inr (.inr ⟨rfl, hk⟩), fun _ => hr⟩
    · rw [ho] at he
      cases he
    · left
      have hsl := sizeSlack_pos
      exact decide_eq_true (show t.sizeTokens - sizeSlack ≤ t.sizeTokens by linarith)
    · left
      have hsl : fillThreshold ≤ sizeSlack := by decide +kernel
      refine decide_eq_true (show t.sizeTokens - sizeSlack ≤ t.sizeMatched by linarith)

/-- A closed order is one of which everything is booked that the venue has matched. -/
structure Whole (u : ℚ) (v : Venue size) (finished : Bool) (t : TrackedOrder) : Prop where
  sound : Sound v t
  sizes : SizesIn (Units u) t
  trades : ∀ x ∈ v.trades, x.size ∈ Units u
  live : t.mode = .live
  closed : t.state.isTerminal = true →
    t.sizeMatched = v.matched ∧ (finished = true ∨ v.matched = size)

namespace Whole

variable {finished : Bool}

theorem matched_mem (h : Whole u v finished t) : v.matched ∈ Units u := total_mem_of h.trades

theorem congr (h : Whole u v finished t) (hso : Sound v next)
    (hsi : next.sizeTokens = t.sizeTokens ∧ next.sizeMatched = t.sizeMatched ∧
    next.tradeMatched = t.tradeMatched) (hm : next.mode = t.mode)
    (hc : next.state.isTerminal = true → next.state = t.state ∨
    t.sizeMatched = v.matched ∧ finished = true) : Whole u v finished next := by
  refine ⟨hso, ⟨?_, ?_, ?_⟩, h.trades, hm.trans h.live, fun hte => ?_⟩
  · rw [hsi.1]
    exact h.sizes.size
  · rw [hsi.2.1]
    exact h.sizes.matched
  · rw [hsi.2.2]
    exact h.sizes.trades
  · rw [hsi.2.1]
    rcases hc hte with hsa | ⟨ha, hf⟩
    · exact h.closed (hsa ▸ hte)
    · exact ⟨ha, .inl hf⟩

theorem eq_of_fully (hu : sizeSlack < u) (hso : Sound v next)
    (hsi : SizesIn (Units u) next) (hf : next.fully = true) :
    next.sizeMatched = v.matched ∧ v.matched = size := by
  have hf : next.sizeTokens - sizeSlack ≤ next.sizeMatched := of_decide_eq_true hf
  have hle := hso.le_matched
  have hto := v.matched_le
  have hsize := hso.size_eq
  have ha : next.sizeMatched = next.sizeTokens := by
    refine eq_of_units hsi.matched hsi.size ?_ ?_ <;> linarith
  constructor <;> linarith

theorem evidence_units (h : Whole u v finished t) (ho : Evidence v obs) :
    (∀ m ∈ obs.sizeMatched, m ∈ Units u) ∧ ∀ d ∈ obs.fillDelta, d ∈ Units u := by
  cases ho with
  | status hsize hde =>
    rw [hsize, hde]
    constructor <;> intro _ hn <;> cases hn
  | cumulative k hsize hde =>
    rw [hsize, hde]
    refine ⟨fun m hm => ?_, fun _ hd => (by cases hd)⟩
    cases hm
    exact total_mem_of fun x hx => h.trades x (List.mem_of_mem_take hx)
  | trade x hx hsize hde =>
    rw [hsize, hde]
    refine ⟨fun _ hm => (by cases hm), fun d hd => ?_⟩
    cases hd
    exact h.trades x hx

section

variable (hu : sizeSlack < u) (h : Whole u v finished t) (ho : t.state.isTerminal = false)
  (ha : Applied v t obs next effect)

include hu h ho ha

theorem eq_of_reported (hsi : SizesIn (Units u) next) (hal : obs.sizeMatched = some v.matched) :
    next.sizeMatched = v.matched := by
  have hc := ha.caught_up ho v.matched hal
  have hsl : fillThreshold ≤ sizeSlack := by decide +kernel
  refine eq_of_units hsi.matched h.matched_mem ha.sound.le_matched ?_
  linarith

theorem applyVenue (hap : t.applyVenue obs = (next, .ok effect)) (hob : Evidence v obs)
    (hfi : obs.state.EndsOrder t → finished = true)
    (hal : obs.state.EndsOrder t →
    (obs.state = .matched → obs.sizeMatched.isSome = true ∨ obs.fillDelta.isSome = true) →
    obs.sizeMatched = some v.matched ∨ t.sizeMatched = v.matched) :
    Whole u v finished next := by
  obtain ⟨hsize, hde⟩ := h.evidence_units hob
  have hsi : SizesIn (Units u) next := h.sizes.applyVenue hsize hde hap
  have hmo : next.mode = t.mode := by
    obtain ⟨_, _, _, _, _, _, hf⟩ := t.applyVenue_frame obs
    rw [hap] at hf
    rw [show next = _ from hf]
    rfl
  refine ⟨ha.sound, hsi, h.trades, hmo.trans h.live, fun hte => ?_⟩
  by_cases hus : t.ignores obs
  · rw [t.applyVenue_of_ignores hus] at hap
    rw [← (Prod.mk.inj hap).1] at hte
    rw [ho] at hte
    cases hte
  obtain ⟨sized, _, _, reported, hsiz, hnext⟩ := t.applyVenue_used hus hap
  obtain ⟨_, _, _, hf⟩ := t.applySize_frame hsiz
  have hst : sized.state.isTerminal = false := by rw [hf]; exact ho
  have he := target_ends hst obs.state reported (by rw [hnext] at hte; exact hte)
  rcases he with hfu | ⟨hen, hr⟩
  · have hfu : next.fully = true := by rw [hnext]; exact hfu
    obtain ⟨hbo, hw⟩ := eq_of_fully hu ha.sound hsi hfu
    exact ⟨hbo, .inr hw⟩
  · have hen : obs.state.EndsOrder t := by
      unfold VenueOrderState.EndsOrder TrackedOrder.isFillAndKill at hen ⊢
      rwa [hf] at hen
    refine ⟨?_, .inl (hfi hen)⟩
    have hso : obs.state = .matched →
        obs.sizeMatched.isSome = true ∨ obs.fillDelta.isSome = true := by
      intro hma
      have htr := hr hma
      rcases t.applySize_ok hsiz with ⟨-, hfa, -⟩ | ⟨_, _, _, hev, -⟩
      · rw [htr] at hfa
        cases hfa
      · unfold TrackedOrder.evidence at hev
        cases hm : obs.sizeMatched with
        | some m => exact .inl rfl
        | none =>
          cases hd : obs.fillDelta with
          | some d => exact .inr rfl
          | none => rw [hm, hd] at hev; cases hev
    rcases hal hen hso with hsa | hbe
    · exact h.eq_of_reported hu ho ha hsi hsa
    · refine le_antisymm ha.sound.le_matched ?_
      rw [ha.booked, hbe]
      exact le_add_of_nonneg_right ha.nonneg

end

end Whole

theorem Consistent.congr (h : Consistent v t obs) (hty : next.orderType = t.orderType) :
    Consistent v next obs := by
  refine ⟨h.evidence, fun hm hk => h.whole hm ?_⟩
  unfold TrackedOrder.isFillAndKill at hk ⊢
  rwa [← hty]

end

/-! ## One message -/

namespace Tracker

variable {sha : String → String} {position : String} {size u : ℚ} {v : Venue size}
  {finished : Bool} {k : Tracker} {obs : VenueObservation}

theorem whole_applyObservation (hu : sizeSlack < u) (h : Whole u v finished k.tracked)
    (ho : Consistent v k.tracked obs) (hf : obs.state.EndsOrder k.tracked → finished = true)
    (hal : k.tracked.state.isTerminal = false → obs.state.EndsOrder k.tracked →
    (obs.state = .matched → obs.sizeMatched.isSome = true ∨ obs.fillDelta.isSome = true) →
    obs.sizeMatched = some v.matched ∨ k.tracked.sizeMatched = v.matched) :
    Whole u v finished (k.applyObservation sha position obs).tracked ∧
    k.tracked.sizeMatched ≤ (k.applyObservation sha position obs).tracked.sizeMatched := by
  obtain ⟨b, hb, hbo⟩ : ∃ b, k.store.bookObservation sha position k.tracked obs = .ok b ∧
      Polymarket.Booked v k.store k.tracked b :=
    bookObservation_booked position h.sound ho
  have htr : (k.applyObservation sha position obs).tracked = b.tracked := by
    unfold applyObservation
    rw [hb]
  rw [htr]
  refine ⟨?_, hbo.grows⟩
  cases hte : k.tracked.state.isTerminal with
  | true =>
    rw [bookObservation_terminal hte] at hb
    have hso := hbo.sound
    rw [← Except.ok.inj hb] at hso ⊢
    exact h.congr hso ⟨rfl, rfl, rfl⟩ rfl fun _ => .inl rfl
  | false =>
    obtain ⟨next, effect, ha, hap⟩ := applyVenue_applied h.sound ho
    have hnext := h.applyVenue hu hte hap ha ho.evidence hf (hal hte)
    obtain ⟨next', effect', ha', hc⟩ := bookObservation_cases hb
    obtain ⟨rfl, -⟩ := Prod.mk.inj (ha.symm.trans ha')
    have hso := hbo.sound
    rcases hc with ⟨positionId, he⟩ | ⟨-, ids, updatedAt, he⟩
    · rw [he] at hso ⊢
      exact hnext.congr hso ⟨rfl, rfl, rfl⟩ rfl fun _ => .inl rfl
    · rw [he] at hso ⊢
      exact h.congr hso ⟨rfl, rfl, rfl⟩ rfl fun _ => .inl rfl

theorem applyObservation_caught_up (h : Sound v k.tracked) (hob : Consistent v k.tracked obs)
    (ho : k.tracked.state.isTerminal = false) (hsi : obs.fillDelta = none) :
    ∀ m ∈ obs.sizeMatched,
    m ≤ (k.applyObservation sha position obs).tracked.sizeMatched + fillThreshold := by
  intro m hm
  obtain ⟨next, effect, ha, hap⟩ := applyVenue_applied h hob
  have hc := hap.caught_up ho m hm
  rcases applyObservation_cases sha position k obs with
    ⟨-, hr⟩ | ⟨next', effect', ha', ⟨_, he⟩ | ⟨htrade, -⟩⟩
  · unfold TrackedOrder.accepts at hr
    rw [ha] at hr
    cases hr
  · obtain ⟨rfl, -⟩ := Prod.mk.inj (ha.symm.trans ha')
    rw [he]
    exact hc
  · rw [hsi] at htrade
    cases htrade

theorem whole_finishLocally (h : Whole u v finished k.tracked) {target : LocalOrderState}
    {reason : String} {now : Int} (hta : target ≠ .partiallyFilled)
    (hc : target.isTerminal = true → k.tracked.state.isTerminal = false →
    k.tracked.sizeMatched = v.matched ∧ finished = true) :
    Whole u v finished (k.finishLocally target reason now).tracked ∧
    k.tracked.sizeMatched ≤ (k.finishLocally target reason now).tracked.sizeMatched := by
  rcases finishLocally_cases k target reason now with hsa | ⟨hl, hnext⟩
  · rw [hsa]
    exact ⟨h, le_rfl⟩
  · have ho : k.tracked.state.isTerminal = false := by
      refine Bool.eq_false_iff.mpr fun hte => ?_
      rw [canTransitionTo_terminal hte] at hl
      cases hl
    rw [hnext]
    refine ⟨h.congr ?_ ⟨rfl, rfl, rfl⟩ rfl fun hte => .inr (hc hte ho), le_rfl⟩
    have hso := h.sound
    exact ⟨hso.size_eq, hso.nonneg, hso.le_matched, hso.trades_le, fun hpa => absurd hpa hta⟩

end Tracker

/-! ## The venue and the engine -/

/-- What the venue may say: reports of what it has matched, final ones only when it is
finished with the order, and its own trades. -/
structure Faithful {size : ℚ} (v : Venue size) (finished : Bool) (t : TrackedOrder) (m : Message) :
    Prop where
  report : ∀ order source now, m.report = some (order, source, now) →
    Consistent v t (order.observation source now) ∧ (order.state.EndsOrder t → finished = true)
  trade : ∀ event, m = .userTrade event → event.isFailed = false →
    (⟨event.tradeId, event.delta⟩ : VenueTrade) ∈ v.trades
  cancel : ∀ reason now, m = .cancel .confirmed reason now → finished = true

structure Market (size : ℚ) where
  venue : Venue size
  finished : Bool
  desk : Tracker

namespace Market

inductive Event where
  | trade (x : VenueTrade)
  | finish
  | message (m : Message)

variable {size : ℚ}

inductive Step (sha : String → String) : Market size → Event → Market size → Prop
  | trade {s : Market size} {v : Venue size} {x : VenueTrade} (hopen : s.finished = false)
      (h : v.trades = s.venue.trades ++ [x]) : Step sha s (.trade x) { s with venue := v }
  | finish {s : Market size} : Step sha s .finish { s with finished := true }
  | message {s : Market size} {m : Message} {k : Tracker}
      (hm : Faithful s.venue s.finished s.desk.tracked m) (h : Tracker.Step sha s.desk m k) :
      Step sha s (.message m) { s with desk := k }

def Booked (s : Market size) : Prop := s.desk.tracked.sizeMatched = s.venue.matched

/-- The trades are whole units, and whatever closes an open order says how much was matched
or comes when that is booked. -/
structure Settles (u : ℚ) (e : Entry (Market size) Event) : Prop where
  unit : ∀ x, e.label = .trade x → x.size ∈ Units u
  cancel : ∀ reason now, e.label = .message (.cancel .confirmed reason now) →
    e.pre.desk.tracked.state.isTerminal = false → e.pre.Booked
  report : ∀ m order source now, e.label = .message m → m.report = some (order, source, now) →
    e.pre.desk.tracked.state.isTerminal = false → order.Closes e.pre.desk.tracked →
    order.sizeMatched = some e.pre.venue.matched ∨ e.pre.Booked
  missing : ∀ m, e.label = .message m → m.isMissing = true →
    e.pre.desk.tracked.state.isTerminal = false →
    e.pre.desk.tracked.neverAcknowledged = true → e.pre.finished = true ∧ e.pre.Booked

/-- The venue is finished with the order and a poll says how much it has matched. -/
def Polled (e : Entry (Market size) Event) : Prop :=
  e.pre.finished = true ∧ ∃ order pollInterval now,
    e.label = .message (.poll (.found order) pollInterval now) ∧
      order.sizeMatched = some e.pre.venue.matched

variable {sha : String → String} {u : ℚ} {s s' : Market size} {ev : Event}

def Kept (u : ℚ) (s : Market size) : Prop := Whole u s.venue s.finished s.desk.tracked

open Tracker

section

variable (hu : sizeSlack < u) (h : s.Kept u) {order : ClobOrder} {source : FillSource} {now : Int}
  {position : String} (hob : Consistent s.venue s.desk.tracked (order.observation source now))
  (hf : order.state.EndsOrder s.desk.tracked → s.finished = true)

include hu h hob hf

theorem Kept.report (ha : s.desk.tracked.state.isTerminal = false → order.Closes s.desk.tracked →
    order.sizeMatched = some s.venue.matched ∨ s.Booked) :
    Whole u s.venue s.finished
      (s.desk.applyObservation sha position (order.observation source now)).tracked ∧
    s.desk.tracked.sizeMatched ≤ (s.desk.applyObservation sha position
      (order.observation source now)).tracked.sizeMatched := by
  have hn : (order.observation source now).fillDelta = none := rfl
  refine whole_applyObservation hu h hob ?_ ?_
  · rw [ClobOrder.observation_state]
    exact hf
  · rw [ClobOrder.observation_state, ClobOrder.observation_sizeMatched, hn]
    intro ho he hso
    refine ha ho ⟨he, fun hm => ?_⟩
    rcases hso hm with hsize | hd
    · exact hsize
    · cases hd

theorem Kept.report_twice (hal : s.desk.tracked.state.isTerminal = false → order.Closes s.desk.tracked →
      order.sizeMatched = some s.venue.matched ∨ s.Booked) :
    let k := s.desk.applyObservation sha position (order.observation source now)
    Whole u s.venue s.finished
        (k.applyObservation sha position (order.observation source now)).tracked ∧
      s.desk.tracked.sizeMatched ≤ (k.applyObservation sha position
          (order.observation source now)).tracked.sizeMatched := by
  intro k
  obtain ⟨hfi, hg⟩ : Whole u s.venue s.finished k.tracked ∧
      s.desk.tracked.sizeMatched ≤ k.tracked.sizeMatched := h.report hu hob hf hal
  have hty : k.tracked.orderType = s.desk.tracked.orderType :=
    (applyObservation_static sha position s.desk _).2
  have hk : k.tracked.isFillAndKill = s.desk.tracked.isFillAndKill := by
    unfold TrackedOrder.isFillAndKill
    rw [hty]
  have he : order.state.EndsOrder k.tracked → order.state.EndsOrder s.desk.tracked := by
    unfold VenueOrderState.EndsOrder
    rw [hk]
    exact fun hen => hen
  have hse : ({ s with desk := k } : Market size).Kept u := hfi
  have ha : k.tracked.state.isTerminal = false → order.Closes k.tracked →
      order.sizeMatched = some s.venue.matched ∨ k.tracked.sizeMatched = s.venue.matched := by
    intro ho hc
    rcases hal (open_of_applyObservation ho) ⟨he hc.1, hc.2⟩ with
      hsaid | hbo
    · exact .inl hsaid
    · exact .inr (le_antisymm hfi.sound.le_matched (hbo ▸ hg))
  obtain ⟨hw, hm⟩ := hse.report hu (hob.congr hty) (fun hen => hf (he hen)) ha
  exact ⟨hw, hg.trans hm⟩

end

theorem Kept.trade (hu : sizeSlack < u) (h : s.Kept u) {event : TradeEvent} {position : String}
    (hx : (⟨event.tradeId, event.delta⟩ : VenueTrade) ∈ s.venue.trades) :
    Whole u s.venue s.finished (s.desk.applyObservation sha position event.observation).tracked ∧
    s.desk.tracked.sizeMatched ≤
      (s.desk.applyObservation sha position event.observation).tracked.sizeMatched := by
  have hn : ¬ event.observation.state.EndsOrder s.desk.tracked := by
    rintro (hc | he | ⟨hm, -⟩)
    · cases hc
    · cases he
    · cases hm
  have ho : Consistent s.venue s.desk.tracked event.observation :=
    ⟨.trade _ hx rfl rfl rfl rfl, fun hm => by cases hm⟩
  exact whole_applyObservation hu h ho (fun hen => absurd hen hn) fun _ hen => absurd hen hn

theorem Kept.handle (hu : sizeSlack < u) (h : s.Kept u) {m : Message}
    (hm : Faithful s.venue s.finished s.desk.tracked m) {position : String} {s' : Market size}
    (hse : Settles u ⟨s, .message m, s'⟩) :
    Whole u s.venue s.finished (s.desk.handle sha position m).tracked ∧
    s.desk.tracked.sizeMatched ≤ (s.desk.handle sha position m).tracked.sizeMatched := by
  have hh := handled sha position s.desk m
  generalize s.desk.handle sha position m = k' at hh
  cases hh with
  | nothing => exact ⟨h, le_rfl⟩
  | report hso =>
    obtain ⟨hob, hf⟩ := hm.report _ _ _ hso
    exact h.report hu hob hf (hse.report m _ _ _ rfl hso)
  | @twice _ order source now hso =>
    obtain ⟨hob, hf⟩ := hm.report _ _ _ hso
    have hse := hse.report m _ _ _ rfl hso
    exact h.report_twice hu hob hf hse
  | @trade event hr =>
    exact h.trade hu (hm.trade event rfl hr)
  | failed hmi hw hn =>
    refine whole_finishLocally h (by decide) fun _ ho => ?_
    obtain ⟨hfi, hbo⟩ := hse.missing m rfl hmi ho hn
    exact ⟨hbo, hfi⟩
  | vanished => exact whole_finishLocally h (by decide) fun hte => by cases hte
  | @cancelled reason now hw =>
    refine whole_finishLocally h (by decide) fun _ ho => ?_
    exact ⟨hse.cancel reason now rfl ho, hm.cancel reason now rfl⟩

section

variable (hu : sizeSlack < u) (hs : Step sha s ev s') (h : s.Kept u) (hse : Settles u ⟨s, ev, s'⟩)

include hu hs h hse

theorem Step.kept : s'.Kept u := by
  cases hs with
  | @trade v x ho hv =>
    have hx : 0 ≤ x.size := v.sizes_nonneg x (by rw [hv]; simp)
    have hma : v.matched = s.venue.matched + x.size := by
      unfold Venue.matched
      rw [hv, total_snoc]
    refine ⟨h.sound.extends_venue hv, h.sizes, ?_, h.live, fun hte => ?_⟩
    · intro y hy
      rw [hv] at hy
      rcases List.mem_append.mp hy with hold | hne
      · exact h.trades y hold
      · rw [List.mem_singleton.mp hne]
        exact hse.unit x rfl
    · -- An order that is closed before the venue is finished with it is matched as a whole.
      obtain ⟨hbo, hf | hw⟩ := h.closed hte
      · rw [ho] at hf
        cases hf
      · have hto := v.matched_le
        have hn : x.size = 0 := by linarith
        rw [hma, hn, add_zero]
        exact ⟨hbo, .inr hw⟩
  | finish =>
    refine ⟨h.sound, h.sizes, h.trades, h.live, fun hte => ⟨(h.closed hte).1, .inl rfl⟩⟩
  | message hm hst =>
    obtain ⟨position, rfl⟩ := hst
    exact (h.handle hu hm hse).1

theorem Step.stays_booked (hf : s.finished = true) (hbo : s.Booked) :
    s'.finished = true ∧ s'.Booked := by
  cases hs with
  | trade ho =>
    rw [hf] at ho
    cases ho
  | finish => exact ⟨rfl, hbo⟩
  | message hm hst =>
    obtain ⟨position, rfl⟩ := hst
    obtain ⟨hw, hg⟩ := h.handle hu hm hse
    exact ⟨hf, le_antisymm hw.sound.le_matched (hbo.ge.trans hg)⟩

theorem Step.polled (hpo : Polled ⟨s, ev, s'⟩) : s'.finished = true ∧ s'.Booked := by
  obtain ⟨hf, order, pollInterval, now, hl, hsize⟩ := hpo
  cases ho : s.desk.tracked.state.isTerminal with
  | true => exact hs.stays_booked hu h hse hf (h.closed ho).1
  | false =>
    cases hs with
    | trade | finish => cases hl
    | @message m k hm hst =>
      obtain ⟨position, rfl⟩ := hst
      obtain rfl := Event.message.inj hl
      refine ⟨hf, ?_⟩
      have hw : Whole u s.venue s.finished (s.desk.handle sha position
          (.poll (.found order) pollInterval now)).tracked := (h.handle hu hm hse).1
      have hob := (hm.report order .poll now rfl).1
      have hwa : s.desk.Watched := ⟨ho, h.live⟩
      have hh : s.desk.handle sha position (.poll (.found order) pollInterval now) =
          s.desk.applyObservation sha position (order.observation .poll now) :=
        if_pos hwa
      have hc : s.venue.matched ≤ (s.desk.applyObservation sha position
          (order.observation .poll now)).tracked.sizeMatched + fillThreshold :=
        applyObservation_caught_up h.sound hob ho rfl _ hsize
      have hsl : fillThreshold ≤ sizeSlack := by decide +kernel
      refine eq_of_units hw.sizes.matched h.matched_mem hw.sound.le_matched ?_
      show s.venue.matched < _
      rw [hh]
      linarith

end

end Market

/-- When whatever closes the order says how much was matched, or comes when that is booked,
nothing that the venue has matched is lost: once it is finished with the order, a poll that
says how much it was leaves all of it booked for good. -/
theorem nothing_lost (sha : String → String) {size u : ℚ} (hu : sizeSlack < u)
    (hsize : size ∈ Units u) (v : Venue size) (hv : v.trades = []) (k : Tracker)
    (ht : k.tracked.Fresh size) (hlive : k.tracked.mode = .live)
    (hopen : k.tracked.state.isTerminal = false)
    {tr : List (Entry (Market size) Market.Event)} {s : Market size}
    (hr : Run (Market.Step sha) ⟨v, false, k⟩ tr s)
    (hset : ∀ e ∈ tr, Market.Settles u e) (hpolled : ∃ e ∈ tr, Market.Polled e) :
    s.desk.tracked.sizeMatched = s.venue.matched := by
  have h0 : Market.Kept u ⟨v, false, k⟩ := by
    refine ⟨.of_fresh ht, ⟨?_, ?_, ?_⟩, ?_, hlive, fun hte => ?_⟩
    · rw [ht.size_eq]
      exact hsize
    · rw [ht.nothing]
      exact (Units u).zero_mem
    · rw [ht.no_sum]
      exact (Units u).zero_mem
    · intro x hx
      rw [hv] at hx
      cases hx
    · rw [hopen] at hte
      cases hte
  have hst : ∀ (s : Market size) ev s', s.Kept u → Market.Settles u ⟨s, ev, s'⟩ →
      Market.Step sha s ev s' → s'.Kept u :=
    fun s ev s' hkept hset hs => hs.kept hu hkept hset
  obtain ⟨e, he, hpo⟩ := hpolled
  obtain ⟨before, after, rfl⟩ := List.append_of_mem he
  obtain ⟨hbe, hs, ha⟩ := hr.around
  have hpr : e.pre.Kept u := hbe.invariant_of_entries hst
    (fun e' he' => hset e' (List.mem_append_left _ he')) h0
  have hpost := hs.polled hu hpr (hset e he) hpo
  have hen := ha.invariant_of_entries
    (I := fun s => s.Kept u ∧ s.finished = true ∧ s.Booked) (P := Market.Settles u)
    (fun s ev s' hkept hset hs => ⟨hs.kept hu hkept.1 hset,
      hs.stays_booked hu hkept.1 hset hkept.2.1 hkept.2.2⟩)
    (fun e' he' => hset e' (List.mem_append_right _ (List.mem_cons_of_mem _ he')))
    ⟨hs.kept hu hpr (hset e he), hpost⟩
  exact hen.2.2

/-! ## A trade that a cancel overtakes -/

private def tradedFiveTrades : List VenueTrade := [⟨"t1", 5⟩]

private theorem tradedFive_nodup : (tradedFiveTrades.map Item.id).Nodup := by decide +kernel

private theorem tradedFive_named : ∀ x ∈ tradedFiveTrades, isBlank x.id = false := by decide +kernel

private theorem tradedFive_nonneg : ∀ x ∈ tradedFiveTrades, 0 ≤ x.size := by decide +kernel

private def tradedFive : Venue 10 where
  trades := tradedFiveTrades
  ids_nodup := tradedFive_nodup
  ids_named := tradedFive_named
  sizes_nonneg := tradedFive_nonneg
  total_le := by decide +kernel

private def untraded : Venue 10 := .empty (by decide +kernel)

private def submittedDesk : Tracker where
  store := { orders := fun _ => none, fills := [] }
  tracked := .new "0x1" true "GTC" (1 / 2) 10 .live 0

private def cancelledDesk : Tracker := submittedDesk.finishLocally .cancelled "ttl" 10

private def cancelledFive : ClobOrder := ⟨"canceled", some 5, []⟩

private def fiveTraded : TradeEvent := ⟨"t1", "MATCHED", 5, 1 / 2, 40⟩

private theorem cancelledFive_state : cancelledFive.state = .cancelled := by decide +kernel

private theorem tradedFive_matched : tradedFive.matched = 5 := by decide +kernel

private theorem cancelledFive_consistent (t : TrackedOrder) (source : FillSource) (now : Int) :
    Consistent tradedFive t (cancelledFive.observation source now) where
  evidence := .cumulative 1 (by rw [ClobOrder.observation_sizeMatched]; decide +kernel) rfl rfl
    fun h => absurd rfl h
  whole h := by
    rw [ClobOrder.observation_state, cancelledFive_state] at h
    cases h

private theorem cancelledFive_faithful (t : TrackedOrder) {m : Message} {source : FillSource}
    {now : Int} (hm : m.report = some (cancelledFive, source, now)) :
    Faithful tradedFive true t m := by
  refine ⟨fun order source' now' hr => ?_, fun event he => ?_, fun _ _ _ => rfl⟩
  · obtain ⟨rfl, -⟩ := Prod.mk.inj (Option.some.inj (hm.symm.trans hr))
    exact ⟨cancelledFive_consistent t _ _, fun _ => rfl⟩
  · rw [he] at hm
    cases hm

/-- The trade is not heard of before the cancel is confirmed, and after it nobody listens. -/
theorem confirmed_cancel_loses_trade : ∃ (v : Venue 10) (k : Tracker),
      v.trades = [] ∧ k.tracked.Fresh 10 ∧ k.tracked.mode = .live ∧
      ∀ sha : String → String, ∃ (s : Market 10) (tr : List (Entry (Market 10) Market.Event)),
          Run (Market.Step sha) ⟨v, false, k⟩ tr s ∧
          tr.map Entry.label = [.trade ⟨"t1", 5⟩, .finish, .message (.cancel .confirmed "ttl" 10),
            .message (.poll (.found ⟨"canceled", some 5, []⟩) 30 20),
            .message (.reconcile none (.found ⟨"canceled", some 5, []⟩) 30),
            .message (.userTrade ⟨"t1", "MATCHED", 5, 1 / 2, 40⟩)] ∧
          s.venue.matched = 5 ∧ s.desk.tracked.sizeMatched = 0 := by
  refine ⟨untraded, submittedDesk, rfl, ⟨rfl, rfl, rfl, rfl, by decide⟩, rfl, ?_⟩
  intro sha
  have hc : ¬ cancelledDesk.Watched := by decide +kernel
  have hte : cancelledDesk.tracked.state.isTerminal = true := by decide +kernel
  have hca : Tracker.Step sha submittedDesk (.cancel .confirmed "ttl" 10) cancelledDesk := by
    have hw : submittedDesk.Watched := by decide +kernel
    refine ⟨"p1", ?_⟩
    unfold Tracker.handle
    dsimp only
    rw [if_pos hw]
    rfl
  have hpo : Tracker.Step sha cancelledDesk (.poll (.found cancelledFive) 30 20) cancelledDesk := by
    refine ⟨"p1", ?_⟩
    unfold Tracker.handle
    dsimp only
    rw [if_neg hc]
  have hre : Tracker.Step sha cancelledDesk (.reconcile none (.found cancelledFive) 30)
      cancelledDesk := by
    refine ⟨"p1", ?_⟩
    unfold Tracker.handle
    dsimp only
    rw [if_neg hc]
  have htrade : Tracker.Step sha cancelledDesk (.userTrade fiveTraded)
      (cancelledDesk.applyObservation sha "p1" fiveTraded.observation) := by
    have hr : ¬ fiveTraded.isFailed = true := by decide +kernel
    refine ⟨"p1", ?_⟩
    unfold Tracker.handle Tracker.applyTrade
    dsimp only
    rw [if_neg hr]
  have hsi : Faithful tradedFive true submittedDesk.tracked (.cancel .confirmed "ttl" 10) :=
    ⟨fun _ _ _ h => (by cases h), fun _ h => (by cases h), fun _ _ _ => rfl⟩
  have hto : Faithful tradedFive true cancelledDesk.tracked (.userTrade fiveTraded) := by
    refine ⟨fun _ _ _ h => (by cases h), fun event h _ => ?_, fun _ _ h => (by cases h)⟩
    obtain rfl := Message.userTrade.inj h
    exact List.mem_singleton_self _
  have hru : Run (Market.Step sha) ⟨untraded, false, submittedDesk⟩ _ _ :=
    (((((Run.single (.trade rfl rfl)).snoc .finish).snoc (.message hsi hca)).snoc
      (.message (cancelledFive_faithful _ rfl) hpo)).snoc
        (.message (cancelledFive_faithful _ rfl) hre)).snoc (.message hto htrade)
  refine ⟨_, _, hru, rfl, tradedFive_matched, ?_⟩
  show (cancelledDesk.applyObservation sha "p1" fiveTraded.observation).tracked.sizeMatched = 0
  unfold Tracker.applyObservation
  rw [bookObservation_terminal hte]
  decide +kernel

theorem nothing_lost_polled : ∃ (s : Market 10) (tr : List (Entry (Market 10) Market.Event)),
      Run (Market.Step id) ⟨untraded, false, submittedDesk⟩ tr s ∧
      tr.map Entry.label = [.trade ⟨"t1", 5⟩, .finish,
        .message (.poll (.found ⟨"canceled", some 5, []⟩) 30 20)] ∧
      s.desk.tracked.sizeMatched = s.venue.matched ∧ s.venue.matched = 5 := by
  have hto : Faithful tradedFive true submittedDesk.tracked
      (.poll (.found cancelledFive) 30 20) := cancelledFive_faithful _ rfl
  have hru : Run (Market.Step id) ⟨untraded, false, submittedDesk⟩ _ _ :=
    ((Run.single (.trade (v := tradedFive) rfl rfl)).snoc .finish).snoc (.message hto ⟨"p1", rfl⟩)
  have hun : ∀ n : ℕ, (n : ℚ) ∈ Units 1 := fun n => ⟨n, by simp⟩
  refine ⟨_, _, hru, rfl, nothing_lost id (u := 1) (by decide +kernel) (hun 10) untraded rfl
    submittedDesk ⟨rfl, rfl, rfl, rfl, by decide⟩ rfl rfl hru ?_ ?_, tradedFive_matched⟩
  · intro e he
    simp only [List.nil_append, List.cons_append, List.mem_cons, List.not_mem_nil, or_false] at he
    rcases he with rfl | rfl | rfl
    · refine ⟨fun x hx => ?_, fun _ _ h => (by cases h), fun _ _ _ _ h => (by cases h),
        fun _ h => (by cases h)⟩
      cases hx
      exact hun 5
    · exact ⟨fun _ h => (by cases h), fun _ _ h => (by cases h), fun _ _ _ _ h => (by cases h),
        fun _ h => (by cases h)⟩
    · refine ⟨fun _ h => (by cases h), fun _ _ h => (by cases h), ?_, ?_⟩
      · intro m order source now hl hr _ _
        cases hl
        cases hr
        exact .inl (congrArg some tradedFive_matched.symm)
      · intro m hl hm
        cases hl
        cases hm
  · exact ⟨_, List.mem_append_right _ (List.mem_singleton_self _), rfl, cancelledFive, 30, 20, rfl,
      congrArg some tradedFive_matched.symm⟩

end SniperBot.Polymarket
