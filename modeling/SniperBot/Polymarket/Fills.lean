import SniperBot.Lib.Runs
import SniperBot.Lib.Tally
import SniperBot.Polymarket.Order

/-!
# Fills of one order

The venue matches an order trade by trade. The engine hears of it by status answers, by
cumulative sizes, with or without the names of their trades, and by single trades, late,
repeated and in any order. What it books is never more than what was matched.
-/

namespace SniperBot.Polymarket

open Execution (isBlank)
open Lib.Runs
open Lib.Tally

abbrev VenueTrade := Item String ℚ

/-- The trades that the venue has matched for an order of the given size, oldest first. -/
structure Venue (size : ℚ) where
  trades : List VenueTrade
  ids_nodup : (trades.map Item.id).Nodup
  ids_named : ∀ x ∈ trades, isBlank x.id = false
  sizes_nonneg : ∀ x ∈ trades, 0 ≤ x.size
  total_le : total trades ≤ size

namespace Venue

variable {size : ℚ} (v : Venue size)

def matched : ℚ := total v.trades

def empty (hsize : 0 ≤ size) : Venue size where
  trades := []
  ids_nodup := List.nodup_nil
  ids_named _ h := by cases h
  sizes_nonneg _ h := by cases h
  total_le := hsize

theorem matched_nonneg : 0 ≤ v.matched := total_nonneg v.sizes_nonneg

theorem matched_le : v.matched ≤ size := v.total_le

end Venue

section

variable {size : ℚ} (v : Venue size)

/-- What an observation says of the sizes: nothing, what was matched up to some moment, or
the size of one trade. -/
inductive Evidence (obs : VenueObservation) : Prop
  | status (hsize : obs.sizeMatched = none) (hdelta : obs.fillDelta = none)
      (hid : obs.tradeId = none)
  | cumulative (k : ℕ) (hsize : obs.sizeMatched = some (total (v.trades.take k)))
      (hdelta : obs.fillDelta = none) (hid : obs.tradeId = none)
      (hnames : obs.associateTrades ≠ [] → (∀ id ∈ obs.associateTrades, ∃ x ∈ v.trades, x.id = id) ∧
          known v.trades obs.associateTrades = total (v.trades.take k))
  | trade (x : VenueTrade) (hx : x ∈ v.trades) (hsize : obs.sizeMatched = none)
      (hdelta : obs.fillDelta = some x.size) (hid : obs.tradeId = some x.id)
      (hnames : obs.associateTrades = [])

/-- An observation that the venue can give by now. It says matched of an order that is not
fill-and-kill only once the whole order is. -/
structure Consistent (t : TrackedOrder) (obs : VenueObservation) :
    Prop where
  evidence : Evidence v obs
  whole : obs.state = .matched → t.isFillAndKill = false → v.matched = size

structure Sound (t : TrackedOrder) : Prop where
  size_eq : t.sizeTokens = size
  nonneg : 0 ≤ t.sizeMatched
  le_matched : t.sizeMatched ≤ v.matched
  trades_le : t.tradeMatched ≤ known v.trades t.bookedTradeIds
  part : t.state = .partiallyFilled → fillThreshold < t.sizeMatched

end

/-! ## Sizes -/

namespace TrackedOrder

variable (t : TrackedOrder)

def withSizes (sizeMatched tradeMatched : ℚ) (ids : List String) : TrackedOrder :=
  { t with sizeMatched := sizeMatched, tradeMatched := tradeMatched, bookedTradeIds := ids }

theorem rememberTrade_eq (id : String) :
    ∃ ids, t.rememberTrade id = { t with bookedTradeIds := ids } ∧
      (∀ x ∈ t.bookedTradeIds, x ∈ ids) ∧ (isBlank id = false → id ∈ ids) := by
  unfold rememberTrade
  split_ifs with hn
  · exact ⟨_, rfl, fun x hx => List.mem_append_left _ hx, fun _ => by simp⟩
  · refine ⟨t.bookedTradeIds, rfl, fun x hx => hx, fun hbl => ?_⟩
    by_contra hm
    exact hn ⟨by rw [hbl]; exact Bool.false_ne_true, hm⟩

theorem foldl_rememberTrade (ids : List String) :
    ∃ known, ids.foldl rememberTrade t = { t with bookedTradeIds := known } ∧
      (∀ id ∈ t.bookedTradeIds, id ∈ known) ∧ ∀ id ∈ ids, isBlank id = false → id ∈ known := by
  induction ids generalizing t with
  | nil => exact ⟨t.bookedTradeIds, rfl, fun _ h => h, by simp⟩
  | cons id ids ih =>
    obtain ⟨more, he, hkept, hi⟩ := t.rememberTrade_eq id
    obtain ⟨known, hf, hk', hid⟩ := ih (t.rememberTrade id)
    rw [List.foldl_cons, hf, he]
    rw [he] at hk'
    refine ⟨known, rfl, fun x hx => hk' x (hkept x hx), ?_⟩
    intro x hx hbl
    rcases List.mem_cons.mp hx with rfl | hx
    · exact hk' x (hi hbl)
    · exact hid x hx hbl

theorem bookMatched_withSizes (tradeMatched matched : ℚ) (ids : List String)
    (obs : VenueObservation) :
    (t.withSizes t.sizeMatched tradeMatched ids).bookMatched obs matched =
    if fillThreshold < matched - t.sizeMatched then
      (t.withSizes (min matched t.sizeTokens) tradeMatched (ids ++ obs.tradeId.toList),
        matched - t.sizeMatched, obs.tradeId)
    else (t.withSizes t.sizeMatched tradeMatched (ids ++ obs.tradeId.toList), 0, none) :=
  rfl

theorem noteEvidence_eq (obs : VenueObservation) (matched : ℚ) (pending : Option ℚ) :
    ∃ ids, (∀ id ∈ t.bookedTradeIds, id ∈ ids) ∧
    (∀ id ∈ obs.associateTrades, isBlank id = false → id ∈ ids) ∧
    t.noteEvidence obs matched pending = t.withSizes t.sizeMatched
      (if obs.sizeMatched.isSome ∧ obs.associateTrades ≠ [] then
        max (pending.getD t.tradeMatched) matched else pending.getD t.tradeMatched) ids := by
  obtain ⟨ids, hf, hkept, hn⟩ := foldl_rememberTrade
    { t with tradeMatched := pending.getD t.tradeMatched } obs.associateTrades
  refine ⟨ids, hkept, hn, ?_⟩
  unfold noteEvidence
  dsimp only
  rw [hf]
  split_ifs <;> rfl

variable {obs : VenueObservation}

theorem applySize_some {matched : ℚ} {pending : Option ℚ}
    (he : t.evidence obs = .ok (some (matched, pending))) :
    t.applySize obs =
      if matched < 0 then .error (.matchedInvalid matched t.venueOrderId)
      else if t.sizeTokens + sizeSlack < matched then
        .error (.matchedAboveSize matched t.sizeTokens t.venueOrderId)
      else
        let r := (t.noteEvidence obs matched pending).bookMatched obs matched
        .ok (r.1, r.2.1, r.2.2, true) := by
  unfold applySize
  rw [he]
  rfl

section

variable {sized : TrackedOrder} {delta : ℚ} {id : Option String} {reported : Bool}
  (h : t.applySize obs = .ok (sized, delta, id, reported))

include h

theorem applySize_ok : (t.evidence obs = .ok none ∧ reported = false ∧ sized = t) ∨
    ∃ matched pending ids, t.evidence obs = .ok (some (matched, pending)) ∧ sized = t.withSizes
        (if fillThreshold < matched - t.sizeMatched then min matched t.sizeTokens
          else t.sizeMatched)
        (if obs.sizeMatched.isSome ∧ obs.associateTrades ≠ [] then
          max (pending.getD t.tradeMatched) matched else pending.getD t.tradeMatched) ids := by
  cases he : t.evidence obs with
  | error e =>
    unfold applySize at h
    rw [he] at h
    cases h
  | ok found =>
    cases found with
    | none =>
      unfold applySize at h
      rw [he] at h
      cases h
      exact .inl ⟨rfl, rfl, rfl⟩
    | some found =>
      obtain ⟨matched, pending⟩ := found
      obtain ⟨ids, -, -, hn⟩ := t.noteEvidence_eq obs matched pending
      rw [t.applySize_some he, hn, bookMatched_withSizes] at h
      refine .inr ⟨matched, pending, ids ++ obs.tradeId.toList, rfl, ?_⟩
      generalize (if obs.sizeMatched.isSome ∧ obs.associateTrades ≠ [] then
        max (pending.getD t.tradeMatched) matched else pending.getD t.tradeMatched) = sum at h ⊢
      by_cases hne : fillThreshold < matched - t.sizeMatched
      · rw [if_pos hne] at ⊢
        split_ifs at h
        cases h
        rfl
      · rw [if_neg hne] at ⊢
        split_ifs at h
        cases h
        rfl

theorem applySize_frame :
    ∃ sizeMatched tradeMatched ids, sized = t.withSizes sizeMatched tradeMatched ids := by
  rcases t.applySize_ok h with ⟨-, -, hsa⟩ | ⟨_, _, ids, -, hsi⟩
  · exact ⟨_, _, _, hsa⟩
  · exact ⟨_, _, _, hsi⟩

end

theorem target_frame (state : VenueOrderState) (reported : Bool) :
    ∃ sizeMatched, (t.target state reported).2.1 = { t with sizeMatched := sizeMatched } ∧
      (sizeMatched = t.sizeMatched ∨ sizeMatched = t.sizeTokens) := by
  unfold target
  cases state with
  | matched =>
    dsimp only
    split_ifs <;> first | exact ⟨_, rfl, .inr rfl⟩ | exact ⟨_, rfl, .inl rfl⟩
  | _ => exact ⟨t.sizeMatched, rfl, .inl rfl⟩

theorem applyVenue_frame (obs : VenueObservation) :
    ∃ sizeMatched tradeMatched ids state venueStatus updatedAt, (t.applyVenue obs).1 =
    { t.withSizes sizeMatched tradeMatched ids with
      state := state, venueStatus := venueStatus, updatedAt := updatedAt } := by
  unfold applyVenue
  split
  · exact ⟨_, _, _, _, _, _, rfl⟩
  · cases ha : t.applySize obs with
    | error e => exact ⟨_, _, _, _, _, _, rfl⟩
    | ok r =>
      obtain ⟨sized, delta, id, reported⟩ := r
      obtain ⟨_, _, _, rfl⟩ := t.applySize_frame ha
      dsimp only
      obtain ⟨_, hf, -⟩ := (t.withSizes _ _ _).target_frame obs.state reported
      rw [hf]
      split_ifs <;> exact ⟨_, _, _, _, _, _, rfl⟩

theorem applyVenue_of_ignores (h : t.ignores obs) :
    t.applyVenue obs = ({ t with updatedAt := obs.observedAt }, .ok (t.unchanged obs)) :=
  if_pos h

theorem applyVenue_used {next : TrackedOrder} {effect : LifecycleEffect} (hus : ¬ t.ignores obs)
    (h : t.applyVenue obs = (next, .ok effect)) :
    ∃ sized delta id reported, t.applySize obs = .ok (sized, delta, id, reported) ∧
    next = { (sized.target obs.state reported).2.1 with
      state := (sized.target obs.state reported).1, venueStatus := obs.rawStatus,
        updatedAt := obs.observedAt } := by
  unfold applyVenue at h
  rw [if_neg hus] at h
  cases ha : t.applySize obs with
  | error e => rw [ha] at h; cases h
  | ok r =>
    obtain ⟨sized, delta, id, reported⟩ := r
    refine ⟨sized, delta, id, reported, rfl, ?_⟩
    rw [ha] at h
    obtain ⟨_, _, _, hsi⟩ := t.applySize_frame ha
    obtain ⟨_, hf, -⟩ := sized.target_frame obs.state reported
    have hst : (sized.target obs.state reported).2.1.state = t.state := by
      rw [hf, hsi]
      rfl
    dsimp only at h
    split_ifs at h with hsa hl
    · rw [← (Prod.mk.inj h).1, hsa, ← hst]
    · exact (Prod.mk.inj h).1.symm
    · cases (Prod.mk.inj h).2

theorem applyVenue_venueOrderId (obs : VenueObservation) :
    (t.applyVenue obs).1.venueOrderId = t.venueOrderId := by
  obtain ⟨_, _, _, _, _, _, h⟩ := t.applyVenue_frame obs
  rw [h]
  rfl

end TrackedOrder

structure Sized {size : ℚ} (v : Venue size) (t : TrackedOrder) (obs : VenueObservation)
    (sized : TrackedOrder) (delta : ℚ) : Prop where
  frame : sized = t.withSizes sized.sizeMatched sized.tradeMatched sized.bookedTradeIds
  booked : sized.sizeMatched = t.sizeMatched + delta
  nonneg : 0 ≤ delta
  le_matched : sized.sizeMatched ≤ v.matched
  trades_le : sized.tradeMatched ≤ known v.trades sized.bookedTradeIds
  caught_up : ∀ m ∈ obs.sizeMatched, m ≤ sized.sizeMatched + fillThreshold

section

variable {size : ℚ} {v : Venue size} {t : TrackedOrder} {obs : VenueObservation}

theorem fillThreshold_pos : 0 < fillThreshold := by decide +kernel

theorem sizeSlack_pos : 0 < sizeSlack := by decide +kernel

open TrackedOrder

theorem Sound.bookMatched (h : Sound v t) {matched tradeMatched : ℚ} {ids : List String}
    (hma : matched ≤ v.matched)
    (htr : tradeMatched ≤ known v.trades (ids ++ obs.tradeId.toList))
    (hc : ∀ m ∈ obs.sizeMatched, m = matched) :
    let r := (t.withSizes t.sizeMatched tradeMatched ids).bookMatched obs matched
    Sized v t obs r.1 r.2.1 := by
  intro r
  have hmi : min matched t.sizeTokens = matched :=
    min_eq_left (hma.trans (h.size_eq ▸ v.matched_le))
  have hr : r = (t.withSizes t.sizeMatched tradeMatched ids).bookMatched obs matched := rfl
  rw [bookMatched_withSizes, hmi] at hr
  split_ifs at hr with hn
  · rw [hr]
    refine ⟨rfl, (add_sub_cancel _ _).symm, (fillThreshold_pos.trans hn).le, hma, htr, ?_⟩
    intro m hm
    rw [hc m hm]
    exact le_add_of_nonneg_right fillThreshold_pos.le
  · rw [hr]
    refine ⟨rfl, (add_zero _).symm, le_rfl, h.le_matched, htr, ?_⟩
    intro m hm
    show m ≤ t.sizeMatched + fillThreshold
    rw [hc m hm]
    linarith

theorem applySize_of_evidence {matched : ℚ} {pending : Option ℚ}
    (he : t.evidence obs = .ok (some (matched, pending))) (hn : 0 ≤ matched)
    (hle : matched ≤ t.sizeTokens) :
    let r := (t.noteEvidence obs matched pending).bookMatched obs matched
    t.applySize obs = .ok (r.1, r.2.1, r.2.2, true) := by
  have hsl := sizeSlack_pos
  rw [t.applySize_some he, if_neg hn.not_gt, if_neg (by linarith)]

theorem applySize_sized (h : Sound v t) (ho : Evidence v obs) (hf : ¬ t.ignores obs) :
    ∃ sized delta id reported, t.applySize obs = .ok (sized, delta, id, reported) ∧
    Sized v t obs sized delta := by
  have hto : v.matched ≤ t.sizeTokens := h.size_eq ▸ v.matched_le
  cases ho with
  | status hsize hd hi =>
    refine ⟨t, 0, none, false, ?_, ?_⟩
    · unfold applySize evidence
      rw [hsize, hd]
      rfl
    · refine ⟨rfl, (add_zero _).symm, le_rfl, h.le_matched, h.trades_le, ?_⟩
      intro m hm
      rw [hsize] at hm
      cases hm
  | cumulative k hsize _ hi hna =>
    have hma : total (v.trades.take k) ≤ v.matched := total_take_le v.sizes_nonneg k
    have hno : 0 ≤ total (v.trades.take k) :=
      total_nonneg fun x hx => v.sizes_nonneg x (List.mem_of_mem_take hx)
    have he : t.evidence obs = .ok (some (total (v.trades.take k), none)) := by
      unfold evidence
      rw [hsize]
    obtain ⟨ids, hkept, hnam, hn⟩ := t.noteEvidence_eq obs (total (v.trades.take k)) none
    have ha := applySize_of_evidence he hno (hma.trans hto)
    rw [hn] at ha
    refine ⟨_, _, _, _, ha, ?_⟩
    refine h.bookMatched hma ?_ ?_
    · rw [hi, Option.toList_none, List.append_nil]
      have hbe : t.tradeMatched ≤ known v.trades ids :=
        h.trades_le.trans (known_mono v.sizes_nonneg fun x _ hx => hkept _ hx)
      split_ifs with hnami
      · obtain ⟨-, hsu⟩ := hna hnami.2
        refine max_le hbe ?_
        rw [← hsu]
        exact known_mono v.sizes_nonneg fun x hx hin => hnam _ hin (v.ids_named x hx)
      · exact hbe
    · intro m hm
      rw [hsize] at hm
      exact (Option.some.inj hm).symm
  | trade x hx hsize hd hi hna =>
    have hpos := v.sizes_nonneg x hx
    have hne : x.id ∉ t.bookedTradeIds := fun hin => hf (.inr ⟨x.id, hi, hin⟩)
    have hk : known v.trades (x.id :: t.bookedTradeIds) =
        known v.trades t.bookedTradeIds + x.size := known_cons v.ids_nodup hx hne
    have hsu : t.tradeMatched + x.size ≤ known v.trades (x.id :: t.bookedTradeIds) := by
      have := h.trades_le
      linarith
    have hma : max (t.tradeMatched + x.size) t.sizeMatched ≤ v.matched :=
      max_le (hsu.trans (known_le_total v.sizes_nonneg _)) h.le_matched
    have he : t.evidence obs = .ok (some (max (t.tradeMatched + x.size) t.sizeMatched,
        some (t.tradeMatched + x.size))) := by
      unfold evidence
      rw [hsize, hd]
      exact if_neg hpos.not_gt
    obtain ⟨ids, hkept, -, hn⟩ := t.noteEvidence_eq obs
      (max (t.tradeMatched + x.size) t.sizeMatched) (some (t.tradeMatched + x.size))
    have ha := applySize_of_evidence he (h.nonneg.trans (le_max_right _ _)) (hma.trans hto)
    rw [hn] at ha
    refine ⟨_, _, _, _, ha, ?_⟩
    refine h.bookMatched hma ?_ ?_
    · rw [if_neg (by simp [hsize]), hi]
      refine hsu.trans (known_mono v.sizes_nonneg ?_)
      intro y _ hy
      rcases List.mem_cons.mp hy with heq | hin
      · exact List.mem_append_right _ (by rw [heq]; exact List.mem_cons_self)
      · exact List.mem_append_left _ (hkept _ hin)
    · intro m hm
      rw [hsize] at hm
      cases hm

end

/-! ## States -/

structure Targeted {size : ℚ} (v : Venue size) (sized : TrackedOrder) (state : LocalOrderState)
    (filled : TrackedOrder) (rest : ℚ) : Prop where
  frame : filled = { sized with sizeMatched := filled.sizeMatched }
  booked : filled.sizeMatched = sized.sizeMatched + rest
  nonneg : 0 ≤ rest
  le_matched : filled.sizeMatched ≤ v.matched
  part : state = .partiallyFilled → state = sized.state ∨ fillThreshold < filled.sizeMatched
  legal : state = sized.state ∨ state ≠ .submitted ∧
    (fillThreshold < sized.sizeMatched → state ≠ .resting ∧ state ≠ .unknown)

open TrackedOrder

theorem openState_cases (t : TrackedOrder) (otherwise : LocalOrderState) :
    t.openState otherwise = .filled ∨ t.openState otherwise = .partiallyFilled ∨
    t.openState otherwise = otherwise := by
  unfold openState
  split_ifs
  · exact .inl rfl
  · exact .inr (.inl rfl)
  · exact .inr (.inr rfl)

section

variable {size : ℚ} {v : Venue size} {sized : TrackedOrder} {state : LocalOrderState}

section

variable (hle : sized.sizeMatched ≤ v.matched)

include hle

theorem Targeted.keep (hpa : state = .partiallyFilled → state = sized.state ∨ fillThreshold < sized.sizeMatched)
    (hl : state = sized.state ∨ state ≠ .submitted ∧
    (fillThreshold < sized.sizeMatched → state ≠ .resting ∧ state ≠ .unknown)) :
    Targeted v sized state sized 0 :=
  ⟨rfl, (add_zero _).symm, le_rfl, hle, hpa, hl⟩

theorem targeted_closed (hst : state = .filled ∨ state = .cancelled ∨ state = .expired) :
    Targeted v sized state sized 0 := by
  refine .keep hle ?_ (.inr ?_)
  · rcases hst with rfl | rfl | rfl <;> exact fun h => by cases h
  · rcases hst with rfl | rfl | rfl <;> simp

theorem targeted_open {otherwise : LocalOrderState}
    (ho : otherwise = .resting ∨ otherwise = .unknown) :
    Targeted v sized (sized.openState otherwise) sized 0 := by
  unfold openState
  split_ifs with hf hpa
  · exact targeted_closed hle (.inl rfl)
  · exact .keep hle (fun _ => .inr hpa) (.inr (by simp))
  · refine .keep hle ?_ (.inr ⟨?_, fun h => absurd h hpa⟩)
    · rcases ho with rfl | rfl <;> exact fun h => by cases h
    · rcases ho with rfl | rfl <;> simp

end

theorem targeted {state : VenueOrderState} (reported : Bool) (hsize : sized.sizeTokens = size)
    (hle : sized.sizeMatched ≤ v.matched)
    (hw : state = .matched → sized.isFillAndKill = false → v.matched = size) :
    let r := sized.target state reported
    Targeted v sized r.1 r.2.1 r.2.2 := by
  cases state with
  | cancelled => exact targeted_closed hle (.inr (.inl rfl))
  | expired => exact targeted_closed hle (.inr (.inr rfl))
  | live | delayed | unmatched => exact targeted_open hle (.inl rfl)
  | unknown => exact targeted_open hle (.inr rfl)
  | matched =>
    unfold target
    dsimp only
    split_ifs with hf hfa hr hso hrest
    · exact targeted_closed hle (.inl rfl)
    · exact targeted_closed hle (.inl rfl)
    · exact targeted_closed hle (.inr (.inl rfl))
    · exact .keep hle (fun _ => .inl rfl) (.inl rfl)
    · -- The venue says matched only of a whole order: what lacks is booked with it.
      have ha := hw rfl (Bool.eq_false_iff.mpr hfa)
      refine ⟨rfl, (add_sub_cancel _ _).symm, (fillThreshold_pos.trans hrest).le, ?_, ?_, ?_⟩
      · show sized.sizeTokens ≤ v.matched
        rw [ha, hsize]
      · exact fun h => by cases h
      · exact .inr (by simp)
    · exact targeted_closed hle (.inl rfl)

end

/-! ## One observation -/

structure Applied {size : ℚ} (v : Venue size) (t : TrackedOrder) (obs : VenueObservation)
    (next : TrackedOrder) (effect : LifecycleEffect) : Prop where
  sound : Sound v next
  booked : next.sizeMatched = t.sizeMatched + effect.fillDelta
  nonneg : 0 ≤ effect.fillDelta
  caught_up : t.state.isTerminal = false → ∀ m ∈ obs.sizeMatched,
    m ≤ next.sizeMatched + fillThreshold
  frozen : t.state.isTerminal = true → next = { t with updatedAt := obs.observedAt } ∧
    effect = t.unchanged obs

theorem canTransitionTo_of_legal {s target : LocalOrderState} (ho : s.isTerminal = false)
    (hn : target ≠ s) (hsu : target ≠ .submitted)
    (hpa : s = .partiallyFilled → target ≠ .resting ∧ target ≠ .unknown) :
    s.canTransitionTo target = true := by
  revert ho hn hsu hpa
  cases s <;> cases target <;> decide

section

variable {size : ℚ} {v : Venue size} {t : TrackedOrder} {obs : VenueObservation}

theorem applyVenue_ignored (h : Sound v t) (hi : t.ignores obs) (hob : Evidence v obs) :
    Applied v t obs { t with updatedAt := obs.observedAt } (t.unchanged obs) := by
  refine ⟨⟨h.size_eq, h.nonneg, h.le_matched, h.trades_le, h.part⟩, (add_zero _).symm, le_rfl, ?_,
    fun _ => ⟨rfl, rfl⟩⟩
  intro ho m hm
  -- An open order ignores single trades only, which report no cumulative size.
  rcases hi with hte | ⟨id, hid, -⟩
  · rw [ho] at hte
    cases hte
  · cases hob with
    | status hsize | trade x hx hsize => rw [hsize] at hm; cases hm
    | cumulative k hsize hd hn => rw [hn] at hid; cases hid

theorem applyVenue_applied (h : Sound v t) (hob : Consistent v t obs) :
    ∃ next effect, t.applyVenue obs = (next, .ok effect) ∧ Applied v t obs next effect := by
  by_cases hi : t.ignores obs
  · refine ⟨_, _, ?_, applyVenue_ignored h hi hob.evidence⟩
    rw [applyVenue, if_pos hi]
  have ho : t.state.isTerminal = false := Bool.eq_false_iff.mpr fun hte => hi (.inl hte)
  obtain ⟨sized, delta, id, reported, ha, hsi⟩ := applySize_sized h hob.evidence hi
  have hf := hsi.frame
  have hst : sized.state = t.state := by rw [hf]; rfl
  have hk : sized.isFillAndKill = t.isFillAndKill := by rw [hf]; rfl
  have hto : sized.sizeTokens = size := by rw [hf]; exact h.size_eq
  have hta := targeted reported hto hsi.le_matched (hk ▸ hob.whole)
  rw [applyVenue, ha]
  dsimp only
  generalize sized.target obs.state reported = r at hta ⊢
  obtain ⟨state, filled, rest⟩ := r
  dsimp only at hta
  have hsa : filled.sizeTokens = size ∧ filled.tradeMatched = sized.tradeMatched ∧
      filled.bookedTradeIds = sized.bookedTradeIds ∧ filled.state = t.state := by
    rw [hta.frame]
    exact ⟨hto, rfl, rfl, hst⟩
  have hbo : filled.sizeMatched = t.sizeMatched + (delta + rest) := by
    rw [hta.booked, hsi.booked, add_assoc]
  have hn : 0 ≤ delta + rest := add_nonneg hsi.nonneg hta.nonneg
  have hc : ∀ m ∈ obs.sizeMatched, m ≤ filled.sizeMatched + fillThreshold := by
    intro m hm
    have hm := hsi.caught_up m hm
    have hmo := hta.booked
    have hrest := hta.nonneg
    linarith
  have hpa : t.state = .partiallyFilled → fillThreshold < filled.sizeMatched := by
    intro hpa
    have hbe := h.part hpa
    linarith
  have hso : ∀ next : TrackedOrder, next.sizeTokens = size →
      next.sizeMatched = filled.sizeMatched → next.tradeMatched = sized.tradeMatched →
      next.bookedTradeIds = sized.bookedTradeIds →
      (next.state = .partiallyFilled → fillThreshold < filled.sizeMatched) → Sound v next := by
    intro next hsize hma htr hid hpa
    constructor
    · exact hsize
    · rw [hma, hbo]
      exact add_nonneg h.nonneg hn
    · rw [hma]
      exact hta.le_matched
    · rw [htr, hid]
      exact hsi.trades_le
    · rw [hma]
      exact hpa
  have hfr : ∀ {P : Prop}, t.state.isTerminal = true → P := by
    intro P hte
    rw [ho] at hte
    cases hte
  split_ifs with hsam hl
  · refine ⟨_, _, rfl, ?_, hbo, hn, fun _ => hc, hfr⟩
    exact hso _ hsa.1 rfl hsa.2.1 hsa.2.2.1 fun hp => hpa (hsa.2.2.2 ▸ hp)
  · refine ⟨_, _, rfl, ?_, hbo, hn, fun _ => hc, hfr⟩
    refine hso _ hsa.1 rfl hsa.2.1 hsa.2.2.1 fun hp => ?_
    rcases hta.part hp with he | hmo
    · exact absurd (he.trans hst) hsam
    · exact hmo
  · -- A state that is not the old one is never out of reach.
    exfalso
    rcases hta.legal with he | ⟨hsu, hlo⟩
    · exact hsam (he.trans hst)
    · refine hl (canTransitionTo_of_legal ho hsam hsu fun hp => hlo ?_)
      rw [hsi.booked]
      have hbe := h.part hp
      have hd := hsi.nonneg
      linarith

end

/-! ## Whole runs -/

structure TrackedOrder.Fresh (t : TrackedOrder) (size : ℚ) : Prop where
  size_eq : t.sizeTokens = size
  nothing : t.sizeMatched = 0
  no_sum : t.tradeMatched = 0
  no_ids : t.bookedTradeIds = []
  not_part : t.state ≠ .partiallyFilled

structure Tracking (size : ℚ) where
  venue : Venue size
  order : TrackedOrder

namespace Tracking

inductive Event where
  | trade
  | observe (obs : VenueObservation)

variable {size : ℚ}

inductive Step : Tracking size → Event → Tracking size → Prop
  | trade {s : Tracking size} {v : Venue size} {x : VenueTrade}
      (h : v.trades = s.venue.trades ++ [x]) : Step s .trade { s with venue := v }
  | observe {s : Tracking size} {obs : VenueObservation} (h : Consistent s.venue s.order obs) :
      Step s (.observe obs) { s with order := (s.order.applyVenue obs).1 }

def fill (e : Entry (Tracking size) Event) : ℚ :=
  match e.label with
  | .trade => 0
  | .observe obs =>
    match (e.pre.order.applyVenue obs).2 with
    | .ok effect => effect.fillDelta
    | .error _ => 0

def reported (tr : List (Entry (Tracking size) Event)) : ℚ := (tr.map fill).sum

end Tracking

section

variable {size : ℚ} {v v' : Venue size} {x : VenueTrade} (h : v'.trades = v.trades ++ [x])

include h

theorem Venue.known_extends (ids : List String) : known v.trades ids ≤ known v'.trades ids := by
  rw [h]
  refine known_append_le [x] ?_ ids
  intro y hy
  exact v'.sizes_nonneg y (h ▸ List.mem_append_right _ hy)

theorem Venue.matched_extends : v.matched ≤ v'.matched := by
  have hx : 0 ≤ x.size := v'.sizes_nonneg x (by rw [h]; simp)
  unfold Venue.matched
  rw [h, total_snoc]
  exact le_add_of_nonneg_right hx

end

namespace Sound

variable {size : ℚ} {v v' : Venue size} {t : TrackedOrder}

theorem extends_venue (h : Sound v t) {x : VenueTrade} (hv : v'.trades = v.trades ++ [x]) :
    Sound v' t :=
  { h with
    le_matched := h.le_matched.trans (Venue.matched_extends hv)
    trades_le := h.trades_le.trans (Venue.known_extends hv _) }

theorem of_fresh (h : t.Fresh size) : Sound v t where
  size_eq := h.size_eq
  nonneg := h.nothing.ge
  le_matched := h.nothing ▸ v.matched_nonneg
  trades_le := by
    rw [h.no_sum, h.no_ids, known_nil]
  part hpart := absurd hpart h.not_part

end Sound

namespace Tracking

variable {size : ℚ} {s s' : Tracking size} {e : Entry (Tracking size) Event} {ev : Event}

structure Keeps (e : Entry (Tracking size) Event) : Prop where
  sound : Sound e.post.venue e.post.order
  booked : e.post.order.sizeMatched = e.pre.order.sizeMatched + fill e
  nonneg : 0 ≤ fill e
  caught_up : ∀ obs, e.label = .observe obs → e.pre.order.state.isTerminal = false →
    ∀ m ∈ obs.sizeMatched, m ≤ e.post.order.sizeMatched + fillThreshold
  frozen : e.pre.order.state.isTerminal = true → fill e = 0 ∧
    e.post.order = { e.pre.order with updatedAt := e.post.order.updatedAt }

theorem Step.keeps (h : Sound s.venue s.order) (hs : Step s ev s') : Keeps ⟨s, ev, s'⟩ := by
  cases hs with
  | trade hv =>
    refine ⟨h.extends_venue hv, (add_zero _).symm, le_rfl, ?_, fun _ => ⟨rfl, rfl⟩⟩
    intro obs hl
    cases hl
  | @observe obs hob =>
    obtain ⟨next, effect, hap, ha⟩ := applyVenue_applied h hob
    have hf : fill ⟨s, .observe obs, { s with order := (s.order.applyVenue obs).1 }⟩ =
        effect.fillDelta := by
      show (match (s.order.applyVenue obs).2 with
        | .ok effect => effect.fillDelta
        | .error _ => 0) = _
      rw [hap]
    constructor
    · show Sound s.venue (s.order.applyVenue obs).1
      rw [hap]
      exact ha.sound
    · rw [hf]
      show (s.order.applyVenue obs).1.sizeMatched = _
      rw [hap]
      exact ha.booked
    · rw [hf]
      exact ha.nonneg
    · intro obs' hl ho m hm
      cases hl
      show m ≤ (s.order.applyVenue obs).1.sizeMatched + fillThreshold
      rw [hap]
      exact ha.caught_up ho m hm
    · intro hte
      obtain ⟨hnext, he⟩ := ha.frozen hte
      rw [hf]
      refine ⟨by rw [he]; rfl, ?_⟩
      show (s.order.applyVenue obs).1 =
        { s.order with updatedAt := (s.order.applyVenue obs).1.updatedAt }
      rw [hap, hnext]

variable {tr : List (Entry (Tracking size) Event)}

theorem run_keeps (hr : Run Step s tr s') (h : Sound s.venue s.order) : ∀ e ∈ tr, Keeps e := by
  intro e he
  obtain ⟨hpr, hst⟩ := hr.invariant_before (I := fun s => Sound s.venue s.order)
    (P := fun _ => True) (fun s ev s' hs _ hst => (hst.keeps hs).sound) (fun _ _ => trivial)
    h he
  exact hst.keeps hpr

theorem reported_run (hr : Run Step s tr s') (h : Sound s.venue s.order) :
    s'.order.sizeMatched = s.order.sizeMatched + reported tr := by
  have hk := run_keeps hr h
  induction hr with
  | nil => exact (add_zero _).symm
  | @snoc tr t u a _ _ ih =>
    have hl := hk _ (List.mem_append_right _ List.mem_cons_self)
    have hbe := ih fun e he => hk e (List.mem_append_left _ he)
    have hsp : reported (tr ++ [⟨t, a, u⟩]) = reported tr + fill ⟨t, a, u⟩ := by
      simp [reported]
    rw [hl.booked, hbe, hsp, add_assoc]

end Tracking

/-- Whatever the venue's observations and their order, the fills that are reported add up to
the size that is booked, which never falls, never exceeds what the venue has matched and is
never behind a cumulative size that was just applied; an order that has ended stays as it is. -/
theorem fills_follow_venue {size : ℚ} (v : Venue size) (t : TrackedOrder)
    (ht : t.Fresh size) {tr : List (Entry (Tracking size) Tracking.Event)} {s : Tracking size}
    (hr : Run Tracking.Step ⟨v, t⟩ tr s) :
    Tracking.reported tr = s.order.sizeMatched ∧ s.order.sizeMatched ≤ s.venue.matched ∧
    ∀ e ∈ tr, e.pre.order.sizeMatched ≤ e.post.order.sizeMatched ∧
      (∀ obs, e.label = .observe obs → e.pre.order.state.isTerminal = false →
        ∀ m ∈ obs.sizeMatched, m ≤ e.post.order.sizeMatched + fillThreshold) ∧
      (e.pre.order.state.isTerminal = true → Tracking.fill e = 0 ∧
        e.post.order = { e.pre.order with updatedAt := e.post.order.updatedAt }) := by
  have h0 : Sound v t := .of_fresh ht
  have hk := Tracking.run_keeps hr h0
  have hsu := Tracking.reported_run hr h0
  have hen := hr.invariant (I := fun s => Sound s.venue s.order)
    (fun s ev s' hs hst => (hst.keeps hs).sound) h0
  refine ⟨?_, hen.le_matched, ?_⟩
  · rw [hsu, ht.nothing, zero_add]
  · intro e he
    have ho := hk e he
    refine ⟨?_, ho.caught_up, ho.frozen⟩
    rw [ho.booked]
    exact le_add_of_nonneg_right ho.nonneg

private def fourOfTen : Venue 10 where
  trades := [⟨"t1", 4⟩]
  ids_nodup := by decide +kernel
  ids_named := by decide +kernel
  sizes_nonneg := by decide +kernel
  total_le := by decide +kernel

private def bidForTen : TrackedOrder := .new "0x1" true "GTC" (1 / 2) 10 .live 0

private def pollFour : VenueObservation where
  state := .live
  rawStatus := "live"
  sizeMatched := some 4
  fillDelta := none
  tradeId := none
  price := none
  source := .poll
  observedAt := 1
  associateTrades := []

private def tradeFour : VenueObservation :=
  { pollFour with
    rawStatus := "trade", sizeMatched := none, fillDelta := some 4, tradeId := some "t1",
    source := .userWs }

private theorem pollFour_consistent : Consistent fourOfTen bidForTen pollFour where
  evidence := .cumulative 1 (by decide +kernel) rfl rfl fun h => absurd rfl h
  whole h := by cases h

private theorem tradeFour_consistent (t : TrackedOrder) : Consistent fourOfTen t tradeFour where
  evidence := .trade ⟨"t1", 4⟩ (List.mem_singleton_self _) rfl rfl rfl rfl
  whole h := by cases h

theorem fills_follow_venue_late_trade :
    (((bidForTen.applyVenue pollFour).1.applyVenue tradeFour).1).sizeMatched = 4 ∧
      (((bidForTen.applyVenue pollFour).1.applyVenue tradeFour).1).sizeMatched ≤
        fourOfTen.matched := by
  refine ⟨by decide +kernel, ?_⟩
  have hpo := Run.single (Tracking.Step.observe (s := ⟨fourOfTen, bidForTen⟩) pollFour_consistent)
  have hr := hpo.snoc (.observe (tradeFour_consistent _))
  exact (fills_follow_venue fourOfTen bidForTen ⟨rfl, rfl, rfl, rfl, by decide⟩ hr).2.1

end SniperBot.Polymarket
