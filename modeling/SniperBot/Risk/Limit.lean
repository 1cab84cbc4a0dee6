import SniperBot.Lib.Capacity
import SniperBot.Risk.Flights

/-!
# The position limit of a module

A check reads the open positions of its module before the entries in flight. In between an entry
may record its position and release its reservation. As long as that does not happen, the open
positions and the entries let through stay within the limit, and no symbol is there twice.
-/

namespace SniperBot.Risk

open Lib.Runs Lib.Interleaving Lib.Capacity Multiset Stage
open Positions (Book BotModule Position sourceOf)
open GlobalRisk (RiskEntryReservation)

namespace Stage

def waiting (m : BotModule) : Stage → Option String
  | passed _ res _ | measured _ res _ _ => if res.module = m then some res.asset else none
  | approved p => if p.res.module = m ∧ p.recorded = false then some p.res.asset else none
  | _ => none

def done (m : BotModule) : Stage → Option String
  | approved p => if p.res.module = m ∧ p.recorded = true then some p.res.asset else none
  | _ => none

end Stage

def slots (m : BotModule) (s : State Desk Section) : Slots String where
  opened := (s.shared.book.held m).map Position.symbol
  waiting := (stages s).filterMap (waiting m)
  done := (stages s).filterMap (done m)
  seen := { ps | ∃ ask res, ∃ opened : List Position, .looked ask res opened ∈ stages s ∧
    ask.req.module = m ∧ ps = (opened : Multiset Position).map Position.symbol }

/-- The entries of the module that were let through, whose reservation has not expired and
has not become a position. -/
def Desk.pending (d : Desk) (m : BotModule) : List Approval :=
  d.approvals.filter fun p => p.res.module = m ∧ p.recorded = false ∧ d.now < p.res.expiresAt

def Desk.pendingSymbols (d : Desk) (m : BotModule) : List String :=
  (d.pending m).map fun p => p.res.asset

/-- The section reads the entries in flight next, after the positions of the module. -/
def Section.looking : Section → Option BotModule
  | .usage ask _ _ => some ask.req.module
  | _ => none

/-- No completed entry of the module is released between the two readings of a check. -/
def Undisturbed (m : BotModule) (e : Event) : Prop :=
  match e.label with
  | .act (.release id) _ =>
    (∃ p ∈ e.pre.shared.approvals, p.res.reservationId = id ∧ p.res.module = m ∧
      p.recorded = true) → ∀ k ∈ e.pre.running, k.looking ≠ some m
  | _ => True

instance (m : BotModule) (e : Event) : Decidable (Undisturbed m e) := by
  rcases e with ⟨_, _ | ⟨k, _⟩, _⟩
  · exact .isTrue trivial
  · cases k with
    | release id => exact inferInstanceAs (Decidable (_ → _))
    | _ => exact .isTrue trivial

variable {R : Rules} {s t : State Desk Section} {a : Label Section Reply} {m : BotModule}
  {x y : Stage} {rest : Multiset Stage} {p : Approval}

/-! ## Small steps of the count -/

section

variable {β : Type} {f : Stage → Option β}

theorem filterMap_cons_eq (h : f y = f x) :
    (y ::ₘ rest).filterMap f = (x ::ₘ rest).filterMap f := by
  rw [filterMap_cons, filterMap_cons, h]

theorem filterMap_cons_le (h : f y = f x ∨ f y = none) :
    (y ::ₘ rest).filterMap f ≤ (x ::ₘ rest).filterMap f := by
  rcases h with h | h
  · exact (filterMap_cons_eq h).le
  · rw [filterMap_cons_none _ _ h]
    exact filterMap_le_filterMap f (le_cons_self rest x)

end

theorem stage_ne_approved {k : Section} : k.stage ≠ some (.approved p) := by
  cases k with
  | leave ask outcome => cases outcome <;> exact fun h => by cases h
  | _ => exact fun h => by cases h

theorem done_slots : (slots m s).done =
    ((s.shared.approvals : Multiset Approval).map approved).filterMap (done m) := by
  have hn : ((s.running : Multiset Section).filterMap Section.stage).filterMap (done m) = 0 := by
    refine eq_zero_of_forall_notMem fun symbol hm => ?_
    obtain ⟨x, hx, hd⟩ := (mem_filterMap _ _).mp hm
    obtain ⟨k, -, hk⟩ := (mem_filterMap _ _).mp hx
    cases x with
    | approved p => exact stage_ne_approved hk
    | _ => cases hd
  show (stages s).filterMap (done m) = _
  rw [stages, filterMap_add, hn, zero_add]

theorem opened_slots (h : t.shared.book = s.shared.book) :
    (slots m t).opened = (slots m s).opened := by
  show map _ (t.shared.book.held m) = _
  rw [h]
  rfl

theorem seen_subset (h : ∀ ask res opened, .looked ask res opened ∈ stages t →
    ask.req.module = m → .looked ask res opened ∈ stages s) :
    (slots m t).seen ⊆ (slots m s).seen := by
  intro ps ⟨ask, res, opened, hme, hm, hps⟩
  exact ⟨ask, res, opened, h ask res opened hme hm, hm, hps⟩

section

variable (hs : stages s = x ::ₘ rest) (ht : stages t = y ::ₘ rest)

include hs ht

theorem filterMap_swap {β : Type} {f : Stage → Option β} (h : f y = f x) :
    (stages t).filterMap f = (stages s).filterMap f := by
  rw [hs, ht]
  exact filterMap_cons_eq h

theorem filterMap_enter {β : Type} {f : Stage → Option β} {b : β} (hx : f x = none)
    (hy : f y = some b) : (stages t).filterMap f = b ::ₘ (stages s).filterMap f := by
  rw [hs, ht, filterMap_cons_some _ _ _ hy, filterMap_cons_none _ _ hx]

theorem seen_swap (hl : ∀ ask res opened, y = .looked ask res opened → ask.req.module ≠ m) :
    (slots m t).seen ⊆ (slots m s).seen := by
  refine seen_subset fun ask res opened hme hm => ?_
  rw [ht] at hme
  rw [hs]
  rcases mem_cons.mp hme with he | hme
  · exact absurd hm (hl ask res opened he.symm)
  · exact mem_cons_of_mem hme

theorem swap_shrink {limit : ℕ} (hw : y.waiting m = x.waiting m ∨ y.waiting m = none)
    (hd : y.done m = x.done m)
    (hl : ∀ ask res opened, y = .looked ask res opened → ask.req.module ≠ m)
    (hh : t.shared.book.held m ≤ s.shared.book.held m) :
    Slots.Step limit (slots m s) (slots m t) := by
  refine .shrink (map_le_map hh) ?_ (filterMap_swap hs ht hd) (seen_swap hs ht hl)
  show (stages t).filterMap _ ≤ (stages s).filterMap _
  rw [hs, ht]
  exact filterMap_cons_le hw

end

theorem leave_shrink {limit : ℕ} (hs : stages s = x ::ₘ stages t) (hd : x.done m = none)
    (hbo : t.shared.book = s.shared.book) : Slots.Step limit (slots m s) (slots m t) := by
  refine .shrink (opened_slots hbo).le ?_ ?_ (seen_subset fun _ _ _ hm _ => hs ▸ mem_cons_of_mem hm)
  · show (stages t).filterMap _ ≤ (stages s).filterMap _
    rw [hs]
    exact filterMap_le_filterMap _ (le_cons_self _ _)
  · show (stages t).filterMap _ = (stages s).filterMap _
    rw [hs, filterMap_cons_none _ _ hd]

theorem counted_le_bookedFor (rest : Multiset Stage) :
    rest.filterMap (waiting m) + rest.filterMap (done m) ≤
    (bookedFor m rest).map RiskEntryReservation.asset := by
  induction rest using Multiset.induction_on with
  | empty => exact le_rfl
  | cons x rest ih =>
    have hg : (bookedFor m rest).map RiskEntryReservation.asset ≤
        (bookedFor m (x ::ₘ rest)).map RiskEntryReservation.asset :=
      map_le_map (filter_le_filter _ (filterMap_le_filterMap _ (le_cons_self rest x)))
    -- an entry is one or the other, never both
    have hc : (x.waiting m = none ∧ x.done m = none) ∨ ∃ res, x.booked = some res ∧
        res.module = m ∧ (x.waiting m = some res.asset ∧ x.done m = none ∨
          x.waiting m = none ∧ x.done m = some res.asset) := by
      cases x with
      | passed ask res _ | measured ask res _ _ =>
        by_cases hm : res.module = m
        · exact .inr ⟨res, rfl, hm, .inl ⟨if_pos hm, rfl⟩⟩
        · exact .inl ⟨if_neg hm, rfl⟩
      | approved p =>
        by_cases hm : p.res.module = m
        · cases hp : p.recorded with
          | false => exact .inr ⟨p.res, rfl, hm, .inl (by simp [waiting, done, hm, hp])⟩
          | true => exact .inr ⟨p.res, rfl, hm, .inr (by simp [waiting, done, hm, hp])⟩
        · exact .inl (by simp [waiting, done, hm])
      | _ => exact .inl ⟨rfl, rfl⟩
    rcases hc with ⟨hw, hd⟩ | ⟨res, hbo, hm, hso⟩
    · rw [filterMap_cons_none _ _ hw, filterMap_cons_none _ _ hd]
      exact ih.trans hg
    · rw [bookedFor_cons hbo hm, map_cons]
      rcases hso with ⟨hw, hd⟩ | ⟨hw, hd⟩
      · rw [filterMap_cons_some _ _ _ hw, filterMap_cons_none _ _ hd, cons_add]
        exact cons_le_cons _ ih
      · rw [filterMap_cons_none _ _ hw, filterMap_cons_some _ _ _ hd, add_cons]
        exact cons_le_cons _ ih

theorem not_isOpenFor (hm : p.res.module ≠ m) (fill : Fill) (now : Int) :
    (p.position fill now).isOpenFor m = false := by
  have hso : (sourceOf m == some ((sourceOf p.res.module).getD .manual)) = false := by
    revert hm
    cases p.res.module <;> cases m <;> decide
  show (true && _) = false
  exact hso

theorem held_recorded {fill : Fill} {now : Int}
    (hbo : t.shared.book = s.shared.book.insert (p.position fill now)) :
    t.shared.book.held m ≤ p.position fill now ::ₘ s.shared.book.held m ∧
    (p.res.module ≠ m → t.shared.book.held m ≤ s.shared.book.held m) := by
  have hh : t.shared.book.held m ≤
      (if (p.position fill now).isOpenFor m then {p.position fill now} else 0) +
        s.shared.book.held m := by
    rw [hbo]
    exact Book.held_insert_le _
  refine ⟨hh.trans ?_, fun hm => ?_⟩
  · split
    · rw [singleton_add]
    · rw [zero_add]
      exact le_cons_self _ _
  · rwa [not_isOpenFor hm, if_neg Bool.false_ne_true, zero_add] at hh

theorem slots_step (hb : Booked R s) (hu : Unexpired m s) (hun : Undisturbed m ⟨s, a, t⟩)
    (hs : Step (act R) IsCall s a t) :
    Slots.Step (R.risk.positionLimit m) (slots m s) (slots m t) := by
  cases moves_of_step hs with
  | quiet hle hsa hh =>
    refine .shrink (map_le_map (hh m)) (filterMap_le_filterMap _ hle) ?_
      (seen_subset fun _ _ _ hme _ => mem_of_le hle hme)
    have hap : t.shared.approvals = s.shared.approvals := hsa.approvals
    rw [done_slots, done_slots, hap]
  | waited millis r ha hst hsh =>
    refine .shrink (opened_slots (by rw [hsh])).le ?_ ?_ ?_
    · show (stages t).filterMap _ ≤ (stages s).filterMap _
      rw [hst]
    · show (stages t).filterMap _ = (stages s).filterMap _
      rw [hst]
    · exact seen_subset fun _ _ _ hme _ => hst ▸ hme
  | numbered req hst hsa =>
    have hbo : t.shared.book = s.shared.book := hsa.book
    refine .shrink (opened_slots hbo).le ?_ ?_ ?_
    · show (stages t).filterMap _ ≤ (stages s).filterMap _
      rw [hst, filterMap_cons_none _ _ rfl]
    · show (stages t).filterMap _ = (stages s).filterMap _
      rw [hst, filterMap_cons_none _ _ rfl]
    · refine seen_subset fun _ _ _ hme _ => ?_
      rw [hst] at hme
      rcases mem_cons.mp hme with he | hme
      · cases he
      · exact hme
  | accepted _ _ _ _ hs ht hsh | dated _ _ _ _ hs ht hsh | reserved _ _ _ hs ht hsh
  | measured _ _ _ _ hs ht hsh =>
    exact swap_shrink hs ht (.inl rfl) rfl (fun _ _ _ h => by cases h)
      (congrArg (fun d : Desk => d.book.held m) hsh).le
  | looked ask res rest hs ht hsh =>
    by_cases hm : ask.req.module = m
    · subst hm
      refine .look (map Position.symbol
        (s.shared.book.openPositionsFor ask.req.module : Multiset Position))
        (map_le_map (Book.held_le_openPositionsFor _ _))
        (opened_slots (by rw [hsh])) (filterMap_swap hs ht rfl) (filterMap_swap hs ht rfl) ?_
      intro ps ⟨ask', res', opened, hme, hm, hps⟩
      rw [ht] at hme
      rcases mem_cons.mp hme with he | hme
      · obtain ⟨rfl, rfl, rfl⟩ := looked.inj he
        exact .inl hps
      · exact .inr ⟨ask', res', opened, hs ▸ mem_cons_of_mem hme, hm, hps⟩
    · refine swap_shrink hs ht (.inl rfl) rfl (fun _ _ _ h => ?_) (by rw [hsh])
      obtain ⟨rfl, -, -⟩ := looked.inj h
      exact hm
  | passed ask res opened count reserved symbol rest hs ht husage hch hsh =>
    have hse : looked ask res opened ∈ stages s := hs ▸ mem_cons_self _ _
    have hf : IsRecord R ask res ∧ 0 < res.requestedQuote := hb.filed _ hse
    have hbo : t.shared.book = s.shared.book := by rw [hsh]
    by_cases hm : ask.req.module = m
    · subst hm
      obtain ⟨hr, hop, hsy⟩ := room_of_checkCapacity hch
      have hcou := card_bookedFor_le hb hu hs husage
      have hnot := symbol_not_booked hb hu hs husage hsy
      have hw : (passed ask res reserved).waiting ask.req.module = some res.asset :=
        if_pos hf.1.module_eq
      have hco : (slots ask.req.module s).waiting + (slots ask.req.module s).done ≤
          (bookedFor ask.req.module rest).map RiskEntryReservation.asset := by
        show (stages s).filterMap _ + (stages s).filterMap _ ≤ _
        rw [hs, filterMap_cons_none _ _ rfl, filterMap_cons_none _ _ rfl]
        exact counted_le_bookedFor rest
      refine .enter (map Position.symbol (opened : Multiset Position)) res.asset
        ⟨ask, res, opened, hse, rfl, rfl⟩ ?_ ?_ ?_ (opened_slots hbo)
        (filterMap_enter hs ht rfl hw) (filterMap_swap hs ht rfl) (seen_swap hs ht fun _ _ _ h => by cases h)
      · have hle := card_le_card hco
        rw [card_map] at hle
        rw [card_map, coe_card]
        omega
      · intro hme
        obtain ⟨p, hp, hpsy⟩ := mem_map.mp hme
        exact hop p hp (hpsy.trans hf.1.asset_eq)
      · intro hme
        obtain ⟨other, ho, hass⟩ := mem_map.mp (mem_of_le hco hme)
        exact hnot other ho (hass.trans hf.1.asset_eq)
    · have hn : (passed ask res reserved).waiting m = none :=
        if_neg fun h => hm (hf.1.module_eq.symm.trans h)
      exact swap_shrink hs ht (.inr hn) rfl (fun _ _ _ h => by cases h) (by rw [hbo])
  | approved ask res reserved own decision rest _ hs ht _ hsh =>
    refine swap_shrink hs ht (.inl ?_) ?_ (fun _ _ _ h => by cases h) (by rw [hsh])
    · simp [waiting]
    · simp [done]
  | refused x ask res rest hx hs ht hsh =>
    have hd : x.done m = none := by
      rcases hx with ⟨opened, rfl⟩ | ⟨reserved, own, rfl⟩
      · rfl
      · rfl
    exact swap_shrink hs ht (.inr rfl) hd.symm (fun _ _ _ h => by cases h) (by rw [hsh])
  | dropped ask res hs hsh =>
    exact leave_shrink hs rfl (by rw [hsh]; rfl)
  | recorded fill p rest hp hme hs ht hsh =>
    obtain ⟨hh, ho⟩ := held_recorded (m := m) (congrArg Desk.book hsh)
    by_cases hm : p.res.module = m
    · refine .use p.res.asset ?_ (filterMap_enter ht hs ?_ ?_) (filterMap_enter hs ht ?_ ?_)
        (seen_swap hs ht fun _ _ _ h => by cases h)
      · refine (map_le_map hh).trans ?_
        exact le_rfl
      · simp [waiting]
      · simp [waiting, hm, hp]
      · simp [done, hp]
      · simp [done, hm]
    · refine swap_shrink hs ht (.inr ?_) ?_ (fun _ _ _ h => by cases h) (ho hm)
      · simp [waiting]
      · simp [done, hm]
  | released p r ha hme hpr hsh =>
    have hbo : t.shared.book = s.shared.book := by
      rw [hsh]
      rfl
    by_cases hc : p.res.module = m ∧ p.recorded = true
    · have hn : (approved p).waiting m = none := by
        simp [waiting, hc.2]
      refine .release (opened_slots hbo) ?_ ?_
      · show (stages t).filterMap _ = (stages s).filterMap _
        rw [hpr, filterMap_cons_none _ _ hn]
      · subst ha
        have hno := hun ⟨p, hme, rfl, hc⟩
        refine Set.eq_empty_of_forall_notMem fun ps ⟨ask, res, opened, hl, hm, _⟩ => ?_
        have hl : .looked ask res opened ∈ stages s := hpr ▸ mem_cons_of_mem hl
        rcases mem_stages.mp hl with ⟨k, hk, hsta⟩ | ⟨_, _, he⟩
        · refine hno k hk ?_
          cases k with
          | usage ask' res' opened' =>
            obtain ⟨rfl, -, -⟩ := looked.inj (Option.some.inj hsta)
            exact congrArg some hm
          | leave ask' outcome => cases outcome <;> cases hsta
          | _ => cases hsta
        · cases he
    · exact leave_shrink hpr (if_neg hc) hbo

/-! ## The limit over whole runs -/

/-- Nothing is in flight, and the symbols of the open positions differ. -/
structure Desk.Fresh (d : Desk) (m : BotModule) : Prop where
  approvals : d.approvals = []
  positive : ∀ p ∈ d.engine.entries, 0 ≤ p.2.requestedQuote
  distinct : ((d.book.held m).map Position.symbol).Nodup

section

variable {d : Desk}

theorem stages_idle (ha : d.approvals = []) : stages ⟨d, []⟩ = 0 := by
  show 0 + map approved (d.approvals : Multiset Approval) = 0
  rw [ha]
  rfl

theorem booked_idle (ha : d.approvals = [])
    (hpo : ∀ p ∈ d.engine.entries, 0 ≤ p.2.requestedQuote) : Booked R ⟨d, []⟩ := by
  have hn : ∀ x, x ∉ stages ⟨d, []⟩ := by
    rw [stages_idle ha]
    exact notMem_zero
  constructor
  · rw [stages_idle ha]
    exact nodup_zero
  · exact fun x hx => absurd hx (hn x)
  · exact fun x hx => absurd hx (hn x)
  · exact fun x hx => absurd hx (hn x)
  · exact hpo

theorem unexpired_idle (ha : d.approvals = []) : Unexpired m ⟨d, []⟩ := by
  intro x hx
  rw [stages_idle ha] at hx
  exact absurd hx (notMem_zero x)

theorem kept_idle (hd : d.Fresh m) {limit : ℕ} : Slots.Kept limit (slots m ⟨d, []⟩) := by
  have hw : (slots m ⟨d, []⟩).waiting = 0 := by
    show (stages ⟨d, []⟩).filterMap _ = 0
    rw [stages_idle hd.approvals]
    rfl
  constructor
  · exact fun hn => absurd hw hn
  · rw [hw, add_zero]
    exact hd.distinct
  · intro ps ⟨ask, res, opened, hm, _⟩
    rw [stages_idle hd.approvals] at hm
    exact absurd hm (notMem_zero _)

end

open List

theorem pending_le {β : Type} {f : Stage → Option β} {g : Approval → β} (hf : ∀ p, f (.approved p) =
    if p.res.module = m ∧ p.recorded = false then some (g p) else none) :
    ((s.shared.pending m).map g : Multiset β) ≤ (stages s).filterMap f := by
  have hsub : ((s.shared.approvals : Multiset Approval).map approved) ≤ stages s := le_add_left _ _
  refine le_trans ?_ (filterMap_le_filterMap _ hsub)
  rw [map_coe, filterMap_coe, List.filterMap_map, Desk.pending]
  refine List.Sublist.subperm ?_
  induction s.shared.approvals with
  | nil => exact List.Sublist.refl _
  | cons p ps ih =>
    by_cases hp : p.res.module = m ∧ p.recorded = false
    · have hso : (f ∘ approved) p = some (g p) := (hf p).trans (if_pos hp)
      rw [filterMap_cons_some hso]
      by_cases hl : s.shared.now < p.res.expiresAt
      · rw [List.filter_cons_of_pos (by simpa using ⟨hp.1, hp.2, hl⟩)]
        exact ih.cons_cons _
      · rw [filter_cons_of_neg (by simp [hl])]
        exact ih.cons _
    · have hn : (f ∘ approved) p = none := (hf p).trans (if_neg hp)
      rw [List.filterMap_cons_none hn, List.filter_cons_of_neg]
      · exact ih
      · rw [decide_eq_true_eq]
        exact fun h => hp ⟨h.1, h.2.1⟩

theorem approved_waiting (hb : Booked R s) (hs : Step (act R) IsCall s a t)
    (hap : Approves m ⟨s, a, t⟩) : (slots m t).waiting ≠ 0 := by
  obtain ⟨⟨ask, decision⟩, hap, hm⟩ := hap
  obtain ⟨res, reserved, own, hse, -, ha⟩ := step_of_approval hs hap
  have hf : IsRecord R ask res ∧ 0 < res.requestedQuote := hb.filed _ hse
  have hmo : res.module = m := hf.1.module_eq.trans hm
  have hme : approved ⟨res, decision.sizedQuote, false⟩ ∈ stages t :=
    mem_stages.mpr (.inr ⟨_, ha ▸ mem_cons_self, rfl⟩)
  have hw : res.asset ∈ (slots m t).waiting :=
    (mem_filterMap _ _).mpr ⟨_, hme, by simp [waiting, hmo]⟩
  exact fun hz => absurd (hz ▸ hw) (notMem_zero _)

private def oneCopy : Rules where
  decisionId _ _ n := String.ofList (replicate n '#')
  risk := { (default : RiskConfig) with maxOpenPositions := 1 }
  tenant := none

def quietReadings : Readings where
  killSwitch := false
  enabled := true
  lossLimitTripped := false
  realized := 0
  durableRealized := .unavailable
  moduleRealized := 0
  durableModuleRealized := .unavailable
  mode := .paper
  global := ⟨fun _ _ _ => "", default, default, fun _ => false, fun _ => false, fun _ => false⟩
  context := ⟨false, true, true, 0⟩
  openCount := none
  openSymbol := none
  openExposure := none
  exitAge := none
  failedEntryAge := none
  attemptAge := none
  pendingEntries := 0

private def copyEntry : Ask where
  req := ⟨.copy, .pumpFun, "A", 1 / 10, 10, 100, none, none, none, "w", "s"⟩
  readings := quietReadings

def emptyDesk : Desk := ⟨0, ⟨false, 0, []⟩, Book.empty, []⟩

private def letThrough : List (Move Section) :=
  .call (.check copyEntry) :: List.replicate 11 (.go 0)

private def missed : List (Move Section) :=
  letThrough ++ .call (.check copyEntry) :: List.replicate 8 (.go 0) ++
    .call (.look "" ⟨"p", 1⟩) :: List.replicate 4 (.go 0) ++ List.replicate 3 (.go 0)

/-- The first entry outlasts its reservation, and records its position while a second check
is under way. -/
private def outlasted : List (Move Section) := letThrough ++ [.call (.wait 300000), .go 0] ++
    .call (.check copyEntry) :: List.replicate 8 (.go 0) ++
    [.call (.look "" ⟨"p", 1⟩), .go 0, .go 0, .go 1, .go 1, .go 1]

private theorem allowed_moves {ms : List (Move Section)}
    (hm : ms = letThrough ∨ ms = missed ∨ ms = outlasted) : ∀ m ∈ ms, m.Allowed IsCall := by
  rcases hm with rfl | rfl | rfl <;>
    simp [letThrough, missed, outlasted, or_imp, forall_and, Move.Allowed, IsCall.check,
      IsCall.wait, IsCall.complete]

private theorem tellsNumber_oneCopy : oneCopy.TellsNumber := by
  intro req req' ts ts' n n' h
  have hl := congrArg String.toList h
  simpa [oneCopy] using hl

private theorem fresh_emptyDesk : emptyDesk.Fresh .copy := by
  refine ⟨rfl, fun p hp => ?_, by decide +kernel⟩
  cases hp

/-- The same without any delay: the first entry completes between the two readings. -/
theorem missed_exceeds_limit : ∃ tr t, oneCopy.TellsNumber ∧ emptyDesk.Fresh .copy ∧
    Run (Step (act oneCopy) IsCall) ⟨emptyDesk, []⟩ tr t ∧ (∀ e ∈ tr, Prompt .copy e) ∧
    ∃ e ∈ tr, Approves .copy e ∧ oneCopy.risk.positionLimit .copy <
        (e.post.shared.book.held .copy).card + (e.post.shared.pending .copy).length ∧
      ¬ ((e.post.shared.book.held .copy).map Position.symbol +
        (e.post.shared.pendingSymbols .copy : Multiset String)).Nodup := by
  refine (exists_run_of_follow missed (allowed_moves (.inr (.inl rfl))) ?_).imp
    fun tr => Exists.imp fun t h => ⟨tellsNumber_oneCopy, fresh_emptyDesk, h⟩
  decide +kernel

end SniperBot.Risk
