import Mathlib.Data.List.Sort
import Mathlib.Data.String.Basic
import SniperBot.Accounting.Ledger
import SniperBot.Lib.WriteBehind

/-!
# A replica of the ledger and the journal

`submit` and `flush_pending` hold the ledger's lock from start to end and call the journal in
between, so a replica is where its current operation stands: the call it waits for, and what it
does with the answer. Loading the journal and merging are steps of their own.
-/

namespace SniperBot.Accounting

open Lib.WriteBehind List Inner StoredEvent

/-! ## The journal -/

abbrev Journal := List Row

def rowId (row : Row) : String := row.1.eventId

def Journal.recordEvent (j : Journal) (row : Row) (reply : Reply) : Journal × Option Bool :=
  record rowId j row reply

namespace StoredEvent

def Earlier (a b : StoredEvent) : Prop :=
  a.recordedAt < b.recordedAt ∨ a.recordedAt = b.recordedAt ∧ a.eventId ≤ b.eventId

instance : DecidableRel Earlier := fun _ _ => inferInstanceAs (Decidable (_ ∨ _))

end StoredEvent

def Journal.loadEvents (j : Journal) : List StoredEvent :=
  (j.map Prod.fst).insertionSort StoredEvent.Earlier

/-! ## Merging loaded events -/

def later (last : Option Int) (t : Int) : Option Int :=
  match last with
  | none => some t
  | some l => some (max l t)

def Inner.withLast (inner : Inner) (last : Option Int) : Inner :=
  { inner with lastRecordedAt := last }

structure Hydration where
  inner : Inner
  applied : ℕ
  dup : ℕ
  invalid : ℕ

def hydrateOne (sha : String → String) (h : Hydration) (stored : StoredEvent) : Hydration :=
  let inner := h.inner.withLast (later h.inner.lastRecordedAt stored.recordedAt)
  match inner.find stored.eventId with
  | some row =>
    if row.1.event = stored.event then { h with inner := inner, dup := h.dup + 1 }
    else { h with inner := inner, invalid := h.invalid + 1 }
  | none =>
    if stored.eventId ≠ stored.event.eventId sha ∨ stored.event.validate ≠ .ok () then
      { h with inner := inner, invalid := h.invalid + 1 }
    else
      match stored.event.expand sha (inner.book.costOfSlice stored.event) with
      | .error _ => { h with inner := inner, invalid := h.invalid + 1 }
      | .ok entry =>
        { h with inner := inner.enter (stored, entry), applied := h.applied + 1 }

def Inner.hydrate (sha : String → String) (inner : Inner) (events : List StoredEvent) : Hydration :=
  events.foldl (hydrateOne sha) ⟨inner, 0, 0, 0⟩

/-! ## Operations that call the journal -/

inductive Applied where
  | new (effect : BookEffect)
  | duplicate
  | rejected (reason : String)

inductive Answer where
  | submitted (applied : Applied)
  | flushed (count : ℕ)

inductive Phase where
  | idle
  /-- The first of `todo` is being recorded; `next` is the event that is submitted. -/
  | flushing (todo : List Row) (flushed : List String) (next : Option Row)
  | recording (row : Row)
  deriving DecidableEq

structure Replica where
  replicaId : String
  inner : Inner
  phase : Phase

def Inner.pendingRows (inner : Inner) : List Row := inner.pending.filterMap inner.find

def Inner.bookSubmitted (inner : Inner) (row : Row) : Inner :=
  (inner.enter row).withLast (some row.1.recordedAt)

def Inner.park (inner : Inner) (row : Row) : Inner :=
  { inner with pending := inner.pending ++ [row.1.eventId] }

namespace Replica

variable (sha : String → String) (r : Replica)

def new (replicaId : String) : Replica := ⟨replicaId, .empty, .idle⟩

def effectOf (row : Row) : Answer :=
  .submitted (.new (r.inner.book.apply row.1.event row.1.eventId).2)

/-- The flush is over. Its event follows at once if nothing is pending any more, and waits
behind the pending ones otherwise. -/
def finish (flushed : List String) (next : Option Row) : Replica × Option Answer :=
  let inner := { r.inner with pending := r.inner.pending.filter (· ∉ flushed) }
  match next with
  | none => ({ r with inner := inner, phase := .idle }, some (.flushed flushed.length))
  | some row =>
    if inner.pending = [] then ({ r with inner := inner, phase := .recording row }, none)
    else
      ({ r with inner := (inner.bookSubmitted row).park row, phase := .idle },
        some (r.effectOf row))

def proceed (todo : List Row) (flushed : List String) (next : Option Row) :
    Replica × Option Answer :=
  match todo with
  | [] => r.finish flushed next
  | _ :: _ => ({ r with phase := .flushing todo flushed next }, none)

/-- Up to the first call of the journal. -/
def flushPending : Replica × Option Answer := r.proceed r.inner.pendingRows [] none

def submit (event : AccountingEvent) (now : Int) : Replica × Option Answer :=
  match event.validate with
  | .error reason => (r, some (.submitted (.rejected reason)))
  | .ok () =>
    let eventId := event.eventId sha
    match r.inner.find eventId with
    | some _ => (r, some (.submitted .duplicate))
    | none =>
      match event.expand sha (r.inner.book.costOfSlice event) with
      | .error err => (r, some (.submitted (.rejected err.text)))
      | .ok entry =>
        let recordedAt := match r.inner.lastRecordedAt with
          | none => now
          | some last => max now (last + 1000)
        r.proceed r.inner.pendingRows [] (some (⟨eventId, event, recordedAt, r.replicaId⟩, entry))

def asked : Option Row :=
  match r.phase with
  | .flushing (row :: _) _ _ => some row
  | .recording row => some row
  | _ => none

def receive (answer : Option Bool) : Replica × Option Answer :=
  match r.phase with
  | .idle => (r, none)
  | .flushing [] flushed next => r.finish flushed next
  | .flushing (row :: todo) flushed next =>
    match answer with
    | some _ => r.proceed todo (flushed ++ [row.1.eventId]) next
    | none => r.finish flushed next
  | .recording row =>
    match answer with
    | some false => ({ r with phase := .idle }, some (.submitted .duplicate))
    | some true =>
      ({ r with inner := r.inner.bookSubmitted row, phase := .idle }, some (r.effectOf row))
    | none =>
      ({ r with inner := (r.inner.bookSubmitted row).park row, phase := .idle },
        some (r.effectOf row))

def exchange (j : Journal) (reply : Reply) : Journal × Replica :=
  match r.asked with
  | none => (j, r)
  | some row =>
    let (j', answer) := j.recordEvent row reply
    (j', (r.receive answer).1)

def recover (loaded : Option (List StoredEvent)) : Replica × Option Answer :=
  match loaded with
  | some events => flushPending { r with inner := (r.inner.hydrate sha events).inner }
  | none => r.flushPending

end Replica

/-! ## Rebuilding the book from events -/

section

variable (sha : String → String)

variable (inner : Inner)

/-- The event is expanded at the cost that the book gives, and applied. -/
def Inner.enterStored (stored : StoredEvent) : Inner :=
  inner.enter (stored, stored.event.entry sha (inner.book.costOfSlice stored.event))

def Inner.enterAll (events : List StoredEvent) : Inner := events.foldl (enterStored sha) inner

def Inner.stored : List StoredEvent := inner.events.map Prod.fst

def Inner.ids : List String := inner.events.map rowId

structure Inner.SameBook (a b : Inner) : Prop where
  book_eq : a.book = b.book
  series_eq : a.series = b.series
  events_eq : a.events = b.events

/-- The events carry ids of their own, each the digest of its event, and are all acceptable. -/
structure Clean (events : List StoredEvent) : Prop where
  nodup : (events.map eventId).Nodup
  identified : ∀ s ∈ events, s.eventId = s.event.eventId sha
  acceptable : ∀ s ∈ events, s.event.Acceptable sha

end

section

variable {inner : Inner} {row : Row} {eventId : String}

theorem ids_eq_map_stored : inner.ids = inner.stored.map StoredEvent.eventId := by
  rw [Inner.stored, map_map]
  rfl

theorem find_eq_none_iff : inner.find eventId = none ↔ eventId ∉ inner.ids := by
  unfold find ids
  rw [find?_eq_none, mem_map]
  constructor
  · rintro h ⟨row, hr, rfl⟩
    exact h row hr (decide_eq_true rfl)
  · intro h row hr he
    exact h ⟨row, hr, of_decide_eq_true he⟩

theorem find_rowId (hn : inner.ids.Nodup) (hr : row ∈ inner.events) :
    inner.find (rowId row) = some row := by
  cases hf : inner.find (rowId row) with
  | none => exact (find_eq_none_iff.mp hf (mem_map_of_mem hr)).elim
  | some found =>
    have hi : rowId found = rowId row :=
      of_decide_eq_true (find?_some (p := fun row' => rowId row' = rowId row) hf)
    exact congrArg some (inj_on_of_nodup_map hn (mem_of_find?_eq_some hf) hr hi)

theorem filterMap_find (hn : inner.ids.Nodup) {parked : List Row}
    (hpa : ∀ row ∈ parked, row ∈ inner.events) :
    (parked.map rowId).filterMap inner.find = parked := by
  induction parked with
  | nil => rfl
  | cons row parked ih =>
    rw [map_cons, filterMap_cons_some (find_rowId hn (hpa row mem_cons_self)),
      ih fun row hr => hpa row (mem_cons_of_mem _ hr)]

end

section

variable {sha : String → String} {inner a b : Inner} {events : List StoredEvent}
  {stored : StoredEvent}

namespace Inner

theorem SameBook.trans {c : Inner} (h : a.SameBook b) (h' : b.SameBook c) : a.SameBook c :=
  ⟨h.book_eq.trans h'.book_eq, h.series_eq.trans h'.series_eq, h.events_eq.trans h'.events_eq⟩

theorem SameBook.enter (h : a.SameBook b) (row : Row) : (a.enter row).SameBook (b.enter row) := by
  constructor
  · rw [book_enter, book_enter, h.book_eq]
  · rw [series_enter, series_enter, h.book_eq, h.series_eq]
  · rw [events_enter, events_enter, h.events_eq]

theorem SameBook.enterStored (h : a.SameBook b) (stored : StoredEvent) :
    (a.enterStored sha stored).SameBook (b.enterStored sha stored) := by
  unfold Inner.enterStored
  rw [h.book_eq]
  exact h.enter _

theorem SameBook.enterAll (h : a.SameBook b) (events : List StoredEvent) :
    (a.enterAll sha events).SameBook (b.enterAll sha events) := by
  induction events generalizing a b with
  | nil => exact h
  | cons stored events ih => exact ih (h.enterStored stored)

theorem enterAll_append (inner : Inner) (xs ys : List StoredEvent) :
    inner.enterAll sha (xs ++ ys) = (inner.enterAll sha xs).enterAll sha ys :=
  foldl_append

theorem enterAll_snoc (inner : Inner) (events : List StoredEvent) (stored : StoredEvent) :
    inner.enterAll sha (events ++ [stored]) = (inner.enterAll sha events).enterStored sha stored :=
  enterAll_append inner events [stored]

theorem stored_enter (row : Row) : (inner.enter row).stored = inner.stored ++ [row.1] := by
  rw [Inner.stored, events_enter, map_append]
  rfl

section

variable (sha : String → String) (inner : Inner) (events : List StoredEvent)

theorem stored_enterAll : (inner.enterAll sha events).stored = inner.stored ++ events := by
  induction events generalizing inner with
  | nil => exact (append_nil _).symm
  | cons stored events ih =>
    refine (ih (inner.enterStored sha stored)).trans ?_
    rw [enterStored, stored_enter, append_assoc]
    rfl

theorem events_prefix_enterAll : inner.events <+: (inner.enterAll sha events).events := by
  induction events generalizing inner with
  | nil => exact prefix_refl _
  | cons stored events ih =>
    exact (prefix_append _ _).trans (ih (inner.enterStored sha stored))

end

theorem pending_enterAll (inner : Inner) (events : List StoredEvent) :
    (inner.enterAll sha events).pending = inner.pending ∧
    (inner.enterAll sha events).lastRecordedAt = inner.lastRecordedAt := by
  induction events generalizing inner with
  | nil => exact ⟨rfl, rfl⟩
  | cons stored events ih => exact ih (inner.enterStored sha stored)

theorem enterAll_withLast (inner : Inner) (last : Option Int) (events : List StoredEvent) :
    (inner.withLast last).enterAll sha events = (inner.enterAll sha events).withLast last := by
  induction events generalizing inner with
  | nil => rfl
  | cons stored events ih => exact ih (inner.enterStored sha stored)

theorem ids_enterStored (inner : Inner) (stored : StoredEvent) :
    (inner.enterStored sha stored).ids = inner.ids ++ [stored.eventId] := by
  rw [ids, enterStored, events_enter, map_append]
  rfl

end Inner

/-- The book, the series and the events of a ledger are what its events give in their order. -/
def Inner.Booked (sha : String → String) (inner : Inner) : Prop :=
  inner.SameBook (empty.enterAll sha inner.stored)

theorem booked_empty : empty.Booked sha := ⟨rfl, rfl, rfl⟩

theorem Inner.Booked.enterAll (h : inner.Booked sha) (events : List StoredEvent) :
    (inner.enterAll sha events).Booked sha := by
  unfold Inner.Booked
  rw [stored_enterAll, enterAll_append]
  exact Inner.SameBook.enterAll h events

theorem Inner.Booked.rows_of_prefix (h : inner.Booked sha) {rows rest : List Row}
    (he : inner.events = rows ++ rest) :
    (empty.enterAll sha (rows.map Prod.fst)).events = rows := by
  have hst : inner.stored = rows.map Prod.fst ++ rest.map Prod.fst := by
    rw [Inner.stored, he, map_append]
  obtain ⟨tail, hta⟩ := events_prefix_enterAll sha
    (empty.enterAll sha (rows.map Prod.fst)) (rest.map Prod.fst)
  have hsa := h.events_eq
  rw [hst, enterAll_append, ← hta, he] at hsa
  refine (append_inj hsa ?_).1.symm
  have hl := congrArg length (stored_enterAll sha .empty (rows.map Prod.fst))
  simpa [stored, empty] using hl.symm

end

/-! ## What merging does -/

section

variable {sha : String → String} {inner : Inner} {events : List StoredEvent}
  {stored : StoredEvent}

theorem hydrateOne_known {h : Hydration} (hk : stored.eventId ∈ h.inner.ids) :
    (hydrateOne sha h stored).inner =
    h.inner.withLast (later h.inner.lastRecordedAt stored.recordedAt) := by
  unfold hydrateOne
  dsimp only
  split
  · split <;> rfl
  · next hn => exact (find_eq_none_iff.mp hn hk).elim

theorem hydrateOne_new {h : Hydration} (hn : stored.eventId ∉ h.inner.ids)
    (hi : stored.eventId = stored.event.eventId sha)
    (ha : stored.event.Acceptable sha) :
    (hydrateOne sha h stored).inner = (h.inner.enterStored sha stored).withLast
      (later h.inner.lastRecordedAt stored.recordedAt) := by
  unfold hydrateOne
  dsimp only
  split
  · next row hr =>
    cases (find_eq_none_iff.mpr hn).symm.trans hr
  · rw [if_neg (by simp [hi, ha.1]), (expand_eq_ok sha).mpr ⟨ha, rfl⟩]
    rfl

theorem Clean.sublist {events' : List StoredEvent} (h : Clean sha events)
    (hsub : events'.Sublist events) : Clean sha events' :=
  ⟨h.nodup.sublist (hsub.map _), fun s hs => h.identified s (hsub.subset hs),
    fun s hs => h.acceptable s (hsub.subset hs)⟩

section

variable (hc : Clean sha events) (inner : Inner)

include hc

theorem hydrate_inner : (inner.hydrate sha events).inner =
    (inner.enterAll sha (events.filter (·.eventId ∉ inner.ids))).withLast
      ((events.map recordedAt).foldl later inner.lastRecordedAt) := by
  suffices hfo : ∀ h : Hydration, (events.foldl (hydrateOne sha) h).inner =
        (h.inner.enterAll sha (events.filter (·.eventId ∉ h.inner.ids))).withLast
          ((events.map recordedAt).foldl later h.inner.lastRecordedAt) from
    hfo ⟨inner, 0, 0, 0⟩
  induction events with
  | nil => exact fun h => rfl
  | cons stored events ih =>
    intro h
    rw [foldl_cons, ih (hc.sublist (sublist_cons_self _ _)), map_cons]
    by_cases hk : stored.eventId ∈ h.inner.ids
    · rw [hydrateOne_known hk, enterAll_withLast, filter_cons_of_neg (by simpa using hk)]
      rfl
    · -- the other events have other ids
      have hf : events.filter (·.eventId ∉ (h.inner.enterStored sha stored).ids) =
          events.filter (·.eventId ∉ h.inner.ids) := by
        refine filter_congr fun s hs => ?_
        have ho : s.eventId ≠ stored.eventId := fun he =>
          (nodup_cons.mp hc.nodup).1 (he ▸ mem_map_of_mem hs)
        rw [ids_enterStored]
        simp [ho]
      rw [hydrateOne_new hk (hc.identified _ mem_cons_self)
        (hc.acceptable _ mem_cons_self), enterAll_withLast,
        filter_cons_of_pos (by simpa using hk)]
      exact congrArg (fun rest => ((h.inner.enterStored sha stored).enterAll sha
        rest).withLast _) hf

theorem stored_hydrate : (inner.hydrate sha events).inner.stored =
    inner.stored ++ events.filter (·.eventId ∉ inner.ids) := by
  rw [hydrate_inner hc]
  exact stored_enterAll sha inner _

theorem events_hydrate : ∃ rest, (inner.hydrate sha events).inner.events = inner.events ++ rest ∧
    rest.map Prod.fst = events.filter (·.eventId ∉ inner.ids) := by
  obtain ⟨rest, hrest⟩ := events_prefix_enterAll sha inner (events.filter (·.eventId ∉ inner.ids))
  have he : (inner.hydrate sha events).inner.events = inner.events ++ rest := by
    rw [hydrate_inner hc]
    exact hrest.symm
  refine ⟨rest, he, ?_⟩
  have hst := stored_hydrate hc inner
  rw [Inner.stored, he, map_append] at hst
  exact append_cancel_left hst

theorem pending_hydrate : (inner.hydrate sha events).inner.pending = inner.pending := by
  rw [hydrate_inner hc]
  exact (pending_enterAll inner _).1

end

theorem stored_hydrate_empty (hc : Clean sha events) :
    (empty.hydrate sha events).inner.stored = events := by
  rw [stored_hydrate hc]
  exact filter_eq_self.mpr fun _ _ => by simp [ids, empty]

end

/-! ## What every ledger keeps -/

section

def Covered (last : Option Int) (t : Int) : Prop := ∃ l, last = some l ∧ t ≤ l

theorem covered_later_self (last : Option Int) (t : Int) : Covered (later last t) t := by
  cases last with
  | none => exact ⟨t, rfl, le_rfl⟩
  | some l => exact ⟨max l t, rfl, le_max_right _ _⟩

variable {last : Option Int} {t : Int}

theorem Covered.later (h : Covered last t) (t' : Int) : Covered (later last t') t := by
  obtain ⟨l, rfl, hle⟩ := h
  exact ⟨max l t', rfl, hle.trans (le_max_left _ _)⟩

theorem Covered.foldl (h : Covered last t) (ts : List Int) :
    Covered (ts.foldl Accounting.later last) t := by
  induction ts generalizing last with
  | nil => exact h
  | cons t' ts ih => exact ih (h.later t')

theorem covered_foldl_of_mem {ts : List Int} (ht : t ∈ ts) : Covered (ts.foldl later last) t := by
  induction ts generalizing last with
  | nil => exact (not_mem_nil ht).elim
  | cons t' ts ih =>
    rcases mem_cons.mp ht with rfl | ht
    · exact (covered_later_self last t).foldl ts
    · exact ih ht

variable {sha : String → String} {inner : Inner} {row : Row} {events : List StoredEvent}

/-- The ledger is what its events give, the events are clean, and no event was recorded after
the last time of record. -/
structure Inner.Kept (sha : String → String) (inner : Inner) : Prop where
  booked : inner.Booked sha
  clean : Clean sha inner.stored
  covered : ∀ s ∈ inner.stored, Covered inner.lastRecordedAt s.recordedAt

theorem kept_empty : empty.Kept sha where
  booked := booked_empty
  clean := ⟨nodup_nil, fun _ h => (not_mem_nil h).elim, fun _ h => (not_mem_nil h).elim⟩
  covered := fun _ h => (not_mem_nil h).elim

theorem Inner.Kept.nodup (h : inner.Kept sha) : inner.ids.Nodup := by
  rw [ids_eq_map_stored]
  exact h.clean.nodup

theorem Inner.Kept.withPending (h : inner.Kept sha) (pending : List String) :
    Inner.Kept sha { inner with pending := pending } :=
  ⟨⟨h.booked.book_eq, h.booked.series_eq, h.booked.events_eq⟩, h.clean, h.covered⟩

structure Fresh (sha : String → String) (inner : Inner) (row : Row) : Prop where
  new : rowId row ∉ inner.ids
  identified : row.1.eventId = row.1.event.eventId sha
  acceptable : row.1.event.Acceptable sha
  entry_eq : row.2 = row.1.event.entry sha (inner.book.costOfSlice row.1.event)
  after : ∀ s ∈ inner.stored, s.recordedAt < row.1.recordedAt

theorem Clean.snoc {stored : StoredEvent}
    (h : Clean sha events) (hn : stored.eventId ∉ events.map eventId)
    (hi : stored.eventId = stored.event.eventId sha)
    (ha : stored.event.Acceptable sha) : Clean sha (events ++ [stored]) where
  nodup := by
    rw [map_append]
    exact h.nodup.append (nodup_singleton _) (disjoint_singleton.mpr hn)
  identified := by
    intro s hs
    rcases mem_append.mp hs with hs | hs
    · exact h.identified s hs
    · rw [mem_singleton.mp hs]
      exact hi
  acceptable := by
    intro s hs
    rcases mem_append.mp hs with hs | hs
    · exact h.acceptable s hs
    · rw [mem_singleton.mp hs]
      exact ha

theorem Inner.Kept.bookSubmitted (h : inner.Kept sha) (hr : Fresh sha inner row) :
    (inner.bookSubmitted row).Kept sha := by
  have hst : (inner.bookSubmitted row).stored = inner.stored ++ [row.1] := stored_enter row
  have he : inner.enter row = inner.enterStored sha row.1 := by
    rw [enterStored, ← hr.entry_eq]
  constructor
  · unfold Inner.Booked
    rw [hst, enterAll_snoc]
    have hsa : (inner.enterStored sha row.1).SameBook _ := Inner.SameBook.enterStored h.booked row.1
    rw [← he] at hsa
    exact ⟨hsa.book_eq, hsa.series_eq, hsa.events_eq⟩
  · rw [hst]
    refine h.clean.snoc ?_ hr.identified hr.acceptable
    rw [← ids_eq_map_stored]
    exact hr.new
  · rw [hst]
    intro s hs
    refine ⟨row.1.recordedAt, rfl, ?_⟩
    rcases mem_append.mp hs with hs | hs
    · exact (hr.after s hs).le
    · rw [mem_singleton.mp hs]

theorem Inner.Kept.hydrate (h : inner.Kept sha)
    (hc : Clean sha events) : (inner.hydrate sha events).inner.Kept sha := by
  have hbo := h.booked.enterAll (events.filter (·.eventId ∉ inner.ids))
  constructor
  · rw [hydrate_inner hc]
    exact ⟨hbo.book_eq, hbo.series_eq, hbo.events_eq⟩
  · rw [stored_hydrate hc]
    constructor
    · rw [map_append]
      refine h.clean.nodup.append (hc.nodup.sublist (filter_sublist.map _)) ?_
      intro id hold hn
      obtain ⟨s, hs, rfl⟩ := mem_map.mp hn
      have hl := (mem_filter.mp hs).2
      rw [decide_eq_true_iff, ids_eq_map_stored] at hl
      exact hl hold
    · intro s hs
      rcases mem_append.mp hs with hs | hs
      · exact h.clean.identified s hs
      · exact hc.identified s (mem_of_mem_filter hs)
    · intro s hs
      rcases mem_append.mp hs with hs | hs
      · exact h.clean.acceptable s hs
      · exact hc.acceptable s (mem_of_mem_filter hs)
  · rw [stored_hydrate hc, hydrate_inner hc]
    intro s hs
    rcases mem_append.mp hs with hs | hs
    · exact (h.covered s hs).foldl _
    · exact covered_foldl_of_mem (mem_map_of_mem (mem_of_mem_filter hs))

theorem submit_cases {r : Replica} (h : r.inner.Kept sha) (event : AccountingEvent) (now : Int) :
    (r.submit sha event now).1 = r ∨ ∃ row, Fresh sha r.inner row ∧
    (r.submit sha event now).1 = (r.proceed r.inner.pendingRows [] (some row)).1 := by
  unfold Replica.submit
  split
  · exact Or.inl rfl
  · dsimp only
    split
    · exact Or.inl rfl
    · next hf =>
      split
      · exact Or.inl rfl
      · next entry he =>
        obtain ⟨ha, rfl⟩ := (expand_eq_ok sha).mp he
        refine Or.inr ⟨_, ?_, rfl⟩
        refine ⟨find_eq_none_iff.mp hf, rfl, ha, rfl, ?_⟩
        intro s hs
        obtain ⟨last, hl, hle⟩ := h.covered s hs
        rw [hl]
        exact lt_max_of_lt_right (by omega)

end

end SniperBot.Accounting
