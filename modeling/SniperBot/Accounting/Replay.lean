import SniperBot.Accounting.Replica

/-!
# One replica, its journal, and its crashes

The journal stays while the replica loses its memory and starts again. Between two recoveries
that could read the journal, the journal is what the replica applied first, in the same
order, and the parked events are the rest.
-/

namespace SniperBot.Accounting

open Lib.Runs List Inner Replica Prod
open Lib.WriteBehind

structure Life where
  journal : Journal
  replica : Option Replica

namespace Life

inductive Op where
  | submit (event : AccountingEvent) (now : Int)
  | flushPending
  | exchange (reply : Reply)
  | crash
  | recover (replicaId : String) (readable : Bool)

def start (replicaId : String) : Life := ⟨[], some (.new replicaId)⟩

variable (sha : String → String) (s : Life)

/-- An operation that needs the lock waits while another one holds it. -/
def step : Op → Life
  | .submit event now =>
    match s.replica with
    | some r =>
      if r.phase = .idle then { s with replica := (r.submit sha event now).1 } else s
    | none => s
  | .flushPending =>
    match s.replica with
    | some r => if r.phase = .idle then { s with replica := r.flushPending.1 } else s
    | none => s
  | .exchange reply =>
    match s.replica with
    | some r => ⟨(r.exchange s.journal reply).1, (r.exchange s.journal reply).2⟩
    | none => s
  | .crash => { s with replica := none }
  | .recover replicaId readable =>
    match s.replica with
    | some _ => s
    | none =>
      let loaded := if readable then some s.journal.loadEvents else none
      { s with replica := ((new replicaId).recover sha loaded).1 }

end Life

/-! ## What holds while the replica is up -/

def Increasing (events : List StoredEvent) : Prop :=
  events.Pairwise fun a b => a.recordedAt < b.recordedAt

section

variable (sha : String → String) (B : Journal → List Row → List Row → Prop)

/-- Where the operation stands with the journal. `B` relates the journal, the applied rows and
those of them that are not known to be in it. -/
def Stands (j : Journal) (r : Replica) : Prop :=
  match r.phase with
  | .idle => ∃ parked, r.inner.pending = parked.map rowId ∧ B j r.inner.events parked
  | .flushing todo flushed next =>
    ∃ done, flushed = done.map rowId ∧ r.inner.pending = (done ++ todo).map rowId ∧
      (done ++ todo).Sublist r.inner.events ∧ B j r.inner.events todo ∧
      ∀ row ∈ next, Fresh sha r.inner row
  | .recording row =>
    r.inner.pending = [] ∧ B j r.inner.events [] ∧ Fresh sha r.inner row

/-- The events are in the order `R`, and the rows stand in the relation `B` to the journal. -/
structure Follows (R : StoredEvent → StoredEvent → Prop) (j : Journal) (r : Replica) : Prop where
  kept : r.inner.Kept sha
  ordered : r.inner.stored.Pairwise R
  stands : Stands sha B j r

end

/-- The parked rows are applied ones, later events are in order, and a new row may be parked
behind the others. -/
structure Parks (B : Journal → List Row → List Row → Prop)
    (R : StoredEvent → StoredEvent → Prop) : Prop where
  sublist : ∀ {j applied parked}, B j applied parked → parked.Sublist applied
  park : ∀ {j applied parked} (row), B j applied parked → B j (applied ++ [row]) (parked ++ [row])
  later : ∀ {a b : StoredEvent}, a.recordedAt < b.recordedAt → R a b

section

variable {sha : String → String} {B : Journal → List Row → List Row → Prop}
  {R : StoredEvent → StoredEvent → Prop} {j : Journal} {r : Replica}

theorem Fresh.withPending {inner : Inner} {row : Row} (h : Fresh sha inner row)
    (pending : List String) : Fresh sha { inner with pending := pending } row :=
  ⟨h.new, h.identified, h.acceptable, h.entry_eq, h.after⟩

theorem filter_flushed {done todo : List Row} (hn : ((done ++ todo).map rowId).Nodup) :
    ((done ++ todo).map rowId).filter (· ∉ done.map rowId) = todo.map rowId := by
  rw [map_append] at hn ⊢
  rw [filter_append, filter_eq_nil_iff.mpr, nil_append, filter_eq_self]
  · intro id hi
    have hd := (nodup_append.mp hn).2.2
    exact decide_eq_true fun hdo => hd id hdo id hi rfl
  · intro id hi
    simpa using hi

namespace Follows

theorem related (h : Follows sha B R j r) : ∃ parked, B j r.inner.events parked := by
  have hst := h.stands
  unfold Stands at hst
  split at hst
  · obtain ⟨parked, -, hB⟩ := hst
    exact ⟨parked, hB⟩
  · obtain ⟨_, -, -, -, hB, -⟩ := hst
    exact ⟨_, hB⟩
  · exact ⟨[], hst.2.1⟩

theorem imp {B' : Journal → List Row → List Row → Prop} {j' : Journal} (h : Follows sha B R j r)
    (hB : ∀ {applied parked}, B j applied parked → B' j' applied parked) :
    Follows sha B' R j' r := by
  have hst := h.stands
  refine ⟨h.kept, h.ordered, ?_⟩
  unfold Stands at hst ⊢
  split at hst
  · obtain ⟨parked, hpending, hrelated⟩ := hst
    exact ⟨parked, hpending, hB hrelated⟩
  · obtain ⟨done, hf, hpending, hsub, hrelated, hnext⟩ := hst
    exact ⟨done, hf, hpending, hsub, hB hrelated, hnext⟩
  · exact ⟨hst.1, hB hst.2.1, hst.2.2⟩

theorem of_pending_nil (h : Follows sha B R j r) (hpending : r.inner.pending = []) :
    B j r.inner.events [] := by
  have hst := h.stands
  unfold Stands at hst
  rw [hpending] at hst
  split at hst
  · obtain ⟨parked, hn, hB⟩ := hst
    rwa [map_eq_nil_iff.mp hn.symm] at hB
  · obtain ⟨_, -, hn, -, hB, -⟩ := hst
    rwa [(append_eq_nil_iff.mp (map_eq_nil_iff.mp hn.symm)).2] at hB
  · exact hst.2.1

theorem asked (h : Follows sha B R j r) {row : Row} (ha : r.asked = some row) :
    row.1.eventId = row.1.event.eventId sha ∧ row.1.event.Acceptable sha := by
  have hst := h.stands
  unfold Stands at hst
  unfold Replica.asked at ha
  split at ha
  · next hph =>
    obtain rfl := Option.some.inj ha
    rw [hph] at hst
    obtain ⟨done, -, -, hsub, -⟩ := hst
    have hsto : _ ∈ r.inner.stored :=
      mem_map_of_mem (hsub.subset (mem_append_right _ mem_cons_self))
    exact ⟨h.kept.clean.identified _ hsto, h.kept.clean.acceptable _ hsto⟩
  · next hph =>
    obtain rfl := Option.some.inj ha
    rw [hph] at hst
    exact ⟨hst.2.2.identified, hst.2.2.acceptable⟩
  · cases ha

end Follows

section

variable (hB : Parks B R) (hkept : r.inner.Kept sha) (hordered : r.inner.stored.Pairwise R)

include hB hkept hordered

theorem follows_applied {row : Row} (hr : Fresh sha r.inner row) {parked : List Row}
    (hrelated : B j (r.inner.events ++ [row]) parked) :
    Follows sha B R j
    ⟨r.replicaId, { r.inner.bookSubmitted row with pending := parked.map rowId }, .idle⟩ := by
  refine ⟨(hkept.bookSubmitted hr).withPending _, ?_, parked, rfl, hrelated⟩
  show (r.inner.enter row).stored.Pairwise R
  rw [stored_enter]
  refine pairwise_append.mpr ⟨hordered, pairwise_singleton _ _, fun a ha b hb => ?_⟩
  rw [mem_singleton.mp hb]
  exact hB.later (hr.after a ha)

theorem follows_parked {row : Row} (hr : Fresh sha r.inner row) (parked : List Row)
    (hpending : r.inner.pending = parked.map rowId)
    (hrelated : B j (r.inner.events ++ [row]) (parked ++ [row])) :
    Follows sha B R j ⟨r.replicaId, (r.inner.bookSubmitted row).park row, .idle⟩ := by
  have hnext : (r.inner.bookSubmitted row).park row =
      { r.inner.bookSubmitted row with pending := (parked ++ [row]).map rowId } := by
    have hi : r.inner.pending ++ [row.1.eventId] = (parked ++ [row]).map rowId := by
      rw [hpending, map_append]
      rfl
    exact congrArg (fun pending => { r.inner.bookSubmitted row with pending := pending }) hi
  rw [hnext]
  exact follows_applied hB hkept hordered hr hrelated

variable {done todo : List Row} {next : Option Row}
  (hpending : r.inner.pending = (done ++ todo).map rowId)
  (hsub : (done ++ todo).Sublist r.inner.events) (hrelated : B j r.inner.events todo)
  (hnext : ∀ row ∈ next, Fresh sha r.inner row)

include hpending hsub hrelated hnext

theorem follows_finish : Follows sha B R j (r.finish (done.map rowId) next).1 := by
  have hl : r.inner.pending.filter (· ∉ done.map rowId) = todo.map rowId := by
    rw [hpending]
    exact filter_flushed (hkept.nodup.sublist (hsub.map rowId))
  have hk' := hkept.withPending (todo.map rowId)
  unfold finish
  rw [hl]
  cases next with
  | none => exact ⟨hk', hordered, todo, rfl, hrelated⟩
  | some row =>
    have hr := (hnext row rfl).withPending (todo.map rowId)
    dsimp only
    split
    · next hn =>
      obtain rfl := map_eq_nil_iff.mp hn
      exact ⟨hk', hordered, rfl, hrelated, hr⟩
    · exact follows_parked (r := { r with inner := { r.inner with pending := todo.map rowId } })
        hB hk' hordered hr todo rfl (hB.park row hrelated)

theorem follows_proceed : Follows sha B R j (r.proceed todo (done.map rowId) next).1 := by
  cases todo with
  | nil => exact follows_finish hB hkept hordered hpending hsub hrelated hnext
  | cons row todo => exact ⟨hkept, hordered, done, rfl, hpending, hsub, hrelated, hnext⟩

end

namespace Follows

section

variable (h : Follows sha B R j r) (hB : Parks B R)

include h hB

theorem begin (hi : r.phase = .idle)
    {next : Option Row} (hnext : ∀ row ∈ next, Fresh sha r.inner row) :
    Follows sha B R j (r.proceed r.inner.pendingRows [] next).1 := by
  have hst := h.stands
  unfold Stands at hst
  rw [hi] at hst
  obtain ⟨parked, hpending, hrelated⟩ := hst
  have hr : r.inner.pendingRows = parked := by
    rw [pendingRows, hpending]
    exact filterMap_find h.kept.nodup fun row hro => (hB.sublist hrelated).subset hro
  rw [hr]
  have hn : r.inner.pending = ([] ++ parked).map rowId := hpending
  exact follows_proceed hB h.kept h.ordered hn (hB.sublist hrelated) hrelated hnext

theorem submit (hi : r.phase = .idle) (event : AccountingEvent) (now : Int) :
    Follows sha B R j (r.submit sha event now).1 := by
  rcases submit_cases h.kept event now with hsa | ⟨row, hr, hg⟩
  · rw [hsa]
    exact h
  · rw [hg]
    exact h.begin hB hi fun row' hr' => Option.some.inj hr' ▸ hr

theorem exchange (reply : Reply)
    (ho : ∀ row todo, r.asked = some row → B j r.inner.events (row :: todo) →
    Offered B r.inner.events row todo (record rowId j row reply))
    (hn : ∀ row, r.asked = some row → rowId row ∉ r.inner.ids → B j r.inner.events [] →
    Taken B r.inner.events row (record rowId j row reply)) :
    Follows sha B R (r.exchange j reply).1 (r.exchange j reply).2 := by
  have hst := h.stands
  unfold Stands at hst
  unfold Replica.asked at ho hn
  unfold Replica.exchange Replica.asked Journal.recordEvent
  cases hph : r.phase with
  | idle => exact h
  | flushing todo flushed next =>
    cases todo with
    | nil => exact h
    | cons row todo =>
      rw [hph] at hst ho
      obtain ⟨done, rfl, hpending, hsub, hrelated, hnext⟩ := hst
      have ho := ho row todo rfl hrelated
      dsimp only
      rcases hr : record rowId j row reply with ⟨j', answer⟩
      rw [hr] at ho
      unfold receive
      rw [hph]
      cases answer with
      | none => exact follows_finish hB h.kept h.ordered hpending hsub ho hnext
      | some fresh =>
        have hm : (done ++ [row]) ++ todo = done ++ row :: todo := by
          rw [append_assoc, singleton_append]
        have hf : done.map rowId ++ [row.1.eventId] = (done ++ [row]).map rowId := by
          rw [map_append]
          rfl
        dsimp only
        rw [hf]
        rw [← hm] at hpending hsub
        exact follows_proceed hB h.kept h.ordered hpending hsub ho hnext
  | recording row =>
    rw [hph] at hst hn
    obtain ⟨hpending, hrelated, hro⟩ := hst
    have hn := hn row rfl hro.new hrelated
    dsimp only
    rcases hr : record rowId j row reply with ⟨j', answer⟩
    rw [hr] at hn
    unfold receive
    rw [hph]
    match answer, hn with
    | none, hn => exact follows_parked hB h.kept h.ordered hro [] hpending hn
    | some false, hn => exact ⟨h.kept, h.ordered, [], hpending, hn⟩
    | some true, hn =>
      have hp' : (r.inner.bookSubmitted row).pending = ([] : List Row).map rowId := hpending
      have ha := follows_applied hB h.kept h.ordered hro hn
      rwa [← hp'] at ha

end

end Follows

/-- The journal is what a replica alone applied first, and the parked rows are the rest. -/
abbrev Live (sha : String → String) : Journal → Replica → Prop :=
  Follows sha Behind fun a b => a.recordedAt < b.recordedAt

theorem parks_behind : Parks Behind fun a b => a.recordedAt < b.recordedAt where
  sublist h := h.suffix.sublist
  park row h := h.park row
  later h := h

theorem Live.exchange (h : Live sha j r) (reply : Reply) :
    Live sha (r.exchange j reply).1 (r.exchange j reply).2 :=
  Follows.exchange h parks_behind reply (fun _ _ _ hbe => hbe.offer h.kept.nodup reply)
    fun _ _ hn hbe => hbe.offer_new hn reply

/-! ## What the journal keeps -/

structure Durable (sha : String → String) (j : Journal) : Prop where
  clean : Clean sha (j.map fst)
  increasing : Increasing (j.map fst)
  rows : (empty.enterAll sha (j.map fst)).events = j

theorem Live.durable (h : Live sha j r) : Durable sha j := by
  obtain ⟨parked, rest, he, -⟩ := h.related
  have hpr : (j.map fst).Sublist r.inner.stored := by
    rw [Inner.stored, he, map_append]
    exact sublist_append_left _ _
  exact ⟨h.kept.clean.sublist hpr, h.ordered.sublist hpr, h.kept.booked.rows_of_prefix he⟩

theorem Durable.loadEvents (h : Durable sha j) : j.loadEvents = j.map fst :=
  (h.increasing.imp fun hl => Or.inl hl).insertionSort_eq

theorem Durable.hydrate (h : Durable sha j) : (empty.hydrate sha j.loadEvents).inner =
    (empty.enterAll sha (j.map fst)).withLast
      (((j.map fst).map StoredEvent.recordedAt).foldl later none) := by
  have ha : (j.map fst).filter (·.eventId ∉ empty.ids) = j.map fst :=
    filter_eq_self.mpr fun _ _ => by simp [ids, empty]
  rw [h.loadEvents, hydrate_inner h.clean, ha]
  rfl

theorem flushPending_of_none (hi : r.phase = .idle) (hn : r.inner.pending = []) :
    r.flushPending.1 = r := by
  obtain ⟨replicaId, ⟨book, events, pending, series, last⟩, phase⟩ := r
  subst hi hn
  rfl

section

variable (h : Durable sha j)

include h

theorem Durable.clean_loadEvents : Clean sha j.loadEvents := h.loadEvents ▸ h.clean

theorem Durable.pending : (empty.hydrate sha j.loadEvents).inner.pending = [] :=
  pending_hydrate h.clean_loadEvents .empty

theorem Durable.stored : (empty.hydrate sha j.loadEvents).inner.stored = j.map fst :=
  (stored_hydrate_empty h.clean_loadEvents).trans h.loadEvents

theorem Durable.recover (replicaId : String) : ((new replicaId).recover sha (some j.loadEvents)).1 =
    ⟨replicaId, (empty.hydrate sha j.loadEvents).inner, .idle⟩ :=
  flushPending_of_none rfl h.pending

theorem Durable.live (replicaId : String) :
    Live sha j ((new replicaId).recover sha (some j.loadEvents)).1 := by
  rw [h.recover]
  refine ⟨kept_empty.hydrate h.clean_loadEvents, h.stored.symm ▸ h.increasing, [], h.pending, ?_⟩
  show Behind j (Inner.hydrate _ _ _).inner.events _
  rw [h.hydrate]
  exact h.rows.symm ▸ behind_self j

end

theorem foldl_later_of_covered {last : Option Int} {ts : List Int}
    (h : ∀ t ∈ ts, Covered last t) : ts.foldl later last = last := by
  induction ts with
  | nil => rfl
  | cons t ts ih =>
    obtain ⟨l, rfl, hle⟩ := h t mem_cons_self
    have hsa : later (some l) t = some l := congrArg some (max_eq_left hle)
    rw [foldl_cons, hsa]
    exact ih fun t' ht' => h t' (mem_cons_of_mem _ ht')

theorem hydrate_known {inner : Inner} {events : List StoredEvent} (hkept : inner.Kept sha)
    (hc : Clean sha events) (hk : ∀ s ∈ events, s ∈ inner.stored) :
    (inner.hydrate sha events).inner = inner := by
  have hn : events.filter (·.eventId ∉ inner.ids) = [] := by
    refine filter_eq_nil_iff.mpr fun s hs => ?_
    rw [ids_eq_map_stored]
    simpa using ⟨s, hk s hs, rfl⟩
  rw [hydrate_inner hc, hn, foldl_later_of_covered]
  · rfl
  · intro t ht
    obtain ⟨s, hs, rfl⟩ := mem_map.mp ht
    exact hkept.covered s (hk s hs)

theorem Durable.recover_twice (h : Durable sha j) (replicaId : String) :
    let once := ((new replicaId).recover sha (some j.loadEvents)).1
    (once.recover sha (some j.loadEvents)).1 = once := by
  intro once
  have ho : once = _ := h.recover replicaId
  have hkept : once.inner.Kept sha := (h.live replicaId).kept
  rw [ho] at hkept ⊢
  have hsa := hydrate_known hkept h.clean_loadEvents fun s hs => by
    rw [h.stored, ← h.loadEvents]
    exact hs
  unfold Replica.recover
  dsimp only at ⊢
  rw [hsa]
  exact flushPending_of_none rfl h.pending

end

/-! ## Whole lives -/

namespace Life

variable {sha : String → String} {s : Life}

structure Sound (sha : String → String) (s : Life) : Prop where
  durable : Durable sha s.journal
  live : ∀ r, s.replica = some r → Live sha s.journal r

theorem sound_up {j : Journal} {r : Replica} (h : Live sha j r) : Sound sha ⟨j, some r⟩ :=
  ⟨h.durable, fun _ hr => Option.some.inj hr ▸ h⟩

theorem sound_start (replicaId : String) : (start replicaId).Sound sha :=
  sound_up ⟨kept_empty, List.Pairwise.nil, [], rfl, behind_self []⟩

def Reads : Op → Prop
  | .recover _ readable => readable = true
  | _ => True

instance (op : Op) : Decidable (Reads op) :=
  match op with
  | .recover _ readable => inferInstanceAs (Decidable (readable = true))
  | .submit .. | .flushPending | .exchange _ | .crash => inferInstanceAs (Decidable True)

theorem Sound.step (h : s.Sound sha) {op : Op} (hre : Reads op) : (s.step sha op).Sound sha := by
  obtain ⟨j, replica⟩ := s
  cases replica with
  | none =>
    cases op with
    | recover replicaId readable =>
      obtain rfl : readable = true := hre
      exact sound_up (h.durable.live replicaId)
    | _ => exact h
  | some r =>
    have hl := h.live r rfl
    cases op with
    | submit event now =>
      dsimp only [Life.step]
      split
      · next hi => exact sound_up (hl.submit parks_behind hi event now)
      · exact h
    | flushPending =>
      dsimp only [Life.step]
      split
      · next hi => exact sound_up (hl.begin parks_behind hi fun _ hro => nomatch hro)
      · exact h
    | exchange reply => exact sound_up (Live.exchange hl reply)
    | crash => exact ⟨h.durable, fun _ hr => nomatch hr⟩
    | recover replicaId readable => exact h

abbrev LifeRun (sha : String → String) :=
  Run fun (s : Life) (op : Op) (t : Life) => t = s.step sha op

/-- While every recovery can read the journal: the journal's rows are the first that the replica
applied, in strictly increasing order of their times; the pending events are the others, or
those headed by the journal's last event, whose append was reported as failed; a new ledger
that loads the journal has the book and the series that the replica had when it had applied
them; and recovering once more changes nothing. -/
theorem journal_begins_applied {replicaId : String} {tr : List (Lib.Runs.Entry Life Op)}
    (hr : LifeRun sha (start replicaId) tr s) (hreads : ∀ e ∈ tr, Reads e.label) :
    let rebuilt := (empty.hydrate sha s.journal.loadEvents).inner
    rebuilt.events = s.journal ∧ Increasing rebuilt.stored ∧
      (∀ r, s.replica = some r → Increasing r.inner.stored ∧
        ∃ rest, r.inner.events = s.journal ++ rest ∧
          r.inner.SameBook (rebuilt.enterAll sha (rest.map Prod.fst)) ∧
          (r.phase = .idle → r.inner.pending = rest.map rowId ∨ ∃ before last,
            s.journal = before ++ [last] ∧ r.inner.pending = (last :: rest).map rowId)) ∧
      (∀ e ∈ tr, ∀ r, e.post.replica = some r → r.inner.events = s.journal →
        r.inner.SameBook rebuilt) ∧
      ∀ id, let once := ((new id).recover sha (some s.journal.loadEvents)).1
        (once.recover sha (some s.journal.loadEvents)).1 = once := by
  intro rebuilt
  have hste : ∀ s op t, Sound sha s → Reads op → t = s.step sha op →
      t.Sound sha := fun s op t h ho hs => hs ▸ h.step ho
  have hso : s.Sound sha := hr.invariant_of_entries (P := fun e => Reads e.label) hste
    hreads (sound_start replicaId)
  have hre : rebuilt = _ := hso.durable.hydrate
  have hsa : ∀ rest, (empty.enterAll sha (s.journal.map Prod.fst ++ rest)).SameBook
      (rebuilt.enterAll sha rest) := by
    intro rest
    rw [hre, enterAll_withLast, enterAll_append]
    exact ⟨rfl, rfl, rfl⟩
  refine ⟨?_, ?_, ?_, ?_, hso.durable.recover_twice⟩
  · rw [hre]
    exact hso.durable.rows
  · exact hso.durable.stored.symm ▸ hso.durable.increasing
  · intro r hup
    have hl := hso.live r hup
    refine ⟨hl.ordered, ?_⟩
    obtain ⟨parked, rest, hev, -⟩ := hl.related
    refine ⟨rest, hev, ?_, fun hi => ?_⟩
    · have hbo := hl.kept.booked
      unfold Inner.Booked at hbo
      rw [Inner.stored, hev, map_append] at hbo
      exact hbo.trans (hsa _)
    · have hst := hl.stands
      unfold Stands at hst
      rw [hi] at hst
      obtain ⟨parked, hpending, rest', he', hpa⟩ := hst
      obtain rfl := append_cancel_left (hev.symm.trans he')
      rcases hpa with rfl | ⟨before, last, hj, rfl⟩
      · exact .inl hpending
      · exact .inr ⟨before, last, hj, hpending⟩
  · intro e he r hup hev
    obtain ⟨hpr, hs⟩ := hr.invariant_before (P := fun e => Reads e.label) hste hreads
      (sound_start replicaId) he
    have hl := (hste _ _ _ hpr (hreads e he) hs).live r hup
    have hbo := hl.kept.booked
    unfold Inner.Booked at hbo
    rw [Inner.stored, hev] at hbo
    have hn := hsa []
    rw [append_nil] at hn
    exact hbo.trans hn

def sampleFill (side : EventSide) (quantity quoteAmount : ℚ) (referenceId : String) :
    AccountingEvent :=
  fillEvent ⟨.sniper, .paper, "w", "s", "TOKEN", "SOL", .paper⟩ side quantity 1 quoteAmount 0
    referenceId none none 0 ""

private def lives (ops : List Op) : Life := ops.foldl (step id) (start "a")

private def crashing : List Op := [.submit (sampleFill .buy 10 100 "b") 0, .exchange .answered,
    .submit (sampleFill .sell 4 80 "s") 1, .exchange .unanswered, .crash, .recover "a" true]

theorem journal_begins_applied_crash :
    ((lives crashing).journal.map fun row => row.1.recordedAt) = [0, 1000] ∧
      ∀ r, (lives crashing).replica = some r → Increasing r.inner.stored ∧
        ∃ rest, r.inner.events = (lives crashing).journal ++ rest := by
  have hru : LifeRun id (start "a") _ (lives crashing) := run_history (step id) _ _
  obtain ⟨-, -, hup, -⟩ := journal_begins_applied hru (by decide +kernel)
  refine ⟨by decide +kernel, fun r hr => ?_⟩
  obtain ⟨hi, rest, he, -⟩ := hup r hr
  exact ⟨hi, rest, he⟩

/-- An event whose append was reported as failed is in the journal and is pending all the same;
and after a recovery that could not read the journal, the replica has not applied what the
journal begins with. -/
theorem pending_in_journal_and_blind_recovery :
    (∃ tr s r, LifeRun id (start "a") tr s ∧ s.replica = some r ∧ r.phase = .idle ∧
      s.journal ≠ [] ∧ r.inner.events = s.journal ∧ r.inner.pending = s.journal.map rowId) ∧
    ∃ tr s r, LifeRun id (start "a") tr s ∧ s.replica = some r ∧ r.phase = .idle ∧
      r.inner.pending = [] ∧ ¬ s.journal <+: r.inner.events := by
  constructor
  · let ops : List Op := [.submit (sampleFill .buy 10 100 "b") 0, .exchange .unanswered]
    have hf : ∃ r ∈ (lives ops).replica, r.phase = .idle ∧ (lives ops).journal ≠ [] ∧
        r.inner.events = (lives ops).journal ∧
        r.inner.pending = (lives ops).journal.map rowId := by decide +kernel
    obtain ⟨r, hr, hf⟩ := hf
    exact ⟨_, lives ops, r, run_history (step id) _ _, hr, hf⟩
  · let ops : List Op := [.submit (sampleFill .buy 10 100 "b") 0, .exchange .answered, .crash,
      .recover "a" false, .submit (sampleFill .buy 5 50 "c") 1, .exchange .answered]
    have hf : ∃ r ∈ (lives ops).replica, r.phase = .idle ∧ r.inner.pending = [] ∧
        ¬ (lives ops).journal <+: r.inner.events := by decide +kernel
    obtain ⟨r, hr, hf⟩ := hf
    exact ⟨_, lives ops, r, run_history (step id) _ _, hr, hf⟩

end Life

end SniperBot.Accounting
