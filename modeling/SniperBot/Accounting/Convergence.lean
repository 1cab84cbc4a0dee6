import Mathlib.Logic.Function.Basic
import SniperBot.Accounting.Replay

/-!
# Replicas that share one journal

A refresh looks at the pending events, loads the journal and merges what it loaded, and other
calls may fall in between. Merged events go behind the applied ones, while the journal is
loaded in the order of the times of record. Two replicas agree as long as these orders do.
-/

namespace SniperBot.Accounting

open Lib.Runs List Or
open Lib.WriteBehind

/-- A call of `refresh_from_store` under way. -/
inductive Refresh (ι : Type) where
  /-- Nothing was pending. -/
  | checked (i : ι)
  | loaded (i : ι) (events : List StoredEvent)

structure Cluster (ι : Type) where
  journal : Journal
  replica : ι → Replica
  refreshes : List (Refresh ι)

namespace Cluster

inductive Op (ι : Type) where
  | submit (i : ι) (event : AccountingEvent) (now : Int)
  | flushPending (i : ι)
  /-- The journal treats the call that the replica waits for. -/
  | exchange (i : ι) (reply : Reply)
  | check (i : ι)
  /-- The refresh at a place of the list loads the journal, if that can be read. -/
  | load (n : ℕ) (readable : Bool)
  | merge (n : ℕ)

def start {ι : Type} (replicaId : ι → String) : Cluster ι := ⟨[], fun i => .new (replicaId i), []⟩

variable {ι : Type} [DecidableEq ι]

def set (s : Cluster ι) (i : ι) (r : Replica) : Cluster ι :=
  { s with replica := Function.update s.replica i r }

variable (sha : String → String) (s : Cluster ι)

/-- A call that needs the lock of a replica waits while another one holds it. -/
def step : Op ι → Cluster ι
  | .submit i event now =>
    if (s.replica i).phase = .idle then s.set i ((s.replica i).submit sha event now).1 else s
  | .flushPending i =>
    if (s.replica i).phase = .idle then s.set i (s.replica i).flushPending.1 else s
  | .exchange i reply =>
    let out := (s.replica i).exchange s.journal reply
    { s.set i out.2 with journal := out.1 }
  | .check i =>
    if (s.replica i).phase = .idle ∧ (s.replica i).inner.pending = [] then
      { s with refreshes := s.refreshes ++ [.checked i] }
    else s
  | .load n readable =>
    match s.refreshes[n]? with
    | some (.checked i) =>
      if readable then { s with refreshes := s.refreshes.set n (.loaded i s.journal.loadEvents) }
      else { s with refreshes := s.refreshes.eraseIdx n }
    | _ => s
  | .merge n =>
    match s.refreshes[n]? with
    | some (.loaded i events) =>
      let r := s.replica i
      if r.phase = .idle then
        { s.set i { r with inner := (r.inner.hydrate sha events).inner } with
          refreshes := s.refreshes.eraseIdx n }
      else s
    | _ => s

abbrev ClusterRun := Run fun (s : Cluster ι) (op : Op ι) (t : Cluster ι) => t = s.step sha op

variable (op : Op ι)

def merged : Option (ι × List StoredEvent) :=
  match op with
  | .merge n =>
    match s.refreshes[n]? with
    | some (.loaded i events) => if (s.replica i).phase = .idle then some (i, events) else none
    | _ => none
  | _ => none

def answered : Option (ι × Row) :=
  match op with
  | .exchange i .answered => (s.replica i).asked.map fun row => (i, row)
  | _ => none

/-- What is merged and new comes after everything applied, and a parked event that the journal
takes for known is the event that the journal has. -/
def Orderly : Prop := (∀ m ∈ s.merged op, ∀ a ∈ (s.replica m.1).inner.stored, ∀ b ∈ m.2,
    b.eventId ∉ (s.replica m.1).inner.ids → a.Earlier b) ∧
  ∀ m ∈ s.answered op, m.2 ∈ (s.replica m.1).inner.events →
    ∀ other ∈ s.journal, rowId other = rowId m.2 → other.1 = m.2.1

instance : Decidable (s.Orderly op) := inferInstanceAs (Decidable (_ ∧ _))

end Cluster

/-! ## One replica of several -/

/-- What a replica has applied is parked or in the journal, and includes the events `X`. -/
structure Shares (X : String → Prop) (j : Journal) (applied parked : List Row) : Prop where
  sublist : parked.Sublist applied
  journaled : ∀ row ∈ applied, row ∈ parked ∨ row.1 ∈ j.map Prod.fst
  has : ∀ id, X id → id ∈ applied.map rowId

section

variable {sha : String → String} {j j' : Journal} {X Y : String → Prop} {r : Replica}
  {applied parked todo : List Row} {row : Row} {events : List StoredEvent}

theorem Shares.mono (h : Shares X j applied parked)
    (hj : ∀ a ∈ j.map Prod.fst, a ∈ j'.map Prod.fst) : Shares X j' applied parked :=
  { h with journaled := fun row hr => (h.journaled row hr).imp_right (hj _) }

theorem mem_map_snoc (j : Journal) (row : Row) :
    ∀ a ∈ j.map Prod.fst, a ∈ (j ++ [row]).map Prod.fst := by
  intro a ha
  rw [map_append]
  exact mem_append_left _ ha

theorem parks_shares : Parks (Shares X) StoredEvent.Earlier where
  sublist h := h.sublist
  park {_ _ _} row h :=
    { sublist := h.sublist.append (List.Sublist.refl _)
      journaled := fun row' hr' => by
        rcases mem_append.mp hr' with hold | hn
        · exact (h.journaled row' hold).imp_left (mem_append_left _)
        · exact inl (mem_append_right _ hn)
      has := fun id hi => by
        rw [map_append]
        exact mem_append_left _ (h.has id hi) }
  later h := inl h

theorem Shares.unpark (h : Shares X j applied (row :: todo)) (hi : row.1 ∈ j.map Prod.fst) :
    Shares X j applied todo where
  sublist := (sublist_cons_self row todo).trans h.sublist
  journaled := by
    intro row' hr'
    rcases h.journaled row' hr' with hpa | hj
    · rcases mem_cons.mp hpa with rfl | hto
      · exact inr hi
      · exact inl hto
    · exact inr hj
  has := h.has

theorem mem_snoc_journal (j : Journal) (row : Row) : row.1 ∈ (j ++ [row]).map Prod.fst :=
  mem_map_of_mem (mem_append_right _ (mem_singleton_self row))

theorem Shares.offer (h : Shares X j applied (row :: todo)) {reply : Reply}
    (how : reply = .answered → ∀ other ∈ j, rowId other = rowId row → other.1 = row.1) :
    Offered (Shares X) applied row todo (record rowId j row reply) := by
  by_cases hk : rowId row ∈ j.map rowId
  · cases reply with
    | answered =>
      obtain ⟨other, ho, he⟩ := mem_map.mp hk
      rw [(record_of_known hk).1]
      refine h.unpark ?_
      rw [← how rfl other ho he]
      exact mem_map_of_mem ho
    | lost => exact h
    | unanswered =>
      rw [(record_of_known hk).2]
      exact h
  · have hg := h.mono (mem_map_snoc j row)
    cases reply with
    | answered =>
      rw [(record_of_new hk).1]
      exact hg.unpark (mem_snoc_journal j row)
    | lost => exact h
    | unanswered =>
      rw [(record_of_new hk).2]
      exact hg

theorem Shares.offer_new (h : Shares X j applied []) (reply : Reply) :
    Taken (Shares X) applied row (record rowId j row reply) := by
  have hpa : Shares X j (applied ++ [row]) [row] := parks_shares.park row h
  by_cases hk : rowId row ∈ j.map rowId
  · cases reply with
    | answered =>
      rw [(record_of_known hk).1]
      exact h
    | lost => exact hpa
    | unanswered =>
      rw [(record_of_known hk).2]
      exact hpa
  · have hg := hpa.mono (mem_map_snoc j row)
    cases reply with
    | answered =>
      rw [(record_of_new hk).1]
      exact hg.unpark (mem_snoc_journal j row)
    | lost => exact hpa
    | unanswered =>
      rw [(record_of_new hk).2]
      exact hg

/-- The replica has applied the events `X`, all its events in the order in which a journal is
loaded, and what is not pending is in the journal. -/
abbrev Node (sha : String → String) (j : Journal) (X : String → Prop) : Replica → Prop :=
  Follows sha (Shares X) StoredEvent.Earlier j

/-! ## The journal and what is loaded from it -/

structure Loaded (sha : String → String) (j : Journal) (events : List StoredEvent) :
    Prop where
  clean : Clean sha events
  sorted : events.Pairwise StoredEvent.Earlier
  journaled : ∀ b ∈ events, b ∈ j.map Prod.fst

theorem Loaded.mono (h : Loaded sha j events)
    (hj : ∀ a ∈ j.map Prod.fst, a ∈ j'.map Prod.fst) : Loaded sha j' events :=
  { h with journaled := fun b hb => hj b (h.journaled b hb) }

instance : Std.Total StoredEvent.Earlier where
  total a b := by
    rcases lt_trichotomy a.recordedAt b.recordedAt with hl | he | hg
    · exact inl (inl hl)
    · exact (le_total a.eventId b.eventId).imp (fun hle => inr ⟨he, hle⟩)
        fun hle => inr ⟨he.symm, hle⟩
    · exact inr (inl hg)

instance : IsTrans StoredEvent StoredEvent.Earlier where
  trans a b c hab hbc := by
    rcases hab with hab | ⟨hab, hi⟩ <;> rcases hbc with hbc | ⟨hbc, hi'⟩
    · exact inl (hab.trans hbc)
    · exact inl (hbc ▸ hab)
    · exact inl (hab ▸ hbc)
    · exact inr ⟨hab.trans hbc, hi.trans hi'⟩

theorem loadEvents_perm (j : Journal) : j.loadEvents.Perm (j.map Prod.fst) := perm_insertionSort _ _

theorem loaded_loadEvents (hc : Clean sha (j.map Prod.fst)) : Loaded sha j j.loadEvents where
  clean := ⟨((loadEvents_perm j).map _).nodup_iff.mpr hc.nodup,
      fun s hs => hc.identified s ((loadEvents_perm j).mem_iff.mp hs),
      fun s hs => hc.acceptable s ((loadEvents_perm j).mem_iff.mp hs)⟩
  sorted := pairwise_insertionSort _ _
  journaled := fun _ hb => (loadEvents_perm j).mem_iff.mp hb

theorem Node.hydrate (h : Node sha j X r) (hi : r.phase = .idle) (hl : Loaded sha j events)
    (hlas : ∀ a ∈ r.inner.stored, ∀ b ∈ events, b.eventId ∉ r.inner.ids → a.Earlier b)
    (hY : ∀ id, Y id → X id ∨ id ∈ events.map StoredEvent.eventId) :
    Node sha j Y { r with inner := (r.inner.hydrate sha events).inner } := by
  obtain ⟨rest, he, hrest⟩ := events_hydrate hl.clean r.inner
  have hst := h.stands
  unfold Stands at hst
  rw [hi] at hst
  obtain ⟨parked, hpending, hsh⟩ := hst
  refine ⟨h.kept.hydrate hl.clean, ?_, ?_⟩
  · show (Inner.stored _).Pairwise _
    rw [stored_hydrate hl.clean]
    refine pairwise_append.mpr ⟨h.ordered, hl.sorted.filter _, fun a ha b hb => ?_⟩
    obtain ⟨hb, hla⟩ := mem_filter.mp hb
    exact hlas a ha b hb (of_decide_eq_true hla)
  · unfold Stands
    rw [hi]
    refine ⟨parked, (pending_hydrate hl.clean r.inner).trans hpending, ?_⟩
    rw [he]
    refine ⟨hsh.sublist.trans (sublist_append_left _ _), fun row hr => ?_, fun id hid => ?_⟩
    · rcases mem_append.mp hr with hold | hn
      · exact hsh.journaled row hold
      · have hm := mem_map_of_mem (f := Prod.fst) hn
        rw [hrest] at hm
        exact inr (hl.journaled _ (mem_of_mem_filter hm))
    · rw [map_append, mem_append]
      by_cases hk : id ∈ r.inner.events.map rowId
      · exact inl hk
      · rcases hY id hid with hx | hlo
        · exact (hk (hsh.has id hx)).elim
        · obtain ⟨b, hb, rfl⟩ := mem_map.mp hlo
          have hm : b ∈ rest.map Prod.fst := by
            rw [hrest]
            exact mem_filter.mpr ⟨hb, decide_eq_true hk⟩
          obtain ⟨row, hr, rfl⟩ := mem_map.mp hm
          exact inr (mem_map_of_mem hr)

theorem Node.stored_eq (h : Node sha j X r) (hc : Clean sha (j.map Prod.fst))
    (hX : ∀ b ∈ j.map Prod.fst, X b.eventId) (hpending : r.inner.pending = []) :
    r.inner.stored = j.loadEvents := by
  have hsh := h.of_pending_nil hpending
  have hi : ∀ a ∈ r.inner.stored, a ∈ j.map Prod.fst := by
    intro a ha
    obtain ⟨row, hr, rfl⟩ := mem_map.mp ha
    exact (hsh.journaled row hr).resolve_left not_mem_nil
  have hsa : ∀ a, a ∈ r.inner.stored ↔ a ∈ j.loadEvents := by
    intro a
    rw [(loadEvents_perm j).mem_iff]
    refine ⟨hi a, fun ha => ?_⟩
    obtain ⟨row, hr, he⟩ := mem_map.mp (hsh.has _ (hX a ha))
    have hst : row.1 ∈ r.inner.stored := mem_map_of_mem hr
    exact inj_on_of_nodup_map hc.nodup (hi _ hst) ha he ▸ hst
  have hl := loaded_loadEvents hc
  refine List.Perm.eq_of_pairwise ?_ h.ordered hl.sorted
    ((perm_ext_iff_of_nodup h.kept.clean.nodup.of_map hl.clean.nodup.of_map).mpr hsa)
  intro a b ha hb hab hba
  have hid : a.eventId = b.eventId := by
    rcases hab with hlt | ⟨he, hle⟩ <;> rcases hba with hlt' | ⟨he', hl'⟩
    · omega
    · omega
    · omega
    · exact le_antisymm hle hl'
  exact inj_on_of_nodup_map hl.clean.nodup ((hsa a).mp ha) hb hid

end

/-! ## Whole runs -/

namespace Cluster

variable {ι : Type} {sha : String → String} {s : Cluster ι} {X Y : ι → String → Prop}

/-- Each replica `i` has the events `X i`. -/
structure Sound (sha : String → String) (X : ι → String → Prop) (s : Cluster ι) :
    Prop where
  clean : Clean sha (s.journal.map Prod.fst)
  node : ∀ i, Node sha s.journal (X i) (s.replica i)
  loaded : ∀ i events, .loaded i events ∈ s.refreshes → Loaded sha s.journal events

theorem sound_start (replicaId : ι → String) (hX : ∀ i id, ¬ X i id) :
    (start replicaId).Sound sha X :=
  ⟨kept_empty.clean, fun i => ⟨kept_empty, List.Pairwise.nil, [], rfl, List.Sublist.refl _,
      fun _ hr => (not_mem_nil hr).elim, fun id hi => (hX i id hi).elim⟩,
    fun _ _ h => (not_mem_nil h).elim⟩

theorem Sound.refreshes (h : s.Sound sha X) {refreshes : List (Refresh ι)}
    (hl : ∀ i events, .loaded i events ∈ refreshes →
    .loaded i events ∈ s.refreshes ∨ events = s.journal.loadEvents) :
    Sound sha X { s with refreshes := refreshes } := by
  refine { h with loaded := fun i events hm => ?_ }
  rcases hl i events hm with hold | rfl
  · exact h.loaded i events hold
  · exact loaded_loadEvents h.clean

variable [DecidableEq ι]

theorem Sound.set (h : s.Sound sha X) {i : ι} {r : Replica}
    (hX : ∀ k, k ≠ i → ∀ id, Y k id → X k id) (hr : Node sha s.journal (Y i) r) :
    (s.set i r).Sound sha Y := by
  refine { h with node := fun k => ?_ }
  show Node _ _ _ (Function.update s.replica i r k)
  by_cases hk : k = i
  · subst hk
    rw [Function.update_self]
    exact hr
  · rw [Function.update_of_ne hk]
    exact (h.node k).imp fun hk' => { hk' with has := fun id hi => hk'.has id (hX k hk id hi) }

theorem Sound.set_same (h : s.Sound sha X) {i : ι} {r : Replica}
    (hr : Node sha s.journal (X i) r) : (s.set i r).Sound sha X :=
  h.set (fun _ _ _ hi => hi) hr

theorem Sound.exchange (h : s.Sound sha X) (i : ι) (reply : Reply)
    (ho : s.Orderly (.exchange i reply)) :
    (s.step sha (.exchange i reply)).Sound sha X := by
  have hn := (h.node i).exchange parks_shares reply
    (fun row todo hask hsh => hsh.offer fun hr => ?_)
    fun row _ _ hsh => hsh.offer_new reply
  · dsimp only [step]
    unfold Replica.exchange at hn ⊢
    cases hask : (s.replica i).asked with
    | none => exact h.set_same (h.node i)
    | some row =>
      rw [hask] at hn
      let j' := (s.journal.recordEvent row reply).1
      have hc : j' = s.journal ∨ rowId row ∉ s.journal.map rowId ∧ j' = s.journal ++ [row] :=
        record_cases reply
      have hsub : ∀ a ∈ s.journal.map Prod.fst, a ∈ j'.map Prod.fst := by
        rcases hc with hj | ⟨-, hj⟩
        · rw [hj]
          exact fun _ ha => ha
        · rw [hj]
          exact mem_map_snoc s.journal row
      have hcl : Clean sha (j'.map Prod.fst) := by
        rcases hc with hj | ⟨hne, hj⟩
        · rw [hj]
          exact h.clean
        · obtain ⟨hi, hac⟩ := (h.node i).asked hask
          rw [hj, map_append]
          refine h.clean.snoc ?_ hi hac
          rw [map_map]
          exact hne
      have hg : Sound sha X { s with journal := j' } :=
        ⟨hcl, fun k => (h.node k).imp fun hk => hk.mono hsub,
          fun k events hm => (h.loaded k events hm).mono hsub⟩
      exact hg.set_same hn
  · subst hr
    refine ho.2 (i, row) ?_ (hsh.sublist.subset mem_cons_self)
    dsimp only [answered]
    rw [hask]
    rfl

theorem Sound.step (h : s.Sound sha X) {op : Op ι} (ho : s.Orderly op)
    (hY : ∀ i id, Y i id → X i id ∨ ∃ m ∈ s.merged op, m.1 = i ∧ id ∈ m.2.map StoredEvent.eventId) :
    (s.step sha op).Sound sha Y := by
  have hsa : s.merged op = none → s.Sound sha Y := by
    intro hnon
    refine { h with node := fun i => (h.node i).imp fun hi => { hi with has := fun id hid => ?_ } }
    refine hi.has id ((hY i id hid).resolve_right ?_)
    rw [hnon]
    rintro ⟨m, hm, -⟩
    cases hm
  cases op with
  | submit i event now =>
    dsimp only [Cluster.step]
    split
    · exact (hsa rfl).set_same (((hsa rfl).node i).submit parks_shares ‹_› event now)
    · exact hsa rfl
  | flushPending i =>
    dsimp only [Cluster.step]
    split
    · exact (hsa rfl).set_same (((hsa rfl).node i).begin parks_shares ‹_› fun _ hr => nomatch hr)
    · exact hsa rfl
  | exchange i reply => exact (hsa rfl).exchange i reply ho
  | check i =>
    dsimp only [Cluster.step]
    split
    · refine (hsa rfl).refreshes fun k events hme => inl ?_
      rcases mem_append.mp hme with hme | hme
      · exact hme
      · cases mem_singleton.mp hme
    · exact hsa rfl
  | load n readable =>
    dsimp only [Cluster.step]
    split
    · split
      · refine (hsa rfl).refreshes fun k events hme => ?_
        rcases mem_or_eq_of_mem_set hme with hme | he
        · exact inl hme
        · cases he
          exact inr rfl
      · exact (hsa rfl).refreshes fun k events hme => inl (mem_of_mem_eraseIdx hme)
    · exact hsa rfl
  | merge n =>
    dsimp only [Orderly, merged] at hsa hY ho
    dsimp only [Cluster.step]
    rcases hn : s.refreshes[n]? with _ | ⟨i⟩ | ⟨i, events⟩
    · exact hsa (by rw [hn])
    · exact hsa (by rw [hn])
    · rw [hn] at hsa hY ho
      dsimp only at hY ho ⊢
      by_cases hidl : (s.replica i).phase = .idle
      · rw [if_pos hidl] at hY ho ⊢
        have hlo := h.loaded i events (mem_of_getElem? hn)
        have hl : ∀ id, Y i id → X i id ∨ id ∈ events.map StoredEvent.eventId := by
          intro id hid
          refine (hY i id hid).imp_right ?_
          rintro ⟨_, ⟨⟩, -, hid⟩
          exact hid
        have hno := (h.node i).hydrate hidl hlo (ho.1 _ rfl) hl
        refine (h.set (fun k hk id hid => ?_) hno).refreshes
          fun _ _ hme => inl (mem_of_mem_eraseIdx hme)
        refine (hY k id hid).resolve_right ?_
        rintro ⟨m, hm, rfl, -⟩
        exact hk (congrArg Prod.fst (Option.some.inj hm)).symm
      · rw [if_neg hidl]
        exact hsa (if_neg hidl)

variable (tr : List (Lib.Runs.Entry (Cluster ι) (Op ι)))

def Learned (i : ι) (id : String) : Prop :=
  ∃ e ∈ tr, ∃ m ∈ e.pre.merged e.label, m.1 = i ∧ id ∈ m.2.map StoredEvent.eventId

def Refreshed (s : Cluster ι) (i : ι) : Prop :=
  ∃ e ∈ tr, e.pre.merged e.label = some (i, s.journal.loadEvents)

instance  (s : Cluster ι) (i : ι) : Decidable (Refreshed tr s i) :=
  inferInstanceAs (Decidable (∃ e ∈ tr, _ = _))

section

variable {replicaId : ι → String} {tr : List (Lib.Runs.Entry (Cluster ι) (Op ι))}
  (hr : ClusterRun sha (start replicaId) tr s)

include hr

theorem sound_of_run (ho : ∀ e ∈ tr, e.pre.Orderly e.label) : s.Sound sha (Learned tr) := by
  refine hr.invariant_history (I := fun tr s => Sound sha (Learned tr) s)
    (P := fun e => e.pre.Orderly e.label) ?_ ho (sound_start replicaId ?_)
  · rintro tr s op t h hop rfl
    refine h.step hop ?_
    rintro i id ⟨e, he, hl⟩
    rcases mem_append.mp he with he | he
    · exact inl ⟨e, he, hl⟩
    · rw [mem_singleton.mp he] at hl
      exact inr hl
  · rintro i id ⟨e, he, -⟩
    exact not_mem_nil he

/-- While merged events always come after the applied ones, and no replica parks an event that
another one has journaled: two replicas that have merged what the journal holds and have
nothing pending have the same book and the same series, those of a new ledger that loads the
journal. -/
theorem refreshed_replicas_agree (horderly : ∀ e ∈ tr, e.pre.Orderly e.label) {i k : ι}
    (hi : Refreshed tr s i) (hk : Refreshed tr s k)
    (hpi : (s.replica i).inner.pending = []) (hpk : (s.replica k).inner.pending = []) :
    let replay := (Inner.empty.hydrate sha s.journal.loadEvents).inner
    (s.replica i).inner.book = (s.replica k).inner.book ∧
      (s.replica i).inner.series = (s.replica k).inner.series ∧
      (s.replica i).inner.book = replay.book ∧ (s.replica i).inner.series = replay.series := by
  intro replay
  have hso := sound_of_run hr horderly
  have hc := (loaded_loadEvents hso.clean).clean
  have hre : replay.Booked sha := (kept_empty.hydrate hc).booked
  unfold Inner.Booked at hre
  rw [stored_hydrate_empty hc] at hre
  have ha : ∀ n, Refreshed tr s n → (s.replica n).inner.pending = [] →
      (s.replica n).inner.book = replay.book ∧ (s.replica n).inner.series = replay.series := by
    rintro n ⟨e, he, hm⟩ hpending
    have hst := (hso.node n).stored_eq hso.clean (fun b hb =>
      ⟨e, he, _, hm, rfl, mem_map_of_mem ((loadEvents_perm s.journal).mem_iff.mpr hb)⟩) hpending
    have hbo := (hso.node n).kept.booked
    unfold Inner.Booked at hbo
    rw [hst] at hbo
    exact ⟨hbo.book_eq.trans hre.book_eq.symm, hbo.series_eq.trans hre.series_eq.symm⟩
  obtain ⟨hboo, hse⟩ := ha i hi hpi
  obtain ⟨hb', hs'⟩ := ha k hk hpk
  exact ⟨hboo.trans hb'.symm, hse.trans hs'.symm, hboo, hse⟩

end

private def shared (ops : List (Op Bool)) : Cluster Bool :=
  ops.foldl (step id) (start fun i => if i then "a" else "b")

private def refresh (i : Bool) : List (Op Bool) := [.check i, .load 0 true, .merge 0]

private def inOrder : List (Op Bool) :=
  [.submit true (Life.sampleFill .buy 10 100 "b") 0, .exchange true .answered] ++ refresh false ++
    [.submit false (Life.sampleFill .sell 4 80 "s") 1, .exchange false .answered] ++
    refresh true ++ refresh false

private def unseen : List (Op Bool) :=
  [.submit true (Life.sampleFill .buy 10 100 "b") 0, .exchange true .answered,
    .submit false (Life.sampleFill .sell 4 80 "s") 1, .exchange false .answered] ++
    refresh true ++ refresh false

theorem refreshed_replicas_agree_in_order :
    ((shared inOrder).replica true).inner.series = ((shared inOrder).replica false).inner.series ∧
      ((shared inOrder).replica true).inner.series.total.lookup "SOL" = some 40 := by
  have hr : ClusterRun id (start fun i => if i then "a" else "b") _ (shared inOrder) :=
    run_history (step id) _ _
  have ha := refreshed_replicas_agree hr (by decide +kernel) (i := true) (k := false)
    (by decide +kernel) (by decide +kernel) (by decide +kernel) (by decide +kernel)
  exact ⟨ha.2.1, by decide +kernel⟩

/-- Both replicas have refreshed after the last append and have nothing pending. The first one
has realized 40 on the sale, and so has a replay of the journal; the second one has realized
all of its proceeds. -/
theorem refreshed_replicas_differ :
    ∃ tr s, ClusterRun id (start fun i => if i then "a" else "b") tr s ∧
      Refreshed tr s true ∧ Refreshed tr s false ∧
      (s.replica true).inner.pending = [] ∧ (s.replica false).inner.pending = [] ∧
      (Inner.empty.hydrate id s.journal.loadEvents).inner.series.total.lookup "SOL" = some 40 ∧
      (s.replica true).inner.series.total.lookup "SOL" = some 40 ∧
      (s.replica false).inner.series.total.lookup "SOL" = some 80 :=
  ⟨_, shared unseen, run_history (step id) _ _, by decide +kernel⟩

end Cluster

end SniperBot.Accounting
