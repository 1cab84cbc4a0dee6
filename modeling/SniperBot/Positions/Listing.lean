import SniperBot.Lib.Interleaving
import SniperBot.Positions.Book

/-!
# Listing every position once

`upsert_position` looks whether an id is new, writes the row, and puts a new id in the order, each
under a lock of its own. `restore_positions` holds both locks throughout.
-/

namespace SniperBot.Positions.Listing

open Lib.Runs Lib.Interleaving List Book

inductive Section where
  | upsertRead (p : Position)
  | upsertInsert (p : Position) (isNew : Bool)
  | upsertOrder (id : String)
  | restore (rows : List Position)
  deriving DecidableEq

def restoreRow (b : Book) (p : Position) : Book :=
  (if (b.position p.id).isNone then b.pushOrder p.id else b).insert p

def restorePositions : List Position → Book → Book × ℕ
  | [], b => (b, 0)
  | p :: rows, b =>
    let (b', inserted) := restorePositions rows (restoreRow b p)
    (b', inserted + (b.position p.id).isNone.toNat)

inductive Reply where
  | upserted
  | restored (inserted : ℕ)

def act : Section → Book → Book × (Section ⊕ Reply)
  | .upsertRead p, b => (b, .inl (.upsertInsert p (b.position p.id).isNone))
  | .upsertInsert p isNew, b =>
    (b.insert p, if isNew then .inl (.upsertOrder p.id) else .inr .upserted)
  | .upsertOrder id, b => (b.pushOrder id, .inr .upserted)
  | .restore rows, b => ((restorePositions rows b).1, .inr (.restored (restorePositions rows b).2))

inductive IsCall : Section → Prop
  | upsert (p : Position) : IsCall (.upsertRead p)
  | restore (rows : List Position) : IsCall (.restore rows)

/-- The id that a call has found to be new and has yet to put in the order. -/
def Section.claims : Section → Option String
  | .upsertInsert p true => some p.id
  | .upsertOrder id => some id
  | _ => none

/-- The section that runs may put `id` in the order. -/
def Lists (b : Book) (id : String) : Section → Prop
  | .upsertOrder id' => id = id'
  | .restore rows => b.position id = none ∧ id ∈ rows.map Position.id
  | _ => False

/-- Nobody puts an id in the order that another call has found to be new. -/
def Considerate (b : Book) (k k' : Section) : Prop := ∀ id ∈ k'.claims, ¬ Lists b id k

instance (b : Book) (k k' : Section) : Decidable (Considerate b k k') := by
  unfold Considerate
  cases k <;> unfold Lists <;> infer_instance

/-- Rows stand under their ids, and the order names ids of rows, each once. -/
structure Ordered (b : Book) : Prop where
  keyed : ∀ id p, b.position id = some p → p.id = id
  stored : ∀ id ∈ b.order, b.position id ≠ none
  nodup : b.order.Nodup

structure Claimed (b : Book) (k : Section) : Prop where
  unlisted : ∀ id ∈ k.claims, id ∉ b.order
  stored : ∀ id, k = .upsertOrder id → b.position id ≠ none

variable {b b' : Book} {p : Position} {id : String} {k k' : Section}

theorem Ordered.perm_keys (h : Ordered b) :
    (b.allPositions.map Position.id).Perm b.positions.keys := by
  have hl : (b.order.reverse.filterMap b.position).map Position.id =
      b.order.reverse.filter fun id => (b.position id).isSome := by
    rw [map_filterMap, ← filterMap_eq_filter]
    refine filterMap_congr fun id _ => ?_
    cases hro : b.position id with
    | none => simp [Option.guard, hro]
    | some p => simp [Option.guard, hro, h.keyed id p hro]
  have hr : ((b.positions.entries.filter (·.1 ∉ b.order)).map Sigma.snd).map Position.id =
      b.positions.keys.filter (· ∉ b.order) := by
    rw [map_map, AList.keys, keys, filter_map]
    refine map_congr_left fun e he => h.keyed e.1 e.2 ?_
    exact AList.mem_lookup_iff.mpr (mem_of_mem_filter he)
  have hs : (b.order.reverse.filter fun id => (b.position id).isSome).Perm
      (b.positions.keys.filter (· ∈ b.order)) := by
    refine (perm_ext_iff_of_nodup ((nodup_reverse.mpr h.nodup).filter _)
      (b.positions.nodupKeys.filter _)).mpr fun id => ?_
    simp [position, AList.lookup_isSome, AList.mem_keys, AList.keys, and_comm]
  rw [allPositions, map_append, hl, hr]
  refine (hs.append_right _).trans ?_
  simpa using filter_append_perm (· ∈ b.order) b.positions.keys

/-! ## What one section does -/

/-- Rows are never lost, and the order grows by nothing but `new`. -/
structure Grows (b : Book) (new : String → Prop) (b' : Book) : Prop where
  ordered : Ordered b'
  kept : ∀ id, b.position id ≠ none → b'.position id ≠ none
  order : ∀ id ∈ b'.order, id ∈ b.order ∨ new id

variable {new : String → Prop}

theorem Grows.insert (h : Grows b new b') : Grows b new (b'.insert p) := by
  have hk : ∀ id, b'.position id ≠ none → (b'.insert p).position id ≠ none := by
    intro id hi
    rw [position_insert]
    split
    · exact Option.some_ne_none p
    · exact hi
  refine ⟨⟨?_, fun id hi => hk id (h.ordered.stored id hi), h.ordered.nodup⟩,
    fun id hi => hk id (h.kept id hi), h.order⟩
  intro id q hq
  rw [position_insert] at hq
  split at hq
  · next hi => rw [← Option.some.inj hq, hi]
  · exact h.ordered.keyed id q hq

theorem Grows.pushOrder (h : Grows b new b') (hi : id ∉ b'.order) (hr : b'.position id ≠ none)
    (hn : new id) : Grows b new (b'.pushOrder id) := by
  have hm : ∀ id', id' ∈ (b'.pushOrder id).order ↔ id' ∈ b'.order ∨ id' = id := by
    simp [Book.pushOrder]
  refine ⟨⟨h.ordered.keyed, ?_, ?_⟩, h.kept, ?_⟩
  · intro id' hi'
    rcases (hm id').mp hi' with hold | rfl
    · exact h.ordered.stored id' hold
    · exact hr
  · exact nodup_append_comm.mp (nodup_cons.mpr ⟨hi, h.ordered.nodup⟩)
  · intro id' hi'
    rcases (hm id').mp hi' with hold | rfl
    · exact h.order id' hold
    · exact .inr hn

theorem Grows.restore {rows : List Position} (h : Grows b new b')
    (hne : ∀ p ∈ rows, b.position p.id = none → new p.id) :
    Grows b new (restorePositions rows b').1 := by
  induction rows generalizing b' with
  | nil => exact h
  | cons p rows ih =>
    refine ih ?_ fun q hq => hne q (mem_cons_of_mem p hq)
    unfold restoreRow
    split
    · next hn =>
      have hn := Option.isNone_iff_eq_none.mp hn
      show Grows b new ((b'.insert p).pushOrder p.id)
      refine h.insert.pushOrder ?_ ?_ ?_
      · exact fun hi => h.ordered.stored p.id hi hn
      · rw [position_insert, if_pos rfl]
        exact Option.some_ne_none p
      · exact hne p mem_cons_self (not_not.mp fun hr => h.kept p.id hr hn)
    · exact h.insert

theorem grows_act (h : Ordered b) (hk : Claimed b k) : Grows b (Lists b · k) (act k b).1 := by
  have hse : Grows b (Lists b · k) b := ⟨h, fun _ => id, fun _ => .inl⟩
  cases k with
  | upsertRead p => exact hse
  | upsertInsert p isNew => exact hse.insert
  | upsertOrder id => exact hse.pushOrder (hk.unlisted id rfl) (hk.stored id rfl) rfl
  | restore rows =>
    exact hse.restore fun p hp hn => ⟨hn, mem_map_of_mem hp⟩

theorem claimed_next (h : Ordered b) (hk : Claimed b k) (hn : (act k b).2 = .inl k') :
    Claimed (act k b).1 k' := by
  cases k with
  | upsertRead p =>
    obtain rfl := Sum.inl.inj hn
    refine ⟨fun id hi hl => h.stored id hl ?_, by simp⟩
    cases hr : b.position p.id with
    | none =>
      simp only [Section.claims, hr, Option.isNone_none] at hi
      rwa [← Option.some.inj hi]
    | some q => simp [Section.claims, hr] at hi
  | upsertInsert p isNew =>
    cases isNew with
    | true =>
      obtain rfl := Sum.inl.inj hn
      refine ⟨hk.unlisted, ?_⟩
      rintro id ⟨⟩
      simp [act, position_insert]
    | false => cases hn
  | upsertOrder id | restore rows => cases hn

/-! ## Whole runs -/

variable {s t : State Book Section} {a : Label Section Reply}
  {tr : List (Entry (State Book Section) (Label Section Reply))}

theorem step (h : Ordered s.shared ∧ Relies Claimed s) (ha : Apart Considerate ⟨s, a, t⟩)
    (hs : Step act IsCall s a t) : Ordered t.shared ∧ Relies Claimed t := by
  refine ⟨?_, h.2.step ha hs ?_ (fun _ _ _ => claimed_next h.1) ?_⟩
  · rcases hs.shared_cases with ⟨k, -, hsh⟩ | ⟨k, hk, -, hsh⟩
    · exact hsh ▸ h.1
    · exact hsh ▸ (grows_act h.1 (h.2 k hk)).ordered
  · rintro _ (p | rows) <;> exact ⟨by simp [Section.claims], by simp⟩
  · intro k _ k' hk hk' hC
    have hg := grows_act h.1 hk
    refine ⟨fun id hi hl => ?_, fun id hi => hg.kept id (hk'.stored id hi)⟩
    rcases hg.order id hl with hold | hn
    · exact hk'.unlisted id hi hold
    · exact hC id hi hn

/-- In every interleaving in which nobody puts an id in the order that another call has found to
be new, the stored positions are listed once each. -/
theorem listed_once {b : Book} (hb : Ordered b) (hr : Run (Step act IsCall) ⟨b, []⟩ tr t)
    (hapart : ∀ e ∈ tr, Apart Considerate e) :
    (t.shared.allPositions.map Position.id).Perm t.shared.positions.keys :=
  (hr.invariant_of_entries (fun _ _ _ h hC hs => step h hC hs) hapart
    ⟨hb, fun _ hk => absurd hk not_mem_nil⟩).1.perm_keys

private def row (id : String) : Position :=
  ⟨id, 0, none, .sniper, .opened, "TOKEN", 100, 1, 100, 0, none, 1, none⟩

theorem ordered_empty : Ordered .empty := by
  constructor <;> simp [position, empty]

theorem listed_once_in_turn : ∃ tr t, Run (Step act IsCall) ⟨Book.empty, []⟩ tr t ∧
    t.shared.positions.keys = ["p", "q"] ∧
    (t.shared.allPositions.map Position.id).Perm t.shared.positions.keys := by
  obtain ⟨tr, t, hr, ha, hk⟩ : ∃ tr t, Run (Step act IsCall) ⟨Book.empty, []⟩ tr t ∧
      (∀ e ∈ tr, Apart Considerate e) ∧ t.shared.positions.keys = ["p", "q"] :=
    exists_run_of_follow [.call (.upsertRead (row "p")), .go 0, .go 0, .go 0,
      .call (.restore [row "q", row "p"]), .go 0]
      (by simp [Move.Allowed, IsCall.upsert, IsCall.restore]) (by decide +kernel)
  exact ⟨tr, t, hr, hk, listed_once ordered_empty hr ha⟩

/-- Two upserts of one id both find it new. -/
theorem new_position_listed_twice : ∃ tr t, Run (Step act IsCall) ⟨Book.empty, []⟩ tr t ∧
    t.running = [] ∧ t.shared.positions.keys = ["p"] ∧
    t.shared.allPositions.map Position.id = ["p", "p"] :=
  exists_run_of_follow [.call (.upsertRead (row "p")), .call (.upsertRead (row "p")), .go 0, .go 1,
    .go 0, .go 0, .go 0, .go 0] (by simp [Move.Allowed, IsCall.upsert]) (by decide +kernel)

end SniperBot.Positions.Listing
