import Mathlib.Data.List.Dedup
import Mathlib.Data.Option.Basic
import Mathlib.Tactic.SplitIfs

/-!
# Tables whose rows are leased

A table by its key, changed by statements that select rows and set their columns, each one step.
Two columns are a row's lease: who holds it, and until when. A statement that takes a row only if
its lease has run out, or is the writer's, leaves alone what another holds.
-/

namespace SniperBot.Lib.LeaseTable

open Option

variable {ι ρ κ : Type*}

abbrev Table (ι ρ : Type*) := ι → Option ρ

namespace Table

variable (t : Table ι ρ) (sel : ι → ρ → Prop) [∀ i r, Decidable (sel i r)] (set : ρ → ρ)

def update : Table ι ρ := fun i => (t i).map fun r => if sel i r then set r else r

variable {t sel set} {i : ι}

theorem update_of_sel {r : ρ} (h : t i = some r) (hs : sel i r) :
    t.update sel set i = some (set r) := by
  unfold update
  rw [h, map_some, if_pos hs]

theorem update_of_not_sel {r : ρ} (h : t i = some r) (hs : ¬ sel i r) :
    t.update sel set i = some r := by
  unfold update
  rw [h, map_some, if_neg hs]

theorem update_some {r : ρ} (h : t i = some r) :
    t.update sel set i = some (if sel i r then set r else r) := by
  unfold update
  rw [h, map_some]

theorem update_eq_of_not_sel (h : ∀ r, t i = some r → ¬ sel i r) : t.update sel set i = t i := by
  cases hr : t i with
  | none =>
    unfold update
    rw [hr]
    rfl
  | some r => exact update_of_not_sel hr (h r hr)

section

variable [DecidableEq ι] (t) (p : ρ → Prop) [DecidablePred p] (scanned : List ι) (limit : Nat)

/-- The keys of the first rows with a property, in the order in which they are scanned. A row
that another transaction has locked is not scanned. -/
def select : List ι := (scanned.dedup.filter fun i => (t i).any fun r => p r).take limit

variable {t p scanned limit}

theorem of_mem_select {i : ι} (h : i ∈ t.select p scanned limit) : ∃ r, t i = some r ∧ p r := by
  obtain ⟨-, ha⟩ := List.mem_filter.mp (List.mem_of_mem_take h)
  obtain ⟨r, hr, hp⟩ := (any_eq_true _ _).mp ha
  exact ⟨r, hr, of_decide_eq_true hp⟩

theorem nodup_select : (t.select p scanned limit).Nodup :=
  ((List.nodup_dedup _).filter _).sublist (List.take_sublist _ _)

end

end Table

structure Lease (κ : Type*) where
  owner : Option κ
  expiresAt : Option Int
  deriving DecidableEq

namespace Lease

def released : Lease κ := ⟨none, none⟩

def taken (who : κ) (expiresAt : Int) : Lease κ := ⟨some who, some expiresAt⟩

/-- The row may be taken: it has no lease, or one that ran out before now. -/
def free (l : Lease κ) (now : Int) : Bool := l.expiresAt.all fun e => e < now

def HeldBy (l : Lease κ) (who : κ) (now : Int) : Prop :=
  l.owner = some who ∧ ∃ e, l.expiresAt = some e ∧ now ≤ e

variable {now : Int} {l : Lease κ}

theorem heldBy_taken {who : κ} {expiresAt : Int} (h : now ≤ expiresAt) :
    (taken who expiresAt).HeldBy who now := ⟨rfl, expiresAt, rfl, h⟩

theorem HeldBy.not_free {who : κ} (h : l.HeldBy who now) : l.free now = false := by
  obtain ⟨-, e, he, hle⟩ := h
  unfold free
  rw [he, all_some, decide_eq_false_iff_not]
  omega

theorem not_free_of_le {later : Int} (hle : now ≤ later) (h : l.free later = false) :
    l.free now = false := by
  unfold free at h ⊢
  cases he : l.expiresAt with
  | none =>
    rw [he] at h
    cases h
  | some e =>
    rw [he, all_some, decide_eq_false_iff_not] at h
    rw [all_some, decide_eq_false_iff_not]
    omega

theorem HeldBy.owner_unique {who other : κ} (h : l.HeldBy who now) (ho : l.owner = some other) :
    other = who :=
  some.inj (ho.symm.trans h.1)

end Lease

theorem Table.update_of_held {t : Table ι ρ} {sel : ι → ρ → Prop}
    [∀ i r, Decidable (sel i r)] {set : ρ → ρ} (lease : ρ → Lease κ) {i : ι} {r : ρ} {who : κ}
    {now : Int} (h : t i = some r) (hh : (lease r).HeldBy who now)
    (hse : sel i r → (lease r).free now = true ∨ ∃ other, other ≠ who ∧
    (lease r).owner = some other) :
    t.update sel set i = some r := by
  apply update_of_not_sel h
  intro hs
  rcases hse hs with hf | ⟨other, hn, ho⟩
  · rw [hh.not_free] at hf
    cases hf
  · exact hn (hh.owner_unique ho)

end SniperBot.Lib.LeaseTable
