import Mathlib.Algebra.Order.Ring.Int
import Mathlib.Data.List.Chain
import Mathlib.Data.List.Nodup
import SniperBot.Lib.Rows

/-!
# Slots of a fixed interval

Work that is due at slots a whole number of intervals apart. After a slot is done at some
time, the next one is the first that lies in the future, so that slots which passed in the
meantime are not made up for.
-/

namespace SniperBot.Lib.Slots

/-- The slot after `slot` that work done at `now` leaves: the first of its series that lies
strictly after `now`. -/
def nextSlot (interval slot now : Int) : Int := slot + ((now - slot) / interval + 1) * interval

theorem lt_nextSlot {interval : Int} (hi : 0 < interval) (slot now : Int) :
    now < nextSlot interval slot now := by
  have hl := Int.lt_ediv_add_one_mul_self (now - slot) hi
  unfold nextSlot
  omega

theorem nextSlot_eq_add {interval slot now : Int} (hi : 0 < interval) (hd : slot ≤ now) :
    ∃ k : ℕ, 0 < k ∧ nextSlot interval slot now = slot + k * interval := by
  have hn : 0 ≤ (now - slot) / interval := Int.ediv_nonneg (by omega) hi.le
  refine ⟨((now - slot) / interval).toNat + 1, Nat.succ_pos _, ?_⟩
  unfold nextSlot
  rw [Nat.cast_add, Int.toNat_of_nonneg hn, Nat.cast_one]

section

variable {α : Type*} (interval : Int) (slot time : α → Int)

/-- A slot that may follow `a`: a positive number of intervals after the slot of `a`, and
after the time at which `a` was done. -/
def Ahead (a : α) (next : Int) : Prop :=
  (∃ k : ℕ, 0 < k ∧ next = slot a + k * interval) ∧ time a < next

/-- Work done slot after slot, and the slot that comes next. -/
structure Paced (done : List α) (next : Int) : Prop where
  chain : done.IsChain fun a b => Ahead interval slot time a (slot b)
  last : ∀ a ∈ done.getLast?, Ahead interval slot time a next
  punctual : ∀ a ∈ done, slot a ≤ time a

variable {interval slot time}

theorem Paced.nil (next : Int) : Paced interval slot time [] next := by
  refine ⟨List.isChain_nil, ?_, ?_⟩
  · intro a ha
    cases ha
  · intro a ha
    cases ha

variable {done : List α} {next : Int}

theorem Paced.snoc {b : α} {now : Int} (hi : 0 < interval)
    (h : Paced interval slot time done (slot b)) (hti : time b = now) (hd : slot b ≤ now) :
    Paced interval slot time (done ++ [b]) (nextSlot interval (slot b) now) := by
  constructor
  · rw [List.isChain_append]
    refine ⟨h.chain, List.isChain_singleton _, ?_⟩
    intro a ha b' hb'
    obtain rfl : b = b' := Option.some.inj hb'
    exact h.last a ha
  · intro a ha
    rw [List.getLast?_concat] at ha
    obtain rfl : b = a := Option.some.inj ha
    refine ⟨nextSlot_eq_add hi hd, ?_⟩
    rw [hti]
    exact lt_nextSlot hi _ _
  · intro a ha
    rcases List.mem_append.mp ha with ha | ha
    · exact h.punctual a ha
    · obtain rfl := List.mem_singleton.mp ha
      rw [hti]
      exact hd

theorem Ahead.lt {a : α} (hi : 0 < interval) (h : Ahead interval slot time a next) :
    slot a < next := by
  obtain ⟨⟨k, hk, rfl⟩, -⟩ := h
  have hpos : 0 < (k : Int) * interval := Int.mul_pos (by omega) hi
  omega

theorem Paced.nodup (hi : 0 < interval) (h : Paced interval slot time done next) :
    (done.map slot).Nodup := by
  have hc : (done.map slot).IsChain (· < ·) := by
    rw [List.isChain_map]
    exact h.chain.imp fun a b ha => ha.lt hi
  exact hc.pairwise.imp fun hl => hl.ne

theorem Paced.pairwise (h : Paced interval slot time done next) :
    done.Pairwise fun a b => time a < slot b := by
  -- `time a < slot b` alone is not transitive: `b` has to be done at its slot or later
  let R : α → α → Prop := fun a b => time a < slot b ∧ slot b ≤ time b
  have : IsTrans α R := by
    constructor
    intro a b c ha hbc
    exact ⟨(ha.1.trans_le ha.2).trans hbc.1, hbc.2⟩
  have hc : done.IsChain R := h.chain.imp_of_mem_imp fun a b _ hb ha => ⟨ha.2, h.punctual b hb⟩
  exact hc.pairwise.imp fun ha => ha.1

theorem Paced.made_up (h : Paced interval slot time done next) (moment : Int) :
    (done.filter fun a => slot a ≤ moment ∧ moment ≤ time a).length ≤ 1 := by
  refine Rows.length_filter_le_one (h.pairwise.imp ?_)
  intro a b hab ⟨ha, hb⟩
  have hd := (of_decide_eq_true ha).2
  have hpa := (of_decide_eq_true hb).1
  omega

end

end SniperBot.Lib.Slots
