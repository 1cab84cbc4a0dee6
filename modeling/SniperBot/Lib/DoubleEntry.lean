import Mathlib.Algebra.BigOperators.Group.List.Basic
import Mathlib.Algebra.Order.Group.Defs
import Mathlib.Data.List.AList
import Mathlib.Data.List.Induction
import Mathlib.Tactic.Abel

/-!
# Double-entry bookkeeping

A line books an amount on the debit or on the credit side. Amounts are stored without a
sign: a negative one moves to the other side, which leaves the net of the lines as it was.
Balances are kept in a finite map in which a missing account stands at zero.
-/

namespace SniperBot.Lib.DoubleEntry

inductive Side where
  | debit
  | credit
  deriving DecidableEq

def Side.flip : Side → Side
  | .debit => .credit
  | .credit => .debit

section

variable {K : Type*} [AddCommGroup K]

def signed : Side → K → K
  | .debit, amount => amount
  | .credit, amount => -amount

variable (side : Side) (amount : K)

@[simp] theorem signed_zero : signed side (0 : K) = 0 := by
  cases side with
  | debit => rfl
  | credit => exact neg_zero

theorem signed_flip_neg : signed side.flip (-amount) = signed side amount := by
  cases side with
  | debit => exact neg_neg amount
  | credit => rfl

variable [LinearOrder K]

/-- A negative amount is booked on the other side. -/
def normal : Side × K :=
  if amount < 0 then (side.flip, -amount) else (side, amount)

theorem signed_normal :
    signed (normal side amount).1 (normal side amount).2 = signed side amount := by
  unfold normal
  split
  · exact signed_flip_neg side amount
  · rfl

theorem normal_nonneg [IsOrderedAddMonoid K] (side : Side) (amount : K) :
    0 ≤ (normal side amount).2 := by
  unfold normal
  split
  · next hn => exact (neg_pos.mpr hn).le
  · next hn => exact not_lt.mp hn

end

section

variable {L K : Type*} [AddCommGroup K] (side : L → Side) (amount : L → K)

variable (lines : List L)

def net : K := (lines.map fun l => signed (side l) (amount l)).sum

/-- The debits and the credits, each added up in the order of the lines. -/
def totals : K × K := lines.foldl (fun (d, c) l =>
    match side l with
    | .debit => (d + amount l, c)
    | .credit => (d, c + amount l)) (0, 0)

theorem net_append (as bs : List L) :
    net side amount (as ++ bs) = net side amount as + net side amount bs := by
  rw [net, List.map_append, List.sum_append]
  rfl

theorem totals_sub :
    (totals side amount lines).1 - (totals side amount lines).2 = net side amount lines := by
  induction lines using List.reverseRecOn with
  | nil => exact sub_zero 0
  | append_singleton lines l ih =>
    rw [net_append, ← ih, totals, List.foldl_append]
    show (match side l with | .debit => _ | .credit => _ : K × K).1 -
      (match side l with | .debit => _ | .credit => _ : K × K).2 = _
    cases hsi : side l with
    | debit | credit =>
      simp only [net, hsi, signed, List.map_cons, List.map_nil, List.sum_singleton, totals]
      abel

end

/-! ## Balances -/

section

variable {α K : Type*} [DecidableEq α] [AddCommGroup K]

variable (accounts : AList fun _ : α => K) (a : α) (delta : K)

def balance : K := (accounts.lookup a).getD 0

def add : AList fun _ : α => K := accounts.insert a (balance accounts a + delta)

theorem balance_add (a b : α) (delta : K) :
    balance (add accounts a delta) b = balance accounts b + if b = a then delta else 0 := by
  unfold balance add
  by_cases hb : b = a
  · subst hb
    rw [AList.lookup_insert, if_pos rfl]
    rfl
  · rw [AList.lookup_insert_ne hb, if_neg hb, add_zero]

end

end SniperBot.Lib.DoubleEntry
