import SniperBot.Execution.Ledger
import SniperBot.Positions.Book

/-!
# The order manager without a database

Orders by id, the index from idempotency keys to ids, and the order in which the ids
came. The mirror is bounded: beyond its cap the oldest terminal orders go, and their
keys with them. The venue payload of an order, which nothing here reads, is left out.
-/

namespace SniperBot.Orders

open Execution (BotError HashMap trim)
open Positions (BotModule)

inductive OrderStatus where
  | created
  | validated
  | queued
  | submitted
  | accepted
  | partiallyFilled
  | filled
  | failed
  | cancelled
  | expired
  | unknown
  | reconciled
  deriving DecidableEq

namespace OrderStatus

def asStr : OrderStatus → String
  | .created => "created"
  | .validated => "validated"
  | .queued => "queued"
  | .submitted => "submitted"
  | .accepted => "accepted"
  | .partiallyFilled => "partially_filled"
  | .filled => "filled"
  | .failed => "failed"
  | .cancelled => "cancelled"
  | .expired => "expired"
  | .unknown => "unknown"
  | .reconciled => "reconciled"

def isTerminal : OrderStatus → Bool
  | .filled | .failed | .cancelled | .expired | .reconciled => true
  | _ => false

/-- The legal state machine: permissive about forward progress, and nothing leaves a
terminal state. -/
def canTransitionTo (status next : OrderStatus) : Bool :=
  if status.isTerminal then false
  else
    match status, next with
    | .unknown, next => next.isTerminal || next == .reconciled
    | _, .unknown => true
    | .created, .validated | .created, .queued | .created, .submitted | .created, .failed
    | .created, .cancelled | .created, .expired => true
    | .validated, .queued | .validated, .submitted | .validated, .failed | .validated, .cancelled
    | .validated, .expired => true
    | .queued, .submitted | .queued, .failed | .queued, .cancelled | .queued, .expired => true
    | .submitted, .accepted | .submitted, .partiallyFilled | .submitted, .filled
    | .submitted, .failed | .submitted, .cancelled | .submitted, .expired => true
    | .accepted, .partiallyFilled | .accepted, .filled | .accepted, .failed
    | .accepted, .cancelled | .accepted, .expired => true
    | .partiallyFilled, .partiallyFilled | .partiallyFilled, .filled | .partiallyFilled, .failed
    | .partiallyFilled, .cancelled | .partiallyFilled, .expired => true
    | _, .reconciled => true
    | _, _ => false

end OrderStatus

inductive ExecutionMode where
  | paper
  | simulate
  | live
  deriving DecidableEq

namespace ExecutionMode

def asStr : ExecutionMode → String
  | .paper => "paper"
  | .simulate => "simulate"
  | .live => "LIVE"

def fromStr (raw : String) : Option ExecutionMode :=
  let label := (trim raw).toList.map Char.toLower
  if label ∈ ["paper".toList, "dry".toList, "dryrun".toList] then some .paper
  else if label ∈ ["simulate".toList, "sim".toList] then some .simulate
  else if label ∈ ["live".toList, "real".toList] then some .live
  else none

end ExecutionMode

/-- What a caller wants; the manager adds the id and the timestamps. -/
structure OrderDraft where
  idempotencyKey : String
  module : BotModule
  side : String
  symbol : String
  venue : String
  mode : ExecutionMode
  qty : ℚ
  price : Option ℚ
  deriving DecidableEq

structure Order extends OrderDraft where
  id : String
  status : OrderStatus
  externalId : Option String
  signature : Option String
  error : Option String
  createdAt : Int
  updatedAt : Int
  submittedAt : Option Int
  finishedAt : Option Int
  deriving DecidableEq

def OrderDraft.order (d : OrderDraft) (id : String) (now : Int) : Order :=
  { d with
    id := id
    status := .created
    externalId := none
    signature := none
    error := none
    createdAt := now
    updatedAt := now
    submittedAt := none
    finishedAt := none }

def Order.moved (o : Order) (target : OrderStatus) (reason : Option String) (now : Int) : Order :=
  { o with
    status := target
    updatedAt := now
    submittedAt := if target = .submitted ∧ o.submittedAt = none then some now else o.submittedAt
    finishedAt := if target.isTerminal then some now else o.finishedAt
    error := if target = .failed ∧ reason.isSome then reason else o.error }

structure OrderManager where
  orders : HashMap Order
  byIdem : HashMap String
  fifo : List String
  cap : Nat
  idCounter : Nat

namespace OrderManager

def new (cap : Nat) : OrderManager where
  orders := ∅
  byIdem := ∅
  fifo := []
  cap := max cap 64
  idCounter := 0

def orderId (millis : Int) (n : Nat) : String := "ord_" ++ toString millis ++ "_" ++ toString n

section

variable (m : OrderManager) (id : String)

def get : Option Order := m.orders.lookup id

/-! ## The bounded mirror -/

def evictable : Bool :=
  match m.get id with
  | some o => o.status.isTerminal
  | none => true

def forget : OrderManager :=
  match m.get id with
  | some o => { m with orders := m.orders.erase id, byIdem := m.byIdem.erase o.idempotencyKey }
  | none => m

end

/-- Evict up to `n` orders, the oldest terminal one first. Where everything is live
the loop ends early: correctness beats the bound. -/
def evictLoop : Nat → OrderManager → OrderManager
  | 0, m => m
  | n + 1, m =>
    match m.fifo.find? m.evictable with
    | some evicted => evictLoop n { m.forget evicted with fifo := m.fifo.eraseP m.evictable }
    | none => m

/-- Every round removes one order, so the excess bounds the number of rounds. -/
def evict (m : OrderManager) : OrderManager := evictLoop (m.fifo.length - m.cap) m

def enter (m : OrderManager) (o : Order) : OrderManager :=
  { m with
    byIdem := m.byIdem.insert o.idempotencyKey o.id
    orders := m.orders.insert o.id o
    fifo := if (m.get o.id).isNone then m.fifo ++ [o.id] else m.fifo }

def insertMirror (m : OrderManager) (o : Order) : OrderManager := (m.enter o).evict

/-! ## Transitions -/

def orderNotFound (id : String) : BotError := .notFound ("order " ++ id)

def illegalTransition (status target : OrderStatus) (id : String) : BotError := .invalidArgument
    ("illegal order transition " ++ status.asStr ++ " -> " ++ target.asStr ++ " for " ++ id)

def transition (m : OrderManager) (id : String) (target : OrderStatus) (reason : Option String)
    (now : Int) : Except BotError Order × OrderManager :=
  match m.get id with
  | none => (.error (orderNotFound id), m)
  | some o =>
    if o.status.canTransitionTo target then
      let moved := o.moved target reason now
      (.ok moved, { m with orders := m.orders.insert id moved })
    else (.error (illegalTransition o.status target id), m)

/-! ## The mirror and its index -/

structure Consistent (m : OrderManager) : Prop where
  indexed : ∀ key id, m.byIdem.lookup key = some id →
    ∃ o, m.get id = some o ∧ o.idempotencyKey = key
  known : ∀ id o, m.get id = some o → m.byIdem.lookup o.idempotencyKey = some id
  named : ∀ id o, m.get id = some o → o.id = id

theorem consistent_new (cap : Nat) : (new cap).Consistent where
  indexed key id h := by simp [new] at h
  known id o h := by simp [new, get] at h
  named id o h := by simp [new, get] at h

/-- What eviction may do: terminal orders go, with their keys, and nothing else. -/
structure Shrinks (m m' : OrderManager) : Prop where
  consistent : m'.Consistent
  orders : ∀ id, m'.get id = m.get id ∨
    m'.get id = none ∧ ∃ o, m.get id = some o ∧ o.status.isTerminal = true
  keys : ∀ key, m'.byIdem.lookup key = m.byIdem.lookup key ∨ m'.byIdem.lookup key = none

variable {m m' m'' : OrderManager} {o : Order} {id : String}

theorem Shrinks.refl (h : m.Consistent) : m.Shrinks m := ⟨h, fun _ => .inl rfl, fun _ => .inl rfl⟩

theorem Shrinks.trans (h : m.Shrinks m') (h' : m'.Shrinks m'') : m.Shrinks m'' where
  consistent := h'.consistent
  orders id := by
    rcases h'.orders id with he | ⟨hn, o, ho, hte⟩
    · rw [he]
      exact h.orders id
    · rcases h.orders id with he | ⟨hn', -⟩
      · exact .inr ⟨hn, o, he ▸ ho, hte⟩
      · rw [hn'] at ho
        contradiction
  keys key := by
    rcases h'.keys key with he | hn
    · rw [he]
      exact h.keys key
    · exact .inr hn

open Finmap

theorem get_forget (m : OrderManager) (id id' : String) :
    (m.forget id).get id' = if id' = id then none else m.get id' := by
  unfold forget
  split
  · show (m.orders.erase id).lookup id' = _
    split
    · next h => rw [h, lookup_erase]
    · next h => rw [lookup_erase_ne h]; rfl
  · next hn =>
    split
    · next h => rw [h, hn]
    · rfl

theorem lookup_forget (ho : m.get id = some o) (key : String) : (m.forget id).byIdem.lookup key =
    if key = o.idempotencyKey then none else m.byIdem.lookup key := by
  unfold forget
  rw [ho]
  show (m.byIdem.erase o.idempotencyKey).lookup key = _
  split
  · next h => rw [h, lookup_erase]
  · next h => rw [lookup_erase_ne h]

theorem forget_of_none (ho : m.get id = none) : m.forget id = m := by
  unfold forget
  rw [ho]

theorem consistent_forget (h : m.Consistent) (ho : m.get id = some o) :
    (m.forget id).Consistent where
  indexed key id' hk := by
    rw [lookup_forget ho] at hk
    split at hk
    · contradiction
    · next hn =>
      obtain ⟨o', ho', hke'⟩ := h.indexed key id' hk
      refine ⟨o', ?_, hke'⟩
      rw [get_forget, if_neg]
      · exact ho'
      · rintro rfl
        obtain rfl := Option.some.inj (ho.symm.trans ho')
        exact hn hke'.symm
  known id' o' ho' := by
    rw [get_forget] at ho'
    split at ho'
    · contradiction
    · next hn =>
      have hk' := h.known id' o' ho'
      rw [lookup_forget ho, if_neg]
      · exact hk'
      · intro he
        rw [he, h.known id o ho] at hk'
        exact hn (Option.some.inj hk').symm
  named id' o' ho' := by
    rw [get_forget] at ho'
    split at ho'
    · contradiction
    · exact h.named id' o' ho'

theorem shrinks_forget (h : m.Consistent) (hi : m.evictable id = true) :
    m.Shrinks (m.forget id) := by
  unfold evictable at hi
  split at hi
  · next o ho =>
    refine ⟨consistent_forget h ho, fun id' => ?_, fun key => ?_⟩
    · rw [get_forget]
      split
      · next he => exact .inr ⟨rfl, o, he ▸ ho, hi⟩
      · exact .inl rfl
    · rw [lookup_forget ho]
      split
      · exact .inr rfl
      · exact .inl rfl
  · next ho =>
    rw [forget_of_none ho]
    exact .refl h

theorem Shrinks.withFifo (h : m.Shrinks m') (fifo : List String) :
    m.Shrinks { m' with fifo := fifo } :=
  ⟨⟨h.consistent.indexed, h.consistent.known, h.consistent.named⟩, h.orders, h.keys⟩

theorem shrinks_evictLoop (n : Nat) (h : m.Consistent) : m.Shrinks (evictLoop n m) := by
  induction n generalizing m with
  | zero => exact .refl h
  | succ n ih =>
    unfold evictLoop
    split
    · next evicted hf =>
      have hst := (shrinks_forget h (List.find?_some hf)).withFifo (m.fifo.eraseP m.evictable)
      exact hst.trans (ih hst.consistent)
    · exact .refl h

theorem idCounter_forget (m : OrderManager) (id : String) :
    (m.forget id).idCounter = m.idCounter := by
  unfold forget
  split <;> rfl

theorem idCounter_evictLoop (n : Nat) (m : OrderManager) :
    (evictLoop n m).idCounter = m.idCounter := by
  induction n generalizing m with
  | zero => rfl
  | succ n ih =>
    unfold evictLoop
    split
    · rw [ih]
      exact idCounter_forget m _
    · rfl

theorem evict_of_le (h : m.fifo.length ≤ m.cap) : m.evict = m := by
  unfold evict
  rw [Nat.sub_eq_zero_of_le h]
  rfl

theorem get_enter (id : String) : (m.enter o).get id = if id = o.id then some o else m.get id := by
  show (m.orders.insert o.id o).lookup id = _
  split
  · next h => rw [h, lookup_insert]
  · next h => rw [lookup_insert_of_ne _ h]; rfl

theorem lookup_enter (key : String) : (m.enter o).byIdem.lookup key =
    if key = o.idempotencyKey then some o.id else m.byIdem.lookup key := by
  show (m.byIdem.insert o.idempotencyKey o.id).lookup key = _
  split
  · next h => rw [h, lookup_insert]
  · next h => rw [lookup_insert_of_ne _ h]

theorem consistent_enter (h : m.Consistent) (hi : m.get o.id = none)
    (hke : m.byIdem.lookup o.idempotencyKey = none) : (m.enter o).Consistent where
  indexed key id hk := by
    rw [lookup_enter] at hk
    split at hk
    · next he =>
      obtain rfl := Option.some.inj hk
      exact ⟨o, by rw [get_enter, if_pos rfl], he.symm⟩
    · obtain ⟨o', ho', hk'⟩ := h.indexed key id hk
      refine ⟨o', ?_, hk'⟩
      rw [get_enter, if_neg]
      · exact ho'
      · rintro rfl
        rw [hi] at ho'
        contradiction
  known id o' ho' := by
    rw [get_enter] at ho'
    split at ho'
    · next he =>
      obtain rfl := Option.some.inj ho'
      rw [lookup_enter, if_pos rfl, he]
    · have hk := h.known id o' ho'
      rw [lookup_enter, if_neg]
      · exact hk
      · intro he
        rw [he, hke] at hk
        contradiction
  named id o' ho' := by
    rw [get_enter] at ho'
    split at ho'
    · next he =>
      obtain rfl := Option.some.inj ho'
      exact he.symm
    · exact h.named id o' ho'

theorem transition_cases (m : OrderManager) (id : String) (target : OrderStatus)
    (reason : Option String) (now : Int) :
    (m.transition id target reason now).2 = m ∨
    ∃ o, m.get id = some o ∧ (m.transition id target reason now).2 =
      { m with orders := m.orders.insert id (o.moved target reason now) } := by
  unfold transition
  split
  · exact .inl rfl
  · next o ho =>
    split
    · exact .inr ⟨o, ho, rfl⟩
    · exact .inl rfl

end OrderManager

end SniperBot.Orders
