import Mathlib.Data.List.Nodup

/-!
# A log that is written behind

Items are applied at once and appended to a durable log, which refuses an item whose id it has. An
append may be answered, be lost, or take effect without an answer. What is not known to be in the
log is parked in order: what the log lacks, headed by its last item if that was not answered.
-/

namespace SniperBot.Lib.WriteBehind

open List

variable {α ι : Type*} [DecidableEq ι] (id : α → ι)

inductive Reply where
  | answered
  | lost
  | unanswered

/-- A guarded append: the new log, and whether the item was new if the log answered. -/
def record (log : List α) (a : α) (reply : Reply) : List α × Option Bool :=
  let known := id a ∈ log.map id
  let appended := if known then log else log ++ [a]
  match reply with
  | .answered => (appended, some (decide ¬ known))
  | .lost => (log, none)
  | .unanswered => (appended, none)

section

variable {id} {log : List α} {a : α}

theorem record_cases (reply : Reply) : (record id log a reply).1 = log ∨
    id a ∉ log.map id ∧ (record id log a reply).1 = log ++ [a] := by
  by_cases hk : id a ∈ log.map id
  · refine Or.inl ?_
    cases reply <;> simp [record, hk]
  · cases reply <;> simp [record, hk]

theorem record_of_new (h : id a ∉ log.map id) :
    record id log a .answered = (log ++ [a], some true) ∧
    record id log a .unanswered = (log ++ [a], none) := by
  simp [record, h]

theorem record_of_known (h : id a ∈ log.map id) :
    record id log a .answered = (log, some false) ∧ record id log a .unanswered = (log, none) := by
  simp [record, h]

end

section

variable (B : List α → List α → List α → Prop) (applied : List α) (a : α)

def Offered (todo : List α) : List α × Option Bool → Prop
  | (log, some _) => B log applied todo
  | (log, none) => B log applied (a :: todo)

/-- What holds after a new item was offered while nothing was parked: it is applied unless the
log had it, and parked if the log did not answer. -/
def Taken : List α × Option Bool → Prop
  | (log, some true) => B log (applied ++ [a]) []
  | (log, some false) => B log applied []
  | (log, none) => B log (applied ++ [a]) [a]

end

/-- The log is the beginning of what was applied, and the parked items are the rest of it,
headed by the last item of the log if that was never answered. -/
def Behind (log applied parked : List α) : Prop := ∃ rest, applied = log ++ rest ∧
    (parked = rest ∨ ∃ before last, log = before ++ [last] ∧ parked = last :: rest)

section

variable {id} {log applied parked todo : List α} {a : α}

theorem behind_self (log : List α) : Behind log log [] := ⟨[], (append_nil log).symm, Or.inl rfl⟩

theorem Behind.suffix (h : Behind log applied parked) : parked <:+ applied := by
  obtain ⟨rest, rfl, rfl | ⟨before, last, rfl, rfl⟩⟩ := h
  · exact suffix_append _ _
  · exact ⟨before, by rw [append_assoc, singleton_append]⟩

theorem Behind.complete (h : Behind log applied []) : applied = log := by
  obtain ⟨rest, rfl, hrest | ⟨_, _, _, hrest⟩⟩ := h
  · rw [← hrest, append_nil]
  · cases hrest

theorem Behind.park (h : Behind log applied parked) (a : α) :
    Behind log (applied ++ [a]) (parked ++ [a]) := by
  obtain ⟨rest, rfl, hpa⟩ := h
  refine ⟨rest ++ [a], append_assoc _ _ _, ?_⟩
  rcases hpa with rfl | ⟨before, last, hl, rfl⟩
  · exact Or.inl rfl
  · exact Or.inr ⟨before, last, hl, rfl⟩

theorem Behind.offer (h : Behind log applied (a :: todo)) (hi : (applied.map id).Nodup)
    (reply : Reply) : Offered Behind applied a todo (record id log a reply) := by
  obtain ⟨rest, rfl, hpa⟩ := h
  rcases hpa with rfl | ⟨before, last, rfl, hpa⟩
  · -- the log lacks the item
    have hn : id a ∉ log.map id := by
      rw [map_append] at hi
      intro hm
      exact (nodup_append.mp hi).2.2 _ hm _ mem_cons_self rfl
    have hl : log ++ a :: todo = (log ++ [a]) ++ todo := by
      rw [append_assoc, singleton_append]
    cases reply with
    | answered =>
      rw [(record_of_new hn).1]
      exact ⟨todo, hl, Or.inl rfl⟩
    | lost => exact ⟨a :: todo, rfl, Or.inl rfl⟩
    | unanswered =>
      rw [(record_of_new hn).2]
      exact ⟨todo, hl, Or.inr ⟨log, a, rfl, rfl⟩⟩
  · -- the log ends in the item
    obtain ⟨rfl, rfl⟩ := cons.inj hpa
    have hk : id a ∈ (before ++ [a]).map id :=
      mem_map_of_mem (mem_append_right _ (mem_singleton_self a))
    cases reply with
    | answered =>
      rw [(record_of_known hk).1]
      exact ⟨todo, rfl, Or.inl rfl⟩
    | lost => exact ⟨todo, rfl, Or.inr ⟨before, a, rfl, rfl⟩⟩
    | unanswered =>
      rw [(record_of_known hk).2]
      exact ⟨todo, rfl, Or.inr ⟨before, a, rfl, rfl⟩⟩

theorem Behind.offer_new (h : Behind log applied []) (hn : id a ∉ applied.map id)
    (reply : Reply) : Taken Behind applied a (record id log a reply) := by
  obtain rfl := h.complete
  cases reply with
  | answered =>
    rw [(record_of_new hn).1]
    exact behind_self _
  | lost => exact ⟨[a], rfl, Or.inl rfl⟩
  | unanswered =>
    rw [(record_of_new hn).2]
    exact ⟨[], (append_nil _).symm, Or.inr ⟨applied, a, rfl, rfl⟩⟩

end

end SniperBot.Lib.WriteBehind
