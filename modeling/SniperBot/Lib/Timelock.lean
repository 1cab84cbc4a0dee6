import SniperBot.Lib.Runs

/-!
# Changes behind a timelock

A live value changes only by applying a queued one, from a time fixed when it was queued. Over
whole runs every change has its origin: the step that applied it, the step that queued it, and
nothing in between that touched the queue.
-/

namespace SniperBot.Lib.Timelock

open Lib.Runs

variable {P : Type}

structure Queued (P : Type) where
  values : P
  ready : Int

structure State (P : Type) where
  live : Option P
  queued : Option (Queued P)

inductive Event (P : Type) where
  | start (p : P)
  | queue (q : Queued P)
  | cancel
  | apply (now : Int)
  | other

inductive Step : State P → Event P → State P → Prop
  | start {p : P} : Step ⟨none, none⟩ (.start p) ⟨some p, none⟩
  | queue {l : Option P} {q : Queued P} : Step ⟨l, none⟩ (.queue q) ⟨l, some q⟩
  | cancel {l : Option P} {q : Queued P} : Step ⟨l, some q⟩ .cancel ⟨l, none⟩
  | apply {l : Option P} {q : Queued P} {now : Int} (hready : q.ready ≤ now) :
      Step ⟨l, some q⟩ (.apply now) ⟨some q.values, none⟩
  | other {s : State P} : Step s .other s

variable {s t : State P} {tr : List (Entry (State P) (Event P))}

theorem queued_origin {q : Queued P} (h : Run Step s tr t) (hs : s.queued = none)
    (ht : t.queued = some q) :
    ∃ before e between, tr = before ++ e :: between ∧ e.label = .queue q ∧
    ∀ x ∈ between, x.label = .other := by
  induction h with
  | nil =>
    rw [hs] at ht
    contradiction
  | @snoc tr t u a hr hst ih =>
    cases hst with
    | start | cancel | apply => contradiction
    | @queue l q' =>
      obtain rfl := Option.some.inj ht
      exact ⟨tr, _, [], rfl, rfl, by simp⟩
    | other =>
      obtain ⟨before, e, between, rfl, he, hb⟩ := ih ht
      refine ⟨before, e, between ++ [⟨t, .other, t⟩], by simp, he, ?_⟩
      intro x hx
      rcases List.mem_append.mp hx with hx | hx
      · exact hb x hx
      · rw [List.mem_singleton.mp hx]

theorem live_run (h : Run Step s tr t) (hs : s.live ≠ none) : t.live ≠ none := by
  refine Run.invariant (I := fun u => u.live ≠ none) (fun a e b ha hab => ?_) h hs
  cases hab with
  | start | apply => simp
  | queue | cancel | other => exact ha

theorem live_changed (h : Run Step s tr t) (hs : s.live ≠ none) (hn : t.live ≠ s.live) :
    ∃ before e after now, tr = before ++ e :: after ∧ e.label = .apply now ∧
    e.post.live = t.live ∧ ∀ x ∈ after, ∀ n, x.label ≠ .apply n := by
  induction h with
  | nil => exact absurd rfl hn
  | @snoc tr t u a hr hst ih =>
    -- a step that applies nothing keeps the live value, so the change was earlier
    have hk : (∀ n, a ≠ .apply n) → u.live = t.live →
        ∃ before e after now, tr ++ [⟨t, a, u⟩] = before ++ e :: after ∧ e.label = .apply now ∧
          e.post.live = u.live ∧ ∀ x ∈ after, ∀ n, x.label ≠ .apply n := by
      intro ha hu
      obtain ⟨before, e, after, now, rfl, he, hpo, haf⟩ := ih (hu ▸ hn)
      refine ⟨before, e, after ++ [⟨t, a, u⟩], now, by simp, he, hpo.trans hu.symm, ?_⟩
      intro x hx
      rcases List.mem_append.mp hx with hx | hx
      · exact haf x hx
      · rw [List.mem_singleton.mp hx]
        exact ha
    cases hst with
    | start => exact absurd rfl (live_run hr hs)
    | queue | cancel | other => exact hk (by simp) rfl
    | @apply l q now hre => exact ⟨tr, _, [], now, rfl, rfl, rfl, by simp⟩

theorem change_origin {m : State P} {tr₁ tr₂ : List (Entry (State P) (Event P))}
    (h₁ : Run Step s tr₁ m) (h₂ : Run Step m tr₂ t) (hs : s.queued = none) (hm : m.live ≠ none)
    (hn : t.live ≠ m.live) :
    ∃ before queue between tail e after q now,
    tr₂ = tail ++ e :: after ∧ tr₁ ++ tail = before ++ queue :: between ∧
    queue.label = .queue q ∧ (∀ x ∈ between, x.label = .other) ∧
    e.label = .apply now ∧ q.ready ≤ now ∧ t.live = some q.values ∧
    ∀ x ∈ after, ∀ n, x.label ≠ .apply n := by
  obtain ⟨tail, e, after, now, rfl, he, hpo, ha⟩ := live_changed h₂ hm hn
  obtain ⟨hr, hst, -⟩ := h₂.around
  obtain ⟨pre, label, post⟩ := e
  obtain rfl : label = .apply now := he
  cases hst with
  | @apply l q _ hre =>
    obtain ⟨before, queue, between, hsp, hq, hb⟩ := queued_origin (h₁.append hr) hs rfl
    exact ⟨before, queue, between, tail, _, after, q, now, rfl, hsp, hq, hb, rfl, hre, hpo.symm, ha⟩

end SniperBot.Lib.Timelock
