import SniperBot.Billing.Webhook
import SniperBot.Lib.Crashes

/-!
# Each event takes effect once

The row of an event lets one delivery through. If no delivery crashes between its claim and its
transition, a row that stays claimed belongs to an event that has taken effect, and any other event
can be delivered again.
-/

namespace SniperBot.Billing

open Lib.Runs Lib.Interleaving Lib.Crashes Delivery Bool Option Sum

/-! ## What a section does to the row of an event -/

/-- The delivery holds the row, and the transition is still to come. -/
def pendingFor (key : Key) (k : Delivery) : Bool := k.holds = some key && !k.transitioned

def doneFor (key : Key) (k : Delivery) : Bool := k.holds = some key && k.transitioned

variable {k : Delivery} {x : Db} {event : VerifiedProviderEvent}
  {r : Apply ⊕ Except String ApplyOutcome} {store : Store} {y : Db}

theorem doneFor_of_pending {key : Key} (h : pendingFor key k = true) : doneFor key k = false := by
  simp_all [pendingFor, doneFor]

theorem pendingFor_of_done {key : Key} (h : doneFor key k = true) : pendingFor key k = false := by
  simp_all [pendingFor, doneFor]

theorem Db.setProcessed_same (x : Db) (key : Key) (processed : Option Bool) :
    (x.setProcessed key processed).providerEvents key = processed :=
  Function.update_self _ _ _

theorem Db.setProcessed_other {key key' : Key} (h : key' ≠ key) (processed : Option Bool) :
    (x.setProcessed key processed).providerEvents key' = x.providerEvents key' :=
  Function.update_of_ne h _ _

/-- What a section can do to the row of a key and to the delivery's part in it. -/
inductive Moves (key : Key) (x : Db) (k : Delivery) : Db → Delivery ⊕ Response → Prop
  | next {y : Db} {k' : Delivery} (hrow : y.providerEvents key = x.providerEvents key)
      (hpending : pendingFor key k' = pendingFor key k) (hdone : doneFor key k' = doneFor key k)
      (hnot : transitions key (.inl k') = false) : Moves key x k y (.inl k')
  | answered {y : Db} {r : Response} (hrow : y.providerEvents key = x.providerEvents key)
      (hpending : pendingFor key k = false) (hdone : doneFor key k = false) :
      Moves key x k y (.inr r)
  | claimed {y : Db} {k' : Delivery} (hold : x.providerEvents key = none)
      (hnew : y.providerEvents key = some false) (hpending : pendingFor key k' = true)
      (hnot : transitions key (.inl k') = false) : Moves key x k y (.inl k')
  | transitioned {y : Db} {k' : Delivery} (hrow : y.providerEvents key = x.providerEvents key)
      (hpending : pendingFor key k = true) (hdone : doneFor key k' = true)
      (hyes : transitions key (.inl k') = true) : Moves key x k y (.inl k')
  | completed {y : Db} {r : Response} (hold : x.providerEvents key = some false)
      (hnew : y.providerEvents key = some true)
      (hheld : doneFor key k = true ∨
        pendingFor key k = true ∧ ∃ event, k = .complete event .ignored ∧ event.key = key) :
      Moves key x k y (.inr r)
  | released {y : Db} {r : Response} (hold : x.providerEvents key = some false)
      (hnew : y.providerEvents key = none) (hpending : pendingFor key k = true) :
      Moves key x k y (.inr r)
  | lost {y : Db} {r : Response} (hrow : y.providerEvents key = x.providerEvents key)
      (hold : x.providerEvents key ≠ some false) : Moves key x k y (.inr r)

theorem foreign {key : Key} (h : k.holds ≠ some key) :
    pendingFor key k = false ∧ doneFor key k = false := by
  simp [pendingFor, doneFor, h]

theorem foreign_of_ne {key : Key} (hh : k.holds = some event.key) (hk : event.key ≠ key) :
    pendingFor key k = false ∧ doneFor key k = false :=
  foreign (hh.trans_ne fun h => hk (some.inj h))

theorem afterApply_holds (h : ∀ k, r = .inl k → k.job.event = event) :
    (afterApply event r).holds = some event.key := by
  cases r with
  | inl k =>
    show some k.job.event.key = some event.key
    rw [h k rfl]
  | inr r => cases r <;> rfl

theorem transitions_afterApply (key : Key) (event : VerifiedProviderEvent)
    (r : Apply ⊕ Except String ApplyOutcome) :
    transitions key (.inl (afterApply event r)) =
    (decide (event.key = key) && (afterApply event r).transitioned) := by
  cases r with
  | inl k => exact (Bool.and_false _).symm
  | inr r =>
    cases r with
    | error e => exact (Bool.and_false _).symm
    | ok outcome =>
      cases outcome with
      | applied summary => exact (Bool.and_true _).symm
      | ignored => exact (Bool.and_false _).symm

theorem moves_apply {key : Key} (hro : y.providerEvents = x.providerEvents)
    (hh : k.holds = some event.key) (hn : k.transitioned = false)
    (hr : ∀ k, r = .inl k → k.job.event = event) :
    Moves key x k y (.inl (afterApply event r)) := by
  have ha := afterApply_holds hr
  have htr := transitions_afterApply key event r
  have hsa : y.providerEvents key = x.providerEvents key := congrFun hro key
  cases hra : (afterApply event r).transitioned with
  | false =>
    rw [hra, Bool.and_false] at htr
    refine .next hsa ?_ ?_ htr
    · rw [pendingFor, pendingFor, ha, hh, hra, hn]
    · rw [doneFor, doneFor, ha, hh, hra, hn]
  | true =>
    rw [hra] at htr
    by_cases hk : event.key = key
    · rw [decide_eq_true hk] at htr
      refine .transitioned hsa ?_ ?_ htr
      · simp [pendingFor, hh, hk, hn]
      · simp [doneFor, ha, hk, hra]
    · rw [decide_eq_false hk] at htr
      obtain ⟨hpending, hd⟩ := foreign_of_ne hh hk
      obtain ⟨hp', hd'⟩ := foreign_of_ne ha hk
      exact .next hsa (hp'.trans hpending.symm) (hd'.trans hd.symm) htr

section

variable (key : Key) (event : VerifiedProviderEvent)

theorem moves_complete (outcome : ApplyOutcome)
    (x : Db) : Moves key x (.complete event outcome) (act (.complete event outcome) x).1
    (act (.complete event outcome) x).2 := by
  simp only [act]
  by_cases hk : event.key = key
  · subst hk
    split_ifs with hr
    · refine .completed hr (x.setProcessed_same _ _) ?_
      cases outcome with
      | applied summary => exact .inl (by simp [doneFor, holds, transitioned])
      | ignored =>
        refine .inr ⟨by simp [pendingFor, holds, transitioned], event, rfl, rfl⟩
    · exact .lost rfl hr
  · obtain ⟨hpending, hd⟩ := @foreign_of_ne (.complete event outcome) _ key rfl hk
    split_ifs
    · exact .answered (Db.setProcessed_other (Ne.symm hk) _) hpending hd
    · exact .answered rfl hpending hd

theorem moves_release (reason : String) (x : Db) :
    Moves key x (.release event reason) (act (.release event reason) x).1
    (act (.release event reason) x).2 := by
  simp only [act]
  by_cases hk : event.key = key
  · subst hk
    split_ifs with hr
    · refine .released hr (x.setProcessed_same _ _) ?_
      simp [pendingFor, holds, transitioned]
    · exact .lost rfl hr
  · obtain ⟨hpending, hd⟩ := @foreign_of_ne (.release event reason) _ key rfl hk
    split_ifs
    · exact .answered (Db.setProcessed_other (Ne.symm hk) _) hpending hd
    · exact .answered rfl hpending hd

theorem moves_claim (newId : String) (x : Db) :
    Moves key x (.claim event newId) (act (.claim event newId) x).1
    (act (.claim event newId) x).2 := by
  simp only [act]
  cases hr : x.providerEvents event.key with
  | some processed => exact .next rfl rfl rfl rfl
  | none =>
    split_ifs
    · exact .answered rfl rfl rfl
    · by_cases hk : event.key = key
      · subst hk
        refine .claimed hr (x.setProcessed_same _ _) ?_ rfl
        simp [pendingFor, holds, transitioned]
      · obtain ⟨hpending, hd⟩ := @foreign_of_ne (.claimed event newId) _ key rfl hk
        exact .next (Db.setProcessed_other (Ne.symm hk) _) hpending hd rfl

end

theorem act_moves (key : Key) (k : Delivery) (x : Db) : Moves key x k (k.act x).1 (k.act x).2 := by
  cases k with
  | check event newId =>
    simp only [act]
    split_ifs
    · exact .answered rfl rfl rfl
    · exact .next rfl rfl rfl rfl
  | claim event newId => exact moves_claim key event newId x
  | inspect event =>
    simp only [act]
    split <;> exact .answered rfl rfl rfl
  | claimed event newId =>
    refine moves_apply rfl rfl rfl ?_
    intro k hk
    rw [Apply.act_job hk]
    rfl
  | applying k =>
    refine moves_apply rfl rfl rfl ?_
    intro k' hk'
    rw [Apply.act_job hk']
  | complete event outcome => exact moves_complete key event outcome x
  | release event reason => exact moves_release key event reason x
  | tick time | setOrganization org status => exact .answered rfl rfl rfl

/-! ## At most once -/

abbrev Trace := List (Entry (State Db Delivery) (Fate Delivery Response))

section

variable (key : Key)

def TakesEffect (e : Entry (State Db Delivery) (Fate Delivery Response)) : Bool :=
  match e.label with
  | .step (.act _ r) => transitions key r
  | _ => false

def effects (tr : Trace) : Nat := tr.countP (TakesEffect key)

theorem effects_snoc (tr : Trace) (e : Entry (State Db Delivery) (Fate Delivery Response)) :
    effects key (tr ++ [e]) = effects key tr + (TakesEffect key e).toNat :=
  countP_snoc _ _ _

/-- How many deliveries hold the row before and after the transition. -/
def pending (ks : Multiset Delivery) : Nat := population (pendingFor key) ks

def finishing (ks : Multiset Delivery) : Nat := population (doneFor key) ks

theorem pending_cons (k : Delivery) (ks : Multiset Delivery) :
    pending key (k ::ₘ ks) = pending key ks + (pendingFor key k).toNat :=
  population_cons _ _ _

theorem finishing_cons (k : Delivery) (ks : Multiset Delivery) :
    finishing key (k ::ₘ ks) = finishing key ks + (doneFor key k).toNat :=
  population_cons _ _ _

end

/-- The row of a key, how often the key has taken effect, and the deliveries that hold the row. -/
def Tracked (row : Option Bool) (n p d : Nat) : Prop :=
  match row with
  | none => p = 0 ∧ d = 0 ∧ n = 0
  | some false => p + d ≤ 1 ∧ n + p ≤ 1 ∧ d ≤ n
  | some true => p = 0 ∧ d = 0 ∧ n ≤ 1

def TrackedIn (key : Key) (n : Nat) (s : State Db Delivery) : Prop :=
  Tracked (s.shared.providerEvents key) n (pending key s.running) (finishing key s.running)

theorem Tracked.le_one {row : Option Bool} {n p d : Nat} (h : Tracked row n p d) : n ≤ 1 := by
  unfold Tracked at h
  split at h <;> omega

variable {sent : VerifiedProviderEvent → Prop} {s t : State Db Delivery}
  {a : Fate Delivery Response} {key : Key} {n : Nat} {rest : Multiset Delivery}

theorem foreign_of_entry (key : Key) (h : k.Entry sent) :
    pendingFor key k = false ∧ doneFor key k = false := by
  refine foreign ?_
  cases k with
  | check | tick | setOrganization => exact fun h => nomatch h
  | _ => cases h

section

variable (key : Key) (r : Delivery ⊕ Response) (rest : Multiset Delivery)

theorem pending_continuing :
    pending key ((continuing r : Multiset Delivery) + rest) = pending key rest +
    (r.elim (pendingFor key) fun _ => false).toNat :=
  population_continuing _ _ _

theorem finishing_continuing :
    finishing key ((continuing r : Multiset Delivery) + rest) = finishing key rest +
    (r.elim (doneFor key) fun _ => false).toNat :=
  population_continuing _ _ _

end

theorem Moves.tracked {r : Delivery ⊕ Response} (hm : Moves key x k y r)
    (h : Tracked (x.providerEvents key) n (pending key (k ::ₘ rest)) (finishing key (k ::ₘ rest))) :
    Tracked (y.providerEvents key) (n + (transitions key r).toNat)
    (pending key ((continuing r : Multiset Delivery) + rest))
    (finishing key ((continuing r : Multiset Delivery) + rest)) := by
  rw [pending_continuing, finishing_continuing]
  rw [pending_cons, finishing_cons] at h
  cases hm with
  | next hr hpending hd hno =>
    rw [elim_inl, elim_inl, hr, hpending, hd, hno]
    exact h
  | answered hr hpending hd =>
    rw [hpending, hd] at h
    rw [elim_inr, hr]
    exact h
  | claimed hold hn hpending hno =>
    simp only [Tracked, hold] at h
    simp only [Tracked, elim_inl, hn, hpending, doneFor_of_pending hpending, hno,
      toNat_true, toNat_false]
    omega
  | transitioned hr hpending hd hy =>
    rw [elim_inl, elim_inl, hr, hy, hd, pendingFor_of_done hd]
    rw [hpending] at h
    unfold Tracked at h ⊢
    split at h <;> simp only [toNat_true, toNat_false] at h ⊢ <;> omega
  | completed hold hn hh =>
    have hh : pendingFor key k = true ∨ doneFor key k = true := hh.elim .inr fun h => .inl h.1
    simp only [Tracked, hold] at h
    simp only [Tracked, elim_inr, transitions, hn, toNat_false]
    rcases hh with hh | hh <;> rw [hh, toNat_true] at h <;> omega
  | released hold hn hpending =>
    simp only [Tracked, hold, hpending, toNat_true] at h
    simp only [Tracked, elim_inr, transitions, hn, toNat_false]
    omega
  | lost hr hold =>
    rw [elim_inr, elim_inr, hr]
    unfold Tracked at h ⊢
    simp only [transitions, toNat_false]
    split at h
    · omega
    · next hf => exact absurd hf hold
    · omega

theorem TrackedIn.step (h : TrackedIn key n s) (hs : Faulty act (Delivery.Entry sent) s a t) :
    TrackedIn key (n + (TakesEffect key ⟨s, a, t⟩).toNat) t := by
  unfold TrackedIn at h ⊢
  rcases hs.multiset_cases with
    ⟨k, rfl, hk, hsh, hr⟩ | ⟨k, rest, rfl, hsh, hr, hr'⟩ | ⟨k, rfl, hsh, hr⟩
  · obtain ⟨hpending, hd⟩ := foreign_of_entry key hk
    rw [hsh, hr, pending_cons, finishing_cons, hpending, hd]
    exact h
  · rw [hr] at h
    rw [hsh, hr']
    exact (act_moves key k s.shared).tracked h
  · rw [hr, pending_cons, finishing_cons] at h
    rw [hsh]
    unfold Tracked at h ⊢
    simp only [TakesEffect, toNat_false]
    split at h <;> omega

theorem trackedIn_run {tr : Trace} (he : ∀ key, x.providerEvents key = none)
    (hr : Run (Faulty act (Delivery.Entry sent)) ⟨x, []⟩ tr t) :
    TrackedIn key (effects key tr) t := by
  refine hr.invariant_history (I := fun tr s => TrackedIn key (effects key tr) s)
    (P := fun _ => True) ?_ (fun _ _ => trivial) ?_
  · intro tr s a t h _ hst
    rw [effects_snoc]
    exact h.step hst
  · unfold TrackedIn
    rw [he key]
    exact ⟨rfl, rfl, rfl⟩

/-! ## Delivering again -/

/-- A delivery crashes before it has claimed the row or after the transition has run. -/
def CrashesSafely (e : Entry (State Db Delivery) (Fate Delivery Response)) : Prop :=
  match e.label with
  | .crash k => k.holds = none ∨ k.transitioned = true
  | _ => True

instance (e : Entry (State Db Delivery) (Fate Delivery Response)) :
    Decidable (CrashesSafely e) := by
  unfold CrashesSafely
  split <;> infer_instance

/-- The deliveries under way are of events that were sent, and those that are ignored are of
types that are not handled. -/
def Delivery.Genuine (sent : VerifiedProviderEvent → Prop) : Delivery → Prop
  | .check event _ | .claim event _ | .inspect event | .claimed event _ | .release event _ =>
    sent event
  | .applying k => sent k.job.event
  | .complete event outcome =>
    sent event ∧ (outcome = .ignored → event.eventType.handled = false)
  | .tick _ | .setOrganization _ _ => True

theorem Apply.not_handled_of_ignored {k : Apply} (h : (k.act store).2 = .inr (.ok .ignored)) :
    k.job.event.eventType.handled = false := by
  cases k with
  | start job =>
    rcases act_start job store with ⟨r, ha, -, hi⟩ | ⟨org, code, -, -, -, ha⟩ | ⟨org, -, -, -, ha⟩
    · rw [ha] at h
      exact hi (inr.inj h)
    all_goals simp [ha] at h
  | read job org =>
    rcases act_read job org store with ⟨-, ha⟩ | ⟨sub, -, ha⟩ <;> simp [ha] at h
  | write job sub =>
    have h := inr.inj h
    rcases writeBack_cases job sub store with ⟨e, ho⟩ | ⟨summary, ho⟩ <;> simp [ho] at h
  | assign job org code =>
    have h := inr.inj h
    rcases assign_cases job org code store with ⟨e, ho⟩ | ⟨planId, summary, -, ho⟩ <;>
      simp [ho] at h

theorem genuine_afterApply (hse : sent event) (hnext : ∀ k, r = .inl k → k.job.event = event)
    (hi : r = .inr (.ok .ignored) → event.eventType.handled = false) :
    (afterApply event r).Genuine sent := by
  cases r with
  | inl k =>
    show sent k.job.event
    rw [hnext k rfl]
    exact hse
  | inr r =>
    cases r with
    | error e => exact hse
    | ok outcome =>
      refine ⟨hse, ?_⟩
      rintro rfl
      exact hi rfl

theorem Delivery.Genuine.next {k k' : Delivery} {x : Db} (h : k.Genuine sent)
    (hnext : (k.act x).2 = .inl k') : k'.Genuine sent := by
  cases k with
  | check event newId =>
    simp only [act] at hnext
    split_ifs at hnext
    cases hnext
    exact h
  | claim event newId =>
    simp only [act] at hnext
    cases hr : x.providerEvents event.key with
    | some processed =>
      simp only [hr] at hnext
      cases hnext
      exact h
    | none =>
      simp only [hr] at hnext
      split_ifs at hnext
      cases hnext
      exact h
  | inspect event =>
    simp only [act] at hnext
    split at hnext <;> cases hnext
  | claimed event newId =>
    cases hnext
    refine genuine_afterApply h ?_ Apply.not_handled_of_ignored
    intro k hk
    rw [Apply.act_job hk]
    rfl
  | applying k =>
    cases hnext
    refine genuine_afterApply h ?_ Apply.not_handled_of_ignored
    intro k' hk'
    rw [Apply.act_job hk']
  | complete event outcome | release event reason =>
    simp only [act] at hnext
    split_ifs at hnext
  | tick | setOrganization => cases hnext

/-- A claimed row is in somebody's hands or its event has taken effect, and a completed one has
taken effect or was ignored. -/
def Recoverable (sent : VerifiedProviderEvent → Prop) (key : Key) (row : Option Bool)
    (n p : Nat) : Prop :=
  match row with
  | none => True
  | some false => 1 ≤ n + p
  | some true =>
    1 ≤ n ∨ ∃ event, sent event ∧ event.key = key ∧ event.eventType.handled = false

theorem Moves.recoverable {r : Delivery ⊕ Response} (hm : Moves key x k y r) (hg : k.Genuine sent)
    (htr : Tracked (x.providerEvents key) n (pending key (k ::ₘ rest)) (finishing key (k ::ₘ rest)))
    (h : Recoverable sent key (x.providerEvents key) n (pending key (k ::ₘ rest))) :
    Recoverable sent key (y.providerEvents key) (n + (transitions key r).toNat)
    (pending key ((continuing r : Multiset Delivery) + rest)) := by
  rw [pending_continuing]
  rw [pending_cons] at h
  cases hm with
  | next hr hpending hd hno =>
    rw [elim_inl, hr, hpending, hno]
    exact h
  | answered hr hpending hd =>
    rw [hpending] at h
    rw [hr]
    exact h
  | claimed hold hn hpending hno =>
    simp only [Recoverable, elim_inl, hn, hpending, toNat_true]
    omega
  | transitioned hr hpending hd hy =>
    rw [hy]
    unfold Recoverable
    rw [toNat_true]
    split
    · trivial
    · omega
    · exact .inl (by omega)
  | completed hold hn hh =>
    rw [hn]
    rcases hh with hd | ⟨-, event, rfl, hk⟩
    · rw [hold, finishing_cons, hd, toNat_true] at htr
      obtain ⟨-, -, hle⟩ := htr
      exact .inl (by omega)
    · exact .inr ⟨event, hg.1, hk, hg.2 rfl⟩
  | released hold hn hpending =>
    rw [hn]
    trivial
  | lost hr hold =>
    rw [hr]
    unfold Recoverable at h ⊢
    split at h
    · trivial
    · next hf => exact absurd hf hold
    · exact h

/-- What holds in a run without a crash between a claim and its transition. -/
structure Sound (sent : VerifiedProviderEvent → Prop) (key : Key) (n : Nat)
    (s : State Db Delivery) : Prop where
  tracked : TrackedIn key n s
  recoverable : Recoverable sent key (s.shared.providerEvents key) n (pending key s.running)
  genuine : ∀ k ∈ s.running, k.Genuine sent

theorem genuine_step (h : ∀ k ∈ s.running, k.Genuine sent)
    (hs : Faulty act (Delivery.Entry sent) s a t) : ∀ k ∈ t.running, k.Genuine sent := by
  intro k' hk'
  rcases hs.mem_running hk' with he | hm | ⟨k, hk, hnext⟩
  · cases k' with
    | check => exact he
    | tick | setOrganization => trivial
    | _ => cases he
  · exact h k' hm
  · exact (h k hk).next hnext

theorem pendingFor_of_safe (h : k.holds = none ∨ k.transitioned = true) :
    pendingFor key k = false := by
  rcases h with h | h <;> simp [pendingFor, h]

theorem Sound.step (h : Sound sent key n s) (hsa : CrashesSafely ⟨s, a, t⟩)
    (hs : Faulty act (Delivery.Entry sent) s a t) :
    Sound sent key (n + (TakesEffect key ⟨s, a, t⟩).toNat) t := by
  refine ⟨h.tracked.step hs, ?_, genuine_step h.genuine hs⟩
  have hre := h.recoverable
  rcases hs.multiset_cases with
    ⟨k, rfl, hk, hsh, hr⟩ | ⟨k, rest, rfl, hsh, hr, hr'⟩ | ⟨k, rfl, hsh, hr⟩
  · rw [hsh, hr, pending_cons, (foreign_of_entry key hk).1]
    exact hre
  · have hm : k ∈ s.running := by
      rw [← Multiset.mem_coe, hr]
      exact Multiset.mem_cons_self k rest
    have htr := h.tracked
    unfold TrackedIn at htr
    rw [hr] at htr hre
    rw [hsh, hr']
    exact (act_moves key k s.shared).recoverable (h.genuine k hm) htr hre
  · rw [hr, pending_cons, pendingFor_of_safe hsa] at hre
    rw [hsh]
    exact hre

theorem sound_run (key : Key) {tr : Trace} (he : ∀ key, x.providerEvents key = none)
    (hr : Run (Faulty act (Delivery.Entry sent)) ⟨x, []⟩ tr t)
    (hsa : ∀ e ∈ tr, CrashesSafely e) : Sound sent key (effects key tr) t := by
  refine hr.invariant_history (I := fun tr s => Sound sent key (effects key tr) s) ?_ hsa ?_
  · intro tr s a t h hsa hst
    rw [effects_snoc]
    exact h.step hsa hst
  · refine ⟨?_, ?_, fun k hk => nomatch hk⟩
    · unfold TrackedIn
      rw [he key]
      exact ⟨rfl, rfl, rfl⟩
    · rw [he key]
      trivial

/-! ## A delivery that nothing disturbs -/

theorem solo_applyEvent (job : Job) (store : Store) :
    Solo Apply.act (.start job) store (applyEvent job store).2 (applyEvent job store).1 := by
  rcases Apply.act_start job store with
    ⟨r, ha, hw, -⟩ | ⟨org, code, hpl, ho, hc, ha⟩ | ⟨org, hh, hpl, ho, ha⟩
  · rw [hw]
    exact .last ha
  · rw [applyEvent_of_plan hpl ho hc]
    exact .next ha (.last rfl)
  · rw [applyEvent_of_status hh hpl ho]
    rcases Apply.act_read job org store with ⟨hsub, hr⟩ | ⟨sub, hsub, hr⟩
    · rw [hsub]
      exact .next ha (.last hr)
    · rw [hsub]
      exact .next ha (.next hr (.last rfl))

def settle (event : VerifiedProviderEvent) (x : Db) : Except String ApplyOutcome → Db × Response
  | .ok outcome => (x.setProcessed event.key (some true), acknowledge outcome)
  | .error reason => (x.setProcessed event.key none, .rejected reason)

theorem solo_settle (hr : x.providerEvents event.key = some false)
    (r : Except String ApplyOutcome) :
    Solo act (afterApply event (.inr r)) x (settle event x r).2 (settle event x r).1 := by
  cases r with
  | error reason | ok outcome =>
    refine .last ?_
    simp only [afterApply, act]
    rw [if_pos hr]
    rfl

theorem solo_applying {k : Apply} {store' : Store} {r : Except String ApplyOutcome}
    (h : Solo Apply.act k store r store') (x : Db) (hst : x.store = store)
    (hr : x.providerEvents k.job.event.key = some false) :
    Solo act (.applying k) x (settle k.job.event { x with store := store' } r).2
      (settle k.job.event { x with store := store' } r).1 := by
  induction h generalizing x with
  | @last k store store' r ha =>
    have hf : act (.applying k) x =
        ({ x with store := store' }, .inl (afterApply k.job.event (.inr r))) := by
      simp only [act]
      rw [hst, ha]
    have hse : ({ x with store := store' } : Db).providerEvents k.job.event.key = some false := hr
    exact .next hf (solo_settle hse r)
  | @next k k' store store1 store' r ha _ ih =>
    have hnext : (Apply.act k store).2 = .inl k' := by rw [ha]
    have hj : k'.job = k.job := Apply.act_job hnext
    have hf : act (.applying k) x = ({ x with store := store1 }, .inl (.applying k')) := by
      simp only [act]
      rw [hst, ha]
      rfl
    have hrest := ih { x with store := store1 } rfl (by rw [hj]; exact hr)
    rw [hj] at hrest
    exact .next hf hrest

theorem solo_check {newId : String} {r : Response} (hl : x.legacyMarkerExists event.eventId = false)
    (h : Solo act (.claim event newId) x r y) :
    Solo act (.check event newId) x r y := by
  refine .next ?_ h
  simp only [act]
  rw [if_neg (by rw [hl]; decide)]

theorem solo_delivery (newId : String) (hl : x.legacyMarkerExists event.eventId = false)
    (hro : x.providerEvents event.key = none) (hte : x.danglingTenant event = false) :
    ∃ y, y.store = (applyEvent ⟨event, x.clock, newId⟩ x.store).1 ∧ Solo act (.check event newId) x
      (settle event x (applyEvent ⟨event, x.clock, newId⟩ x.store).2).2 y := by
  have hclaim : act (.claim event newId) x =
      (x.setProcessed event.key (some false), .inl (.claimed event newId)) := by
    simp only [act]
    rw [hro, if_neg (by rw [hte]; decide)]
  have ha := solo_applying (solo_applyEvent ⟨event, x.clock, newId⟩ x.store)
    (x.setProcessed event.key (some false)) rfl (x.setProcessed_same _ _)
  -- with the row in hand, the first section of the delivery is the first one of the event
  have hc := ha.congr
    (show act (.claimed event newId) (x.setProcessed event.key (some false)) = _ from rfl)
  cases hr : (applyEvent ⟨event, x.clock, newId⟩ x.store).2 with
  | error reason | ok outcome =>
    rw [hr] at hc
    exact ⟨_, rfl, solo_check hl (.next hclaim hc)⟩

theorem solo_stuck (newId : String) (hl : x.legacyMarkerExists event.eventId = false)
    (hr : x.providerEvents event.key = some false) :
    Solo act (.check event newId) x
    (.unavailable "billing webhook event is already being processed; retry later") x := by
  have hclaim : act (.claim event newId) x = (x, .inl (.inspect event)) := by
    simp only [act]
    rw [hr]
  have hi : act (.inspect event) x =
      (x, .inr (.unavailable "billing webhook event is already being processed; retry later")) := by
    simp only [act]
    rw [hr]
  exact solo_check hl (.next hclaim (.last hi))

/-- The event is of a handled type and well formed, its tenant may be served, and the plan or the
subscription that it is about exists. -/
inductive Valid (store : Store) (event : VerifiedProviderEvent) : Prop
  | planChange {org planId : String} {code : PlanCode} (htype : event.eventType = .planChanged)
      (horg : openOrganization event store = .ok org) (hcode : event.payload.planCode = some code)
      (hplan : store.planByCode code = some planId)
  | status {org : String} {sub : Subscription} (hhandled : event.eventType.handled = true)
      (htype : event.eventType ≠ .planChanged) (horg : openOrganization event store = .ok org)
      (hsub : store.subscriptionOf org = some sub)

/-- The event is to replace a subscription whose record in the database it cannot replace. -/
def ReplacesRecord (store : Store) (event : VerifiedProviderEvent) : Prop :=
  store.durable = true ∧ event.eventType = .planChanged ∧
    ∃ org, event.payload.organizationId = some org ∧ (store.subscriptionOf org).isSome = true

theorem Valid.exists_org (h : Valid store event) :
    ∃ org, openOrganization event store = .ok org := by
  cases h with
  | planChange _ ho | status _ _ ho => exact ⟨_, ho⟩

theorem Valid.not_dangling (h : Valid x.store event) : x.danglingTenant event = false := by
  obtain ⟨org, ho⟩ := h.exists_org
  obtain ⟨hpa, hso⟩ := openOrganization_ok ho
  unfold Db.danglingTenant
  rw [hpa, any_some, isNone_eq_false_iff]
  exact hso

theorem Valid.applied (h : Valid store event) (hr : ¬ ReplacesRecord store event) (now : Int)
    (newId : String) :
    ∃ store' summary, applyEvent ⟨event, now, newId⟩ store = (store', .ok (.applied summary)) := by
  cases h with
  | @planChange org planId code hty ho hc hpl =>
    have hf : store.keyTaken (.manual newId org planId now) = false := by
      unfold Store.keyTaken
      cases hd : store.durable with
      | false => rfl
      | true =>
        show (store.subscriptionOf org).any _ = false
        cases hsub : store.subscriptionOf org with
        | none => rfl
        | some sub =>
          refine absurd ⟨hd, hty, org, (openOrganization_ok ho).1, ?_⟩ hr
          rw [hsub]
          rfl
    rw [applyEvent_of_plan hty ho hc]
    unfold assign Store.assignPlan
    rw [hpl]
    dsimp only
    rw [if_neg (by rw [hf]; decide)]
    exact ⟨_, _, rfl⟩
  | @status org sub hh hty ho hsub =>
    have hf : store.keyTaken (event.change now sub) = false := by
      unfold Store.keyTaken
      rw [VerifiedProviderEvent.change_organizationId, store.keyed org sub hsub, hsub,
        any_some, VerifiedProviderEvent.change_id, bne_self_eq_false, Bool.and_false]
    rw [applyEvent_of_status hh hty ho, hsub]
    unfold writeBack Store.updateSubscription
    dsimp only
    rw [if_neg (by rw [hf]; decide)]
    exact ⟨_, _, rfl⟩

theorem Sound.row_free (h : Sound sent event.key 0 s)
    (hk : ∀ e e', sent e → sent e' → e.key = e'.key → e = e') (hse : sent event)
    (hh : event.eventType.handled = true) (hi : s.running = []) :
    s.shared.providerEvents event.key = none := by
  have hr := h.recoverable
  rw [hi] at hr
  cases hro : s.shared.providerEvents event.key with
  | none => rfl
  | some processed =>
    rw [hro] at hr
    cases processed with
    | false =>
      have hle : 1 ≤ 0 + 0 := hr
      omega
    | true =>
      rcases hr with hle | ⟨other, ho, hke, hn⟩
      · omega
      · rw [hk other event ho hse hke, hh] at hn
        cases hn

/-- Each event takes effect at most once. If no delivery crashes between its claim and its
transition, then once no delivery is under way, another delivery of a valid event that has not
taken effect applies it and answers so. -/
theorem webhook_exactly_once {x : Db} {tr : Trace}
    (hkeys : ∀ e e', sent e → sent e' → e.key = e'.key → e = e')
    (hempty : ∀ key, x.providerEvents key = none)
    (hrun : Run (Faulty act (Delivery.Entry sent)) ⟨x, []⟩ tr t) :
    (∀ key, effects key tr ≤ 1) ∧
      ((∀ e ∈ tr, CrashesSafely e) → t.running = [] → ∀ event newId, sent event →
        Valid t.shared.store event → ¬ ReplacesRecord t.shared.store event →
        t.shared.legacyMarkerExists event.eventId = false → effects event.key tr = 0 →
          ∃ summary y, Solo act (.check event newId) t.shared (.applied summary) y ∧
            applyEvent ⟨event, t.shared.clock, newId⟩ t.shared.store =
              (y.store, .ok (.applied summary))) := by
  refine ⟨fun key => (trackedIn_run hempty hrun).le_one, ?_⟩
  intro hsa hi event newId hse hv hr hl hn
  have hh : event.eventType.handled = true := by
    cases hv with
    | planChange hty =>
      rw [hty]
      rfl
    | status hh => exact hh
  have hsou := sound_run event.key hempty hrun hsa
  rw [hn] at hsou
  have hro := hsou.row_free hkeys hse hh hi
  obtain ⟨store', summary, ha⟩ := hv.applied hr t.shared.clock newId
  obtain ⟨y, hst, hso⟩ := solo_delivery newId hl hro hv.not_dangling
  rw [ha] at hst hso
  exact ⟨summary, y, hso, by rw [ha, hst]⟩

private def durableDb : Db where
  clock := 0
  legacyMarkerExists := fun _ => false
  providerEvents := fun _ => none
  store :=
    { durable := true
      organizations := fun org => if org = "org" then some .active else none
      planByCode := fun code => some code.asStr
      subscriptionOf := fun org => if org = "org" then some (.manual "sub" "org" "pro" 0) else none
      keyed := by
        intro org sub h
        split_ifs at h with ho
        cases h
        exact ho.symm }

private def paymentFailed : VerifiedProviderEvent :=
  ⟨.stripe, "evt_1", .paymentFailed, ⟨some "org", none, none, none⟩⟩

private def planChanged : VerifiedProviderEvent :=
  ⟨.stripe, "evt_2", .planChanged, ⟨some "org", some .starter, none, none⟩⟩

private def crashEarly : List (FaultyMove Delivery) :=
  [.move (.call (.check paymentFailed "a")), .move (.go 0), .crash 0]

private def crashLate : List (FaultyMove Delivery) :=
  [.move (.call (.check paymentFailed "a")), .move (.go 0), .move (.go 0), .crash 0]

private theorem entry_of_crash {k : Delivery} {ms : List (FaultyMove Delivery)}
    (hm : ms = crashEarly ∨ ms = crashLate) (hk : .move (.call k) ∈ ms) :
    k.Entry (· = paymentFailed) := by
  have hc : k = .check paymentFailed "a" := by
    rcases hm with rfl | rfl
    · simpa [crashEarly] using hk
    · simpa [crashLate] using hk
  rw [hc]
  exact rfl

private theorem valid_paymentFailed {store : Store} {sub : Subscription}
    (ho : openOrganization paymentFailed store = .ok "org")
    (hsub : store.subscriptionOf "org" = some sub) :
    Valid store paymentFailed ∧ ¬ ReplacesRecord store paymentFailed :=
  ⟨.status rfl (by decide) ho hsub, fun h => nomatch h.2.1⟩

theorem webhook_exactly_once_crash_early : ∃ x tr t event, (∀ key, x.providerEvents key = none) ∧
      Run (Faulty act (Delivery.Entry (· = event))) ⟨x, []⟩ tr t ∧
      (∀ e ∈ tr, CrashesSafely e) ∧ t.running = [] ∧ effects event.key tr = 0 ∧
      ∃ summary y, Solo act (.check event "b") t.shared (.applied summary) y ∧
        applyEvent ⟨event, t.shared.clock, "b"⟩ t.shared.store =
          (y.store, .ok (.applied summary)) := by
  obtain ⟨⟨tr, t⟩, hf⟩ : ∃ out, followFaulty act ⟨durableDb, []⟩ crashEarly = some out :=
    Option.isSome_iff_exists.mp (by decide +kernel)
  have hfa : ∀ out, followFaulty act ⟨durableDb, []⟩ crashEarly = some out →
      (∀ e ∈ out.1, CrashesSafely e) ∧ out.2.running = [] ∧ effects paymentFailed.key out.1 = 0 ∧
        openOrganization paymentFailed out.2.shared.store = .ok "org" ∧
        out.2.shared.store.subscriptionOf "org" = some (.manual "sub" "org" "pro" 0) ∧
        out.2.shared.legacyMarkerExists "evt_1" = false := by decide +kernel
  obtain ⟨hsa, hi, hn, ho, hsub, hl⟩ := hfa _ hf
  have hru : Run (Faulty act (Delivery.Entry (· = paymentFailed))) ⟨durableDb, []⟩ tr t :=
    run_of_followFaulty hf fun k hk => entry_of_crash (.inl rfl) hk
  obtain ⟨hv, hr⟩ := valid_paymentFailed ho hsub
  obtain ⟨-, ha⟩ := webhook_exactly_once (fun e e' he he' _ => he.trans he'.symm) (fun _ => rfl) hru
  exact ⟨durableDb, tr, t, paymentFailed, fun _ => rfl, hru, hsa, hi, hn,
    ha hsa hi paymentFailed "b" rfl hv hr hl hn⟩

/-- After a crash between the claim and the transition every delivery of the event is turned away;
and a plan change is rejected if the tenant has a subscription. -/
theorem claim_stuck_and_plan_rejected :
    (∃ x tr t event, (∀ key, x.providerEvents key = none) ∧ x.store.durable = true ∧
      Run (Faulty act (Delivery.Entry (· = event))) ⟨x, []⟩ tr t ∧ t.running = [] ∧
      effects event.key tr = 0 ∧ Valid t.shared.store event ∧
      t.shared.legacyMarkerExists event.eventId = false ∧
      Solo act (.check event "b") t.shared
        (.unavailable "billing webhook event is already being processed; retry later") t.shared ∧
      ¬ ∃ summary y, Solo act (.check event "b") t.shared (.applied summary) y) ∧
    ∃ x event reason, (∀ key, x.providerEvents key = none) ∧ x.store.durable = true ∧
      Valid x.store event ∧ x.legacyMarkerExists event.eventId = false ∧
      ∃ y, y.store = x.store ∧ Solo act (.check event "b") x (.rejected reason) y := by
  constructor
  · obtain ⟨⟨tr, t⟩, hf⟩ : ∃ out, followFaulty act ⟨durableDb, []⟩ crashLate = some out :=
      Option.isSome_iff_exists.mp (by decide +kernel)
    have hfa : ∀ out, followFaulty act ⟨durableDb, []⟩ crashLate = some out →
        out.2.running = [] ∧ effects paymentFailed.key out.1 = 0 ∧
          openOrganization paymentFailed out.2.shared.store = .ok "org" ∧
          out.2.shared.store.subscriptionOf "org" = some (.manual "sub" "org" "pro" 0) ∧
          out.2.shared.legacyMarkerExists "evt_1" = false ∧
          out.2.shared.providerEvents paymentFailed.key = some false := by decide +kernel
    obtain ⟨hi, hn, ho, hsub, hl, hro⟩ := hfa _ hf
    have hru : Run (Faulty act (Delivery.Entry (· = paymentFailed))) ⟨durableDb, []⟩ tr
        t := run_of_followFaulty hf fun k hk => entry_of_crash (.inr rfl) hk
    have hst := solo_stuck "b" hl hro
    refine ⟨durableDb, tr, t, paymentFailed, fun _ => rfl, rfl, hru, hi, hn,
      (valid_paymentFailed ho hsub).1, hl, hst, ?_⟩
    rintro ⟨summary, y, hso⟩
    cases (hst.unique hso).1
  · have ho : openOrganization planChanged durableDb.store = .ok "org" := by decide +kernel
    have hv : Valid durableDb.store planChanged := .planChange rfl ho rfl rfl
    obtain ⟨y, hsto, hso⟩ := solo_delivery "b" rfl rfl hv.not_dangling
    exact ⟨durableDb, planChanged, _, fun _ => rfl, rfl, hv, rfl, y, hsto, hso⟩

end SniperBot.Billing
