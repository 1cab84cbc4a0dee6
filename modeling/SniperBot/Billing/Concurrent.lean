import Mathlib.Data.List.Permutation
import SniperBot.Billing.Subscription
import SniperBot.Lib.Serial

/-!
# Concurrent billing events

An event reads the whole subscription, changes a few fields and writes the whole back. If the
subscription is still the one that was read, the event is processed at the moment of its write as
if it were alone.
-/

namespace SniperBot.Billing

open Lib.Runs Lib.Interleaving Lib.Serial Apply

def processAlone (job : Job) (store : Store) : Store := (applyEvent job store).1

def Apply.Entry : Apply → Prop
  | .start _ => True
  | _ => False

variable (store : Store) (k : Apply)

/-- What the application of an event has found, and still finds. -/
def Apply.Admitted : Apply → Prop
  | .start _ => True
  | .read job org => job.event.eventType.handled = true ∧
    openOrganization job.event store = .ok org ∧ job.event.eventType ≠ .planChanged
  | .write job sub => job.event.eventType.handled = true ∧
    openOrganization job.event store = .ok sub.organizationId ∧ job.event.eventType ≠ .planChanged
  | .assign job org code => job.event.eventType = .planChanged ∧
    openOrganization job.event store = .ok org ∧ job.event.payload.planCode = some code

def Apply.Unchanged : Apply → Prop
  | .write _ sub => store.subscriptionOf sub.organizationId = some sub
  | _ => True

instance : Decidable (k.Unchanged store) := by
  unfold Apply.Unchanged
  split <;> infer_instance

/-! ## The sections of one event -/

theorem Apply.act_organizations (k : Apply) (store : Store) :
    (act k store).1.organizations = store.organizations := by
  cases k with
  | start job =>
    rcases act_start job store with ⟨r, h, -⟩ | ⟨org, code, -, -, -, h⟩ | ⟨org, -, -, -, h⟩
    · rw [h]
    · rw [h]
    · rw [h]
  | read job org =>
    rcases act_read job org store with ⟨-, h⟩ | ⟨sub, -, h⟩
    · rw [h]
    · rw [h]
  | write job sub =>
    show (writeBack job sub store).1.organizations = _
    rcases writeBack_cases job sub store with ⟨e, h⟩ | ⟨summary, h⟩
    · rw [h]
    · rw [h, Store.put_organizations]
  | assign job org code =>
    show (Billing.assign job org code store).1.organizations = _
    rcases assign_cases job org code store with ⟨e, h⟩ | ⟨planId, summary, -, h⟩
    · rw [h]
    · rw [h, Store.put_organizations]

theorem openOrganization_congr {event : VerifiedProviderEvent} {store store' : Store}
    (h : store'.organizations = store.organizations) :
    openOrganization event store' = openOrganization event store := by
  unfold openOrganization
  rw [h]

theorem Apply.Admitted.congr {k : Apply} {store store' : Store} (h : k.Admitted store)
    (ho : store'.organizations = store.organizations) : k.Admitted store' := by
  cases k with
  | start => trivial
  | read | write | assign =>
    refine ⟨h.1, ?_, h.2.2⟩
    rw [openOrganization_congr ho]
    exact h.2.1

theorem Apply.act_next {k k' : Apply} {store : Store} (h : k.Admitted store)
    (hnext : (act k store).2 = .inl k') : (act k store).1 = store ∧ k'.Admitted store := by
  cases k with
  | start job =>
    rcases act_start job store with
      ⟨r, ha, -⟩ | ⟨org, code, hpl, ho, hc, ha⟩ | ⟨org, hh, hpl, ho, ha⟩
    · rw [ha] at hnext
      cases hnext
    · rw [ha] at hnext ⊢
      cases hnext
      exact ⟨rfl, hpl, ho, hc⟩
    · rw [ha] at hnext ⊢
      cases hnext
      exact ⟨rfl, hh, ho, hpl⟩
  | read job org =>
    obtain ⟨hh, ho, hpl⟩ := h
    rcases act_read job org store with ⟨-, ha⟩ | ⟨sub, hsub, ha⟩
    · rw [ha] at hnext
      cases hnext
    · rw [ha] at hnext ⊢
      cases hnext
      rw [← store.keyed org sub hsub] at ho
      exact ⟨rfl, hh, ho, hpl⟩
  | write job sub | assign job org code => cases hnext

theorem Apply.act_last {k : Apply} {store : Store} {r : Except String ApplyOutcome}
    (h : k.Admitted store) (hun : k.Unchanged store) (hl : (act k store).2 = .inr r) :
    (act k store).1 = processAlone k.job store := by
  cases k with
  | start job =>
    rcases act_start job store with ⟨r', ha, hw, -⟩ | ⟨org, code, -, -, -, ha⟩ | ⟨org, -, -, -, ha⟩
    · rw [ha]
      show store = (applyEvent job store).1
      rw [hw]
    · rw [ha] at hl
      cases hl
    · rw [ha] at hl
      cases hl
  | read job org =>
    obtain ⟨hh, ho, hpl⟩ := h
    rcases act_read job org store with ⟨hsub, ha⟩ | ⟨sub, -, ha⟩
    · rw [ha]
      show store = (applyEvent job store).1
      rw [applyEvent_of_status hh hpl ho, hsub]
    · rw [ha] at hl
      cases hl
  | write job sub =>
    obtain ⟨hh, ho, hpl⟩ := h
    have hsub : store.subscriptionOf sub.organizationId = some sub := hun
    show (writeBack job sub store).1 = (applyEvent job store).1
    rw [applyEvent_of_status hh hpl ho, hsub]
  | assign job org code =>
    obtain ⟨hpl, ho, hc⟩ := h
    show (Billing.assign job org code store).1 = (applyEvent job store).1
    rw [applyEvent_of_plan hpl ho hc]

theorem apply_whole : Whole act job processAlone
    fun store k => k.Admitted store ∧ k.Unchanged store where
  goes_on := by
    intro k store k' h hnext
    exact ⟨(act_next h.1 hnext).1, act_job hnext⟩
  ends := by
    intro k store r h hl
    exact act_last h.1 h.2 hl

/-! ## Runs -/

section

variable (e : Entry (State Store Apply) (Label Apply (Except String ApplyOutcome)))

def WritesUnchanged : Prop := Grounded (fun store k => k.Unchanged store) e

instance  : Decidable (WritesUnchanged e) := by
  unfold WritesUnchanged Grounded
  split <;> infer_instance

end

theorem admitted_step {s t : State Store Apply} {a : Label Apply (Except String ApplyOutcome)}
    (h : Relies (fun store k => k.Admitted store) s) (hs : Step act Apply.Entry s a t) :
    Relies (fun store k => k.Admitted store) t := by
  intro k' hk'
  rcases hs.mem_running hk' with
    ⟨k, rfl, hsh, hc | hm⟩ | ⟨k, hk, rfl, hsh, hm | hnext⟩
  · cases k' with
    | start => trivial
    | _ => cases hc
  · rw [hsh]
    exact h k' hm
  · rw [hsh]
    exact (h k' (List.mem_of_mem_erase hm)).congr (act_organizations k s.shared)
  · rw [hsh]
    obtain ⟨-, ha⟩ := act_next (h k hk) hnext
    exact ha.congr (act_organizations k s.shared)

/-- If every write finds the subscription that was read, the store is what the events make of it
one after the other in some order. -/
theorem billing_serializable {store : Store} {t : State Store Apply}
    {tr : List (Entry (State Store Apply) (Label Apply (Except String ApplyOutcome)))}
    (hrun : Run (Step act Apply.Entry) ⟨store, []⟩ tr t)
    (hunchanged : ∀ e ∈ tr, WritesUnchanged e) (hdone : t.running = []) :
    ∃ order : List Job, order.Perm (begun job tr) ∧
      t.shared = order.foldl (fun store job => (applyEvent job store).1) store := by
  have hg : ∀ e ∈ tr, Grounded (fun store k => k.Admitted store ∧ k.Unchanged store) e := by
    intro e he
    have hn : Relies (fun store (k : Apply) => k.Admitted store) ⟨store, []⟩ :=
      fun k hk => nomatch hk
    obtain ⟨ha, hs⟩ := hrun.invariant_before
      (I := Relies fun store (k : Apply) => k.Admitted store) (P := fun _ => True)
      (fun _ _ _ h _ hs => admitted_step h hs) (fun _ _ => trivial) hn he
    have hw := hunchanged e he
    unfold WritesUnchanged Grounded at hw
    unfold Grounded
    rcases hs.shared_cases with ⟨k, hl, -⟩ | ⟨k, hk, hl, -⟩
    · rw [hl]
      trivial
    · rw [hl] at hw ⊢
      exact ⟨ha k hk, hw⟩
  exact exists_order apply_whole hrun hg hdone

private def oneSubscription (org : String) : Option Subscription :=
  if org = "org" then some (.manual "sub" "org" "pro" 0) else none

private theorem oneSubscription_keyed (org : String) (sub : Subscription)
    (h : oneSubscription org = some sub) : sub.organizationId = org := by
  unfold oneSubscription at h
  split_ifs at h with ho
  cases h
  exact ho.symm

private def subscribed : Store where
  durable := false
  organizations := fun org => if org = "org" then some .active else none
  planByCode := fun code => some code.asStr
  subscriptionOf := oneSubscription
  keyed := oneSubscription_keyed

private def canceled : Job :=
  ⟨⟨.stripe, "evt_1", .canceled, ⟨some "org", none, none, none⟩⟩, 10, "a"⟩

private def failed : Job :=
  ⟨⟨.stripe, "evt_2", .paymentFailed, ⟨some "org", none, none, none⟩⟩, 10, "b"⟩

private def inTurn : List (Move Apply) :=
  [.call (.start canceled), .call (.start failed), .go 1, .go 1, .go 0, .go 1, .go 0, .go 0]

private def atOnce : List (Move Apply) :=
  [.call (.start canceled), .call (.start failed), .go 1, .go 1, .go 0, .go 0, .go 1, .go 0]

theorem billing_serializable_in_turn : ∃ store tr t, Run (Step act Apply.Entry) ⟨store, []⟩ tr t ∧
      (∀ e ∈ tr, WritesUnchanged e) ∧ t.running = [] ∧ (begun job tr).length = 2 ∧
      ∃ order : List Job, order.Perm (begun job tr) ∧
        t.shared = order.foldl (fun store job => (applyEvent job store).1) store := by
  obtain ⟨tr, t, hr, hun, hd, htw⟩ : ∃ tr t,
      Run (Step act Apply.Entry) ⟨subscribed, []⟩ tr t ∧ (∀ e ∈ tr, WritesUnchanged e) ∧
        t.running = [] ∧ (begun job tr).length = 2 :=
    exists_run_of_follow inTurn (by simp [inTurn, Move.Allowed, Apply.Entry]) (by decide +kernel)
  exact ⟨subscribed, tr, t, hr, hun, hd, htw, billing_serializable hr hun hd⟩

/-- The cancellation is lost, which it is in neither order. -/
theorem cancellation_lost :
    ∃ store tr t, Run (Step act Apply.Entry) ⟨store, []⟩ tr t ∧ t.running = [] ∧
      begun job tr = [canceled, failed] ∧
      ¬ ∃ order : List Job, order.Perm (begun job tr) ∧ t.shared.subscriptionOf "org" =
          (order.foldl (fun store job => (applyEvent job store).1) store).subscriptionOf "org" := by
  obtain ⟨tr, t, hr, hd, hbe, ho⟩ : ∃ tr t,
      Run (Step act Apply.Entry) ⟨subscribed, []⟩ tr t ∧ t.running = [] ∧
        begun job tr = [canceled, failed] ∧
        ∀ order ∈ [canceled, failed].permutations', t.shared.subscriptionOf "org" ≠
          (order.foldl (fun store job => (applyEvent job store).1) subscribed).subscriptionOf
            "org" :=
    exists_run_of_follow atOnce (by simp [atOnce, Move.Allowed, Apply.Entry]) (by decide +kernel)
  refine ⟨subscribed, tr, t, hr, hd, hbe, ?_⟩
  rintro ⟨order, hpe, he⟩
  rw [hbe] at hpe
  exact ho order (List.mem_permutations'.mpr hpe) he

end SniperBot.Billing
