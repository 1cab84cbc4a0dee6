import SniperBot.Billing.Subscription

/-!
# Subscriptions that have ended

Events are processed one after the other at times that do not decrease. A failed payment sets the
status without looking at it, and a renewal moves the end of the period of a subscription that was
to end with it; without those two an ended subscription stays ended.
-/

namespace SniperBot.Billing

open Lib.Runs VerifiedProviderEvent

structure World where
  store : Store
  clock : Int

open World

def World.processed (s : World) (job : Job) : World := ⟨(applyEvent job s.store).1, job.now⟩

def Process (s : World) (job : Job) (t : World) : Prop := t = s.processed job ∧ s.clock ≤ job.now

def World.effective (s : World) (org : String) (time : Int) : Bool :=
  (s.store.subscriptionOf org).any fun sub => sub.isEffective time

def AssignsPlan (org : String) (e : Entry World Job) : Prop :=
  e.label.event.eventType = .planChanged ∧ e.label.event.payload.organizationId = some org ∧
    applied (applyEvent e.label e.pre.store).2 = true

/-- The tenant's subscription is canceled, at the end of its period or at once. -/
def Cancels (org : String) (atPeriodEnd : Bool) (e : Entry World Job) : Prop :=
  e.label.event.eventType = .canceled ∧ e.label.event.payload.organizationId = some org ∧
    e.label.event.payload.atPeriodEnd.getD false = atPeriodEnd ∧
      applied (applyEvent e.label e.pre.store).2 = true

/-- No payment fails for a subscription that has ended, and none is renewed that is to end with
its period. -/
def Respects (e : Entry World Job) : Prop :=
  ∀ org ∈ e.label.event.payload.organizationId, ∀ sub ∈ e.pre.store.subscriptionOf org,
    (e.label.event.eventType = .paymentFailed → sub.status ≠ .expired ∧ sub.status ≠ .canceled) ∧
      (e.label.event.eventType = .renewed → sub.cancelAtPeriodEnd = false)

instance (org : String) (e : Entry World Job) : Decidable (AssignsPlan org e) :=
  inferInstanceAs (Decidable (_ ∧ _ ∧ _))

instance (org : String) (atPeriodEnd : Bool) (e : Entry World Job) :
    Decidable (Cancels org atPeriodEnd e) :=
  inferInstanceAs (Decidable (_ ∧ _ ∧ _ ∧ _))

instance (e : Entry World Job) : Decidable (Respects e) := by
  unfold Respects
  infer_instance

/-! ## One subscription -/

/-- The subscription has ended, or it ends at the limit at the latest. -/
inductive Over (limit : Option Int) (sub : Subscription) : Prop
  | ended (h : sub.status = .expired ∨ sub.status = .canceled)
  | ending {last periodEnd : Int} (hlimit : limit = some last)
      (hend : sub.currentPeriodEnd = some periodEnd) (hle : periodEnd ≤ last)
      (hflag : sub.cancelAtPeriodEnd = true)

theorem Over.not_effective {limit : Option Int} {sub : Subscription} {time : Int}
    (h : Over limit sub) (hti : ∀ last, limit = some last → last ≤ time) :
    sub.isEffective time = false := by
  unfold Subscription.isEffective
  cases h with
  | ended h =>
    rcases h with h | h
    · rw [h]
      rfl
    · rw [h]
      rfl
  | @ending last periodEnd hl he hle _ =>
    have hla := hti last hl
    rw [he, Option.all_some, decide_eq_false (by omega), Bool.and_false]

theorem Over.change {limit : Option Int} {sub : Subscription} (h : Over limit sub)
    (event : VerifiedProviderEvent) (now : Int)
    (hfa : event.eventType = .paymentFailed → sub.status ≠ .expired ∧ sub.status ≠ .canceled)
    (hr : event.eventType = .renewed → sub.cancelAtPeriodEnd = false) :
    Over limit (event.change now sub) := by
  unfold VerifiedProviderEvent.change
  cases hty : event.eventType with
  | paymentFailed =>
    cases h with
    | ended h =>
      obtain ⟨he, hc⟩ := hfa hty
      rcases h with h | h
      · exact absurd h he
      · exact absurd h hc
    | ending hl hen hle hf => exact .ending hl hen hle hf
  | expired => exact .ended (.inl rfl)
  | renewed =>
    cases h with
    | ended h =>
      -- a renewal only lifts a past-due status
      have hst : (sub.renew event.payload.currentPeriodEnd now).status = sub.status := by
        have hn : sub.status ≠ .pastDue := by
          rcases h with h | h <;> rw [h] <;> decide
        exact if_neg hn
      exact .ended (hst ▸ h)
    | ending _ _ _ hf =>
      rw [hr hty] at hf
      cases hf
  | canceled =>
    cases event.payload.atPeriodEnd.getD false with
    | false => exact .ended (.inr rfl)
    | true =>
      cases h with
      | ended h => exact .ended h
      | ending hl hen hle _ => exact .ending hl hen hle rfl
  | planChanged | other name => exact h

/-! ## Runs -/

def OverFor (org : String) (limit : Option Int) (s : World) : Prop :=
  ∃ sub, s.store.subscriptionOf org = some sub ∧ Over limit sub

variable {org : String} {limit : Option Int} {s t : World}

theorem OverFor.step {job : Job} (h : OverFor org limit s) (hs : Process s job t)
    (hre : Respects ⟨s, job, t⟩) (hpl : ¬ AssignsPlan org ⟨s, job, t⟩) :
    OverFor org limit t := by
  obtain ⟨sub, hsub, ho⟩ := h
  obtain ⟨rfl, -⟩ := hs
  unfold processed
  rcases applyEvent_cases job s.store with
    ⟨hsa, -⟩ | ⟨org', planId, summary, hty, ho', ha⟩ | ⟨org', sub', summary, -, ho', hs', ha⟩
  · rw [hsa]
    exact ⟨sub, hsub, ho⟩
  · have hn : org ≠ org' := by
      rintro rfl
      refine hpl ⟨hty, ho', ?_⟩
      rw [ha]
      rfl
    rw [ha]
    exact ⟨sub, (Store.put_other hn).trans hsub, ho⟩
  · obtain ⟨hf, hr⟩ := hre org' ho' sub' hs'
    have hk := s.store.keyed org' sub' hs'
    rw [ha]
    by_cases hor : org = org'
    · subst hor
      rw [hsub] at hs'
      cases hs'
      have hpu := s.store.put_same (job.event.change job.now sub)
      rw [change_organizationId, hk] at hpu
      exact ⟨_, hpu, ho.change job.event job.now hf hr⟩
    · refine ⟨sub, (Store.put_other ?_).trans hsub, ho⟩
      rw [change_organizationId, hk]
      exact hor

theorem OverFor.run {tr : List (Entry World Job)} (h : OverFor org limit s)
    (hru : Run Process s tr t) (hr : ∀ e ∈ tr, Respects e)
    (hpl : ∀ e ∈ tr, ¬ AssignsPlan org e) : OverFor org limit t :=
  hru.invariant_of_entries (I := OverFor org limit) (P := fun e => Respects e ∧ ¬ AssignsPlan org e)
    (fun _ _ _ h hen hs => h.step hs hen.1 hen.2)
    (fun e he => ⟨hr e he, hpl e he⟩) h

theorem OverFor.not_effective {time : Int} (h : OverFor org limit s)
    (hti : ∀ last, limit = some last → last ≤ time) : s.effective org time = false := by
  obtain ⟨sub, hsub, ho⟩ := h
  unfold effective
  rw [hsub]
  exact ho.not_effective hti

theorem overFor_of_cancels {e : Entry World Job} {atPeriodEnd : Bool}
    (hs : Process e.pre e.label e.post) (h : Cancels org atPeriodEnd e) :
    ∃ sub, e.pre.store.subscriptionOf org = some sub ∧
    e.post.store.subscriptionOf org = some (sub.cancel atPeriodEnd e.label.now) := by
  obtain ⟨hty, ho, hat, ha⟩ := h
  obtain ⟨hpo, -⟩ := hs
  rw [hpo]
  unfold processed
  rcases applyEvent_cases e.label e.pre.store with
    ⟨-, hn⟩ | ⟨org', planId, summary, ht', -, -⟩ | ⟨org', sub, summary, -, ho', hsub, hap⟩
  · rw [hn] at ha
    cases ha
  · rw [hty] at ht'
    cases ht'
  · rw [ho] at ho'
    cases ho'
    have hpu := e.pre.store.put_same (e.label.event.change e.label.now sub)
    have hc : e.label.event.change e.label.now sub = sub.cancel atPeriodEnd e.label.now := by
      unfold change
      rw [hty]
      rw [hat]
    rw [change_organizationId, e.pre.store.keyed org sub hsub, hc] at hpu
    refine ⟨sub, hsub, ?_⟩
    rw [hap, hc]
    exact hpu

/-- As long as no plan change gives the tenant a new subscription, one that has expired or was
canceled at once is not effective again, and one that was canceled at the end of its period is
not effective at or after that end. -/
theorem ended_stays_ended {tr1 tr2 : List (Entry World Job)} {e : Entry World Job}
    (hrun : Run Process s (tr1 ++ e :: tr2) t) (hrespects : ∀ e' ∈ tr2, Respects e')
    (hplan : ∀ e' ∈ tr2, ¬ AssignsPlan org e') :
    ((∃ sub, e.post.store.subscriptionOf org = some sub ∧ sub.status = .expired) →
      ∀ time, t.clock ≤ time → t.effective org time = false) ∧
    (Cancels org false e → ∀ time, t.clock ≤ time → t.effective org time = false) ∧
    (Cancels org true e → ∀ sub periodEnd, e.pre.store.subscriptionOf org = some sub →
      sub.currentPeriodEnd = some periodEnd →
        ∀ time, t.clock ≤ time → periodEnd ≤ time → t.effective org time = false) := by
  obtain ⟨-, hs, hrest⟩ := hrun.around
  refine ⟨?_, ?_, ?_⟩
  · rintro ⟨sub, hsub, he⟩ time -
    have ho : OverFor org none e.post := ⟨sub, hsub, .ended (.inl he)⟩
    exact (ho.run hrest hrespects hplan).not_effective fun _ h => nomatch h
  · intro hc time _
    obtain ⟨sub, -, hpo⟩ := overFor_of_cancels hs hc
    have ho : OverFor org none e.post := ⟨_, hpo, .ended (.inr rfl)⟩
    exact (ho.run hrest hrespects hplan).not_effective fun _ h => nomatch h
  · intro hc sub periodEnd hsub hen time _ hti
    obtain ⟨sub', hs', hpo⟩ := overFor_of_cancels hs hc
    rw [hsub] at hs'
    cases hs'
    have ho : OverFor org (some periodEnd) e.post :=
      ⟨_, hpo, .ending rfl hen (Int.le_refl periodEnd) rfl⟩
    refine (ho.run hrest hrespects hplan).not_effective ?_
    rintro last ⟨rfl⟩
    exact hti

private def newcomer : World where
  store :=
    { durable := false
      organizations := fun org => if org = "org" then some .active else none
      planByCode := fun code => some code.asStr
      subscriptionOf := fun _ => none
      keyed := fun _ _ h => nomatch h }
  clock := 0

private def sentJob (eventType : EventType) (now : Int) (periodEnd : Option Int) : Job :=
  ⟨⟨.manual, "evt", eventType, ⟨some "org", some .pro, periodEnd, some true⟩⟩, now, "sub"⟩

private theorem run_of_jobs (jobs : List Job)
    (h : ∀ e ∈ history processed newcomer jobs, e.pre.clock ≤ e.label.now) :
    Run Process newcomer (history processed newcomer jobs) (jobs.foldl processed newcomer) :=
  (run_history processed newcomer jobs).restrict
    (P := fun e : Entry World Job => e.pre.clock ≤ e.label.now) h

private def canceling : List Job :=
  [sentJob .planChanged 0 none, sentJob .renewed 1 (some 100), sentJob .canceled 10 none,
    sentJob .paymentFailed 20 none]

private def expiring : List Job :=
  [sentJob .planChanged 0 none, sentJob .expired 10 none, sentJob .paymentFailed 20 none]

private def renewing : List Job :=
  [sentJob .planChanged 0 none, sentJob .renewed 1 (some 100), sentJob .canceled 10 none,
    sentJob .renewed 90 (some 200)]

theorem ended_stays_ended_canceling :
    ∃ s tr1 e tr2 t, Run Process s (tr1 ++ e :: tr2) t ∧ (∀ e' ∈ tr2, Respects e') ∧
      (∀ e' ∈ tr2, ¬ AssignsPlan "org" e') ∧ Cancels "org" true e ∧ t.effective "org" 99 = true ∧
      ∀ time, t.clock ≤ time → 100 ≤ time → t.effective "org" time = false := by
  have hru := run_of_jobs canceling (by decide +kernel)
  have hsp : history processed newcomer canceling = (history processed newcomer canceling).take 2 ++
        ((history processed newcomer canceling).get ⟨2, by decide⟩) ::
          (history processed newcomer canceling).drop 3 := rfl
  rw [hsp] at hru
  have hr : ∀ e ∈ (history processed newcomer canceling).drop 3, Respects e := by
    decide +kernel
  have hpl : ∀ e ∈ (history processed newcomer canceling).drop 3,
      ¬ AssignsPlan "org" e := by decide +kernel
  have hc : Cancels "org" true
      ((history processed newcomer canceling).get ⟨2, by decide⟩) := by decide +kernel
  obtain ⟨-, -, he⟩ := ended_stays_ended hru hr hpl
  exact ⟨_, _, _, _, _, hru, hr, hpl, hc, by decide +kernel, he hc _ 100 rfl rfl⟩

/-- An expired subscription is effective again after a failed payment, and one that was to end
with its period after a renewal. -/
theorem ended_comes_back :
    (∃ s tr1 e tr2 t, Run Process s (tr1 ++ e :: tr2) t ∧ (∀ e' ∈ tr2, ¬ AssignsPlan "org" e') ∧
      (∃ sub, e.post.store.subscriptionOf "org" = some sub ∧ sub.status = .expired) ∧
      t.effective "org" t.clock = true) ∧
    ∃ s tr1 e tr2 t, Run Process s (tr1 ++ e :: tr2) t ∧ (∀ e' ∈ tr2, ¬ AssignsPlan "org" e') ∧
      Cancels "org" true e ∧
      (∃ sub, e.pre.store.subscriptionOf "org" = some sub ∧ sub.currentPeriodEnd = some 100) ∧
      t.clock ≤ 150 ∧ t.effective "org" 150 = true := by
  have he := run_of_jobs expiring (by decide +kernel)
  have hsp : history processed newcomer expiring = (history processed newcomer expiring).take 1 ++
        ((history processed newcomer expiring).get ⟨1, by decide⟩) ::
          (history processed newcomer expiring).drop 2 := rfl
  rw [hsp] at he
  have hr := run_of_jobs renewing (by decide +kernel)
  have hs' : history processed newcomer renewing = (history processed newcomer renewing).take 2 ++
        ((history processed newcomer renewing).get ⟨2, by decide⟩) ::
          (history processed newcomer renewing).drop 3 := rfl
  rw [hs'] at hr
  refine ⟨⟨_, _, _, _, _, he, ?_, ⟨_, rfl, rfl⟩, ?_⟩,
    ⟨_, _, _, _, _, hr, ?_, ?_, ⟨_, rfl, rfl⟩, ?_, ?_⟩⟩
  all_goals decide +kernel

end SniperBot.Billing
