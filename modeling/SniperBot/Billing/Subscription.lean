import Mathlib.Logic.Function.Basic
import SniperBot.Lib.Interleaving

/-!
# Subscriptions and billing events

A tenant's subscription, the store that holds it, and what a verified event of a billing provider
does to it. The store is either in memory or durable; a durable store keeps one subscription
record per tenant under a unique key, so that a record with another id is refused.
-/

namespace SniperBot.Billing

open Lib.Interleaving Function

/-! ## Subscriptions -/

inductive BillingProvider where
  | manual
  | stripe
  | paddle
  deriving DecidableEq

inductive PlanCode where
  | starter
  | pro
  | business
  | enterprise
  deriving DecidableEq

def PlanCode.asStr : PlanCode → String
  | starter => "starter"
  | pro => "pro"
  | business => "business"
  | enterprise => "enterprise"

inductive SubscriptionStatus where
  | trialing
  | active
  | pastDue
  | paused
  | canceled
  | expired
  deriving DecidableEq

namespace SubscriptionStatus

def asStr : SubscriptionStatus → String
  | trialing => "trialing"
  | active => "active"
  | pastDue => "past_due"
  | paused => "paused"
  | canceled => "canceled"
  | expired => "expired"

def grantsEntitlements : SubscriptionStatus → Bool
  | trialing | active | pastDue => true
  | _ => false

end SubscriptionStatus

structure Subscription where
  id : String
  organizationId : String
  planId : String
  provider : BillingProvider
  providerRef : Option String
  status : SubscriptionStatus
  currentPeriodStart : Int
  /-- `none` is open-ended. -/
  currentPeriodEnd : Option Int
  cancelAtPeriodEnd : Bool
  canceledAt : Option Int
  createdAt : Int
  updatedAt : Int
  deriving DecidableEq

namespace Subscription

def manual (id organizationId planId : String) (now : Int) : Subscription where
  id := id
  organizationId := organizationId
  planId := planId
  provider := .manual
  providerRef := none
  status := .active
  currentPeriodStart := now
  currentPeriodEnd := none
  cancelAtPeriodEnd := false
  canceledAt := none
  createdAt := now
  updatedAt := now

variable (sub : Subscription) (now : Int)

def isEffective : Bool :=
  sub.status.grantsEntitlements && sub.currentPeriodEnd.all fun periodEnd => now < periodEnd

def cancel (atPeriodEnd : Bool) (now : Int) : Subscription :=
  let sub := { sub with
    cancelAtPeriodEnd := atPeriodEnd, canceledAt := some now, updatedAt := now }
  if atPeriodEnd then sub else { sub with status := .canceled, currentPeriodEnd := some now }

/-- Advance the period. Clears a past-due state. -/
def renew (periodEnd : Option Int) (now : Int) : Subscription :=
  { sub with
    currentPeriodStart := now
    currentPeriodEnd := periodEnd
    status := if sub.status = .pastDue then .active else sub.status
    updatedAt := now }

end Subscription

/-! ## Events -/

/-- The type of an event; `other` are the texts that are not handled. -/
inductive EventType where
  | paymentFailed
  | renewed
  | canceled
  | expired
  | planChanged
  | other (name : String)
  deriving DecidableEq

def EventType.handled : EventType → Bool
  | other _ => false
  | _ => true

/-- The fields that are read from the payload, `none` where one is missing or malformed. -/
structure Payload where
  organizationId : Option String
  planCode : Option PlanCode
  currentPeriodEnd : Option Int
  atPeriodEnd : Option Bool
  deriving DecidableEq

structure VerifiedProviderEvent where
  provider : BillingProvider
  eventId : String
  eventType : EventType
  payload : Payload
  deriving DecidableEq

def VerifiedProviderEvent.change (event : VerifiedProviderEvent) (now : Int)
    (sub : Subscription) : Subscription :=
  match event.eventType with
  | .paymentFailed => { sub with status := .pastDue }
  | .expired => { sub with status := .expired }
  | .renewed => sub.renew event.payload.currentPeriodEnd now
  | .canceled => sub.cancel (event.payload.atPeriodEnd.getD false) now
  | .planChanged | .other _ => sub

/-! ## The store -/

inductive OrganizationStatus where
  | active
  | trialing
  | pastDue
  | suspended
  | closed
  deriving DecidableEq

def canAuthenticate (status : OrganizationStatus) : Bool := status ≠ .closed

structure Store where
  durable : Bool
  organizations : String → Option OrganizationStatus
  planByCode : PlanCode → Option String
  subscriptionOf : String → Option Subscription
  keyed : ∀ org sub, subscriptionOf org = some sub → sub.organizationId = org

namespace Store

variable (store : Store) (sub : Subscription)

def put : Store :=
  { store with
    subscriptionOf := update store.subscriptionOf sub.organizationId (some sub)
    keyed := by
      intro org stored hst
      by_cases ho : org = sub.organizationId
      · rw [ho, update_self] at hst
        cases hst
        exact ho.symm
      · rw [update_of_ne ho] at hst
        exact store.keyed org stored hst }

def keyTaken : Bool :=
  store.durable && (store.subscriptionOf sub.organizationId).any fun stored => stored.id != sub.id

def assignPlan (organizationId : String) (code : PlanCode) (now : Int)
    (newId : String) : Except String (Store × Subscription) :=
  match store.planByCode code with
  | none => .error ("not found: plan " ++ code.asStr)
  | some planId =>
    let sub := .manual newId organizationId planId now
    if store.keyTaken sub then .error "database error: write SaaS subscription: duplicate key"
    else .ok (store.put sub, sub)

def updateSubscription : Except String Store :=
  if store.keyTaken sub then .error "database error: upsert SaaS subscription: duplicate key"
  else .ok (store.put sub)

end Store

/-! ## Applying an event -/

inductive ApplyOutcome where
  | applied (summary : String)
  | ignored

def applied : Except String ApplyOutcome → Bool
  | .ok (.applied _) => true
  | _ => false

/-- An event, the time at which it is applied, and the id for a subscription it creates. -/
structure Job where
  event : VerifiedProviderEvent
  now : Int
  newId : String
  deriving DecidableEq

def openOrganization (event : VerifiedProviderEvent) (store : Store) : Except String String :=
  match event.payload.organizationId with
  | none => .error "data.organization_id is missing or malformed"
  | some org =>
    match store.organizations org with
    | none => .error "organization does not exist"
    | some status =>
      if canAuthenticate status then .ok org else .error "organization is closed"

def assign (job : Job) (org : String) (code : PlanCode) (store : Store) :
    Store × Except String ApplyOutcome :=
  match store.assignPlan org code job.now job.newId with
  | .error e => (store, .error ("plan assignment failed: " ++ e))
  | .ok (store', sub) =>
    (store', .ok (.applied ("plan=" ++ code.asStr ++ " subscription=" ++ sub.id)))

def writeBack (job : Job) (read : Subscription) (store : Store) :
    Store × Except String ApplyOutcome :=
  let sub := job.event.change job.now read
  match store.updateSubscription sub with
  | .error e => (store, .error ("subscription update failed: " ++ e))
  | .ok store' =>
    (store', .ok (.applied ("subscription=" ++ sub.id ++ " status=" ++ sub.status.asStr)))

def applyEvent (job : Job) (store : Store) : Store × Except String ApplyOutcome :=
  if job.event.eventType.handled = false then (store, .ok .ignored)
  else
    match openOrganization job.event store with
    | .error e => (store, .error e)
    | .ok org =>
      if job.event.eventType = .planChanged then
        match job.event.payload.planCode with
        | none => (store, .error "data.plan_code is not a known plan")
        | some code => assign job org code store
      else
        match store.subscriptionOf org with
        | none => (store, .error "organization has no subscription")
        | some sub => writeBack job sub store

/-- Where the application of an event stands: reading the subscription, writing it back and
assigning a plan are separate store calls. -/
inductive Apply where
  | start (job : Job)
  | read (job : Job) (org : String)
  | write (job : Job) (read : Subscription)
  | assign (job : Job) (org : String) (code : PlanCode)
  deriving DecidableEq

namespace Apply

def act : Apply → Store → Store × (Apply ⊕ Except String ApplyOutcome)
  | start job, store =>
    if job.event.eventType.handled = false then (store, .inr (.ok .ignored))
    else
      match openOrganization job.event store with
      | .error e => (store, .inr (.error e))
      | .ok org =>
        if job.event.eventType = .planChanged then
          match job.event.payload.planCode with
          | none => (store, .inr (.error "data.plan_code is not a known plan"))
          | some code => (store, .inl (assign job org code))
        else (store, .inl (read job org))
  | read job org, store =>
    match store.subscriptionOf org with
    | none => (store, .inr (.error "organization has no subscription"))
    | some sub => (store, .inl (write job sub))
  | write job sub, store => ((writeBack job sub store).1, .inr (writeBack job sub store).2)
  | assign job org code, store =>
    ((Billing.assign job org code store).1, .inr (Billing.assign job org code store).2)

def job : Apply → Job
  | start job | read job _ | write job _ | assign job _ _ => job

end Apply

/-! ## What applying an event does -/

section

variable {store : Store} {sub : Subscription}

theorem Store.put_same (store : Store) (sub : Subscription) :
    (store.put sub).subscriptionOf sub.organizationId = some sub :=
  update_self _ _ _

theorem Store.put_other {org : String} (h : org ≠ sub.organizationId) :
    (store.put sub).subscriptionOf org = store.subscriptionOf org :=
  update_of_ne h _ _

@[simp]
theorem Store.put_organizations : (store.put sub).organizations = store.organizations := rfl

@[simp]
theorem VerifiedProviderEvent.change_organizationId (event : VerifiedProviderEvent) (now : Int) :
    (event.change now sub).organizationId = sub.organizationId := by
  unfold change Subscription.cancel
  cases event.eventType with
  | canceled => dsimp only; split_ifs <;> rfl
  | _ => rfl

@[simp]
theorem VerifiedProviderEvent.change_id (event : VerifiedProviderEvent) (now : Int) :
    (event.change now sub).id = sub.id := by
  unfold change Subscription.cancel
  cases event.eventType with
  | canceled => dsimp only; split_ifs <;> rfl
  | _ => rfl

theorem openOrganization_ok {event : VerifiedProviderEvent} {org : String}
    (h : openOrganization event store = .ok org) :
    event.payload.organizationId = some org ∧ (store.organizations org).isSome = true := by
  unfold openOrganization at h
  cases ho : event.payload.organizationId with
  | none =>
    simp only [ho] at h
    cases h
  | some org' =>
    simp only [ho] at h
    cases hst : store.organizations org' with
    | none =>
      simp only [hst] at h
      cases h
    | some status =>
      simp only [hst] at h
      split_ifs at h
      cases h
      exact ⟨rfl, by rw [hst]; rfl⟩

variable (job : Job) (org : String)

theorem assign_cases (code : PlanCode) (store : Store) :
    (∃ e, assign job org code store = (store, .error e)) ∨
    ∃ planId summary, store.planByCode code = some planId ∧ assign job org code store =
        (store.put (.manual job.newId org planId job.now), .ok (.applied summary)) := by
  unfold assign Store.assignPlan
  cases hpl : store.planByCode code with
  | none => exact .inl ⟨_, rfl⟩
  | some planId =>
    dsimp only
    split_ifs
    · exact .inl ⟨_, rfl⟩
    · exact .inr ⟨planId, _, rfl, rfl⟩

theorem writeBack_cases (sub : Subscription) (store : Store) :
    (∃ e, writeBack job sub store = (store, .error e)) ∨ ∃ summary, writeBack job sub store =
      (store.put (job.event.change job.now sub), .ok (.applied summary)) := by
  unfold writeBack Store.updateSubscription
  dsimp only
  split_ifs
  · exact .inl ⟨_, rfl⟩
  · exact .inr ⟨_, rfl⟩

theorem applyEvent_of_plan {job : Job} {org : String} {code : PlanCode}
    (hpl : job.event.eventType = .planChanged) (ho : openOrganization job.event store = .ok org)
    (hc : job.event.payload.planCode = some code) :
    applyEvent job store = assign job org code store := by
  unfold applyEvent
  rw [hpl, if_neg (by decide), ho]
  dsimp only
  rw [if_pos rfl, hc]

theorem applyEvent_of_status {job : Job} {org : String}
    (hh : job.event.eventType.handled = true) (hpl : job.event.eventType ≠ .planChanged)
    (ho : openOrganization job.event store = .ok org) :
    applyEvent job store = match store.subscriptionOf org with
      | none => (store, .error "organization has no subscription")
      | some sub => writeBack job sub store := by
  unfold applyEvent
  rw [hh, if_neg (by decide), ho]
  dsimp only
  rw [if_neg hpl]

theorem Apply.act_start (store : Store) :
    (∃ r, act (.start job) store = (store, .inr r) ∧ applyEvent job store = (store, r) ∧
    (r = .ok .ignored → job.event.eventType.handled = false)) ∨
    (∃ org code, job.event.eventType = .planChanged ∧
      openOrganization job.event store = .ok org ∧ job.event.payload.planCode = some code ∧
      act (.start job) store = (store, .inl (.assign job org code))) ∨
    ∃ org, job.event.eventType.handled = true ∧ job.event.eventType ≠ .planChanged ∧
      openOrganization job.event store = .ok org ∧
      act (.start job) store = (store, .inl (.read job org)) := by
  unfold applyEvent
  simp only [act]
  split_ifs with hh hpl
  · exact .inl ⟨_, rfl, rfl, fun _ => hh⟩
  · cases ho : openOrganization job.event store with
    | error e => exact .inl ⟨_, rfl, rfl, fun h => nomatch h⟩
    | ok org =>
      cases hc : job.event.payload.planCode with
      | none => exact .inl ⟨_, rfl, rfl, fun h => nomatch h⟩
      | some code => exact .inr (.inl ⟨org, code, hpl, rfl, rfl, rfl⟩)
  · cases ho : openOrganization job.event store with
    | error e => exact .inl ⟨_, rfl, rfl, fun h => nomatch h⟩
    | ok org => exact .inr (.inr ⟨org, eq_true_of_ne_false hh, hpl, rfl, rfl⟩)

theorem Apply.act_read (store : Store) : (store.subscriptionOf org = none ∧
    act (.read job org) store = (store, .inr (.error "organization has no subscription"))) ∨
    ∃ sub, store.subscriptionOf org = some sub ∧
      act (.read job org) store = (store, .inl (.write job sub)) := by
  simp only [act]
  cases hsub : store.subscriptionOf org with
  | none => exact .inl ⟨rfl, rfl⟩
  | some sub => exact .inr ⟨sub, rfl, rfl⟩

theorem Apply.act_job {k k' : Apply} (h : (act k store).2 = .inl k') : k'.job = k.job := by
  cases k with
  | start job =>
    rcases act_start job store with ⟨r, ha, -⟩ | ⟨org, code, -, -, -, ha⟩ | ⟨org, -, -, -, ha⟩
    · rw [ha] at h
      cases h
    · rw [ha] at h
      cases h
      rfl
    · rw [ha] at h
      cases h
      rfl
  | read job org =>
    rcases act_read job org store with ⟨-, ha⟩ | ⟨sub, -, ha⟩
    · rw [ha] at h
      cases h
    · rw [ha] at h
      cases h
      rfl
  | write job sub | assign job org code => cases h

theorem applyEvent_cases (store : Store) :
    ((applyEvent job store).1 = store ∧ applied (applyEvent job store).2 = false) ∨
    (∃ org planId summary, job.event.eventType = .planChanged ∧
      job.event.payload.organizationId = some org ∧ applyEvent job store =
        (store.put (.manual job.newId org planId job.now), .ok (.applied summary))) ∨
    ∃ org sub summary, job.event.eventType ≠ .planChanged ∧
      job.event.payload.organizationId = some org ∧ store.subscriptionOf org = some sub ∧
      applyEvent job store =
        (store.put (job.event.change job.now sub), .ok (.applied summary)) := by
  unfold applyEvent
  split_ifs with hh hpl
  · exact .inl ⟨rfl, rfl⟩
  · cases ho : openOrganization job.event store with
    | error e => exact .inl ⟨rfl, rfl⟩
    | ok org =>
      cases job.event.payload.planCode with
      | none => exact .inl ⟨rfl, rfl⟩
      | some code =>
        dsimp only
        rcases assign_cases job org code store with ⟨e, h⟩ | ⟨planId, summary, -, h⟩
        · rw [h]
          exact .inl ⟨rfl, rfl⟩
        · exact .inr (.inl ⟨org, planId, summary, hpl, (openOrganization_ok ho).1, h⟩)
  · cases ho : openOrganization job.event store with
    | error e => exact .inl ⟨rfl, rfl⟩
    | ok org =>
      dsimp only
      cases hsub : store.subscriptionOf org with
      | none => exact .inl ⟨rfl, rfl⟩
      | some sub =>
        dsimp only
        rcases writeBack_cases job sub store with ⟨e, h⟩ | ⟨summary, h⟩
        · rw [h]
          exact .inl ⟨rfl, rfl⟩
        · exact .inr (.inr ⟨org, sub, summary, hpl, (openOrganization_ok ho).1, hsub, h⟩)

end

end SniperBot.Billing
