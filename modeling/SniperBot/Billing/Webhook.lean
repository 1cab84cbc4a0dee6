import SniperBot.Billing.Subscription

/-!
# Webhook deliveries

A delivery of a verified event claims the event's row, applies the event and completes the row, or
releases it if the event is rejected. Each of these is a separate durable write. A row that is
claimed and not completed makes every other delivery of its event answer "retry later".
-/

namespace SniperBot.Billing

open Lib.Interleaving

abbrev Key := BillingProvider × String

def VerifiedProviderEvent.key (event : VerifiedProviderEvent) : Key :=
  (event.provider, event.eventId)

structure Db where
  clock : Int
  /-- The markers of an older release, by the id of the event alone. They are only read. -/
  legacyMarkerExists : String → Bool
  /-- The rows of `provider_events`: is the event processed? -/
  providerEvents : Key → Option Bool
  store : Store

namespace Db

def setProcessed (x : Db) (key : Key) (processed : Option Bool) : Db :=
  { x with providerEvents := Function.update x.providerEvents key processed }

def danglingTenant (x : Db) (event : VerifiedProviderEvent) : Bool :=
  event.payload.organizationId.any fun org => (x.store.organizations org).isNone

end Db

inductive Delivery where
  | check (event : VerifiedProviderEvent) (newId : String)
  | claim (event : VerifiedProviderEvent) (newId : String)
  | inspect (event : VerifiedProviderEvent)
  | claimed (event : VerifiedProviderEvent) (newId : String)
  | applying (k : Apply)
  | complete (event : VerifiedProviderEvent) (outcome : ApplyOutcome)
  | release (event : VerifiedProviderEvent) (reason : String)
  | tick (time : Int)
  | setOrganization (org : String) (status : OrganizationStatus)

inductive Response where
  | duplicate
  | applied (summary : String)
  | ignored
  | rejected (reason : String)
  | unavailable (reason : String)
  | done

def afterApply (event : VerifiedProviderEvent) : Apply ⊕ Except String ApplyOutcome → Delivery
  | .inl k => .applying k
  | .inr (.ok outcome) => .complete event outcome
  | .inr (.error reason) => .release event reason

def acknowledge : ApplyOutcome → Response
  | .applied summary => .applied summary
  | .ignored => .ignored

namespace Delivery

def act : Delivery → Db → Db × (Delivery ⊕ Response)
  | check event newId, x =>
    if x.legacyMarkerExists event.eventId then (x, .inr .duplicate)
    else (x, .inl (claim event newId))
  | claim event newId, x =>
    match x.providerEvents event.key with
    | some _ => (x, .inl (inspect event))
    | none =>
      if x.danglingTenant event then
        (x, .inr (.unavailable "durable billing webhook claim could not be completed"))
      else (x.setProcessed event.key (some false), .inl (claimed event newId))
  | inspect event, x =>
    match x.providerEvents event.key with
    | none => (x, .inr (.unavailable "durable billing webhook claim disappeared"))
    | some true => (x, .inr .duplicate)
    | some false =>
      (x, .inr (.unavailable "billing webhook event is already being processed; retry later"))
  | claimed event newId, x =>
    let out := Apply.act (.start ⟨event, x.clock, newId⟩) x.store
    ({ x with store := out.1 }, .inl (afterApply event out.2))
  | applying k, x =>
    ({ x with store := (k.act x.store).1 }, .inl (afterApply k.job.event (k.act x.store).2))
  | complete event outcome, x =>
    if x.providerEvents event.key = some false then
      (x.setProcessed event.key (some true), .inr (acknowledge outcome))
    else (x, .inr (.unavailable "billing webhook claim was missing during completion"))
  | release event reason, x =>
    if x.providerEvents event.key = some false then
      (x.setProcessed event.key none, .inr (.rejected reason))
    else (x, .inr (.unavailable "billing webhook claim was already completed or missing"))
  | tick time, x => ({ x with clock := max x.clock time }, .inr .done)
  | setOrganization org status, x =>
    ({ x with store := { x.store with
      organizations := Function.update x.store.organizations org (some status) } }, .inr .done)

def Entry (sent : VerifiedProviderEvent → Prop) : Delivery → Prop
  | check event _ => sent event
  | tick _ | setOrganization _ _ => True
  | _ => False

def holds : Delivery → Option Key
  | claimed event _ | complete event _ | release event _ => some event.key
  | applying k => some k.job.event.key
  | _ => none

def transitioned : Delivery → Bool
  | complete _ (.applied _) => true
  | _ => false

end Delivery

def transitions (key : Key) : Delivery ⊕ Response → Bool
  | .inl (.complete event (.applied _)) => event.key = key
  | _ => false

end SniperBot.Billing
