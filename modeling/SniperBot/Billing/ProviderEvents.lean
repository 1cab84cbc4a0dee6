import SniperBot.Execution.Ledger
import SniperBot.Lib.Guard
import SniperBot.Lib.Json

/-!
# Normalized events of the payment providers

A payload is reduced to a few fields, a table of short texts and a copy without secrets. The
copy leaves out every key with a banned word; the table has a shorter list of its own. Times are
milliseconds; the kinds, the organization ids and the integers among the numbers are read by
parsers left open.
-/

namespace SniperBot.Billing.ProviderEvents

open Execution (isBlank)
open Lib.Guard Lib.Json

def toAsciiLowercase (s : String) : String := String.ofList (s.toList.map Char.toLower)

def mentions (words : List String) (key : String) : Bool :=
  words.any fun word => word.toList <:+: (toAsciiLowercase key).toList

def bannedSubstrings : List String :=
  ["secret", "signature", "token", "password", "api_key", "apikey", "private_key", "webhook_secret"]

structure NormalizedPayloadMeta where
  rawType : String
  providerObjectId : Option String
  amountCents : Option Int
  currency : Option String
  extra : List (String × String)

/-- An event without its row id, which is drawn afresh. -/
structure ProviderNormalizedEvent (Provider Kind Organization N : Type) where
  provider : Provider
  providerEventId : String
  kind : Kind
  organizationId : Option Organization
  providerCustomerId : Option String
  eventTimestamp : Int
  receivedAt : Int
  idempotency : Provider × String
  details : NormalizedPayloadMeta
  safePayload : Value N

variable {Provider Kind Organization N : Type}

def stripSecrets (value : Value N) : Value N := value.prune (mentions bannedSubstrings)

variable (payload : Value N)

def field (key : String) : Option (Value N) :=
  (payload.get key).or ((payload.get "data").bind (·.get key))

/-- The texts among the first ten members of the data, cut off at 256 characters. -/
def extra : List (String × String) :=
  match (payload.get "data").bind (·.asObject) with
  | none => []
  | some members => (members.take 10).filterMap fun (key, v) =>
    v.asStr.bind fun s =>
      if mentions ["secret", "signature"] key then none
      else some (key, String.ofList (s.toList.take 256))

section

variable (kindOf : String → Kind) (parse : String → Option Organization) (asI64 : N → Option Int)

open Value

def normalize (provider : Provider) (providerEventId rawType : String) (rawPayload : Value N)
    (eventTimestamp now : Int) :
    Except String (ProviderNormalizedEvent Provider Kind Organization N) := do
  ensure (isBlank providerEventId = false) "provider_event_id empty"
  return {
    provider := provider
    providerEventId := providerEventId
    kind := kindOf rawType
    organizationId := ((field rawPayload "organization_id").bind asStr).bind parse
    providerCustomerId := (field rawPayload "customer").bind asStr
    eventTimestamp := eventTimestamp
    receivedAt := now
    idempotency := (provider, providerEventId)
    details := {
      rawType := rawType
      providerObjectId := (field rawPayload "id").bind asStr
      amountCents := ((field rawPayload "amount_cents").bind asNumber).bind asI64
      currency := ((field rawPayload "currency").bind asStr).map toAsciiLowercase
      extra := extra rawPayload }
    safePayload := stripSecrets rawPayload }

end

def masked : Value N := payload.mask (mentions bannedSubstrings)

/-- No text among the first ten members of the data stands under a key with a banned word that
the table lets through. -/
def KeepsToTable : Prop := ∀ members, (payload.get "data").bind (·.asObject) = some members →
    ∀ member ∈ members.take 10, mentions bannedSubstrings member.1 = true →
      mentions ["secret", "signature"] member.1 = false → member.2.asStr = none

variable {p : Value N} {key : String}

theorem get_masked (hk : mentions bannedSubstrings key = false) :
    (masked p).get key = (p.get key).map masked := p.get_mask hk

theorem get_data_masked : (masked p).get "data" = (p.get "data").map masked :=
  get_masked (by decide +kernel)

/-- A reader that masking does not disturb reads the same field from a masked payload, if the key
is not banned. -/
theorem field_masked {β : Type} {f : Value N → Option β} (hf : ∀ v, f (masked v) = f v)
    (hk : mentions bannedSubstrings key = false) :
    (field (masked p) key).bind f = (field p key).bind f := by
  unfold field
  rw [get_masked hk, get_data_masked]
  cases p.get key with
  | some v => exact hf v
  | none =>
    cases p.get "data" with
    | none => rfl
    | some data =>
      show ((masked data).get key).bind f = (data.get key).bind f
      rw [get_masked hk]
      cases data.get key with
      | none => rfl
      | some v => exact hf v

theorem extra_masked (h : KeepsToTable p) : extra (masked p) = extra p := by
  unfold extra
  rw [get_data_masked]
  cases hd : p.get "data" with
  | none => rfl
  | some data =>
    simp only [Option.map_some, Option.bind_some, masked, Value.asObject_mask]
    cases hm : data.asObject with
    | none => rfl
    | some members =>
      simp only [Option.map_some, maskMembers_eq_map, ← List.map_take, List.filterMap_map]
      refine List.filterMap_congr fun member hi => ?_
      have ht := h members (by rw [hd]; exact hm) member hi
      dsimp only [Function.comp_apply]
      cases hb : mentions bannedSubstrings member.1 with
      | false => simp only [Bool.false_eq_true, if_false, Value.asStr_mask]
      | true =>
        cases hl : mentions ["secret", "signature"] member.1 with
        | true => cases member.2.asStr <;> rfl
        | false =>
          rw [ht hb hl]
          rfl

section

variable {kindOf : String → Kind} {parse : String → Option Organization} {asI64 : N → Option Int}
  {provider : Provider} {providerEventId rawType : String} {eventTimestamp now : Int} {q : Value N}

theorem normalize_masked (h : KeepsToTable p) :
    normalize kindOf parse asI64 provider providerEventId rawType (masked p) eventTimestamp now =
    normalize kindOf parse asI64 provider providerEventId rawType p eventTimestamp now := by
  have hs (v : Value N) : (masked v).asStr = v.asStr := v.asStr_mask
  have hn (v : Value N) : (masked v).asNumber = v.asNumber := v.asNumber_mask
  unfold normalize
  rw [field_masked hs (by decide +kernel), field_masked hs (by decide +kernel),
    field_masked hs (by decide +kernel), field_masked hs (by decide +kernel),
    field_masked hn (by decide +kernel), extra_masked h,
    show stripSecrets (masked p) = stripSecrets p from p.prune_mask _]

end

private def withData (key text : String) : Value ℕ :=
  .object [("data", .object [("customer", .string "c"), (key, .string text)])]

private theorem masked_withData (hk : mentions bannedSubstrings key = true) (text : String) :
    masked (withData key text) =
    .object [("data", .object [("customer", .string "c"), (key, .null)])] := by
  have hd : mentions bannedSubstrings "data" = false := by decide +kernel
  have hc : mentions bannedSubstrings "customer" = false := by decide +kernel
  simp [masked, withData, Value.mask, maskMembers, hk, hd, hc]

private theorem keeps_withData (hk : mentions ["secret", "signature"] key = true) (text : String) :
    KeepsToTable (withData key text) := by
  intro members hm member hi hb hl
  obtain rfl := Option.some.inj hm
  rcases List.mem_cons.mp hi with rfl | hi
  · exact absurd hb (by decide +kernel)
  · rw [List.mem_singleton.mp hi, hk] at hl
    cases hl

private def normalized (key text : String) :
    Except String (ProviderNormalizedEvent Unit String String ℕ) :=
  normalize id some (fun n => some n) () "evt" "invoice.paid" (withData key text) 0 0

end SniperBot.Billing.ProviderEvents
