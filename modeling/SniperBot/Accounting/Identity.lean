import SniperBot.Accounting.Posting
import SniperBot.Audit.Chain

/-!
# Identities from joined texts

Intents and accounting events are told apart by digests of texts joined with bars. The digest,
cut to the length an id has, is a parameter. Nothing escapes a bar, and blanks around a wallet or
a reference are cut off.
-/

namespace SniperBot.Accounting

open Audit (inj_of_bar)
open Execution (trim)
open GlobalRisk (Venue)
open Positions (BotModule)

structure EventIdentity where
  kind : EventKind
  module : BotModule
  venue : Venue
  wallet : String
  referenceId : String

/-- The wallet has no bar, and no blanks are cut off. -/
structure EventIdentity.Tidy (i : EventIdentity) : Prop where
  wallet : '|' ∉ i.wallet.toList
  trim_wallet : trim i.wallet = i.wallet
  trim_reference : trim i.referenceId = i.referenceId

section

variable {δ : Type*} (sha256 : List Char → δ)

def intentId (parts : List String) : String × δ :=
  ("int_", sha256 (['|'].intercalate (("v1" :: parts).map String.toList)))

def eventIdFor (i : EventIdentity) : String × δ :=
  ("led_", sha256 ("ledger-event-v1|".toList ++ (i.kind.asStr.toList ++ '|' ::
    (i.module.asStr.toList ++ '|' :: (i.venue.asStr.toList ++ '|' ::
      ((trim i.wallet).toList ++ '|' :: (trim i.referenceId).toList))))))

variable {sha256}

theorem splitOn_intentId {parts : List String} (h : ∀ p ∈ parts, '|' ∉ p.toList) :
    (['|'].intercalate (("v1" :: parts).map String.toList)).splitOn '|' =
    ("v1" :: parts).map String.toList := by
  refine List.splitOn_intercalate '|' ?_ (by simp)
  simpa using h

theorem eventIdFor_inj {i j : EventIdentity} (hsh : Function.Injective sha256) (hi : i.Tidy)
    (hj : j.Tidy) (h : eventIdFor sha256 i = eventIdFor sha256 j) : i = j := by
  obtain ⟨k, m, v, w, r⟩ := i
  obtain ⟨k', m', v', w', r'⟩ := j
  have hks : ∀ k : EventKind, '|' ∉ k.asStr.toList := by intro k; cases k <;> decide
  have hms : ∀ m : BotModule, '|' ∉ m.asStr.toList := by intro m; cases m <;> decide
  have hvs : ∀ v : Venue, '|' ∉ v.asStr.toList := by intro v; cases v <;> decide
  have ht := List.append_cancel_left (hsh (Prod.mk.inj h).2)
  simp only [hi.trim_wallet, hj.trim_wallet, hi.trim_reference, hj.trim_reference] at ht
  obtain ⟨hk, ht⟩ := inj_of_bar (hks k) (hks k') ht
  obtain ⟨hm, ht⟩ := inj_of_bar (hms m) (hms m') ht
  obtain ⟨hv, ht⟩ := inj_of_bar (hvs v) (hvs v') ht
  obtain ⟨hw, hr⟩ := inj_of_bar hi.wallet hj.wallet ht
  obtain rfl : k = k' := by
    cases k <;> cases k' <;> first | rfl | exact absurd hk (by decide)
  obtain rfl : m = m' := by
    cases m <;> cases m' <;> first | rfl | exact absurd hm (by decide)
  obtain rfl : v = v' := by
    cases v <;> cases v' <;> first | rfl | exact absurd hv (by decide)
  obtain rfl : w = w' := String.toList_inj.mp hw
  rw [String.toList_inj.mp hr]

end

end SniperBot.Accounting
