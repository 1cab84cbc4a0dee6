import SniperBot.Lib.Extended
import SniperBot.Orders.Manager

/-!
# Validation of a tenant's configuration

A document may only narrow the bounds of the platform. `validate` reports every issue of a
document, and a store keeps no document that has one. The texts of the issues are left out.
-/

namespace SniperBot.TenantConfig

open Execution (trim)
open Lib (Extended)
open Orders (ExecutionMode)
open Positions (BotModule)

inductive ModuleDisableReason where
  | operator
  | plan
  | degraded
  deriving DecidableEq

inductive ModuleEnablement where
  | enabled
  | disabled (reason : ModuleDisableReason)
  deriving DecidableEq

structure TenantModuleState where
  moduleKind : BotModule
  enablement : ModuleEnablement
  deriving DecidableEq

structure TenantRiskLimits where
  maxPositionUsd : Option Extended := none
  dailyLossUsdCap : Option Extended := none
  maxSlippageBps : Option UInt32 := none
  deriving DecidableEq

inductive SignerProvider where
  | custody
  | local
  | external
  deriving DecidableEq

structure TenantSignerPreference where
  provider : SignerProvider
  keyRef : String
  deriving DecidableEq

structure TenantConfigModel where
  modules : List TenantModuleState
  risk : TenantRiskLimits
  allowedModes : List ExecutionMode
  preferredWalletLabel : Option String
  preferredSigner : Option TenantSignerPreference
  deriving DecidableEq

def TenantConfigModel.default : TenantConfigModel where
  modules := [.sniper, .copy, .polymarket, .contract, .telegram].map (⟨·, .enabled⟩)
  risk := {}
  allowedModes := [.paper]
  preferredWalletLabel := none
  preferredSigner := none

structure GlobalSafetyBounds where
  maxPositionUsd : Extended
  dailyLossUsdCap : Extended
  maxSlippageBps : UInt32
  allowedModes : List ExecutionMode

def GlobalSafetyBounds.platformDefaults : GlobalSafetyBounds where
  maxPositionUsd := .finite 100000
  dailyLossUsdCap := .finite 50000
  maxSlippageBps := 2000
  allowedModes := [.paper, .simulate]

inductive ConfigIssue where
  | riskBoundExceeded (field : String) (requested bound : Extended)
  | riskValueInvalid (field : String)
  | modeNotAllowed (mode : ExecutionMode)
  | noModesAllowed
  /-- Never reported: a document can name no such module. -/
  | unknownModule (name : String)
  | signerPreferenceInvalid (reason : String)

def checkPositive (value : Extended) (field : String) : List ConfigIssue :=
  if value.isFinite = false ∨ value.le (.finite 0) = true then [.riskValueInvalid field] else []

def checkBound (value bound : Extended) (field : String) : List ConfigIssue :=
  checkPositive value field ++
    if value.isFinite = true ∧ bound.lt value = true then [.riskBoundExceeded field value bound]
    else []

def checkSlippage (value bound : UInt32) (field : String) : List ConfigIssue :=
  if value = 0 ∨ bound < value then
    [.riskBoundExceeded field (.finite value.toNat) (.finite bound.toNat)]
  else []

def maxKeyRefLen : Nat := 128

/-- Whether a signer reference can be built from the handle; its length is in bytes. -/
def keyRefOk (keyRef : String) : Bool :=
  let trimmed := trim keyRef
  trimmed ≠ "" && trimmed.utf8ByteSize ≤ maxKeyRefLen &&
    trimmed.toList.all fun c => c.isAlphanum || c ∈ [':', '-', '_', '.', '/']

def checkSignerPreference (pref : TenantSignerPreference) : List ConfigIssue :=
  if keyRefOk pref.keyRef then []
  else [.signerPreferenceInvalid "key reference must be 1..=128 chars of provider-safe characters"]

def checkModes (modes allowed : List ExecutionMode) : List ConfigIssue :=
  (if modes = [] then [.noModesAllowed] else []) ++ (modes.filter (· ∉ allowed)).map .modeNotAllowed

variable (config : TenantConfigModel) (bounds : GlobalSafetyBounds)

def validate : List ConfigIssue :=
  config.risk.maxPositionUsd.elim [] (checkBound · bounds.maxPositionUsd "max_position_usd") ++
  config.risk.dailyLossUsdCap.elim [] (checkBound · bounds.dailyLossUsdCap "daily_loss_usd_cap") ++
  config.risk.maxSlippageBps.elim [] (checkSlippage · bounds.maxSlippageBps "max_slippage_bps") ++
  checkModes config.allowedModes bounds.allowedModes ++
  config.preferredSigner.elim [] checkSignerPreference

def validateOrIssues : Except (List ConfigIssue) Unit :=
  if validate config bounds = [] then .ok () else .error (validate config bounds)

structure Narrows : Prop where
  position : ∀ v ∈ config.risk.maxPositionUsd,
    ∃ q : ℚ, v = .finite q ∧ 0 < q ∧ bounds.maxPositionUsd.lt v = false
  dailyLoss : ∀ v ∈ config.risk.dailyLossUsdCap,
    ∃ q : ℚ, v = .finite q ∧ 0 < q ∧ bounds.dailyLossUsdCap.lt v = false
  slippage : ∀ v ∈ config.risk.maxSlippageBps, v ≠ 0 ∧ v ≤ bounds.maxSlippageBps
  modes : config.allowedModes ≠ [] ∧ config.allowedModes ⊆ bounds.allowedModes
  signer : ∀ pref ∈ config.preferredSigner, keyRefOk pref.keyRef = true

theorem checkBound_eq_nil_iff {value bound : Extended} {field : String} :
    checkBound value bound field = [] ↔
    ∃ q : ℚ, value = .finite q ∧ 0 < q ∧ bound.lt value = false := by
  cases value with
  | finite q =>
    by_cases hq : q ≤ 0
    · simp [checkBound, checkPositive, Extended.le, hq]
    · simp [checkBound, checkPositive, Extended.isFinite, Extended.le, not_le.mp hq]
  | posInf | negInf | nan => simp [checkBound, checkPositive, Extended.isFinite]

theorem checkSlippage_eq_nil_iff {value bound : UInt32} {field : String} :
    checkSlippage value bound field = [] ↔ value ≠ 0 ∧ value ≤ bound := by
  unfold checkSlippage
  rw [← UInt32.not_lt, ← not_or]
  split
  · next h => simp [h]
  · next h => simp [h]

theorem checkModes_eq_nil_iff {modes allowed : List ExecutionMode} :
    checkModes modes allowed = [] ↔ modes ≠ [] ∧ modes ⊆ allowed := by
  unfold checkModes
  rw [List.append_eq_nil_iff, List.map_eq_nil_iff]
  refine and_congr ?_ ?_
  · split <;> simp_all
  · simp [List.subset_def]

theorem checkSignerPreference_eq_nil_iff {pref : TenantSignerPreference} :
    checkSignerPreference pref = [] ↔ keyRefOk pref.keyRef = true := by
  unfold checkSignerPreference
  split <;> simp_all

theorem elim_eq_nil_iff {α β : Type} {o : Option α} {f : α → List β} :
    o.elim [] f = [] ↔ ∀ v ∈ o, f v = [] := by
  cases o <;> simp

theorem validate_eq_nil_iff {config : TenantConfigModel} {bounds : GlobalSafetyBounds} :
    validate config bounds = [] ↔ Narrows config bounds := by
  unfold validate
  simp only [List.append_eq_nil_iff, elim_eq_nil_iff, checkBound_eq_nil_iff,
    checkSlippage_eq_nil_iff, checkModes_eq_nil_iff, checkSignerPreference_eq_nil_iff]
  constructor
  · rintro ⟨⟨⟨⟨hpo, hl⟩, hsl⟩, hm⟩, hsi⟩
    exact ⟨hpo, hl, hsl, hm, hsi⟩
  · rintro ⟨hpo, hl, hsl, hm, hsi⟩
    exact ⟨⟨⟨⟨hpo, hl⟩, hsl⟩, hm⟩, hsi⟩

theorem narrows_default {bounds : GlobalSafetyBounds} (h : .paper ∈ bounds.allowedModes) :
    Narrows .default bounds := by
  constructor
  · intro v hv
    cases hv
  · intro v hv
    cases hv
  · intro v hv
    cases hv
  · refine ⟨List.cons_ne_nil _ _, ?_⟩
    intro mode hm
    rw [List.mem_singleton.mp hm]
    exact h
  · intro pref hpr
    cases hpr

end SniperBot.TenantConfig
