import SniperBot.Lib.MachineInt

/-!
# On-chain state of the staking program

The global configuration, one staker's position, and the pure arithmetic of the handlers.
Addresses are an arbitrary type. Records stand for their own serialised form, which has a fixed
length for each of them.
-/

namespace SniperBot.Staking

open Lib.MachineInt U64

def secsPerYear : Nat := 365 * 24 * 60 * 60

def bps : Nat := 10000

def maxFeeBps : UInt16 := 1000

def maxRewardRateBps : UInt64 := 10000

def maxTimelockSecs : Int64 := 30 * 24 * 60 * 60

def metadataNameMaxLen : Nat := 32
def metadataSymbolMaxLen : Nat := 10
def metadataUriMaxLen : Nat := 200

/-- A parameter change queued by the admin, resolved against the live
configuration at queue time. -/
structure PendingParams where
  active : Bool
  queuedAt : Int64
  feeBps : UInt16
  rewardRateBps : UInt64
  minStake : UInt64
  unstakeDelay : Int64
  timelockSecs : Int64
  deriving DecidableEq

instance : Inhabited PendingParams :=
  ⟨{ active := false, queuedAt := 0, feeBps := 0, rewardRateBps := 0, minStake := 0,
     unstakeDelay := 0, timelockSecs := 0 }⟩

structure Config (Pubkey : Type) where
  initialized : Bool
  admin : Pubkey
  mint : Pubkey
  vault : Pubkey
  treasury : Pubkey
  feeBps : UInt16
  rewardRateBps : UInt64
  minStake : UInt64
  unstakeDelay : Int64
  decimals : UInt8
  configBump : UInt8
  mintBump : UInt8
  paused : Bool
  pendingAdmin : Pubkey
  timelockSecs : Int64
  pending : PendingParams
  genesisDone : Bool
  maxSupply : UInt64
  deriving DecidableEq

/-- A queued update: what it leaves out keeps its live value. The queue time is
filled in once the clock has been read. -/
def Config.resolveUpdate {Pubkey : Type} (c : Config Pubkey) (feeBps : Option UInt16)
    (rewardRateBps minStake : Option UInt64) (unstakeDelay timelockSecs : Option Int64) :
    PendingParams where
  active := true
  queuedAt := 0
  feeBps := feeBps.getD c.feeBps
  rewardRateBps := rewardRateBps.getD c.rewardRateBps
  minStake := minStake.getD c.minStake
  unstakeDelay := unstakeDelay.getD c.unstakeDelay
  timelockSecs := timelockSecs.getD c.timelockSecs

def Config.applyPending {Pubkey : Type} (c : Config Pubkey) : Config Pubkey :=
  { c with
    feeBps := c.pending.feeBps
    rewardRateBps := c.pending.rewardRateBps
    minStake := c.pending.minStake
    unstakeDelay := c.pending.unstakeDelay
    timelockSecs := c.pending.timelockSecs
    pending := default }

instance {Pubkey : Type} [Inhabited Pubkey] : Inhabited (Config Pubkey) :=
  ⟨{ initialized := false, admin := default, mint := default, vault := default,
     treasury := default, feeBps := 0, rewardRateBps := 0, minStake := 0, unstakeDelay := 0,
     decimals := 0, configBump := 0, mintBump := 0, paused := false, pendingAdmin := default,
     timelockSecs := 0, pending := default, genesisDone := false, maxSupply := 0 }⟩

structure StakeAccount (Pubkey : Type) where
  owner : Pubkey
  amount : UInt64
  stakedAt : Int64
  rewardFrom : Int64
  pendingRewards : UInt64
  bump : UInt8
  deriving DecidableEq

instance {Pubkey : Type} [Inhabited Pubkey] : Inhabited (StakeAccount Pubkey) :=
  ⟨{ owner := default, amount := 0, stakedAt := 0, rewardFrom := 0, pendingRewards := 0,
     bump := 0 }⟩

def computeReward (amount rateBps : UInt64) (elapsedSecs : Int64) : UInt64 :=
  if amount = 0 ∨ rateBps = 0 ∨ elapsedSecs ≤ 0 then 0
  else
    match (U128.checkedMul amount.toNat rateBps.toNat).bind
        (U128.checkedMul · elapsedSecs.toInt.toNat) with
    | none => clamp maxNat
    | some numerator => clamp (numerator / (bps * secsPerYear))

variable (amount : UInt64) (feeBps : UInt16)

def computeFee : UInt64 :=
  if feeBps = 0 then 0 else clamp (amount.toNat * feeBps.toNat / bps)

def supplyHeadroom (mintSupply maxSupply : UInt64) : UInt64 := saturatingSub maxSupply mintSupply

def fitsUnderCap (mintSupply amount maxSupply : UInt64) : Bool :=
  match checkedAdd mintSupply amount with
  | some total => total ≤ maxSupply
  | none => false

namespace StakeAccount

variable {Pubkey : Type}

variable (sa : StakeAccount Pubkey) (claimOnly : Bool) (now : Int64)

def accruedRewards (rateBps : UInt64) (now : Int64) : UInt64 := saturatingAdd
    (computeReward sa.amount rateBps (I64.saturatingSub now sa.rewardFrom)) sa.pendingRewards

def settle (rateBps : UInt64) (now : Int64) : StakeAccount Pubkey :=
  let accrued := computeReward sa.amount rateBps (I64.saturatingSub now sa.rewardFrom)
  { sa with
    pendingRewards := saturatingAdd sa.pendingRewards accrued
    rewardFrom := now }

variable (net : UInt64)

/-- The cooldown runs from the last change of principal; a zero-net call is none. -/
def restartCooldown (now : Int64) : StakeAccount Pubkey :=
  if net > 0 then { sa with stakedAt := now } else sa

/-- The position a withdrawal leaves behind; a claim keeps principal and cooldown. -/
def paidOut : StakeAccount Pubkey :=
  if claimOnly then { sa with pendingRewards := 0, rewardFrom := now }
  else { sa with amount := 0, pendingRewards := 0, stakedAt := 0, rewardFrom := now }

@[simp] theorem settle_owner (r : UInt64) (now : Int64) : (sa.settle r now).owner = sa.owner := rfl

@[simp] theorem settle_amount (r : UInt64) (now : Int64) :
    (sa.settle r now).amount = sa.amount := rfl

@[simp] theorem restartCooldown_owner (now : Int64) :
    (sa.restartCooldown net now).owner = sa.owner := by
  unfold restartCooldown
  split <;> rfl

@[simp] theorem restartCooldown_amount (now : Int64) :
    (sa.restartCooldown net now).amount = sa.amount := by
  unfold restartCooldown
  split <;> rfl

@[simp] theorem paidOut_owner : (sa.paidOut claimOnly now).owner = sa.owner := by
  unfold paidOut
  split <;> rfl

theorem paidOut_amount :
    (sa.paidOut claimOnly now).amount = if claimOnly then sa.amount else 0 := by
  unfold paidOut
  split <;> rfl

end StakeAccount

/-! ## The arithmetic in exact terms -/

theorem toNat_computeFee :
    (computeFee amount feeBps).toNat = min (amount.toNat * feeBps.toNat / bps) maxNat := by
  unfold computeFee
  split
  · next h => simp [h]
  · exact toNat_clamp _

theorem toNat_computeFee_of_cap {feeBps : UInt16} (h : feeBps ≤ maxFeeBps) :
    (computeFee amount feeBps).toNat = amount.toNat * feeBps.toNat / 10000 := by
  have hf : feeBps.toNat ≤ 1000 := UInt16.le_iff_toNat_le.mp h
  have ha := toNat_le_max amount
  have hle : amount.toNat * feeBps.toNat / bps ≤ amount.toNat :=
    Nat.div_le_of_le_mul (by unfold bps; nlinarith)
  rw [toNat_computeFee, Nat.min_eq_left (hle.trans ha)]
  rfl

theorem toNat_supplyHeadroom (supply cap : UInt64) :
    (supplyHeadroom supply cap).toNat = cap.toNat - supply.toNat := toNat_saturatingSub _ _

theorem fitsUnderCap_iff (supply amount cap : UInt64) :
    fitsUnderCap supply amount cap = true ↔ supply.toNat + amount.toNat ≤ cap.toNat := by
  unfold fitsUnderCap
  split
  · next total h =>
    rw [checkedAdd_eq_some] at h
    rw [decide_eq_true_eq, UInt64.le_iff_toNat_le, h]
  · next h =>
    have hc := toNat_le_max cap
    have hn : ¬ supply.toNat + amount.toNat ≤ maxNat := by
      intro hle
      simp [checkedAdd, hle] at h
    simp only [Bool.false_eq_true, false_iff]
    omega

end SniperBot.Staking
