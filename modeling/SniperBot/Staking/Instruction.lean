import SniperBot.Lib.Guard
import SniperBot.Staking.State

/-!
# Errors and instructions of the staking program

The instruction set as the dispatcher sees it after decoding, the errors it can
return, and the account references an instruction carries.
-/

namespace SniperBot.Staking

open Lib.Guard

inductive StakingError where
  | alreadyInitialized
  | invalidInstructionData
  | unauthorized
  | belowMinimum
  | cooldownActive
  | insufficientStake
  | overflow
  | invalidAccount
  | arithmetic
  | invalidTokenProgram
  | invalidSystemProgram
  | invalidAssociatedTokenProgram
  | invalidConfigAccount
  | invalidStakeAccount
  | invalidVault
  | invalidMint
  | invalidTreasury
  | invalidStakerToken
  | paused
  | feeTooHigh
  | rewardRateTooHigh
  | notPendingAdmin
  | updateAlreadyQueued
  | noPendingUpdate
  | timelockNotElapsed
  | timelockOutOfRange
  | genesisAlreadyDone
  | invalidAmount
  | maxSupplyExceeded
  | invalidMaxSupply
  | metadataAlreadyExists
  | invalidMetadataProgram
  | metadataFieldTooLong

def customErrorBase : Nat := 6000

/-- What an instruction returns on failure: an error of the runtime, or a custom
code of this program or of one it invokes. -/
inductive ProgramError where
  | missingRequiredSignature
  | notEnoughAccountKeys
  | invalidArgument
  | readonlyDataModified
  | externalAccountDataModified
  | custom (code : Nat)
  deriving DecidableEq

/-- The codes follow the order of the variants. -/
def StakingError.code (e : StakingError) : Nat := e.ctorIdx

def StakingError.into (e : StakingError) : ProgramError := .custom (customErrorBase + e.code)

def insufficientFunds : ProgramError := .custom 1

theorem StakingError.into_injective : Function.Injective StakingError.into := by
  intro a b h
  have hc : customErrorBase + a.code = customErrorBase + b.code := ProgramError.custom.inj h
  have hi : a.ctorIdx = b.ctorIdx := Nat.add_left_cancel hc
  revert hi
  cases a <;> cases b <;> simp [StakingError.ctorIdx]

inductive StakingInstruction (Pubkey : Type) where
  | initializeConfig (feeBps : UInt16) (rewardRateBps minStake : UInt64) (unstakeDelay : Int64)
      (decimals : UInt8) (timelockSecs : Int64) (maxSupply : UInt64)
  | stake (amount : UInt64)
  | unstake
  | claim
  | updateParams (feeBps : Option UInt16) (rewardRateBps minStake : Option UInt64)
      (unstakeDelay timelockSecs : Option Int64)
  | applyParams
  | cancelParams
  | pause
  | unpause
  | transferAdmin (newAdmin : Pubkey)
  | acceptAdmin
  | genesisMint (amount : UInt64)
  | createTokenMetadata (name symbol uri : String)

structure AccountMeta (Pubkey : Type) where
  key : Pubkey
  isSigner : Bool
  isWritable : Bool

def Signed {Pubkey : Type} (accounts : List (AccountMeta Pubkey)) (x : Pubkey) : Prop :=
  ∃ a ∈ accounts, a.key = x ∧ a.isSigner = true

/-- Lengths are counted in bytes, as the metadata program counts them. -/
def validateField (field : String) (maxLen : Nat) : Except ProgramError Unit :=
  ensure (field.utf8ByteSize ≠ 0 ∧ field.utf8ByteSize ≤ maxLen)
    StakingError.metadataFieldTooLong.into

def validateMetadataFields (name symbol uri : String) : Except ProgramError Unit := do
  validateField name metadataNameMaxLen
  validateField symbol metadataSymbolMaxLen
  validateField uri metadataUriMaxLen

end SniperBot.Staking
