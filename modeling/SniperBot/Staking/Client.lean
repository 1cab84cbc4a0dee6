import SniperBot.Staking.Runtime

/-!
# Instructions as clients build them

The account lists of the client builders, in the order the handlers read them.
Packing an instruction into bytes cannot fail, so only the builder that checks
its own fields returns an error.
-/

namespace SniperBot.Staking

open Lib.Guard

variable {Pubkey : Type}

structure Instruction (Pubkey : Type) where
  accounts : List (AccountMeta Pubkey)
  data : StakingInstruction Pubkey

def AccountMeta.new (key : Pubkey) (isSigner : Bool) : AccountMeta Pubkey := ⟨key, isSigner, true⟩

def AccountMeta.newReadonly (key : Pubkey) (isSigner : Bool) : AccountMeta Pubkey :=
  ⟨key, isSigner, false⟩

open AccountMeta (new newReadonly)

variable (ids : Addresses Pubkey) (staker stakerToken vault mint : Pubkey)

def stakeIx (staker stakerToken vault treasury : Pubkey)
    (amount : UInt64) : Instruction Pubkey where
  accounts := [new staker true, new stakerToken false, new vault false, new treasury false,
      new (ids.stakeKey staker) false, newReadonly ids.configKey false,
      newReadonly ids.tokenProgramId false, newReadonly ids.systemProgramId false,
      newReadonly ids.clockId false]
  data := .stake amount

def unstakeIx : Instruction Pubkey where
  accounts := [new staker true, new stakerToken false, new vault false, new mint false,
      new (ids.stakeKey staker) false, newReadonly ids.configKey false,
      newReadonly ids.tokenProgramId false, newReadonly ids.clockId false]
  data := .unstake

def claimIx : Instruction Pubkey :=
  { unstakeIx ids staker stakerToken vault mint with data := .claim }

def adminIx (authority : Pubkey) (ix : StakingInstruction Pubkey) : Instruction Pubkey where
  accounts := [new authority true, new ids.configKey false]
  data := ix

def updateParamsIx (admin : Pubkey) (feeBps : Option UInt16)
    (rewardRateBps minStake : Option UInt64) (unstakeDelay timelockSecs : Option Int64) :
    Instruction Pubkey where
  accounts := [new admin true, new ids.configKey false, newReadonly ids.clockId false]
  data := .updateParams feeBps rewardRateBps minStake unstakeDelay timelockSecs

def applyParamsIx : Instruction Pubkey where
  accounts := [new ids.configKey false, newReadonly ids.clockId false]
  data := .applyParams

def genesisMintIx (admin mint recipient : Pubkey) (amount : UInt64) : Instruction Pubkey where
  accounts := [new admin true, new ids.configKey false, new mint false, new recipient false,
      newReadonly ids.tokenProgramId false]
  data := .genesisMint amount

def createTokenMetadataIx (admin mint : Pubkey)
    (name symbol uri : String) : Except ProgramError (Instruction Pubkey) := do
  validateMetadataFields name symbol uri
  return {
      accounts := [new admin true, newReadonly ids.configKey false, newReadonly mint false,
          new (ids.metadataPda mint).1 false, newReadonly ids.metadataProgramId false,
          newReadonly ids.systemProgramId false, newReadonly ids.rentId false]
      data := .createTokenMetadata name symbol uri }

theorem signed_unstakeIx {ids : Addresses Pubkey} {staker stakerToken vault mint x : Pubkey}
    (h : Signed (unstakeIx ids staker stakerToken vault mint).accounts x) : x = staker := by
  obtain ⟨a, ha, hk, hsi⟩ := h
  simp only [unstakeIx, List.mem_cons, List.not_mem_nil, or_false] at ha
  rcases ha with rfl | rfl | rfl | rfl | rfl | rfl | rfl | rfl
  · exact hk.symm
  all_goals contradiction

end SniperBot.Staking
