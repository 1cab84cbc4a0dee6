import SniperBot.Staking.Runtime

/-!
# Instruction handlers

Each handler follows its source in the order of its checks and calls. State is
threaded explicitly: a call to another program returns the next world, and an
error returns none, because the runtime rolls a failed transaction back.
-/

namespace SniperBot.Staking

open Lib.MachineInt Lib.Guard StakingError

variable {Pubkey : Type} [DecidableEq Pubkey] [Inhabited Pubkey]

/-! ## Account validation -/

def requireSigner (info : AccountMeta Pubkey) : Except ProgramError Unit :=
  ensure (info.isSigner = true) .missingRequiredSignature

def requireAddress (info : AccountMeta Pubkey) (expected : Pubkey) (err : StakingError) :
    Except ProgramError Unit :=
  ensure (info.key = expected) err.into

def requireOwner (w : World Pubkey) (info : AccountMeta Pubkey) (expected : Pubkey)
    (err : StakingError) : Except ProgramError Unit :=
  ensure ((w.accounts info.key).owner = expected) err.into

def clockFrom (rt : Runtime Pubkey) (w : World Pubkey) (info : AccountMeta Pubkey) :
    Except ProgramError Int64 := do
  ensure (info.key = rt.clockId) .invalidArgument
  return w.clock

def rentFrom (rt : Runtime Pubkey) (info : AccountMeta Pubkey) :
    Except ProgramError (Nat → Nat) := do
  ensure (info.key = rt.rentId) .invalidArgument
  return rt.minimumBalance

variable (d : AccountData Pubkey)

def decodeConfig : Except ProgramError (Config Pubkey) :=
  match d with
  | .config c => .ok c
  | .zeroed len =>
    if len = configLen then .ok default else .error invalidInstructionData.into
  | _ => .error invalidInstructionData.into

def decodeStake : Except ProgramError (StakeAccount Pubkey) :=
  match d with
  | .stake sa => .ok sa
  | .zeroed len =>
    if len = stakeLen then .ok default else .error invalidInstructionData.into
  | _ => .error invalidInstructionData.into

def unpackToken : Except ProgramError (TokenAccount Pubkey) :=
  match d with
  | .token t => .ok t
  | _ => .error invalidStakerToken.into

def unpackMint : Except ProgramError (Mint Pubkey) :=
  match d with
  | .mint m => .ok m
  | _ => .error invalidMint.into

def loadConfig (rt : Runtime Pubkey) (w : World Pubkey) (configAcc : AccountMeta Pubkey) :
    Except ProgramError (Config Pubkey) := do
  requireAddress configAcc rt.configKey .invalidConfigAccount
  requireOwner w configAcc rt.programId .invalidConfigAccount
  ensure ((w.accounts configAcc.key).data.dataLen ≠ 0) invalidConfigAccount.into
  let config ← decodeConfig (w.accounts configAcc.key).data
  ensure (config.initialized = true) invalidConfigAccount.into
  return config

def requireStakerToken (rt : Runtime Pubkey) (w : World Pubkey)
    (stakerToken : AccountMeta Pubkey) (staker mint : Pubkey) : Except ProgramError Unit := do
  requireOwner w stakerToken rt.tokenProgramId .invalidStakerToken
  let acct ← unpackToken (w.accounts stakerToken.key).data
  ensure (acct.mint = mint) invalidStakerToken.into
  ensure (acct.owner = staker) invalidStakerToken.into

/-! ## Parameter caps and persistence -/

def validateParams (feeBps : UInt16) (rewardRateBps : UInt64) : Except ProgramError Unit := do
  ensure (feeBps ≤ maxFeeBps) feeTooHigh.into
  ensure (rewardRateBps ≤ maxRewardRateBps) rewardRateTooHigh.into

def validateTimelock (secs : Int64) : Except ProgramError Unit :=
  ensure (0 ≤ secs ∧ secs ≤ maxTimelockSecs) timelockOutOfRange.into

section

variable (rt : Runtime Pubkey) (w : World Pubkey)

/-- Write an account's data. The runtime refuses a change to a read-only account
or to one another program owns. -/
def storeData (info : AccountMeta Pubkey)
    (d : AccountData Pubkey) : Except ProgramError (World Pubkey) := do
  if (w.accounts info.key).data = d then
    return w
  else
    ensure (info.isWritable = true) .readonlyDataModified
    ensure ((w.accounts info.key).owner = rt.programId) .externalAccountDataModified
    return w.setData info.key d

def saveConfig (configAcc : AccountMeta Pubkey)
    (config : Config Pubkey) : Except ProgramError (World Pubkey) := do
  ensure (configLen ≤ (w.accounts configAcc.key).data.dataLen) invalidConfigAccount.into
  storeData rt w configAcc (.config config)

/-! ## Handlers -/

def rejectReinitialisation (configAcc : AccountMeta Pubkey) : Except ProgramError Unit :=
  if (w.accounts configAcc.key).owner = rt.programId ∧
      (w.accounts configAcc.key).data.dataLen > 0 then do
    let existing ← decodeConfig (w.accounts configAcc.key).data
    ensure (existing.initialized = false) alreadyInitialized.into
  else .ok ()

end

variable (rt : Runtime Pubkey) (w : World Pubkey) (accounts : List (AccountMeta Pubkey))

def processInitialize (feeBps : UInt16) (rewardRateBps minStake : UInt64)
    (unstakeDelay : Int64) (decimals : UInt8) (timelockSecs : Int64) (maxSupply : UInt64) :
    Except ProgramError (World Pubkey) := do
  validateParams feeBps rewardRateBps
  validateTimelock timelockSecs
  ensure (maxSupply ≠ 0) invalidMaxSupply.into
  match accounts with
  | payer :: configAcc :: mintAcc :: vaultAcc :: treasuryAcc :: treasuryWallet :: tokenProgram ::
      assocProgram :: systemProgramAcc :: rentAcc :: _ =>
    requireSigner payer
    requireSigner mintAcc
    requireAddress tokenProgram rt.tokenProgramId .invalidTokenProgram
    requireAddress assocProgram rt.assocProgramId .invalidAssociatedTokenProgram
    requireAddress systemProgramAcc rt.systemProgramId .invalidSystemProgram
    requireAddress configAcc rt.configKey .invalidConfigAccount
    rejectReinitialisation rt w configAcc
    requireAddress vaultAcc (rt.associatedTokenAddress rt.configKey mintAcc.key) .invalidVault
    requireAddress treasuryAcc (rt.associatedTokenAddress treasuryWallet.key mintAcc.key)
      .invalidTreasury
    let minimumBalance ← rentFrom rt rentAcc
    let w ← rt.createAccount w (privileges accounts none) payer.key mintAcc.key
      (minimumBalance mintLen) mintLen tokenProgram.key
    let w ← rt.initializeMint2 w (privileges accounts none) mintAcc.key rt.configKey none decimals
    let w ← rt.createAssociatedTokenAccountIdempotent w (privileges accounts none) payer.key
      rt.configKey mintAcc.key
    let w ← rt.createAssociatedTokenAccountIdempotent w (privileges accounts none) payer.key
      treasuryWallet.key mintAcc.key
    let config : Config Pubkey :=
      { initialized := true, admin := payer.key, mint := mintAcc.key, vault := vaultAcc.key,
        treasury := treasuryAcc.key, feeBps := feeBps, rewardRateBps := rewardRateBps,
        minStake := minStake, unstakeDelay := unstakeDelay, decimals := decimals,
        configBump := rt.configPda.2, mintBump := rt.configPda.2, paused := false,
        pendingAdmin := default, timelockSecs := timelockSecs, pending := default,
        genesisDone := false, maxSupply := maxSupply }
    let w ← rt.createAccount w (privileges accounts (rt.configAddress rt.configPda.2)) payer.key
      rt.configKey (minimumBalance configLen) configLen rt.programId
    storeData rt w configAcc (.config config)
  | _ => .error .notEnoughAccountKeys

def loadOrCreateStake (staker stakeAcc : AccountMeta Pubkey)
    (bump : UInt8) (now : Int64) : Except ProgramError (World Pubkey × StakeAccount Pubkey) := do
  if (w.accounts stakeAcc.key).data.dataLen > 0 then
    requireOwner w stakeAcc rt.programId .invalidStakeAccount
    let loaded ← decodeStake (w.accounts stakeAcc.key).data
    ensure (loaded.owner = staker.key) unauthorized.into
    return (w, loaded)
  else
    let template : StakeAccount Pubkey :=
      { owner := staker.key, amount := 0, stakedAt := now, rewardFrom := now,
        pendingRewards := 0, bump := bump }
    let w ← rt.createAccount w (privileges accounts (rt.stakeAddress staker.key bump)) staker.key
      (rt.stakeKey staker.key) (rt.minimumBalance stakeLen) stakeLen rt.programId
    return (w, template)

def payFee (stakerToken treasury staker : AccountMeta Pubkey) (fee : UInt64) :
    Except ProgramError (World Pubkey) :=
  if fee > 0 then
    rt.tokenTransfer w (privileges accounts none) stakerToken.key treasury.key staker.key fee
  else .ok w

def processStake (amount : UInt64) : Except ProgramError (World Pubkey) := do
  match accounts with
  | staker :: stakerToken :: vault :: treasury :: stakeAcc :: configAcc :: tokenProgram ::
      systemProgramAcc :: clockAcc :: _ =>
    requireSigner staker
    requireAddress tokenProgram rt.tokenProgramId .invalidTokenProgram
    requireAddress systemProgramAcc rt.systemProgramId .invalidSystemProgram
    let config ← loadConfig rt w configAcc
    ensure (config.paused = false) paused.into
    requireAddress vault config.vault .invalidVault
    requireAddress treasury config.treasury .invalidTreasury
    requireStakerToken rt w stakerToken staker.key config.mint
    ensure (config.minStake ≤ amount) belowMinimum.into
    let fee := computeFee amount config.feeBps
    let net ← okOr (U64.checkedSub amount fee) overflow.into
    let w ← rt.tokenTransfer w (privileges accounts none) stakerToken.key vault.key staker.key net
    let w ← payFee rt w accounts stakerToken treasury staker fee
    let now ← clockFrom rt w clockAcc
    requireAddress stakeAcc (rt.stakeKey staker.key) .invalidStakeAccount
    let (w, sa) ← loadOrCreateStake rt w accounts staker stakeAcc (rt.stakePda staker.key).2 now
    let sa := (sa.settle config.rewardRateBps now).restartCooldown net now
    let total ← okOr (U64.checkedAdd sa.amount net) overflow.into
    storeData rt w stakeAcc (.stake { sa with amount := total })
  | _ => .error .notEnoughAccountKeys

def mintableRewards (mint : AccountMeta Pubkey)
    (maxSupply rewards : UInt64) : Except ProgramError UInt64 := do
  if rewards > 0 then
    requireOwner w mint rt.tokenProgramId .invalidMint
    let mintState ← unpackMint (w.accounts mint.key).data
    return min rewards (supplyHeadroom mintState.supply maxSupply)
  else
    return 0

/-- Unless only rewards are claimed, return the whole principal from the vault
once the cooldown is over. -/
def returnPrincipal (config : Config Pubkey)
    (vault stakerToken : AccountMeta Pubkey) (sa : StakeAccount Pubkey) (now : Int64)
    (claimOnly : Bool) : Except ProgramError (World Pubkey) :=
  if claimOnly then .ok w
  else do
    ensure (sa.amount ≠ 0) insufficientStake.into
    ensure (config.unstakeDelay ≤ I64.saturatingSub now sa.stakedAt) cooldownActive.into
    rt.tokenTransfer w (privileges accounts (rt.configAddress config.configBump)) vault.key
      stakerToken.key rt.configKey sa.amount

def mintRewards (config : Config Pubkey) (mint stakerToken : AccountMeta Pubkey) (mintable : UInt64) :
    Except ProgramError (World Pubkey) :=
  if mintable > 0 then
    rt.mintTo w (privileges accounts (rt.configAddress config.configBump)) mint.key
      stakerToken.key rt.configKey mintable
  else .ok w

/-- Shared withdrawal path; `claimOnly` mints rewards but keeps the principal. -/
def processUnstake (claimOnly : Bool) : Except ProgramError (World Pubkey) := do
  match accounts with
  | staker :: stakerToken :: vault :: mint :: stakeAcc :: configAcc :: tokenProgram ::
      clockAcc :: _ =>
    requireSigner staker
    requireAddress tokenProgram rt.tokenProgramId .invalidTokenProgram
    let config ← loadConfig rt w configAcc
    requireAddress vault config.vault .invalidVault
    requireAddress mint config.mint .invalidMint
    requireStakerToken rt w stakerToken staker.key config.mint
    requireAddress stakeAcc (rt.stakeKey staker.key) .invalidStakeAccount
    requireOwner w stakeAcc rt.programId .invalidStakeAccount
    ensure ((w.accounts stakeAcc.key).data.dataLen ≠ 0) invalidStakeAccount.into
    let sa ← decodeStake (w.accounts stakeAcc.key).data
    ensure (sa.owner = staker.key) unauthorized.into
    let now ← clockFrom rt w clockAcc
    let w ← returnPrincipal rt w accounts config vault stakerToken sa now claimOnly
    let rewards := sa.accruedRewards config.rewardRateBps now
    let mintable ← mintableRewards rt w mint config.maxSupply rewards
    let w ← mintRewards rt w accounts config mint stakerToken mintable
    storeData rt w stakeAcc (.stake (sa.paidOut claimOnly now))
  | _ => .error .notEnoughAccountKeys

def processQueueUpdate (feeBps : Option UInt16)
    (rewardRateBps minStake : Option UInt64) (unstakeDelay timelockSecs : Option Int64) :
    Except ProgramError (World Pubkey) := do
  match accounts with
  | admin :: configAcc :: clockAcc :: _ =>
    requireSigner admin
    let config ← loadConfig rt w configAcc
    ensure (config.admin = admin.key) unauthorized.into
    ensure (config.pending.active = false) updateAlreadyQueued.into
    let pending := config.resolveUpdate feeBps rewardRateBps minStake unstakeDelay timelockSecs
    validateParams pending.feeBps pending.rewardRateBps
    validateTimelock pending.timelockSecs
    let now ← clockFrom rt w clockAcc
    saveConfig rt w configAcc { config with pending := { pending with queuedAt := now } }
  | _ => .error .notEnoughAccountKeys

def processApplyUpdate : Except ProgramError (World Pubkey) := do
  match accounts with
  | configAcc :: clockAcc :: _ =>
    let config ← loadConfig rt w configAcc
    ensure (config.pending.active = true) noPendingUpdate.into
    let now ← clockFrom rt w clockAcc
    let eligibleAt := I64.saturatingAdd config.pending.queuedAt config.timelockSecs
    ensure (eligibleAt ≤ now) timelockNotElapsed.into
    -- the queued values are checked a second time
    validateParams config.pending.feeBps config.pending.rewardRateBps
    validateTimelock config.pending.timelockSecs
    saveConfig rt w configAcc config.applyPending
  | _ => .error .notEnoughAccountKeys

/-- The handlers that only the admin may call and that only rewrite the
configuration share their checks; `update` may still refuse. -/
def adminUpdate (update : Config Pubkey → Except ProgramError (Config Pubkey)) :
    Except ProgramError (World Pubkey) := do
  match accounts with
  | admin :: configAcc :: _ =>
    requireSigner admin
    let config ← loadConfig rt w configAcc
    ensure (config.admin = admin.key) unauthorized.into
    let config' ← update config
    saveConfig rt w configAcc config'
  | _ => .error .notEnoughAccountKeys

def processCancelUpdate : Except ProgramError (World Pubkey) :=
  adminUpdate rt w accounts fun config => do
    ensure (config.pending.active = true) noPendingUpdate.into
    return { config with pending := default }

def processSetPaused (paused : Bool) : Except ProgramError (World Pubkey) :=
  adminUpdate rt w accounts fun config => .ok { config with paused := paused }

def processTransferAdmin (newAdmin : Pubkey) : Except ProgramError (World Pubkey) :=
  adminUpdate rt w accounts fun config => do
    ensure (newAdmin ≠ default) invalidAccount.into
    return { config with pendingAdmin := newAdmin }

def processAcceptAdmin : Except ProgramError (World Pubkey) := do
  match accounts with
  | pending :: configAcc :: _ =>
    requireSigner pending
    let config ← loadConfig rt w configAcc
    ensure (config.pendingAdmin ≠ default ∧ config.pendingAdmin = pending.key) notPendingAdmin.into
    saveConfig rt w configAcc { config with admin := config.pendingAdmin, pendingAdmin := default }
  | _ => .error .notEnoughAccountKeys

def processGenesisMint (amount : UInt64) : Except ProgramError (World Pubkey) := do
  match accounts with
  | admin :: configAcc :: mintAcc :: recipientAcc :: tokenProgram :: _ =>
    requireSigner admin
    let config ← loadConfig rt w configAcc
    ensure (config.admin = admin.key) unauthorized.into
    requireAddress tokenProgram rt.tokenProgramId .invalidTokenProgram
    requireAddress mintAcc config.mint .invalidMint
    ensure (recipientAcc.isWritable = true) invalidStakerToken.into
    ensure (amount ≠ 0) invalidAmount.into
    ensure (config.genesisDone = false) genesisAlreadyDone.into
    requireOwner w mintAcc rt.tokenProgramId .invalidMint
    let mintState ← unpackMint (w.accounts mintAcc.key).data
    ensure (fitsUnderCap mintState.supply amount config.maxSupply = true) maxSupplyExceeded.into
    let w ← rt.mintTo w (privileges accounts (rt.configAddress config.configBump)) mintAcc.key
      recipientAcc.key rt.configKey amount
    saveConfig rt w configAcc { config with genesisDone := true }
  | _ => .error .notEnoughAccountKeys

def mplCreateMetadataAccountsV3 : UInt8 := 33

def encodeString (s : String) : List UInt8 :=
  let len := s.utf8ByteSize
  [UInt8.ofNat len, UInt8.ofNat (len / 2 ^ 8), UInt8.ofNat (len / 2 ^ 16),
    UInt8.ofNat (len / 2 ^ 24)] ++ s.toUTF8.toList

def createMetadataAccountsV3Data (name symbol uri : String) : List UInt8 :=
  mplCreateMetadataAccountsV3 :: (encodeString name ++ encodeString symbol ++ encodeString uri ++
      -- no seller fee, creators, collection, uses; immutable; no collection details
      [0, 0, 0, 0, 0, 0, 0])

def processCreateTokenMetadata (name symbol uri : String) : Except ProgramError (World Pubkey) := do
  match accounts with
  | admin :: configAcc :: mintAcc :: metadataAcc :: metadataProgram :: systemProgramAcc ::
      _rentAcc :: _ =>
    requireSigner admin
    let config ← loadConfig rt w configAcc
    ensure (config.admin = admin.key) unauthorized.into
    requireAddress mintAcc config.mint .invalidMint
    requireAddress metadataProgram rt.metadataProgramId .invalidMetadataProgram
    requireAddress systemProgramAcc rt.systemProgramId .invalidSystemProgram
    validateMetadataFields name symbol uri
    requireAddress metadataAcc (rt.metadataPda mintAcc.key).1 .invalidAccount
    ensure (metadataAcc.isWritable = true) invalidAccount.into
    ensure ((w.accounts metadataAcc.key).lamports = 0 ∧
      (w.accounts metadataAcc.key).data.dataLen = 0) metadataAlreadyExists.into
    rt.createMetadataAccountsV3 w (privileges accounts (rt.configAddress config.configBump))
      metadataAcc.key mintAcc.key admin.key (createMetadataAccountsV3Data name symbol uri)
  | _ => .error .notEnoughAccountKeys

def processInstruction (ix : StakingInstruction Pubkey) : Except ProgramError (World Pubkey) :=
  match ix with
  | .initializeConfig feeBps rewardRateBps minStake unstakeDelay decimals timelockSecs maxSupply =>
    processInitialize rt w accounts feeBps rewardRateBps minStake unstakeDelay decimals
      timelockSecs maxSupply
  | .stake amount => processStake rt w accounts amount
  | .unstake => processUnstake rt w accounts false
  | .claim => processUnstake rt w accounts true
  | .updateParams feeBps rewardRateBps minStake unstakeDelay timelockSecs =>
    processQueueUpdate rt w accounts feeBps rewardRateBps minStake unstakeDelay timelockSecs
  | .applyParams => processApplyUpdate rt w accounts
  | .cancelParams => processCancelUpdate rt w accounts
  | .pause => processSetPaused rt w accounts true
  | .unpause => processSetPaused rt w accounts false
  | .transferAdmin newAdmin => processTransferAdmin rt w accounts newAdmin
  | .acceptAdmin => processAcceptAdmin rt w accounts
  | .genesisMint amount => processGenesisMint rt w accounts amount
  | .createTokenMetadata name symbol uri => processCreateTokenMetadata rt w accounts name symbol uri

end SniperBot.Staking
