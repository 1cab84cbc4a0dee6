import SniperBot.Staking.Frame

/-!
# Successful instructions, inverted

For every handler one structure records what a successful call went through:
the checks that passed, the calls that were made, and the resulting world. The
inversion theorems are the only place where a handler is unfolded.
-/

namespace SniperBot.Staking

open Lib.MachineInt Lib.Guard Except World

variable {Pubkey : Type}

/-- The first account of an instruction, by which a handler knows its caller. -/
def leader (accounts : List (AccountMeta Pubkey)) : Option Pubkey :=
  accounts.head?.map AccountMeta.key

structure LedBy (accounts : List (AccountMeta Pubkey)) (x : Pubkey) : Prop where
  leader : leader accounts = some x
  signed : Signed accounts x

theorem ledBy_cons {a : AccountMeta Pubkey} {rest : List (AccountMeta Pubkey)}
    (h : a.isSigner = true) : LedBy (a :: rest) a.key :=
  ⟨rfl, a, List.mem_cons_self, rfl, h⟩

/-! ## Checks -/

variable {d : AccountData Pubkey} {sa : StakeAccount Pubkey} {c : Config Pubkey}
  {staker : AccountMeta Pubkey} {claimOnly : Bool}

theorem unpackToken_ok {t : TokenAccount Pubkey} : unpackToken d = .ok t ↔ d = .token t := by
  cases d <;> simp [unpackToken]

theorem unpackMint_ok {x : Mint Pubkey} : unpackMint d = .ok x ↔ d = .mint x := by
  cases d <;> simp [unpackMint]

theorem decodeStake_ok [Inhabited Pubkey] :
    decodeStake d = .ok sa ↔ d = .stake sa ∨ d = .zeroed stakeLen ∧ sa = default := by
  cases d with
  | stake sa' => simp [decodeStake]
  | zeroed len =>
    by_cases hl : len = stakeLen
    · simp [decodeStake, hl, eq_comm]
    · simp [decodeStake, hl]
  | _ => simp [decodeStake]

variable [DecidableEq Pubkey] {rt : Runtime Pubkey} {w w' : World Pubkey}
  {accounts : List (AccountMeta Pubkey)} {info : AccountMeta Pubkey} {u : Unit} {feeBps : UInt16}

theorem storeData_ok : storeData rt w info d = .ok w' ↔ ((w.accounts info.key).data = d ∨
      info.isWritable = true ∧ (w.accounts info.key).owner = rt.programId) ∧
    w' = w.setData info.key d := by
  unfold storeData
  split
  · next h =>
    simp only [h, true_or, true_and, setData_eq_self h]
    exact ⟨fun he => (ok.inj he).symm, fun he => he ▸ rfl⟩
  · next h =>
    simp only [ensure_bind_eq_ok, h, false_or, and_assoc]
    exact and_congr_right fun _ => and_congr_right fun _ =>
      ⟨fun he => (ok.inj he).symm, fun he => he ▸ rfl⟩

theorem saveConfig_ok (h : saveConfig rt w info c = .ok w') :
    w' = w.setData info.key (.config c) := by
  simp only [saveConfig, ensure_bind_eq_ok, storeData_ok] at h
  exact h.2.2

theorem clockFrom_ok {now : Int64} :
    clockFrom rt w info = .ok now ↔ info.key = rt.clockId ∧ now = w.clock := by
  simp only [clockFrom, ensure_bind_eq_ok]
  exact and_congr_right fun _ => ⟨fun he => (ok.inj he).symm, fun he => he ▸ rfl⟩

theorem rentFrom_ok {f : Nat → Nat} :
    rentFrom rt info = .ok f ↔ info.key = rt.rentId ∧ f = rt.minimumBalance := by
  simp only [rentFrom, ensure_bind_eq_ok]
  exact and_congr_right fun _ => ⟨fun he => (ok.inj he).symm, fun he => he ▸ rfl⟩

theorem requireStakerToken_ok {staker mint : Pubkey} :
    requireStakerToken rt w info staker mint = .ok u ↔
    ∃ t, w.tokenAt rt info.key = some t ∧ t.mint = mint ∧ t.owner = staker := by
  simp only [requireStakerToken, requireOwner, bind_eq_ok, unpackToken_ok, ensure_eq_ok,
    exists_const, tokenAt_eq_some, slot, Prod.mk.injEq]
  constructor
  · rintro ⟨ho, t, hd, hm, hs⟩
    exact ⟨t, ⟨ho, hd⟩, hm, hs⟩
  · rintro ⟨t, ⟨ho, hd⟩, hm, hs⟩
    exact ⟨ho, t, hd, hm, hs⟩

theorem validateParams_ok {rate : UInt64} :
    validateParams feeBps rate = .ok u ↔ feeBps ≤ maxFeeBps ∧ rate ≤ maxRewardRateBps := by
  simp only [validateParams, ensure_bind_eq_ok, ensure_eq_ok]

theorem validateTimelock_ok {secs : Int64} :
    validateTimelock secs = .ok u ↔ 0 ≤ secs ∧ secs ≤ maxTimelockSecs := by
  simp only [validateTimelock, ensure_eq_ok]

theorem payFee_ok {stakerToken treasury : AccountMeta Pubkey} {fee : UInt64}
    (h : payFee rt w accounts stakerToken treasury staker fee = .ok w') :
    fee = 0 ∧ w' = w ∨ fee ≠ 0 ∧ rt.tokenTransfer w (privileges accounts none) stakerToken.key
    treasury.key staker.key fee = .ok w' := by
  unfold payFee at h
  split at h
  · next hf => exact .inr ⟨U64.pos_iff_ne_zero.mp hf, h⟩
  · next hf => exact .inl ⟨U64.not_pos_iff.mp hf, (ok.inj h).symm⟩

variable [Inhabited Pubkey] {amount : UInt64}

theorem loadConfig_ok : loadConfig rt w info = .ok c ↔
    info.key = rt.configKey ∧ w.configOf rt = some c := by
  simp only [loadConfig, requireAddress, requireOwner, bind_eq_ok, ensure_eq_ok, exists_const,
    configOf_eq_some, slot, Prod.mk.injEq]
  constructor
  · rintro ⟨hk, ho, -, c', hd, hi, hc⟩
    obtain rfl : c' = c := ok.inj hc
    rw [hk] at ho hd
    refine ⟨hk, ⟨ho, ?_⟩, hi⟩
    cases hda : (w.accounts rt.configKey).data with
    | config c'' => simpa [decodeConfig, hda] using hd
    | zeroed len =>
      -- zeroed space decodes to a configuration that is not initialised
      by_cases hl : len = configLen
      · simp only [decodeConfig, hda, hl, if_true, ok.injEq] at hd
        rw [← hd] at hi
        exact absurd hi Bool.false_ne_true
      · simp [decodeConfig, hda, hl] at hd
    | _ => simp [decodeConfig, hda] at hd
  · rintro ⟨hk, ⟨ho, hd⟩, hi⟩
    rw [hk, hd]
    exact ⟨rfl, ho, by simp [AccountData.dataLen, configLen], c, rfl, hi, rfl⟩

/-! ## Deposits -/

/-- Where a deposit finds its position: written before, or created in this call. -/
inductive Position (rt : Runtime Pubkey) (w : World Pubkey) (p : Privileges Pubkey) (x : Pubkey) :
    World Pubkey → StakeAccount Pubkey → Prop
  | loaded {sa : StakeAccount Pubkey} (howned : (w.slot (rt.stakeKey x)).1 = rt.programId)
      (hdata : decodeStake (w.slot (rt.stakeKey x)).2 = .ok sa) (howner : sa.owner = x) :
      Position rt w p x w sa
  | created {w' : World Pubkey} {bump : UInt8}
      (hnew : rt.createAccount w p x (rt.stakeKey x) (rt.minimumBalance stakeLen) stakeLen
        rt.programId = .ok w') :
      Position rt w p x w'
        { owner := x, amount := 0, stakedAt := w.clock, rewardFrom := w.clock,
          pendingRewards := 0, bump := bump }

theorem loadOrCreateStake_ok {stakeAcc : AccountMeta Pubkey} {bump : UInt8}
    {r : World Pubkey × StakeAccount Pubkey} (hk : stakeAcc.key = rt.stakeKey staker.key)
    (h : loadOrCreateStake rt w accounts staker stakeAcc bump w.clock = .ok r) :
    Position rt w (privileges accounts (rt.stakeAddress staker.key bump)) staker.key r.1 r.2 := by
  unfold loadOrCreateStake at h
  rw [hk] at h
  split at h
  · simp only [requireOwner, bind_eq_ok, ensure_eq_ok, exists_const] at h
    obtain ⟨ho, sa, hd, how, hr⟩ := h
    obtain rfl := ok.inj hr
    exact .loaded (hk ▸ ho) hd how
  · simp only [bind_eq_ok] at h
    obtain ⟨w1, hc, hr⟩ := h
    obtain rfl := ok.inj hr
    exact .created hc

structure DepositOk (rt : Runtime Pubkey) (w w' : World Pubkey)
    (accounts : List (AccountMeta Pubkey)) (amount : UInt64) (x token : Pubkey)
    (c : Config Pubkey) (net : UInt64) (sa : StakeAccount Pubkey) : Prop where
  led : LedBy accounts x
  config : w.configOf rt.toAddresses = some c
  unpaused : c.paused = false
  source : ∃ t, w.tokenAt rt.toAddresses token = some t ∧ t.mint = c.mint ∧ t.owner = x
  minimum : c.minStake ≤ amount
  split : net.toNat + (computeFee amount c.feeBps).toNat = amount.toNat
  effect : ∃ w1 w2 w3 bump total,
    rt.tokenTransfer w (privileges accounts none) token c.vault x net = .ok w1 ∧
    (computeFee amount c.feeBps = 0 ∧ w2 = w1 ∨ computeFee amount c.feeBps ≠ 0 ∧
      rt.tokenTransfer w1 (privileges accounts none) token c.treasury x
        (computeFee amount c.feeBps) = .ok w2) ∧
    Position rt w2 (privileges accounts (rt.stakeAddress x bump)) x w3 sa ∧
    total.toNat = sa.amount.toNat + net.toNat ∧
    w' = w3.setData (rt.stakeKey x) (.stake
      { (sa.settle c.rewardRateBps w2.clock).restartCooldown net w2.clock with amount := total })

theorem processStake_ok (h : processStake rt w accounts amount = .ok w') :
    ∃ x token c net sa, DepositOk rt w w' accounts amount x token c net sa := by
  unfold processStake at h
  split at h
  · next staker stakerToken vault treasury stakeAcc configAcc tokenProgram systemProgramAcc
      clockAcc rest =>
    simp only [requireSigner, requireAddress, bind_eq_ok, ensure_eq_ok, exists_const,
      loadConfig_ok, requireStakerToken_ok, okOr_eq_ok, clockFrom_ok, storeData_ok] at h
    obtain ⟨hsi, -, -, c, ⟨-, hc⟩, hpa, hv, htr, hsr, hm, net, hn, w1, ht1,
      w2, ht2, now, ⟨-, rfl⟩, hst, ⟨w3, sa⟩, hpos, total, hto, -, rfl⟩ := h
    rw [hv] at ht1
    rw [hst]
    have hp' := loadOrCreateStake_ok hst hpos
    rw [U64.checkedAdd_eq_some, StakeAccount.restartCooldown_amount,
      StakeAccount.settle_amount] at hto
    refine ⟨staker.key, stakerToken.key, c, net, sa, ledBy_cons hsi, hc, hpa, hsr, hm,
      U64.checkedSub_eq_some.mp hn, w1, w2, w3, _, total, ht1, ?_, hp', hto, rfl⟩
    rw [← htr]
    exact payFee_ok ht2
  · exact absurd h (by simp)

/-! ## Withdrawals -/

/-- A successful `Unstake`, or `Claim` when `claimOnly`; `n` is the reward minted. -/
structure WithdrawalOk (rt : Runtime Pubkey) (w w' : World Pubkey)
    (accounts : List (AccountMeta Pubkey)) (claimOnly : Bool) (x token : Pubkey)
    (c : Config Pubkey) (sa : StakeAccount Pubkey) (n : UInt64) : Prop where
  led : LedBy accounts x
  config : w.configOf rt.toAddresses = some c
  target : ∃ t, w.tokenAt rt.toAddresses token = some t ∧ t.mint = c.mint ∧ t.owner = x
  owned : (w.slot (rt.stakeKey x)).1 = rt.programId
  decoded : decodeStake (w.slot (rt.stakeKey x)).2 = .ok sa
  owner : sa.owner = x
  effect : ∃ w1 w2, (claimOnly = true ∧ w1 = w ∨ claimOnly = false ∧ sa.amount ≠ 0 ∧
      c.unstakeDelay ≤ I64.saturatingSub w.clock sa.stakedAt ∧
      rt.tokenTransfer w (privileges accounts (rt.configAddress c.configBump)) c.vault token
        rt.configKey sa.amount = .ok w1) ∧
    (n = 0 ∨ ∃ m, w1.mintAt rt.toAddresses c.mint = some m ∧
      n = min (sa.accruedRewards c.rewardRateBps w.clock) (supplyHeadroom m.supply c.maxSupply)) ∧
    (n = 0 ∧ w2 = w1 ∨ n ≠ 0 ∧
      rt.mintTo w1 (privileges accounts (rt.configAddress c.configBump)) c.mint token
        rt.configKey n = .ok w2) ∧
    w' = w2.setData (rt.stakeKey x) (.stake (sa.paidOut claimOnly w.clock))

omit [Inhabited Pubkey] in
theorem returnPrincipal_ok {vault token : AccountMeta Pubkey} {now : Int64} :
    returnPrincipal rt w accounts c vault token sa now claimOnly = .ok w' ↔
    claimOnly = true ∧ w' = w ∨ claimOnly = false ∧ sa.amount ≠ 0 ∧
      c.unstakeDelay ≤ I64.saturatingSub now sa.stakedAt ∧
      rt.tokenTransfer w (privileges accounts (rt.configAddress c.configBump)) vault.key
        token.key rt.configKey sa.amount = .ok w' := by
  cases claimOnly with
  | true => simp [returnPrincipal, eq_comm]
  | false => simp [returnPrincipal, ensure_bind_eq_ok]

omit [Inhabited Pubkey] in
theorem mintableRewards_ok {mint : AccountMeta Pubkey} {maxSupply rewards n : UInt64} :
    mintableRewards rt w mint maxSupply rewards = .ok n ↔
    rewards = 0 ∧ n = 0 ∨ rewards ≠ 0 ∧ ∃ m, w.mintAt rt mint.key = some m ∧
      n = min rewards (supplyHeadroom m.supply maxSupply) := by
  unfold mintableRewards
  split
  · next h =>
    simp only [U64.pos_iff_ne_zero.mp h, requireOwner, bind_eq_ok, ensure_eq_ok, exists_const,
      unpackMint_ok, mintAt_eq_some, slot, Prod.mk.injEq, false_and, false_or, ne_eq,
      not_false_eq_true, true_and]
    constructor
    · rintro ⟨ho, m, hd, hn⟩
      exact ⟨m, ⟨ho, hd⟩, (ok.inj hn).symm⟩
    · rintro ⟨m, ⟨ho, hd⟩, rfl⟩
      exact ⟨ho, m, hd, rfl⟩
  · next h =>
    simp only [U64.not_pos_iff.mp h, ne_eq, not_true_eq_false, false_and, or_false, true_and]
    exact ⟨fun he => (ok.inj he).symm, fun he => he ▸ rfl⟩

omit [Inhabited Pubkey] in
theorem mintRewards_ok {mint token : AccountMeta Pubkey} {n : UInt64} :
    mintRewards rt w accounts c mint token n = .ok w' ↔ n = 0 ∧ w' = w ∨ n ≠ 0 ∧
      rt.mintTo w (privileges accounts (rt.configAddress c.configBump)) mint.key token.key
        rt.configKey n = .ok w' := by
  unfold mintRewards
  split
  · next h => simp [U64.pos_iff_ne_zero.mp h]
  · next h => simp [U64.not_pos_iff.mp h, eq_comm]

omit [Inhabited Pubkey] in
theorem supplyOf_returnPrincipal {vault token : Pubkey} {p : Privileges Pubkey} {Q R : Prop}
    (h : claimOnly = true ∧ w' = w ∨ claimOnly = false ∧ Q ∧ R ∧
    rt.tokenTransfer w p vault token rt.configKey sa.amount = .ok w') :
    w'.supplyOf rt c.mint = w.supplyOf rt c.mint := by
  rcases h with ⟨-, rfl⟩ | ⟨-, -, -, ht⟩
  · rfl
  · exact (transferred ht).supply c.mint

theorem processUnstake_reward (h : processUnstake rt w accounts claimOnly = .ok w') :
    ∃ x token c sa n, WithdrawalOk rt w w' accounts claimOnly x token c sa n ∧
    n.toNat = min (sa.accruedRewards c.rewardRateBps w.clock).toNat
      (c.maxSupply.toNat - w.supplyOf rt c.mint) := by
  unfold processUnstake at h
  split at h
  · next staker stakerToken vault mint stakeAcc configAcc tokenProgram clockAcc rest =>
    simp only [requireSigner, requireAddress, requireOwner, bind_eq_ok, ensure_eq_ok, exists_const,
      loadConfig_ok, requireStakerToken_ok, clockFrom_ok, returnPrincipal_ok, mintableRewards_ok,
      mintRewards_ok, storeData_ok] at h
    obtain ⟨hsi, -, c, ⟨-, hc⟩, hv, hmi, hto, hst, ho, -, sa, hd, how, now,
      ⟨-, rfl⟩, w1, hw, n, hn, w2, hw2, -, rfl⟩ := h
    rw [hv] at hw
    rw [hmi] at hn hw2
    rw [hst] at ho hd ⊢
    refine ⟨staker.key, stakerToken.key, c, sa, n, ⟨ledBy_cons hsi, hc, hto, ho, hd, how,
      w1, w2, hw, ?_, hw2, rfl⟩, ?_⟩
    · rcases hn with ⟨-, hn⟩ | ⟨-, hn⟩
      · exact .inl hn
      · exact .inr hn
    · rcases hn with ⟨hz, rfl⟩ | ⟨-, m, hm, rfl⟩
      · rw [hz]
        exact (Nat.zero_min _).symm
      · rw [U64.toNat_min, toNat_supplyHeadroom, ← supplyOf_of_mintAt hm,
          supplyOf_returnPrincipal hw]
  · exact absurd h (by simp)

theorem processUnstake_ok (h : processUnstake rt w accounts claimOnly = .ok w') :
    ∃ x token c sa n, WithdrawalOk rt w w' accounts claimOnly x token c sa n := by
  obtain ⟨x, token, c, sa, n, hd, -⟩ := processUnstake_reward h
  exact ⟨x, token, c, sa, n, hd⟩

/-! ## Governance -/

structure WithinCaps (feeBps : UInt16) (rewardRateBps : UInt64) (timelockSecs : Int64) : Prop where
  fee : feeBps ≤ maxFeeBps
  rate : rewardRateBps ≤ maxRewardRateBps
  timelock : 0 ≤ timelockSecs ∧ timelockSecs ≤ maxTimelockSecs

/-- What each instruction that only rewrites the configuration does to it, and
what it had to establish first. -/
inductive Governed (now : Int64) (accounts : List (AccountMeta Pubkey)) (c : Config Pubkey) :
    StakingInstruction Pubkey → Config Pubkey → Prop
  | queue {fee : Option UInt16} {rate minStake : Option UInt64} {delay timelock : Option Int64}
      {p : PendingParams} (hp : c.resolveUpdate fee rate minStake delay timelock = p)
      (hled : LedBy accounts c.admin) (hidle : c.pending.active = false)
      (hcaps : WithinCaps p.feeBps p.rewardRateBps p.timelockSecs) :
      Governed now accounts c (.updateParams fee rate minStake delay timelock)
        { c with pending := { p with queuedAt := now } }
  | apply (hactive : c.pending.active = true)
      (helapsed : I64.saturatingAdd c.pending.queuedAt c.timelockSecs ≤ now)
      (hcaps : WithinCaps c.pending.feeBps c.pending.rewardRateBps c.pending.timelockSecs) :
      Governed now accounts c .applyParams c.applyPending
  | cancel (hled : LedBy accounts c.admin) (hactive : c.pending.active = true) :
      Governed now accounts c .cancelParams { c with pending := default }
  | pause (hled : LedBy accounts c.admin) : Governed now accounts c .pause { c with paused := true }
  | unpause (hled : LedBy accounts c.admin) :
      Governed now accounts c .unpause { c with paused := false }
  | transferAdmin {newAdmin : Pubkey} (hled : LedBy accounts c.admin) (hnew : newAdmin ≠ default) :
      Governed now accounts c (.transferAdmin newAdmin) { c with pendingAdmin := newAdmin }
  | acceptAdmin (hled : LedBy accounts c.pendingAdmin) (hset : c.pendingAdmin ≠ default) :
      Governed now accounts c .acceptAdmin
        { c with admin := c.pendingAdmin, pendingAdmin := default }

/-- A governance instruction succeeded: the configuration alone was rewritten. -/
def GovernanceOk (rt : Runtime Pubkey) (w w' : World Pubkey)
    (accounts : List (AccountMeta Pubkey)) (ix : StakingInstruction Pubkey) : Prop :=
  ∃ c c', w.configOf rt.toAddresses = some c ∧ Governed w.clock accounts c ix c' ∧
    w' = w.setData rt.configKey (.config c')

theorem adminUpdate_ok {update : Config Pubkey → Except ProgramError (Config Pubkey)}
    (h : adminUpdate rt w accounts update = .ok w') :
    ∃ c c', w.configOf rt = some c ∧ LedBy accounts c.admin ∧ update c = .ok c' ∧
    w' = w.setData rt.configKey (.config c') := by
  unfold adminUpdate at h
  split at h
  · next admin configAcc rest =>
    simp only [requireSigner, bind_eq_ok, ensure_eq_ok, exists_const, loadConfig_ok] at h
    obtain ⟨hsi, c, ⟨hk, hc⟩, ha, c', hu, hsa⟩ := h
    refine ⟨c, c', hc, ?_, hu, ?_⟩
    · rw [ha]
      exact ledBy_cons hsi
    · rw [← hk]
      exact saveConfig_ok hsa
  · exact absurd h (by simp)

theorem processCancelUpdate_ok (h : processCancelUpdate rt w accounts = .ok w') :
    GovernanceOk rt w w' accounts .cancelParams := by
  obtain ⟨c, c', hc, hl, hu, hw⟩ := adminUpdate_ok h
  simp only [ensure_bind_eq_ok] at hu
  obtain ⟨ha, hu⟩ := hu
  obtain rfl := ok.inj hu
  exact ⟨c, _, hc, .cancel hl ha, hw⟩

theorem processSetPaused_ok {paused : Bool} (h : processSetPaused rt w accounts paused = .ok w') :
    GovernanceOk rt w w' accounts (if paused then .pause else .unpause) := by
  obtain ⟨c, c', hc, hl, hu, hw⟩ := adminUpdate_ok h
  obtain rfl := ok.inj hu
  cases paused with
  | true => exact ⟨c, _, hc, .pause hl, hw⟩
  | false => exact ⟨c, _, hc, .unpause hl, hw⟩

theorem processTransferAdmin_ok {newAdmin : Pubkey}
    (h : processTransferAdmin rt w accounts newAdmin = .ok w') :
    GovernanceOk rt w w' accounts (.transferAdmin newAdmin) := by
  obtain ⟨c, c', hc, hl, hu, hw⟩ := adminUpdate_ok h
  simp only [ensure_bind_eq_ok] at hu
  obtain ⟨hn, hu⟩ := hu
  obtain rfl := ok.inj hu
  exact ⟨c, _, hc, .transferAdmin hl hn, hw⟩

theorem processAcceptAdmin_ok (h : processAcceptAdmin rt w accounts = .ok w') :
    GovernanceOk rt w w' accounts .acceptAdmin := by
  unfold processAcceptAdmin at h
  split at h
  · next pending configAcc rest =>
    simp only [requireSigner, bind_eq_ok, ensure_eq_ok, exists_const, loadConfig_ok] at h
    obtain ⟨hsi, c, ⟨hk, hc⟩, ⟨hse, hpending⟩, hsa⟩ := h
    refine ⟨c, _, hc, .acceptAdmin ?_ hse, ?_⟩
    · rw [hpending]
      exact ledBy_cons hsi
    · rw [← hk]
      exact saveConfig_ok hsa
  · exact absurd h (by simp)

theorem processQueueUpdate_ok {fee : Option UInt16} {rate minStake : Option UInt64}
    {delay timelock : Option Int64}
    (h : processQueueUpdate rt w accounts fee rate minStake delay timelock = .ok w') :
    GovernanceOk rt w w' accounts (.updateParams fee rate minStake delay timelock) := by
  unfold processQueueUpdate at h
  split at h
  · next admin configAcc clockAcc rest =>
    simp only [requireSigner, bind_eq_ok, ensure_eq_ok, exists_const, loadConfig_ok,
      validateParams_ok, validateTimelock_ok, clockFrom_ok] at h
    obtain ⟨hsi, c, ⟨hk, hc⟩, ha, hi, ⟨hf, hr⟩, hti, now, ⟨-, rfl⟩, hsa⟩ := h
    refine ⟨c, _, hc, .queue rfl ?_ hi ⟨hf, hr, hti⟩, ?_⟩
    · rw [ha]
      exact ledBy_cons hsi
    · rw [← hk]
      exact saveConfig_ok hsa
  · exact absurd h (by simp)

theorem processApplyUpdate_ok (h : processApplyUpdate rt w accounts = .ok w') :
    GovernanceOk rt w w' accounts .applyParams := by
  unfold processApplyUpdate at h
  split at h
  · next configAcc clockAcc rest =>
    simp only [bind_eq_ok, ensure_eq_ok, exists_const, loadConfig_ok, validateParams_ok,
      validateTimelock_ok, clockFrom_ok] at h
    obtain ⟨c, ⟨hk, hc⟩, ha, now, ⟨-, rfl⟩, he, ⟨hf, hr⟩, hti, hsa⟩ := h
    refine ⟨c, _, hc, .apply ha he ⟨hf, hr, hti⟩, ?_⟩
    rw [← hk]
    exact saveConfig_ok hsa
  · exact absurd h (by simp)

/-! ## Genesis, metadata and initialisation -/

structure GenesisOk (rt : Runtime Pubkey) (w w' : World Pubkey)
    (accounts : List (AccountMeta Pubkey)) (amount : UInt64) (recipient : Pubkey)
    (c : Config Pubkey) (m : Mint Pubkey) : Prop where
  led : LedBy accounts c.admin
  config : w.configOf rt.toAddresses = some c
  positive : amount ≠ 0
  latch : c.genesisDone = false
  mint : w.mintAt rt.toAddresses c.mint = some m
  fits : fitsUnderCap m.supply amount c.maxSupply = true
  effect : ∃ w1, rt.mintTo w (privileges accounts (rt.configAddress c.configBump)) c.mint recipient
      rt.configKey amount = .ok w1 ∧
    w' = w1.setData rt.configKey (.config { c with genesisDone := true })

theorem processGenesisMint_ok (h : processGenesisMint rt w accounts amount = .ok w') :
    ∃ recipient c m, GenesisOk rt w w' accounts amount recipient c m := by
  unfold processGenesisMint at h
  split at h
  · next admin configAcc mintAcc recipientAcc tokenProgram rest =>
    simp only [requireSigner, requireAddress, requireOwner, bind_eq_ok, ensure_eq_ok, exists_const,
      loadConfig_ok, unpackMint_ok] at h
    obtain ⟨hsi, c, ⟨hk, hc⟩, ha, -, hmi, -, hpos, hl, ho, m, hm, hf, w1, ht, hsa⟩ := h
    rw [hmi] at ho hm ht
    refine ⟨recipientAcc.key, c, m, ha ▸ ledBy_cons hsi, hc, hpos, hl, ?_, hf, w1, ht,
      hk ▸ saveConfig_ok hsa⟩
    exact mintAt_eq_some.mpr (Prod.ext ho hm)
  · exact absurd h (by simp)

structure MetadataOk (rt : Runtime Pubkey) (w w' : World Pubkey)
    (accounts : List (AccountMeta Pubkey)) (name symbol uri : String) (c : Config Pubkey) :
    Prop where
  led : LedBy accounts c.admin
  config : w.configOf rt.toAddresses = some c
  fields : validateMetadataFields name symbol uri = .ok ()
  fresh : (w.accounts (rt.metadataPda c.mint).1).lamports = 0 ∧
    (w.accounts (rt.metadataPda c.mint).1).data.dataLen = 0
  effect : rt.createMetadataAccountsV3 w (privileges accounts (rt.configAddress c.configBump))
    (rt.metadataPda c.mint).1 c.mint c.admin (createMetadataAccountsV3Data name symbol uri) = .ok w'

theorem processCreateTokenMetadata_ok {name symbol uri : String}
    (h : processCreateTokenMetadata rt w accounts name symbol uri = .ok w') :
    ∃ c, MetadataOk rt w w' accounts name symbol uri c := by
  unfold processCreateTokenMetadata at h
  split at h
  · next admin configAcc mintAcc metadataAcc metadataProgram systemProgramAcc rentAcc rest =>
    simp only [requireSigner, requireAddress, bind_eq_ok, ensure_eq_ok, exists_const,
      loadConfig_ok] at h
    obtain ⟨hsi, c, ⟨-, hc⟩, ha, hmi, -, -, _, hfi, hm, -, hf, hca⟩ := h
    rw [hmi] at hm hca
    rw [hm] at hf hca
    rw [← ha] at hca
    exact ⟨c, ha ▸ ledBy_cons hsi, hc, hfi, hf, hca⟩
  · exact absurd h (by simp)

def initialConfig (rt : Runtime Pubkey) (payer mint treasuryWallet : Pubkey) (feeBps : UInt16)
    (rewardRateBps minStake : UInt64) (unstakeDelay : Int64) (decimals : UInt8)
    (timelockSecs : Int64) (maxSupply : UInt64) : Config Pubkey :=
  { initialized := true, admin := payer, mint := mint,
    vault := rt.associatedTokenAddress rt.configKey mint,
    treasury := rt.associatedTokenAddress treasuryWallet mint, feeBps := feeBps,
    rewardRateBps := rewardRateBps, minStake := minStake, unstakeDelay := unstakeDelay,
    decimals := decimals, configBump := rt.configPda.2, mintBump := rt.configPda.2,
    paused := false, pendingAdmin := default, timelockSecs := timelockSecs, pending := default,
    genesisDone := false, maxSupply := maxSupply }

structure InitializeOk (rt : Runtime Pubkey) (w w' : World Pubkey)
    (accounts : List (AccountMeta Pubkey)) (payer mint treasuryWallet : Pubkey)
    (c : Config Pubkey) : Prop where
  led : LedBy accounts payer
  signed : Signed accounts mint
  caps : WithinCaps c.feeBps c.rewardRateBps c.timelockSecs
  cap : c.maxSupply ≠ 0
  fresh : rejectReinitialisation rt w ⟨rt.configKey, false, false⟩ = .ok ()
  effect : ∃ w1 w2 w3 w4 w5,
    rt.createAccount w (privileges accounts none) payer mint (rt.minimumBalance mintLen) mintLen
      rt.tokenProgramId = .ok w1 ∧
    rt.initializeMint2 w1 (privileges accounts none) mint rt.configKey none c.decimals = .ok w2 ∧
    rt.createAssociatedTokenAccountIdempotent w2 (privileges accounts none) payer rt.configKey
      mint = .ok w3 ∧
    rt.createAssociatedTokenAccountIdempotent w3 (privileges accounts none) payer treasuryWallet
      mint = .ok w4 ∧
    rt.createAccount w4 (privileges accounts (rt.configAddress rt.configPda.2)) payer rt.configKey
      (rt.minimumBalance configLen) configLen rt.programId = .ok w5 ∧
    w' = w5.setData rt.configKey (.config c)

theorem processInitialize_ok {rewardRateBps minStake : UInt64}
    {unstakeDelay : Int64} {decimals : UInt8} {timelockSecs : Int64} {maxSupply : UInt64}
    (h : processInitialize rt w accounts feeBps rewardRateBps minStake unstakeDelay decimals
    timelockSecs maxSupply = .ok w') :
    ∃ payer mint treasuryWallet, InitializeOk rt w w' accounts payer mint treasuryWallet
    (initialConfig rt payer mint treasuryWallet feeBps rewardRateBps minStake unstakeDelay
      decimals timelockSecs maxSupply) := by
  unfold processInitialize at h
  simp only [bind_eq_ok, ensure_eq_ok, exists_const, validateParams_ok, validateTimelock_ok] at h
  obtain ⟨⟨hfe, hr⟩, hti, hc, h⟩ := h
  split at h
  · next payer configAcc mintAcc vaultAcc treasuryAcc treasuryWallet tokenProgram assocProgram
      systemProgramAcc rentAcc rest =>
    simp only [requireSigner, requireAddress, bind_eq_ok, ensure_eq_ok, exists_const, rentFrom_ok,
      storeData_ok] at h
    obtain ⟨hsi, hm, hto, -, -, hk, _, hf, hv, htr, f, ⟨-, rfl⟩, w1, h1,
      w2, h2, w3, h3, w4, h4, w5, h5, -, rfl⟩ := h
    rw [hk, hv, htr]
    refine ⟨payer.key, mintAcc.key, treasuryWallet.key, ledBy_cons hsi,
      ⟨mintAcc, by simp, rfl, hm⟩, ⟨hfe, hr, hti⟩, hc, ?_, w1, w2, w3, w4, w5,
      hto ▸ h1, h2, h3, h4, h5, rfl⟩
    simpa only [rejectReinitialisation, hk] using hf
  · exact absurd h (by simp)

end SniperBot.Staking
