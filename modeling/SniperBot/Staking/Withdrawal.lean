import SniperBot.Staking.Solvency

/-!
# Withdrawals go through

A withdrawal that passes the checks of its handler succeeds: the vault holds the
principal, the staker's account has room for it because no account can hold more
than the supply, and the reward is clamped so that minting it stays below the
cap. Nothing else stands in its way.
-/

namespace SniperBot.Staking

open Lib.MachineInt Lib.Guard Lib.Runs Lib.Totals

variable {Pubkey : Type} [DecidableEq Pubkey] {rt : Runtime Pubkey} {w w' : World Pubkey}
  {accounts : List (AccountMeta Pubkey)} {x token : Pubkey} {c : Config Pubkey}
  {sa : StakeAccount Pubkey} {claimOnly : Bool} {t : TokenAccount Pubkey} {p : Privileges Pubkey}

/-- The account list of a withdrawal, with the flags the token program and the
runtime ask for. -/
structure WithdrawalAccounts (ids : Addresses Pubkey) (c : Config Pubkey) (x token : Pubkey)
    (staker stakerToken vault mint stakeAcc configAcc tokenProgram clockAcc :
      AccountMeta Pubkey) : Prop where
  stakerKey : staker.key = x
  signs : staker.isSigner = true
  tokenKey : stakerToken.key = token
  vaultKey : vault.key = c.vault
  mintKey : mint.key = c.mint
  stakeKey : stakeAcc.key = ids.stakeKey x
  configKey : configAcc.key = ids.configKey
  programKey : tokenProgram.key = ids.tokenProgramId
  clockKey : clockAcc.key = ids.clockId
  tokenWritable : stakerToken.isWritable = true
  vaultWritable : vault.isWritable = true
  mintWritable : mint.isWritable = true
  stakeWritable : stakeAcc.isWritable = true

/-- The account, cooldown and balance checks of `Unstake`, or of `Claim`. -/
structure WithdrawalChecks (rt : Runtime Pubkey) (w : World Pubkey)
    (accounts : List (AccountMeta Pubkey)) (claimOnly : Bool) (x token : Pubkey)
    (c : Config Pubkey) (sa : StakeAccount Pubkey) : Prop where
  shape : ∃ staker stakerToken vault mint stakeAcc configAcc tokenProgram clockAcc rest,
    accounts = staker :: stakerToken :: vault :: mint :: stakeAcc :: configAcc :: tokenProgram ::
      clockAcc :: rest ∧
    WithdrawalAccounts rt.toAddresses c x token staker stakerToken vault mint stakeAcc configAcc
      tokenProgram clockAcc
  config : w.configOf rt.toAddresses = some c
  target : ∃ t, w.tokenAt rt.toAddresses token = some t ∧ t.mint = c.mint ∧ t.owner = x
  position : w.stakeOf rt.toAddresses x = some sa
  balance : claimOnly = false → sa.amount ≠ 0
  cooldown : claimOnly = false → c.unstakeDelay ≤ I64.saturatingSub w.clock sa.stakedAt

theorem withdrawalChecks_unstakeIx (hc : w.configOf rt = some c) (hsa : w.stakeOf rt x = some sa)
    (ht : ∃ t, w.tokenAt rt token = some t ∧ t.mint = c.mint ∧ t.owner = x)
    (ha : sa.amount ≠ 0)
    (hd : c.unstakeDelay ≤ I64.saturatingSub w.clock sa.stakedAt) :
    WithdrawalChecks rt w (unstakeIx rt x token c.vault c.mint).accounts false x token c sa where
  shape := ⟨_, _, _, _, _, _, _, _, [], rfl, rfl, rfl, rfl, rfl, rfl, rfl, rfl, rfl, rfl, rfl, rfl,
    rfl, rfl⟩
  config := hc
  target := ht
  position := hsa
  balance := fun _ => ha
  cooldown := fun _ => hd

theorem writes_of_mem {a : AccountMeta Pubkey} {pda : Option Pubkey}
    (ha : a ∈ accounts) (hw : a.isWritable = true) :
    (privileges accounts pda).writes a.key = true := by
  simp only [privileges, List.any_eq_true]
  exact ⟨a, ha, by simp [hw]⟩

theorem signs_pda {k : Pubkey} : (privileges accounts (some k)).signs k = true := by
  simp [privileges]

theorem Deployed.pair_le (h : Deployed rt w c) (hs : SplSound rt w) {j k : Pubkey} (hj : j ≠ k) :
    w.balanceOf rt c.mint j + w.balanceOf rt c.mint k ≤ U64.maxNat := by
  have hpa : _ ≤ w.supplyOf rt c.mint := Covers.pair_le (hs.backed c.mint) hj
  have hc := h.supply_le
  have hm := U64.toNat_le_max c.maxSupply
  omega

theorem Deployed.balance_le_supply (hs : SplSound rt w) (k : Pubkey) :
    w.balanceOf rt c.mint k ≤ w.supplyOf rt c.mint :=
  Covers.single_le (hs.backed c.mint) k

theorem principal_transfer_succeeds
    (h : WellFormed rt w) (hc : w.configOf rt = some c) (hx : ¬ rt.IsPda x)
    (ht : w.tokenAt rt token = some t) (htm : t.mint = c.mint) (hto : t.owner = x)
    (ha : sa.amount.toNat ≤ w.balanceOf rt c.mint c.vault)
    (hsi : p.signs rt.configKey = true) (hwv : p.writes c.vault = true)
    (hw : p.writes token = true) :
    ∃ w', rt.tokenTransfer w p c.vault token rt.configKey sa.amount = .ok w' := by
  have hd := h.deployed hc
  have hn := hd.token_ne_vault hx ht hto
  obtain ⟨v, hv, hvm, hvo⟩ := hd.vault
  have hpa := hd.pair_le h.sound hn
  have hvb : w.balanceOf rt c.mint c.vault = v.amount.toNat := hvm ▸ World.balanceOf_of_tokenAt hv
  have htb : w.balanceOf rt c.mint token = t.amount.toNat := htm ▸ World.balanceOf_of_tokenAt ht
  rw [← hvo] at hsi ⊢
  exact rt.tokenTransfer_succeeds hv ht (hvm.trans htm.symm) (hd.thawed _ _ hv hvm)
    (hd.thawed _ _ ht htm) hsi hwv hw (by omega) (by omega)

theorem reward_mint_succeeds {m : Mint Pubkey}
    {n : UInt64} (h : WellFormed rt w) (hc : w.configOf rt = some c)
    (ht : w.tokenAt rt token = some t) (htm : t.mint = c.mint)
    (hm : w.mintAt rt c.mint = some m)
    (hn : n.toNat ≤ (supplyHeadroom m.supply c.maxSupply).toNat)
    (hsi : p.signs rt.configKey = true) (hw : p.writes c.mint = true)
    (hwt : p.writes token = true) :
    ∃ w', rt.mintTo w p c.mint token rt.configKey n = .ok w' := by
  have hd := h.deployed hc
  obtain ⟨m', hm', ha, -, hle⟩ := hd.mint
  obtain rfl := Option.some.inj (hm.symm.trans hm')
  have hsu := Deployed.balance_le_supply (c := c) h.sound token
  rw [World.supplyOf_of_mintAt hm] at hsu
  have htb : w.balanceOf rt c.mint token = t.amount.toNat := htm ▸ World.balanceOf_of_tokenAt ht
  have hma := U64.toNat_le_max c.maxSupply
  rw [toNat_supplyHeadroom] at hn
  exact rt.mintTo_succeeds hm ht htm (hd.thawed _ _ ht htm) ha hsi hw hwt (by omega) (by omega)

theorem returnPrincipal_succeeds {vault stakerToken : AccountMeta Pubkey} (h : WellFormed rt w)
    (hk : WithdrawalChecks rt w accounts claimOnly x token c sa) (hx : ¬ rt.IsPda x)
    (ham : sa.amount.toNat ≤ w.balanceOf rt c.mint c.vault)
    (hv : vault.key = c.vault) (htk : stakerToken.key = token) (hvm : vault ∈ accounts)
    (htm : stakerToken ∈ accounts) (hvw : vault.isWritable = true)
    (htw : stakerToken.isWritable = true) :
    ∃ w1, returnPrincipal rt w accounts c vault stakerToken sa w.clock claimOnly = .ok w1 ∧
    WellFormed rt w1 ∧ (∀ k, rt.IsPda k → w1.slot k = w.slot k) ∧
    ∃ t, w1.tokenAt rt token = some t ∧ t.mint = c.mint := by
  obtain ⟨t, ht, htmi, hto⟩ := hk.target
  cases claimOnly with
  | true => exact ⟨w, rfl, h, fun _ _ => rfl, t, ht, htmi⟩
  | false =>
    have hd := h.deployed hk.config
    obtain ⟨w1, hw⟩ := principal_transfer_succeeds (p := privileges accounts (some rt.configKey)) h
      hk.config hx ht htmi hto ham signs_pda (hv ▸ writes_of_mem hvm hvw)
      (htk ▸ writes_of_mem htm htw)
    have htr := transferred hw
    obtain ⟨a, ha⟩ := htr.call.tokens _ _ ht
    refine ⟨w1, ?_, h.transferred htr, fun k hkp => h.pda_kept htr.call hkp, _, ha, htmi⟩
    rw [returnPrincipal_ok, hd.bump, hv, htk, rt.configAddress_bump]
    exact .inr ⟨rfl, hk.balance rfl, hk.cooldown rfl, hw⟩

theorem mintReward_succeeds {mint stakerToken : AccountMeta Pubkey}
    (rewards : UInt64) (h : WellFormed rt w) (hc : w.configOf rt = some c)
    (ht : w.tokenAt rt token = some t) (htmi : t.mint = c.mint)
    (hm : mint.key = c.mint) (htk : stakerToken.key = token) (hmm : mint ∈ accounts)
    (htm : stakerToken ∈ accounts) (hmw : mint.isWritable = true)
    (htw : stakerToken.isWritable = true) :
    ∃ n w2, mintableRewards rt w mint c.maxSupply rewards = .ok n ∧
    mintRewards rt w accounts c mint stakerToken n = .ok w2 ∧
    ∀ k, rt.IsPda k → w2.slot k = w.slot k := by
  obtain ⟨m, hmi, -, -, -⟩ := (h.deployed hc).mint
  obtain ⟨n, hn, hle⟩ : ∃ n, mintableRewards rt w mint c.maxSupply rewards = .ok n ∧
      n.toNat ≤ (supplyHeadroom m.supply c.maxSupply).toNat := by
    by_cases hr : rewards = 0
    · exact ⟨0, mintableRewards_ok.mpr (.inl ⟨hr, rfl⟩), Nat.zero_le _⟩
    · refine ⟨_, mintableRewards_ok.mpr (.inr ⟨hr, m, hm ▸ hmi, rfl⟩), ?_⟩
      rw [U64.toNat_min]
      exact Nat.min_le_right _ _
  by_cases hn0 : n = 0
  · exact ⟨n, w, hn, mintRewards_ok.mpr (.inl ⟨hn0, rfl⟩), fun _ _ => rfl⟩
  · obtain ⟨w2, hw⟩ := reward_mint_succeeds (p := privileges accounts (some rt.configKey)) h hc ht
      htmi hmi hle signs_pda (hm ▸ writes_of_mem hmm hmw) (htk ▸ writes_of_mem htm htw)
    refine ⟨n, w2, hn, mintRewards_ok.mpr (.inr ⟨hn0, ?_⟩), fun k hk => ?_⟩
    · rw [(h.deployed hc).bump, hm, htk, rt.configAddress_bump]
      exact hw
    · exact h.pda_kept (minted hw).call hk

theorem withdrawal_succeeds [Inhabited Pubkey] (h : WellFormed rt w)
    (hk : WithdrawalChecks rt w accounts claimOnly x token c sa)
    (ham : sa.amount.toNat ≤ w.balanceOf rt c.mint c.vault) :
    ∃ w', processUnstake rt w accounts claimOnly = .ok w' := by
  obtain ⟨hown, hx⟩ : sa.owner = x ∧ ¬ rt.IsPda x := by
    rcases h.stake x with hu | ⟨sa', hsa, ho, hx⟩
    · have hno := stakeOf_of_unallocated hu
      rw [hk.position] at hno
      contradiction
    · obtain rfl := Option.some.inj (hsa.symm.trans hk.position)
      exact ⟨ho, hx⟩
  have hsl := World.stakeOf_eq_some.mp hk.position
  obtain ⟨staker, stakerToken, vault, mint, stakeAcc, configAcc, tokenProgram, clockAcc, rest, hac,
    ha⟩ := hk.shape
  have hm : ∀ a ∈ [stakerToken, vault, mint], a ∈ accounts := by
    intro a hm
    rw [hac]
    simp only [List.mem_cons, List.not_mem_nil, or_false] at hm
    rcases hm with rfl | rfl | rfl <;> simp
  obtain ⟨w1, hw, hwf, hpd, t1, ht1, htm⟩ := returnPrincipal_succeeds h hk hx ham ha.vaultKey
    ha.tokenKey (hm vault (by simp)) (hm stakerToken (by simp)) ha.vaultWritable
    ha.tokenWritable
  have hc : w1.configOf rt = some c :=
    (World.configOf_congr (hpd _ isPda_configKey)).trans hk.config
  obtain ⟨n, w2, hn, hw2, hpda⟩ := mintReward_succeeds
    (sa.accruedRewards c.rewardRateBps w.clock) hwf hc ht1 htm ha.mintKey ha.tokenKey
    (hm mint (by simp)) (hm stakerToken (by simp)) ha.mintWritable ha.tokenWritable
  have hslo : w2.slot (rt.stakeKey x) = (rt.programId, .stake sa) := by
    rw [hpda _ (isPda_stakeKey x), hpd _ (isPda_stakeKey x), hsl]
  have how : (w.slot (rt.stakeKey x)).1 = rt.programId := congrArg Prod.fst hsl
  have hd : (w.accounts (rt.stakeKey x)).data = .stake sa := congrArg Prod.snd hsl
  refine ⟨w2.setData (rt.stakeKey x) (.stake (sa.paidOut claimOnly w.clock)), ?_⟩
  subst hac
  simp only [processUnstake, requireSigner, requireAddress, requireOwner, bind_eq_ok, ensure_eq_ok,
    exists_const, loadConfig_ok, requireStakerToken_ok, clockFrom_ok, storeData_ok, ha.stakerKey,
    ha.tokenKey, ha.stakeKey]
  refine ⟨ha.signs, ha.programKey, c, ⟨ha.configKey, hk.config⟩, ha.vaultKey, ha.mintKey,
    hk.target, trivial, how, ?_, sa, ?_, hown, w.clock, ⟨ha.clockKey, rfl⟩, w1, hw, n, hn, w2,
    hw2, .inr ⟨ha.stakeWritable, congrArg Prod.fst hslo⟩, rfl⟩
  · simp [hd, AccountData.dataLen, stakeLen]
  · exact decodeStake_ok.mpr (.inl hd)

end SniperBot.Staking
