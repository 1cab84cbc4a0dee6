import SniperBot.Lib.Custody
import SniperBot.Staking.Deployment

/-!
# The program refines a custodian under a governed configuration

Two abstractions of the chain. The vault and the recorded principals form a
custody pool; the configuration moves only by the steps of `ConfigStep`. Every
successful instruction is one step of each, and other transactions can only add
to the vault.
-/

namespace SniperBot.Staking

open Lib.MachineInt Lib.Guard Lib.Runs World
open Lib (Custody.Pool Custody.Event Custody.Step)

variable {Pubkey : Type} [DecidableEq Pubkey]

section

variable (ids : Addresses Pubkey) (w : World Pubkey)

def vaultBalance : Nat :=
  match w.configOf ids with
  | some c => w.balanceOf ids c.mint c.vault
  | none => 0

def principal (x : Pubkey) : Nat :=
  match w.stakeOf ids x with
  | some sa => sa.amount.toNat
  | none => 0

def poolOf : Custody.Pool Pubkey := ⟨vaultBalance ids w, principal ids w⟩

end

/-- What a successful instruction means to the custodian. A deposit counts net of
the fee in force. -/
def custodyEvent (c : Option (Config Pubkey)) (accounts : List (AccountMeta Pubkey)) :
    StakingInstruction Pubkey → Custody.Event Pubkey
  | .stake amount =>
    match leader accounts, c with
    | some x, some c => .deposit x (amount.toNat - (computeFee amount c.feeBps).toNat)
    | _, _ => .other
  | .unstake =>
    match leader accounts with
    | some x => .withdraw x
    | none => .other
  | _ => .other

def StakingInstruction.keepsConfig : StakingInstruction Pubkey → Bool
  | .stake _ | .unstake | .claim | .createTokenMetadata _ _ _ => true
  | _ => false

inductive ConfigStep [Inhabited Pubkey] (rt : Runtime Pubkey) (now : Int64)
    (accounts : List (AccountMeta Pubkey)) :
    Option (Config Pubkey) → StakingInstruction Pubkey → Option (Config Pubkey) → Prop
  | deploy {payer mint wallet : Pubkey} {fee : UInt16} {rate minStake : UInt64} {delay : Int64}
      {decimals : UInt8} {timelock : Int64} {maxSupply : UInt64} {c : Config Pubkey}
      (hc : initialConfig rt payer mint wallet fee rate minStake delay decimals timelock
        maxSupply = c) (hled : LedBy accounts payer) :
      ConfigStep rt now accounts none
        (.initializeConfig fee rate minStake delay decimals timelock maxSupply) (some c)
  | govern {c c' : Config Pubkey} {ix : StakingInstruction Pubkey}
      (hgov : Governed now accounts c ix c') : ConfigStep rt now accounts (some c) ix (some c')
  | genesis {c : Config Pubkey} {amount : UInt64} (hled : LedBy accounts c.admin)
      (hlatch : c.genesisDone = false) :
      ConfigStep rt now accounts (some c) (.genesisMint amount)
        (some { c with genesisDone := true })
  | keep {c : Config Pubkey} {ix : StakingInstruction Pubkey} (hix : ix.keepsConfig = true) :
      ConfigStep rt now accounts (some c) ix (some c)

structure Outcome [Inhabited Pubkey] (rt : Runtime Pubkey) (w w' : World Pubkey)
    (accounts : List (AccountMeta Pubkey)) (ix : StakingInstruction Pubkey) : Prop where
  wellFormed : WellFormed rt w'
  clock : w'.clock = w.clock
  config : ConfigStep rt w.clock accounts (w.configOf rt.toAddresses) ix
    (w'.configOf rt.toAddresses)
  pool : Custody.Step (poolOf rt.toAddresses w)
    (custodyEvent (w.configOf rt.toAddresses) accounts ix) (poolOf rt.toAddresses w')
  untouched : ∀ y, ¬ Signed accounts y → w'.slot (rt.stakeKey y) = w.slot (rt.stakeKey y)

section

variable {ids : Addresses Pubkey} {rt : Runtime Pubkey} {w w' : World Pubkey} {x : Pubkey}
  {c : Config Pubkey} {sa : StakeAccount Pubkey}

theorem vaultBalance_of_config (h : w.configOf ids = some c) :
    vaultBalance ids w = w.balanceOf ids c.mint c.vault := by
  simp [vaultBalance, h]

theorem principal_of_stakeOf (h : w.stakeOf ids x = some sa) :
    principal ids w x = sa.amount.toNat := by
  simp [principal, h]

theorem principal_congr (h : w'.slot (ids.stakeKey x) = w.slot (ids.stakeKey x)) :
    principal ids w' x = principal ids w x := by
  simp only [principal, stakeOf_congr h]

theorem pool_other (hp : principal ids w' = principal ids w)
    (hv : vaultBalance ids w ≤ vaultBalance ids w') :
    Custody.Step (poolOf ids w) .other (poolOf ids w') := by
  unfold poolOf
  rw [hp]
  exact .other hv

theorem principal_eq_update (hn : ∀ y, y ≠ x → w'.slot (rt.stakeKey y) = w.slot (rt.stakeKey y))
    (hse : w'.stakeOf rt x = some sa) :
    principal rt w' = Function.update (principal rt w) x sa.amount.toNat := by
  funext y
  by_cases hy : y = x
  · subst hy
    rw [Function.update_self, principal_of_stakeOf hse]
  · rw [Function.update_of_ne hy]
    exact principal_congr (hn y hy)

theorem pool_deposit {n : Nat} (hn : ∀ y, y ≠ x → w'.slot (rt.stakeKey y) = w.slot (rt.stakeKey y))
    (hse : w'.stakeOf rt x = some sa)
    (ha : sa.amount.toNat = principal rt w x + n)
    (hv : vaultBalance rt w + n ≤ vaultBalance rt w') :
    Custody.Step (poolOf rt w) (.deposit x n) (poolOf rt w') := by
  unfold poolOf
  rw [principal_eq_update hn hse, ha]
  exact .deposit hv

theorem pool_withdraw (hn : ∀ y, y ≠ x → w'.slot (rt.stakeKey y) = w.slot (rt.stakeKey y))
    (hse : w'.stakeOf rt x = some sa) (ha : sa.amount = 0)
    (hv : vaultBalance rt w' + principal rt w x = vaultBalance rt w) :
    Custody.Step (poolOf rt w) (.withdraw x) (poolOf rt w') := by
  unfold poolOf
  rw [principal_eq_update hn hse, ha]
  exact .withdraw hv

end

section

variable {rt : Runtime Pubkey} {w w' w1 w2 w3 : World Pubkey}
  {accounts : List (AccountMeta Pubkey)} {x token : Pubkey} {c : Config Pubkey}
  {sa : StakeAccount Pubkey} {now : Int64}

theorem Deployed.token_ne_vault (h : Deployed rt w c) (hx : ¬ rt.IsPda x)
    {t : TokenAccount Pubkey} (ht : w.tokenAt rt token = some t) (ho : t.owner = x) :
    token ≠ c.vault := by
  rintro rfl
  obtain ⟨v, hv, -, hvo⟩ := h.vault
  obtain rfl := Option.some.inj (hv.symm.trans ht)
  exact hx (ho ▸ hvo ▸ isPda_configKey)

theorem Deployed.supply_le (h : Deployed rt w c) : w.supplyOf rt c.mint ≤ c.maxSupply.toNat := by
  obtain ⟨m, hm, -, -, hle⟩ := h.mint
  rwa [supplyOf_of_mintAt hm]

variable {n : UInt64} {p : Privileges Pubkey} {net : UInt64} {claimOnly : Bool} {amount : UInt64}
  {ix : StakingInstruction Pubkey} {c' : Config Pubkey}

theorem WellFormed.transferred {source target : Pubkey} (h : WellFormed rt w)
    (ht : Transferred rt w w' source target n) : WellFormed rt w' :=
  h.tokenCall ht.call fun c hd => (ht.supply c.mint).trans_le hd.supply_le

theorem deposit_payments {fee : UInt64} (h : WellFormed rt w)
    (hc : w.configOf rt = some c) (hn : token ≠ c.vault)
    (h1 : rt.tokenTransfer w p token c.vault x net = .ok w1)
    (h2 : fee = 0 ∧ w2 = w1 ∨ fee ≠ 0 ∧ rt.tokenTransfer w1 p token c.treasury x fee = .ok w2) :
    WellFormed rt w2 ∧ w2.clock = w.clock ∧ (∀ k, rt.IsPda k → w2.slot k = w.slot k) ∧
    vaultBalance rt w + net.toNat ≤ w2.balanceOf rt c.mint c.vault := by
  have ht1 := transferred h1
  have hw := h.transferred ht1
  obtain ⟨v, hv, hvm, -⟩ := (h.deployed hc).vault
  have hcr := ht1.credit v hn hv
  rw [hvm, ← vaultBalance_of_config hc] at hcr
  rcases h2 with ⟨-, rfl⟩ | ⟨-, h2⟩
  · exact ⟨hw, ht1.call.clock, fun k hk => h.pda_kept ht1.call hk, hcr.ge⟩
  · have ht2 := transferred h2
    refine ⟨hw.transferred ht2, ht2.call.clock.trans ht1.call.clock, fun k hk => ?_, ?_⟩
    · rw [hw.pda_kept ht2.call hk, h.pda_kept ht1.call hk]
    · exact hcr.ge.trans (ht2.gain _ _ hn.symm)

theorem WellFormed.mintedReward {rewards : UInt64} (h : WellFormed rt w)
    (hc : w.configOf rt = some c)
    (hn : n = 0 ∨ ∃ m, w.mintAt rt c.mint = some m ∧
    n = min rewards (supplyHeadroom m.supply c.maxSupply)) (hm : n = 0 ∧ w' = w ∨ n ≠ 0 ∧
    rt.mintTo w p c.mint token rt.configKey n = .ok w') (hne : token ≠ c.vault) :
    WellFormed rt w' ∧ w'.clock = w.clock ∧ (∀ k, rt.IsPda k → w'.slot k = w.slot k) ∧
    w'.balanceOf rt c.mint c.vault = w.balanceOf rt c.mint c.vault := by
  rcases hm with ⟨-, rfl⟩ | ⟨hn0, hm⟩
  · exact ⟨h, rfl, fun _ _ => rfl, rfl⟩
  obtain ⟨m, hmi, hn⟩ := hn.resolve_left hn0
  have hmt := minted hm
  have hh : n.toNat + m.supply.toNat ≤ c.maxSupply.toNat := by
    have hle := (h.deployed hc).supply_le
    rw [supplyOf_of_mintAt hmi] at hle
    have hmin : n.toNat ≤ c.maxSupply.toNat - m.supply.toNat := by
      rw [hn, U64.toNat_min, toNat_supplyHeadroom]
      exact Nat.min_le_right _ _
    omega
  refine ⟨h.tokenCall hmt.call fun c' hd => ?_, hmt.call.clock,
    fun k hk => h.pda_kept hmt.call hk, hmt.kept _ _ hne.symm⟩
  obtain rfl := Option.some.inj (hd.config.symm.trans hc)
  rw [hmt.supply, supplyOf_of_mintAt hmi]
  omega

theorem principal_returned (h : WellFormed rt w) (hc : w.configOf rt = some c)
    (hn : token ≠ c.vault) (h1 : claimOnly = true ∧ w1 = w ∨ claimOnly = false ∧ sa.amount ≠ 0 ∧
    c.unstakeDelay ≤ I64.saturatingSub w.clock sa.stakedAt ∧
    rt.tokenTransfer w p c.vault token rt.configKey sa.amount = .ok w1) :
    WellFormed rt w1 ∧ w1.clock = w.clock ∧ (∀ k, rt.IsPda k → w1.slot k = w.slot k) ∧
    w1.balanceOf rt c.mint c.vault +
      (if claimOnly then 0 else sa.amount.toNat) = vaultBalance rt w := by
  rw [vaultBalance_of_config hc]
  rcases h1 with ⟨rfl, rfl⟩ | ⟨rfl, -, -, h1⟩
  · exact ⟨h, rfl, fun _ _ => rfl, rfl⟩
  · have ht := transferred h1
    obtain ⟨v, hv, hvm, -⟩ := (h.deployed hc).vault
    have hd := ht.debit v hn.symm hv
    rw [hvm] at hd
    exact ⟨h.transferred ht, ht.call.clock, fun k hk => h.pda_kept ht.call hk, hd⟩

theorem position_written (hx : ¬ rt.IsPda x) (hc : w.configOf rt = some c)
    (hw : WellFormed rt w2) (hpd : ∀ k, rt.IsPda k → w2.slot k = w.slot k)
    (hsl : ∀ j, j ≠ rt.stakeKey x → w'.slot j = w2.slot j)
    (hse : w'.slot (rt.stakeKey x) = (rt.programId, .stake sa)) (ho : sa.owner = x) :
    WellFormed rt w' ∧ w'.configOf rt = some c ∧
    vaultBalance rt w' = w2.balanceOf rt c.mint c.vault ∧
    ∀ y, y ≠ x → w'.slot (rt.stakeKey y) = w.slot (rt.stakeKey y) := by
  have hc2 : w2.configOf rt = some c := (configOf_congr (hpd _ isPda_configKey)).trans hc
  have hc' : w'.configOf rt = some c :=
    (configOf_congr (hsl _ (stakeKey_ne_configKey x).symm)).trans hc2
  have hva : c.vault ≠ rt.stakeKey x := by
    obtain ⟨v, hv, -⟩ := (hw.deployed hc2).vault
    intro he
    rw [he, (hw.blank (isPda_stakeKey x)).1] at hv
    contradiction
  refine ⟨hw.writeStake hc2 hx hsl hse ho, hc', ?_, fun y hy => ?_⟩
  · rw [vaultBalance_of_config hc', balanceOf_congr (hsl _ hva)]
  · rw [hsl _ (stakeKey_ne hy), hpd _ (isPda_stakeKey y)]

variable [Inhabited Pubkey]

theorem WellFormed.stakeOf_of_decoded (h : WellFormed rt w)
    (ho : (w.slot (rt.stakeKey x)).1 = rt.programId)
    (hd : decodeStake (w.slot (rt.stakeKey x)).2 = .ok sa) :
    w.stakeOf rt x = some sa := by
  rcases h.stake x with hu | ⟨sa', hsa, -⟩
  · exact absurd ho hu.1
  · have hsl := stakeOf_eq_some.mp hsa
    rw [hsl, decodeStake_ok] at hd
    rcases hd with hd | ⟨hd, -⟩
    · rw [hsa, AccountData.stake.inj hd]
    · contradiction

theorem Position.spec (h : WellFormed rt w) (hp : Position rt w p x w' sa) :
    sa.owner = x ∧ sa.amount.toNat = principal rt w x ∧ (w.stakeOf rt x = some sa ∨
      w.stakeOf rt x = none ∧ sa.amount = 0 ∧ sa.pendingRewards = 0) ∧
    (w'.slot (rt.stakeKey x)).1 = rt.programId ∧ w'.clock = w.clock ∧
    ∀ j, j ≠ rt.stakeKey x → w'.slot j = w.slot j := by
  cases hp with
  | loaded how hd hown =>
    have hsa := h.stakeOf_of_decoded how hd
    exact ⟨hown, (principal_of_stakeOf hsa).symm, .inl hsa, how, rfl, fun _ _ => rfl⟩
  | created hne =>
    obtain ⟨-, -, -, -, -, hsy, rfl⟩ := rt.createAccount_ok hne
    have hn : w.stakeOf rt x = none := if_neg fun ho => rt.system_ne_program (hsy.symm.trans ho)
    refine ⟨rfl, ?_, .inr ⟨hn, rfl, rfl⟩, ?_, rfl, fun j hj => slot_allocate_ne _ _ hj⟩
    · simp [principal, hn]
    · rw [slot_allocate_self]

/-- What a deposit leaves behind: the position of `x` with the accrual folded in and the
net amount added, and everything of the deployment but the vault as it was. -/
structure Deposited (rt : Runtime Pubkey) (w w' : World Pubkey) (x : Pubkey) (c : Config Pubkey)
    (net : UInt64) (sa sa' : StakeAccount Pubkey) : Prop where
  wellFormed : WellFormed rt w'
  clock : w'.clock = w.clock
  config : w'.configOf rt.toAddresses = some c
  found : w.stakeOf rt.toAddresses x = some sa ∨
    w.stakeOf rt.toAddresses x = none ∧ sa.amount = 0 ∧ sa.pendingRewards = 0
  position : w'.stakeOf rt.toAddresses x = some sa'
  amount : sa'.amount.toNat = principal rt.toAddresses w x + net.toNat
  settled : ∃ total,
    sa' = { (sa.settle c.rewardRateBps w.clock).restartCooldown net w.clock with amount := total }
  vault : vaultBalance rt.toAddresses w + net.toNat ≤ vaultBalance rt.toAddresses w'
  others : ∀ y, y ≠ x → w'.slot (rt.stakeKey y) = w.slot (rt.stakeKey y)

theorem DepositOk.deposited (h : WellFormed rt w) (had : Admitted rt accounts)
    (hd : DepositOk rt w w' accounts amount x token c net sa) :
    ∃ sa', Deposited rt w w' x c net sa sa' := by
  have hx : ¬ rt.IsPda x := had x hd.led.signed
  obtain ⟨t, ht, -, hto⟩ := hd.source
  have hn := (h.deployed hd.config).token_ne_vault hx ht hto
  obtain ⟨w1, w2, w3, bump, total, h1, h2, hpos, htot, rfl⟩ := hd.effect
  obtain ⟨hw, hc, hpd, hv⟩ := deposit_payments h hd.config hn h1 h2
  obtain ⟨how, ha, hf, hpr, hcl, hslo⟩ := hpos.spec hw
  have hsl := hpd _ (isPda_stakeKey x)
  rw [principal_congr hsl] at ha
  rw [stakeOf_congr hsl] at hf
  rw [hc]
  generalize hs' : ({ (sa.settle c.rewardRateBps w.clock).restartCooldown net w.clock with
    amount := total } : StakeAccount Pubkey) = sa'
  have ho' : sa'.owner = x := by
    rw [← hs']
    simpa using how
  have ht' : sa'.amount.toNat = principal rt w x + net.toNat := by
    rw [← hs', ← ha]
    exact htot
  have hse : (w3.setData (rt.stakeKey x) (.stake sa')).slot (rt.stakeKey x) =
      (rt.programId, .stake sa') := by
    rw [slot_setData_self, hpr]
  obtain ⟨hwf, hc', hba, ho⟩ := position_written hx hd.config hw hpd
    (fun j hj => (slot_setData_ne _ hj).trans (hslo j hj)) hse ho'
  exact ⟨sa', hwf, hcl.trans hc, hc', hf, stakeOf_eq_some.mpr hse, ht',
    ⟨total, hs'.symm⟩, hba ▸ hv, ho⟩

theorem stake_outcome (h : WellFormed rt w) (ha : Admitted rt accounts)
    (hd : DepositOk rt w w' accounts amount x token c net sa) :
    Outcome rt w w' accounts (.stake amount) := by
  obtain ⟨sa', hde⟩ := hd.deposited h ha
  refine ⟨hde.wellFormed, hde.clock, ?_, ?_, fun y hy => ?_⟩
  · rw [hde.config, hd.config]
    exact .keep rfl
  · have hn : amount.toNat - (computeFee amount c.feeBps).toNat = net.toNat := by
      have := hd.split
      omega
    simp only [custodyEvent, hd.led.leader, hd.config, hn]
    exact pool_deposit hde.others hde.position hde.amount hde.vault
  · exact hde.others y fun hyx => hy (hyx ▸ hd.led.signed)

/-- What a withdrawal leaves behind: the position of `x` paid out, and `n` more tokens. -/
structure Withdrawn (rt : Runtime Pubkey) (w w' : World Pubkey) (x : Pubkey) (c : Config Pubkey)
    (claimOnly : Bool) (n : UInt64) (sa : StakeAccount Pubkey) : Prop where
  wellFormed : WellFormed rt w'
  clock : w'.clock = w.clock
  config : w'.configOf rt.toAddresses = some c
  found : w.stakeOf rt.toAddresses x = some sa
  position : w'.stakeOf rt.toAddresses x = some (sa.paidOut claimOnly w.clock)
  supply : w'.supplyOf rt.toAddresses c.mint = w.supplyOf rt.toAddresses c.mint + n.toNat
  vault : vaultBalance rt.toAddresses w' + (if claimOnly then 0 else sa.amount.toNat) =
    vaultBalance rt.toAddresses w
  others : ∀ y, y ≠ x → w'.slot (rt.stakeKey y) = w.slot (rt.stakeKey y)

section

variable (h : WellFormed rt w) (ha : Admitted rt accounts)
  (hd : WithdrawalOk rt w w' accounts claimOnly x token c sa n)

include h ha hd

theorem WithdrawalOk.withdrawn : Withdrawn rt w w' x c claimOnly n sa := by
  have hx : ¬ rt.IsPda x := ha x hd.led.signed
  obtain ⟨t, ht, -, hto⟩ := hd.target
  have hne := (h.deployed hd.config).token_ne_vault hx ht hto
  have hsa := h.stakeOf_of_decoded hd.owned hd.decoded
  obtain ⟨w1, w2, h1, hn, h2, rfl⟩ := hd.effect
  obtain ⟨hw1, hc, hpd, hba⟩ := principal_returned h hd.config hne h1
  have hc1 : w1.configOf rt = some c := (configOf_congr (hpd _ isPda_configKey)).trans hd.config
  obtain ⟨hw, hcl, hpda2, hbal2⟩ := hw1.mintedReward hc1 hn h2 hne
  have hpda : ∀ k, rt.IsPda k → w2.slot k = w.slot k := fun k hk => by
    rw [hpda2 k hk, hpd k hk]
  have hse : (w2.setData (rt.stakeKey x) (.stake (sa.paidOut claimOnly w.clock))).slot
      (rt.stakeKey x) = (rt.programId, .stake (sa.paidOut claimOnly w.clock)) := by
    rw [slot_setData_self, hpda _ (isPda_stakeKey x), hd.owned]
  obtain ⟨hwf, hc', hbal, ho⟩ := position_written hx hd.config hw hpda
    (fun j hj => slot_setData_ne _ hj) hse ((sa.paidOut_owner _ _).trans hd.owner)
  rw [hbal2] at hbal
  refine ⟨hwf, hcl.trans hc, hc', hsa, stakeOf_eq_some.mpr hse, ?_, ?_, ho⟩
  · have hmi : c.mint ≠ rt.stakeKey x := by
      obtain ⟨m, hm, -⟩ := (hw.deployed ((configOf_congr
        (hpda _ isPda_configKey)).trans hd.config)).mint
      intro he
      rw [he, (hw.blank (isPda_stakeKey x)).2] at hm
      contradiction
    have hl : (w2.setData (rt.stakeKey x) (.stake (sa.paidOut claimOnly w.clock))).supplyOf
        rt c.mint = w2.supplyOf rt c.mint := by
      simp only [supplyOf, mintAt_congr (slot_setData_ne _ hmi)]
    rw [hl, ← supplyOf_returnPrincipal (c := c) h1]
    rcases h2 with ⟨rfl, rfl⟩ | ⟨-, h2⟩
    · rfl
    · exact (minted h2).supply
  · rw [hbal]
    exact hba

theorem withdrawal_outcome : Outcome rt w w' accounts (if claimOnly then .claim else .unstake) := by
  have ho := hd.withdrawn h ha
  have hv := ho.vault
  refine ⟨ho.wellFormed, ho.clock, ?_, ?_, fun y hy => ?_⟩
  · rw [ho.config, hd.config]
    cases claimOnly <;> exact .keep rfl
  · cases claimOnly with
    | true =>
      refine pool_other ?_ hv.ge
      rw [principal_eq_update ho.others ho.position, sa.paidOut_amount, if_pos rfl,
        ← principal_of_stakeOf ho.found, Function.update_eq_self]
    | false =>
      simp only [custodyEvent, hd.led.leader]
      refine pool_withdraw ho.others ho.position (sa.paidOut_amount _ _) ?_
      rw [principal_of_stakeOf ho.found]
      exact hv
  · exact ho.others y fun hyx => hy (hyx ▸ hd.led.signed)

end

/-! ## Instructions that leave all positions alone -/

omit [DecidableEq Pubkey] in
section

variable {c : Config Pubkey} (hg : Governed now accounts c ix c')

include hg

theorem governed_caps (hc : WithinCaps c.feeBps c.rewardRateBps c.timelockSecs)
    (hpending : c.pending.active = true →
    WithinCaps c.pending.feeBps c.pending.rewardRateBps c.pending.timelockSecs) :
    WithinCaps c'.feeBps c'.rewardRateBps c'.timelockSecs ∧ (c'.pending.active = true →
    WithinCaps c'.pending.feeBps c'.pending.rewardRateBps c'.pending.timelockSecs) := by
  cases hg with
  | queue hp hl hi hn => exact ⟨hc, fun _ => hn⟩
  | apply ha he hn => exact ⟨hn, fun hf => absurd hf Bool.false_ne_true⟩
  | cancel hl ha => exact ⟨hc, fun hf => absurd hf Bool.false_ne_true⟩
  | pause | unpause | transferAdmin | acceptAdmin => exact ⟨hc, hpending⟩

omit [DecidableEq Pubkey] in
theorem governed_same :
    SameDeployment c c' ∧ c'.initialized = c.initialized ∧ c'.genesisDone = c.genesisDone := by
  cases hg <;> exact ⟨⟨rfl, rfl, rfl, rfl⟩, rfl, rfl⟩

omit [DecidableEq Pubkey] in
theorem governed_event (c0 : Option (Config Pubkey)) : custodyEvent c0 accounts ix = .other := by
  cases hg <;> rfl

end

omit [Inhabited Pubkey] in
theorem config_written (h : WellFormed rt w) (hc : w.configOf rt = some c)
    (hc' : (w.setData rt.configKey (.config c')).configOf rt = some c')
    (hs : SameDeployment c c') :
    (∀ y, (w.setData rt.configKey (.config c')).slot (rt.stakeKey y) = w.slot (rt.stakeKey y)) ∧
    vaultBalance rt (w.setData rt.configKey (.config c')) = vaultBalance rt w := by
  refine ⟨fun y => slot_setData_ne _ (stakeKey_ne_configKey y), ?_⟩
  have hva : c.vault ≠ rt.configKey := by
    obtain ⟨v, hv, -⟩ := (h.deployed hc).vault
    intro he
    rw [he, (h.blank isPda_configKey).1] at hv
    contradiction
  rw [vaultBalance_of_config hc', vaultBalance_of_config hc, hs.mint, hs.vault,
    balanceOf_congr (slot_setData_ne _ hva)]

theorem governance_outcome (h : WellFormed rt w) (hg : GovernanceOk rt w w' accounts ix) :
    Outcome rt w w' accounts ix := by
  obtain ⟨c, c', hc, hgo, rfl⟩ := hg
  have hd := h.deployed hc
  obtain ⟨hs, hi, -⟩ := governed_same hgo
  obtain ⟨hca, hpending⟩ := governed_caps hgo hd.caps hd.pendingCaps
  obtain ⟨hw, hc'⟩ := h.writeConfig hc rfl (hi.trans (configOf_eq_some.mp hc).2) hs hca hpending
  obtain ⟨hsl, hv⟩ := config_written h hc hc' hs
  refine ⟨hw, rfl, ?_, ?_, fun y _ => hsl y⟩
  · rw [hc, hc']
    exact .govern hgo
  · rw [governed_event hgo]
    exact pool_other (funext fun y => principal_congr (hsl y)) hv.ge

theorem genesis_outcome {recipient : Pubkey} {m : Mint Pubkey} (h : WellFormed rt w)
    (hg : GenesisOk rt w w' accounts amount recipient c m) :
    Outcome rt w w' accounts (.genesisMint amount) := by
  obtain ⟨w1, hm, rfl⟩ := hg.effect
  have hmt := minted hm
  have hde := h.deployed hg.config
  have hw : WellFormed rt w1 := by
    refine h.tokenCall hmt.call fun c' hd => ?_
    obtain rfl := Option.some.inj (hd.config.symm.trans hg.config)
    rw [hmt.supply, supplyOf_of_mintAt hg.mint]
    exact (fitsUnderCap_iff _ _ _).mp hg.fits
  have hpd : ∀ k, rt.IsPda k → w1.slot k = w.slot k := fun k hk => h.pda_kept hmt.call hk
  have hc : w1.configOf rt = some c := (configOf_congr (hpd _ isPda_configKey)).trans hg.config
  have hs : SameDeployment c { c with genesisDone := true } := ⟨rfl, rfl, rfl, rfl⟩
  have hi : ({ c with genesisDone := true } : Config Pubkey).initialized = true :=
    (configOf_eq_some.mp hg.config).2
  obtain ⟨hwf, hc'⟩ := hw.writeConfig hc rfl hi hs hde.caps hde.pendingCaps
  obtain ⟨hsl, hv⟩ := config_written hw hc hc' hs
  have hs' : ∀ y, (w1.setData rt.configKey (.config { c with genesisDone := true })).slot
      (rt.stakeKey y) = w.slot (rt.stakeKey y) := fun y => by
    rw [hsl, hpd _ (isPda_stakeKey y)]
  refine ⟨hwf, hmt.call.clock, ?_, ?_, fun y _ => hs' y⟩
  · rw [hg.config, hc']
    exact .genesis hg.led hg.latch
  · refine pool_other (funext fun y => principal_congr (hs' y)) ?_
    rw [hv, vaultBalance_of_config hc, vaultBalance_of_config hg.config]
    exact hmt.gain _ _

theorem metadata_outcome {name symbol uri : String} (h : WellFormed rt w)
    (hm : MetadataOk rt w w' accounts name symbol uri c) :
    Outcome rt w w' accounts (.createTokenMetadata name symbol uri) := by
  obtain ⟨-, -, hem, lamports, bytes, rfl⟩ := rt.createMetadata_ok hm.effect
  have hk : ¬ rt.IsPda (rt.metadataPda c.mint).1 := by
    rintro (hk | ⟨x, hk⟩)
    · exact rt.metadataPda_ne_configPda _ hk
    · exact rt.metadataPda_ne_stakePda _ x hk
  have hn : ∀ j, j ≠ (rt.metadataPda c.mint).1 →
      (w.install c.admin (rt.metadataPda c.mint).1 lamports rt.metadataProgramId
        (.other bytes)).slot j = w.slot j := fun j hj => slot_install_ne _ _ hj
  have hb : w.Blank rt (rt.metadataPda c.mint).1 := blank_of_data (.inl hem)
  have hpd : ∀ k, rt.IsPda k → (w.install c.admin (rt.metadataPda c.mint).1 lamports
      rt.metadataProgramId (.other bytes)).slot k = w.slot k := fun k hkp =>
    hn k fun he => hk (he ▸ hkp)
  have hw := h.elsewhere hk hn hb (blank_of_owner (by
    rw [slot_install_self]
    exact rt.metadata_ne_token))
  have hc' := (configOf_congr (hpd _ isPda_configKey)).trans hm.config
  refine ⟨hw, rfl, ?_, ?_, fun y _ => hpd _ (isPda_stakeKey y)⟩
  · rw [hc', hm.config]
    exact .keep rfl
  · refine pool_other (funext fun y => principal_congr (hpd _ (isPda_stakeKey y))) ?_
    rw [vaultBalance_of_config hc', vaultBalance_of_config hm.config]
    refine (balanceOf_congr (hn _ ?_)).ge
    obtain ⟨v, hv, -⟩ := (h.deployed hm.config).vault
    intro he
    rw [he, hb.1] at hv
    contradiction

theorem initialize_outcome {payer mint wallet : Pubkey} {fee : UInt16} {rate minStake : UInt64}
    {delay : Int64} {decimals : UInt8} {timelock : Int64} {maxSupply : UInt64}
    (h : WellFormed rt w) (ha : Admitted rt accounts)
    (hi : InitializeOk rt w w' accounts payer mint wallet
    (initialConfig rt payer mint wallet fee rate minStake delay decimals timelock maxSupply)) :
    Outcome rt w w' accounts
    (.initializeConfig fee rate minStake delay decimals timelock maxSupply) := by
  obtain ⟨hw, hn, hco, hc, hsl⟩ := h.deploy ha hi rfl rfl rfl rfl rfl
  refine ⟨hw, hc, ?_, ?_, fun y _ => hsl y⟩
  · rw [hn, hco]
    exact .deploy rfl hi.led
  · refine pool_other (funext fun y => principal_congr (hsl y)) ?_
    simp [vaultBalance, hn]

theorem instruction_outcome (h : WellFormed rt w) (ha : Admitted rt accounts)
    (ho : processInstruction rt w accounts ix = .ok w') : Outcome rt w w' accounts ix := by
  cases ix with
  | initializeConfig =>
    obtain ⟨payer, mint, wallet, hi⟩ := processInitialize_ok ho
    exact initialize_outcome h ha hi
  | stake amount =>
    obtain ⟨x, token, c, net, sa, hd⟩ := processStake_ok ho
    exact stake_outcome h ha hd
  | unstake | claim =>
    obtain ⟨x, token, c, sa, n, hd⟩ := processUnstake_ok ho
    exact withdrawal_outcome h ha hd
  | updateParams => exact governance_outcome h (processQueueUpdate_ok ho)
  | applyParams => exact governance_outcome h (processApplyUpdate_ok ho)
  | cancelParams => exact governance_outcome h (processCancelUpdate_ok ho)
  | pause | unpause => exact governance_outcome h (processSetPaused_ok ho)
  | transferAdmin newAdmin => exact governance_outcome h (processTransferAdmin_ok ho)
  | acceptAdmin => exact governance_outcome h (processAcceptAdmin_ok ho)
  | genesisMint amount =>
    obtain ⟨recipient, c, m, hg⟩ := processGenesisMint_ok ho
    exact genesis_outcome h hg
  | createTokenMetadata name symbol uri =>
    obtain ⟨c, hm⟩ := processCreateTokenMetadata_ok ho
    exact metadata_outcome h hm

end

/-! ## Runs -/

section

variable [Inhabited Pubkey] {rt : Runtime Pubkey} {w w' : World Pubkey} {a : Action Pubkey}

theorem wellFormed_step (h : WellFormed rt w) (hs : Step rt w a w') : WellFormed rt w' := by
  cases hs with
  | execute ha ho => exact (instruction_outcome h ha ho).wellFormed
  | reject => exact h
  | environment he => exact h.environment he

variable {tr : List (Entry (World Pubkey) (Action Pubkey))}

theorem wellFormed_run (h : WellFormed rt w) (hr : Run (Step rt) w tr w') : WellFormed rt w' :=
  hr.invariant (fun _ _ _ hw hs => wellFormed_step hw hs) h

def entryEvent (ids : Addresses Pubkey) (e : Entry (World Pubkey) (Action Pubkey)) :
    Custody.Event Pubkey :=
  match e.label with
  | .execute accounts ix => custodyEvent (e.pre.configOf ids) accounts ix
  | _ => .other

omit [Inhabited Pubkey] in
theorem vaultBalance_environment (h : WellFormed rt w) (he : Environment rt w w') :
    vaultBalance rt w ≤ vaultBalance rt w' := by
  have hsl : w'.slot rt.configKey = w.slot rt.configKey := he.pda_kept isPda_configKey
  cases hc : w.configOf rt with
  | none => simp [vaultBalance, hc]
  | some c =>
    obtain ⟨t, ht, hm, ho⟩ := (h.deployed hc).vault
    obtain ⟨t', ht', hm', -, hle⟩ := he.held _ t ht ho
    rw [vaultBalance_of_config hc, vaultBalance_of_config ((configOf_congr hsl).trans hc),
      ← hm, balanceOf_of_tokenAt ht, ← hm', balanceOf_of_tokenAt ht']
    exact hle

theorem pool_step (h : WellFormed rt w) (hs : Step rt w a w') :
    Custody.Step (poolOf rt w) (entryEvent rt ⟨w, a, w'⟩) (poolOf rt w') := by
  cases hs with
  | execute ha ho => exact (instruction_outcome h ha ho).pool
  | reject => exact pool_other rfl le_rfl
  | environment he =>
    refine pool_other (funext fun y => ?_) (vaultBalance_environment h he)
    exact principal_congr (he.pda_kept (isPda_stakeKey y))

theorem pool_run (h : WellFormed rt w) (hr : Run (Step rt) w tr w') : Run Custody.Step (poolOf rt w)
    (tr.map fun e => ⟨poolOf rt e.pre, entryEvent rt e, poolOf rt e.post⟩) (poolOf rt w') :=
  hr.simulate _ _ (fun _ _ _ => wellFormed_step) (fun _ _ _ => pool_step) h

abbrev ReachableWorld (rt : Runtime Pubkey) (w : World Pubkey) : Prop :=
  Reachable (Fresh rt.toAddresses) (Step rt) w

theorem ReachableWorld.wellFormed (h : ReachableWorld rt w) : WellFormed rt w := by
  obtain ⟨w0, tr, hf, hr⟩ := h
  exact wellFormed_run hf.wellFormed hr

end

end SniperBot.Staking
