import SniperBot.Lib.Accrual
import SniperBot.Staking.Withdrawal

/-!
# Rewards over whole runs

A position carries the time it was last settled, and what has accrued since is worked out at the
rate in force when somebody asks. A deposit, a withdrawal and a claim settle the caller's
position. An applied update settles nobody, so a new rate reaches back.
-/

namespace SniperBot.Staking

open Lib Lib.MachineInt Lib.Runs Accrual.Account Accrual World StakeAccount U64 I64

variable {Pubkey : Type} [DecidableEq Pubkey]

def rewardUnit : Nat := bps * secsPerYear

def rateOf (ids : Addresses Pubkey) (w : World Pubkey) : Nat :=
  match w.configOf ids with
  | some c => c.rewardRateBps.toNat
  | none => 0

def accruedOf (ids : Addresses Pubkey) (w : World Pubkey) (x : Pubkey) : Nat :=
  match w.stakeOf ids x, w.configOf ids with
  | some sa, some c => (sa.accruedRewards c.rewardRateBps w.clock).toNat
  | _, _ => 0

/-- A step that settles the position of `x`: a deposit, withdrawal or claim of theirs. -/
def settlesFor (x : Pubkey) : Action Pubkey → Bool
  | .execute accounts (.stake _) | .execute accounts .unstake | .execute accounts .claim =>
    leader accounts = some x
  | _ => false

section

variable (ids : Addresses Pubkey)

variable (x : Pubkey) (e : Entry (World Pubkey) (Action Pubkey))

def rewardMinted : Nat :=
  match e.label, e.pre.configOf ids with
  | .execute accounts .unstake, some c | .execute accounts .claim, some c =>
    if leader accounts = some x then
      e.post.supplyOf ids c.mint - e.pre.supplyOf ids c.mint
    else 0
  | _, _ => 0

/-- The reward of one step by the rate and the principal in force during it. -/
def rewardDue : ℚ :=
  principal ids e.pre x * rateOf ids e.pre * (e.post.clock.toInt - e.pre.clock.toInt) /
    (10000 * secsPerYear)

/-- What `x` has accrued fits under the supply cap, and the time since their last
settlement in a machine word. -/
structure Collectable (w : World Pubkey) (x : Pubkey) : Prop where
  uncapped : ∀ c, w.configOf ids = some c →
    w.supplyOf ids c.mint + accruedOf ids w x ≤ c.maxSupply.toNat
  spanned : ∀ sa, w.stakeOf ids x = some sa → w.clock.toInt - sa.rewardFrom.toInt ≤ maxInt

instance  (w : World Pubkey) (x : Pubkey) : Decidable (Collectable ids w x) :=
  decidable_of_iff ((∀ c, w.configOf ids = some c →
        w.supplyOf ids c.mint + accruedOf ids w x ≤ c.maxSupply.toNat) ∧
      ∀ sa, w.stakeOf ids x = some sa → w.clock.toInt - sa.rewardFrom.toInt ≤ maxInt)
    ⟨fun h => ⟨h.1, h.2⟩, fun h => ⟨h.1, h.2⟩⟩

/-- An update that changes the rate finds nothing of `x` unsettled. -/
def RateSettled : Prop :=
  match e.label with
  | .execute _ .applyParams =>
    ∀ c, e.pre.configOf ids = some c → c.pending.rewardRateBps ≠ c.rewardRateBps →
      ∀ sa, e.pre.stakeOf ids x = some sa → sa.amount = 0 ∨ sa.rewardFrom = e.pre.clock
  | _ => True

instance  : Decidable (RateSettled ids x e) := by
  unfold RateSettled
  split <;> infer_instance

end

/-! ## The formula in exact terms -/

theorem toNat_computeReward {amount rate : UInt64} {elapsed : Int64}
    (h : (computeReward amount rate elapsed).toNat < maxNat) :
    (computeReward amount rate elapsed).toNat =
    amount.toNat * rate.toNat * elapsed.toInt.toNat / rewardUnit := by
  unfold computeReward at h ⊢
  split
  · next hz =>
    rcases hz with rfl | rfl | hle
    · simp
    · simp
    · have hn : elapsed.toInt.toNat = 0 := Int.toNat_eq_zero.mpr (Int64.le_iff_toInt_le.mp hle)
      rw [hn, Nat.mul_zero]
      rfl
  · next hpos =>
    rw [if_neg hpos] at h
    cases hm : (U128.checkedMul amount.toNat rate.toNat).bind
        (U128.checkedMul · elapsed.toInt.toNat) with
    | none =>
      rw [hm] at h
      simp only [toNat_clamp, Nat.min_self, lt_irrefl] at h
    | some numerator =>
      rw [hm] at h
      have hnu : numerator = amount.toNat * rate.toNat * elapsed.toInt.toNat := by
        obtain ⟨product, hpr, hm⟩ := Option.bind_eq_some_iff.mp hm
        unfold U128.checkedMul at hpr hm
        split at hpr
        · obtain rfl := Option.some.inj hpr
          split at hm
          · exact (Option.some.inj hm).symm
          · cases hm
        · cases hpr
      simp only [toNat_clamp] at h ⊢
      rw [← hnu]
      show min (numerator / rewardUnit) maxNat = numerator / rewardUnit
      have h : min (numerator / rewardUnit) maxNat < maxNat := h
      omega

theorem computeReward_zero (rate : UInt64) (elapsed : Int64) : computeReward 0 rate elapsed = 0 :=
  if_pos (.inl rfl)

theorem toNat_elapsed {now since : Int64} (h : now.toInt - since.toInt ≤ maxInt) :
    (saturatingSub now since).toInt.toNat = (now.toInt - since.toInt).toNat := by
  have hm : minInt ≤ 0 := by decide
  rw [toInt_saturatingSub]
  omega

/-! ## Positions as accounts that bear interest -/

def accountOf (ids : Addresses Pubkey) (x : Pubkey) (w : World Pubkey) : Accrual.Account where
  principal := principal ids w x
  rate := rateOf ids w
  since := match w.stakeOf ids x with
    | some sa => sa.rewardFrom.toInt
    | none => 0
  clock := w.clock.toInt
  pending := match w.stakeOf ids x with
    | some sa => sa.pendingRewards.toNat
    | none => 0

def accrualEvent (ids : Addresses Pubkey) (x : Pubkey)
    (e : Entry (World Pubkey) (Action Pubkey)) : Accrual.Event :=
  if settlesFor x e.label then .settle (rewardMinted ids x e)
  else
    match e.label with
    | .execute _ .applyParams => .retune
    | .execute _ (.initializeConfig ..) => .retune
    | _ => .tick

section

variable {ids : Addresses Pubkey} {rt : Runtime Pubkey} {w w' : World Pubkey} {x : Pubkey}
  {c : Config Pubkey} {sa : StakeAccount Pubkey}

theorem rateOf_of_config (h : w.configOf ids = some c) : rateOf ids w = c.rewardRateBps.toNat := by
  simp [rateOf, h]

theorem accountOf_of_position (hc : w.configOf ids = some c) (hsa : w.stakeOf ids x = some sa) :
    accountOf ids x w = ⟨sa.amount.toNat, c.rewardRateBps.toNat, sa.rewardFrom.toInt, w.clock.toInt,
      sa.pendingRewards.toNat⟩ := by
  simp only [accountOf, principal_of_stakeOf hsa, rateOf_of_config hc, hsa]

theorem accountOf_of_none (hc : w.configOf ids = some c) (hsa : w.stakeOf ids x = none) :
    accountOf ids x w = ⟨0, c.rewardRateBps.toNat, 0, w.clock.toInt, 0⟩ := by
  simp only [accountOf, principal, rateOf_of_config hc, hsa]

theorem accruedOf_of_position (hc : w.configOf ids = some c) (hsa : w.stakeOf ids x = some sa) :
    accruedOf ids w x = (sa.accruedRewards c.rewardRateBps w.clock).toNat := by
  simp [accruedOf, hc, hsa]

theorem accountOf_congr (h : w'.slot (ids.stakeKey x) = w.slot (ids.stakeKey x)) :
    accountOf ids x w' =
    { accountOf ids x w with rate := rateOf ids w', clock := w'.clock.toInt } := by
  simp only [accountOf, principal_congr h, stakeOf_congr h]

variable [Inhabited Pubkey]

theorem ReachableWorld.amount_le_supply (h : ReachableWorld rt w)
    (hc : w.configOf rt = some c) (hsa : w.stakeOf rt x = some sa) :
    sa.amount.toNat ≤ w.supplyOf rt c.mint :=
  (h.amount_le_vault hc hsa).trans (Deployed.balance_le_supply h.wellFormed.sound c.vault)

theorem reward_exact (h : ReachableWorld rt w) (hx : Collectable rt w x)
    (hc : w.configOf rt = some c) (hsa : w.stakeOf rt x = some sa) :
    (computeReward sa.amount c.rewardRateBps (saturatingSub w.clock sa.rewardFrom)).toNat =
      (accountOf rt x w).live / rewardUnit ∧
    (computeReward sa.amount c.rewardRateBps (saturatingSub w.clock sa.rewardFrom)).toNat +
      sa.pendingRewards.toNat ≤ maxNat := by
  have hl : (accountOf rt x w).live = sa.amount.toNat * c.rewardRateBps.toNat *
      (saturatingSub w.clock sa.rewardFrom).toInt.toNat := by
    rw [accountOf_of_position hc hsa, toNat_elapsed (hx.spanned sa hsa)]
    rfl
  rw [hl]
  by_cases ha : sa.amount = 0
  · have hpending := toNat_le_max sa.pendingRewards
    rw [ha, computeReward_zero]
    constructor
    · simp
    · simpa using hpending
  · -- the principal is part of the supply, so the cap leaves room below the last word
    have hpos : 0 < sa.amount.toNat := by
      rw [Nat.pos_iff_ne_zero]
      exact fun hz => ha (UInt64.toNat_inj.mp hz)
    have hsu := h.amount_le_supply hc hsa
    have hca := hx.uncapped c hc
    rw [accruedOf_of_position hc hsa, accruedRewards, toNat_saturatingAdd] at hca
    have hm := toNat_le_max c.maxSupply
    constructor
    · exact toNat_computeReward (by omega)
    · omega

theorem accruedOf_exact (h : ReachableWorld rt w) (hx : Collectable rt w x) :
    accruedOf rt w x = (accountOf rt x w).accrued rewardUnit := by
  cases hsa : w.stakeOf rt x with
  | none => simp [accruedOf, accountOf, accrued, live, principal, hsa]
  | some sa =>
    obtain ⟨c, hc⟩ : ∃ c, w.configOf rt = some c := by
      cases hc : w.configOf rt with
      | none =>
        rw [h.wellFormed.undeployed hc x] at hsa
        contradiction
      | some c => exact ⟨c, rfl⟩
    obtain ⟨hl, hm⟩ := reward_exact h hx hc hsa
    rw [accruedOf_of_position hc hsa, accruedRewards, toNat_saturatingAdd,
      Nat.min_eq_left hm, accrued, ← hl, accountOf_of_position hc hsa,
      Nat.add_comm]

end

/-! ## Steps -/

section

variable [Inhabited Pubkey] {rt : Runtime Pubkey} {w w' : World Pubkey} {x : Pubkey}
  {accounts : List (AccountMeta Pubkey)} {a : Action Pubkey} {ix : StakingInstruction Pubkey} {sa : StakeAccount Pubkey} {c : Config Pubkey}

section

variable (h : WellFormed rt w) (ha : Admitted rt accounts)
  (hok : processInstruction rt w accounts ix = .ok w')

include h ha hok

theorem position_unsettled (hx : settlesFor x (.execute accounts ix) = false) :
    w'.slot (rt.stakeKey x) = w.slot (rt.stakeKey x) := by
  have hgo : GovernanceOk rt w w' accounts ix → w'.slot (rt.stakeKey x) = w.slot (rt.stakeKey x) := by
    rintro ⟨c, c', -, -, rfl⟩
    exact slot_setData_ne _ (stakeKey_ne_configKey x)
  have ho : ∀ {y}, LedBy accounts y → decide (leader accounts = some x) = false → x ≠ y := by
    rintro y hl hx rfl
    rw [hl.leader] at hx
    simp at hx
  cases ix with
  | initializeConfig =>
    obtain ⟨payer, mint, wallet, hi⟩ := processInitialize_ok hok
    obtain ⟨-, -, -, -, hsl⟩ := h.deploy ha hi rfl rfl rfl rfl rfl
    exact hsl x
  | stake amount =>
    obtain ⟨y, token, c, net, sa, hd⟩ := processStake_ok hok
    obtain ⟨sa', hde⟩ := hd.deposited h ha
    exact hde.others x (ho hd.led hx)
  | unstake | claim =>
    obtain ⟨y, token, c, sa, n, hd⟩ := processUnstake_ok hok
    exact (hd.withdrawn h ha).others x (ho hd.led hx)
  | updateParams => exact hgo (processQueueUpdate_ok hok)
  | applyParams => exact hgo (processApplyUpdate_ok hok)
  | cancelParams => exact hgo (processCancelUpdate_ok hok)
  | pause | unpause => exact hgo (processSetPaused_ok hok)
  | transferAdmin newAdmin => exact hgo (processTransferAdmin_ok hok)
  | acceptAdmin => exact hgo (processAcceptAdmin_ok hok)
  | genesisMint amount =>
    obtain ⟨recipient, c, m, hg⟩ := processGenesisMint_ok hok
    obtain ⟨w1, hmi, rfl⟩ := hg.effect
    rw [slot_setData_ne _ (stakeKey_ne_configKey x)]
    exact h.pda_kept (minted hmi).call (isPda_stakeKey x)
  | createTokenMetadata name symbol uri =>
    obtain ⟨c, hm⟩ := processCreateTokenMetadata_ok hok
    obtain ⟨-, -, -, lamports, bytes, rfl⟩ := rt.createMetadata_ok hm.effect
    exact slot_install_ne _ _ (rt.metadataPda_ne_stakePda _ x).symm

theorem rateOf_step : rateOf rt w' = rateOf rt w ∨ (∃ fee rate minStake delay decimals timelock cap,
      ix = .initializeConfig fee rate minStake delay decimals timelock cap ∧
      w.stakeOf rt x = none) ∨
    ∃ c, ix = .applyParams ∧ w.configOf rt = some c ∧
      rateOf rt w' = c.pending.rewardRateBps.toNat := by
  have hc := (instruction_outcome h ha hok).config
  generalize ho : w.configOf rt = o at hc
  generalize ho' : w'.configOf rt = o' at hc
  have hr : ∀ {c}, o = some c → rateOf rt w = c.rewardRateBps.toNat := by
    rintro c rfl
    exact rateOf_of_config ho
  have hr' : ∀ {c}, o' = some c → rateOf rt w' = c.rewardRateBps.toNat := by
    rintro c rfl
    exact rateOf_of_config ho'
  cases hc with
  | deploy => exact .inr (.inl ⟨_, _, _, _, _, _, _, rfl, h.undeployed ho x⟩)
  | @govern c c' _ hg =>
    cases hg with
    | apply => exact .inr (.inr ⟨c, rfl, rfl, hr' rfl⟩)
    | _ => exact .inl ((hr' rfl).trans (hr rfl).symm)
  | genesis | keep => exact .inl ((hr' rfl).trans (hr rfl).symm)

end

theorem accrual_deposit {token : Pubkey} {net : UInt64} {amount : UInt64} (h : ReachableWorld rt w)
    (hc : Collectable rt w x) (had : Admitted rt accounts)
    (hd : DepositOk rt w w' accounts amount x token c net sa) :
    Accrual.Step rewardUnit (accountOf rt x w) (.settle 0) (accountOf rt x w') := by
  obtain ⟨sa', hde⟩ := hd.deposited h.wellFormed had
  obtain ⟨total, hse⟩ := hde.settled
  have hsi : sa'.rewardFrom = w.clock := by
    rw [hse]
    unfold restartCooldown
    split <;> rfl
  have hpending : sa'.pendingRewards = saturatingAdd sa.pendingRewards
      (computeReward sa.amount c.rewardRateBps (saturatingSub w.clock sa.rewardFrom)) := by
    rw [hse]
    unfold restartCooldown
    split <;> rfl
  have hpo : accountOf rt x w' =
      (accountOf rt x w).settled sa'.amount.toNat sa'.pendingRewards.toNat := by
    rw [accountOf_of_position hde.config hde.position, hde.clock, hsi]
    simp only [settled, accountOf, rateOf_of_config hd.config]
  rw [hpo]
  refine .settle ?_
  rw [Nat.add_zero, hpending, toNat_saturatingAdd]
  rcases hde.found with hf | ⟨hn, ha, hz⟩
  · obtain ⟨hl, hm⟩ := reward_exact h hc hd.config hf
    rw [Nat.min_eq_left (by omega), hl, accrued, accountOf_of_position hd.config hf]
  · rw [ha, hz, computeReward_zero, accountOf_of_none hd.config hn]
    simp [accrued, live]

theorem accrual_withdrawal {claimOnly : Bool} {token : Pubkey} {n : UInt64} (h : ReachableWorld rt w)
    (hc : Collectable rt w x) (ha : Admitted rt accounts)
    (hd : WithdrawalOk rt w w' accounts claimOnly x token c sa n)
    (hn : n.toNat = min (sa.accruedRewards c.rewardRateBps w.clock).toNat
    (c.maxSupply.toNat - w.supplyOf rt c.mint)) :
    Accrual.Step rewardUnit (accountOf rt x w)
    (.settle (w'.supplyOf rt c.mint - w.supplyOf rt c.mint))
    (accountOf rt x w') := by
  have ho := hd.withdrawn h.wellFormed ha
  have hpa : w'.supplyOf rt c.mint - w.supplyOf rt c.mint =
      (accountOf rt x w).accrued rewardUnit := by
    have hca := hc.uncapped c hd.config
    rw [← accruedOf_exact h hc, accruedOf_of_position hd.config ho.found]
    rw [accruedOf_of_position hd.config ho.found] at hca
    have hsu := ho.supply
    omega
  have hf : (sa.paidOut claimOnly w.clock).rewardFrom = w.clock ∧
      (sa.paidOut claimOnly w.clock).pendingRewards = 0 := by
    cases claimOnly <;> exact ⟨rfl, rfl⟩
  have hpo : accountOf rt x w' = (accountOf rt x w).settled
      (sa.paidOut claimOnly w.clock).amount.toNat 0 := by
    rw [accountOf_of_position ho.config ho.position, ho.clock, hf.1, hf.2]
    simp only [accountOf, rateOf_of_config hd.config]
    rfl
  rw [hpo]
  exact .settle (by rw [Nat.zero_add, hpa])

theorem accrual_unsettled (h : WellFormed rt w) (ha : Admitted rt accounts)
    (ho : processInstruction rt w accounts ix = .ok w')
    (hx : settlesFor x (.execute accounts ix) = false)
    (hr : RateSettled rt x ⟨w, .execute accounts ix, w'⟩) :
    accountOf rt x w' =
      { accountOf rt x w with rate := rateOf rt w' } ∧
      (rateOf rt w = rateOf rt w' ∨ (accountOf rt x w).Idle ∧
          accrualEvent rt x ⟨w, .execute accounts ix, w'⟩ = .retune) := by
  constructor
  · rw [accountOf_congr (position_unsettled h ha ho hx), (instruction_outcome h ha ho).clock]
    rfl
  rcases rateOf_step (x := x) h ha ho with hsam | ⟨_, _, _, _, _, _, _, rfl, hn⟩ | ⟨c, rfl, hc, hne⟩
  · exact .inl hsam.symm
  · exact .inr ⟨.inl (by simp [accountOf, principal, hn]), rfl⟩
  · by_cases he : c.pending.rewardRateBps = c.rewardRateBps
    · exact .inl (by rw [hne, he, rateOf_of_config hc])
    · refine .inr ⟨?_, rfl⟩
      cases hsa : w.stakeOf rt x with
      | none => exact .inl (by simp [accountOf, principal, hsa])
      | some sa =>
        rw [accountOf_of_position hc hsa]
        rcases hr c hc he sa hsa with hz | hsi
        · exact .inl (by rw [hz]; rfl)
        · exact .inr (congrArg Int64.toInt hsi)

theorem accrual_step (h : ReachableWorld rt w) (hs : Step rt w a w')
    (hco : settlesFor x a = true → Collectable rt w x)
    (hr : RateSettled rt x ⟨w, a, w'⟩) :
    Accrual.Step rewardUnit (accountOf rt x w)
    (accrualEvent rt x ⟨w, a, w'⟩) (accountOf rt x w') := by
  cases hs with
  | reject => exact .tick le_rfl
  | environment hen =>
    have hc : w'.configOf rt = w.configOf rt := configOf_congr (hen.pda_kept isPda_configKey)
    have hsa : rateOf rt w' = rateOf rt w := by
      simp only [rateOf, hc]
    rw [accountOf_congr (hen.pda_kept (isPda_stakeKey x)), hsa]
    exact .tick hen.clock
  | @execute _ accounts ix ha ho =>
    cases hx : settlesFor x (.execute accounts ix) with
    | true =>
      have hl : leader accounts = some x := by
        cases ix <;> first
          | exact of_decide_eq_true hx
          | exact absurd hx Bool.false_ne_true
      have hse : ∀ {y}, LedBy accounts y → y = x := fun hled =>
        Option.some.inj (hled.leader.symm.trans hl)
      unfold accrualEvent
      rw [if_pos hx]
      cases ix with
      | stake amount =>
        obtain ⟨y, token, c, net, sa, hd⟩ := processStake_ok ho
        obtain rfl := hse hd.led
        exact accrual_deposit h (hco hx) ha hd
      | unstake | claim =>
        obtain ⟨y, token, c, sa, n, hd, hn⟩ := processUnstake_reward ho
        obtain rfl := hse hd.led
        simp only [rewardMinted, hd.config, hl]
        exact accrual_withdrawal h (hco hx) ha hd hn
      | _ => exact absurd hx Bool.false_ne_true
    | false =>
      obtain ⟨hpo, hsa | ⟨hi, he⟩⟩ := accrual_unsettled h.wellFormed ha ho hx hr
      · -- with the rate unchanged it does not matter which of the two steps it is
        have hpo : accountOf rt x w' = accountOf rt x w := by
          rw [hpo, ← hsa]
          rfl
        unfold accrualEvent
        rw [if_neg (by simp [hx]), hpo]
        split
        · exact .retune (.inl rfl)
        · exact .retune (.inl rfl)
        · exact .tick le_rfl
      · rw [he, hpo]
        exact .retune (.inr hi)

end

/-! ## Runs -/

section

variable [Inhabited Pubkey] {rt : Runtime Pubkey} {w0 w w' : World Pubkey} {x : Pubkey}
  {tr : List (Entry (World Pubkey) (Action Pubkey))} {ids : Addresses Pubkey}

omit [Inhabited Pubkey] in
theorem settles_accrualEvent (e : Entry (World Pubkey) (Action Pubkey)) :
    (accrualEvent ids x e).settles = settlesFor x e.label := by
  unfold accrualEvent
  split
  · next hx => exact hx.symm
  · next hx =>
    rw [Bool.not_eq_true] at hx
    rw [hx]
    split <;> rfl

omit [Inhabited Pubkey] in
theorem paid_accrualEvent (e : Entry (World Pubkey) (Action Pubkey)) :
    (accrualEvent ids x e).paid = rewardMinted ids x e := by
  unfold accrualEvent
  split
  · rfl
  · next hx =>
    have hz : rewardMinted ids x e = 0 := by
      unfold rewardMinted
      split
      · next accounts c hl _ =>
        exact if_neg fun hlea => hx (by simp [hl, settlesFor, hlea])
      · next accounts c hl _ =>
        exact if_neg fun hlea => hx (by simp [hl, settlesFor, hlea])
      · rfl
    rw [hz]
    split <;> rfl

theorem computeReward_now (amount rate : UInt64) (now : Int64) :
    computeReward amount rate (saturatingSub now now) = 0 := by
  refine if_pos (.inr (.inr ?_))
  rw [Int64.le_iff_toInt_le, toInt_saturatingSub, sub_self]
  decide

theorem accruedOf_apply {accounts : List (AccountMeta Pubkey)} (h : WellFormed rt w)
    (hs : Step rt w (.execute accounts .applyParams) w')
    (hr : RateSettled rt x ⟨w, .execute accounts .applyParams, w'⟩) :
    accruedOf rt w' x = accruedOf rt w x := by
  cases hs with
  | execute ha ho =>
    have hsl := position_unsettled (x := x) h ha ho rfl
    have hcl := (instruction_outcome h ha ho).clock
    obtain ⟨c, c', hc, hg, hw'⟩ := processApplyUpdate_ok ho
    have hc' : w'.configOf rt = some c' := by
      rw [hw']
      refine configOf_eq_some.mpr ⟨?_, (governed_same hg).2.1.trans (configOf_eq_some.mp hc).2⟩
      rw [slot_setData_self, (configOf_eq_some.mp hc).1]
    have hn : c'.rewardRateBps = c.pending.rewardRateBps := by
      cases hg
      rfl
    cases hsa : w.stakeOf rt x with
    | none => simp [accruedOf, stakeOf_congr hsl, hsa]
    | some sa =>
      rw [accruedOf_of_position hc' ((stakeOf_congr hsl).trans hsa),
        accruedOf_of_position hc hsa, hn, hcl]
      by_cases he : c.pending.rewardRateBps = c.rewardRateBps
      · rw [he]
      · unfold accruedRewards
        rcases hr c hc he sa hsa with hz | hsi
        · rw [hz, computeReward_zero, computeReward_zero]
        · rw [hsi, computeReward_now, computeReward_now]

theorem accrual_run (hf : Fresh rt w0) (hr : Run (Step rt) w0 tr w)
    (hc : ∀ e ∈ tr, settlesFor x e.label = true → Collectable rt e.pre x)
    (hra : ∀ e ∈ tr, RateSettled rt x e) :
    Run (Accrual.Step rewardUnit) (accountOf rt x w0)
    (tr.map fun e => ⟨accountOf rt x e.pre, accrualEvent rt x e,
      accountOf rt x e.post⟩) (accountOf rt x w) := by
  refine hr.simulate_of_entries (accountOf rt x) (accrualEvent rt x)
    (P := fun e => ReachableWorld rt e.pre ∧
      (settlesFor x e.label = true → Collectable rt e.pre x) ∧
      RateSettled rt x e) ?_ ?_
  · intro e hP hs
    exact accrual_step hP.1 hs hP.2.1 hP.2.2
  · intro e he
    obtain ⟨tr', hr', -⟩ := hr.mem_reached he
    exact ⟨⟨w0, tr', hf, hr'⟩, hc e he, hra e he⟩

omit [Inhabited Pubkey] in
theorem sum_rewardDue (tr : List (Entry (World Pubkey) (Action Pubkey))) :
    (tr.map (rewardDue ids x)).sum =
    (totalEarned (tr.map fun e => ⟨accountOf ids x e.pre, accrualEvent ids x e,
      accountOf ids x e.post⟩) : ℚ) / rewardUnit := by
  have hun : (rewardUnit : ℚ) = 10000 * secsPerYear := by
    simp [rewardUnit, bps]
  rw [hun]
  induction tr with
  | nil => simp [totalEarned]
  | cons e tr ih =>
    rw [List.map_cons, List.sum_cons, ih]
    simp only [rewardDue, totalEarned, earned, accountOf, List.map_cons, List.sum_cons]
    push_cast
    ring

/-- If every update that changes the rate finds the position of `x` settled, the rewards
minted to `x` and those still accrued fall short of the rewards of every period at its own
rate by at most a raw unit for each settlement, and no update changes what has accrued. -/
theorem rewards_not_retroactive (hf : Fresh rt.toAddresses w0) (hr : Run (Step rt) w0 tr w)
    (hcol : ∀ e ∈ tr, settlesFor x e.label = true → Collectable rt.toAddresses e.pre x)
    (hend : Collectable rt.toAddresses w x)
    (hrate : ∀ e ∈ tr, RateSettled rt.toAddresses x e) :
    (((tr.map (rewardMinted rt.toAddresses x)).sum + accruedOf rt.toAddresses w x : ℕ) : ℚ) ≤
        (tr.map (rewardDue rt.toAddresses x)).sum ∧
      (tr.map (rewardDue rt.toAddresses x)).sum ≤
        ((tr.map (rewardMinted rt.toAddresses x)).sum + accruedOf rt.toAddresses w x +
          tr.countP fun e => settlesFor x e.label : ℕ) ∧
      ∀ e ∈ tr, ∀ accounts, e.label = .execute accounts .applyParams →
        accruedOf rt.toAddresses e.post x = accruedOf rt.toAddresses e.pre x := by
  have hru := accrual_run hf hr hcol hrate
  have hn : w0.stakeOf rt.toAddresses x = none :=
    stakeOf_of_unallocated (hf.unused _ (isPda_stakeKey x))
  have hun : 0 < rewardUnit := by decide
  obtain ⟨hlo, hh⟩ := Accrual.accrued_run hun (by simp [accountOf, principal, hn])
    (by simp [accountOf, hn]) hru
  rw [← accruedOf_exact ⟨w0, tr, hf, hr⟩ hend] at hlo hh
  have hpa : Accrual.totalPaid (tr.map fun e => ⟨accountOf rt.toAddresses x e.pre,
      accrualEvent rt.toAddresses x e, accountOf rt.toAddresses x e.post⟩) =
      (tr.map (rewardMinted rt.toAddresses x)).sum := by
    simp only [Accrual.totalPaid, List.map_map, Function.comp_def, paid_accrualEvent]
  have hc : Accrual.settlements (tr.map fun e => ⟨accountOf rt.toAddresses x e.pre,
      accrualEvent rt.toAddresses x e, accountOf rt.toAddresses x e.post⟩) =
      tr.countP fun e => settlesFor x e.label := by
    simp only [Accrual.settlements, List.countP_map, Function.comp_def, settles_accrualEvent]
  rw [hpa] at hlo hh
  rw [hc] at hh
  have hu' : (0 : ℚ) < rewardUnit := by exact_mod_cast hun
  generalize (tr.map (rewardMinted rt.toAddresses x)).sum = paid at hlo hh ⊢
  have hlo := (Int.cast_le (R := ℚ)).mpr hlo
  have hh := (Int.cast_le (R := ℚ)).mpr hh
  push_cast at hlo hh
  rw [sum_rewardDue]
  push_cast
  refine ⟨?_, ?_, ?_⟩
  · rw [le_div_iff₀ hu', mul_comm]
    exact hlo
  · rw [div_le_iff₀ hu', mul_comm]
    exact hh
  · intro e he accounts hl
    obtain ⟨tr', hr', hs⟩ := hr.mem_reached he
    have hse := hrate e he
    obtain ⟨pre, label, post⟩ := e
    obtain rfl : label = .execute accounts .applyParams := hl
    exact accruedOf_apply (wellFormed_run hf.wellFormed hr') hs hse

end

/-! ## A rate that reaches back -/

section

open Reference

variable (rate : UInt64) (later : Int64)

def rateUpdate : Instruction Key := updateParamsIx keys admin none (some rate) none none none

def rateQueued : World Key := run (staked 1 0 0) (rateUpdate rate)

def rateChange : List (Entry (World Key) (Action Key)) :=
  firstDeposit 1 0 0 ++ [entry (staked 1 0 0) (rateUpdate rate),
      ⟨rateQueued rate, .environment, (rateQueued rate).advance later⟩,
      entry ((rateQueued rate).advance later) (applyParamsIx keys)]

def rateChanged : World Key := run ((rateQueued rate).advance later) (applyParamsIx keys)

theorem run_rateChange {rate : UInt64} {later : Int64}
    (h1 : succeeds (staked 1 0 0) (rateUpdate rate) = true)
    (h2 : (rateQueued rate).clock.toInt ≤ later.toInt)
    (h3 : succeeds ((rateQueued rate).advance later) (applyParamsIx keys) = true) :
    Run (Step chain) (genesis 1) (rateChange rate later) (rateChanged rate later) := by
  have hd : Run (Step chain) (genesis 1) (firstDeposit 1 0 0) (staked 1 0 0) :=
    run_firstDeposit (by decide +kernel) (by decide +kernel) (by decide +kernel)
  exact hd.append (((Run.single (step_run _ (rateUpdate rate) rfl h1)).snoc
      (.environment (environment_advance h2))).snoc (step_run _ (applyParamsIx keys) rfl h3))

def claimLater : List (Entry (World Key) (Action Key)) := rateChange 2000 1 ++
    [⟨rateChanged 2000 1, .environment, (rateChanged 2000 1).advance 31536001⟩,
      entry ((rateChanged 2000 1).advance 31536001) (claimIx keys admin adminToken vault mint)]

def claimedLater : World Key :=
  run ((rateChanged 2000 1).advance 31536001) (claimIx keys admin adminToken vault mint)

theorem rewards_not_retroactive_claim : Run (Step chain) (genesis 1) claimLater claimedLater ∧
      (∀ e ∈ claimLater, settlesFor admin e.label = true → Collectable keys e.pre admin) ∧
      Collectable keys claimedLater admin ∧ (∀ e ∈ claimLater, RateSettled keys admin e) ∧
      (claimLater.map (rewardMinted keys admin)).sum = 198 ∧
      (((claimLater.map (rewardMinted keys admin)).sum +
          accruedOf keys claimedLater admin : ℕ) : ℚ) ≤
        (claimLater.map (rewardDue keys admin)).sum ∧
      (claimLater.map (rewardDue keys admin)).sum ≤
        ((claimLater.map (rewardMinted keys admin)).sum + accruedOf keys claimedLater admin +
          claimLater.countP fun e => settlesFor admin e.label : ℕ) := by
  have hru : Run (Step chain) (genesis 1) claimLater claimedLater :=
    (run_rateChange (by decide +kernel) (by decide +kernel) (by decide +kernel)).append
      ((Run.single (.environment (environment_advance (by decide +kernel)))).snoc
        (step_run _ (claimIx keys admin adminToken vault mint) rfl (by decide +kernel)))
  have hc : ∀ e ∈ claimLater, settlesFor admin e.label = true → Collectable keys e.pre admin := by
    decide +kernel
  have he : Collectable keys claimedLater admin := by decide +kernel
  have hr : ∀ e ∈ claimLater, RateSettled keys admin e := by decide +kernel
  obtain ⟨hl, hh, -⟩ := rewards_not_retroactive (fresh_genesis 1) hru hc he hr
  exact ⟨hru, hc, he, hr, by decide +kernel, hl, hh⟩

/-- A year at ten per cent, then a rate of one hundred per cent: the update alone turns the
99 that have accrued into 990. -/
theorem new_rate_reaches_back : Fresh keys (genesis 1) ∧
      Run (Step chain) (genesis 1) (rateChange 10000 31536001) (rateChanged 10000 31536001) ∧
      (∀ e ∈ rateChange 10000 31536001, settlesFor admin e.label = true →
        Collectable keys e.pre admin) ∧
      Collectable keys (rateChanged 10000 31536001) admin ∧
      ((rateChange 10000 31536001).map (rewardDue keys admin)).sum = 99 ∧
      ((rateChange 10000 31536001).map (rewardMinted keys admin)).sum = 0 ∧
      (rateChange 10000 31536001).countP (fun e => settlesFor admin e.label) = 1 ∧
      accruedOf keys ((rateQueued 10000).advance 31536001) admin = 99 ∧
      accruedOf keys (rateChanged 10000 31536001) admin = 990 := by
  refine ⟨fresh_genesis 1, run_rateChange (by decide +kernel) (by decide +kernel)
    (by decide +kernel), ?_, ?_, ?_, ?_, ?_, ?_, ?_⟩
  all_goals decide +kernel

end

end SniperBot.Staking
