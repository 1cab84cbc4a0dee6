import SniperBot.Staking.Governance
import SniperBot.Staking.Withdrawal

/-!
# When a staker can leave

The cooldown is the only thing between a staker and their principal, and it is
the one parameter without a cap. A position is withdrawable at a time exactly
when the cooldown has elapsed by then, and at some representable time exactly
when its end is representable.
-/

namespace SniperBot.Staking

open Lib.MachineInt Lib.Runs I64 Option

variable {Pubkey : Type} [DecidableEq Pubkey] [Inhabited Pubkey] {rt : Runtime Pubkey}
  {w w' : World Pubkey} {c : Config Pubkey} {x token : Pubkey} {sa : StakeAccount Pubkey}
  {tr : List (Entry (World Pubkey) (Action Pubkey))}

def HoldsToken (ids : Addresses Pubkey) (w : World Pubkey) (mint x token : Pubkey) : Prop :=
  ∃ t, w.tokenAt ids token = some t ∧ t.mint = mint ∧ t.owner = x

/-- Nothing happens that applies an update or that `x` signs. -/
def Waits (x : Pubkey) (tr : List (Entry (World Pubkey) (Action Pubkey))) : Prop :=
  ∀ e ∈ tr, ∀ accounts ix, e.label = .execute accounts ix → ix ≠ .applyParams ∧ ¬ Signed accounts x

/-- Whatever happens until `t` while `x` waits, the `Unstake` of `x` succeeds then. -/
def WithdrawableAt (rt : Runtime Pubkey) (w : World Pubkey) (c : Config Pubkey)
    (x token : Pubkey) (t : Int64) : Prop :=
  ∀ tr w', Run (Step rt) w tr w' → Waits x tr → w'.clock = t →
    HoldsToken rt.toAddresses w' c.mint x token →
    ∃ w'', processInstruction rt w' (unstakeIx rt.toAddresses x token c.vault c.mint).accounts
      .unstake = .ok w''

theorem position_run (h : WellFormed rt w) (hr : Run (Step rt) w tr w') (hx : Waits x tr)
    (hsa : w.stakeOf rt x = some sa) : w'.stakeOf rt x = some sa := by
  induction hr with
  | nil => exact hsa
  | snoc hr hs ih =>
    have hkept := position_kept (wellFormed_run h hr) hs fun accounts ix he =>
      (hx _ List.mem_concat_self accounts ix he).2
    rw [World.stakeOf_congr hkept]
    exact ih fun e he => hx e (List.mem_append_left _ he)

theorem terms_run (h : WellFormed rt w) (hr : Run (Step rt) w tr w') (hx : Waits x tr)
    (hc : w.configOf rt = some c) :
    ∃ c', w'.configOf rt = some c' ∧ c'.unstakeDelay = c.unstakeDelay ∧
    c'.vault = c.vault ∧ c'.mint = c.mint := by
  obtain ⟨c', hc', hsa⟩ := sameDeployment_run h hr hc
  have hli := live_run_of_no_apply h hr hc hc' fun e he accounts hl =>
    (hx e he accounts _ hl).1 rfl
  exact ⟨c', hc', congrArg Params.unstakeDelay hli, hsa.vault, hsa.mint⟩

theorem cooldown_of_unstake {accounts : List (AccountMeta Pubkey)} (h : WellFormed rt w)
    (hc : w.configOf rt = some c) (hsa : w.stakeOf rt x = some sa)
    (hx : leader accounts = some x) (hok : processInstruction rt w accounts .unstake = .ok w') :
    c.unstakeDelay ≤ saturatingSub w.clock sa.stakedAt := by
  change processUnstake rt w accounts false = .ok w' at hok
  obtain ⟨y, token, c', sa', n, ho⟩ := processUnstake_ok hok
  obtain rfl := some.inj (hx.symm.trans ho.led.leader)
  obtain rfl := some.inj (hc.symm.trans ho.config)
  have hs' := h.stakeOf_of_decoded ho.owned ho.decoded
  obtain rfl := some.inj (hsa.symm.trans hs')
  obtain ⟨w1, w2, hpa | ⟨-, -, hd, -⟩, -⟩ := ho.effect
  · exact absurd hpa.1 Bool.false_ne_true
  · exact hd

theorem withdrawableAt_iff {t : Int64} (hw : ReachableWorld rt w)
    (hc : w.configOf rt = some c) (hsa : w.stakeOf rt x = some sa)
    (ha : sa.amount ≠ 0) (ht : HoldsToken rt w c.mint x token)
    (hl : w.clock.toInt ≤ t.toInt) :
    WithdrawableAt rt w c x token t ↔ c.unstakeDelay ≤ saturatingSub t sa.stakedAt := by
  constructor
  · intro hwd
    have hst : Step rt w .environment (w.advance t) := .environment (environment_advance hl)
    obtain ⟨w'', ho⟩ := hwd [⟨w, .environment, w.advance t⟩] (w.advance t) (Run.single hst)
      (by simp [Waits]) rfl ht
    -- the later world differs in its clock only
    have hle : c.unstakeDelay ≤ saturatingSub (w.advance t).clock sa.stakedAt :=
      cooldown_of_unstake (wellFormed_step hw.wellFormed hst) hc hsa rfl ho
    exact hle
  · rintro hde tr w' hr hx rfl ht'
    obtain ⟨c', hc', hd, hv, hm⟩ := terms_run hw.wellFormed hr hx hc
    have hs' := position_run hw.wellFormed hr hx hsa
    have hw' : ReachableWorld rt w' := hw.extend hr
    rw [← hv, ← hm]
    rw [← hm] at ht'
    exact withdrawal_succeeds hw'.wellFormed
      (withdrawalChecks_unstakeIx hc' hs' ht' ha (hd.symm ▸ hde))
      (hw'.amount_le_vault hc' hs')

/-- A position can be withdrawn at some representable time from now on exactly
when the end of its cooldown is representable. -/
theorem withdrawable_iff (hw : ReachableWorld rt w) (hc : w.configOf rt.toAddresses = some c)
    (hsa : w.stakeOf rt.toAddresses x = some sa) (hamount : sa.amount ≠ 0)
    (ht : HoldsToken rt.toAddresses w c.mint x token) :
    (∃ t : Int64, w.clock.toInt ≤ t.toInt ∧ WithdrawableAt rt w c x token t) ↔
      sa.stakedAt.toInt + c.unstakeDelay.toInt ≤ maxInt := by
  have hd := le_maxInt c.unstakeDelay
  constructor
  · rintro ⟨t, hl, hwd⟩
    have hle := (withdrawableAt_iff hw hc hsa hamount ht hl).mp hwd
    rw [Int64.le_iff_toInt_le, toInt_saturatingSub] at hle
    have htm := le_maxInt t
    have hst := le_maxInt sa.stakedAt
    have hn : minInt < 0 := by decide
    omega
  · intro hle
    obtain ⟨t, hm⟩ := exists_toInt_eq (n := maxInt) (by decide) (by decide)
    have hl : w.clock.toInt ≤ t.toInt := hm ▸ le_maxInt w.clock
    refine ⟨t, hl, (withdrawableAt_iff hw hc hsa hamount ht hl).mpr ?_⟩
    rw [Int64.le_iff_toInt_le, toInt_saturatingSub, hm]
    omega

section

open Reference

def delayUpdate (delay : Int64) : Instruction Key :=
  updateParamsIx keys admin none none none (some delay) none

def prolonged (delay : Int64) : World Key :=
  run (run (staked 1 10 0) (delayUpdate delay)) (applyParamsIx keys)

theorem reachable_prolonged {delay : Int64} (h1 : succeeds (staked 1 10 0) (delayUpdate delay) = true)
    (h2 : succeeds (run (staked 1 10 0) (delayUpdate delay)) (applyParamsIx keys) = true) :
    ReachableWorld chain (prolonged delay) :=
  reachable_staked.extend ((Run.single (step_run _ _ rfl h1)).snoc (step_run _ _ rfl h2))

theorem holdsToken_prolonged {delay : Int64} {c : Config Key} (hm : c.mint = mint)
    (ht : (prolonged delay).tokenAt keys adminToken = some ⟨mint, admin, 4010, false⟩) :
    HoldsToken keys (prolonged delay) c.mint admin adminToken :=
  ⟨_, ht, hm.symm, rfl⟩

theorem withdrawable_iff_day : ∃ c sa, (prolonged 86400).configOf keys = some c ∧
      (prolonged 86400).stakeOf keys admin = some sa ∧ sa.amount = 990 ∧
      ∃ t : Int64, (prolonged 86400).clock.toInt ≤ t.toInt ∧
        WithdrawableAt chain (prolonged 86400) c admin adminToken t := by
  obtain ⟨c, hc⟩ : ∃ c, (prolonged 86400).configOf keys = some c :=
    Option.isSome_iff_exists.mp (by decide +kernel)
  obtain ⟨sa, hsa⟩ : ∃ sa, (prolonged 86400).stakeOf keys admin = some sa :=
    Option.isSome_iff_exists.mp (by decide +kernel)
  have hf : ∀ c, (prolonged 86400).configOf keys = some c → ∀ sa,
      (prolonged 86400).stakeOf keys admin = some sa → c.mint = mint ∧ sa.amount = 990 ∧
        sa.stakedAt.toInt + c.unstakeDelay.toInt ≤ maxInt := by decide +kernel
  obtain ⟨hm, ha, he⟩ := hf c hc sa hsa
  have hpos : sa.amount ≠ 0 := by
    rw [ha]
    decide
  exact ⟨c, sa, hc, hsa, ha, (withdrawable_iff
    (reachable_prolonged (by decide +kernel) (by decide +kernel)) hc hsa hpos
    (holdsToken_prolonged hm (by decide +kernel))).mpr he⟩

/-- With the longest cooldown no time is late enough: the deposit is frozen. -/
theorem position_frozen : ReachableWorld chain (prolonged 9223372036854775807) ∧
    ∃ c sa, (prolonged 9223372036854775807).configOf keys = some c ∧
      (prolonged 9223372036854775807).stakeOf keys admin = some sa ∧ sa.amount = 990 ∧
      HoldsToken keys (prolonged 9223372036854775807) c.mint admin adminToken ∧
      ∀ t : Int64, (prolonged 9223372036854775807).clock.toInt ≤ t.toInt →
        ¬ WithdrawableAt chain (prolonged 9223372036854775807) c admin adminToken t := by
  have hr : ReachableWorld chain (prolonged 9223372036854775807) :=
    reachable_prolonged (by decide +kernel) (by decide +kernel)
  obtain ⟨c, hc⟩ : ∃ c, (prolonged 9223372036854775807).configOf keys = some c :=
    Option.isSome_iff_exists.mp (by decide +kernel)
  obtain ⟨sa, hsa⟩ : ∃ sa, (prolonged 9223372036854775807).stakeOf keys admin = some sa :=
    Option.isSome_iff_exists.mp (by decide +kernel)
  have hf : ∀ c, (prolonged 9223372036854775807).configOf keys = some c → ∀ sa,
      (prolonged 9223372036854775807).stakeOf keys admin = some sa → c.mint = mint ∧
        sa.amount = 990 ∧ sa.stakedAt.toInt = 1 ∧ c.unstakeDelay.toInt = maxInt := by
    decide +kernel
  obtain ⟨hm, ha, hst, hd⟩ := hf c hc sa hsa
  have hpos : sa.amount ≠ 0 := by
    rw [ha]
    decide
  have ht : HoldsToken keys (prolonged 9223372036854775807) c.mint admin adminToken :=
    holdsToken_prolonged hm (by decide +kernel)
  refine ⟨hr, c, sa, hc, hsa, ha, ht, fun t hl hw => ?_⟩
  have hle := (withdrawableAt_iff hr hc hsa hpos ht hl).mp hw
  rw [Int64.le_iff_toInt_le, toInt_saturatingSub, hst, hd] at hle
  have htm := le_maxInt t
  have hra : minInt < maxInt := by decide
  omega

end

end SniperBot.Staking
