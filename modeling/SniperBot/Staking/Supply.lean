import SniperBot.Staking.Governance
import SniperBot.Staking.Withdrawal

/-!
# The supply cap

The cap of a deployment is a latch: `Initialize` sets it once and no later step
moves it, just as `GenesisMint` closes a latch of its own. Under that cap every
withdrawal still goes through, since its reward is clamped to the headroom.
-/

namespace SniperBot.Staking

open Lib.MachineInt Lib.Runs

section

variable {Pubkey : Type}

def genesisMints : Option (Config Pubkey) → Nat
  | some c => c.genesisDone.toNat
  | none => 0

def InitializesWith (cap : UInt64) (a : Action Pubkey) : Prop :=
  ∃ accounts fee rate minStake delay decimals timelock,
    a = .execute accounts (.initializeConfig fee rate minStake delay decimals timelock cap)

def isGenesisMint : Action Pubkey → Bool
  | .execute _ (.genesisMint _) => true
  | _ => false

theorem genesisMints_le_one (o : Option (Config Pubkey)) : genesisMints o ≤ 1 := by
  cases o with
  | none => exact Nat.zero_le 1
  | some c => exact Bool.toNat_le c.genesisDone

end

variable {Pubkey : Type} [DecidableEq Pubkey] [Inhabited Pubkey] {rt : Runtime Pubkey}
  {w0 w w' : World Pubkey} {a : Action Pubkey}
  {tr : List (Entry (World Pubkey) (Action Pubkey))}

theorem configStep_latches {now : Int64} {accounts : List (AccountMeta Pubkey)}
    {o o' : Option (Config Pubkey)} {ix : StakingInstruction Pubkey}
    (hcs : ConfigStep rt now accounts o ix o') :
    (∀ cap, o'.map Config.maxSupply = some cap ↔
    o.map Config.maxSupply = some cap ∨ InitializesWith cap (Action.execute accounts ix)) ∧
    genesisMints o' = genesisMints o + (isGenesisMint (Action.execute accounts ix)).toNat := by
  cases hcs with
  | deploy hc hled =>
    subst hc
    refine ⟨fun cap => ?_, rfl⟩
    simp [InitializesWith, initialConfig]
  | @govern c c' _ hg =>
    obtain ⟨hsa, -, hd⟩ := governed_same hg
    constructor
    · intro cap
      simp only [Option.map_some, hsa.maxSupply, InitializesWith]
      cases hg <;> simp
    · simp only [genesisMints]
      cases hg <;> rfl
  | @genesis c amount hled hl =>
    refine ⟨fun cap => ?_, ?_⟩
    · simp [InitializesWith]
    · simp [genesisMints, isGenesisMint, hl]
  | @keep c ix hi =>
    cases ix <;> first
      | exact absurd hi Bool.false_ne_true
      | exact ⟨fun cap => by simp [InitializesWith], rfl⟩

theorem latches_step (h : WellFormed rt w) (hs : Step rt w a w') :
    (∀ cap, (w'.configOf rt).map Config.maxSupply = some cap ↔
    (w.configOf rt).map Config.maxSupply = some cap ∨ InitializesWith cap a) ∧
    genesisMints (w'.configOf rt) = genesisMints (w.configOf rt) + (isGenesisMint a).toNat := by
  cases a with
  | execute accounts ix =>
    cases hs with
    | execute ha ho => exact configStep_latches (instruction_outcome h ha ho).config
  | reject accounts ix | environment =>
    rw [config_kept hs (by simp)]
    exact ⟨fun cap => by simp [InitializesWith], rfl⟩

theorem cap_run (hf : Fresh rt w0) (hr : Run (Step rt) w0 tr w) (cap : UInt64) :
    (w.configOf rt).map Config.maxSupply = some cap ↔ ∃ e ∈ tr, InitializesWith cap e.label := by
  induction hr with
  | nil => simp [configOf_of_unallocated (hf.unused _ isPda_configKey)]
  | snoc hr hs ih =>
    rw [(latches_step (wellFormed_run hf.wellFormed hr) hs).1, ih]
    simp

theorem genesisMints_run (hf : Fresh rt w0) (hr : Run (Step rt) w0 tr w) :
    genesisMints (w.configOf rt) = tr.countP fun e => isGenesisMint e.label := by
  induction hr with
  | nil => rw [configOf_of_unallocated (hf.unused _ isPda_configKey)]; rfl
  | @snoc tr u v b hr hs ih =>
    rw [(latches_step (wellFormed_run hf.wellFormed hr) hs).2, ih, List.countP_append,
      List.countP_singleton]
    cases isGenesisMint b <;> rfl

/-- In every run the supply stays within the cap given at `Initialize`, which
never changes; `GenesisMint` succeeds at most once; and a withdrawal that passes
its checks succeeds, whatever is left under the cap. -/
theorem supply_within_cap (hf : Fresh rt.toAddresses w0) (hr : Run (Step rt) w0 tr w) :
    (∀ cap, (∃ e ∈ tr, InitializesWith cap e.label) ↔
      ∃ c, w.configOf rt.toAddresses = some c ∧ c.maxSupply = cap) ∧
    (∀ c, w.configOf rt.toAddresses = some c →
      w.supplyOf rt.toAddresses c.mint ≤ c.maxSupply.toNat) ∧
    (tr.countP fun e => isGenesisMint e.label) ≤ 1 ∧
    ∀ {accounts : List (AccountMeta Pubkey)} {claimOnly : Bool} {x token : Pubkey}
      {c : Config Pubkey} {sa : StakeAccount Pubkey},
      WithdrawalChecks rt w accounts claimOnly x token c sa →
      ∃ w', processUnstake rt w accounts claimOnly = .ok w' := by
  have hw := wellFormed_run hf.wellFormed hr
  refine ⟨fun cap => ?_, fun c hc => (hw.deployed hc).supply_le, ?_, fun hk => ?_⟩
  · rw [← cap_run hf hr cap, Option.map_eq_some_iff]
  · rw [← genesisMints_run hf hr]
    exact genesisMints_le_one _
  · have hre : ReachableWorld rt w := ⟨w0, tr, hf, hr⟩
    exact withdrawal_succeeds hw hk (hre.amount_le_vault hk.config hk.position)

section

open Reference

theorem supply_within_cap_staked :
    ∃ c, (staked 1 0 0).configOf keys = some c ∧ c.maxSupply = 1000000 ∧
      (staked 1 0 0).supplyOf keys c.mint ≤ c.maxSupply.toNat ∧
      ((firstDeposit 1 0 0).countP fun e => isGenesisMint e.label) ≤ 1 ∧
      ∃ w', processUnstake chain (staked 1 0 0) (unstakeIx keys admin adminToken c.vault
        c.mint).accounts false = .ok w' := by
  have hr : Run (Step chain) (genesis 1) (firstDeposit 1 0 0) (staked 1 0 0) :=
    run_firstDeposit (by decide +kernel) (by decide +kernel) (by decide +kernel)
  obtain ⟨hca, hsu, hco, hun⟩ := supply_within_cap (fresh_genesis 1) hr
  obtain ⟨c, hc, hma⟩ : ∃ c, (staked 1 0 0).configOf keys = some c ∧ c.maxSupply = 1000000 :=
    (hca 1000000).mp ⟨_, List.mem_cons_self, _, 100, 1000, 0, 0, 6, 0, rfl⟩
  obtain ⟨sa, hsa⟩ : ∃ sa, (staked 1 0 0).stakeOf keys admin = some sa :=
    Option.isSome_iff_exists.mp (by decide +kernel)
  have hf : ∀ c, (staked 1 0 0).configOf keys = some c → ∀ sa,
      (staked 1 0 0).stakeOf keys admin = some sa → c.mint = mint ∧ sa.amount ≠ 0 ∧
        c.unstakeDelay ≤ I64.saturatingSub (staked 1 0 0).clock sa.stakedAt := by decide +kernel
  obtain ⟨hm, ha, hd⟩ := hf c hc sa hsa
  refine ⟨c, hc, hma, hsu c hc, hco, hun (withdrawalChecks_unstakeIx hc hsa ?_ ha hd)⟩
  exact ⟨⟨mint, admin, 4010, false⟩, by decide +kernel, hm.symm, rfl⟩

end

end SniperBot.Staking
