import SniperBot.Lib.Runs
import SniperBot.Staking.Effects

/-!
# The staking program in its chain

A run interleaves instructions of the program, by any signers over any account lists, with
whatever other transactions do. A failed instruction changes nothing, because the runtime rolls it
back. The program's own addresses sign for nobody. `WellFormed` is the invariant of these runs;
what one write may touch is stated once per kind of write.
-/

namespace SniperBot.Staking

open Lib.MachineInt Lib.Guard Lib.Runs World

variable {Pubkey : Type} [DecidableEq Pubkey]

inductive Action (Pubkey : Type) where
  | execute (accounts : List (AccountMeta Pubkey)) (ix : StakingInstruction Pubkey)
  | reject (accounts : List (AccountMeta Pubkey)) (ix : StakingInstruction Pubkey)
  | environment

variable (ids : Addresses Pubkey) (accounts : List (AccountMeta Pubkey))

/-- No address derived from the program signs a transaction. -/
def Admitted : Prop := ∀ x, Signed accounts x → ¬ ids.IsPda x

inductive Step [Inhabited Pubkey] (rt : Runtime Pubkey) :
    World Pubkey → Action Pubkey → World Pubkey → Prop
  | execute {w w' : World Pubkey} {accounts : List (AccountMeta Pubkey)}
      {ix : StakingInstruction Pubkey} (hadm : Admitted rt.toAddresses accounts)
      (hok : processInstruction rt w accounts ix = .ok w') : Step rt w (.execute accounts ix) w'
  | reject {w : World Pubkey} {accounts : List (AccountMeta Pubkey)}
      {ix : StakingInstruction Pubkey} {e : ProgramError} (hadm : Admitted rt.toAddresses accounts)
      (herr : processInstruction rt w accounts ix = .error e) : Step rt w (.reject accounts ix) w
  | environment {w w' : World Pubkey} (henv : Environment rt.toAddresses w w') :
      Step rt w .environment w'

structure Fresh (w : World Pubkey) : Prop where
  unused : ∀ k, ids.IsPda k → (w.slot k).1 ≠ ids.programId ∧ (w.slot k).2 = .empty
  sound : SplSound ids w

/-- The deployment's accounts are what its configuration says they are. -/
structure Deployed (rt : Runtime Pubkey) (w : World Pubkey) (c : Config Pubkey) : Prop where
  config : w.configOf rt.toAddresses = some c
  bump : c.configBump = rt.configPda.2
  vault : ∃ t, w.tokenAt rt.toAddresses c.vault = some t ∧ t.mint = c.mint ∧ t.owner = rt.configKey
  mint : ∃ m, w.mintAt rt.toAddresses c.mint = some m ∧ m.mintAuthority = some rt.configKey ∧
    m.freezeAuthority = none ∧ m.supply.toNat ≤ c.maxSupply.toNat
  thawed : ∀ k t, w.tokenAt rt.toAddresses k = some t → t.mint = c.mint → t.frozen = false
  caps : WithinCaps c.feeBps c.rewardRateBps c.timelockSecs
  pendingCaps : c.pending.active = true →
    WithinCaps c.pending.feeBps c.pending.rewardRateBps c.pending.timelockSecs

def Unallocated (w : World Pubkey) (k : Pubkey) : Prop :=
  (w.slot k).1 ≠ ids.programId ∧ (w.slot k).2 = .empty

structure WellFormed (rt : Runtime Pubkey) (w : World Pubkey) : Prop where
  sound : SplSound rt.toAddresses w
  config : Unallocated rt.toAddresses w rt.configKey ∨ ∃ c, Deployed rt w c
  stake : ∀ x, Unallocated rt.toAddresses w (rt.stakeKey x) ∨
    ∃ sa, w.stakeOf rt.toAddresses x = some sa ∧ sa.owner = x ∧ ¬ rt.IsPda x
  /-- Positions exist only once there is a configuration. -/
  undeployed : w.configOf rt.toAddresses = none → ∀ x, w.stakeOf rt.toAddresses x = none

section

variable {rt : Runtime Pubkey} {w w' : World Pubkey} {c c' : Config Pubkey} {k x : Pubkey}

theorem isPda_configKey : rt.IsPda rt.configKey := .inl rfl

theorem isPda_stakeKey (x : Pubkey) : rt.IsPda (rt.stakeKey x) := .inr ⟨x, rfl⟩

theorem stakeKey_ne_configKey (x : Pubkey) : rt.stakeKey x ≠ rt.configKey :=
  rt.stakePda_ne_configPda x

theorem stakeKey_ne {x y : Pubkey} (h : y ≠ x) : rt.stakeKey y ≠ rt.stakeKey x :=
  fun he => h (rt.stakePda_injective y x he)

theorem configOf_of_unallocated (h : Unallocated rt w rt.configKey) : w.configOf rt = none :=
  if_neg h.1

theorem stakeOf_of_unallocated (h : Unallocated rt w (rt.stakeKey x)) : w.stakeOf rt x = none :=
  if_neg h.1

theorem unallocated_congr (h : w'.slot k = w.slot k) (hu : Unallocated rt w k) :
    Unallocated rt w' k := by
  unfold Unallocated
  rwa [h]

theorem Fresh.wellFormed (h : Fresh rt w) : WellFormed rt w where
  sound := h.sound
  config := .inl (h.unused _ isPda_configKey)
  stake x := .inl (h.unused _ (isPda_stakeKey x))
  undeployed _ x := stakeOf_of_unallocated (h.unused _ (isPda_stakeKey x))

theorem WellFormed.deployed (h : WellFormed rt w) (hc : w.configOf rt = some c) :
    Deployed rt w c := by
  rcases h.config with hu | ⟨c', hd⟩
  · rw [configOf_of_unallocated hu] at hc
    contradiction
  · obtain rfl := Option.some.inj (hd.config.symm.trans hc)
    exact hd

theorem WellFormed.blank (h : WellFormed rt w) (hk : rt.IsPda k) : w.Blank rt k := by
  have hpr : (w.slot k).1 = rt.programId → w.Blank rt k := fun ho =>
    blank_of_owner (ho ▸ rt.token_ne_program.symm)
  rcases hk with rfl | ⟨x, rfl⟩
  · rcases h.config with hu | ⟨c, hd⟩
    · exact blank_of_data (.inl hu.2)
    · exact hpr (congrArg Prod.fst (configOf_eq_some.mp hd.config).1)
  · rcases h.stake x with hu | ⟨sa, hsa, -⟩
    · exact blank_of_data (.inl hu.2)
    · exact hpr (congrArg Prod.fst (stakeOf_eq_some.mp hsa))

/-- A step that leaves the program's addresses alone keeps the invariant if it
keeps the books and the deployment. -/
theorem WellFormed.frame (h : WellFormed rt w) (hs : SplSound rt w')
    (hpd : ∀ k, rt.IsPda k → w'.slot k = w.slot k)
    (hde : ∀ c, Deployed rt w c → Deployed rt w' c) : WellFormed rt w' where
  sound := hs
  config := by
    rcases h.config with hu | ⟨c, hd⟩
    · exact .inl (unallocated_congr (hpd _ isPda_configKey) hu)
    · exact .inr ⟨c, hde c hd⟩
  stake x := by
    have hsl := hpd _ (isPda_stakeKey x)
    rcases h.stake x with hu | hsa
    · exact .inl (unallocated_congr hsl hu)
    · rw [← stakeOf_congr hsl] at hsa
      exact .inr hsa
  undeployed hc x := by
    rw [stakeOf_congr (hpd _ (isPda_stakeKey x))]
    exact h.undeployed ((configOf_congr (hpd _ isPda_configKey)).symm.trans hc) x

/-! ## Token calls -/

theorem WellFormed.pda_kept (h : WellFormed rt w) (ht : TokenCall rt w w')
    (hk : rt.IsPda k) : w'.slot k = w.slot k :=
  ht.others k (h.blank hk).1 (h.blank hk).2

theorem Deployed.tokenCall (h : Deployed rt w c) (ht : TokenCall rt w w')
    (hc : w'.slot rt.configKey = w.slot rt.configKey)
    (hca : w'.supplyOf rt c.mint ≤ c.maxSupply.toNat) : Deployed rt w' c where
  config := (configOf_congr hc).trans h.config
  bump := h.bump
  vault := by
    obtain ⟨t, hv, hm, ho⟩ := h.vault
    obtain ⟨a, ha⟩ := ht.tokens _ _ hv
    exact ⟨_, ha, hm, ho⟩
  mint := by
    obtain ⟨m, hm, ha, hf, -⟩ := h.mint
    obtain ⟨n, hn⟩ := ht.mints _ _ hm
    rw [supplyOf_of_mintAt hn] at hca
    exact ⟨_, hn, ha, hf, hca⟩
  thawed k t hk hm := by
    obtain ⟨t0, ht0, hm0, hf0⟩ := ht.tokens_inv hk
    rw [hf0]
    exact h.thawed k t0 ht0 (hm0.symm.trans hm)
  caps := h.caps
  pendingCaps := h.pendingCaps

theorem WellFormed.tokenCall (h : WellFormed rt w) (ht : TokenCall rt w w')
    (hc : ∀ c, Deployed rt w c → w'.supplyOf rt c.mint ≤ c.maxSupply.toNat) :
    WellFormed rt w' :=
  h.frame (ht.sound h.sound) (fun _ hk => h.pda_kept ht hk) fun c hd =>
    hd.tokenCall ht (h.pda_kept ht isPda_configKey) (hc c hd)

/-! ## Writes to the program's own accounts -/

structure SameDeployment (c c' : Config Pubkey) : Prop where
  mint : c'.mint = c.mint
  vault : c'.vault = c.vault
  bump : c'.configBump = c.configBump
  maxSupply : c'.maxSupply = c.maxSupply

omit [DecidableEq Pubkey] in
theorem SameDeployment.refl (c : Config Pubkey) : SameDeployment c c := ⟨rfl, rfl, rfl, rfl⟩

theorem Deployed.rewrite (h : Deployed rt w c) (hk : TokensKept rt w w')
    (hc : w'.configOf rt = some c') (hs : SameDeployment c c')
    (hca : WithinCaps c'.feeBps c'.rewardRateBps c'.timelockSecs)
    (hpending : c'.pending.active = true →
    WithinCaps c'.pending.feeBps c'.pending.rewardRateBps c'.pending.timelockSecs) :
    Deployed rt w' c' where
  config := hc
  bump := hs.bump.trans h.bump
  vault := by
    rw [hs.vault, hs.mint, (hk c.vault).1]
    exact h.vault
  mint := by
    rw [hs.mint, hs.maxSupply, (hk c.mint).2]
    exact h.mint
  thawed k t ht hm := by
    rw [(hk k).1] at ht
    exact h.thawed k t ht (hm.trans hs.mint)
  caps := hca
  pendingCaps := hpending

theorem WellFormed.writeStake {sa : StakeAccount Pubkey} (h : WellFormed rt w)
    (hc : w.configOf rt = some c) (hx : ¬ rt.IsPda x)
    (hne : ∀ j, j ≠ rt.stakeKey x → w'.slot j = w.slot j)
    (hse : w'.slot (rt.stakeKey x) = (rt.programId, .stake sa)) (ho : sa.owner = x) :
    WellFormed rt w' := by
  have hkept : TokensKept rt w w' := tokensKept_of_blank hne (h.blank (isPda_stakeKey x))
      (blank_of_owner (hse ▸ rt.token_ne_program.symm))
  have hco : w'.configOf rt = some c :=
    (configOf_congr (hne _ (stakeKey_ne_configKey x).symm)).trans hc
  have hd := h.deployed hc
  refine ⟨hkept.splSound h.sound, .inr ⟨c, ?_⟩, fun y => ?_, fun hn => ?_⟩
  · exact hd.rewrite hkept hco (.refl c) hd.caps hd.pendingCaps
  · by_cases hy : y = x
    · subst hy
      exact .inr ⟨sa, stakeOf_eq_some.mpr hse, ho, hx⟩
    · have hsl := hne _ (stakeKey_ne hy)
      rcases h.stake y with hu | hsa
      · exact .inl (unallocated_congr hsl hu)
      · rw [← stakeOf_congr hsl] at hsa
        exact .inr hsa
  · rw [hco] at hn
    contradiction

theorem WellFormed.writeConfig (h : WellFormed rt w) (hc : w.configOf rt = some c)
    (hw : w' = w.setData rt.configKey (.config c')) (hi : c'.initialized = true)
    (hs : SameDeployment c c') (hca : WithinCaps c'.feeBps c'.rewardRateBps c'.timelockSecs)
    (hpending : c'.pending.active = true →
    WithinCaps c'.pending.feeBps c'.pending.rewardRateBps c'.pending.timelockSecs) :
    WellFormed rt w' ∧ w'.configOf rt = some c' := by
  have hne : ∀ j, j ≠ rt.configKey → w'.slot j = w.slot j := fun j hj => by
    rw [hw, slot_setData_ne _ hj]
  have hse : w'.slot rt.configKey = (rt.programId, .config c') := by
    rw [hw, slot_setData_self, (configOf_eq_some.mp hc).1]
  have hkept : TokensKept rt w w' := tokensKept_of_blank hne (h.blank isPda_configKey)
      (blank_of_owner (hse ▸ rt.token_ne_program.symm))
  have hco : w'.configOf rt = some c' := configOf_eq_some.mpr ⟨hse, hi⟩
  refine ⟨⟨hkept.splSound h.sound, .inr ⟨c', ?_⟩, fun y => ?_, fun hn => ?_⟩, hco⟩
  · exact (h.deployed hc).rewrite hkept hco hs hca hpending
  · have hsl := hne _ (stakeKey_ne_configKey y)
    rcases h.stake y with hu | hsa
    · exact .inl (unallocated_congr hsl hu)
    · rw [← stakeOf_congr hsl] at hsa
      exact .inr hsa
  · rw [hco] at hn
    contradiction

theorem WellFormed.elsewhere (h : WellFormed rt w) (hk : ¬ rt.IsPda k)
    (hn : ∀ j, j ≠ k → w'.slot j = w.slot j) (hb : w.Blank rt k)
    (hb' : w'.Blank rt k) : WellFormed rt w' := by
  have hpd : ∀ j, rt.IsPda j → w'.slot j = w.slot j := fun j hj =>
    hn j fun hjk => hk (hjk ▸ hj)
  have hkept : TokensKept rt w w' := tokensKept_of_blank hn hb hb'
  refine h.frame (hkept.splSound h.sound) hpd fun c hd => ?_
  exact hd.rewrite hkept ((configOf_congr (hpd _ isPda_configKey)).trans hd.config)
    (.refl c) hd.caps hd.pendingCaps

/-! ## Other transactions -/

theorem Environment.pda_kept (h : Environment rt w w') (hk : rt.IsPda k) : w'.slot k = w.slot k :=
  Prod.ext (h.pda_owner k hk) (h.pda_data k hk)

theorem Deployed.environment (h : Deployed rt w c) (he : Environment rt w w') :
    Deployed rt w' c where
  config := (configOf_congr (he.pda_kept isPda_configKey)).trans h.config
  bump := h.bump
  vault := by
    obtain ⟨t, ht, hm, ho⟩ := h.vault
    obtain ⟨t', ht', hm', ho', -⟩ := he.held _ t ht ho
    exact ⟨t', ht', hm'.trans hm, ho'.trans ho⟩
  mint := by
    obtain ⟨m, hm, ha, hf, hle⟩ := h.mint
    obtain ⟨m', hm', ha', hf', hl'⟩ := he.minting _ m hm ha
    exact ⟨m', hm', ha'.trans ha, hf' hf, hl'.trans hle⟩
  thawed k t ht hm := by
    by_contra hfro
    obtain ⟨m, hmi, -, hf, -⟩ := h.mint
    obtain ⟨t0, ht0, hm0, hfr⟩ := he.thawed k t ht (by simpa using hfro) m (hm ▸ hmi) hf
    rw [h.thawed k t0 ht0 (hm0.trans hm)] at hfr
    contradiction
  caps := h.caps
  pendingCaps := h.pendingCaps

theorem WellFormed.environment (h : WellFormed rt w) (he : Environment rt w w') :
    WellFormed rt w' :=
  h.frame (he.sound h.sound) (fun _ hk => he.pda_kept hk) fun _ hd => hd.environment he

end

end SniperBot.Staking
