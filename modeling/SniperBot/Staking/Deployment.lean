import SniperBot.Staking.System

/-!
# Deploying the program

Initialisation creates a mint nobody holds tokens of yet, its vault and its
treasury, and last the configuration. The mint key signs, so it is none of the
program's own addresses, and its address was empty, so no token account of it
can have existed before.
-/

namespace SniperBot.Staking

open Lib.MachineInt Lib.Totals World

variable {Pubkey : Type} [DecidableEq Pubkey]

section

variable {ids : Addresses Pubkey} {w w' : World Pubkey} {k : Pubkey}

theorem splSound_newMint {x : Mint Pubkey} (hn : ∀ j, j ≠ k → w'.slot j = w.slot j)
    (hb : w.Blank ids k) (hx : w'.mintAt ids k = some x) (h : SplSound ids w) :
    SplSound ids w' := by
  have hto : ∀ j, w'.tokenAt ids j = w.tokenAt ids j := fun j => by
    by_cases hj : j = k
    · subst hj
      rw [hb.1, tokenAt_of_mintAt hx]
    · exact tokenAt_congr (hn j hj)
  have hh : ∀ j t, w.tokenAt ids j = some t → t.mint ≠ k := fun j t ht hk => by
    obtain ⟨y, hy⟩ := h.minted j t ht
    rw [hk, hb.2] at hy
    contradiction
  refine ⟨fun m S => ?_, fun j t ht => ?_⟩
  · by_cases hm : m = k
    · subst hm
      have hz : ∑ j ∈ S, w'.balanceOf ids m j = 0 := Finset.sum_eq_zero fun j _ => by
        unfold balanceOf
        rw [hto]
        cases ht : w.tokenAt ids j with
        | none => rfl
        | some t => exact if_neg (hh j t ht)
      omega
    · have hb := h.backed m S
      simpa only [balanceOf, supplyOf, hto, mintAt_congr (hn m hm)] using hb
  · rw [hto] at ht
    rw [mintAt_congr (hn _ (hh j t ht))]
    exact h.minted j t ht

theorem splSound_newToken {t : TokenAccount Pubkey} (hn : ∀ j, j ≠ k → w'.slot j = w.slot j)
    (hb : w.Blank ids k) (ht : w'.tokenAt ids k = some t) (h0 : t.amount = 0)
    (hm : ∃ x, w.mintAt ids t.mint = some x) (h : SplSound ids w) : SplSound ids w' := by
  have hmi : ∀ j, w'.mintAt ids j = w.mintAt ids j := fun j => by
    by_cases hj : j = k
    · subst hj
      rw [hb.2, mintAt_of_tokenAt ht]
    · exact mintAt_congr (hn j hj)
  refine ⟨fun m S => ?_, fun j s hs => ?_⟩
  · have hba : ∀ j, w'.balanceOf ids m j = w.balanceOf ids m j := fun j => by
      by_cases hj : j = k
      · subst hj
        simp [balanceOf, hb.1, ht, h0]
      · exact balanceOf_congr (hn j hj)
    simp only [hba, supplyOf, hmi]
    exact h.backed m S
  · rw [hmi]
    by_cases hj : j = k
    · subst hj
      obtain rfl := Option.some.inj (ht.symm.trans hs)
      exact hm
    · rw [tokenAt_congr (hn j hj)] at hs
      exact h.minted j s hs

end

variable {rt : Runtime Pubkey} {w0 w w' : World Pubkey} {p : Privileges Pubkey}
  {payer wallet mint : Pubkey} {m : Mint Pubkey}

/-- The chain `w`, reached from `w0`, with a mint whose accounts are all thawed. -/
structure NewMint (rt : Runtime Pubkey) (w0 w : World Pubkey) (mint : Pubkey)
    (m : Mint Pubkey) : Prop where
  clock : w.clock = w0.clock
  sound : SplSound rt.toAddresses w
  mintAt : w.mintAt rt.toAddresses mint = some m
  thawed : ∀ k t, w.tokenAt rt.toAddresses k = some t → t.mint = mint → t.frozen = false
  pdas : ∀ k, rt.IsPda k → w.slot k = w0.slot k

theorem newMint_created {freeze : Option Pubkey} {authority : Pubkey} {decimals : UInt8}
    {w1 w2 : World Pubkey} {lamports : Nat} (hs : SplSound rt w)
    (hmi : ¬ rt.IsPda mint)
    (h1 : rt.createAccount w p payer mint lamports mintLen rt.tokenProgramId = .ok w1)
    (h2 : rt.initializeMint2 w1 p mint authority freeze decimals = .ok w2) :
    NewMint rt w w2 mint ⟨some authority, 0, decimals, freeze⟩ := by
  obtain ⟨-, -, -, -, hem, -, rfl⟩ := rt.createAccount_ok h1
  obtain ⟨-, -, rfl⟩ := rt.initializeMint2_ok h2
  have hb : w.Blank rt mint := blank_of_data (.inl hem)
  have hn : ∀ j, j ≠ mint → ((w.allocate payer mint lamports mintLen rt.tokenProgramId).setData
      mint (.mint ⟨some authority, 0, decimals, freeze⟩)).slot j = w.slot j := fun j hj => by
    rw [slot_setData_ne _ hj, slot_allocate_ne _ _ hj]
  have ha : ((w.allocate payer mint lamports mintLen rt.tokenProgramId).setData mint
      (.mint ⟨some authority, 0, decimals, freeze⟩)).mintAt rt mint =
        some ⟨some authority, 0, decimals, freeze⟩ := by
    rw [mintAt_eq_some, slot_setData_self, slot_allocate_self]
  refine ⟨rfl, splSound_newMint hn hb ha hs, ha, fun k t ht hm => ?_,
    fun k hk => hn k fun he => hmi (he ▸ hk)⟩
  by_cases hk : k = mint
  · subst hk
    rw [tokenAt_of_mintAt ha] at ht
    contradiction
  · rw [tokenAt_congr (hn k hk)] at ht
    obtain ⟨y, hy⟩ := hs.minted k t ht
    rw [hm, hb.2] at hy
    contradiction

theorem ata_not_pda (wallet mint : Pubkey) :
    ¬ rt.IsPda (rt.associatedTokenAddress wallet mint) := by
  rintro (hk | ⟨x, hk⟩)
  · exact rt.ata_ne_configPda _ _ hk
  · exact rt.ata_ne_stakePda _ _ x hk

theorem NewMint.ata (h : NewMint rt w0 w mint m)
    (ha : rt.createAssociatedTokenAccountIdempotent w p payer wallet mint = .ok w') :
    NewMint rt w0 w' mint m ∧ (∃ t, w'.tokenAt rt (rt.associatedTokenAddress wallet mint) = some t ∧
      t.mint = mint ∧ t.owner = wallet) ∧
    ∀ k t, w.tokenAt rt k = some t → w'.tokenAt rt k = some t := by
  rcases rt.createAta_ok ha with ⟨t, ht, hm, ho, rfl⟩ | ⟨lamports, -, -, hem, rfl⟩
  · exact ⟨h, ⟨t, ht, hm, ho⟩, fun _ _ hk => hk⟩
  generalize hk : rt.associatedTokenAddress wallet mint = ata at hem ⊢
  have hb : w.Blank rt ata := blank_of_data (.inl hem)
  have hn : ∀ j, j ≠ ata → (w.install payer ata lamports rt.tokenProgramId
      (.token ⟨mint, wallet, 0, false⟩)).slot j = w.slot j := fun j hj =>
    slot_install_ne _ _ hj
  have hat : (w.install payer ata lamports rt.tokenProgramId
      (.token ⟨mint, wallet, 0, false⟩)).tokenAt rt ata = some ⟨mint, wallet, 0, false⟩ := by
    rw [tokenAt_eq_some, slot_install_self]
  have hmn : mint ≠ ata := by
    rintro rfl
    have hat := h.mintAt
    rw [hb.2] at hat
    contradiction
  refine ⟨⟨h.clock, ?_, ?_, fun k t ht hm => ?_, fun k hkp => ?_⟩, ⟨_, hat, rfl, rfl⟩,
    fun k t ht => ?_⟩
  · exact splSound_newToken hn hb hat rfl ⟨m, h.mintAt⟩ h.sound
  · rw [mintAt_congr (hn _ hmn)]
    exact h.mintAt
  · by_cases hka : k = ata
    · subst hka
      obtain rfl := Option.some.inj (hat.symm.trans ht)
      rfl
    · rw [tokenAt_congr (hn k hka)] at ht
      exact h.thawed k t ht hm
  · rw [hn k fun he => ata_not_pda wallet mint (hk ▸ he ▸ hkp)]
    exact h.pdas k hkp
  · have hka : k ≠ ata := by
      rintro rfl
      rw [hb.1] at ht
      contradiction
    rw [tokenAt_congr (hn k hka)]
    exact ht

theorem WellFormed.deploy [Inhabited Pubkey] {accounts : List (AccountMeta Pubkey)}
    {c : Config Pubkey} (h : WellFormed rt w) (ha : Admitted rt accounts)
    (hi : InitializeOk rt w w' accounts payer mint wallet c) (hin : c.initialized = true)
    (hbu : c.configBump = rt.configPda.2) (hm : c.mint = mint)
    (hv : c.vault = rt.associatedTokenAddress rt.configKey mint)
    (hpending : c.pending.active = false) :
    WellFormed rt w' ∧ w.configOf rt = none ∧ w'.configOf rt = some c ∧ w'.clock = w.clock ∧
    ∀ y, w'.slot (rt.stakeKey y) = w.slot (rt.stakeKey y) := by
  obtain ⟨w1, w2, w3, w4, w5, h1, h2, h3, h4, h5, rfl⟩ := hi.effect
  have hn2 := newMint_created h.sound (ha mint hi.signed) h1 h2
  obtain ⟨hn3, ⟨v, hva, hvm, hvo⟩, -⟩ := hn2.ata h3
  obtain ⟨hn4, -, hk⟩ := hn3.ata h4
  obtain ⟨-, -, -, -, he, hsy, rfl⟩ := rt.createAccount_ok h5
  generalize hw' : (w4.allocate payer rt.configKey (rt.minimumBalance configLen) configLen
    rt.programId).setData rt.configKey (.config c) = w'
  have hne : ∀ j, j ≠ rt.configKey → w'.slot j = w4.slot j := fun j hj => by
    rw [← hw', slot_setData_ne _ hj, slot_allocate_ne _ _ hj]
  have hse : w'.slot rt.configKey = (rt.programId, .config c) := by
    rw [← hw', slot_setData_self, slot_allocate_self]
  have hkept : TokensKept rt w4 w' := tokensKept_of_blank hne (blank_of_data (.inl he))
      (blank_of_owner (hse ▸ rt.token_ne_program.symm))
  have hc := configOf_eq_some.mpr ⟨hse, hin⟩
  have hn : w.configOf rt = none := by
    rw [← configOf_congr (hn4.pdas _ isPda_configKey)]
    exact if_neg fun ho => rt.system_ne_program (hsy.symm.trans ho)
  have hsl : ∀ y, w'.slot (rt.stakeKey y) = w.slot (rt.stakeKey y) := fun y => by
    rw [hne _ (stakeKey_ne_configKey y), hn4.pdas _ (isPda_stakeKey y)]
  have hd : Deployed rt w' c := by
    refine ⟨hc, hbu, ⟨v, ?_, hvm.trans hm.symm, hvo⟩,
      ⟨⟨some rt.configKey, 0, c.decimals, none⟩, ?_, rfl, rfl, Nat.zero_le _⟩,
      fun k t ht htm => ?_, hi.caps, fun hf => ?_⟩
    · rw [hv, (hkept _).1]
      exact hk _ _ hva
    · rw [hm, (hkept _).2]
      exact hn4.mintAt
    · rw [(hkept k).1] at ht
      exact hn4.thawed k t ht (htm.trans hm)
    · rw [hpending] at hf
      contradiction
  refine ⟨⟨hkept.splSound hn4.sound, .inr ⟨c, hd⟩, fun y => .inl ?_, fun hf => ?_⟩, hn, hc, ?_, hsl⟩
  · -- before the deployment no position can have existed
    rcases h.stake y with hu | ⟨sa, hsa, -⟩
    · exact unallocated_congr (hsl y) hu
    · rw [h.undeployed hn y] at hsa
      contradiction
  · rw [hc] at hf
    contradiction
  · rw [← hw']
    exact hn4.clock

end SniperBot.Staking
