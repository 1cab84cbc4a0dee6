import SniperBot.Staking.Reference

/-!
# Lamports sent to an address before its account exists

The first `Stake` of a wallet creates the account of its position, and the system
program creates an account only at an address that holds nothing. The address can
be computed by anybody, and anybody can send lamports to it.
-/

namespace SniperBot.Staking

open Lib.Runs World

variable {Pubkey : Type} [DecidableEq Pubkey]

section

variable {rt : Runtime Pubkey} {w w' : World Pubkey} {k source target y : Pubkey}

theorem lamports_setData (d : AccountData Pubkey) (j : Pubkey) :
    ((w.setData k d).accounts j).lamports = (w.accounts j).lamports := by
  unfold setData setAccount
  by_cases h : j = k
  · subst h
    simp
  · simp [h]

theorem lamports_tokenTransfer {p : Privileges Pubkey} {authority : Pubkey} {n : UInt64}
    (h : rt.tokenTransfer w p source target authority n = .ok w') (j : Pubkey) :
    (w'.accounts j).lamports = (w.accounts j).lamports := by
  obtain ⟨s, d, -, -, -, -, -, rfl⟩ := rt.tokenTransfer_ok h
  unfold moveTokens setToken
  split
  · rfl
  · rw [lamports_setData, lamports_setData]

theorem lamports_moveLamports (n : Nat) :
    ((w.moveLamports y k n).accounts k).lamports = (w.accounts k).lamports + n := by
  simp [moveLamports, setLamports, setAccount]

theorem moveLamports_zero : w.moveLamports y k 0 = w := by
  simp [moveLamports, setLamports, setAccount]

theorem environment_moveLamports (w : World Pubkey) (y k : Pubkey) (n : Nat) :
    Environment rt w (w.moveLamports y k n) :=
  environment_of_slots (fun _ => slot_moveLamports n) (le_refl _)

end

variable [Inhabited Pubkey] {rt : Runtime Pubkey} {w w' : World Pubkey}
  {accounts : List (AccountMeta Pubkey)} {amount : UInt64} {x y : Pubkey} {n : Nat}

def TakesDeposit (rt : Runtime Pubkey) (w : World Pubkey) (accounts : List (AccountMeta Pubkey))
    (amount : UInt64) : Prop :=
  ∃ w', processInstruction rt w accounts (.stake amount) = .ok w'

theorem TakesDeposit.unfunded (h : TakesDeposit rt w accounts amount) (hw : WellFormed rt w)
    (hx : leader accounts = some x) (hn : w.stakeOf rt x = none) :
    (w.accounts (rt.stakeKey x)).lamports = 0 := by
  obtain ⟨w', hok⟩ := h
  obtain ⟨x', token, c, net, sa, hd⟩ := processStake_ok hok
  obtain rfl : x' = x := Option.some.inj (hd.led.leader.symm.trans hx)
  obtain ⟨w1, w2, w3, bump, total, ht1, ht2, hpos, -, -⟩ := hd.effect
  -- the two payments touch neither the address nor its lamports
  have hw1 := hw.transferred (transferred ht1)
  have hsl := hw.pda_kept (transferred ht1).call (isPda_stakeKey x')
  obtain ⟨hslo, hl⟩ : w2.slot (rt.stakeKey x') = w.slot (rt.stakeKey x') ∧
      (w2.accounts (rt.stakeKey x')).lamports = (w.accounts (rt.stakeKey x')).lamports := by
    rcases ht2 with ⟨-, rfl⟩ | ⟨-, ht2⟩
    · exact ⟨hsl, lamports_tokenTransfer ht1 _⟩
    · constructor
      · rw [hw1.pda_kept (transferred ht2).call (isPda_stakeKey x'), hsl]
      · rw [lamports_tokenTransfer ht2, lamports_tokenTransfer ht1]
  cases hpos with
  | loaded ho hda how =>
    rw [hslo] at ho hda
    rw [hw.stakeOf_of_decoded ho hda] at hn
    contradiction
  | created hc =>
    obtain ⟨-, -, -, hz, -⟩ := rt.createAccount_ok hc
    rw [← hl, hz]

theorem takesDeposit_moveLamports (hw : WellFormed rt w) (hx : leader accounts = some x)
    (hne : w.stakeOf rt x = none) :
    TakesDeposit rt (w.moveLamports y (rt.stakeKey x) n) accounts amount ↔
    TakesDeposit rt w accounts amount ∧ n = 0 := by
  constructor
  · intro h
    have he : Environment rt w _ := environment_moveLamports w y (rt.stakeKey x) n
    have hn' : (w.moveLamports y (rt.stakeKey x) n).stakeOf rt x = none :=
      (stakeOf_congr (slot_moveLamports n)).trans hne
    have hz := h.unfunded (hw.environment he) hx hn'
    rw [lamports_moveLamports] at hz
    obtain rfl : n = 0 := by omega
    rw [moveLamports_zero] at h
    exact ⟨h, rfl⟩
  · intro ⟨h, hn⟩
    rwa [hn, moveLamports_zero]

/-- In every reachable state, whoever transfers to the address of a position that does
not exist yet leaves the fate of the owner's next deposit alone exactly if nothing is
transferred, or the program refuses the deposit anyway. -/
theorem deposit_unaffected_iff (h : ReachableWorld rt w) (hx : leader accounts = some x)
    (hnew : w.stakeOf rt.toAddresses x = none) :
    (TakesDeposit rt (w.moveLamports y (rt.stakeKey x) n) accounts amount ↔
        TakesDeposit rt w accounts amount) ↔
      (TakesDeposit rt w accounts amount → n = 0) := by
  rw [takesDeposit_moveLamports h.wellFormed hx hnew]
  tauto

/-! ## One lamport blocks a wallet -/

namespace Reference

def funded : World Key := (distributed 1 10 0).moveLamports admin (.user 7) 10

theorem reachable_funded : ReachableWorld chain funded := by
  have hd : Run (Step chain) (genesis 1) _ (deployed 1 10 0) := run_deployed (by decide +kernel)
  have hm : Step chain (deployed 1 10 0) _ (distributed 1 10 0) :=
    step_run _ (genesisMintIx keys admin mint adminToken 5000) rfl (by decide +kernel)
  have hmo : Step chain (distributed 1 10 0) .environment funded :=
    .environment (environment_moveLamports _ _ _ _)
  exact ⟨_, _, fresh_genesis 1, (hd.snoc hm).snoc hmo⟩

def firstStake : Instruction Key := stakeIx keys admin adminToken vault adminToken 1000

theorem takesDeposit_iff (w : World Key) :
    TakesDeposit chain w firstStake.accounts 1000 ↔ succeeds w firstStake = true := by
  show (∃ w', processInstruction chain w firstStake.accounts firstStake.data = .ok w') ↔ _
  unfold succeeds
  split
  · next w' h => simp [h]
  · next e h => simp [h]

end Reference

open Reference in
theorem deposit_unaffected_iff_nothing :
    ReachableWorld chain funded ∧ leader firstStake.accounts = some admin ∧
      funded.stakeOf keys admin = none ∧ TakesDeposit chain funded firstStake.accounts 1000 ∧
      (TakesDeposit chain (funded.moveLamports (.user 7) (keys.stakeKey admin) 0)
        firstStake.accounts 1000 ↔ TakesDeposit chain funded firstStake.accounts 1000) :=
  ⟨reachable_funded, rfl, by decide +kernel, (takesDeposit_iff _).mpr (by decide +kernel),
    (deposit_unaffected_iff reachable_funded rfl (by decide +kernel)).mpr fun _ => rfl⟩

open Reference in
/-- A deposit that goes through is refused once a stranger has sent one lamport. -/
theorem deposit_blocked_by_lamport :
    ReachableWorld chain funded ∧ funded.stakeOf keys admin = none ∧
      1 ≤ (funded.accounts (.user 7)).lamports ∧
      Environment keys funded (funded.moveLamports (.user 7) (keys.stakeKey admin) 1) ∧
      TakesDeposit chain funded firstStake.accounts 1000 ∧
      ¬ TakesDeposit chain (funded.moveLamports (.user 7) (keys.stakeKey admin) 1)
        firstStake.accounts 1000 := by
  have he : Environment chain.toAddresses funded _ :=
    environment_moveLamports funded (.user 7) (keys.stakeKey admin) 1
  refine ⟨reachable_funded, by decide +kernel, by decide +kernel, he, ?_, ?_⟩
  · exact (takesDeposit_iff _).mpr (by decide +kernel)
  · exact fun h => absurd ((takesDeposit_iff _).mp h) (by decide +kernel)

end SniperBot.Staking
