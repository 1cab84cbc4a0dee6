import SniperBot.Staking.Reference

/-!
# Solvency of the vault and integrity of principals

What every run keeps, read off the custodian the program refines: the vault covers all positions
together, a position moves only when its owner signs, and a withdrawal pays what its owner
deposited since the last one, net of fees.
-/

namespace SniperBot.Staking

open Lib.MachineInt Lib.Guard Lib.Runs Lib.Totals
open Lib (Custody.Solvent Custody.solvent_run Custody.share_run Custody.share_withdraw)

variable {Pubkey : Type} [DecidableEq Pubkey] [Inhabited Pubkey] {rt : Runtime Pubkey}
  {w w' : World Pubkey}

omit [Inhabited Pubkey] in
theorem Fresh.pool (h : Fresh rt w) : poolOf rt w = ⟨0, fun _ => 0⟩ := by
  have hc := configOf_of_unallocated (h.unused _ isPda_configKey)
  have hst : ∀ x, w.stakeOf rt x = none := fun x =>
    stakeOf_of_unallocated (h.unused _ (isPda_stakeKey x))
  unfold poolOf
  congr 1
  · simp [vaultBalance, hc]
  · funext x
    simp [principal, hst]

theorem ReachableWorld.solvent (h : ReachableWorld rt w) : Custody.Solvent (poolOf rt w) := by
  obtain ⟨w0, tr, hf, hr⟩ := h
  refine Custody.solvent_run (pool_run hf.wellFormed hr) ?_
  rw [hf.pool]
  exact Covers.zero 0

variable {x : Pubkey}

theorem ReachableWorld.amount_le_vault (h : ReachableWorld rt w) {c : Config Pubkey}
    {sa : StakeAccount Pubkey} (hc : w.configOf rt = some c)
    (hsa : w.stakeOf rt x = some sa) :
    sa.amount.toNat ≤ w.balanceOf rt c.mint c.vault := by
  have hle := Covers.single_le h.solvent x
  rw [← principal_of_stakeOf hsa, ← vaultBalance_of_config hc]
  exact hle

/-- In every reachable state the vault covers the principals of any set of
stakers, and returning a principal never fails for lack of vault tokens. -/
theorem vault_covers_principals (h : ReachableWorld rt w) : (∀ S : Finset Pubkey,
      ∑ x ∈ S, principal rt.toAddresses w x ≤ vaultBalance rt.toAddresses w) ∧
    ∀ {c : Config Pubkey} {sa : StakeAccount Pubkey} {x : Pubkey},
      w.configOf rt.toAddresses = some c → w.stakeOf rt.toAddresses x = some sa →
      ∀ (accounts : List (AccountMeta Pubkey)) (vault token : AccountMeta Pubkey) (now : Int64),
        vault.key = c.vault →
        returnPrincipal rt w accounts c vault token sa now false ≠ .error insufficientFunds := by
  refine ⟨h.solvent, fun {c sa x} hc hsa accounts vault token now hv her => ?_⟩
  have hle := h.amount_le_vault hc hsa
  obtain ⟨v, hva, hvm, hvo⟩ := (h.wellFormed.deployed hc).vault
  rw [← hvm, World.balanceOf_of_tokenAt hva] at hle
  simp only [returnPrincipal, Bool.false_eq_true, if_false, bind_eq_error, ensure_eq_error,
    ensure_eq_ok, exists_const] at her
  rcases her with ⟨-, he⟩ | ⟨-, ⟨-, he⟩ | ⟨-, he⟩⟩
  · exact absurd he (by decide)
  · exact absurd he (by decide)
  · rw [hv, ← hvo] at he
    have hl := rt.tokenTransfer_insufficient hva he
    omega

section

open Reference

theorem reachable_staked : ReachableWorld chain (staked 1 10 0) := by
  refine ⟨_, _, fresh_genesis 1, run_firstDeposit ?_ ?_ ?_⟩
  all_goals decide +kernel

theorem vault_covers_principals_staked : principal keys (staked 1 10 0) admin = 990 ∧
      ∑ x ∈ {admin}, principal keys (staked 1 10 0) x ≤ vaultBalance keys (staked 1 10 0) ∧
      ∃ c sa, (staked 1 10 0).stakeOf keys admin = some sa ∧ sa.amount = 990 ∧
        returnPrincipal chain (staked 1 10 0) [] c (.new c.vault false) (.new adminToken false) sa 11
          false ≠ .error insufficientFunds := by
  obtain ⟨c, hc⟩ : ∃ c, (staked 1 10 0).configOf keys = some c :=
    Option.isSome_iff_exists.mp (by decide +kernel)
  obtain ⟨sa, hsa⟩ : ∃ sa, (staked 1 10 0).stakeOf keys admin = some sa :=
    Option.isSome_iff_exists.mp (by decide +kernel)
  have ha : ((staked 1 10 0).stakeOf keys admin).map StakeAccount.amount = some 990 := by
    decide +kernel
  rw [hsa] at ha
  refine ⟨by decide +kernel, (vault_covers_principals reachable_staked).1 {admin}, c, sa, hsa,
    Option.some.inj ha, ?_⟩
  exact (vault_covers_principals reachable_staked).2 hc hsa [] _ _ 11 rfl

end

/-! ## Histories of deposits -/

def IsUnstakeBy (x : Pubkey) (a : Action Pubkey) : Prop :=
  ∃ accounts, a = .execute accounts .unstake ∧ leader accounts = some x

/-- What a step credits to `x`: for a successful `Stake` by `x`, the amount less
the fee at the rate in force then, rounded down. -/
def netStake (ids : Addresses Pubkey) (x : Pubkey) (e : Entry (World Pubkey) (Action Pubkey)) :
    Nat :=
  match e.label with
  | .execute accounts (.stake amount) =>
    match e.pre.configOf ids with
    | some c =>
      if leader accounts = some x then
        amount.toNat - amount.toNat * c.feeBps.toNat / 10000
      else 0
    | none => 0
  | _ => 0

omit [Inhabited Pubkey] in
theorem deposited_eq_netStake (h : WellFormed rt w) (x : Pubkey) (a : Action Pubkey) :
    (entryEvent rt ⟨w, a, w'⟩).deposited x = netStake rt x ⟨w, a, w'⟩ := by
  cases a with
  | execute accounts ix =>
    cases ix with
    | stake amount =>
      simp only [entryEvent, custodyEvent, netStake]
      cases hc : w.configOf rt with
      | none => cases leader accounts <;> rfl
      | some c =>
        have hf := toNat_computeFee_of_cap amount (h.deployed hc).caps.fee
        cases hl : leader accounts with
        | none => rfl
        | some y =>
          simp only [Lib.Custody.Event.deposited, hf, Option.some.injEq]
    | unstake =>
      simp only [entryEvent, custodyEvent]
      cases leader accounts <;> rfl
    | _ => rfl
  | _ => rfl

omit [Inhabited Pubkey] in
theorem event_ne_withdraw {e : Entry (World Pubkey) (Action Pubkey)} (h : ¬ IsUnstakeBy x e.label) :
    entryEvent rt e ≠ .withdraw x := by
  intro he
  unfold entryEvent at he
  split at he
  · next accounts ix hla =>
    unfold custodyEvent at he
    split at he
    · split at he <;> contradiction
    · split at he
      · next y hl =>
        obtain rfl := Lib.Custody.Event.withdraw.inj he
        exact h ⟨accounts, hla, hl⟩
      · contradiction
    · contradiction
  · contradiction

theorem principal_run {tr : List (Entry (World Pubkey) (Action Pubkey))} (h : WellFormed rt w)
    (hr : Run (Step rt) w tr w') (hx : ∀ e ∈ tr, ¬ IsUnstakeBy x e.label) :
    principal rt w' x = principal rt w x + (tr.map (netStake rt x)).sum := by
  have hsh := Custody.share_run (x := x) (pool_run h hr) fun e he => by
    obtain ⟨e0, he0, rfl⟩ := List.mem_map.mp he
    exact event_ne_withdraw (hx e0 he0)
  rw [List.map_map] at hsh
  refine hsh.trans (congrArg (_ + ·) (congrArg List.sum (List.map_congr_left ?_)))
  intro e he
  obtain ⟨tr', hr', -⟩ := hr.mem_reached he
  exact deposited_eq_netStake (wellFormed_run h hr') x e.label

theorem unstake_step {accounts : List (AccountMeta Pubkey)} (h : WellFormed rt w)
    (hs : Step rt w (.execute accounts .unstake) w') (hx : leader accounts = some x) :
    principal rt w' x = 0 ∧ vaultBalance rt w' + principal rt w x = vaultBalance rt w := by
  have hst := pool_step h hs
  simp only [entryEvent, custodyEvent, hx] at hst
  exact Custody.share_withdraw hst

theorem position_kept {a : Action Pubkey} (h : WellFormed rt w) (hs : Step rt w a w')
    (hx : ∀ accounts ix, a = .execute accounts ix → ¬ Signed accounts x) :
    w'.slot (rt.stakeKey x) = w.slot (rt.stakeKey x) := by
  cases hs with
  | execute ha ho => exact (instruction_outcome h ha ho).untouched x (hx _ _ rfl)
  | reject => rfl
  | environment he => exact he.pda_kept (isPda_stakeKey x)

/-- A step that `x` does not sign leaves the account of `x` as it is, and an
`Unstake` by `x` moves out of the vault exactly what `x` staked, net of fees,
since their previous `Unstake` or since the start. -/
theorem principal_integrity (rt : Runtime Pubkey) (x : Pubkey) :
    (∀ {w w' : World Pubkey} {a : Action Pubkey}, ReachableWorld rt w → Step rt w a w' →
      (∀ accounts ix, a = .execute accounts ix → ¬ Signed accounts x) →
        w'.slot (rt.stakeKey x) = w.slot (rt.stakeKey x)) ∧
    ∀ {w0 w w' : World Pubkey} {before since : List (Entry (World Pubkey) (Action Pubkey))}
      {accounts : List (AccountMeta Pubkey)},
      Fresh rt.toAddresses w0 → Run (Step rt) w0 (before ++ since) w →
      (before = [] ∨ ∃ tr e, before = tr ++ [e] ∧ IsUnstakeBy x e.label) →
      (∀ e ∈ since, ¬ IsUnstakeBy x e.label) →
      Step rt w (.execute accounts .unstake) w' → leader accounts = some x →
        vaultBalance rt.toAddresses w' + (since.map (netStake rt.toAddresses x)).sum =
          vaultBalance rt.toAddresses w := by
  refine ⟨fun hw hs hx => position_kept hw.wellFormed hs hx, ?_⟩
  intro w0 w w' before since accounts hf hr hbe hsi hs hx
  obtain ⟨wm, hr0, hr1⟩ := hr.split
  have hwm := wellFormed_run hf.wellFormed hr0
  have hw := wellFormed_run hwm hr1
  -- right after the start and after a withdrawal nothing is recorded for `x`
  have hz : principal rt.toAddresses wm x = 0 := by
    rcases hbe with rfl | ⟨tr, e, rfl, acc, hl, hlea⟩
    · rw [hr0.nil_inv]
      exact congrArg (fun p => p.share x) hf.pool
    · obtain ⟨hre, hse, rfl⟩ := hr0.snoc_inv
      rw [hl] at hse
      exact (unstake_step (wellFormed_run hf.wellFormed hre) hse hlea).1
  have hsu := principal_run hwm hr1 hsi
  rw [hz, Nat.zero_add] at hsu
  rw [← hsu]
  exact (unstake_step hw hs hx).2

section

open Reference

theorem principal_integrity_first :
    vaultBalance keys (run (staked 1 0 0) (unstakeIx keys admin adminToken vault mint)) + 990 =
      vaultBalance keys (staked 1 0 0) := by
  have hr : Run (Step chain) (genesis 1) ([] ++ firstDeposit 1 0 0) (staked 1 0 0) :=
    run_firstDeposit (by decide +kernel) (by decide +kernel) (by decide +kernel)
  have hst := step_run (staked 1 0 0) (unstakeIx keys admin adminToken vault mint)
    (by decide +kernel) (by decide +kernel)
  refine (principal_integrity chain admin).2 (fresh_genesis 1) hr (.inl rfl) ?_ hst rfl
  intro e he
  simp only [firstDeposit, List.mem_cons, List.not_mem_nil, or_false] at he
  rcases he with rfl | rfl | rfl <;> exact fun ⟨_, hl, _⟩ => by cases hl

end

end SniperBot.Staking
