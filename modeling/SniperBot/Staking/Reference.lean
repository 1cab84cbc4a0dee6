import SniperBot.Staking.Client
import SniperBot.Staking.Refinement

/-!
# A reference runtime

The promises of `Runtime` can be kept together: the invoked programs as executable functions over
any address book. `Key` is an address book whose derived addresses are formal terms, so different
seeds give different addresses.
-/

namespace SniperBot.Staking.Reference

open Lib.MachineInt Lib.Guard Lib.Runs

variable {Pubkey : Type} [DecidableEq Pubkey]

def accountFrozen : ProgramError := .custom 17
def mintMismatch : ProgramError := .custom 3
def ownerMismatch : ProgramError := .custom 4
def overflow : ProgramError := .custom 14

variable (ids : Addresses Pubkey) (w : World Pubkey) (p : Privileges Pubkey) (payer target : Pubkey) {ix : Instruction Key}

def createAccount (lamports space : Nat) (owner : Pubkey) : Except ProgramError (World Pubkey) := do
  ensure (p.signs payer = true ∧ p.signs target = true) .missingRequiredSignature
  ensure (payer ≠ target) .invalidArgument
  ensure ((w.accounts target).lamports = 0 ∧ (w.accounts target).data = .empty ∧
    (w.accounts target).owner = ids.systemProgramId) (.custom 0)
  ensure (lamports ≤ (w.accounts payer).lamports) (.custom 1)
  return w.allocate payer target lamports space owner

def initializeMint2 (_ : Privileges Pubkey)
    (mint authority : Pubkey) (freeze : Option Pubkey) (decimals : UInt8) :
    Except ProgramError (World Pubkey) := do
  ensure ((w.accounts mint).owner = ids.tokenProgramId) .invalidArgument
  ensure ((w.accounts mint).data = .zeroed mintLen) (.custom 6)
  return w.setData mint (.mint ⟨some authority, 0, decimals, freeze⟩)

def createAssociatedTokenAccountIdempotent (payer wallet mint : Pubkey) : Except ProgramError (World Pubkey) :=
  match w.tokenAt ids (ids.associatedTokenAddress wallet mint) with
  | some t => do
    ensure (t.mint = mint ∧ t.owner = wallet) .invalidArgument
    return w
  | none => do
    ensure (p.signs payer = true) .missingRequiredSignature
    ensure (payer ≠ ids.associatedTokenAddress wallet mint ∧
      (w.accounts (ids.associatedTokenAddress wallet mint)).data = .empty) .invalidArgument
    return w.install payer (ids.associatedTokenAddress wallet mint) 0 ids.tokenProgramId
      (.token ⟨mint, wallet, 0, false⟩)

def tokenTransfer (source destination authority : Pubkey) (n : UInt64) : Except ProgramError (World Pubkey) := do
  let s ← okOr (w.tokenAt ids source) .invalidArgument
  let d ← okOr (w.tokenAt ids destination) .invalidArgument
  ensure (s.frozen = false ∧ d.frozen = false) accountFrozen
  ensure (n.toNat ≤ s.amount.toNat) insufficientFunds
  ensure (s.mint = d.mint) mintMismatch
  ensure (authority = s.owner) ownerMismatch
  ensure (p.signs authority = true) .missingRequiredSignature
  ensure (p.writes source = true ∧ p.writes destination = true) .readonlyDataModified
  ensure (source = destination ∨ d.amount.toNat + n.toNat ≤ U64.maxNat) overflow
  return w.moveTokens source destination s d n

def mintTo (mint destination authority : Pubkey) (n : UInt64) : Except ProgramError (World Pubkey) := do
  let d ← okOr (w.tokenAt ids destination) .invalidArgument
  ensure (d.frozen = false) accountFrozen
  ensure (d.mint = mint) mintMismatch
  let x ← okOr (w.mintAt ids mint) .invalidArgument
  ensure (x.mintAuthority = some authority) ownerMismatch
  ensure (p.signs authority = true) .missingRequiredSignature
  ensure (p.writes mint = true ∧ p.writes destination = true) .readonlyDataModified
  ensure (x.supply.toNat + n.toNat ≤ U64.maxNat) overflow
  ensure (d.amount.toNat + n.toNat ≤ U64.maxNat) overflow
  return w.mintTokens mint destination x d n

def createMetadataAccountsV3 (metadata _mint payer : Pubkey) (data : List UInt8) : Except ProgramError (World Pubkey) := do
  ensure (p.signs payer = true) .missingRequiredSignature
  ensure (payer ≠ metadata ∧ (w.accounts metadata).data = .empty) .invalidArgument
  return w.install payer metadata 0 ids.metadataProgramId (.other data)

private theorem return_eq_ok {α : Type} {a b : α} :
    (pure a : Except ProgramError α) = .ok b ↔ b = a :=
  ⟨fun h => (Except.ok.inj h).symm, fun h => h ▸ rfl⟩

/-- The functions above keep every promise of `Runtime`. -/
def runtime : Runtime Pubkey where
  toAddresses := ids
  minimumBalance len := 128 + len
  createAccount := createAccount ids
  initializeMint2 := initializeMint2 ids
  createAssociatedTokenAccountIdempotent := createAssociatedTokenAccountIdempotent ids
  tokenTransfer := tokenTransfer ids
  mintTo := mintTo ids
  createMetadataAccountsV3 := createMetadataAccountsV3 ids
  createAccount_ok h := by
    simp only [createAccount, bind_eq_ok, ensure_eq_ok, exists_const, return_eq_ok] at h
    obtain ⟨⟨h1, h2⟩, h3, ⟨h4, h5, h6⟩, -, h7⟩ := h
    exact ⟨h1, h2, h3, h4, h5, h6, h7⟩
  initializeMint2_ok h := by
    simpa only [initializeMint2, bind_eq_ok, ensure_eq_ok, exists_const, return_eq_ok] using h
  createAta_ok {w w' p payer wallet mint} h := by
    unfold createAssociatedTokenAccountIdempotent at h
    split at h
    · next t ht =>
      simp only [bind_eq_ok, ensure_eq_ok, exists_const, return_eq_ok] at h
      exact .inl ⟨t, ht, h.1.1, h.1.2, h.2⟩
    · simp only [bind_eq_ok, ensure_eq_ok, exists_const, return_eq_ok] at h
      exact .inr ⟨0, h.1, h.2.1.1, h.2.1.2, h.2.2⟩
  tokenTransfer_ok h := by
    simp only [tokenTransfer, bind_eq_ok, ensure_eq_ok, okOr_eq_ok, exists_const, return_eq_ok] at h
    obtain ⟨s, hs, d, hd, -, hn, hm, -, -, -, hsu, hw⟩ := h
    exact ⟨s, d, hs, hd, hm, hn, fun hne => hsu.resolve_left hne, hw⟩
  tokenTransfer_succeeds hs hd hm hfs hfd hsi hws hwd hn hsu := by
    simp only [tokenTransfer, bind_eq_ok, ensure_eq_ok, okOr_eq_ok, exists_const, return_eq_ok]
    exact ⟨_, _, hs, _, hd, ⟨hfs, hfd⟩, hn, hm, rfl, hsi, ⟨hws, hwd⟩, .inr hsu, rfl⟩
  tokenTransfer_insufficient {w p source destination s n} hs h := by
    -- every other guard fails with a code of its own
    simp only [tokenTransfer, bind_eq_error, ensure_eq_error, ensure_eq_ok, okOr_eq_error,
      okOr_eq_ok, exists_const, hs, pure_ne_error, insufficientFunds, accountFrozen, mintMismatch,
      ownerMismatch, overflow, reduceCtorEq, ProgramError.custom.injEq, Nat.reduceEqDiff,
      and_false, false_or, or_false, and_true] at h
    obtain ⟨a, ha, d, -, -, hn⟩ := h
    obtain rfl := Option.some.inj ha
    omega
  mintTo_ok h := by
    simp only [mintTo, bind_eq_ok, ensure_eq_ok, okOr_eq_ok, exists_const, return_eq_ok] at h
    obtain ⟨d, hd, -, hm, x, hx, -, -, -, hsup, hsu, hw⟩ := h
    exact ⟨x, d, hx, hd, hm, hsup, hsu, hw⟩
  mintTo_succeeds hx hd hm hf ha hsi hwm hwd hsup hsu := by
    simp only [mintTo, bind_eq_ok, ensure_eq_ok, okOr_eq_ok, exists_const, return_eq_ok]
    exact ⟨_, _, hd, hf, hm, _, hx, ha, hsi, ⟨hwm, hwd⟩, hsup, hsu, rfl⟩
  createMetadata_ok {w w' p metadata mint payer data} h := by
    simp only [createMetadataAccountsV3, bind_eq_ok, ensure_eq_ok, exists_const, return_eq_ok] at h
    exact ⟨h.1, h.2.1.1, h.2.1.2, 0, data, h.2.2⟩

/-! ## Formal addresses -/

inductive Key where
  | system
  | program
  | tokenProgram
  | assocProgram
  | metadataProgram
  | clock
  | rent
  | config
  | stake (owner : Key)
  | metadata (mint : Key)
  | ata (wallet mint : Key)
  | user (n : Nat)
  deriving DecidableEq

/-- The system program's address is the all-zero key. -/
instance : Inhabited Key := ⟨.system⟩

def keys : Addresses Key where
  programId := .program
  tokenProgramId := .tokenProgram
  assocProgramId := .assocProgram
  systemProgramId := .system
  metadataProgramId := .metadataProgram
  clockId := .clock
  rentId := .rent
  configPda := (.config, 255)
  stakePda x := (.stake x, 255)
  metadataPda m := (.metadata m, 255)
  associatedTokenAddress := .ata
  configAddress bump := if bump = 255 then some .config else none
  stakeAddress x bump := if bump = 255 then some (.stake x) else none
  token_ne_program := by decide
  system_ne_program := by decide
  system_ne_token := by decide
  metadata_ne_program := by decide
  metadata_ne_token := by decide
  configAddress_bump := rfl
  stakeAddress_bump _ := rfl
  stakePda_injective _ _ h := Key.stake.inj h
  stakePda_ne_configPda _ := by simp
  ata_ne_configPda _ _ := by simp
  ata_ne_stakePda _ _ _ := by simp
  metadataPda_ne_configPda _ := by simp
  metadataPda_ne_stakePda _ _ := by simp

def chain : Runtime Key := runtime keys

def genesis (now : Int64) : World Key where
  accounts
    | .user n => { lamports := if n = 0 then 1000000 else 0, owner := .system, data := .empty }
    | _ => { lamports := 0, owner := .system, data := .empty }
  clock := now

theorem genesis_slot (now : Int64) (k : Key) : (genesis now).slot k = (.system, .empty) := by
  cases k <;> rfl

theorem fresh_genesis (now : Int64) : Fresh keys (genesis now) where
  unused k _ := by
    rw [genesis_slot]
    exact ⟨by decide, rfl⟩
  sound := by
    have hbl : ∀ k, (genesis now).Blank keys k := fun k =>
      World.blank_of_data (.inl (congrArg Prod.snd (genesis_slot now k)))
    refine ⟨fun m S => ?_, fun k t ht => ?_⟩
    · have hz : ∑ k ∈ S, (genesis now).balanceOf keys m k = 0 :=
        Finset.sum_eq_zero fun k _ => by simp [World.balanceOf, (hbl k).1]
      omega
    · rw [(hbl k).1] at ht
      contradiction

/-! ## A short history: deploy, distribute, stake -/

def admin : Key := .user 0
def mint : Key := .user 1

def adminToken : Key := .ata admin mint

def vault : Key := .ata .config mint

def run (w : World Key) (ix : Instruction Key) : World Key :=
  match processInstruction chain w ix.accounts ix.data with
  | .ok w' => w'
  | .error _ => w

def succeeds (w : World Key) (ix : Instruction Key) : Bool :=
  match processInstruction chain w ix.accounts ix.data with
  | .ok _ => true
  | .error _ => false

def initializeIx (feeBps : UInt16) (rewardRateBps minStake : UInt64) (unstakeDelay : Int64)
    (timelockSecs : Int64) (maxSupply : UInt64) : Instruction Key where
  accounts := [.new admin true, .new .config false, .new mint true, .new vault false,
      .new adminToken false, .newReadonly admin false, .newReadonly .tokenProgram false,
      .newReadonly .assocProgram false, .newReadonly .system false, .newReadonly .rent false]
  data := .initializeConfig feeBps rewardRateBps minStake unstakeDelay 6 timelockSecs maxSupply

theorem run_of_succeeds {w : World Key} (h : succeeds w ix = true) :
    processInstruction chain w ix.accounts ix.data = .ok (run w ix) := by
  unfold succeeds at h
  unfold run
  split at h
  · next w' hw => rw [hw]
  · contradiction

def isPda : Key → Bool
  | .config => true
  | .stake _ => true
  | _ => false

theorem isPda_of_pda {k : Key} (h : keys.IsPda k) : isPda k = true := by
  rcases h with rfl | ⟨x, rfl⟩ <;> rfl

def noPdaSigns (ix : Instruction Key) : Bool :=
  ix.accounts.all fun a => !(a.isSigner && isPda a.key)

theorem admitted_of_noPdaSigns (h : noPdaSigns ix = true) : Admitted keys ix.accounts := by
  rintro x ⟨a, ha, rfl, hsi⟩ hpd
  have hal := List.all_eq_true.mp h a ha
  rw [hsi, isPda_of_pda hpd] at hal
  contradiction

def entry (w : World Key) (ix : Instruction Key) : Entry (World Key) (Action Key) :=
  ⟨w, .execute ix.accounts ix.data, run w ix⟩

theorem step_run (w : World Key) (ix : Instruction Key) (ha : noPdaSigns ix = true)
    (h : succeeds w ix = true) : Step chain w (.execute ix.accounts ix.data) (run w ix) :=
  .execute (admitted_of_noPdaSigns ha) (run_of_succeeds h)

variable (now unstakeDelay timelockSecs : Int64)

def deployed : World Key :=
  run (genesis now) (initializeIx 100 1000 0 unstakeDelay timelockSecs 1000000)

def distributed : World Key :=
  run (deployed now unstakeDelay timelockSecs) (genesisMintIx keys admin mint adminToken 5000)

def staked : World Key := run (distributed now unstakeDelay timelockSecs)
    (stakeIx keys admin adminToken vault adminToken 1000)

def firstDeposit : List (Entry (World Key) (Action Key)) :=
  [entry (genesis now) (initializeIx 100 1000 0 unstakeDelay timelockSecs 1000000),
    entry (deployed now unstakeDelay timelockSecs) (genesisMintIx keys admin mint adminToken 5000),
    entry (distributed now unstakeDelay timelockSecs)
      (stakeIx keys admin adminToken vault adminToken 1000)]

theorem run_deployed {now unstakeDelay timelockSecs : Int64}
    (h : succeeds (genesis now) (initializeIx 100 1000 0 unstakeDelay timelockSecs 1000000) = true) :
    Run (Step chain) (genesis now)
    [entry (genesis now) (initializeIx 100 1000 0 unstakeDelay timelockSecs 1000000)]
    (deployed now unstakeDelay timelockSecs) :=
  Run.single (step_run _ _ rfl h)

theorem run_firstDeposit {now unstakeDelay timelockSecs : Int64}
    (h1 : succeeds (genesis now) (initializeIx 100 1000 0 unstakeDelay timelockSecs 1000000) = true)
    (h2 : succeeds (deployed now unstakeDelay timelockSecs)
    (genesisMintIx keys admin mint adminToken 5000) = true)
    (h3 : succeeds (distributed now unstakeDelay timelockSecs)
    (stakeIx keys admin adminToken vault adminToken 1000) = true) :
    Run (Step chain) (genesis now) (firstDeposit now unstakeDelay timelockSecs)
    (staked now unstakeDelay timelockSecs) :=
  ((run_deployed h1).snoc (step_run _ _ rfl h2)).snoc (step_run _ _ rfl h3)

end SniperBot.Staking.Reference
