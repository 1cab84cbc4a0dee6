import Mathlib.Algebra.BigOperators.Group.Finset.Basic
import SniperBot.Staking.Instruction

/-!
# Accounts, invoked programs and the rest of the chain

The staking program calls the system, token, associated-token and metadata programs, none of which
is part of this repository. They enter as a structure: the functions the handlers call, and what
their documentation promises. `Environment` says what transactions that do not go through the
staking program may do meanwhile.
-/

namespace SniperBot.Staking

open Lib.MachineInt

structure Mint (Pubkey : Type) where
  mintAuthority : Option Pubkey
  supply : UInt64
  decimals : UInt8
  freezeAuthority : Option Pubkey
  deriving DecidableEq

structure TokenAccount (Pubkey : Type) where
  mint : Pubkey
  owner : Pubkey
  amount : UInt64
  frozen : Bool
  deriving DecidableEq

/-- What an account's bytes decode to. `zeroed` is space the system program has
just allocated; `other` is data none of the modelled programs reads. -/
inductive AccountData (Pubkey : Type) where
  | empty
  | zeroed (len : Nat)
  | config (c : Config Pubkey)
  | stake (sa : StakeAccount Pubkey)
  | mint (m : Mint Pubkey)
  | token (t : TokenAccount Pubkey)
  | other (bytes : List UInt8)
  deriving DecidableEq

def configLen : Nat := 251
def stakeLen : Nat := 65
def mintLen : Nat := 82
def tokenLen : Nat := 165

def AccountData.dataLen {Pubkey : Type} : AccountData Pubkey → Nat
  | .empty => 0
  | .zeroed len => len
  | .config _ => configLen
  | .stake _ => stakeLen
  | .mint _ => mintLen
  | .token _ => tokenLen
  | .other bytes => bytes.length

structure Account (Pubkey : Type) where
  lamports : Nat
  owner : Pubkey
  data : AccountData Pubkey

structure World (Pubkey : Type) where
  accounts : Pubkey → Account Pubkey
  clock : Int64

/-- The addresses the program knows or derives. The derivations are hashes; the
laws say that different seeds and programs give different addresses. -/
structure Addresses (Pubkey : Type) where
  programId : Pubkey
  tokenProgramId : Pubkey
  assocProgramId : Pubkey
  systemProgramId : Pubkey
  metadataProgramId : Pubkey
  clockId : Pubkey
  rentId : Pubkey
  configPda : Pubkey × UInt8
  stakePda : Pubkey → Pubkey × UInt8
  metadataPda : Pubkey → Pubkey × UInt8
  associatedTokenAddress : Pubkey → Pubkey → Pubkey
  /-- The address the seeds of the configuration give with a stored bump. -/
  configAddress : UInt8 → Option Pubkey
  stakeAddress : Pubkey → UInt8 → Option Pubkey
  token_ne_program : tokenProgramId ≠ programId
  system_ne_program : systemProgramId ≠ programId
  system_ne_token : systemProgramId ≠ tokenProgramId
  metadata_ne_program : metadataProgramId ≠ programId
  metadata_ne_token : metadataProgramId ≠ tokenProgramId
  configAddress_bump : configAddress configPda.2 = some configPda.1
  stakeAddress_bump : ∀ x, stakeAddress x (stakePda x).2 = some (stakePda x).1
  stakePda_injective : ∀ x y, (stakePda x).1 = (stakePda y).1 → x = y
  stakePda_ne_configPda : ∀ x, (stakePda x).1 ≠ configPda.1
  ata_ne_configPda : ∀ wallet m, associatedTokenAddress wallet m ≠ configPda.1
  ata_ne_stakePda : ∀ wallet m x, associatedTokenAddress wallet m ≠ (stakePda x).1
  metadataPda_ne_configPda : ∀ m, (metadataPda m).1 ≠ configPda.1
  metadataPda_ne_stakePda : ∀ m x, (metadataPda m).1 ≠ (stakePda x).1

namespace Addresses

variable {Pubkey : Type}

variable (ids : Addresses Pubkey) (x : Pubkey)

def configKey : Pubkey := ids.configPda.1

def stakeKey : Pubkey := (ids.stakePda x).1

def IsPda (k : Pubkey) : Prop := k = ids.configKey ∨ ∃ x, k = ids.stakeKey x

end Addresses

section

variable {Pubkey : Type} [DecidableEq Pubkey]

namespace World

variable (w : World Pubkey) (ids : Addresses Pubkey) (k : Pubkey)

def setAccount (k : Pubkey) (a : Account Pubkey) : World Pubkey :=
  { w with accounts := Function.update w.accounts k a }

def setData (k : Pubkey) (d : AccountData Pubkey) : World Pubkey :=
  w.setAccount k { w.accounts k with data := d }

def setLamports (k : Pubkey) (n : Nat) : World Pubkey :=
  w.setAccount k { w.accounts k with lamports := n }

def moveLamports (source target : Pubkey) (n : Nat) : World Pubkey :=
  (w.setLamports source ((w.accounts source).lamports - n)).setLamports target
    ((w.accounts target).lamports + n)

def tokenAt : Option (TokenAccount Pubkey) :=
  if (w.accounts k).owner = ids.tokenProgramId then
    match (w.accounts k).data with
    | .token t => some t
    | _ => none
  else none

def mintAt : Option (Mint Pubkey) :=
  if (w.accounts k).owner = ids.tokenProgramId then
    match (w.accounts k).data with
    | .mint m => some m
    | _ => none
  else none

def configOf : Option (Config Pubkey) :=
  if (w.accounts ids.configKey).owner = ids.programId then
    match (w.accounts ids.configKey).data with
    | .config c => if c.initialized then some c else none
    | _ => none
  else none

def stakeOf (x : Pubkey) : Option (StakeAccount Pubkey) :=
  if (w.accounts (ids.stakeKey x)).owner = ids.programId then
    match (w.accounts (ids.stakeKey x)).data with
    | .stake sa => some sa
    | _ => none
  else none

def balanceOf (m k : Pubkey) : Nat :=
  match w.tokenAt ids k with
  | some t => if t.mint = m then t.amount.toNat else 0
  | none => 0

def supplyOf (m : Pubkey) : Nat :=
  match w.mintAt ids m with
  | some x => x.supply.toNat
  | none => 0

def setToken (k : Pubkey) (t : TokenAccount Pubkey) : World Pubkey := w.setData k (.token t)

/-- Move `n` tokens from `s` at `source` to `d` at `target`; a transfer to itself
changes nothing. -/
def moveTokens (source target : Pubkey) (s d : TokenAccount Pubkey) (n : UInt64) : World Pubkey :=
  if source = target then w
  else (w.setToken source { s with amount := s.amount - n }).setToken target
    { d with amount := d.amount + n }

def mintTokens (m target : Pubkey) (x : Mint Pubkey) (d : TokenAccount Pubkey)
    (n : UInt64) : World Pubkey :=
  (w.setData m (.mint { x with supply := x.supply + n })).setToken target
    { d with amount := d.amount + n }

def allocate (payer target : Pubkey) (lamports space : Nat) (owner : Pubkey) : World Pubkey :=
  (w.moveLamports payer target lamports).setAccount target
    { lamports := lamports, owner := owner, data := .zeroed space }

def install (payer target : Pubkey) (lamports : Nat) (owner : Pubkey)
    (data : AccountData Pubkey) : World Pubkey :=
  (w.moveLamports payer target lamports).setAccount target
    { lamports := (w.accounts target).lamports + lamports, owner := owner, data := data }

end World

/-- Who signs a cross-program call and which accounts it may write. -/
structure Privileges (Pubkey : Type) where
  signs : Pubkey → Bool
  writes : Pubkey → Bool

/-- A call passes on the privileges of the instruction; `pda` signs by its seeds. -/
def privileges (accounts : List (AccountMeta Pubkey)) (pda : Option Pubkey) :
    Privileges Pubkey where
  signs k := accounts.any (fun a => a.key = k && a.isSigner) || pda = some k
  writes k := accounts.any fun a => a.key = k && a.isWritable

structure Runtime (Pubkey : Type) [DecidableEq Pubkey] extends Addresses Pubkey where
  minimumBalance : Nat → Nat
  createAccount : World Pubkey → Privileges Pubkey → (payer target : Pubkey) →
    (lamports space : Nat) → (owner : Pubkey) → Except ProgramError (World Pubkey)
  initializeMint2 : World Pubkey → Privileges Pubkey → (mint mintAuthority : Pubkey) →
    (freezeAuthority : Option Pubkey) → (decimals : UInt8) → Except ProgramError (World Pubkey)
  createAssociatedTokenAccountIdempotent : World Pubkey → Privileges Pubkey →
    (payer wallet mint : Pubkey) → Except ProgramError (World Pubkey)
  tokenTransfer : World Pubkey → Privileges Pubkey → (source destination authority : Pubkey) →
    (amount : UInt64) → Except ProgramError (World Pubkey)
  mintTo : World Pubkey → Privileges Pubkey → (mint destination authority : Pubkey) →
    (amount : UInt64) → Except ProgramError (World Pubkey)
  createMetadataAccountsV3 : World Pubkey → Privileges Pubkey → (metadata mint payer : Pubkey) →
    (data : List UInt8) → Except ProgramError (World Pubkey)
  /-- Only an address that holds nothing can be created, and both sides sign. -/
  createAccount_ok : ∀ {w w' : World Pubkey} {p payer target lamports space owner},
    createAccount w p payer target lamports space owner = .ok w' →
      p.signs payer = true ∧ p.signs target = true ∧ payer ≠ target ∧
      (w.accounts target).lamports = 0 ∧ (w.accounts target).data = .empty ∧
      (w.accounts target).owner = systemProgramId ∧
      w' = w.allocate payer target lamports space owner
  initializeMint2_ok : ∀ {w w' : World Pubkey} {p mint auth freeze decimals},
    initializeMint2 w p mint auth freeze decimals = .ok w' →
      (w.accounts mint).owner = tokenProgramId ∧
      (w.accounts mint).data = .zeroed mintLen ∧
      w' = w.setData mint (.mint ⟨some auth, 0, decimals, freeze⟩)
  createAta_ok : ∀ {w w' : World Pubkey} {p payer wallet mint},
    createAssociatedTokenAccountIdempotent w p payer wallet mint = .ok w' →
      (∃ t, w.tokenAt toAddresses (associatedTokenAddress wallet mint) = some t ∧
        t.mint = mint ∧ t.owner = wallet ∧ w' = w) ∨
      (∃ lamports, p.signs payer = true ∧ payer ≠ associatedTokenAddress wallet mint ∧
        (w.accounts (associatedTokenAddress wallet mint)).data = .empty ∧
        w' = w.install payer (associatedTokenAddress wallet mint) lamports tokenProgramId
          (.token ⟨mint, wallet, 0, false⟩))
  tokenTransfer_ok : ∀ {w w' : World Pubkey} {p source destination authority} {n : UInt64},
    tokenTransfer w p source destination authority n = .ok w' →
      ∃ s d, w.tokenAt toAddresses source = some s ∧ w.tokenAt toAddresses destination = some d ∧
        s.mint = d.mint ∧ n.toNat ≤ s.amount.toNat ∧
        (source ≠ destination → d.amount.toNat + n.toNat ≤ U64.maxNat) ∧
        w' = w.moveTokens source destination s d n
  /-- The owner's signed transfer between two writable, thawed accounts of one mint
  goes through when the source covers it and the sum is representable. -/
  tokenTransfer_succeeds : ∀ {w : World Pubkey} {p source destination s d} {n : UInt64},
    w.tokenAt toAddresses source = some s → w.tokenAt toAddresses destination = some d →
    s.mint = d.mint → s.frozen = false → d.frozen = false → p.signs s.owner = true →
    p.writes source = true → p.writes destination = true → n.toNat ≤ s.amount.toNat →
    d.amount.toNat + n.toNat ≤ U64.maxNat →
      ∃ w', tokenTransfer w p source destination s.owner n = .ok w'
  tokenTransfer_insufficient : ∀ {w : World Pubkey} {p source destination s} {n : UInt64},
    w.tokenAt toAddresses source = some s →
    tokenTransfer w p source destination s.owner n = .error insufficientFunds →
      s.amount.toNat < n.toNat
  mintTo_ok : ∀ {w w' : World Pubkey} {p mint destination authority} {n : UInt64},
    mintTo w p mint destination authority n = .ok w' →
      ∃ x d, w.mintAt toAddresses mint = some x ∧ w.tokenAt toAddresses destination = some d ∧
        d.mint = mint ∧ x.supply.toNat + n.toNat ≤ U64.maxNat ∧
        d.amount.toNat + n.toNat ≤ U64.maxNat ∧ w' = w.mintTokens mint destination x d n
  mintTo_succeeds : ∀ {w : World Pubkey} {p mint destination x d authority} {n : UInt64},
    w.mintAt toAddresses mint = some x → w.tokenAt toAddresses destination = some d →
    d.mint = mint → d.frozen = false → x.mintAuthority = some authority →
    p.signs authority = true → p.writes mint = true → p.writes destination = true →
    x.supply.toNat + n.toNat ≤ U64.maxNat → d.amount.toNat + n.toNat ≤ U64.maxNat →
      ∃ w', mintTo w p mint destination authority n = .ok w'
  createMetadata_ok : ∀ {w w' : World Pubkey} {p metadata mint payer data},
    createMetadataAccountsV3 w p metadata mint payer data = .ok w' →
      p.signs payer = true ∧ payer ≠ metadata ∧ (w.accounts metadata).data = .empty ∧
      ∃ lamports bytes, w' = w.install payer metadata lamports metadataProgramId (.other bytes)

instance : Coe (Runtime Pubkey) (Addresses Pubkey) := ⟨Runtime.toAddresses⟩

/-! ## What the token program keeps, and what others may do -/

/-- The token program's own bookkeeping: the accounts of a mint together hold at
most its supply, and a token account belongs to an existing mint. -/
structure SplSound (ids : Addresses Pubkey) (w : World Pubkey) : Prop where
  backed : ∀ (m : Pubkey) (S : Finset Pubkey), ∑ k ∈ S, w.balanceOf ids m k ≤ w.supplyOf ids m
  minted : ∀ k t, w.tokenAt ids k = some t → ∃ x, w.mintAt ids t.mint = some x

/-- Anything transactions outside the staking program may do to the chain. Its
own addresses cannot sign there, so their data stays, their token accounts are
not spent and their mints are not minted from; holders may burn. -/
structure Environment (ids : Addresses Pubkey) (w w' : World Pubkey) : Prop where
  clock : w.clock.toInt ≤ w'.clock.toInt
  pda_data : ∀ k, ids.IsPda k → (w'.accounts k).data = (w.accounts k).data
  pda_owner : ∀ k, ids.IsPda k → (w'.accounts k).owner = (w.accounts k).owner
  held : ∀ k t, w.tokenAt ids k = some t → t.owner = ids.configKey →
    ∃ t', w'.tokenAt ids k = some t' ∧ t'.mint = t.mint ∧ t'.owner = t.owner ∧
      t.amount.toNat ≤ t'.amount.toNat
  minting : ∀ k x, w.mintAt ids k = some x → x.mintAuthority = some ids.configKey →
    ∃ x', w'.mintAt ids k = some x' ∧ x'.mintAuthority = x.mintAuthority ∧
      (x.freezeAuthority = none → x'.freezeAuthority = none) ∧
      x'.supply.toNat ≤ x.supply.toNat
  thawed : ∀ k t', w'.tokenAt ids k = some t' → t'.frozen = true →
    ∀ x, w.mintAt ids t'.mint = some x → x.freezeAuthority = none →
      ∃ t, w.tokenAt ids k = some t ∧ t.mint = t'.mint ∧ t.frozen = true
  sound : SplSound ids w → SplSound ids w'

end

end SniperBot.Staking
