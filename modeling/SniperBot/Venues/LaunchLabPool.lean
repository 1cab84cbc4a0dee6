import SniperBot.Venues.LaunchLabQuote

/-!
# Decoded launch pools

A pool account is decoded field by field after its discriminator and its length have been
checked. Nothing is asked of the reserves: a slope of zero is decoded, and the linear curve
then divides by it. Nor do the quotes look at what is still for sale.
-/

namespace SniperBot.Venues.LaunchLab

open Lib.Guard Lib.MachineInt Lib.NewtonSqrt ConstantProductCurve Nat
open Lib.Rounding

/-! ## The decoder -/

inductive PoolStatus where
  | fund
  | migrate
  | trade
  deriving DecidableEq

inductive DecodeError where
  | tooShort (length : ℕ)
  | discriminator (found : List UInt8)
  | length (length : ℕ)
  | truncated (wanted available : ℕ)
  | identicalMints
  | zeroMint
  | totalBaseSellExceedsSupply (totalBaseSell supply : UInt64)
  | status (value : UInt8)
  | migrateType (value : UInt8)
  | ammCreatorFeeOn (value : UInt8)
  deriving DecidableEq

structure PoolAccount extends PoolState where
  status : PoolStatus
  supply : UInt64
  totalBaseSell : UInt64
  totalBaseSell_le : totalBaseSell ≤ supply
  deriving DecidableEq

abbrev Reader := StateT (List UInt8) (Except DecodeError)

namespace Reader

def take (n : ℕ) : Reader (List UInt8) := fun bytes =>
  if n ≤ bytes.length then .ok (bytes.take n, bytes.drop n)
  else .error (.truncated n bytes.length)

def fromLeBytes : List UInt8 → ℕ
  | [] => 0
  | byte :: bytes => byte.toNat + 256 * fromLeBytes bytes

def u8 : Reader UInt8 := do
  return UInt8.ofNat (fromLeBytes (← take 1))

def u64 : Reader UInt64 := do
  return UInt64.ofNat (fromLeBytes (← take 8))

def pubkey : Reader (List UInt8) := take 32

def skip (n : ℕ) : Reader Unit := do
  let _ ← take n

end Reader

def poolStateDiscriminator : List UInt8 := [247, 237, 227, 245, 215, 195, 222, 70]

def poolStateLen : ℕ := 429

def defaultPubkey : List UInt8 := List.replicate 32 0

def checkDiscriminator (data expected : List UInt8) : Except DecodeError Unit := do
  ensure (8 ≤ data.length) (.tooShort data.length)
  ensure (data.take 8 = expected) (.discriminator (data.take 8))

def PoolStatus.fromU8 (value : UInt8) : Except DecodeError PoolStatus :=
  if value = 0 then pure .fund
  else if value = 1 then pure .migrate
  else if value = 2 then pure .trade
  else .error (.status value)

namespace PoolAccount

open Reader

/-- The fields in the order of the account. What no quote reads is skipped. -/
def fields : Reader PoolAccount := do
  skip 9
  let status ← u8
  skip 2
  let migrateType ← u8
  let supply ← u64
  let totalBaseSell ← u64
  let virtualBase ← u64
  let virtualQuote ← u64
  let realBase ← u64
  let realQuote ← u64
  -- the fundraising total, three fees, the vesting schedule and two configs
  skip 136
  let baseMint ← pubkey
  let quoteMint ← pubkey
  -- two vaults, the creator and the token program's flag
  skip 97
  let ammCreatorFeeOn ← u8
  skip 62
  ensure (baseMint ≠ quoteMint) DecodeError.identicalMints
  ensure (baseMint ≠ defaultPubkey ∧ quoteMint ≠ defaultPubkey) DecodeError.zeroMint
  if hso : totalBaseSell ≤ supply then
    let status ← PoolStatus.fromU8 status
    ensure (migrateType ≤ 1) (DecodeError.migrateType migrateType)
    ensure (ammCreatorFeeOn ≤ 1) (DecodeError.ammCreatorFeeOn ammCreatorFeeOn)
    return ⟨⟨virtualBase, virtualQuote, realBase, realQuote⟩, status, supply, totalBaseSell, hso⟩
  else throw (.totalBaseSellExceedsSupply totalBaseSell supply)

def decode (data : List UInt8) : Except DecodeError PoolAccount := do
  checkDiscriminator data poolStateDiscriminator
  ensure (data.length = poolStateLen) (.length data.length)
  fields.run' (data.drop 8)

variable (account : PoolAccount)

def isCurveOpen : Bool := account.status = .fund

def remainingBase : UInt64 := U64.saturatingSub account.totalBaseSell account.realBase

def toPool (config : GlobalConfig) : LaunchLabPool := ⟨account.toPoolState, config⟩

/-- A pool account of 429 bytes in which everything but these fields is zero, one, or two
mints that differ. -/
def encoded (supply totalBaseSell virtualBase virtualQuote : UInt64) : List UInt8 :=
  poolStateDiscriminator ++ List.replicate 13 0 ++
    [supply, totalBaseSell, virtualBase, virtualQuote].flatMap
      (fun n => (List.range 8).map fun i => UInt8.ofNat (n.toNat / 256 ^ i)) ++
    List.replicate 152 0 ++ List.replicate 32 1 ++ List.replicate 32 2 ++ List.replicate 160 0

end PoolAccount

/-! ## Nothing panics -/

/-- A result is a value or an error with a text. -/
def Calm {α : Type} (r : BotResult α) : Prop := r ≠ .error .panic

section

variable {α β : Type} {x y : BotResult α} {f : α → BotResult β} {o : Option α} {p : Prop}
  [Decidable p] {message : String} {n d v : ℕ}

theorem Calm.bind (hx : Calm x) (hf : ∀ a, x = .ok a → Calm (f a)) : Calm (x >>= f) := by
  intro h
  rcases bind_eq_error.mp h with hpa | ⟨a, ha, hpa⟩
  · exact hx hpa
  · exact hf a ha hpa

@[simp] theorem calm_pure (a : α) : Calm (pure a : BotResult α) := nofun

@[simp] theorem calm_solana : Calm (.error (.solana message) : BotResult α) := by
  simp [Calm]

@[simp] theorem calm_invalid : Calm (.error (.invalid message) : BotResult α) := by
  simp [Calm]

theorem calm_bind (hx : Calm x) (hf : ∀ a, Calm (f a)) : Calm (x >>= f) := hx.bind fun a _ => hf a

@[simp] theorem calm_map {g : α → β} : Calm (g <$> x) ↔ Calm x := by
  cases x <;> simp [Calm]

@[simp] theorem calm_okOr : Calm (okOr o (.solana message)) := by
  cases o <;> simp [okOr, Calm]

@[simp] theorem calm_okOr_bind :
    Calm (okOr o (.solana message) >>= f) ↔ ∀ a, o = some a → Calm (f a) := by
  cases o <;> simp [okOr, bind, Except.bind]

@[simp] theorem calm_ensure {e : Failure} : Calm (ensure p e) ↔ p ∨ e ≠ .panic := by
  by_cases h : p <;> simp [ensure, Calm, h]

@[simp] theorem calm_ensure_bind {e : Failure} {g : Unit → BotResult β} :
    Calm (ensure p e >>= g) ↔ if p then Calm (g ()) else e ≠ .panic := by
  by_cases h : p <;> simp [ensure, Calm, h, bind, Except.bind]

@[simp] theorem calm_ite : Calm (if p then x else y) ↔ if p then Calm x else Calm y := by
  split <;> rfl

@[simp] theorem calm_toU64 : Calm (toU64 n (.solana message)) := by
  unfold toU64
  split <;> simp [Calm]

@[simp] theorem calm_ceilDiv : Calm (ceilDiv n d) := by
  simp [ceilDiv]

@[simp] theorem calm_calculateFee {rate : UInt64} : Calm (calculateFee n rate) := by
  simp [calculateFee]

@[simp] theorem calm_calculatePreFee {rate : UInt64} : Calm (calculatePreFee n rate) := by
  simp [calculatePreFee]

@[simp] theorem calm_feeRate {pool : LaunchLabPool} {platform creator share : UInt64} :
    Calm (feeRate pool platform creator share) := by
  simp [feeRate, totalFeeRate]

open LinearPriceCurve

@[simp] theorem calm_quoteAt {slope : ℕ} : Calm (quoteAt slope n) := by
  simp [quoteAt]

theorem calm_baseAt {slope : ℕ} (h : slope ≠ 0) : Calm (baseAt slope n) := by
  refine calm_bind calm_okOr fun scaled => ?_
  rw [ensure, if_pos h]
  exact calm_pure _

end

def Sloped (curveType : CurveType) (virtualBase : UInt64) : Prop :=
  curveType = .linearPrice → virtualBase ≠ 0

section

variable {k : CurveType} {s : CurveState}

theorem Sloped.calm_curve (h : Sloped k s.virtualBase) (n : ℕ) :
    Calm (k.buyExactIn s n) ∧ Calm (k.buyExactOut s n) ∧ Calm (k.sellExactIn s n) ∧
    Calm (k.sellExactOut s n) := by
  cases k with
  | constantProduct =>
    simp [CurveType.buyExactIn, CurveType.buyExactOut, CurveType.sellExactIn,
      CurveType.sellExactOut, buyExactIn, buyExactOut,
      sellExactIn, sellExactOut,
      exactIn, exactOut,
      quoteReserve, baseReserve]
  | fixedPrice =>
    simp [CurveType.buyExactIn, CurveType.buyExactOut, CurveType.sellExactIn,
      CurveType.sellExactOut, FixedPriceCurve.buyExactIn, FixedPriceCurve.buyExactOut,
      FixedPriceCurve.sellExactIn, FixedPriceCurve.sellExactOut, FixedPriceCurve.exactIn,
      FixedPriceCurve.exactOut, FixedPriceCurve.noQuote, FixedPriceCurve.noBase]
  | linearPrice =>
    have hba : ∀ quote, Calm (LinearPriceCurve.baseAt s.virtualBase.toNat quote) := by
      intro quote
      exact calm_baseAt fun hz => h rfl (UInt64.toNat_inj.mp hz)
    refine ⟨?_, ?_, ?_, ?_⟩
    · exact calm_bind calm_okOr fun _ => calm_bind (hba _) fun _ => calm_okOr
    · exact calm_bind calm_okOr fun _ => calm_bind calm_quoteAt fun _ => calm_okOr
    · exact calm_bind calm_okOr fun _ => calm_bind calm_quoteAt fun _ => calm_okOr
    · exact calm_bind calm_okOr fun _ => calm_bind (hba _) fun _ => calm_okOr

end

/-! ## The words of the square root -/

/-- Nothing where the code would divide by zero or leave its words. -/
def checkedNewton (value x : ℕ) : Option ℕ :=
  if x = 0 then none
  else if x + value / x < 2 ^ 128 then
    if improved value x < x then checkedNewton value (improved value x) else some x
  else none
termination_by x

def checkedIsqrt (value : ℕ) : Option ℕ :=
  if value = 0 then some 0
  else if (value.size + 1) / 2 < 128 then
    (checkedNewton value (2 ^ ((value.size + 1) / 2))).map (backOff value)
  else none

theorem checkedNewton_eq {value x : ℕ} (hpos : 0 < value) (hv : value < 2 ^ 128)
    (hr : value.sqrt ≤ x) (hx : x ≤ 2 ^ 64) : checkedNewton value x = some (newton value x) := by
  induction x using Nat.strong_induction_on with
  | h x ih =>
    have hxp : 0 < x := lt_of_lt_of_le (sqrt_pos.mpr hpos) hr
    have hfi : x + value / x < 2 ^ 128 := by
      rcases lt_or_ge 1 x with htw | ho
      · have hh : value / x ≤ value / 2 := div_le_div_left htw (by decide)
        omega
      · -- at one the root is at most one
        have hsm : value < 2 * 2 := sqrt_lt.mp (by omega)
        have hq : value / x ≤ value := div_le_self _ _
        omega
    unfold checkedNewton newton
    rw [if_neg hxp.ne', if_pos hfi]
    split
    · next hf => exact ih _ hf (sqrt_le_improved hxp) (by omega)
    · rfl

theorem checkedIsqrt_eq {value : ℕ} (hv : value < 2 ^ 128) :
    checkedIsqrt value = some (isqrt value) := by
  unfold checkedIsqrt isqrt
  split
  · rfl
  · next hn =>
    have hsize : value.size ≤ 128 := size_le.mpr hv
    have hr : value.sqrt ≤ 2 ^ ((value.size + 1) / 2) := by
      refine sqrt_le_two_pow (lt_of_lt_of_le (lt_size_self value) ?_)
      exact Nat.pow_le_pow_right (by omega) (by omega)
    have hst : 2 ^ ((value.size + 1) / 2) ≤ 2 ^ 64 := Nat.pow_le_pow_right (by omega) (by omega)
    rw [if_pos (by omega), checkedNewton_eq (pos_of_ne_zero hn) hv hr hst]
    rfl

/-- For every word the loop ends with the root rounded down, and no word on the way overflows. -/
theorem checkedIsqrt_is_floor_root (n : BitVec 128) : ∃ r, checkedIsqrt n.toNat = some r ∧
    r * r ≤ n.toNat ∧ n.toNat < (r + 1) * (r + 1) := by
  refine ⟨n.toNat.sqrt, ?_, Nat.sqrt_le _, Nat.lt_succ_sqrt _⟩
  rw [checkedIsqrt_eq n.isLt, isqrt_eq_sqrt]

/-! ## The quotes of decoded pools -/

section

variable {pool : LaunchLabPool} {platform creator share : UInt64}

@[simp] theorem calm_curveType : Calm pool.curveType := by
  simp [LaunchLabPool.curveType, CurveType.fromU8]

theorem sloped_of_curveType (h : pool.config.curveType = 2 → pool.state.virtualBase ≠ 0)
    {k : CurveType} (hk : pool.curveType = .ok k) : Sloped k pool.curveState.virtualBase := by
  rintro rfl
  apply h
  unfold LaunchLabPool.curveType CurveType.fromU8 at hk
  split at hk
  · cases hk
  · split at hk
    · cases hk
    · split at hk
      · assumption
      · cases hk

end

open PoolAccount

end SniperBot.Venues.LaunchLab
