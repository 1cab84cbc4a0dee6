import SniperBot.Staking.Rewards

/-!
# Rewards claimed in pieces

A claim pays what has accrued and restarts the clock, and so does a top-up, which keeps what
has accrued for later. Both round down, so visits on the way to a claim never gain anything,
and each of them loses less than a unit.
-/

namespace SniperBot.Staking

open Lib.MachineInt Nat

variable {Pubkey : Type}

/-- What can happen to a position between two times, its principal unchanged. -/
inductive Visit where
  | claim
  | topUp

namespace StakeAccount

def visit (sa : StakeAccount Pubkey) (rate : UInt64) : Visit → Int64 → ℕ × StakeAccount Pubkey
  | .claim, now => ((sa.accruedRewards rate now).toNat, sa.paidOut true now)
  | .topUp, now => (0, (sa.settle rate now).restartCooldown 0 now)

def visits (sa : StakeAccount Pubkey) (rate : UInt64) :
    List (Visit × Int64) → ℕ × StakeAccount Pubkey
  | [] => (0, sa)
  | (v, now) :: rest =>
    let (paid, sa') := sa.visit rate v now
    let (later, sa'') := sa'.visits rate rest
    (paid + later, sa'')

def interest (sa : StakeAccount Pubkey) (rate : UInt64) (elapsed : ℕ) : ℕ :=
  sa.amount.toNat * rate.toNat * elapsed

def elapsed (sa : StakeAccount Pubkey) (now : Int64) : ℕ := (now.toInt - sa.rewardFrom.toInt).toNat

/-- Nothing saturates when the rewards up to `now` are worked out: neither the time, nor the
product, nor the result. -/
structure Unsaturated (sa : StakeAccount Pubkey) (rate : UInt64) (now : Int64) : Prop where
  time : now.toInt - sa.rewardFrom.toInt ≤ I64.maxInt
  product : sa.interest rate (sa.elapsed now) < 2 ^ 128
  result : sa.interest rate (sa.elapsed now) / rewardUnit + sa.pendingRewards.toNat ≤ U64.maxNat

end StakeAccount

/-! ## Without saturation the rewards are exact -/

theorem rewardUnit_pos : 0 < rewardUnit := by decide

theorem toNat_computeReward_of_fits {amount rate : UInt64} {elapsed : Int64}
    (hpr : amount.toNat * rate.toNat * elapsed.toInt.toNat < 2 ^ 128)
    (hr : amount.toNat * rate.toNat * elapsed.toInt.toNat / rewardUnit ≤ U64.maxNat) :
    (computeReward amount rate elapsed).toNat =
    amount.toNat * rate.toNat * elapsed.toInt.toNat / rewardUnit := by
  unfold computeReward
  split
  · next hz =>
    rcases hz with rfl | rfl | hle
    · simp
    · simp
    · have hn : elapsed.toInt.toNat = 0 := Int.toNat_eq_zero.mpr (Int64.le_iff_toInt_le.mp hle)
      rw [hn, mul_zero]
      rfl
  · have hw : U128.checkedMul amount.toNat rate.toNat = some (amount.toNat * rate.toNat) :=
      U128.checkedMul_eq_some.mpr ⟨U128.mul_toNat_lt amount rate, rfl⟩
    have hm : U128.checkedMul (amount.toNat * rate.toNat) elapsed.toInt.toNat =
        some (amount.toNat * rate.toNat * elapsed.toInt.toNat) :=
      U128.checkedMul_eq_some.mpr ⟨hpr, rfl⟩
    rw [hw, Option.bind_some, hm]
    exact (U64.toNat_clamp _).trans (min_eq_left hr)

namespace StakeAccount

variable {sa : StakeAccount Pubkey} {rate : UInt64} {t now : Int64}

theorem Unsaturated.reward_eq (h : sa.Unsaturated rate now) :
    (computeReward sa.amount rate (I64.saturatingSub now sa.rewardFrom)).toNat =
    sa.interest rate (sa.elapsed now) / rewardUnit := by
  have he := toNat_elapsed h.time
  have hpr := h.product
  have hr := h.result
  unfold interest elapsed at hpr hr ⊢
  rw [← he] at hpr hr ⊢
  exact toNat_computeReward_of_fits hpr (by omega)

theorem Unsaturated.accrued_eq (h : sa.Unsaturated rate now) : (sa.accruedRewards rate now).toNat =
    sa.interest rate (sa.elapsed now) / rewardUnit + sa.pendingRewards.toNat := by
  rw [accruedRewards, U64.toNat_saturatingAdd, h.reward_eq, min_eq_left h.result]

theorem Unsaturated.settled_eq (h : sa.Unsaturated rate now) :
    (sa.settle rate now).pendingRewards.toNat =
    sa.interest rate (sa.elapsed now) / rewardUnit + sa.pendingRewards.toNat := by
  show (U64.saturatingAdd _ _).toNat = _
  rw [U64.toNat_saturatingAdd, h.reward_eq, add_comm, min_eq_left h.result]

theorem interest_add (m n : ℕ) : sa.interest rate (m + n) = sa.interest rate m + sa.interest rate n :=
  Nat.mul_add _ _ _

theorem Unsaturated.earlier (h : sa.Unsaturated rate now) (ht : t ≤ now) :
    sa.Unsaturated rate t := by
  have hle : t.toInt ≤ now.toInt := Int64.le_iff_toInt_le.mp ht
  have hi : sa.interest rate (sa.elapsed t) ≤ sa.interest rate (sa.elapsed now) :=
    mul_le_mul_left _ (Int.toNat_le_toNat (by omega))
  have hre := Nat.div_le_div_right (c := rewardUnit) hi
  have hti := h.time
  have hr := h.result
  constructor
  · omega
  · exact lt_of_le_of_lt hi h.product
  · omega

theorem elapsed_split (hf : sa.rewardFrom ≤ t) (ht : t ≤ now) :
    sa.elapsed now = sa.elapsed t + (now.toInt - t.toInt).toNat := by
  have hle : sa.rewardFrom.toInt ≤ t.toInt := Int64.le_iff_toInt_le.mp hf
  have hl' : t.toInt ≤ now.toInt := Int64.le_iff_toInt_le.mp ht
  unfold elapsed
  omega

/-! ## One visit -/

/-- What a visit comes to: it restarts the clock, and of what has accrued it loses less than
a unit. -/
structure Visited (sa : StakeAccount Pubkey) (rate : UInt64) (t : Int64) (paid : ℕ)
    (sa' : StakeAccount Pubkey) : Prop where
  amount : sa'.amount = sa.amount
  rewardFrom : sa'.rewardFrom = t
  balance : paid + sa'.pendingRewards.toNat =
    sa.interest rate (sa.elapsed t) / rewardUnit + sa.pendingRewards.toNat

theorem visited (h : sa.Unsaturated rate t) (v : Visit) :
    Visited sa rate t (sa.visit rate v t).1 (sa.visit rate v t).2 := by
  cases v with
  | claim => exact ⟨rfl, rfl, h.accrued_eq⟩
  | topUp => exact ⟨rfl, rfl, (zero_add _).trans h.settled_eq⟩

variable {sa' : StakeAccount Pubkey} {paid : ℕ}

theorem Visited.unsaturated (hv : Visited sa rate t paid sa') (h : sa.Unsaturated rate now)
    (hf : sa.rewardFrom ≤ t) (ht : t ≤ now) : sa'.Unsaturated rate now := by
  have hle : sa.rewardFrom.toInt ≤ t.toInt := Int64.le_iff_toInt_le.mp hf
  have he : sa'.elapsed now = (now.toInt - t.toInt).toNat := by
    rw [elapsed, hv.rewardFrom]
  have hi : sa'.interest rate (sa'.elapsed now) = sa.interest rate (now.toInt - t.toInt).toNat := by
    rw [interest, hv.amount, he]
    rfl
  have hsp := elapsed_split hf ht
  have hsu : sa.interest rate (sa.elapsed now) =
      sa.interest rate (sa.elapsed t) + sa.interest rate (now.toInt - t.toInt).toNat := by
    rw [hsp, interest_add]
  have hd : sa.interest rate (sa.elapsed t) / rewardUnit +
      sa.interest rate (now.toInt - t.toInt).toNat / rewardUnit ≤ (sa.interest rate (sa.elapsed t) +
          sa.interest rate (now.toInt - t.toInt).toNat) / rewardUnit :=
    div_add_div_le_add_div
  have hba := hv.balance
  have hti := h.time
  have hpr := h.product
  have hr := h.result
  constructor
  · rw [hv.rewardFrom]
    omega
  · omega
  · rw [hi]
    rw [hsu] at hr
    omega

/-! ## All visits -/

theorem visits_balance (vs : List (Visit × Int64))
    (hordered : (sa.rewardFrom :: vs.map Prod.snd ++ [now]).Pairwise (· ≤ ·))
    (h : sa.Unsaturated rate now) :
    ∃ lost, lost ≤ (rewardUnit - 1) * (vs.length + 1) ∧
    sa.interest rate (sa.elapsed now) + rewardUnit * sa.pendingRewards.toNat =
      rewardUnit * ((sa.visits rate vs).1 +
        ((sa.visits rate vs).2.accruedRewards rate now).toNat) + lost := by
  induction vs generalizing sa with
  | nil =>
    have hd := div_add_mod (sa.interest rate (sa.elapsed now)) rewardUnit
    have hm := mod_lt (sa.interest rate (sa.elapsed now)) rewardUnit_pos
    refine ⟨sa.interest rate (sa.elapsed now) % rewardUnit, ?_, ?_⟩
    · rw [List.length_nil, Nat.mul_one]
      omega
    · show _ = rewardUnit * (0 + (sa.accruedRewards rate now).toNat) + _
      rw [h.accrued_eq, zero_add, mul_add]
      omega
  | cons head vs ih =>
    obtain ⟨v, t⟩ := head
    have hf : sa.rewardFrom ≤ t := (List.pairwise_cons.mp hordered).1 t (by simp)
    have hrest : (t :: vs.map Prod.snd ++ [now]).Pairwise (· ≤ ·) :=
      (List.pairwise_cons.mp hordered).2
    have ht : t ≤ now := (List.pairwise_cons.mp hrest).1 now (by simp)
    have hv := visited (h.earlier ht) v
    obtain ⟨lost, hl, hba⟩ := ih (by rwa [hv.rewardFrom]) (hv.unsaturated h hf ht)
    have hi : (sa.visit rate v t).2.interest rate ((sa.visit rate v t).2.elapsed now) =
        sa.interest rate (now.toInt - t.toInt).toNat := by
      rw [interest, elapsed, hv.amount, hv.rewardFrom]
      rfl
    have hsu : sa.interest rate (sa.elapsed now) =
        sa.interest rate (sa.elapsed t) + sa.interest rate (now.toInt - t.toInt).toNat := by
      rw [elapsed_split hf ht, interest_add]
    have hd := div_add_mod (sa.interest rate (sa.elapsed t)) rewardUnit
    have hm := mod_lt (sa.interest rate (sa.elapsed t)) rewardUnit_pos
    refine ⟨lost + sa.interest rate (sa.elapsed t) % rewardUnit, ?_, ?_⟩
    · rw [List.length_cons, mul_succ]
      omega
    · have hpa := congrArg (rewardUnit * ·) hv.balance
      simp only [mul_add] at hpa
      show _ = rewardUnit * ((sa.visit rate v t).1 + ((sa.visit rate v t).2.visits rate vs).1 +
        (((sa.visit rate v t).2.visits rate vs).2.accruedRewards rate now).toNat) + _
      simp only [mul_add] at hba ⊢
      omega

theorem accruedRewards_settle (sa : StakeAccount Pubkey) (rate : UInt64) (now : Int64) :
    (sa.settle rate now).accruedRewards rate now = sa.accruedRewards rate now := by
  have hn : computeReward sa.amount rate (I64.saturatingSub now now) = 0 :=
    computeReward_now sa.amount rate now
  rw [← UInt64.toNat_inj]
  show (U64.saturatingAdd (computeReward sa.amount rate (I64.saturatingSub now now))
    (U64.saturatingAdd sa.pendingRewards _)).toNat = (U64.saturatingAdd _ _).toNat
  rw [hn]
  simp only [U64.toNat_saturatingAdd, UInt64.toNat_zero]
  omega

end StakeAccount

/-- Claims and empty top-ups on the way pay, together with the claim at the end, at most what a
single claim at the end pays, and less by fewer units than there are pieces; and settling
leaves what is claimable at that instant unchanged. -/
theorem splitting_pays_no_more (sa : StakeAccount Pubkey) (rate : UInt64)
    (vs : List (Visit × Int64)) (now : Int64)
    (hordered : (sa.rewardFrom :: vs.map Prod.snd ++ [now]).Pairwise (· ≤ ·))
    (h : sa.Unsaturated rate now) :
    let total := (sa.visits rate vs).1 + ((sa.visits rate vs).2.accruedRewards rate now).toNat
    total ≤ (sa.accruedRewards rate now).toNat ∧
      (sa.accruedRewards rate now).toNat < total + (vs.length + 1) ∧
      ∀ (sa' : StakeAccount Pubkey) (t : Int64),
        (sa'.settle rate t).accruedRewards rate t = sa'.accruedRewards rate t := by
  intro total
  obtain ⟨lost, hl, hba⟩ := StakeAccount.visits_balance vs hordered h
  have hd := div_add_mod (sa.interest rate (sa.elapsed now)) rewardUnit
  have hm := mod_lt (sa.interest rate (sa.elapsed now)) rewardUnit_pos
  have hsi : rewardUnit * (sa.accruedRewards rate now).toNat +
      sa.interest rate (sa.elapsed now) % rewardUnit = rewardUnit * total + lost := by
    rw [h.accrued_eq, mul_add, ← hba]
    omega
  clear_value total
  refine ⟨?_, ?_, fun sa' t => sa'.accruedRewards_settle rate t⟩
  · -- the rest of the single division is less than a unit
    have hlt : rewardUnit * total < rewardUnit * ((sa.accruedRewards rate now).toNat + 1) := by
      rw [mul_add]
      omega
    exact Nat.le_of_lt_succ (Nat.lt_of_mul_lt_mul_left hlt)
  · have hpi : (rewardUnit - 1) * (vs.length + 1) < rewardUnit * (vs.length + 1) :=
      mul_lt_mul_of_pos_right (sub_one_lt rewardUnit_pos.ne') (succ_pos _)
    have hlt : rewardUnit * (sa.accruedRewards rate now).toNat <
        rewardUnit * (total + (vs.length + 1)) := by
      rw [mul_add rewardUnit total]
      omega
    exact Nat.lt_of_mul_lt_mul_left hlt

private def yearly (since : Int64) : StakeAccount Unit :=
  { owner := (), amount := 31536000, stakedAt := since, rewardFrom := since, pendingRewards := 0,
    bump := 0 }

theorem splitting_pays_no_more_ten : (yearly 0).accruedRewards 9000 10 = 9 ∧
      ((yearly 0).visits 9000 [(.claim, 3), (.topUp, 7)]).1 = 2 ∧
      (((yearly 0).visits 9000 [(.claim, 3), (.topUp, 7)]).2.accruedRewards 9000 10).toNat = 5 ∧
      (2 + 5 ≤ ((yearly 0).accruedRewards 9000 10).toNat ∧
        ((yearly 0).accruedRewards 9000 10).toNat < 2 + 5 + 3) := by
  have hpa := splitting_pays_no_more (yearly 0) 9000 [(.claim, 3), (.topUp, 7)] 10
    (by decide +kernel) ⟨by decide +kernel, by decide +kernel, by decide +kernel⟩
  have hpai : ((yearly 0).visits 9000 [(.claim, 3), (.topUp, 7)]).1 = 2 := by decide +kernel
  have hrest : (((yearly 0).visits 9000 [(.claim, 3), (.topUp, 7)]).2.accruedRewards
      9000 10).toNat = 5 := by decide +kernel
  exact ⟨by decide +kernel, hpai, hrest, hpa.1, hpa.2.1⟩

/-- Over a time that is longer than a word, a claim in the middle pays twice as much: only the
time of the single claim saturates, neither a product nor a result does. -/
theorem splitting_pays_more_over_ages :
    let sa := yearly (-9223372036854775807)
    let now : Int64 := 9223372036854775807
    (sa.rewardFrom :: [(Visit.claim, (0 : Int64))].map Prod.snd ++ [now]).Pairwise (· ≤ ·) ∧
      sa.interest 10000 (sa.elapsed now) < 2 ^ 128 ∧
      sa.interest 10000 (sa.elapsed now) / rewardUnit + sa.pendingRewards.toNat ≤ U64.maxNat ∧
      (sa.accruedRewards 10000 now).toNat = 9223372036854775807 ∧
      (sa.visits 10000 [(.claim, 0)]).1 +
        ((sa.visits 10000 [(.claim, 0)]).2.accruedRewards 10000 now).toNat =
          18446744073709551614 := by
  decide +kernel

end SniperBot.Staking
