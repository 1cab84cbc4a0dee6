import SniperBot.Ownership.RedisScripts

/-!
# Fencing of the Redis claims

A pair that lost its claim is refused for as long as the hash that knows its epoch
is there. Once a claim finds the hash expired the epochs start again, and with them
every guarantee about the pairs granted before.
-/

namespace SniperBot.Ownership.Redis

open Lib Lib.Runs Lib.Fencing

variable {key key' : Option Key} {k : Key} {t : RedisTime} {owner : String} {epoch : Int64}
  {op : Op}

theorem epoch_nonneg (key : Option Key) : 0 ≤ (register key).epoch := by
  cases key with
  | none => exact Int.le_refl 0
  | some k => exact Int.natCast_nonneg _

theorem register_of_heldBy (h : heldBy key t owner epoch = some k)
    (hexa : (register key).epoch < 2 ^ 53) :
    register key = ⟨some ⟨owner, epoch.toInt⟩, true⟩ := by
  obtain ⟨⟨rfl, -⟩, ho, he, hst⟩ := heldBy_eq_some.mp h
  obtain ⟨n, hn, hd⟩ := Option.map_eq_some_iff.mp he
  have hl : (n : Int) < 2 ^ 53 := by
    simpa [register, Key.register, Register.epoch, hn] using hexa
  have heq : epoch.toInt = n := Double.eq_of_ofInt_eq hd.symm (by simp; omega) hl
  simp [register, Key.register, ho, hn, hst, heq]

/-- Serving a call is a step of the register, unless a claim finds the hash expired. -/
theorem register_perform
    (he : (register key).epoch + (op.call.event (perform key op).1).isAcquire.toNat < 2 ^ 53)
    (hl : ¬ Lapses ⟨key, op, key'⟩) :
    Step (register key) (op.call.event (perform key op).1) (register (perform key op).2) := by
  have he' : (register key).epoch < 2 ^ 53 := by omega
  unfold Lapses event at hl
  obtain ⟨t, call⟩ := op
  cases call with
  | claim req ctx =>
    dsimp only [perform] at he hl ⊢
    cases ha : claimArgs req ctx with
    | error e => exact .other
    | ok a =>
      rw [ha] at he hl
      rw [event_claim] at he hl ⊢
      rcases claimScript_cases key t (claimRetention_pos ha) with
        ⟨hr, hk⟩ | ⟨n, takeovers, prev, due, hr, hk, hn⟩
      · rw [hr, hk]
        exact .other
      · rw [hr] at he hl ⊢
        rw [hk]
        have hnext : (n : Int) = (register key).epoch + 1 := by
          rcases hn with ⟨hno, rfl⟩ | ⟨k, hli, rfl⟩
          · cases key with
            | none => rfl
            | some k =>
              refine absurd ⟨rfl, k, rfl, ?_⟩ hl
              simpa [live] using hno
          · obtain ⟨rfl, -⟩ := live_eq_some.mp hli
            have hep : (register (some k)).epoch = (k.hash.epoch.getD 0 : Nat) := rfl
            rw [Double.ofNat_of_le (by omega)]
            rfl
        have ho := (claimArgs_eq_ok ha).1
        have hpo : register (some ⟨stamp a t.nowMs n takeovers prev, due⟩) =
            ⟨some ⟨ctx.ownerId, n⟩, true⟩ := by
          rw [← ho]
          rfl
        rw [hpo]
        exact .acquire hnext
  | renew owner epoch =>
    dsimp only [perform]
    rcases renewScript_cases key t owner epoch with hre | ⟨k, hh, hne, hsa⟩
    · rw [hre]
      exact .other
    · have hus : (Call.renew owner epoch).event (renewScript key t owner epoch).1 =
          .use ⟨owner, epoch.toInt⟩ := by
        generalize (renewScript key t owner epoch).1 = r at hne
        rcases r with _ | ⟨_ | _⟩ | _ | _ <;> first | rfl | exact absurd rfl hne
      rw [hus, hsa, register_of_heldBy hh he']
      exact .use
  | verify owner epoch =>
    dsimp only [perform]
    rcases verifyScript_cases key t owner epoch with hv | ⟨k, hh, hv⟩
    · rw [hv]
      exact .other
    · rw [hv, register_of_heldBy hh he']
      exact .use
  | release owner epoch mode =>
    dsimp only [perform]
    rcases releaseScript_cases key t owner epoch mode with
      hrel | ⟨k, hh, ⟨message, hrel⟩ | ⟨due, hrel⟩⟩
    · rw [hrel]
      exact .other
    · rw [hrel, register_of_heldBy hh he']
      exact .use
    · have hreg := register_of_heldBy hh he'
      have hpo : register (some ⟨{ k.hash with status := some mode, updatedAt := some t.nowMs },
          due⟩) = ⟨some ⟨owner, epoch.toInt⟩, decide (mode = .claimed)⟩ := by
        obtain ⟨⟨rfl, -⟩, -⟩ := heldBy_eq_some.mp hh
        have hla := congrArg Register.last hreg
        simp only [register, Key.register, Option.map_some, Option.getD_some] at hla ⊢
        rw [hla]
        simp
      rw [hrel, hreg]
      rw [hpo]
      cases mode with
      | claimed => exact .use
      | released | handedOff => exact .close

theorem call_of_isAcquire {c : Call} {r : Reply} (h : (c.event r).isAcquire = true) :
    ∃ req ctx, c = .claim req ctx := by
  cases c with
  | claim req ctx => exact ⟨req, ctx, rfl⟩
  | renew owner epoch | verify owner epoch => rcases r with _ | ⟨_ | _⟩ | _ | _ <;> contradiction
  | release owner epoch mode =>
    rcases r with _ | ⟨_ | _⟩ | _ | _
    case answered.true => cases mode <;> contradiction
    all_goals contradiction

/-- After a lapse the epochs start again. -/
theorem epoch_of_lapses (h : Lapses ⟨key, op, key'⟩) : (register (perform key op).2).epoch = 1 := by
  obtain ⟨hac, k, hk, he⟩ := h
  dsimp only [event] at hac hk
  subst hk
  obtain ⟨t, call⟩ := op
  obtain ⟨req, ctx, rfl⟩ := call_of_isAcquire hac
  dsimp only [perform] at hac ⊢
  cases ha : claimArgs req ctx with
  | error e =>
    rw [ha] at hac
    contradiction
  | ok a =>
    rw [ha] at hac
    rw [event_claim] at hac
    rcases claimScript_cases (some k) t (claimRetention_pos ha) with
      ⟨hr, -⟩ | ⟨n, takeovers, prev, due, -, hk, ⟨-, rfl⟩ | ⟨k', hl, -⟩⟩
    · rw [hr] at hac
      contradiction
    · rw [hk]
      rfl
    · obtain ⟨heq, hn⟩ := live_eq_some.mp hl
      obtain rfl := Option.some.inj heq
      rw [hn] at he
      contradiction

theorem epoch_perform_le
    (he : (register key).epoch + (op.call.event (perform key op).1).isAcquire.toNat < 2 ^ 53) :
    (register (perform key op).2).epoch ≤
    (register key).epoch + (op.call.event (perform key op).1).isAcquire.toNat := by
  by_cases hl : Lapses ⟨key, op, (perform key op).2⟩
  · have ha : (op.call.event (perform key op).1).isAcquire = true := hl.1
    have hn := epoch_nonneg key
    rw [epoch_of_lapses hl, ha, Bool.toNat_true]
    omega
  · exact Int.le_of_eq (epoch_step (register_perform he hl))

theorem epoch_run_le {tr : List (Entry (Option Key) Op)} (hr : Run RedisStep key tr key')
    (hc : (register key).epoch + tr.countP (fun e => (event e).isAcquire) < 2 ^ 53) :
    (register key').epoch ≤ (register key).epoch + tr.countP (fun e => (event e).isAcquire) := by
  induction hr with
  | nil => simp
  | @snoc tr u v a hr hs ih =>
    rw [countP_snoc] at hc ⊢
    have ho : (register (perform u a).2).epoch ≤
        (register u).epoch + ((event ⟨u, a, v⟩).isAcquire.toNat : Int) := by
      refine epoch_perform_le ?_
      change _ + ((event ⟨u, a, v⟩).isAcquire.toNat : Int) < _
      omega
    have hv : register v = register (perform u a).2 := congrArg register hs
    rw [← hv] at ho
    omega

/-- In every stretch of a run in which no claim finds the hash expired, a pair that
was superseded or released is answered `0` from then on. -/
theorem redis_claims_fenced {before tr : List (Entry (Option Key) Op)}
    (hr : Run RedisStep key (before ++ tr) key') (hlapse : ∀ e ∈ tr, ¬ Lapses e)
    (hcount : (register key).epoch + (before ++ tr).countP (fun e => (event e).isAcquire) <
      2 ^ 53) :
    Fenced (tr.map event) := by
  obtain ⟨mid, hbe, hru⟩ := hr.split
  rw [List.countP_append] at hcount
  have hm := epoch_run_le hbe (by omega)
  -- a step that lapses is no step of the register, so the entries carry the assumption
  have hr' : Run (fun s a t => RedisStep s a t ∧ ¬ Lapses ⟨s, a, t⟩) mid tr key' :=
    hru.restrict hlapse
  have hbo : (register mid).epoch + tr.countP (fun e => (event e).isAcquire) ≤
      (2 ^ 53 - 1 : Int) := by omega
  refine fenced_of_bounded (fun e hs he => ?_) hr' hbo
  rw [show e.post = (perform e.pre e.label).2 from hs.1]
  refine register_perform ?_ hs.2
  change _ + ((event e).isAcquire.toNat : Int) < _
  omega

/-! ## A week later -/

def keyHistory (ops : List Op) : List (Entry (Option Key) Op) :=
  history (fun key op => (perform key op).2) none ops

theorem run_keyHistory (ops : List Op) :
    Run RedisStep none (keyHistory ops) (ops.foldl (fun key op => (perform key op).2) none) :=
  run_history _ _ _

def order : ClaimRequest := ⟨"snipe-1", "snipe", "sniper", "launch", "TOKEN"⟩

def claimant (ownerId : String) : StoreContext := ⟨ownerId, seconds 45, seconds 900⟩

def takeover : List Op :=
  [⟨⟨0, 0⟩, .claim order (claimant "a")⟩, ⟨⟨50, 0⟩, .claim order (claimant "b")⟩,
    ⟨⟨51, 0⟩, .verify "a" 1⟩, ⟨⟨52, 0⟩, .renew "b" 2⟩, ⟨⟨53, 0⟩, .release "b" 2 .released⟩,
    ⟨⟨54, 0⟩, .claim order (claimant "a")⟩, ⟨⟨55, 0⟩, .release "a" 1 .released⟩]

instance (e : Entry (Option Key) Op) : Decidable (Lapses e) :=
  match h : e.pre with
  | none => .isFalse fun ⟨_, k, hk, _⟩ => by simp [h] at hk
  | some k =>
    decidable_of_iff ((event e).isAcquire = true ∧ k.expired e.label.time = true) <| by
      simp [Lapses, h]

theorem redis_claims_fenced_takeover :
    (keyHistory takeover).map event = [.acquire ⟨"a", 1⟩, .acquire ⟨"b", 2⟩, .other,
      .use ⟨"b", 2⟩, .close ⟨"b", 2⟩, .acquire ⟨"a", 3⟩, .other] ∧
    Fenced ((keyHistory takeover).map event) := by
  have hr : Run RedisStep none ([] ++ keyHistory takeover) _ := run_keyHistory takeover
  exact ⟨by decide +kernel, redis_claims_fenced hr (by decide +kernel) (by decide +kernel)⟩

/-- A replica releases its claim. Seven days and a millisecond later the hash is
gone: the replica is granted the first epoch again, and the pair it had released
verifies. -/
theorem released_pair_verifies : ∃ tr key, Run RedisStep none tr key ∧
      tr.map event = [.acquire ⟨"a", 1⟩, .close ⟨"a", 1⟩, .acquire ⟨"a", 1⟩, .use ⟨"a", 1⟩] ∧
      tr.map (fun e => (perform e.pre e.label).1) =
        [stamped ⟨45000, 900000, "a", "snipe", "sniper", "launch", "TOKEN"⟩ 0 1 0 "" 0,
          .answered true,
          stamped ⟨45000, 900000, "a", "snipe", "sniper", "launch", "TOKEN"⟩ 604801001 1 0 "" 0,
          .answered true] :=
  ⟨_, _, run_keyHistory [⟨⟨0, 0⟩, .claim order (claimant "a")⟩, ⟨⟨1, 0⟩, .release "a" 1 .released⟩,
    ⟨⟨604801, 1000⟩, .claim order (claimant "a")⟩, ⟨⟨604801, 2000⟩, .verify "a" 1⟩],
    by decide +kernel, by decide +kernel⟩

end SniperBot.Ownership.Redis
