import SniperBot.Ownership.LeaseStore

/-!
# Fencing of the in-memory stores

What holds of every run of the two stores: epochs only grow, a pair that was superseded or made
terminal is never honoured again, and one pair at a time verifies. A handed-off execution is left
alone for the grace of the next claimant, if the time library can represent it.
-/

namespace SniperBot.Ownership

open Lib.MachineInt Lib.Runs Lib.Fencing MemoryClaimStore

def HandsOff (lim : TimeLimits) (id : String) (e : Entry MemoryClaimStore ClaimOp) : Prop :=
  ∃ ownerId epoch, e.label.call = .release id ownerId epoch .handedOff ∧
    (e.pre.perform lim e.label).1 = .answered true

def Acquires (lim : TimeLimits) (id : String) (ctx : StoreContext)
    (e : Entry MemoryClaimStore ClaimOp) : Prop :=
  ∃ req c, e.label.call = .claim req ctx ∧ req.executionId = id ∧
    (e.pre.perform lim e.label).1 = .decided (.acquired c)

structure ClaimsFenced (lim : TimeLimits) (tr : List (Entry MemoryClaimStore ClaimOp))
    (s : MemoryClaimStore) : Prop where
  fenced : ∀ id, tr.countP (fun e => (claimEvent lim id e).isAcquire) < 2 ^ 63 →
    Fenced (tr.map (claimEvent lim id))
  unique : ∀ now id ownerId epoch ownerId' epoch', s.verify now id ownerId epoch = true →
    s.verify now id ownerId' epoch' = true → ownerId = ownerId' ∧ epoch = epoch'
  /-- A running claim rejects every claimant, unless the claimant's own lease would
  end after the last instant, and then the call panics. -/
  running : ∀ now req ctx row, s.rows.lookup req.executionId = some row →
    row.claim.status = .claimed → now < row.claim.leaseUntil →
    s.perform lim ⟨now, .claim req ctx⟩ = (.decided (.rejected row.claim.ownerId row.claim.epoch
      row.claim.status row.claim.leaseUntil), s) ∨
    leaseFrom lim now ctx.lease = none ∧ s.perform lim ⟨now, .claim req ctx⟩ = (.panicked, s)
  /-- The first acquisition after a hand-off waits for the claimant's grace. -/
  handoff : ∀ {before between after x y id ctx}, tr = before ++ x :: (between ++ y :: after) →
    HandsOff lim id x → (∀ e ∈ between, (claimEvent lim id e).isAcquire = false) →
    Acquires lim id ctx y → ctx.handoffGrace ≤ lim.maxDelta →
    x.label.now + ctx.handoffGrace ≤ y.label.now

structure LeasesFenced (lim : TimeLimits) (tr : List (Entry MemoryHaStore LeaseOp))
    (s : MemoryHaStore) : Prop where
  fenced : ∀ role, tr.countP (fun e => (leaseEvent lim role e).isAcquire) < 2 ^ 63 →
    Fenced (tr.map (leaseEvent lim role))
  unique : ∀ now role holder generation holder' generation',
    s.verifyLease now role holder generation = .ok true →
    s.verifyLease now role holder' generation' = .ok true →
    holder = holder' ∧ generation = generation'

variable {lim : TimeLimits} {id : String} {s t : MemoryClaimStore}
  {e : Entry MemoryClaimStore ClaimOp}

theorem HandsOff.handedOffAt (h : HandsOff lim id e) (hs : ClaimStep lim e.pre e.label e.post) :
    MemoryClaimStore.HandedOffAt e.label.now id e.post := by
  obtain ⟨ownerId, epoch, hc, hr⟩ := h
  rw [hs]
  unfold perform at hr ⊢
  rw [hc] at hr ⊢
  dsimp only at hr ⊢
  rcases e.pre.release_cases e.label.now id ownerId epoch .handedOff with hre | ⟨row, -, hre⟩
  · rw [hre] at hr
    exact absurd (ClaimReply.answered.inj hr) Bool.false_ne_true
  · rw [hre]
    exact ⟨_, lookup_setRow, rfl, rfl⟩

theorem Acquires.claim_eq {ctx : StoreContext} (h : Acquires lim id ctx e) :
    ∃ req c s', req.executionId = id ∧
    e.pre.claim lim e.label.now req ctx = some (.acquired c, s') := by
  obtain ⟨req, c, hc, hi, hr⟩ := h
  unfold perform at hr
  rw [hc] at hr
  dsimp only at hr
  cases hclaim : e.pre.claim lim e.label.now req ctx with
  | none =>
    rw [hclaim] at hr
    contradiction
  | some r =>
    obtain ⟨d, s'⟩ := r
    rw [hclaim] at hr
    obtain rfl := ClaimReply.decided.inj hr
    exact ⟨req, c, s', hi, hclaim⟩

theorem grace_after_handoff {tr : List (Entry MemoryClaimStore ClaimOp)}
    (hr : Run (ClaimStep lim) s tr t) {before between after : List (Entry MemoryClaimStore ClaimOp)}
    {x y : Entry MemoryClaimStore ClaimOp} {ctx : StoreContext}
    (htr : tr = before ++ x :: (between ++ y :: after)) (hx : HandsOff lim id x)
    (hbe : ∀ e ∈ between, (claimEvent lim id e).isAcquire = false)
    (hy : Acquires lim id ctx y) (hg : ctx.handoffGrace ≤ lim.maxDelta) :
    x.label.now + ctx.handoffGrace ≤ y.label.now := by
  subst htr
  obtain ⟨-, hsx, hrest⟩ := hr.around
  obtain ⟨hm, -, -⟩ := hrest.around
  have ho : MemoryClaimStore.HandedOffAt x.label.now id y.pre :=
    hm.invariant_of_entries (fun _ _ _ h ha hs => h.step (e := ⟨_, _, _⟩) ha hs) hbe
      (hx.handedOffAt hsx)
  obtain ⟨req, c, s', rfl, hclaim⟩ := hy.claim_eq
  exact ho.grace_le hclaim hg

/-- Every run of the two stores, by any owners and at any times, is fenced. -/
theorem memory_stores_fenced (lim : TimeLimits) :
    (∀ tr s, Run (ClaimStep lim) new tr s → ClaimsFenced lim tr s) ∧
    (∀ tr s, Run (LeaseStep lim) MemoryHaStore.new tr s → LeasesFenced lim tr s) := by
  refine ⟨fun tr s hr => ⟨fun id => claims_fenced hr, ?_, ?_, ?_⟩,
    fun tr s hr => ⟨fun role => MemoryHaStore.leases_fenced hr, ?_⟩⟩
  · intro now id ownerId epoch ownerId' epoch' h h'
    exact verify_unique h h'
  · intro now req ctx row hro hst hl
    have hclaim : s.claim lim now req ctx = _ := claim_of_running hro hst hl
    dsimp only [perform]
    rw [hclaim]
    cases leaseFrom lim now ctx.lease with
    | none => exact .inr ⟨rfl, rfl⟩
    | some leaseUntil => exact .inl rfl
  · intro before between after x y id ctx htr hx hbe hy hg
    exact grace_after_handoff hr htr hx hbe hy hg
  · intro now role holder generation holder' generation' h h'
    exact MemoryHaStore.verifyLease_unique h h'

/-! ## A hand-off between two replicas -/

/-- The limits of the time library: milliseconds in a signed word, and the years
from -262143 to 262142. -/
def chronoLimits : TimeLimits where
  maxDelta := 9223372036854775807 * 1000000
  minInstant := -8334601228800 * 1000000000
  maxInstant := 8210266876799 * 1000000000 + 999999999

def snipeRequest : ClaimRequest := ⟨"snipe-1", "snipe", "sniper", "launch", "TOKEN"⟩

def replica (ownerId : String) (grace : Nat) : StoreContext := ⟨ownerId, seconds 45, grace⟩

variable (ops : List ClaimOp) (ctx : StoreContext) (now : Int)

def afterHandoff : List ClaimOp := ⟨0, .claim snipeRequest (replica "a" (seconds 900))⟩ ::
    ⟨seconds 10, .release "snipe-1" "a" 1 .handedOff⟩ :: ops

def claimHistory : List (Entry MemoryClaimStore ClaimOp) :=
  history (fun s op => (s.perform chronoLimits op).2) .new ops

def claimsAfter : MemoryClaimStore := ops.foldl (fun s op => (s.perform chronoLimits op).2) .new

theorem run_claimHistory : Run (ClaimStep chronoLimits) .new (claimHistory ops) (claimsAfter ops) :=
  run_history _ _ _

def grantedAfter : ExecutionClaim :=
  grant snipeRequest ctx now (now + seconds 45) ((claimsAfter ops).rows.lookup "snipe-1")

def handover : List ClaimOp :=
  afterHandoff [⟨seconds 909, .claim snipeRequest (replica "b" (seconds 900))⟩,
    ⟨seconds 910, .claim snipeRequest (replica "b" (seconds 900))⟩]

def leaseHistory (ops : List LeaseOp) : List (Entry MemoryHaStore LeaseOp) :=
  history (fun s op => (s.perform chronoLimits op).2) .new ops

theorem run_leaseHistory (ops : List LeaseOp) : Run (LeaseStep chronoLimits) .new (leaseHistory ops)
    (ops.foldl (fun s op => (s.perform chronoLimits op).2) .new) :=
  run_history _ _ _

def reacquisition : List LeaseOp :=
  [⟨0, .acquire ⟨.recovery, "w", seconds 30⟩⟩, ⟨seconds 1, .acquire ⟨.recovery, "w", seconds 30⟩⟩,
    ⟨seconds 2, .verify .recovery "w" 1⟩, ⟨seconds 2, .verify .recovery "w" 2⟩]

theorem memory_stores_fenced_handover :
    (claimHistory handover).map (claimEvent chronoLimits "snipe-1") =
      [.acquire ⟨"a", 1⟩, .close ⟨"a", 1⟩, .other, .acquire ⟨"b", 2⟩] ∧
    Fenced ((claimHistory handover).map (claimEvent chronoLimits "snipe-1")) ∧
    (seconds 10 : Int) + (replica "b" (seconds 900)).handoffGrace ≤ seconds 910 ∧
    (leaseHistory reacquisition).map (leaseEvent chronoLimits .recovery) =
      [.acquire ⟨"w", 1⟩, .acquire ⟨"w", 2⟩, .other, .use ⟨"w", 2⟩] ∧
    Fenced ((leaseHistory reacquisition).map (leaseEvent chronoLimits .recovery)) := by
  have hc := (memory_stores_fenced chronoLimits).1 _ _ (run_claimHistory handover)
  have hl := (memory_stores_fenced chronoLimits).2 _ _ (run_leaseHistory reacquisition)
  refine ⟨by decide +kernel, hc.fenced "snipe-1" (by decide +kernel), ?_, by decide +kernel,
    hl.fenced .recovery (by decide +kernel)⟩
  have hsp : claimHistory handover = [_] ++ _ :: ([_] ++ _ :: []) := rfl
  exact hc.handoff hsp ⟨"a", 1, rfl, by decide +kernel⟩ (by
      intro e he
      obtain rfl := List.mem_singleton.mp he
      decide +kernel)
    ⟨snipeRequest, grantedAfter (handover.take 3) (replica "b" (seconds 900)) (seconds 910),
      rfl, rfl, by decide +kernel⟩ (by decide +kernel)

/-- The entries hand the execution off and acquire it again before the grace of
the claimant is over. -/
def CutShort (tr : List (Entry MemoryClaimStore ClaimOp)) (id : String) : Prop :=
  ∃ before between after x y ctx, tr = before ++ x :: (between ++ y :: after) ∧
    HandsOff chronoLimits id x ∧ Acquires chronoLimits id ctx y ∧
    y.label.now < x.label.now + ctx.handoffGrace

def impatient : List ClaimOp := [⟨seconds 10, .claim snipeRequest (replica "b" 0)⟩,
    ⟨seconds 11, .release "snipe-1" "b" 2 .released⟩]

/-- A grace too long to be represented counts as fifteen minutes. And a claimant
without patience may come first and release: then nobody waits any longer. -/
theorem grace_cut_short :
    (∃ tr s, Run (ClaimStep chronoLimits) .new tr s ∧ tr.length = 3 ∧ CutShort tr "snipe-1") ∧
    (∃ tr s, Run (ClaimStep chronoLimits) .new tr s ∧ tr.length = 5 ∧ CutShort tr "snipe-1") := by
  constructor
  · refine ⟨_, _, run_claimHistory (afterHandoff
      [⟨seconds 910, .claim snipeRequest (replica "b" (seconds 18446744073709551615))⟩]), rfl,
      [_], [], [], _, _, replica "b" (seconds 18446744073709551615), rfl,
      ⟨"a", 1, rfl, by decide +kernel⟩, ⟨snipeRequest, grantedAfter (afterHandoff [])
        (replica "b" (seconds 18446744073709551615)) (seconds 910), rfl, rfl, ?_⟩, ?_⟩
    all_goals decide +kernel
  · refine ⟨_, _, run_claimHistory (afterHandoff (impatient ++
      [⟨seconds 12, .claim snipeRequest (replica "c" (seconds 900))⟩])), rfl,
      [_], [_, _], [], _, _, replica "c" (seconds 900), rfl, ⟨"a", 1, rfl, by decide +kernel⟩,
      ⟨snipeRequest, grantedAfter (afterHandoff impatient) (replica "c" (seconds 900))
        (seconds 12), rfl, rfl, ?_⟩, ?_⟩
    all_goals decide +kernel

end SniperBot.Ownership
