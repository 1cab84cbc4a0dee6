import Mathlib.Data.Finmap
import SniperBot.Lib.Fencing
import SniperBot.Lib.MachineInt

/-!
# Execution claims in memory

The process-local claim store: one row per execution id, claimed under a lease,
released or handed off, and never deleted. Instants and durations are counted in
nanoseconds; what the time library cannot represent makes the caller panic, and
then the store is as it was before the call.
-/

namespace SniperBot.Ownership

open Lib.MachineInt Lib.Runs Lib.Fencing Option

/-- What the time library can represent: the longest duration, and the first and
the last instant. -/
structure TimeLimits where
  maxDelta : Nat
  minInstant : Int
  maxInstant : Int

namespace TimeLimits

def fromStd (lim : TimeLimits) (d : Nat) : Option Nat :=
  if d ≤ lim.maxDelta then some d else none

/-- Adding a duration to an instant panics when the sum is out of range. -/
def add (lim : TimeLimits) (t d : Int) : Option Int :=
  if lim.minInstant ≤ t + d ∧ t + d ≤ lim.maxInstant then some (t + d) else none

theorem add_eq_some {lim : TimeLimits} {t d t' : Int} (h : lim.add t d = some t') : t' = t + d := by
  unfold add at h
  split at h
  · exact (some.inj h).symm
  · contradiction

end TimeLimits

def seconds (n : Nat) : Nat := n * 1000000000

inductive ClaimStatus where
  | claimed
  | released
  | handedOff
  deriving DecidableEq

structure ClaimRequest where
  executionId : String
  kind : String
  module : String
  strategy : String
  symbol : String

structure ExecutionClaim where
  executionId : String
  kind : String
  module : String
  strategy : String
  symbol : String
  ownerId : String
  epoch : Int64
  status : ClaimStatus
  acquiredAt : Int
  leaseUntil : Int
  takeoverCount : Int64
  previousOwner : Option String
  deriving DecidableEq

structure StoreContext where
  ownerId : String
  lease : Nat
  handoffGrace : Nat

inductive ClaimDecision where
  | acquired (claim : ExecutionClaim)
  | rejected (ownerId : String) (epoch : Int64) (status : ClaimStatus) (leaseUntil : Int)
  deriving DecidableEq

structure MemRow where
  claim : ExecutionClaim
  updatedAt : Int
  /-- The length of the lease at the time of the claim, by which it is renewed. -/
  leaseSpan : Nat

structure MemoryClaimStore where
  rows : Finmap fun _ : String => MemRow

namespace MemoryClaimStore

def new : MemoryClaimStore := ⟨∅⟩

/-- The lease that a duration grants from now on; 45 seconds if it is too long. -/
def leaseFrom (lim : TimeLimits) (now : Int) (lease : Nat) : Option Int :=
  lim.add now ((lim.fromStd lease).getD (seconds 45))

def reacquirable (lim : TimeLimits) (row : MemRow) (now : Int) (ctx : StoreContext) : Option Bool :=
  match row.claim.status with
  | .claimed => some (decide (row.claim.leaseUntil ≤ now))
  | .released => some true
  | .handedOff =>
    (lim.add row.updatedAt ((lim.fromStd ctx.handoffGrace).getD (seconds 900))).map fun t =>
      decide (t ≤ now)

def grant (req : ClaimRequest) (ctx : StoreContext) (now leaseUntil : Int) :
    Option MemRow → ExecutionClaim
  | none =>
    { executionId := req.executionId, kind := req.kind, module := req.module,
      strategy := req.strategy, symbol := req.symbol, ownerId := ctx.ownerId, epoch := 1,
      status := .claimed, acquiredAt := now, leaseUntil := leaseUntil, takeoverCount := 0,
      previousOwner := none }
  | some row =>
    { executionId := req.executionId, kind := req.kind, module := req.module,
      strategy := req.strategy, symbol := req.symbol, ownerId := ctx.ownerId,
      epoch := row.claim.epoch + 1, status := .claimed, acquiredAt := now,
      leaseUntil := leaseUntil,
      takeoverCount := row.claim.takeoverCount + if row.claim.status = .claimed then 1 else 0,
      previousOwner := some row.claim.ownerId }

def setRow (s : MemoryClaimStore) (id : String) (row : MemRow) : MemoryClaimStore :=
  ⟨s.rows.insert id row⟩

/-- Atomic acquisition. No result is a panic. -/
def claim (lim : TimeLimits) (s : MemoryClaimStore) (now : Int) (req : ClaimRequest)
    (ctx : StoreContext) : Option (ClaimDecision × MemoryClaimStore) := do
  let leaseUntil ← leaseFrom lim now ctx.lease
  match s.rows.lookup req.executionId with
  | none =>
    let claim := grant req ctx now leaseUntil none
    return (.acquired claim, s.setRow req.executionId ⟨claim, now, ctx.lease⟩)
  | some row =>
    if ← reacquirable lim row now ctx then
      let claim := grant req ctx now leaseUntil (some row)
      return (.acquired claim, s.setRow req.executionId ⟨claim, now, ctx.lease⟩)
    else
      return (.rejected row.claim.ownerId row.claim.epoch row.claim.status row.claim.leaseUntil, s)

def heldBy (s : MemoryClaimStore) (id ownerId : String) (epoch : Int64) : Option MemRow :=
  (s.rows.lookup id).filter fun row =>
    row.claim.ownerId = ownerId ∧ row.claim.epoch = epoch ∧ row.claim.status = .claimed

def renew (lim : TimeLimits) (s : MemoryClaimStore) (now : Int) (id ownerId : String)
    (epoch : Int64) : Option (Bool × MemoryClaimStore) :=
  match s.heldBy id ownerId epoch with
  | some row =>
    if row.claim.leaseUntil ≤ now then some (false, s)
    else
      (leaseFrom lim now row.leaseSpan).map fun leaseUntil =>
        (true, s.setRow id
          { row with claim := { row.claim with leaseUntil := leaseUntil }, updatedAt := now })
  | none => some (false, s)

section

variable (s : MemoryClaimStore) (now : Int) (id ownerId : String) (epoch : Int64)

def verify : Bool :=
  match s.heldBy id ownerId epoch with
  | some row => decide (now < row.claim.leaseUntil)
  | none => false

/-- Terminal transition. An expired lease may still be released. -/
def release (mode : ClaimStatus) : Bool × MemoryClaimStore :=
  match s.heldBy id ownerId epoch with
  | some row =>
    (true, s.setRow id { row with claim := { row.claim with status := mode }, updatedAt := now })
  | none => (false, s)

end

variable {lim : TimeLimits} {s s' : MemoryClaimStore} {now : Int} {id ownerId : String}
  {epoch : Int64} {row : MemRow}

@[simp] theorem lookup_setRow : (s.setRow id row).rows.lookup id = some row :=
  Finmap.lookup_insert _

theorem lookup_setRow_of_ne {id' : String} (h : id ≠ id') :
    (s.setRow id' row).rows.lookup id = s.rows.lookup id :=
  Finmap.lookup_insert_of_ne _ h

theorem heldBy_eq_some : s.heldBy id ownerId epoch = some row ↔ s.rows.lookup id = some row ∧
    row.claim.ownerId = ownerId ∧ row.claim.epoch = epoch ∧ row.claim.status = .claimed := by
  simp [heldBy]

theorem claim_cases {req : ClaimRequest} {ctx : StoreContext} {d : ClaimDecision}
    (h : s.claim lim now req ctx = some (d, s')) :
    (∃ leaseUntil, d = .acquired (grant req ctx now leaseUntil (s.rows.lookup req.executionId)) ∧
    s' = s.setRow req.executionId
      ⟨grant req ctx now leaseUntil (s.rows.lookup req.executionId), now, ctx.lease⟩ ∧
    ∀ row, s.rows.lookup req.executionId = some row → reacquirable lim row now ctx = some true) ∨
    (∃ row, s.rows.lookup req.executionId = some row ∧ reacquirable lim row now ctx = some false ∧
    d = .rejected row.claim.ownerId row.claim.epoch row.claim.status row.claim.leaseUntil ∧
    s' = s) := by
  simp only [claim, bind_eq_bind, bind_eq_some_iff] at h
  obtain ⟨leaseUntil, -, h⟩ := h
  cases hr : s.rows.lookup req.executionId with
  | none =>
    rw [hr] at h
    obtain ⟨rfl, rfl⟩ := Prod.mk.inj (some.inj h)
    exact .inl ⟨leaseUntil, rfl, rfl, by simp⟩
  | some row =>
    rw [hr] at h
    obtain ⟨again, ha, h⟩ := bind_eq_some_iff.mp h
    cases again with
    | true =>
      obtain ⟨rfl, rfl⟩ := Prod.mk.inj (some.inj h)
      refine .inl ⟨leaseUntil, rfl, rfl, ?_⟩
      rintro row' hr'
      rwa [← some.inj hr']
    | false =>
      obtain ⟨rfl, rfl⟩ := Prod.mk.inj (some.inj h)
      exact .inr ⟨row, rfl, ha, rfl, rfl⟩

theorem renew_cases {b : Bool} (h : s.renew lim now id ownerId epoch = some (b, s')) :
    (b = false ∧ s' = s) ∨
    ∃ row leaseUntil, b = true ∧ s.heldBy id ownerId epoch = some row ∧ s' = s.setRow id
      { row with claim := { row.claim with leaseUntil := leaseUntil }, updatedAt := now } := by
  unfold renew at h
  cases hr : s.heldBy id ownerId epoch with
  | none =>
    rw [hr] at h
    obtain ⟨rfl, rfl⟩ := Prod.mk.inj (some.inj h)
    exact .inl ⟨rfl, rfl⟩
  | some row =>
    rw [hr] at h
    dsimp only at h
    split at h
    · obtain ⟨rfl, rfl⟩ := Prod.mk.inj (some.inj h)
      exact .inl ⟨rfl, rfl⟩
    · obtain ⟨leaseUntil, -, h⟩ := map_eq_some_iff.mp h
      obtain ⟨rfl, rfl⟩ := Prod.mk.inj h
      exact .inr ⟨row, leaseUntil, rfl, rfl, rfl⟩

theorem verify_eq_true : s.verify now id ownerId epoch = true ↔
    ∃ row, s.heldBy id ownerId epoch = some row ∧ now < row.claim.leaseUntil := by
  unfold verify
  cases s.heldBy id ownerId epoch <;> simp

theorem release_cases (s : MemoryClaimStore) (now : Int) (id ownerId : String) (epoch : Int64)
    (mode : ClaimStatus) :
    s.release now id ownerId epoch mode = (false, s) ∨
    ∃ row, s.heldBy id ownerId epoch = some row ∧ s.release now id ownerId epoch mode =
    (true, s.setRow id
      { row with claim := { row.claim with status := mode }, updatedAt := now }) := by
  unfold release
  cases s.heldBy id ownerId epoch with
  | none => exact .inl rfl
  | some row => exact .inr ⟨row, rfl, rfl⟩

end MemoryClaimStore

/-! ## The store as a system -/

inductive ClaimCall where
  | claim (req : ClaimRequest) (ctx : StoreContext)
  | renew (id ownerId : String) (epoch : Int64)
  | verify (id ownerId : String) (epoch : Int64)
  | release (id ownerId : String) (epoch : Int64) (mode : ClaimStatus)

inductive ClaimReply where
  | decided (d : ClaimDecision)
  | answered (b : Bool)
  | panicked
  deriving DecidableEq

structure ClaimOp where
  now : Int
  call : ClaimCall

namespace ClaimCall

def executionId : ClaimCall → String
  | claim req _ => req.executionId
  | renew id _ _ => id
  | verify id _ _ => id
  | release id _ _ _ => id

/-- What a call and its reply mean for the execution the call names. A release
into `claimed`, which only a debug build refuses, leaves the claim open. -/
def event : ClaimCall → ClaimReply → Event String
  | claim _ _, .decided (.acquired c) => .acquire ⟨c.ownerId, c.epoch.toInt⟩
  | renew _ ownerId epoch, .answered true => .use ⟨ownerId, epoch.toInt⟩
  | verify _ ownerId epoch, .answered true => .use ⟨ownerId, epoch.toInt⟩
  | release _ ownerId epoch mode, .answered true =>
    if mode = .claimed then .use ⟨ownerId, epoch.toInt⟩ else .close ⟨ownerId, epoch.toInt⟩
  | _, _ => .other

end ClaimCall

namespace MemoryClaimStore

def perform (lim : TimeLimits) (s : MemoryClaimStore) (op : ClaimOp) :
    ClaimReply × MemoryClaimStore :=
  match op.call with
  | .claim req ctx =>
    match s.claim lim op.now req ctx with
    | some (d, s') => (.decided d, s')
    | none => (.panicked, s)
  | .renew id ownerId epoch =>
    match s.renew lim op.now id ownerId epoch with
    | some (b, s') => (.answered b, s')
    | none => (.panicked, s)
  | .verify id ownerId epoch => (.answered (s.verify op.now id ownerId epoch), s)
  | .release id ownerId epoch mode =>
    (.answered (s.release op.now id ownerId epoch mode).1,
      (s.release op.now id ownerId epoch mode).2)

end MemoryClaimStore

def ClaimStep (lim : TimeLimits) (s : MemoryClaimStore) (op : ClaimOp) (t : MemoryClaimStore) :
    Prop :=
  t = (s.perform lim op).2

def claimEvent (lim : TimeLimits) (id : String) (e : Entry MemoryClaimStore ClaimOp) :
    Event String :=
  if e.label.call.executionId = id then e.label.call.event (e.pre.perform lim e.label).1
  else .other

def MemRow.register (row : MemRow) : Register String :=
  ⟨some ⟨row.claim.ownerId, row.claim.epoch.toInt⟩, decide (row.claim.status = .claimed)⟩

namespace MemoryClaimStore

def register (id : String) (s : MemoryClaimStore) : Register String :=
  ((s.rows.lookup id).map MemRow.register).getD ⟨none, false⟩

variable {lim : TimeLimits} {s s' : MemoryClaimStore} {id ownerId : String} {epoch : Int64}
  {row : MemRow} {op : ClaimOp}

theorem register_of_lookup (h : s.rows.lookup id = some row) : s.register id = row.register := by
  simp [register, h]

@[simp] theorem register_setRow : (s.setRow id row).register id = row.register := by
  simp [register]

theorem register_of_heldBy (h : s.heldBy id ownerId epoch = some row) :
    s.register id = ⟨some ⟨ownerId, epoch.toInt⟩, true⟩ := by
  obtain ⟨hr, rfl, rfl, hst⟩ := heldBy_eq_some.mp h
  rw [register_of_lookup hr, MemRow.register, hst]
  rfl

theorem lookup_perform_of_ne (h : op.call.executionId ≠ id) :
    (s.perform lim op).2.rows.lookup id = s.rows.lookup id := by
  obtain ⟨now, call⟩ := op
  cases call with
  | claim req ctx =>
    dsimp only [perform]
    cases hclaim : s.claim lim now req ctx with
    | none => rfl
    | some r =>
      rcases claim_cases hclaim with ⟨leaseUntil, -, hs, -⟩ | ⟨row, -, -, -, hs⟩
      · simp only [hs]
        exact lookup_setRow_of_ne (Ne.symm h)
      · simp only [hs]
  | renew j ownerId epoch =>
    dsimp only [perform]
    cases hr : s.renew lim now j ownerId epoch with
    | none => rfl
    | some r =>
      rcases renew_cases hr with ⟨-, hs⟩ | ⟨row, leaseUntil, -, -, hs⟩
      · simp only [hs]
      · simp only [hs]
        exact lookup_setRow_of_ne (Ne.symm h)
  | verify j ownerId epoch => rfl
  | release j ownerId epoch mode =>
    dsimp only [perform]
    rcases s.release_cases now j ownerId epoch mode with hs | ⟨row, -, hs⟩
    · rw [hs]
    · rw [hs]
      exact lookup_setRow_of_ne (Ne.symm h)

variable {req : ClaimRequest} {ctx : StoreContext} {now t : Int}

theorem toInt_epoch_grant {leaseUntil : Int} (h : (s.register id).epoch < I64.maxInt) :
    (grant req ctx now leaseUntil (s.rows.lookup id)).epoch.toInt = (s.register id).epoch + 1 := by
  cases hr : s.rows.lookup id with
  | none => simp [grant, register, hr, Register.epoch]
  | some row =>
    have he : (s.register id).epoch = row.claim.epoch.toInt := by
      rw [register_of_lookup hr]
      rfl
    rw [he] at ⊢
    have hm := I64.minInt_le row.claim.epoch
    unfold I64.minInt at hm
    unfold I64.maxInt at h
    change (row.claim.epoch + 1).toInt = _
    rw [Int64.toInt_add, Int64.toInt_one, Int.bmod_eq_of_le (by omega) (by omega)]

theorem register_perform (h : (s.register op.call.executionId).epoch +
    (op.call.event (s.perform lim op).1).isAcquire.toNat ≤ I64.maxInt) :
    Step (s.register op.call.executionId) (op.call.event (s.perform lim op).1)
    ((s.perform lim op).2.register op.call.executionId) := by
  obtain ⟨now, call⟩ := op
  cases call with
  | claim req ctx =>
    dsimp only [perform, ClaimCall.executionId] at h ⊢
    cases hclaim : s.claim lim now req ctx with
    | none => exact .other
    | some r =>
      obtain ⟨d, s'⟩ := r
      rw [hclaim] at h
      rcases claim_cases hclaim with ⟨leaseUntil, rfl, rfl, -⟩ | ⟨row, -, -, rfl, rfl⟩
      · have hnext : (grant req ctx now leaseUntil
            (s.rows.lookup req.executionId)).epoch.toInt = _ :=
          toInt_epoch_grant (Int.lt_of_add_one_le h)
        have ho : MemRow.register
            ⟨grant req ctx now leaseUntil (s.rows.lookup req.executionId), now, ctx.lease⟩ =
            ⟨some ⟨(grant req ctx now leaseUntil (s.rows.lookup req.executionId)).ownerId,
              (grant req ctx now leaseUntil (s.rows.lookup req.executionId)).epoch.toInt⟩,
              true⟩ := by
          cases s.rows.lookup req.executionId <;> rfl
        simp only [register_setRow, ho]
        exact .acquire hnext
      · exact .other
  | renew j ownerId epoch =>
    dsimp only [perform, ClaimCall.executionId]
    cases hr : s.renew lim now j ownerId epoch with
    | none => exact .other
    | some r =>
      obtain ⟨b, s'⟩ := r
      rcases renew_cases hr with ⟨rfl, rfl⟩ | ⟨row, leaseUntil, rfl, hh, rfl⟩
      · exact .other
      · obtain ⟨hro, -⟩ := heldBy_eq_some.mp hh
        simp only [register_setRow]
        change Step _ _ row.register
        rw [← register_of_lookup hro, register_of_heldBy hh]
        exact .use
  | verify j ownerId epoch =>
    dsimp only [perform, ClaimCall.executionId]
    cases hv : s.verify now j ownerId epoch with
    | false => exact .other
    | true =>
      obtain ⟨row, hh, -⟩ := verify_eq_true.mp hv
      rw [register_of_heldBy hh]
      exact .use
  | release j ownerId epoch mode =>
    dsimp only [perform, ClaimCall.executionId]
    rcases s.release_cases now j ownerId epoch mode with hre | ⟨row, hh, hre⟩
    · rw [hre]
      exact .other
    · obtain ⟨-, rfl, rfl, -⟩ := heldBy_eq_some.mp hh
      rw [hre, register_of_heldBy hh]
      simp only [register_setRow]
      cases mode with
      | claimed => exact .use
      | released | handedOff => exact .close

theorem claimStep_register (e : Entry MemoryClaimStore ClaimOp)
    (hs : ClaimStep lim e.pre e.label e.post)
    (h : (e.pre.register id).epoch + (claimEvent lim id e).isAcquire.toNat ≤ I64.maxInt) :
    Step (e.pre.register id) (claimEvent lim id e) (e.post.register id) := by
  rw [hs]
  unfold claimEvent at h ⊢
  split at h
  · next he =>
    subst he
    rw [if_pos rfl]
    exact register_perform h
  · next hn =>
    have hsa : (e.pre.perform lim e.label).2.register id = e.pre.register id := by
      simp only [register, lookup_perform_of_ne hn]
    rw [if_neg hn, hsa]
    exact .other

theorem claims_fenced {tr : List (Entry MemoryClaimStore ClaimOp)}
    (hr : Run (ClaimStep lim) new tr s)
    (hc : tr.countP (fun e => (claimEvent lim id e).isAcquire) < 2 ^ 63) :
    Fenced (tr.map (claimEvent lim id)) := by
  have hbo : (register id new).epoch +
      tr.countP (fun e => (claimEvent lim id e).isAcquire) ≤ I64.maxInt := by
    have hn : (register id new).epoch = 0 := rfl
    unfold I64.maxInt
    omega
  exact fenced_of_bounded claimStep_register hr hbo

theorem verify_unique {ownerId' : String} {epoch' : Int64}
    (h : s.verify now id ownerId epoch = true) (h' : s.verify now id ownerId' epoch' = true) :
    ownerId = ownerId' ∧ epoch = epoch' := by
  obtain ⟨row, hh, -⟩ := verify_eq_true.mp h
  obtain ⟨row', hh', -⟩ := verify_eq_true.mp h'
  obtain ⟨hr, rfl, rfl, -⟩ := heldBy_eq_some.mp hh
  obtain ⟨hr', rfl, rfl, -⟩ := heldBy_eq_some.mp hh'
  obtain rfl := some.inj (hr.symm.trans hr')
  exact ⟨rfl, rfl⟩

/-- A running claim rejects every claimant, its owner included. The call panics
instead if the lease it asks for ends after the last instant. -/
theorem claim_of_running (hr : s.rows.lookup req.executionId = some row)
    (hst : row.claim.status = .claimed) (hl : now < row.claim.leaseUntil) :
    s.claim lim now req ctx = (leaseFrom lim now ctx.lease).map fun _ =>
    (.rejected row.claim.ownerId row.claim.epoch row.claim.status row.claim.leaseUntil, s) := by
  have ha : reacquirable lim row now ctx = some false := by
    simp only [reacquirable, hst, some.injEq, decide_eq_false_iff_not]
    omega
  unfold claim
  rw [hr]
  cases leaseFrom lim now ctx.lease with
  | none => rfl
  | some leaseUntil =>
    simp only [ha]
    rfl

/-- The row of `id` was handed off at `t` and not claimed since. -/
def HandedOffAt (t : Int) (id : String) (s : MemoryClaimStore) : Prop :=
  ∃ row, s.rows.lookup id = some row ∧ row.claim.status = .handedOff ∧ row.updatedAt = t

theorem HandedOffAt.not_heldBy (h : HandedOffAt t id s) : s.heldBy id ownerId epoch ≠ some row := by
  obtain ⟨row', hr', hst, -⟩ := h
  intro hh
  obtain ⟨hr, -, -, hc⟩ := heldBy_eq_some.mp hh
  obtain rfl := some.inj (hr'.symm.trans hr)
  rw [hst] at hc
  contradiction

theorem HandedOffAt.perform (h : HandedOffAt t op.call.executionId s)
    (ha : (op.call.event (s.perform lim op).1).isAcquire = false) :
    (s.perform lim op).2 = s := by
  obtain ⟨now, call⟩ := op
  cases call with
  | claim req ctx =>
    dsimp only [MemoryClaimStore.perform] at ha ⊢
    cases hclaim : s.claim lim now req ctx with
    | none => rfl
    | some r =>
      obtain ⟨d, s'⟩ := r
      rw [hclaim] at ha
      rcases claim_cases hclaim with ⟨leaseUntil, rfl, -, -⟩ | ⟨row, -, -, -, hs⟩
      · contradiction
      · exact hs
  | renew j ownerId epoch =>
    dsimp only [MemoryClaimStore.perform]
    cases hr : s.renew lim now j ownerId epoch with
    | none => rfl
    | some r =>
      rcases renew_cases hr with ⟨-, hs⟩ | ⟨row, leaseUntil, -, hh, -⟩
      · exact hs
      · exact absurd hh h.not_heldBy
  | verify j ownerId epoch => rfl
  | release j ownerId epoch mode =>
    dsimp only [MemoryClaimStore.perform]
    rcases s.release_cases now j ownerId epoch mode with hre | ⟨row, hh, -⟩
    · rw [hre]
    · exact absurd hh h.not_heldBy

theorem HandedOffAt.step {e : Entry MemoryClaimStore ClaimOp} (h : HandedOffAt t id e.pre)
    (ha : (claimEvent lim id e).isAcquire = false) (hs : ClaimStep lim e.pre e.label e.post) :
    HandedOffAt t id e.post := by
  rw [hs]
  unfold claimEvent at ha
  split at ha
  · next he =>
    subst he
    rwa [h.perform ha]
  · next hn =>
    unfold HandedOffAt
    rwa [lookup_perform_of_ne hn]

theorem HandedOffAt.grace_le {c : ExecutionClaim} (h : HandedOffAt t req.executionId s)
    (hclaim : s.claim lim now req ctx = some (.acquired c, s'))
    (hg : ctx.handoffGrace ≤ lim.maxDelta) : t + ctx.handoffGrace ≤ now := by
  obtain ⟨row, hr, hst, rfl⟩ := h
  rcases claim_cases hclaim with ⟨leaseUntil, -, -, ha⟩ | ⟨row', -, -, hd, -⟩
  · have hdu := ha row hr
    simp only [reacquirable, hst, TimeLimits.fromStd, if_pos hg] at hdu
    obtain ⟨due, had, hle⟩ := map_eq_some_iff.mp hdu
    obtain rfl := TimeLimits.add_eq_some had
    exact of_decide_eq_true hle
  · contradiction

end MemoryClaimStore

end SniperBot.Ownership
