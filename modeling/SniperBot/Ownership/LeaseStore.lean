import SniperBot.Ownership.ClaimStore

/-!
# Singleton leases in memory

The lease part of the process-local high-availability store: one lease per role,
fenced by a generation that every acquisition raises. Unlike an execution claim, a
running lease may be acquired again by its own holder.
-/

namespace SniperBot.Ownership

open Lib.MachineInt Lib.Runs Lib.Fencing Option

inductive LeaseRole where
  | reconciliation
  | recovery
  | accountingMaintenance
  | stateSync
  | feed (name : String)
  deriving DecidableEq

namespace LeaseRole

def asString : LeaseRole → String
  | reconciliation => "reconciliation"
  | recovery => "recovery"
  | accountingMaintenance => "accounting_maintenance"
  | stateSync => "state_sync"
  | feed name => "feed:" ++ name

theorem asString_feed_ne {name key : String} (h : key.toList.head? ≠ some 'f') :
    (feed name).asString ≠ key := by
  rintro rfl
  exact h (by simp [asString])

theorem asString_injective {r r' : LeaseRole} (h : r.asString = r'.asString) : r = r' := by
  cases r with
  | feed name =>
    cases r' with
    | feed name' => exact congrArg feed ((String.append_right_inj "feed:").mp h)
    | _ => exact absurd h (asString_feed_ne (by decide))
  | _ =>
    cases r' with
    | feed name => exact absurd h.symm (asString_feed_ne (by decide))
    | _ => first | rfl | exact absurd h (by decide)

end LeaseRole

inductive StoreError where
  | db (message : String)
  deriving DecidableEq

structure LeaseRequest where
  role : LeaseRole
  holder : String
  /-- A signed duration. -/
  ttl : Int

structure Lease where
  role : LeaseRole
  holder : String
  generation : Int64
  acquiredAt : Int
  expiresAt : Int
  renewedAt : Int
  takeoverCount : Int64
  previousHolder : Option String
  released : Bool

def Lease.isLive (l : Lease) (now : Int) : Bool := !l.released && decide (now < l.expiresAt)

inductive LeaseDecision where
  | acquired (lease : Lease)
  | rejected (holder : String) (generation : Int64) (expiresAt : Int)

def nextGeneration (previous : Option Int64) : Int64 := I64.saturatingAdd (previous.getD 0) 1

theorem toInt_nextGeneration {previous : Option Int64} (h : (previous.getD 0).toInt < I64.maxInt) :
    (nextGeneration previous).toInt = (previous.getD 0).toInt + 1 := by
  have hm := I64.minInt_le (previous.getD 0)
  rw [nextGeneration, I64.toInt_saturatingAdd, Int64.toInt_one]
  omega

structure MemoryHaStore where
  leases : Finmap fun _ : String => Lease
  unavailable : Bool

namespace MemoryHaStore

def new : MemoryHaStore := ⟨∅, false⟩

section

variable (s : MemoryHaStore)

def setUnavailable (on : Bool) : MemoryHaStore := { s with unavailable := on }

def guard (op : String) : Except StoreError Unit :=
  if s.unavailable then .error (.db ("ha store unavailable (" ++ op ++ ")")) else .ok ()

def setLease (role : LeaseRole) (l : Lease) : MemoryHaStore :=
  { s with leases := s.leases.insert role.asString l }

def leaseOf (role : LeaseRole) : Option Lease := s.leases.lookup role.asString

end

def grant (req : LeaseRequest) (now expiresAt : Int) (previous : Option Lease) : Lease where
  role := req.role
  holder := req.holder
  generation := nextGeneration (previous.map Lease.generation)
  acquiredAt := now
  expiresAt := expiresAt
  renewedAt := now
  takeoverCount := (previous.map Lease.takeoverCount).getD 0 +
    if (previous.map fun l => decide (l.holder ≠ req.holder) && !l.released).getD false then 1
    else 0
  previousHolder := previous.map Lease.holder
  released := false

def acquireLease (lim : TimeLimits) (s : MemoryHaStore) (now : Int) (req : LeaseRequest) :
    Option (Except StoreError LeaseDecision × MemoryHaStore) :=
  match s.guard "acquire_lease" with
  | .error e => some (.error e, s)
  | .ok () =>
    match (s.leaseOf req.role).filter fun l => l.isLive now && decide (l.holder ≠ req.holder) with
    | some l => some (.ok (.rejected l.holder l.generation l.expiresAt), s)
    | none =>
      (lim.add now req.ttl).map fun expiresAt =>
        (.ok (.acquired (grant req now expiresAt (s.leaseOf req.role))),
          s.setLease req.role (grant req now expiresAt (s.leaseOf req.role)))

def heldBy (s : MemoryHaStore) (role : LeaseRole) (holder : String) (generation : Int64) :
    Option Lease :=
  (s.leaseOf role).filter fun l =>
    l.holder = holder ∧ l.generation = generation ∧ l.released = false

def renewLease (lim : TimeLimits) (s : MemoryHaStore) (now : Int) (role : LeaseRole)
    (holder : String) (generation : Int64) (ttl : Int) :
    Option (Except StoreError Bool × MemoryHaStore) :=
  match s.guard "renew_lease" with
  | .error e => some (.error e, s)
  | .ok () =>
    match s.heldBy role holder generation with
    | some l =>
      if l.expiresAt ≤ now then some (.ok false, s)
      else
        (lim.add now ttl).map fun expiresAt =>
          (.ok true, s.setLease role { l with expiresAt := expiresAt, renewedAt := now })
    | none => some (.ok false, s)

section

variable (s : MemoryHaStore) (now : Int) (role : LeaseRole) (holder : String) (generation : Int64)

def verifyLease : Except StoreError Bool :=
  match s.guard "verify_lease" with
  | .error e => .error e
  | .ok () =>
    .ok (((s.leaseOf role).map fun l =>
      decide (l.holder = holder) && decide (l.generation = generation) && l.isLive now).getD false)

def releaseLease : Except StoreError Bool × MemoryHaStore :=
  match s.guard "release_lease" with
  | .error e => (.error e, s)
  | .ok () =>
    match s.heldBy role holder generation with
    | some l => (.ok true, s.setLease role { l with released := true, expiresAt := now })
    | none => (.ok false, s)

end

variable {lim : TimeLimits} {s s' : MemoryHaStore} {now : Int} {role : LeaseRole}
  {holder : String} {generation : Int64} {l : Lease}

@[simp] theorem leaseOf_setLease : (s.setLease role l).leaseOf role = some l :=
  Finmap.lookup_insert _

theorem leaseOf_setLease_of_ne {role' : LeaseRole} (h : role ≠ role') :
    (s.setLease role' l).leaseOf role = s.leaseOf role :=
  Finmap.lookup_insert_of_ne _ fun hk => h (LeaseRole.asString_injective hk)

theorem heldBy_eq_some : s.heldBy role holder generation = some l ↔ s.leaseOf role = some l ∧
    l.holder = holder ∧ l.generation = generation ∧ l.released = false := by
  simp [heldBy]

theorem acquireLease_cases {req : LeaseRequest} {d : Except StoreError LeaseDecision}
    (h : s.acquireLease lim now req = some (d, s')) :
    (∃ expiresAt, d = .ok (.acquired (grant req now expiresAt (s.leaseOf req.role))) ∧
    s' = s.setLease req.role (grant req now expiresAt (s.leaseOf req.role))) ∨
    ((∀ l, d ≠ .ok (.acquired l)) ∧ s' = s) := by
  unfold acquireLease at h
  split at h
  · obtain ⟨rfl, rfl⟩ := Prod.mk.inj (some.inj h)
    exact .inr ⟨by simp, rfl⟩
  · split at h
    · obtain ⟨rfl, rfl⟩ := Prod.mk.inj (some.inj h)
      exact .inr ⟨by simp, rfl⟩
    · obtain ⟨expiresAt, -, h⟩ := map_eq_some_iff.mp h
      obtain ⟨rfl, rfl⟩ := Prod.mk.inj h
      exact .inl ⟨expiresAt, rfl, rfl⟩

theorem renewLease_cases {ttl : Int} {b : Except StoreError Bool}
    (h : s.renewLease lim now role holder generation ttl = some (b, s')) :
    (b ≠ .ok true ∧ s' = s) ∨
    ∃ l expiresAt, b = .ok true ∧ s.heldBy role holder generation = some l ∧
    s' = s.setLease role { l with expiresAt := expiresAt, renewedAt := now } := by
  unfold renewLease at h
  split at h
  · obtain ⟨rfl, rfl⟩ := Prod.mk.inj (some.inj h)
    exact .inl ⟨by simp, rfl⟩
  · split at h
    · next l hh =>
      split at h
      · obtain ⟨rfl, rfl⟩ := Prod.mk.inj (some.inj h)
        exact .inl ⟨by simp, rfl⟩
      · obtain ⟨expiresAt, -, h⟩ := map_eq_some_iff.mp h
        obtain ⟨rfl, rfl⟩ := Prod.mk.inj h
        exact .inr ⟨l, expiresAt, rfl, hh, rfl⟩
    · obtain ⟨rfl, rfl⟩ := Prod.mk.inj (some.inj h)
      exact .inl ⟨by simp, rfl⟩

theorem heldBy_of_verifyLease (h : s.verifyLease now role holder generation = .ok true) :
    ∃ l, s.heldBy role holder generation = some l ∧ now < l.expiresAt := by
  unfold verifyLease at h
  split at h
  · contradiction
  · cases hl : s.leaseOf role with
    | none => simp [hl] at h
    | some l =>
      simp only [hl, map_some, getD_some, Lease.isLive, Except.ok.injEq,
        Bool.and_eq_true, decide_eq_true_eq, Bool.not_eq_true'] at h
      obtain ⟨⟨hh, hg⟩, ho, hli⟩ := h
      exact ⟨l, heldBy_eq_some.mpr ⟨hl, hh, hg, ho⟩, hli⟩

theorem releaseLease_cases (s : MemoryHaStore) (now : Int) (role : LeaseRole) (holder : String)
    (generation : Int64) :
    ((s.releaseLease now role holder generation).1 ≠ .ok true ∧
    (s.releaseLease now role holder generation).2 = s) ∨
    ∃ l, s.heldBy role holder generation = some l ∧ s.releaseLease now role holder generation =
      (.ok true, s.setLease role { l with released := true, expiresAt := now }) := by
  unfold releaseLease
  split
  · exact .inl ⟨by simp, rfl⟩
  · split
    · next l hh => exact .inr ⟨l, hh, rfl⟩
    · exact .inl ⟨by simp, rfl⟩

theorem verifyLease_unique {holder' : String} {generation' : Int64}
    (h : s.verifyLease now role holder generation = .ok true)
    (h' : s.verifyLease now role holder' generation' = .ok true) :
    holder = holder' ∧ generation = generation' := by
  obtain ⟨l, hh, -⟩ := heldBy_of_verifyLease h
  obtain ⟨l', hh', -⟩ := heldBy_of_verifyLease h'
  obtain ⟨hl, rfl, rfl, -⟩ := heldBy_eq_some.mp hh
  obtain ⟨hl', rfl, rfl, -⟩ := heldBy_eq_some.mp hh'
  obtain rfl := some.inj (hl.symm.trans hl')
  exact ⟨rfl, rfl⟩

end MemoryHaStore

/-! ## The leases as a system -/

inductive LeaseCall where
  | acquire (req : LeaseRequest)
  | renew (role : LeaseRole) (holder : String) (generation : Int64) (ttl : Int)
  | verify (role : LeaseRole) (holder : String) (generation : Int64)
  | release (role : LeaseRole) (holder : String) (generation : Int64)
  | setUnavailable (on : Bool)

inductive LeaseReply where
  | decided (d : Except StoreError LeaseDecision)
  | answered (b : Except StoreError Bool)
  | done
  | panicked

structure LeaseOp where
  now : Int
  call : LeaseCall

namespace LeaseCall

def role? : LeaseCall → Option LeaseRole
  | acquire req => some req.role
  | renew role _ _ _ => some role
  | verify role _ _ => some role
  | release role _ _ => some role
  | setUnavailable _ => none

/-- What a call and its reply mean for the role the call names. -/
def event : LeaseCall → LeaseReply → Event String
  | acquire _, .decided (.ok (.acquired l)) => .acquire ⟨l.holder, l.generation.toInt⟩
  | renew _ holder generation _, .answered (.ok true) => .use ⟨holder, generation.toInt⟩
  | verify _ holder generation, .answered (.ok true) => .use ⟨holder, generation.toInt⟩
  | release _ holder generation, .answered (.ok true) => .close ⟨holder, generation.toInt⟩
  | _, _ => .other

theorem event_acquire_of_ne {req : LeaseRequest} {d : Except StoreError LeaseDecision}
    (h : ∀ l, d ≠ .ok (.acquired l)) : (acquire req).event (.decided d) = .other := by
  match d with
  | .error _ | .ok (.rejected _ _ _) => rfl
  | .ok (.acquired l) => exact absurd rfl (h l)

theorem event_answered_of_ne {call : LeaseCall} {b : Except StoreError Bool} (h : b ≠ .ok true) :
    call.event (.answered b) = .other := by
  match b with
  | .error _ | .ok false => cases call <;> rfl
  | .ok true => exact absurd rfl h

end LeaseCall

namespace MemoryHaStore

def perform (lim : TimeLimits) (s : MemoryHaStore) (op : LeaseOp) : LeaseReply × MemoryHaStore :=
  match op.call with
  | .acquire req =>
    match s.acquireLease lim op.now req with
    | some (d, s') => (.decided d, s')
    | none => (.panicked, s)
  | .renew role holder generation ttl =>
    match s.renewLease lim op.now role holder generation ttl with
    | some (b, s') => (.answered b, s')
    | none => (.panicked, s)
  | .verify role holder generation => (.answered (s.verifyLease op.now role holder generation), s)
  | .release role holder generation =>
    (.answered (s.releaseLease op.now role holder generation).1,
      (s.releaseLease op.now role holder generation).2)
  | .setUnavailable on => (.done, s.setUnavailable on)

end MemoryHaStore

def LeaseStep (lim : TimeLimits) (s : MemoryHaStore) (op : LeaseOp) (t : MemoryHaStore) : Prop :=
  t = (s.perform lim op).2

def leaseEvent (lim : TimeLimits) (role : LeaseRole) (e : Entry MemoryHaStore LeaseOp) :
    Event String :=
  if e.label.call.role? = some role then e.label.call.event (e.pre.perform lim e.label).1
  else .other

def Lease.register (l : Lease) : Register String :=
  ⟨some ⟨l.holder, l.generation.toInt⟩, !l.released⟩

namespace MemoryHaStore

def register (role : LeaseRole) (s : MemoryHaStore) : Register String :=
  ((s.leaseOf role).map Lease.register).getD ⟨none, false⟩

variable {lim : TimeLimits} {s : MemoryHaStore} {role : LeaseRole} {holder : String}
  {generation : Int64} {l : Lease} {op : LeaseOp}

theorem register_of_leaseOf (h : s.leaseOf role = some l) : s.register role = l.register := by
  simp [register, h]

@[simp] theorem register_setLease : (s.setLease role l).register role = l.register := by
  simp [register]

theorem register_of_heldBy (h : s.heldBy role holder generation = some l) :
    s.register role = ⟨some ⟨holder, generation.toInt⟩, true⟩ := by
  obtain ⟨hl, rfl, rfl, ho⟩ := heldBy_eq_some.mp h
  rw [register_of_leaseOf hl, Lease.register, ho]
  rfl

theorem leaseOf_perform_of_ne (h : op.call.role? ≠ some role) :
    (s.perform lim op).2.leaseOf role = s.leaseOf role := by
  have hn {role' : LeaseRole} (h : some role' ≠ some role) : role ≠ role' :=
    fun he => h (congrArg some he.symm)
  obtain ⟨now, call⟩ := op
  cases call with
  | acquire req =>
    dsimp only [perform]
    cases ha : s.acquireLease lim now req with
    | none => rfl
    | some r =>
      rcases acquireLease_cases ha with ⟨expiresAt, -, hs⟩ | ⟨-, hs⟩
      · simp only [hs]
        exact leaseOf_setLease_of_ne (hn h)
      · simp only [hs]
  | renew role' holder generation ttl =>
    dsimp only [perform]
    cases hr : s.renewLease lim now role' holder generation ttl with
    | none => rfl
    | some r =>
      rcases renewLease_cases hr with ⟨-, hs⟩ | ⟨l, expiresAt, -, -, hs⟩
      · simp only [hs]
      · simp only [hs]
        exact leaseOf_setLease_of_ne (hn h)
  | verify role' holder generation | setUnavailable on => rfl
  | release role' holder generation =>
    dsimp only [perform]
    rcases s.releaseLease_cases now role' holder generation with ⟨-, hs⟩ | ⟨l, -, hs⟩
    · rw [hs]
    · rw [hs]
      exact leaseOf_setLease_of_ne (hn h)

theorem toInt_generation_grant {req : LeaseRequest} {now expiresAt : Int}
    (h : (s.register role).epoch < I64.maxInt) :
    (grant req now expiresAt (s.leaseOf role)).generation.toInt = (s.register role).epoch + 1 := by
  have he : (s.register role).epoch = (((s.leaseOf role).map Lease.generation).getD 0).toInt := by
    unfold register
    cases s.leaseOf role <;> rfl
  rw [he] at h ⊢
  exact toInt_nextGeneration h

theorem register_perform (hr : op.call.role? = some role)
    (h : (s.register role).epoch + (op.call.event (s.perform lim op).1).isAcquire.toNat ≤
    I64.maxInt) :
    Step (s.register role) (op.call.event (s.perform lim op).1)
    ((s.perform lim op).2.register role) := by
  obtain ⟨now, call⟩ := op
  cases call with
  | acquire req =>
    obtain rfl := some.inj hr
    dsimp only [perform] at h ⊢
    cases ha : s.acquireLease lim now req with
    | none => exact .other
    | some r =>
      obtain ⟨d, s'⟩ := r
      rw [ha] at h
      rcases acquireLease_cases ha with ⟨expiresAt, rfl, rfl⟩ | ⟨hn, rfl⟩
      · simp only [register_setLease]
        exact .acquire (toInt_generation_grant (Int.lt_of_add_one_le h))
      · simp only [LeaseCall.event_acquire_of_ne hn]
        exact .other
  | renew role' holder generation ttl =>
    obtain rfl := some.inj hr
    dsimp only [perform]
    cases hre : s.renewLease lim now role' holder generation ttl with
    | none => exact .other
    | some r =>
      obtain ⟨b, s'⟩ := r
      rcases renewLease_cases hre with ⟨hn, rfl⟩ | ⟨l, expiresAt, rfl, hh, rfl⟩
      · simp only [LeaseCall.event_answered_of_ne hn]
        exact .other
      · obtain ⟨hl, -⟩ := heldBy_eq_some.mp hh
        simp only [register_setLease]
        change Step _ _ l.register
        rw [← register_of_leaseOf hl, register_of_heldBy hh]
        exact .use
  | verify role' holder generation =>
    obtain rfl := some.inj hr
    dsimp only [perform]
    by_cases hv : s.verifyLease now role' holder generation = .ok true
    · obtain ⟨l, hh, -⟩ := heldBy_of_verifyLease hv
      rw [hv, register_of_heldBy hh]
      exact .use
    · rw [LeaseCall.event_answered_of_ne hv]
      exact .other
  | release role' holder generation =>
    obtain rfl := some.inj hr
    dsimp only [perform]
    rcases s.releaseLease_cases now role' holder generation with ⟨hn, hs⟩ | ⟨l, hh, hs⟩
    · rw [LeaseCall.event_answered_of_ne hn, hs]
      exact .other
    · obtain ⟨-, rfl, rfl, -⟩ := heldBy_eq_some.mp hh
      rw [hs, register_of_heldBy hh]
      simp only [register_setLease]
      exact .close
  | setUnavailable on => contradiction

theorem leaseStep_register (e : Entry MemoryHaStore LeaseOp)
    (hs : LeaseStep lim e.pre e.label e.post)
    (h : (e.pre.register role).epoch + (leaseEvent lim role e).isAcquire.toNat ≤ I64.maxInt) :
    Step (e.pre.register role) (leaseEvent lim role e) (e.post.register role) := by
  rw [hs]
  unfold leaseEvent at h ⊢
  split at h
  · next he =>
    rw [if_pos he]
    exact register_perform he h
  · next hn =>
    have hsa : (e.pre.perform lim e.label).2.register role = e.pre.register role := by
      simp only [register, leaseOf_perform_of_ne hn]
    rw [if_neg hn, hsa]
    exact .other

theorem leases_fenced {tr : List (Entry MemoryHaStore LeaseOp)} (hr : Run (LeaseStep lim) new tr s)
    (hc : tr.countP (fun e => (leaseEvent lim role e).isAcquire) < 2 ^ 63) :
    Fenced (tr.map (leaseEvent lim role)) := by
  have hbo : (register role new).epoch +
      tr.countP (fun e => (leaseEvent lim role e).isAcquire) ≤ I64.maxInt := by
    have hn : (register role new).epoch = 0 := rfl
    unfold I64.maxInt
    omega
  exact fenced_of_bounded leaseStep_register hr hbo

end MemoryHaStore

end SniperBot.Ownership
