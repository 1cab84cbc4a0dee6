import SniperBot.Execution.Ledger
import SniperBot.Ownership.LeaseStore

/-!
# The leases of a worker, in the store and in its own table

A worker notes the generation of each lease it acquires, and its shutdown releases what it has
noted. A refused renewal or fence drops the note of the role, a release drops it in any case.
-/

namespace SniperBot.Ownership

open Lib.MachineInt Lib.Runs Execution MemoryHaStore Option

def LeaseRole.parse (s : String) : Option LeaseRole :=
  let s := trim s
  match [reconciliation, recovery, accountingMaintenance, stateSync].find? (·.asString = s) with
  | some role => some role
  | none =>
    match s.toList with
    | 'f' :: 'e' :: 'e' :: 'd' :: ':' :: name =>
      let name := trim (String.ofList name)
      if name = "" then none else some (.feed name)
    | _ => none

/-- The holder is the worker itself. -/
structure LeaseGuard where
  role : LeaseRole
  generation : Int64

/-- A worker and its store, with the clock that both read. Of the leases in the table of the
worker the generations are modelled. -/
structure HaRuntime where
  workerId : String
  leaseTtl : Int
  leases : LeaseRole → Option Int64
  store : MemoryHaStore
  now : Int

namespace HaRuntime

variable (lim : TimeLimits) (rt : HaRuntime) (role : LeaseRole) (g : LeaseGuard)

def note (n : Option Int64) : HaRuntime := { rt with leases := Function.update rt.leases role n }

-- an expiry beyond the range of times panics, which leaves the store and the table as they are
def acquire : HaRuntime :=
  match rt.store.acquireLease lim rt.now ⟨role, rt.workerId, rt.leaseTtl⟩ with
  | some (.ok (.acquired l), store) => { rt.note role (some l.generation) with store }
  | _ => rt

def renew : HaRuntime :=
  match rt.store.renewLease lim rt.now g.role rt.workerId g.generation rt.leaseTtl with
  | some (.ok true, store) => { rt with store }
  | some (.ok false, _) => rt.note g.role none
  | _ => rt

def fence : HaRuntime :=
  match rt.store.verifyLease rt.now g.role rt.workerId g.generation with
  | .ok false => rt.note g.role none
  | _ => rt

def release : HaRuntime :=
  { rt.note g.role none with
    store := (rt.store.releaseLease rt.now g.role rt.workerId g.generation).2 }

/-- The leases part of the first shutdown, which goes over the noted roles in any order; a later
one returns at once. A role is read back from its text. -/
def shutdown (rt : HaRuntime) : List LeaseRole → HaRuntime
  | [] => rt
  | role :: held =>
    match rt.leases role, LeaseRole.parse role.asString with
    | some n, some role' => shutdown (rt.release ⟨role', n⟩) held
    | _, _ => shutdown rt held

inductive Op where
  | acquire (role : LeaseRole)
  | renew (g : LeaseGuard)
  | fence (g : LeaseGuard)
  | release (g : LeaseGuard)
  | wait (d : ℕ)
  | outage (on : Bool)

def perform : Op → HaRuntime
  | .acquire role => rt.acquire lim role
  | .renew g => rt.renew lim g
  | .fence g => rt.fence g
  | .release g => rt.release g
  | .wait d => { rt with now := rt.now + d }
  | .outage on => { rt with store := rt.store.setUnavailable on }

def Op.guard? : Op → Option LeaseGuard
  | .renew g | .fence g | .release g => some g
  | _ => none

/-- No other generation of the role is noted than that of the guard. -/
def Current : Prop := ∀ n ∈ rt.leases g.role, n = g.generation

/-- A superseded guard comes to nothing because the store is down, a release finds the store up,
and what is acquired can be found again by its text. -/
def Careful : Op → Prop
  | .acquire role => LeaseRole.parse role.asString = some role
  | .renew g | .fence g => rt.store.unavailable = false → rt.Current g
  | .release g => rt.store.unavailable = false ∧ rt.Current g
  | _ => True

def Holds (n : Int64) : Prop := ∃ l ∈ rt.store.heldBy role rt.workerId n, rt.now < l.expiresAt

/-- What the worker holds is noted, and can be found by its text. -/
structure Recorded (rt : HaRuntime) : Prop where
  noted : ∀ role n, rt.Holds role n → rt.leases role = some n
  named : ∀ role n, rt.leases role = some n → LeaseRole.parse role.asString = some role

variable {lim rt role g} {n : Int64} {role' : LeaseRole} {l : Lease} {rt' : HaRuntime}

theorem holds_setLease : Holds { rt with store := rt.store.setLease role l } role' n ↔
    if role' = role then
      l.holder = rt.workerId ∧ l.generation = n ∧ l.released = false ∧ rt.now < l.expiresAt
    else rt.Holds role' n := by
  unfold Holds
  simp only [mem_def, heldBy_eq_some, and_assoc]
  split_ifs with h
  · simp [h]
  · rw [leaseOf_setLease_of_ne h]

/-- What an operation through a guard does: it gains nothing, and drops the note of the role only
if nothing is held under the generation of the guard. -/
structure Through (g : LeaseGuard) (rt rt' : HaRuntime) : Prop where
  gains : ∀ role n, rt'.Holds role n → rt.Holds role n
  leases : rt'.leases = rt.leases ∨
    rt'.leases = Function.update rt.leases g.role none ∧ ¬ rt'.Holds g.role g.generation

theorem Recorded.through (h : rt.Recorded) (hc : rt.Current g) (ht : Through g rt rt') :
    rt'.Recorded := by
  rcases ht.leases with he | ⟨he, hn⟩
  · exact ⟨fun role n hh => he ▸ h.noted role n (ht.gains role n hh), he ▸ h.named⟩
  · refine ⟨fun role n hh => ?_, fun role n hr => ?_⟩ <;> by_cases hi : role = g.role
    · subst hi
      exact absurd (hc n (h.noted _ n (ht.gains _ n hh)) ▸ hh) hn
    · rw [he, Function.update_of_ne hi]
      exact h.noted role n (ht.gains role n hh)
    · simp [he, hi] at hr
    · rw [he, Function.update_of_ne hi] at hr
      exact h.named role n hr

theorem Recorded.acquire (h : rt.Recorded) (hp : LeaseRole.parse role.asString = some role) :
    (rt.acquire lim role).Recorded := by
  unfold HaRuntime.acquire
  split
  · next l store ha =>
    rcases acquireLease_cases ha with ⟨expiresAt, hl, rfl⟩ | ⟨hn, -⟩
    · obtain rfl := LeaseDecision.acquired.inj (Except.ok.inj hl)
      refine ⟨fun role' n hh => ?_, fun role' n hr => ?_⟩
      · replace hh := (@holds_setLease rt _ _ _ _).mp hh
        split_ifs at hh with hi
        · simp [note, hi, hh.2.1]
        · simpa [note, hi] using h.noted role' n hh
      · by_cases hi : role' = role
        · rwa [hi]
        · exact h.named role' n (by simpa [note, hi] using hr)
    · exact absurd rfl (hn l)
  · exact h

theorem renew_eq_self (ha : rt.store.unavailable = true) : rt.renew lim g = rt := by
  simp [renew, renewLease, MemoryHaStore.guard, ha]

theorem fence_eq_self (ha : rt.store.unavailable = true) : rt.fence g = rt := by
  simp [fence, verifyLease, MemoryHaStore.guard, ha]

section

variable (ha : rt.store.unavailable = false)
include ha

theorem guard_ok (op : String) : rt.store.guard op = .ok () := by simp [MemoryHaStore.guard, ha]

theorem fence_through : Through g rt (rt.fence g) := by
  unfold fence
  split
  · next hf =>
    refine ⟨fun _ _ => id, .inr ⟨rfl, fun ⟨l, hl, ht⟩ => ?_⟩⟩
    obtain ⟨hl, hw, hg, hr⟩ := heldBy_eq_some.mp hl
    have hli : l.isLive rt.now = true := by simpa [Lease.isLive, hr, note] using ht
    rw [verifyLease, guard_ok ha, show rt.store.leaseOf g.role = some l from hl] at hf
    simp [hg, hli, show l.holder = rt.workerId from hw] at hf
  · exact ⟨fun _ _ => id, .inl rfl⟩

theorem renew_through : Through g rt (rt.renew lim g) := by
  simp only [renew, renewLease, guard_ok ha]
  cases hl : rt.store.heldBy g.role rt.workerId g.generation with
  | none =>
    refine ⟨fun _ _ => id, .inr ⟨rfl, fun ⟨l, hh, _⟩ => ?_⟩⟩
    cases hl.symm.trans hh
  | some l =>
    dsimp only
    split_ifs with he
    · refine ⟨fun _ _ => id, .inr ⟨rfl, fun ⟨l', hh, ht⟩ => ?_⟩⟩
      obtain rfl := some.inj (hl.symm.trans hh)
      exact absurd he (not_le.mpr ht)
    · cases lim.add rt.now rt.leaseTtl with
      | none => exact ⟨fun _ _ => id, .inl rfl⟩
      | some expiresAt =>
        refine ⟨fun role n hh => ?_, .inl rfl⟩
        replace hh := holds_setLease.mp hh
        split_ifs at hh with hi
        · obtain ⟨-, rfl, -⟩ := hh
          rw [hi]
          exact ⟨l, (heldBy_eq_some.mp hl).2.2.1 ▸ hl, not_le.mp he⟩
        · exact hh

theorem release_through : Through g rt (rt.release g) := by
  simp only [release, releaseLease, guard_ok ha]
  cases hl : rt.store.heldBy g.role rt.workerId g.generation with
  | none =>
    refine ⟨fun _ _ => id, .inr ⟨rfl, fun ⟨l, hh, _⟩ => ?_⟩⟩
    cases hl.symm.trans hh
  | some l =>
    let l' : Lease := { l with released := true, expiresAt := rt.now }
    have hs : ∀ role n, Holds { rt with store := rt.store.setLease g.role l' } role n →
        role ≠ g.role ∧ rt.Holds role n := by
      intro role n hh
      replace hh := holds_setLease.mp hh
      split_ifs at hh with hi
      · cases hh.2.2.1
      · exact ⟨hi, hh⟩
    exact ⟨fun role n hh => (hs role n hh).2, .inr ⟨rfl, fun hh => (hs _ _ hh).1 rfl⟩⟩

theorem not_holds_shutdown {held : List LeaseRole} (h : rt.Recorded)
    (hh : ∀ role n, rt.leases role = some n → role ∈ held) (role : LeaseRole) (n : Int64) :
    ¬ (rt.shutdown held).Holds role n := by
  induction held generalizing rt with
  | nil => exact fun hr => List.not_mem_nil (hh role n (h.noted role n hr))
  | cons first held ih =>
    unfold shutdown
    cases hl : rt.leases first with
    | none =>
      refine ih ha h fun role n hr => (List.mem_cons.mp (hh role n hr)).resolve_left ?_
      rintro rfl
      cases hl.symm.trans hr
    | some m =>
      rw [h.named first m hl]
      have hc : rt.Current ⟨first, m⟩ := fun q hq => mem_unique hq hl
      refine ih ?_ (h.through hc (release_through ha)) fun role n hr => ?_
      · rcases releaseLease_cases rt.store rt.now first rt.workerId m with ⟨-, hs⟩ | ⟨l, -, hs⟩
        · exact (congrArg MemoryHaStore.unavailable hs).trans ha
        · exact (congrArg (·.2.unavailable) hs).trans ha
      · by_cases hi : role = first
        · simp [release, note, hi] at hr
        · have hr := hh role n (by simpa [release, note, hi] using hr)
          exact (List.mem_cons.mp hr).resolve_left hi

end

def Step (lim : TimeLimits) (rt : HaRuntime) (op : Op) (rt' : HaRuntime) : Prop :=
  rt' = rt.perform lim op

theorem recorded_step {op : Op} (h : rt.Recorded) (hc : rt.Careful op) (hs : Step lim rt op rt') :
    rt'.Recorded := by
  obtain rfl := hs
  cases op with
  | acquire role => exact h.acquire hc
  | renew g =>
    cases ha : rt.store.unavailable with
    | true => rwa [perform, renew_eq_self ha]
    | false => exact h.through (hc ha) (renew_through ha)
  | fence g =>
    cases ha : rt.store.unavailable with
    | true => rwa [perform, fence_eq_self ha]
    | false => exact h.through (hc ha) (fence_through ha)
  | release g => exact h.through hc.2 (release_through hc.1)
  | wait d =>
    refine ⟨fun role n ⟨l, hl, ht⟩ => h.noted role n ⟨l, hl, ?_⟩, h.named⟩
    have ht : rt.now + d < l.expiresAt := ht
    omega
  | outage on => exact ⟨h.noted, h.named⟩

theorem perform_superseded {op : Op} (hc : rt.Careful op) (hg : op.guard? = some g)
    (hn : ¬ rt.Current g) : rt.perform lim op = rt := by
  cases op with
  | renew | fence =>
    obtain rfl := some.inj hg
    have ha : rt.store.unavailable = true := by simpa using mt hc hn
    first | exact renew_eq_self ha | exact fence_eq_self ha
  | release =>
    obtain rfl := some.inj hg
    exact absurd hc.2 hn
  | acquire | wait | outage => cases hg

/-- Where every operation is careful, one through a superseded guard leaves the note of the newer
lease, and a shutdown while the store is up leaves no live lease of the worker. -/
theorem shutdown_lets_go {t : HaRuntime} {tr : List (Entry HaRuntime Op)}
    (hr : Run (Step lim) rt tr t) (hc : ∀ e ∈ tr, e.pre.Careful e.label)
    (h0 : ∀ role n, ¬ rt.Holds role n) (he : ∀ role, rt.leases role = none) :
    (∀ e ∈ tr, ∀ g n, e.label.guard? = some g → e.pre.leases g.role = some n → n ≠ g.generation →
      e.post.leases g.role = some n) ∧
    ∀ held, (∀ role n, t.leases role = some n → role ∈ held) → t.store.unavailable = false →
      ∀ role n, ¬ (t.shutdown held).Holds role n := by
  have h := hr.invariant_of_entries (fun _ _ _ => recorded_step) hc
    ⟨fun role n hh => absurd hh (h0 role n), by simp [he]⟩
  refine ⟨fun e hm g n hg hn hne => ?_, fun held hh ha => not_holds_shutdown ha h hh⟩
  obtain ⟨a, b, rfl⟩ := List.append_of_mem hm
  have hs : e.post = e.pre.perform lim e.label := hr.around.2.1
  rw [hs, perform_superseded (hc e hm) hg fun hcu => hne (hcu n hn), hn]

section

instance : Decidable (rt.Holds role n) := inferInstanceAs (Decidable (∃ _ ∈ _, _))

-- by the one lease that is noted, not by trying every generation
instance : Decidable (rt.Current g) := decidableForallMem _

private def idle : HaRuntime := ⟨"w", 60, fun _ => none, .new, 0⟩

private def after (ops : List Op) : HaRuntime := ops.foldl (perform ⟨0, 0, 100⟩) idle

private theorem run_after (ops : List Op) :
    Run (Step ⟨0, 0, 100⟩) idle (history (perform ⟨0, 0, 100⟩) idle ops) (after ops) :=
  run_history _ _ _

theorem shutdown_lets_go_renewed :
    let t := after [.acquire .recovery, .acquire .recovery, .renew ⟨.recovery, 2⟩]
    t.Holds .recovery 2 ∧ ∀ held, (∀ role n, t.leases role = some n → role ∈ held) →
      ∀ role n, ¬ (t.shutdown held).Holds role n := by
  refine ⟨by decide +kernel, fun held hh => ?_⟩
  refine (shutdown_lets_go (run_after _) ?_ (fun _ _ ⟨_, hl, _⟩ => nomatch hl)
    fun _ => rfl).2 held hh rfl
  simp only [history, List.forall_mem_cons, List.not_mem_nil, false_implies, implies_true, Careful]
  decide +kernel

/-- The first guard is released after the second acquisition. The store refuses, but the worker
no longer knows of the lease that it holds. -/
theorem stale_release_forgets :
    let t := after [.acquire .recovery, .acquire .recovery]
    let t' := t.release ⟨.recovery, 1⟩
    t.leases .recovery = some 2 ∧ t'.leases .recovery = none ∧ t'.store.unavailable = false ∧
      (t'.shutdown [.recovery]).Holds .recovery 2 := by
  decide +kernel

end

end HaRuntime

end SniperBot.Ownership
