import SniperBot.Lib.Double
import SniperBot.Lib.Guard
import SniperBot.Ownership.ClaimStore

/-!
# Execution claims in Redis

The hash of one execution under the four scripts of the Redis claim store. Each script is atomic
and reads the clock once. The epoch is kept in the hash, and the hash expires: the next claim then
starts again from the first epoch.
-/

namespace SniperBot.Ownership.Redis

open Lib Lib.MachineInt Lib.Runs Lib.Fencing

/-! ## The key -/

def terminalTtlMs : Int := 7 * 24 * 3600 * 1000

def maxClaimDurationMs : Int := 2 ^ 51 - 1

def maxExactMs : Int := 9007199254740991

inductive ConfigError where
  | config (message : String)
  deriving DecidableEq

def claimDurationMs (duration : Nat) : Except ConfigError Int :=
  let ms : Int := max (duration / 1000000) 1000
  if I64.maxInt < ms then .error (.config "Redis claim duration exceeds signed milliseconds")
  else if maxClaimDurationMs < ms then
    .error (.config "Redis claim duration exceeds exact Lua millisecond range")
  else .ok ms

structure RedisTime where
  seconds : Nat
  micros : Nat

def RedisTime.clock (t : RedisTime) : Int := t.seconds * 1000 + t.micros / 1000

open Double

def RedisTime.nowMs (t : RedisTime) : Int :=
  ofInt (ofInt (ofInt t.seconds * 1000) + t.micros / 1000)

/-- The fields of the hash, numbers as `tonumber` reads them. A field that is
missing, as `grace_span` is in a legacy hash, is `none`. -/
structure ClaimHash where
  owner : Option String
  epoch : Option Nat
  status : Option ClaimStatus
  claimedAt : Option Int
  leaseUntil : Option Int
  leaseSpan : Option Int
  graceSpan : Option Int
  updatedAt : Option Int
  takeovers : Option Int
  prevOwner : Option String
  kind : Option String
  module : Option String
  strategy : Option String
  symbol : Option String

structure Key where
  hash : ClaimHash
  expireAt : Option Int

def Key.expired (k : Key) (t : RedisTime) : Bool :=
  match k.expireAt with
  | none => false
  | some due => decide (due < t.clock)

def live (key : Option Key) (t : RedisTime) : Option Key := key.filter fun k => !k.expired t

def Key.pttl (k : Key) (t : RedisTime) : Int :=
  match k.expireAt with
  | none => -1
  | some due => ofInt (due - t.clock)

/-- `PEXPIRE`; without a positive time to live it deletes the key. -/
def pexpire (hash : ClaimHash) (t : RedisTime) (ttl : Int) : Option Key :=
  if ttl ≤ 0 then none else some ⟨hash, some (t.clock + ttl)⟩

/-! ## The scripts -/

structure ClaimArgs where
  leaseMs : Int
  graceMs : Int
  owner : String
  kind : String
  module : String
  strategy : String
  symbol : String

inductive Reply where
  | claim (acquired : Bool) (epoch : Nat) (status : Option ClaimStatus) (leaseUntil takeovers : Int)
      (owner : String) (timestamp : Int) (reacq : Nat)
  | answered (b : Bool)
  | error (message : String)
  | config (e : ConfigError)
  deriving DecidableEq

section

variable (a : ClaimArgs) (now : Int) (epoch : Nat) (takeovers : Int) (prev : String)

def stamp : ClaimHash where
  owner := some a.owner
  epoch := some epoch
  status := some .claimed
  claimedAt := some now
  leaseUntil := some (ofInt (now + ofInt a.leaseMs))
  leaseSpan := some (ofInt a.leaseMs)
  graceSpan := some (ofInt a.graceMs)
  updatedAt := some now
  takeovers := some takeovers
  prevOwner := some prev
  kind := some a.kind
  module := some a.module
  strategy := some a.strategy
  symbol := some a.symbol

def stamped (reacq : Nat) : Reply :=
  .claim true epoch (some .claimed) (ofInt (now + ofInt a.leaseMs)) takeovers prev now reacq

end

/-- `0` if the hash may not be claimed, `2` for the takeover of an expired lease. -/
def reacquisition (h : ClaimHash) (now graceMs : Int) : Nat :=
  match h.status with
  | some .released => 1
  | some .claimed => if h.leaseUntil.getD 0 ≤ now then 2 else 0
  | some .handedOff => if ofInt (h.updatedAt.getD 0 + graceMs) ≤ now then 1 else 0
  | none => 0

def claimRetention (a : ClaimArgs) : Int := ofInt (ofInt (ofInt a.leaseMs * 2) + ofInt a.graceMs)

section

variable (key : Option Key) (t : RedisTime)

def claimScript (a : ClaimArgs) : Reply × Option Key :=
  if ofInt (maxExactMs - t.nowMs) < claimRetention a then
    (.error "claim expiration exceeds exact millisecond range", key)
  else
    match live key t with
    | none =>
      (stamped a t.nowMs 1 0 "" 0, pexpire (stamp a t.nowMs 1 0 "") t (claimRetention a))
    | some k =>
      let reacq := reacquisition k.hash t.nowMs (ofInt a.graceMs)
      if reacq = 0 then
        (.claim false (k.hash.epoch.getD 0) k.hash.status (k.hash.leaseUntil.getD 0) 0
          (k.hash.owner.getD "") (k.hash.updatedAt.getD 0) 0, key)
      else
        let epoch := ofNat (k.hash.epoch.getD 0 + 1)
        let takeovers :=
          if reacq = 2 then ofInt (k.hash.takeovers.getD 0 + 1) else k.hash.takeovers.getD 0
        (stamped a t.nowMs epoch takeovers (k.hash.owner.getD "") reacq,
          pexpire (stamp a t.nowMs epoch takeovers (k.hash.owner.getD "")) t (claimRetention a))

variable (owner : String) (epoch : Int64)

/-- The comparisons that the other three scripts begin with. -/
def heldBy : Option Key := (live key t).filter fun k =>
    k.hash.owner = some owner ∧ k.hash.epoch.map Int.ofNat = some (ofInt epoch.toInt) ∧
      k.hash.status = some .claimed

def renewScript : Reply × Option Key :=
  match heldBy key t owner epoch with
  | none => (.answered false, key)
  | some k =>
    if k.hash.leaseUntil.getD 0 ≤ t.nowMs then (.answered false, key)
    else
      let span := k.hash.leaseSpan.getD 45000
      let grace := k.hash.graceSpan.getD 0
      let retention := max (ofInt (ofInt (span * 2) + grace)) (k.pttl t)
      if span ≤ 0 ∨ grace < 0 ∨ ofInt (maxExactMs - t.nowMs) < retention then
        (.error "renewal expiration exceeds exact millisecond range", key)
      else
        (.answered true,
          pexpire { k.hash with
            leaseUntil := some (ofInt (t.nowMs + span))
            updatedAt := some t.nowMs } t retention)

def verifyScript : Reply :=
  match heldBy key t owner epoch with
  | none => .answered false
  | some k => .answered (decide (t.nowMs < k.hash.leaseUntil.getD 0))

end

def terminalRetention (h : ClaimHash) (mode : ClaimStatus) : Int :=
  match mode, h.graceSpan with
  | .handedOff, some grace =>
    max terminalTtlMs (ofInt (grace + h.leaseSpan.getD 1000))
  | _, _ => terminalTtlMs

def releaseScript (key : Option Key) (t : RedisTime) (owner : String) (epoch : Int64)
    (mode : ClaimStatus) : Reply × Option Key :=
  match heldBy key t owner epoch with
  | none => (.answered false, key)
  | some k =>
    let retention := terminalRetention k.hash mode
    if retention ≤ 0 ∨ ofInt (maxExactMs - t.nowMs) < retention then
      (.error "terminal expiration exceeds exact millisecond range", key)
    else
      let hash := { k.hash with status := some mode, updatedAt := some t.nowMs }
      -- the grace of a legacy hash is not known, so it is kept
      if mode = .handedOff ∧ k.hash.graceSpan = none then (.answered true, some ⟨hash, none⟩)
      else (.answered true, pexpire hash t retention)

/-! ## The store as a system -/

inductive Call where
  | claim (req : ClaimRequest) (ctx : StoreContext)
  | renew (owner : String) (epoch : Int64)
  | verify (owner : String) (epoch : Int64)
  | release (owner : String) (epoch : Int64) (mode : ClaimStatus)

structure Op where
  time : RedisTime
  call : Call

def claimArgs (req : ClaimRequest) (ctx : StoreContext) : Except ConfigError ClaimArgs := do
  let leaseMs ← claimDurationMs ctx.lease
  let graceMs ← claimDurationMs ctx.handoffGrace
  return ⟨leaseMs, graceMs, ctx.ownerId, req.kind, req.module, req.strategy, req.symbol⟩

def perform (key : Option Key) (op : Op) : Reply × Option Key :=
  match op.call with
  | .claim req ctx =>
    match claimArgs req ctx with
    | .error e => (.config e, key)
    | .ok a => claimScript key op.time a
  | .renew owner epoch => renewScript key op.time owner epoch
  | .verify owner epoch => (verifyScript key op.time owner epoch, key)
  | .release owner epoch mode => releaseScript key op.time owner epoch mode

def RedisStep (key : Option Key) (op : Op) (key' : Option Key) : Prop := key' = (perform key op).2

/-- What a call and its reply mean for fencing. A pair counts as honoured whenever
the reply is not `0`, an error reply included. -/
def Call.event : Call → Reply → Event String
  | claim _ ctx, .claim true epoch _ _ _ _ _ _ => .acquire ⟨ctx.ownerId, epoch⟩
  | claim _ _, _ => .other
  | _, .answered false => .other
  | release owner epoch mode, .answered true =>
    if mode = .claimed then .use ⟨owner, epoch.toInt⟩ else .close ⟨owner, epoch.toInt⟩
  | release owner epoch _, _ => .use ⟨owner, epoch.toInt⟩
  | renew owner epoch, _ => .use ⟨owner, epoch.toInt⟩
  | verify owner epoch, _ => .use ⟨owner, epoch.toInt⟩

def event (e : Entry (Option Key) Op) : Event String := e.label.call.event (perform e.pre e.label).1

/-- A claim acquires the execution over a hash that has expired. -/
def Lapses (e : Entry (Option Key) Op) : Prop :=
  (event e).isAcquire = true ∧ ∃ k, e.pre = some k ∧ k.expired e.label.time = true

def Key.register (k : Key) : Register String :=
  ⟨some ⟨k.hash.owner.getD "", (k.hash.epoch.getD 0 : Nat)⟩, decide (k.hash.status = some .claimed)⟩

def register (key : Option Key) : Register String := (key.map Key.register).getD ⟨none, false⟩

variable {key : Option Key} {k : Key} {t : RedisTime} {owner : String} {epoch : Int64}
  {a : ClaimArgs} {op : Op} {req : ClaimRequest} {ctx : StoreContext}

theorem live_eq_some : live key t = some k ↔ key = some k ∧ k.expired t = false := by
  simp [live]

theorem heldBy_eq_some : heldBy key t owner epoch = some k ↔ (key = some k ∧ k.expired t = false) ∧
    k.hash.owner = some owner ∧
    k.hash.epoch.map Int.ofNat = some (ofInt epoch.toInt) ∧
    k.hash.status = some .claimed := by
  rw [heldBy, Option.filter_eq_some_iff, live_eq_some]
  simp

theorem pexpire_of_pos {hash : ClaimHash} {ttl : Int} (h : 0 < ttl) :
    pexpire hash t ttl = some ⟨hash, some (t.clock + ttl)⟩ :=
  if_neg (by omega)

theorem claimDurationMs_bounds {d : Nat} {ms : Int} (h : claimDurationMs d = .ok ms) :
    1000 ≤ ms ∧ ms ≤ maxClaimDurationMs := by
  unfold claimDurationMs at h
  dsimp only at h
  split at h
  · contradiction
  · split at h
    · contradiction
    · obtain rfl := Except.ok.inj h
      omega

theorem claimArgs_eq_ok (h : claimArgs req ctx = .ok a) :
    a.owner = ctx.ownerId ∧ (1000 ≤ a.leaseMs ∧ a.leaseMs ≤ maxClaimDurationMs) ∧
    1000 ≤ a.graceMs ∧ a.graceMs ≤ maxClaimDurationMs := by
  obtain ⟨leaseMs, hl, h⟩ := Guard.bind_eq_ok.mp h
  obtain ⟨graceMs, hg, h⟩ := Guard.bind_eq_ok.mp h
  obtain rfl := Except.ok.inj h
  exact ⟨rfl, claimDurationMs_bounds hl, claimDurationMs_bounds hg⟩

theorem claimRetention_pos (h : claimArgs req ctx = .ok a) : 0 < claimRetention a := by
  obtain ⟨-, h1, h2⟩ := claimArgs_eq_ok h
  unfold maxClaimDurationMs at h1 h2
  have hl : ofInt a.leaseMs = a.leaseMs := ofInt_of_le (by omega) (by omega)
  have hg : ofInt a.graceMs = a.graceMs := ofInt_of_le (by omega) (by omega)
  apply ofInt_pos
  rw [hg, ofInt_of_le (by omega) (by omega)]
  omega

def Reply.acquired? : Reply → Option Nat
  | claim true epoch _ _ _ _ _ _ => some epoch
  | _ => none

theorem event_claim (req : ClaimRequest) (ctx : StoreContext) (r : Reply) :
    (Call.claim req ctx).event r =
    (r.acquired?.map fun n => Event.acquire ⟨ctx.ownerId, n⟩).getD .other := by
  rcases r with ⟨_ | _⟩ | _ | _ | _ <;> rfl

section

variable (key : Option Key) (t : RedisTime)

theorem claimScript_cases (hpos : 0 < claimRetention a) :
    ((claimScript key t a).1.acquired? = none ∧ (claimScript key t a).2 = key) ∨
    ∃ n takeovers prev due, (claimScript key t a).1.acquired? = some n ∧
    (claimScript key t a).2 = some ⟨stamp a t.nowMs n takeovers prev, due⟩ ∧
    (live key t = none ∧ n = 1 ∨
      ∃ k, live key t = some k ∧ n = ofNat (k.hash.epoch.getD 0 + 1)) := by
  unfold claimScript
  split
  · exact .inl ⟨rfl, rfl⟩
  · cases hl : live key t with
    | none =>
      refine .inr ⟨1, 0, "", some (t.clock + claimRetention a), rfl, pexpire_of_pos hpos, ?_⟩
      exact .inl ⟨rfl, rfl⟩
    | some k =>
      dsimp only
      split
      · exact .inl ⟨rfl, rfl⟩
      · exact .inr ⟨_, _, _, _, rfl, pexpire_of_pos hpos, .inr ⟨k, rfl, rfl⟩⟩

section

variable (owner : String) (epoch : Int64)

theorem renewScript_cases : renewScript key t owner epoch = (.answered false, key) ∨
    ∃ k, heldBy key t owner epoch = some k ∧ (renewScript key t owner epoch).1 ≠ .answered false ∧
    register (renewScript key t owner epoch).2 = register key := by
  unfold renewScript
  cases hh : heldBy key t owner epoch with
  | none => exact .inl rfl
  | some k =>
    obtain ⟨⟨rfl, -⟩, -⟩ := heldBy_eq_some.mp hh
    dsimp only
    split
    · exact .inl rfl
    · split
      · exact .inr ⟨k, rfl, by simp, rfl⟩
      · next h =>
        have hpos : 0 < ofInt (k.hash.leaseSpan.getD 45000 * 2) := ofInt_pos (by omega)
        have hr : 0 < max (ofInt (ofInt (k.hash.leaseSpan.getD 45000 * 2) +
            k.hash.graceSpan.getD 0)) (k.pttl t) :=
          lt_max_of_lt_left (ofInt_pos (by omega))
        refine .inr ⟨k, rfl, by simp, ?_⟩
        rw [pexpire_of_pos hr]
        rfl

theorem verifyScript_cases : verifyScript key t owner epoch = .answered false ∨
    ∃ k, heldBy key t owner epoch = some k ∧ verifyScript key t owner epoch = .answered true := by
  unfold verifyScript
  cases heldBy key t owner epoch with
  | none => exact .inl rfl
  | some k =>
    by_cases h : t.nowMs < k.hash.leaseUntil.getD 0
    · exact .inr ⟨k, rfl, by simp [h]⟩
    · exact .inl (by simp [h])

theorem releaseScript_cases (mode : ClaimStatus) :
    releaseScript key t owner epoch mode = (.answered false, key) ∨
    ∃ k, heldBy key t owner epoch = some k ∧
    ((∃ message, releaseScript key t owner epoch mode = (.error message, key)) ∨
      ∃ due, releaseScript key t owner epoch mode = (.answered true,
        some ⟨{ k.hash with status := some mode, updatedAt := some t.nowMs }, due⟩)) := by
  unfold releaseScript
  cases heldBy key t owner epoch with
  | none => exact .inl rfl
  | some k =>
    refine .inr ⟨k, rfl, ?_⟩
    dsimp only
    split
    · exact .inl ⟨_, rfl⟩
    · next h =>
      split
      · exact .inr ⟨none, rfl⟩
      · rw [pexpire_of_pos (by omega)]
        exact .inr ⟨_, rfl⟩

end

end

end SniperBot.Ownership.Redis
