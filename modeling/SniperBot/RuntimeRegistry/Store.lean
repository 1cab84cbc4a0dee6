import Mathlib.Algebra.Group.Nat.Defs
import SniperBot.Lib.Interleaving
import SniperBot.Lib.Rows

/-!
# The runtime registry

One row per runtime instance of a tenant, kept in memory, and the calls of the registry service
on it. A call is a sequence of store calls, each of which is one section; what it has read may be
stale by the time it writes. Times are in any fixed unit.
-/

namespace SniperBot.RuntimeRegistry

open Lib.Rows

inductive RuntimeStatus where
  | provisioning
  | active
  | draining
  | stopped
  | retired
  deriving DecidableEq

namespace RuntimeStatus

def isLive : RuntimeStatus → Bool
  | provisioning | active => true
  | _ => false

def isTerminal : RuntimeStatus → Bool
  | stopped | retired => true
  | _ => false

end RuntimeStatus

def i64Max : Nat := 2 ^ 63 - 1

structure RuntimeGeneration where
  raw : Nat
  pos : 1 ≤ raw
  fits : raw < 2 ^ 64
  deriving DecidableEq

namespace RuntimeGeneration

def first : RuntimeGeneration := ⟨1, by decide, by decide⟩

def fromRaw (raw : Nat) : Option RuntimeGeneration :=
  if h : 1 ≤ raw ∧ raw < 2 ^ 64 then some ⟨raw, h.1, h.2⟩ else none

variable (g : RuntimeGeneration)

def asI64 : Int := (g.raw : Int).bmod (2 ^ 64)

def fromI64 (value : Int) : Option RuntimeGeneration :=
  if 0 ≤ value then fromRaw value.toNat else none

def toI64 : Option Int :=
  if g.raw ≤ i64Max then some g.raw else none

def next : Option RuntimeGeneration := (fromRaw (g.raw + 1)).filter fun g => g.toI64.isSome

end RuntimeGeneration

structure TenantRuntimeRecord where
  runtimeId : String
  organizationId : String
  generation : RuntimeGeneration
  status : RuntimeStatus
  workerId : String
  startedAt : Int
  heartbeatAt : Int
  leaseExpiresAt : Option Int
  stoppedAt : Option Int
  deriving DecidableEq

structure FenceToken where
  organizationId : String
  runtimeId : String
  generation : RuntimeGeneration

namespace TenantRuntimeRecord

def newActive (organizationId runtimeId : String) (generation : RuntimeGeneration)
    (workerId : String) (now : Int) : TenantRuntimeRecord where
  runtimeId := runtimeId
  organizationId := organizationId
  generation := generation
  status := .active
  workerId := workerId
  startedAt := now
  heartbeatAt := now
  leaseExpiresAt := none
  stoppedAt := none

variable (r : TenantRuntimeRecord)

def isHeartbeatFresh (now maxAge : Int) : Bool := now - r.heartbeatAt ≤ maxAge

def isLeaseLive (now : Int) : Bool := r.leaseExpiresAt.all fun expires => now < expires

def fenceToken : FenceToken := ⟨r.organizationId, r.runtimeId, r.generation⟩

def LiveFor (organizationId : String) (r : TenantRuntimeRecord) : Bool :=
  r.organizationId = organizationId && r.status.isLive

end TenantRuntimeRecord

structure LeasePolicy where
  staleAfter : Int

inductive LeaseVerdict where
  | live
  | notLiveStatus (status : RuntimeStatus)
  | heartbeatStale
  | leaseExpired
  deriving DecidableEq

def evaluate (r : TenantRuntimeRecord) (policy : LeasePolicy) (now : Int) : LeaseVerdict :=
  if r.status.isLive = false then .notLiveStatus r.status
  else if r.isHeartbeatFresh now policy.staleAfter = false then .heartbeatStale
  else if r.isLeaseLive now = false then .leaseExpired
  else .live

/-! ## The store -/

inductive RegistryError where
  | alreadyLive
  | healthyPeer (workerId : String) (heartbeatAt : Int)

abbrev Rows := List TenantRuntimeRecord

namespace Rows

variable (rows : Rows)

def insert (record : TenantRuntimeRecord) : Except RegistryError Rows :=
  if rows.any fun r => r.LiveFor record.organizationId && record.status.isLive &&
      r.runtimeId != record.runtimeId then .error .alreadyLive
  else .ok (rows ++ [record])

variable (organizationId : String) (now : Int)

def liveFor : Option TenantRuntimeRecord :=
  maxByKey (fun r => (r.generation.raw : Int)) (rows.filter fun r => r.LiveFor organizationId)

def heartbeat (runtimeId : String) (now : Int) : Rows × Bool :=
  match rows.find? fun r => r.runtimeId = runtimeId with
  | some r =>
    if r.status.isLive then
      (modifyFirst (fun r => r.runtimeId = runtimeId) (fun r => { r with heartbeatAt := now }) rows,
        true)
    else (rows, false)
  | none => (rows, false)

/-- Terminal statuses stick. -/
def setStatus (runtimeId : String) (status : RuntimeStatus) (now : Int) : Rows :=
  modifyFirst (fun r => r.runtimeId = runtimeId) (fun r =>
    if r.status.isTerminal then r
    else if status.isTerminal then { r with status := status, stoppedAt := some now }
    else { r with status := status }) rows

def maxGeneration : Option RuntimeGeneration := (maxByKey (fun r => (r.generation.raw : Int))
    (rows.filter fun r => r.organizationId = organizationId)).map (·.generation)

def nextGeneration : RuntimeGeneration :=
  match rows.maxGeneration organizationId with
  | none => .first
  | some max => max.next.getD .first

def stopLive : Rows := rows.map fun r =>
    if r.LiveFor organizationId then { r with status := .stopped, stoppedAt := some now } else r

def rotatedGeneration : RuntimeGeneration :=
  let max := ((maxByKey (fun r => r.generation.asI64)
    (rows.filter fun r => r.organizationId = organizationId)).map (·.generation.asI64)).getD 0
  ((RuntimeGeneration.fromI64 max).bind (·.next)).getD .first

def rotate (organizationId newRuntimeId workerId : String) (now : Int) :
    Rows × TenantRuntimeRecord :=
  let stopped := rows.stopLive organizationId now
  let record := .newActive organizationId newRuntimeId (stopped.rotatedGeneration organizationId)
    workerId now
  (stopped ++ [record], record)

def staleSince (cutoff : Int) : List TenantRuntimeRecord :=
  rows.filter fun r => r.status.isLive && r.heartbeatAt < cutoff

end Rows

/-! ## Fences -/

inductive FenceVerdict where
  | current (record : TenantRuntimeRecord)
  | superseded (claimed : FenceToken) (current : String)
  | staleGeneration (claimed current : RuntimeGeneration)
  | noLiveRuntime (organizationId : String)
  | notLeaseLive (verdict : LeaseVerdict)

def FenceVerdict.isCurrent : FenceVerdict → Bool
  | current _ => true
  | _ => false

def verifyWithPolicy (rows : Rows) (claimed : FenceToken) (policy : LeasePolicy) (now : Int) :
    FenceVerdict :=
  match rows.liveFor claimed.organizationId with
  | none => .noLiveRuntime claimed.organizationId
  | some current =>
    let lease := evaluate current policy now
    if lease ≠ .live then .notLeaseLive lease
    else if current.runtimeId ≠ claimed.runtimeId then .superseded claimed current.runtimeId
    else if current.generation ≠ claimed.generation then
      .staleGeneration claimed.generation current.generation
    else .current current

/-! ## Calls -/

structure Registry where
  clock : Int
  rows : Rows

inductive Call where
  | ensureActive (organizationId workerId : String) (now : Int) (newId : String)
  /-- No live runtime was found: the next generation is to be read. -/
  | register (organizationId workerId : String) (now : Int) (newId : String)
  | insert (record : TenantRuntimeRecord)
  /-- The live runtime that was read is the worker's own or stale. -/
  | takeOver (existing : TenantRuntimeRecord) (organizationId workerId : String) (now : Int)
      (newId : String)
  | rotate (organizationId workerId : String) (now : Int) (newId : String)
  | heartbeat (runtimeId : String) (now : Int)
  | drain (runtimeId : String) (now : Int)
  | stop (runtimeId : String) (now : Int)
  | reapStale (now : Int)
  /-- The stale runtimes that were read are stopped one after the other. -/
  | reap (now : Int) (record : TenantRuntimeRecord) (rest reaped : List TenantRuntimeRecord)
  | tick (time : Int)

inductive Reply where
  | registered (record : TenantRuntimeRecord)
  | rotated (record : TenantRuntimeRecord)
  | refused (error : RegistryError)
  | beat (live : Bool)
  | done
  | reaped (records : List TenantRuntimeRecord)

def act (policy : LeasePolicy) : Call → Registry → Registry × (Call ⊕ Reply)
  | .ensureActive org worker now newId, x =>
    match x.rows.liveFor org with
    | none => (x, .inl (.register org worker now newId))
    | some existing =>
      if existing.workerId = worker ∨ existing.isHeartbeatFresh now policy.staleAfter = false then
        (x, .inl (.takeOver existing org worker now newId))
      else (x, .inr (.refused (.healthyPeer existing.workerId existing.heartbeatAt)))
  | .register org worker now newId, x =>
    (x, .inl (.insert (.newActive org newId (x.rows.nextGeneration org) worker now)))
  | .insert record, x =>
    match x.rows.insert record with
    | .error e => (x, .inr (.refused e))
    | .ok rows => ({ x with rows := rows }, .inr (.registered record))
  | .takeOver _ org worker now newId, x =>
    ({ x with rows := (x.rows.rotate org newId worker now).1 },
      .inr (.rotated (x.rows.rotate org newId worker now).2))
  | .rotate org worker now newId, x =>
    ({ x with rows := (x.rows.rotate org newId worker now).1 },
      .inr (.rotated (x.rows.rotate org newId worker now).2))
  | .heartbeat id now, x =>
    ({ x with rows := (x.rows.heartbeat id now).1 }, .inr (.beat (x.rows.heartbeat id now).2))
  | .drain id now, x => ({ x with rows := x.rows.setStatus id .draining now }, .inr .done)
  | .stop id now, x => ({ x with rows := x.rows.setStatus id .stopped now }, .inr .done)
  | .reapStale now, x =>
    match x.rows.staleSince (now - policy.staleAfter) with
    | [] => (x, .inr (.reaped []))
    | record :: rest => (x, .inl (.reap now record rest []))
  | .reap now record rest reaped, x =>
    ({ x with rows := x.rows.setStatus record.runtimeId .stopped now },
      match rest with
      | [] => .inr (.reaped (reaped ++ [record]))
      | record' :: rest' => .inl (.reap now record' rest' (reaped ++ [record])))
  | .tick time, x => ({ x with clock := max x.clock time }, .inr .done)

def Call.Entry : Call → Prop
  | .register .. | .insert .. | .takeOver .. | .reap .. => False
  | _ => True

instance : DecidablePred Call.Entry := fun k => by
  unfold Call.Entry
  split <;> infer_instance

def Call.newId? : Call → Option String
  | .ensureActive _ _ _ newId | .register _ _ _ newId | .takeOver _ _ _ _ newId
  | .rotate _ _ _ newId => some newId
  | .insert record => some record.runtimeId
  | _ => none

end SniperBot.RuntimeRegistry
