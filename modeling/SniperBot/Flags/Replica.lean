import SniperBot.Lib.Interleaving
import SniperBot.Execution.Ledger
import SniperBot.Positions.Book

/-!
# Runtime flags of a cluster of replicas

The kill switch, the halt latch and the module gates. Each replica keeps its values and the time
of its last decision about each flag; all share one table of rows. `Section` is where a call
stands between two sections. The mirrored configuration, the event bus and the metrics are left
out.
-/

namespace SniperBot.Positions.BotModule

open Execution (trim)

def trading : List BotModule := [.sniper, .copy, .polymarket]

def asStr : BotModule → String
  | .sniper => "sniper"
  | .copy => "copy"
  | .polymarket => "polymarket"
  | .contract => "contract"
  | .telegram => "telegram"

def fromStr (s : String) : Option BotModule :=
  let name := (trim s).map Char.toLower
  if name ∈ ["sniper", "1", "module1", "pump", "pumpfun"] then some .sniper
  else if name ∈ ["copy", "2", "module2", "copytrade"] then some .copy
  else if name ∈ ["polymarket", "poly", "3", "module3"] then some .polymarket
  else if name ∈ ["contract", "4", "module4", "staking"] then some .contract
  else if name ∈ ["telegram", "tg", "5", "module5"] then some .telegram
  else none

end SniperBot.Positions.BotModule

namespace SniperBot.Flags

open Positions Execution

/-! ## Flags and their names -/

inductive Flag where
  | killSwitch
  | halted
  | module (m : BotModule)
  deriving DecidableEq

namespace Flag

def name : Flag → String
  | .killSwitch => "kill_switch"
  | .halted => "halted"
  | .module m => "module:" ++ m.asStr

def stripModule (s : String) : Option String :=
  if "module:".toList <+: s.toList then some (String.ofList (s.toList.drop 7)) else none

/-- What a row is about. A module goes by several names in a row, but only one of
them is the key under which decisions about it are stamped. -/
def ofName (s : String) : Option Flag :=
  if s = "kill_switch" then some .killSwitch
  else if s = "halted" then some .halted
  else ((stripModule s).bind BotModule.fromStr).map .module

/-- The two flags of which the safe direction is on. -/
def isLatch : Flag → Bool
  | .killSwitch | .halted => true
  | .module _ => false

theorem ofName_name (f : Flag) : ofName f.name = some f := by
  cases f with
  | killSwitch | halted => rfl
  | module m => cases m <;> decide +kernel

end Flag

structure RuntimeFlag where
  flag : String
  enabled : Bool
  reason : String
  updatedBy : String
  updatedAt : Int
  deriving DecidableEq

/-- Insert a row or update the one of the same flag. Rows are read in the order of
their flags. -/
def upsertRow (row : RuntimeFlag) : List RuntimeFlag → List RuntimeFlag
  | [] => [row]
  | r :: rows =>
    if row.flag = r.flag then row :: rows
    else if row.flag < r.flag then row :: r :: rows
    else r :: upsertRow row rows

theorem mem_upsertRow {row r : RuntimeFlag} {rows : List RuntimeFlag}
    (h : r ∈ upsertRow row rows) : r = row ∨ r ∈ rows := by
  induction rows with
  | nil => exact .inl (List.mem_singleton.mp h)
  | cons r' rows ih =>
    simp only [upsertRow] at h
    split at h
    · exact (List.mem_cons.mp h).imp_right (List.mem_cons_of_mem _)
    · split at h
      · exact List.mem_cons.mp h
      · rcases List.mem_cons.mp h with rfl | h
        · exact .inr List.mem_cons_self
        · exact (ih h).imp_right (List.mem_cons_of_mem _)

/-! ## State -/

structure Replica where
  killSwitch : Bool
  halted : Bool
  enabled : BotModule → Bool
  /-- When a flag was last decided here, by the flag's name. -/
  touched : HashMap Int

namespace Replica

variable (p : Replica) (f : Flag) (on : Bool)

def flag : Flag → Bool
  | .killSwitch => p.killSwitch
  | .halted => p.halted
  | .module m => p.enabled m

def setFlag : Replica :=
  match f with
  | .killSwitch => { p with killSwitch := on }
  | .halted => { p with halted := on }
  | .module m => { p with enabled := Function.update p.enabled m on }

def disableTrading : Replica := BotModule.trading.foldl (fun p m => p.setFlag (.module m) false) p

def touch (flag : String) (now : Int) : Replica :=
  { p with touched := p.touched.insert flag now }

def remoteFlagIsCurrent (row : RuntimeFlag) : Bool :=
  match p.touched.lookup row.flag with
  | some touched => row.updatedAt > touched
  | none => true

@[simp] theorem touched_setFlag : (p.setFlag f on).touched = p.touched := by
  cases f <;> rfl

@[simp] theorem touched_disableTrading : p.disableTrading.touched = p.touched := rfl

theorem flag_setFlag_self : (p.setFlag f on).flag f = on := by
  cases f with
  | killSwitch | halted => rfl
  | module m => exact Function.update_self m on p.enabled

end Replica

structure Cluster where
  now : Int
  rows : List RuntimeFlag
  replicas : String → Replica

namespace Cluster

variable (c : Cluster) (row : RuntimeFlag)

def onReplica (r : String) (g : Replica → Replica) : Cluster :=
  { c with replicas := Function.update c.replicas r (g (c.replicas r)) }

def write : Cluster := { c with rows := upsertRow row c.rows }

theorem replicas_onReplica (r r' : String) (g : Replica → Replica) :
    (c.onReplica r g).replicas r' = if r' = r then g (c.replicas r) else c.replicas r' :=
  Function.update_apply ..

theorem touched_onReplica {r : String} {g : Replica → Replica}
    (hg : ∀ p, (g p).touched = p.touched) (r' : String) :
    ((c.onReplica r g).replicas r').touched = (c.replicas r').touched := by
  rw [replicas_onReplica]
  split
  · next h => rw [hg, h]
  · rfl

end Cluster

/-! ## Calls -/

structure FlagSyncReport where
  killChanged : Bool
  modulesChanged : Nat
  skippedStale : Nat
  deriving DecidableEq

instance : Inhabited FlagSyncReport := ⟨⟨false, 0, 0⟩⟩

structure Round where
  replica : String
  rows : List RuntimeFlag
  report : FlagSyncReport
  deriving DecidableEq

/-- What a call that has decided something still has to do: the flags it has to
publish, in order, and then the modules it has to disable. -/
structure Pending where
  replica : String
  reason : String
  flags : List (Flag × Bool)
  modules : List BotModule
  deriving DecidableEq

inductive Section where
  | wait (secs : Nat)
  | setKill (r : String) (on : Bool) (reason : String)
  | stopKill (r reason : String)
  | stopHalt (r reason : String)
  | stopModules (r reason : String)
  | clearHalt (r : String)
  | setEnabled (r : String) (m : BotModule) (on : Bool) (rest : List BotModule)
  | stamp (f : Flag) (on : Bool) (rest : Pending)
  | write (f : Flag) (on : Bool) (rest : Pending)
  | readAll (r : String)
  | sync (round : Round)
  | load (f : Flag) (row : RuntimeFlag) (round : Round)
  | store (f : Flag) (row : RuntimeFlag) (round : Round)
  deriving DecidableEq

inductive Reply where
  | done
  | synced (report : FlagSyncReport)

def Pending.next (p : Pending) : Section ⊕ Reply :=
  match p.flags, p.modules with
  | (f, on) :: flags, _ => .inl (.stamp f on { p with flags := flags })
  | [], m :: modules => .inl (.setEnabled p.replica m false modules)
  | [], [] => .inr .done

variable (round : Round)

def Round.skip : Round :=
  { round with report.skippedStale := round.report.skippedStale + 1 }

/-- What the store of a row counts as; a module that had the value already is counted
with the stale ones. -/
def Round.stored (f : Flag) (changed : Bool) : Round :=
  if f.isLatch then { round with report.killChanged := true }
  else if changed then { round with report.modulesChanged := round.report.modulesChanged + 1 }
  else round.skip

def Section.judge (row : RuntimeFlag) (p : Replica) : Section :=
  match Flag.ofName row.flag with
  | none => .sync round
  | some f =>
    -- on is the safe direction of a latch and is not judged
    if f.isLatch && row.enabled then
      if p.flag f then .sync round else .store f row round
    else if p.remoteFlagIsCurrent row then
      if f.isLatch then .load f row round else .store f row round
    else .sync round.skip

def emergencyFlags : List (Flag × Bool) :=
  (.killSwitch, true) :: (.halted, true) :: BotModule.trading.map fun m => (.module m, false)

def act : Section → Cluster → Cluster × (Section ⊕ Reply)
  | .wait secs, c => ({ c with now := c.now + secs }, .inr .done)
  | .setKill r on reason, c =>
    (c.onReplica r (·.setFlag .killSwitch on), Pending.next ⟨r, reason, [(.killSwitch, on)], []⟩)
  | .stopKill r reason, c =>
    (c.onReplica r (·.setFlag .killSwitch true), .inl (.stopHalt r reason))
  | .stopHalt r reason, c =>
    (c.onReplica r (·.setFlag .halted true), .inl (.stopModules r reason))
  | .stopModules r reason, c =>
    (c.onReplica r (·.disableTrading), Pending.next ⟨r, reason, emergencyFlags, []⟩)
  | .clearHalt r, c =>
    (c.onReplica r (·.setFlag .halted false), Pending.next ⟨r, "resume", [(.halted, false)], []⟩)
  | .setEnabled r m on rest, c =>
    (c.onReplica r (·.setFlag (.module m) on),
      -- a repeated decision is neither stamped nor published
      if (c.replicas r).enabled m = on then Pending.next ⟨r, "operator/gate", [], rest⟩
      else Pending.next ⟨r, "operator/gate", [(.module m, on)], rest⟩)
  | .stamp f on rest, c =>
    (c.onReplica rest.replica (·.touch f.name c.now), .inl (.write f on rest))
  | .write f on rest, c => (c.write ⟨f.name, on, rest.reason, rest.replica, c.now⟩, rest.next)
  | .readAll r, c => (c, .inl (.sync ⟨r, c.rows, default⟩))
  | .sync ⟨_, [], report⟩, c => (c, .inr (.synced report))
  | .sync ⟨r, row :: rows, report⟩, c =>
    (c, .inl (Section.judge ⟨r, rows, report⟩ row (c.replicas r)))
  | .load f row round, c =>
    (c, .inl (if (c.replicas round.replica).flag f = row.enabled then .sync round
      else .store f row round))
  | .store f row round, c =>
    (c.onReplica round.replica (·.setFlag f row.enabled),
      .inl (.sync (round.stored f ((c.replicas round.replica).flag f != row.enabled))))

/-- Time passes; an operator or a gate decides (the daily loss limit disables one
trading module after the other); or a replica starts a round of synchronisation. -/
inductive IsCall : Section → Prop
  | wait (secs : Nat) : IsCall (.wait secs)
  | setKill (r : String) (on : Bool) (reason : String) : IsCall (.setKill r on reason)
  | emergencyStop (r reason : String) : IsCall (.stopKill r reason)
  | clearHalt (r : String) : IsCall (.clearHalt r)
  | setEnabled (r : String) (m : BotModule) (on : Bool) : IsCall (.setEnabled r m on [])
  | lossLimit (r : String) : IsCall (.setEnabled r .sniper false [.copy, .polymarket])
  | sync (r : String) : IsCall (.readAll r)

end SniperBot.Flags
