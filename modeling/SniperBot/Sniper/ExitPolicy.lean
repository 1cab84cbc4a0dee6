import Mathlib.Data.List.Sort
import Mathlib.Data.Rat.Floor
import SniperBot.Lib.Extended

/-!
# The advanced exit policy

A take-profit ladder, a break-even stop and a dev-sell trigger, evaluated when the core exit rules
do not fire. The engine keeps in memory which rung of a position fires next. Prices are exact
rationals, times nanoseconds. An exit carries what its text shows.
-/

namespace SniperBot.Sniper

open Lib (Extended)

structure TpLevel (ν : Type) where
  triggerMultiple : ν
  sellFraction : ν

structure BreakEvenConfig (ν : Type) where
  activationMultiple : ν
  buffer : ν

structure ExitPolicyConfig (ν : Type) where
  ladder : List (TpLevel ν) := []
  breakEven : Option (BreakEvenConfig ν) := none
  /-- Zero disables the trigger. -/
  devSellTtlSecs : Nat := 0

def TpLevel.normalized : TpLevel Extended → Option (TpLevel ℚ)
  | ⟨.finite trigger, .finite fraction⟩ =>
    if 1 < trigger ∧ 0 < fraction then some ⟨trigger, max 0 (min fraction 1)⟩ else none
  | _ => none

def BreakEvenConfig.normalized : BreakEvenConfig Extended → Option (BreakEvenConfig ℚ)
  | ⟨.finite activation, .finite buffer⟩ =>
    if activation ≤ 1 then none else some ⟨activation, if buffer < 0 then 0 else buffer⟩
  | ⟨.finite activation, _⟩ => if activation ≤ 1 then none else some ⟨activation, 0⟩
  | _ => none

namespace ExitPolicyConfig

def normalized (c : ExitPolicyConfig Extended) : ExitPolicyConfig ℚ where
  ladder := (c.ladder.filterMap TpLevel.normalized).insertionSort
    fun a b => a.triggerMultiple ≤ b.triggerMultiple
  breakEven := c.breakEven.bind BreakEvenConfig.normalized
  devSellTtlSecs := c.devSellTtlSecs

structure Normal (c : ExitPolicyConfig ℚ) : Prop where
  sorted : c.ladder.Pairwise fun a b => a.triggerMultiple ≤ b.triggerMultiple
  level : ∀ l ∈ c.ladder, 1 < l.triggerMultiple ∧ 0 < l.sellFraction ∧ l.sellFraction ≤ 1
  breakEven : ∀ b ∈ c.breakEven, 1 < b.activationMultiple ∧ 0 ≤ b.buffer

theorem level_of_normalized {l : TpLevel Extended} {l' : TpLevel ℚ} (h : l.normalized = some l') :
    1 < l'.triggerMultiple ∧ 0 < l'.sellFraction ∧ l'.sellFraction ≤ 1 := by
  unfold TpLevel.normalized at h
  split at h
  · split at h
    · rename_i ho
      cases h
      refine ⟨ho.1, lt_max_of_lt_right (lt_min ho.2 one_pos), ?_⟩
      exact max_le zero_le_one (min_le_right _ _)
    · cases h
  · cases h

theorem breakEven_of_normalized {b : BreakEvenConfig Extended} {b' : BreakEvenConfig ℚ}
    (h : b.normalized = some b') : 1 < b'.activationMultiple ∧ 0 ≤ b'.buffer := by
  unfold BreakEvenConfig.normalized at h
  split at h
  · split at h
    · cases h
    · rename_i ha
      cases h
      refine ⟨not_le.mp ha, ?_⟩
      show (0 : ℚ) ≤ if _ < 0 then 0 else _
      split
      · exact le_refl _
      · rename_i hbuffer
        exact not_lt.mp hbuffer
  · split at h
    · cases h
    · rename_i ha
      cases h
      exact ⟨not_le.mp ha, le_refl _⟩
  · cases h

theorem normal_normalized (c : ExitPolicyConfig Extended) : c.normalized.Normal := by
  constructor
  · exact List.pairwise_insertionSort _ _
  · intro l hl
    rw [normalized, List.mem_insertionSort] at hl
    obtain ⟨raw, -, hr⟩ := List.mem_filterMap.mp hl
    exact level_of_normalized hr
  · intro b hb
    obtain ⟨raw, -, hr⟩ := Option.bind_eq_some_iff.mp hb
    exact breakEven_of_normalized hr

end ExitPolicyConfig

/-- What the text of a ladder exit shows; levels are counted from one. -/
structure LadderFiring where
  level : Nat
  mark : ℚ
  trigger : ℚ
  entry : ℚ
  multiple : ℚ
  fraction : ℚ

inductive ExitReason where
  | devSell (ttlSecs : Nat)
  | breakEven (mark stop entry armPrice : ℚ)
  | ladder (firing : LadderFiring)

structure AdvancedExit where
  kindLabel : String
  fraction : ℚ
  reason : ExitReason

def AdvancedExit.firing (x : AdvancedExit) : Option LadderFiring :=
  match x.reason with
  | .ladder f => some f
  | _ => none

structure LadderState where
  nextLevel : Nat := 0
  breakEvenArmed : Bool := false

structure ExitPolicyEngine (Pubkey : Type) where
  config : ExitPolicyConfig ℚ
  normal : config.Normal
  ladders : String → Option LadderState
  devSells : Pubkey → Option Int

namespace ExitPolicyEngine

variable {Pubkey : Type}

def new (config : ExitPolicyConfig Extended) : ExitPolicyEngine Pubkey where
  config := config.normalized
  normal := config.normal_normalized
  ladders := fun _ => none
  devSells := fun _ => none

variable (e : ExitPolicyEngine Pubkey)

def nanosPerSec : Int := 1000000000

def insideTtl (now ts : Int) : Bool :=
  0 ≤ now - ts ∧ now - ts ≤ e.config.devSellTtlSecs * nanosPerSec

def observeDevSell [DecidableEq Pubkey] (mint : Pubkey) (observedAt : Int) :
    ExitPolicyEngine Pubkey :=
  let entry := (e.devSells mint).getD observedAt
  { e with devSells :=
      Function.update e.devSells mint (some (if entry < observedAt then observedAt else entry)) }

def retain (live : List String) (now : Int) : ExitPolicyEngine Pubkey :=
  { e with
    ladders := fun id => if id ∈ live then e.ladders id else none
    devSells :=
      if 0 < e.config.devSellTtlSecs then fun mint => (e.devSells mint).filter (e.insideTtl now)
      else fun _ => none }

def devSellFiring (mint : Pubkey) (now : Int) : Bool :=
  e.config.devSellTtlSecs ≠ 0 && (e.devSells mint).any (e.insideTtl now)

def state (id : String) : LadderState := (e.ladders id).getD {}

def setState (id : String) (s : LadderState) : ExitPolicyEngine Pubkey :=
  { e with ladders := Function.update e.ladders id (some s) }

variable (s : LadderState) (avgEntry mark : ℚ)

def armed (avgEntry highWater : ℚ) : LadderState :=
  match e.config.breakEven with
  | some be =>
    if avgEntry * be.activationMultiple ≤ highWater then { s with breakEvenArmed := true } else s
  | none => s

def breakEvenStop : Option AdvancedExit :=
  match e.config.breakEven with
  | some be =>
    let stop := avgEntry * (1 + be.buffer)
    if s.breakEvenArmed = true ∧ mark ≤ stop then
      some ⟨"break_even", 1, .breakEven mark stop avgEntry (avgEntry * be.activationMultiple)⟩
    else none
  | none => none

def nextRung : Option AdvancedExit :=
  match e.config.ladder[s.nextLevel]? with
  | some level =>
    let trigger := avgEntry * level.triggerMultiple
    if trigger ≤ mark then
      some ⟨"ladder_tp", level.sellFraction, .ladder
        ⟨s.nextLevel + 1, mark, trigger, avgEntry, level.triggerMultiple, level.sellFraction⟩⟩
    else none
  | none => none

def evaluate (positionId : String) (mint : Option Pubkey) (avgEntry mark highWater : ℚ)
    (now : Int) : ExitPolicyEngine Pubkey × Option AdvancedExit :=
  if ¬ (0 < mark ∧ 0 < avgEntry) then (e, none)
  else if mint.any (e.devSellFiring · now) then
    (e, some ⟨"dev_sell", 1, .devSell e.config.devSellTtlSecs⟩)
  else
    let s := e.armed (e.state positionId) avgEntry highWater
    match e.breakEvenStop s avgEntry mark with
    | some x => (e.setState positionId s, some x)
    | none =>
      match e.nextRung s avgEntry mark with
      | some x => (e.setState positionId { s with nextLevel := s.nextLevel + 1 }, some x)
      | none => (e.setState positionId s, none)

end ExitPolicyEngine

def u64Max : Nat := 2 ^ 64 - 1

def toRawAmount (amount : ℚ) (decimals : Nat) : Nat :=
  if amount ≤ 0 then 0
  else if (2 ^ 64 : ℚ) ≤ amount * 10 ^ decimals then u64Max
  else ⌊amount * 10 ^ decimals + 1 / 2⌋.toNat

/-- What `sell_position` sells of a position; nothing if that is no raw unit. -/
def sellQty (qty fraction : ℚ) (decimals : Nat) : ℚ :=
  let fraction := max 0 (min fraction 1)
  if fraction ≤ 0 ∨ qty ≤ 0 then 0
  else if toRawAmount (qty * fraction) decimals = 0 then 0
  else qty * fraction

end SniperBot.Sniper
