import Mathlib.Algebra.BigOperators.Group.Multiset.Basic
import Mathlib.Algebra.Order.BigOperators.Group.Multiset
import Mathlib.Algebra.Order.Field.Rat
import Mathlib.Algebra.Order.Group.Multiset
import Mathlib.Data.List.AList
import Mathlib.Data.Multiset.Filter
import Mathlib.Tactic.Linarith

/-!
# The position book of a replica

Positions by id, and the order in which their ids were first written. Amounts are
exact rationals and times are integers. The map is an association list; the order
in which a hash map would be walked is left open in the source, and nothing below
depends on it.
-/

namespace SniperBot.Positions

open Multiset Sigma AList

inductive PositionStatus where
  | opened
  | closing
  | closed
  | stoppedOut
  | failed
  deriving DecidableEq

def PositionStatus.isTerminal : PositionStatus → Bool
  | .closed | .stoppedOut | .failed => true
  | .opened | .closing => false

inductive TradeSource where
  | sniper
  | copy
  | polymarket
  | manual
  | risk
  deriving DecidableEq

inductive BotModule where
  | sniper
  | copy
  | polymarket
  | contract
  | telegram
  deriving DecidableEq

structure Position where
  id : String
  updatedAt : Int
  closedAt : Option Int
  source : TradeSource
  status : PositionStatus
  symbol : String
  qty : ℚ
  avgEntry : ℚ
  costBasis : ℚ
  realizedQuote : ℚ
  /-- Cumulative profit over the exits; unknown in rows of older versions. -/
  realizedPnlQuote : Option ℚ
  lastMark : ℚ
  reasonClosed : Option String
  deriving DecidableEq

namespace Position

variable (p : Position)

def unrealised : ℚ := if p.qty ≤ 0 then 0 else (p.lastMark - p.avgEntry) * p.qty

def realised : ℚ := p.realizedPnlQuote.getD (p.realizedQuote - p.costBasis)

def totalPnl : ℚ := p.realised + p.unrealised

def totalPnlPct : ℚ :=
  let lifecycleBasis :=
    (p.realizedPnlQuote.map fun pnl => p.realizedQuote - pnl + p.costBasis).getD p.costBasis
  if lifecycleBasis ≤ 0 then 0 else p.totalPnl / lifecycleBasis * 100

def notional : ℚ := p.qty * p.lastMark

/-- What the position counts for against an exposure cap. -/
def exposure : ℚ := max p.costBasis p.notional

def close (status : PositionStatus) (reason : String) (now : Int) : Position :=
  { p with status := status, closedAt := some now, updatedAt := now, reasonClosed := some reason }

end Position

structure Book where
  positions : AList fun _ : String => Position
  order : List String

namespace Book

def empty : Book := ⟨∅, []⟩

variable (b : Book)

def position (id : String) : Option Position := b.positions.lookup id

variable (p : Position)

def insert : Book := { b with positions := b.positions.insert p.id p }

def pushOrder (id : String) : Book := { b with order := b.order ++ [id] }

def closePosition (id : String) (status : PositionStatus) (reason : String) (now : Int) :
    Book × Option (Position × ℚ × ℚ) :=
  match b.position id with
  | none => (b, none)
  | some p =>
    let closed := p.close status reason now
    ({ b with positions := b.positions.insert id closed }, some (closed, p.realised, p.totalPnlPct))

def TerminalAt (id : String) : Prop := ∃ p ∈ b.position id, p.status.isTerminal = true

instance (id : String) : Decidable (b.TerminalAt id) :=
  inferInstanceAs (Decidable (∃ p ∈ b.position id, p.status.isTerminal = true))

variable {b} {id : String}

theorem position_insert (id : String) :
    (b.insert p).position id = if id = p.id then some p else b.position id := by
  unfold Book.insert Book.position
  split
  · next h => rw [h, lookup_insert]
  · next h => rw [lookup_insert_ne h]

theorem position_closePosition (id id' : String) (status : PositionStatus) (reason : String)
    (now : Int) :
    (b.closePosition id status reason now).1.position id' =
    if id' = id then (b.position id).map fun p => p.close status reason now
    else b.position id' := by
  unfold closePosition
  split
  · next h =>
    show b.position id' = _
    by_cases hi : id' = id
    · rw [if_pos hi, hi, h, Option.map_none]
    · rw [if_neg hi]
  · next p h =>
    show (b.positions.insert id _).lookup id' = _
    by_cases hi : id' = id
    · rw [if_pos hi, hi, h, lookup_insert, Option.map_some]
    · rw [if_neg hi, lookup_insert_ne hi]
      rfl

theorem terminalAt_insert : (b.insert p).TerminalAt id ↔
    if id = p.id then p.status.isTerminal = true else b.TerminalAt id := by
  unfold TerminalAt
  rw [position_insert]
  split <;> simp

theorem terminalAt_closePosition {id' : String} {status : PositionStatus} {reason : String}
    {now : Int} :
    (b.closePosition id' status reason now).1.TerminalAt id ↔
    if id = id' then status.isTerminal = true ∧ (b.position id').isSome = true
    else b.TerminalAt id := by
  unfold TerminalAt
  rw [position_closePosition]
  split
  · cases b.position id' <;> simp [Position.close]
  · rfl

end Book

/-! ## Open positions of a module -/

def sourceOf : BotModule → Option TradeSource
  | .sniper => some .sniper
  | .copy => some .copy
  | .polymarket => some .polymarket
  | .contract | .telegram => none

def Position.isOpenFor (p : Position) (module : BotModule) : Bool :=
  !p.status.isTerminal && sourceOf module == some p.source

namespace Book

variable (b : Book)

/-- Newest first. Ids that have not been put in the order yet come last. -/
def allPositions : List Position := b.order.reverse.filterMap b.position ++
    (b.positions.entries.filter (·.1 ∉ b.order)).map snd

def openPositions : List Position := b.allPositions.filter (!·.status.isTerminal)

section

variable (module : BotModule)

def openPositionsFor : List Position :=
  match sourceOf module with
  | none => []
  | some source => b.openPositions.filter (·.source = source)

def openExposure : ℚ := ((b.openPositionsFor module).map Position.exposure).sum

def held : Multiset Position :=
  ((b.positions.entries.map snd : List Position) : Multiset Position).filter (·.isOpenFor module)

def heldExposure : ℚ := ((b.held module).map Position.exposure).sum

end

def Priced : Prop := ∀ e ∈ b.positions.entries, 0 ≤ e.2.costBasis

variable {b} {module : BotModule} {p : Position} {status : PositionStatus} {reason : String}

theorem coe_openPositionsFor : (b.openPositionsFor module : Multiset Position) =
    (b.allPositions : Multiset Position).filter (·.isOpenFor module) := by
  rw [filter_coe, openPositionsFor]
  cases hso : sourceOf module with
  | none => simp [Position.isOpenFor, hso]
  | some source =>
    show ((b.openPositions.filter (·.source = source) : List Position) : Multiset Position) = _
    rw [openPositions, List.filter_filter, coe_eq_coe]
    refine .of_eq (List.filter_congr fun p _ => ?_)
    have hsa : (sourceOf module == some p.source) = decide (p.source = source) := by
      rw [hso, Bool.eq_iff_iff, beq_iff_eq, decide_eq_true_eq, Option.some.injEq, eq_comm]
    rw [Position.isOpenFor, hsa, Bool.decide_eq_true, Bool.and_comm]

theorem held_le_openPositionsFor (b : Book) (module : BotModule) :
    b.held module ≤ (b.openPositionsFor module : Multiset _) := by
  rw [coe_openPositionsFor]
  refine filter_le_filter _ ?_
  let pairs := b.order.reverse.filterMap (fun id => (b.position id).map (Sigma.mk id)) ++
    b.positions.entries.filter (·.1 ∉ b.order)
  have hsub : (b.positions.entries : Multiset (Σ _ : String, Position)) ≤ pairs := by
    rw [le_iff_subset (coe_nodup.mpr b.positions.nodupKeys.nodup)]
    intro ⟨id, p⟩ hm
    have hl : b.position id = some p := mem_lookup_iff.mpr hm
    show _ ∈ pairs
    by_cases hi : id ∈ b.order
    · refine List.mem_append_left _ (List.mem_filterMap.mpr ⟨id, List.mem_reverse.mpr hi, ?_⟩)
      rw [hl]
      rfl
    · exact List.mem_append_right _ (List.mem_filter.mpr ⟨hm, by simpa using hi⟩)
  have ha : b.allPositions = pairs.map snd := by
    rw [allPositions, List.map_append, List.map_filterMap]
    congr 1
    refine List.filterMap_congr fun id _ => ?_
    cases b.position id <;> rfl
  rw [ha, ← map_coe]
  exact map_le_map hsub

theorem filter_insert_le (b : Book) (module : BotModule) (id : String) (p : Position) :
    (((b.positions.insert id p).entries.map snd : List Position) :
      Multiset Position).filter (·.isOpenFor module) ≤
    (if p.isOpenFor module then {p} else 0) + b.held module := by
  have hrest : ((b.positions.entries.kerase id).map snd : List Position).Sublist
      (b.positions.entries.map snd) := (List.kerase_sublist _ _).map _
  have hle := filter_le_filter (fun q : Position => q.isOpenFor module = true)
    (coe_le.mpr hrest.subperm)
  rw [entries_insert, List.map_cons, ← cons_coe]
  by_cases hp : p.isOpenFor module = true
  · have hc := filter_cons_of_pos (p := fun q : Position => q.isOpenFor module = true)
      ((b.positions.entries.kerase id).map snd : List Position) hp
    rw [if_pos hp, hc]
    exact cons_le_cons p hle
  · have hc := filter_cons_of_neg (p := fun q : Position => q.isOpenFor module = true)
      ((b.positions.entries.kerase id).map snd : List Position) hp
    rw [if_neg hp, hc]
    exact hle

theorem held_insert_le (p : Position) :
    (b.insert p).held module ≤ (if p.isOpenFor module then {p} else 0) + b.held module :=
  filter_insert_le b module p.id p

theorem held_closePosition_le {id : String} {now : Int} (hst : status.isTerminal = true) :
    (b.closePosition id status reason now).1.held module ≤ b.held module := by
  unfold closePosition
  split
  · exact le_rfl
  · next p hp =>
    have hc : (p.close status reason now).isOpenFor module = false := by
      simp [Position.isOpenFor, Position.close, hst]
    have hle := filter_insert_le b module id (p.close status reason now)
    rwa [hc, if_neg Bool.false_ne_true, zero_add] at hle

/-! ### Exposure -/

theorem exposure_nonneg (hp : 0 ≤ p.costBasis) : 0 ≤ p.exposure := hp.trans (le_max_left _ _)

theorem sum_exposure_le {m m' : Multiset Position} (hle : m ≤ m')
    (hpr : ∀ p ∈ m', 0 ≤ p.costBasis) :
    (m.map Position.exposure).sum ≤ (m'.map Position.exposure).sum := by
  obtain ⟨rest, rfl⟩ := Multiset.le_iff_exists_add.mp hle
  rw [map_add, sum_add]
  have hrest : 0 ≤ (rest.map Position.exposure).sum := by
    refine sum_nonneg fun x hx => ?_
    obtain ⟨p, hp, rfl⟩ := mem_map.mp hx
    exact exposure_nonneg (hpr p (mem_add.mpr (.inr hp)))
  linarith

theorem Priced.of_mem_allPositions (hb : b.Priced) (hp : p ∈ b.allPositions) : 0 ≤ p.costBasis := by
  rcases List.mem_append.mp hp with hp | hp
  · obtain ⟨id, -, hp⟩ := List.mem_filterMap.mp hp
    exact hb ⟨id, p⟩ (mem_lookup_iff.mp hp)
  · obtain ⟨e, he, rfl⟩ := List.mem_map.mp hp
    exact hb e (List.mem_of_mem_filter he)

theorem Priced.of_mem_held (hb : b.Priced) (hp : p ∈ b.held module) : 0 ≤ p.costBasis := by
  obtain ⟨e, he, rfl⟩ := List.mem_map.mp (mem_coe.mp (mem_of_mem_filter hp))
  exact hb e he

theorem Priced.heldExposure_le (hb : b.Priced) : b.heldExposure module ≤ b.openExposure module := by
  have hle := sum_exposure_le (held_le_openPositionsFor b module) fun p hp => by
    rw [coe_openPositionsFor] at hp
    exact hb.of_mem_allPositions (mem_coe.mp (mem_of_mem_filter hp))
  rwa [map_coe, sum_coe] at hle

theorem Priced.insert (hb : b.Priced) (hp : 0 ≤ p.costBasis) : (b.insert p).Priced := by
  intro e he
  rcases List.mem_cons.mp he with rfl | he
  · exact hp
  · exact hb e ((List.kerase_sublist _ _).subset he)

theorem Priced.closePosition (hb : b.Priced) {id : String} {now : Int} : (b.closePosition id status reason now).1.Priced := by
  unfold Book.closePosition
  split
  · exact hb
  · next p hp =>
    intro e he
    rcases List.mem_cons.mp he with rfl | he
    · exact hb ⟨id, p⟩ (mem_lookup_iff.mp hp)
    · exact hb e ((List.kerase_sublist _ _).subset he)

end Book

end SniperBot.Positions
