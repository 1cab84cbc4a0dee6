import Mathlib.Algebra.Order.Field.Rat
import Mathlib.Algebra.Order.Group.Unbundled.Abs
import Mathlib.Tactic.Linarith

/-!
# The reconciliation engine

The comparison of one local position with the balance the chain shows for it, and
the replay of a position's confirmed fills. Quantities and quotes are exact
rationals, so that every amount is finite.
-/

namespace SniperBot.Reconciliation

/-- Result of an external-state read attempt. An unreadable source is not an
observation of zero. -/
inductive ExternalState (α : Type) where
  | observed (value : α)
  | unavailable (reason : String)

structure BalanceObservation where
  uiTotal : ℚ

structure FillRecord where
  side : String
  qty : ℚ
  quote : ℚ

def eqIgnoreAsciiCase (a b : String) : Bool :=
  a.toList.map Char.toLower == b.toList.map Char.toLower

def FillRecord.isBuy (f : FillRecord) : Bool := eqIgnoreAsciiCase f.side "buy"

def FillRecord.isSell (f : FillRecord) : Bool := eqIgnoreAsciiCase f.side "sell"

structure PositionSnapshot where
  qty : ℚ
  isOpen : Bool
  hasUnresolvedExecution : Bool
  fills : List FillRecord

structure QuantityTolerance where
  relative : ℚ
  dust : ℚ

instance : Inhabited QuantityTolerance := ⟨{ relative := 1 / 100, dust := 1 / 10 ^ 9 }⟩

inductive ReconOutcome where
  | inSync
  | externalAhead (localQty external : ℚ)
  | localAhead (localQty external : ℚ)
  | quantityMismatch (localQty external : ℚ)
  | balanceMismatch (expected observed : ℚ)
  | missingPosition
  | unexpectedPosition (external : ℚ)
  | unknownExecution
  | missingTransaction
  | duplicateExecution
  | staleLocalState
  | externalStateUnavailable (reason : String)
  | recoveryRequired (reason : String)
  deriving DecidableEq

/-- Local and external state demonstrably diverge: a correction, a flag or an
operator is needed. -/
def ReconOutcome.isDivergent : ReconOutcome → Bool
  | .externalAhead _ _ | .localAhead _ _ | .quantityMismatch _ _ | .balanceMismatch _ _
  | .missingPosition | .unexpectedPosition _ | .duplicateExecution | .recoveryRequired _ => true
  | .inSync | .unknownExecution | .missingTransaction | .staleLocalState
  | .externalStateUnavailable _ => false

/-! ## Comparing a position with the chain -/

section

variable (p : PositionSnapshot) (o : BalanceObservation) (tol : QuantityTolerance)

def withinTolerance : Prop :=
  |o.uiTotal - p.qty| ≤ max tol.dust (|p.qty| * tol.relative)

instance : Decidable (withinTolerance p o tol) := inferInstanceAs (Decidable (_ ≤ _))

def PositionSnapshot.hasExitFill : Bool := p.fills.any fun f => f.isSell && 0 < f.qty

def comparePosition (external : ExternalState BalanceObservation) : ReconOutcome :=
  match external with
  | .unavailable reason => .externalStateUnavailable reason
  | .observed o =>
    if ! p.isOpen then
      if o.uiTotal > tol.dust then .unexpectedPosition o.uiTotal else .inSync
    else if p.hasUnresolvedExecution then .unknownExecution
    else if withinTolerance p o tol then .inSync
    else if o.uiTotal ≤ tol.dust then
      if p.hasExitFill then .missingPosition
      else .recoveryRequired "position open locally, zero on-chain, no recorded exit fill"
    else if o.uiTotal - p.qty > 0 then .externalAhead p.qty o.uiTotal
    else .localAhead p.qty o.uiTotal

theorem comparePosition_missing_iff : comparePosition p tol (.observed o) = .missingPosition ↔
    p.isOpen = true ∧ p.hasUnresolvedExecution = false ∧ ¬ withinTolerance p o tol ∧
      o.uiTotal ≤ tol.dust ∧ p.hasExitFill = true := by
  simp only [comparePosition]
  constructor
  · intro h
    split_ifs at h with ho _ hun hw hd he
    exact ⟨by simpa using ho, by simpa using hun, hw, hd, he⟩
  · intro ⟨ho, hun, hw, hd, he⟩
    simp [ho, hun, hw, hd, he]

/-- With money in flight the only divergence reported is the one of a closed
position. -/
theorem comparePosition_divergent_iff (hun : p.hasUnresolvedExecution = true) :
    (comparePosition p tol (.observed o)).isDivergent = true ↔
    p.isOpen = false ∧ tol.dust < o.uiTotal := by
  simp only [comparePosition]
  cases ho : p.isOpen with
  | true => simp [hun, ReconOutcome.isDivergent]
  | false =>
    by_cases hd : o.uiTotal > tol.dust
    · simp [hd, ReconOutcome.isDivergent]
    · simp [hd, ReconOutcome.isDivergent]

end

/-! ## Replaying the fills -/

/-- The accumulators of the replay; `openCost` is the quote tied up in `openQty`. -/
structure Replay where
  openQty : ℚ
  openCost : ℚ
  buyCost : ℚ
  sellProceeds : ℚ
  realized : ℚ

def Replay.start : Replay :=
  { openQty := 0, openCost := 0, buyCost := 0, sellProceeds := 0, realized := 0 }

/-- One fill at average cost: what has no positive quantity or no known side is
skipped, and a sale beyond what is open is clamped to it. -/
def Replay.fill (r : Replay) (f : FillRecord) : Replay :=
  if ¬ 0 < f.qty then r
  else if f.isBuy then
    { r with
      openQty := r.openQty + f.qty
      openCost := r.openCost + f.quote
      buyCost := r.buyCost + f.quote }
  else if f.isSell then
    let qty := min f.qty r.openQty
    if qty ≤ 0 then r
    else
      let avg := if 0 < r.openQty then r.openCost / r.openQty else 0
      let costOfSold := avg * qty
      let proceeds := f.quote * (qty / f.qty)
      { r with
        realized := r.realized + (proceeds - costOfSold)
        sellProceeds := r.sellProceeds + proceeds
        openCost := r.openCost - costOfSold
        openQty := r.openQty - qty }
  else r

structure PnlReconstruction where
  openQty : ℚ
  avgEntry : ℚ
  buyCost : ℚ
  sellProceeds : ℚ
  realized : ℚ
  openCostBasis : ℚ

def reconstructPnl (fills : List FillRecord) : PnlReconstruction :=
  let r := fills.foldl Replay.fill Replay.start
  { openQty := r.openQty
    avgEntry := if 0 < r.openQty then r.openCost / r.openQty else 0
    buyCost := r.buyCost
    sellProceeds := r.sellProceeds
    realized := r.realized
    openCostBasis := max r.openCost 0 }

/-! ## When a vanished balance is written off -/

/-- What a verdict owes to the position it is about: its balance is written off only
with nothing in flight and with fills that leave at most dust, and no divergence is
reported while something is in flight. -/
structure Prudent (p : PositionSnapshot) (tol : QuantityTolerance) (verdict : ReconOutcome) :
    Prop where
  explained : verdict = .missingPosition →
    p.hasUnresolvedExecution = false ∧ (reconstructPnl p.fills).openQty ≤ tol.dust
  patient : p.hasUnresolvedExecution = true → verdict.isDivergent = false

/-- The inputs that are judged prudently. A closed position is looked at whatever is
in flight, and of an open one a single exit fill, however small, counts as the
explanation of the whole balance. -/
def Judgeable (p : PositionSnapshot) (tol : QuantityTolerance) :
    ExternalState BalanceObservation → Prop
  | .unavailable _ => True
  | .observed o =>
    if p.isOpen then
      p.hasUnresolvedExecution = true ∨ withinTolerance p o tol ∨ tol.dust < o.uiTotal ∨
        p.hasExitFill = false ∨ (reconstructPnl p.fills).openQty ≤ tol.dust
    else p.hasUnresolvedExecution = false ∨ o.uiTotal ≤ tol.dust

theorem explained_iff_of_open {p : PositionSnapshot} (ho : p.isOpen = true)
    (o : BalanceObservation) (tol : QuantityTolerance) :
    (comparePosition p tol (.observed o) = .missingPosition →
    p.hasUnresolvedExecution = false ∧ (reconstructPnl p.fills).openQty ≤ tol.dust) ↔
    Judgeable p tol (.observed o) := by
  rw [comparePosition_missing_iff]
  simp only [Judgeable, ho, if_true, true_and]
  constructor
  · intro h
    by_contra hn
    push Not at hn
    obtain ⟨hun, hw, hd, he, hl⟩ := hn
    have hu' : p.hasUnresolvedExecution = false := by simpa using hun
    have he' : p.hasExitFill = true := by simpa using he
    exact absurd (h ⟨hu', hw, hd, he'⟩).2 (not_le.mpr hl)
  · intro h ⟨hun, hw, hd, he⟩
    refine ⟨hun, ?_⟩
    rcases h with h | h | h | h | h
    · simp [hun] at h
    · exact absurd h hw
    · exact absurd hd (not_le.mpr h)
    · simp [he] at h
    · exact h

theorem patient_iff_of_closed {p : PositionSnapshot} (hc : p.isOpen = false)
    (o : BalanceObservation) (tol : QuantityTolerance) :
    (p.hasUnresolvedExecution = true → (comparePosition p tol (.observed o)).isDivergent = false) ↔
    Judgeable p tol (.observed o) := by
  simp only [Judgeable, hc]
  cases hun : p.hasUnresolvedExecution with
  | false => simp
  | true =>
    have h := comparePosition_divergent_iff p o tol hun
    rw [hc] at h
    constructor
    · intro hn
      right
      by_contra hdu
      have := h.mpr ⟨rfl, not_le.mp hdu⟩
      simp [hn rfl] at this
    · intro hle _
      rcases hle with hle | hle
      · cases hle
      · rw [← Bool.not_eq_true, h]
        exact fun hd => absurd hle (not_le.mpr hd.2)

/-- The verdict on a position is prudent exactly for the judgeable inputs. -/
theorem comparePosition_prudent_iff (p : PositionSnapshot) (tol : QuantityTolerance)
    (external : ExternalState BalanceObservation) :
    Prudent p tol (comparePosition p tol external) ↔ Judgeable p tol external := by
  cases external with
  | unavailable reason =>
    simp only [Judgeable, iff_true]
    constructor
    · intro h
      simp [comparePosition] at h
    · intro _
      rfl
  | observed o =>
    cases ho : p.isOpen with
    | true =>
      rw [← explained_iff_of_open ho]
      refine ⟨fun h => h.explained, fun h => ⟨h, fun hun => ?_⟩⟩
      -- An open position with something in flight is never judged.
      rw [← Bool.not_eq_true, comparePosition_divergent_iff p o tol hun, ho]
      simp
    | false =>
      rw [← patient_iff_of_closed ho]
      refine ⟨fun h => h.patient, fun h => ⟨fun hm => ?_, h⟩⟩
      rw [comparePosition_missing_iff, ho] at hm
      exact absurd hm.1 (by simp)

/-- Bought 100 and sold 10: with the balance gone, the ten sold write off the ninety
that nothing explains. And a closed position with an execution in flight is reported as
unexpected. -/
theorem comparePosition_imprudent : (let p : PositionSnapshot :=
      { qty := 90, isOpen := true, hasUnresolvedExecution := false,
        fills := [⟨"buy", 100, 10⟩, ⟨"sell", 10, 1⟩] }
     comparePosition p default (.observed ⟨0⟩) = .missingPosition ∧
      (reconstructPnl p.fills).openQty = 90 ∧
      ¬ Prudent p default (comparePosition p default (.observed ⟨0⟩))) ∧
    (let p : PositionSnapshot :=
      { qty := 0, isOpen := false, hasUnresolvedExecution := true, fills := [] }
     comparePosition p default (.observed ⟨25⟩) = .unexpectedPosition 25 ∧
      ¬ Prudent p default (comparePosition p default (.observed ⟨25⟩))) := by
  refine ⟨⟨by decide +kernel, by decide +kernel, fun h => ?_⟩, by decide +kernel, fun h => ?_⟩
  · exact absurd (h.explained (by decide +kernel)).2 (by decide +kernel)
  · exact absurd (h.patient rfl) (by decide +kernel)

end SniperBot.Reconciliation
