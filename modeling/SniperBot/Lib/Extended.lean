import Mathlib.Data.Rat.Defs
import Mathlib.Algebra.Order.Ring.Rat

/-!
# Exact numbers with infinities

What a double may stand for: an exact number, one of the infinities, or NaN. Arithmetic is done
on the exact numbers; here are the tests a program makes before it relies on one.
-/

namespace SniperBot.Lib

inductive Extended where
  | finite (q : ℚ)
  | posInf
  | negInf
  | nan
  deriving DecidableEq

namespace Extended

def isFinite : Extended → Bool
  | finite _ => true
  | _ => false

def lt : Extended → Extended → Bool
  | finite a, finite b => a < b
  | negInf, finite _ | negInf, posInf | finite _, posInf => true
  | _, _ => false

/-- Less or equal; NaN compares with nothing. -/
def le : Extended → Extended → Bool
  | finite a, finite b => a ≤ b
  | nan, _ | _, nan => false
  | negInf, _ | _, posInf => true
  | _, _ => false

end Extended

end SniperBot.Lib
