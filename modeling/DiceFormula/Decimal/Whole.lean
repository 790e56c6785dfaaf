/-
# DiceFormula.Decimal.Whole -- rounding to whole numbers

A magnitude splits into its whole part and a `Rest`, which says how what is left
compares with a half.  The four roundings differ only in when they step away
from zero.  A rounded double keeps the sign it had, so that rounding `-0.4` to
the nearest whole number gives negative zero.
-/
import DiceFormula.Decimal.Basic

namespace DiceFormula

set_option autoImplicit false

/-- What is left of a magnitude beside its whole part. -/
inductive Rest where
  | nothing
  | belowHalf
  | half
  | aboveHalf
deriving DecidableEq, Repr

/-- A way to round to a whole number. -/
inductive Rounding where
  /-- towards negative infinity -/
  | down
  /-- towards positive infinity -/
  | up
  /-- towards zero -/
  | towardsZero
  /-- to the nearest, halves away from zero -/
  | nearest
deriving DecidableEq, Repr

namespace Rounding

/-- Whether a number with that sign and rest goes one step away from zero. -/
def stepsAway : Rounding → Bool → Rest → Bool
  | down, negative, rest => negative && rest != .nothing
  | up, negative, rest => !negative && rest != .nothing
  | towardsZero, _, _ => false
  | nearest, _, rest => rest == .half || rest == .aboveHalf

end Rounding

/-- The whole part of `m * 2 ^ q` and the rest. -/
def wholePart (m : Nat) (q : Int) : Nat × Rest :=
  if 0 ≤ q then (m * Nat.pow 2 q.toNat, .nothing)
  else
    let unit := Nat.pow 2 (-q).toNat
    let left := m % unit
    let rest :=
      if left = 0 then Rest.nothing
      else if 2 * left < unit then .belowHalf
      else if 2 * left = unit then .half
      else .aboveHalf
    (m / unit, rest)

/-- The whole number that `m * 2 ^ q` with that sign rounds to, without sign. -/
def Rounding.magnitude (r : Rounding) (negative : Bool) (m : Nat) (q : Int) : Nat :=
  let (whole, rest) := wholePart m q
  if r.stepsAway negative rest then whole + 1 else whole

/-- Rounds a double to a whole double.  From exponent zero up it is whole. -/
def Rounding.round (r : Rounding) (x : Float) : Float :=
  match DiceFormula.magnitude x with
  | .finite m q =>
      if 0 ≤ q then x
      else withSign (isNegative x) (Float.ofNat (r.magnitude (isNegative x) m q))
  | _ => x

/-- The whole number nearest to a double, halves away from zero. -/
def nearestWhole? (x : Float) : Option Int :=
  match magnitude x with
  | .finite m q =>
      let n : Int := Rounding.nearest.magnitude (isNegative x) m q
      some (if isNegative x then -n else n)
  | _ => none

end DiceFormula
