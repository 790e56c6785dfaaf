/-
# DiceFormula.Decimal.Basic -- decimals and doubles

A `Decimal` is a whole number of units of a power of ten.  Numbers are read from
text as decimals and then rounded to the nearest double (`Decimal.toFloat`).

`magnitude` takes a double apart: apart from its sign it is
`mantissa * 2 ^ exponent` with a mantissa below `2 ^ 53`, or infinite, or not a
number.  Everything here that prints or rounds a double works on these parts, in
exact arithmetic.
-/

namespace DiceFormula

set_option autoImplicit false

/-- The number `units * 10 ^ exponent`. -/
structure Decimal where
  units : Nat
  exponent : Int
deriving DecidableEq, Repr

namespace Decimal

/-- Reads a digit sequence with a number of fractional digits. -/
def ofDigits (whole fraction : List Char) : Decimal :=
  ⟨Nat.ofDigitChars 10 (whole ++ fraction) 0, -(fraction.length : Int)⟩

/-- The nearest double. -/
def toFloat (d : Decimal) : Float :=
  if d.exponent < 0 then Float.ofScientific d.units true d.exponent.natAbs
  else Float.ofScientific d.units false d.exponent.natAbs

end Decimal

/-- A double without its sign. -/
inductive Magnitude where
  | finite (mantissa : Nat) (exponent : Int)
  | infinite
  | notANumber
deriving DecidableEq, Repr

/-- The double's sign bit. -/
def isNegative (x : Float) : Bool :=
  0x8000000000000000 ≤ x.toBits.toNat

/-- The leading bit of a mantissa of 53 bits, which is not stored. -/
def leadingBit : Nat := 0x10000000000000

/-- The parts of a double: 52 bits of mantissa below 11 bits of exponent. -/
def magnitude (x : Float) : Magnitude :=
  let bits := x.toBits.toNat
  let field := bits % leadingBit
  match bits / leadingBit % 2048 with
  | 0 => .finite field (-1074)
  | 2047 => if field = 0 then .infinite else .notANumber
  | e => .finite (leadingBit + field) ((e : Int) - 1075)

/-- The double of a sign and a magnitude's double. -/
def withSign (negative : Bool) (x : Float) : Float :=
  if negative then -x else x

end DiceFormula
