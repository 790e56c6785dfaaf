/-
# DiceFormula.Decimal.Layout -- writing numbers

A `Layout` says how a number is set out: for which positions of the decimal
point it is written without an exponent, what stands behind the digits of a
whole number, and which digits are taken where two choices are equally near.

* `Layout.plain` is used for formulas and results: never an exponent, nothing
  behind a whole number, and the larger digits;
* `Layout.json` is used for numbers in JSON text: an exponent outside
  `0.00001` to `1e16`, `.0` behind a whole number, and the even digits.

`numberText` writes any double; `formulaNumber` writes a number of a formula,
which has no negative zero.
-/
import DiceFormula.Decimal.Shortest

namespace DiceFormula

set_option autoImplicit false

/-- How the digits of a number are set out.  A number whose digits start
directly behind the decimal point has point position zero. -/
structure Layout where
  /-- whether a number with this point position is written without an exponent -/
  positional : Int → Bool
  /-- what follows the digits of a whole number -/
  wholeEnd : List Char
  /-- which of two equally near choices of digits is taken -/
  tie : Decimal.Tie

namespace Layout

/-- Never an exponent, and nothing behind a whole number. -/
def plain : Layout :=
  ⟨fun _ => true, [], .larger⟩

/-- An exponent from `1e16` up and below `1e-5`, and `.0` behind a whole number. -/
def json : Layout :=
  ⟨fun point => -5 < point && point ≤ 16, ['.', '0'], .even⟩

/-- Digits around a decimal point. -/
def positionalText (layout : Layout) (digits : List Char) (point : Int) : List Char :=
  if point ≤ 0 then
    ['0', '.'] ++ List.replicate (-point).toNat '0' ++ digits
  else if digits.length ≤ point.toNat then
    digits ++ List.replicate (point.toNat - digits.length) '0' ++ layout.wholeEnd
  else
    digits.take point.toNat ++ '.' :: digits.drop point.toNat

/-- One digit before the point and an exponent with its sign. -/
def exponentText (digits : List Char) (point : Int) : List Char :=
  let power := point - 1
  let sign := if power < 0 then '-' else '+'
  let mantissa := match digits with
    | d :: e :: rest => d :: '.' :: e :: rest
    | short => short
  mantissa ++ 'e' :: sign :: Nat.toDigits 10 power.natAbs

/-- Writes a decimal. -/
def write (layout : Layout) (d : Decimal) : List Char :=
  if d.units = 0 then '0' :: layout.wholeEnd
  else
    let digits := Nat.toDigits 10 d.units
    let point := (digits.length : Int) + d.exponent
    if layout.positional point then layout.positionalText digits point
    else exponentText digits point

/-- Writes a magnitude. -/
def writeMagnitude (layout : Layout) : Magnitude → List Char
  | .finite m q => layout.write (Decimal.shortest layout.tie m q)
  | .infinite => ['i', 'n', 'f']
  | .notANumber => ['N', 'a', 'N']

end Layout

/-- The text of a double: its sign unless it is not a number, and the shortest
digits that read back. -/
def numberText (layout : Layout) (x : Float) : List Char :=
  match magnitude x with
  | .notANumber => layout.writeMagnitude .notANumber
  | magnitude =>
      if isNegative x then '-' :: layout.writeMagnitude magnitude
      else layout.writeMagnitude magnitude

/-- The text of a result. -/
def resultText (x : Float) : String :=
  String.ofList (numberText .plain x)

/-- The text of a number in a formula, where both zeros are written alike. -/
def formulaNumber (x : Float) : String :=
  if x == 0 then "0" else resultText x

end DiceFormula
