/-
# DiceFormula.Arithmetic.MathFunction -- the functions that formulas may call

Formulas can call sixteen functions and no others.  A call fails if it has too
few or too many arguments or if its value is not a finite number
(`MathFunction.apply`).

The minimum and the maximum pass over arguments that are not numbers, and take
negative zero to be below zero.

What a function makes of zero is exact, so it is stated here by rule.  Elsewhere
exponentials, logarithms, powers and cube roots are approximations that the
platform provides.
-/
import DiceFormula.Decimal.Layout
import DiceFormula.Decimal.Whole

namespace DiceFormula

set_option autoImplicit false

/-- A function of numbers. -/
inductive MathFunction where
  | absolute
  | ceiling
  | floor
  | round
  | truncate
  | sign
  | squareRoot
  | cubeRoot
  | exponential
  | logarithm
  | logarithm2
  | logarithm10
  | minimum
  | maximum
  | power
  | hypotenuse
deriving DecidableEq, Repr

/-- Why a calculation has no value. -/
inductive CalcError where
  /-- the text is no arithmetic expression -/
  | malformed (expression : String)
  /-- the value of what is written is infinite or not a number -/
  | nonFinite (written : String)
  | arity (function : MathFunction) (given : Nat)
  /-- the term has no value yet -/
  | unresolved (term : String)
deriving DecidableEq, Repr

namespace MathFunction

def all : List MathFunction :=
  [absolute, ceiling, floor, round, truncate, sign, squareRoot, cubeRoot, exponential,
    logarithm, logarithm2, logarithm10, minimum, maximum, power, hypotenuse]

/-- The name that formulas call the function by. -/
def name : MathFunction → String
  | absolute => "abs"
  | ceiling => "ceil"
  | floor => "floor"
  | round => "round"
  | truncate => "trunc"
  | sign => "sign"
  | squareRoot => "sqrt"
  | cubeRoot => "cbrt"
  | exponential => "exp"
  | logarithm => "ln"
  | logarithm2 => "log2"
  | logarithm10 => "log10"
  | minimum => "min"
  | maximum => "max"
  | power => "pow"
  | hypotenuse => "hypot"

/-- The function of a name in lower or upper ASCII case. -/
def ofName? (name : List Char) : Option MathFunction :=
  all.find? fun f => f.name.toList == name.map Char.toLower

/-- The least number of arguments, and the largest if there is one. -/
def arity : MathFunction → Nat × Option Nat
  | minimum | maximum | hypotenuse => (1, none)
  | power => (2, some 2)
  | _ => (1, some 1)

def accepts (f : MathFunction) (given : Nat) : Bool :=
  f.arity.1 ≤ given && f.arity.2.all fun most => given ≤ most

/-! ## Values -/

/-- The smaller of two numbers. -/
def lesser (a b : Float) : Float :=
  if a.isNaN then b
  else if b.isNaN then a
  else if a < b then a
  else if b < a then b
  else if isNegative a then a
  else b

/-- The larger of two numbers. -/
def greater (a b : Float) : Float :=
  if a.isNaN then b
  else if b.isNaN then a
  else if b < a then a
  else if a < b then b
  else if isNegative a then b
  else a

/-- Minus one, zero or one. -/
def signOf (x : Float) : Float :=
  if x == 0 then 0
  else if x.isNaN then x
  else withSign (isNegative x) 1

def infinity : Float := 1 / 0

/-- Whether a double is an odd whole number. -/
def isOddWhole (x : Float) : Bool :=
  match magnitude x with
  | .finite m q =>
      let (whole, rest) := wholePart m q
      rest == .nothing && whole % 2 == 1
  | _ => false

/-- Zero with that sign to a power other than zero.  Its sign stays at an odd
whole power. -/
def zeroToThe (negative : Bool) (y : Float) : Float :=
  withSign (negative && isOddWhole y) (if y < 0 then infinity else 0)

/-- One number to the power of another. -/
def toThe (x y : Float) : Float :=
  if y == 0 then 1
  else if x == 0 && !y.isNaN then zeroToThe (isNegative x) y
  else x.pow y

/-- The value of a call that has an acceptable number of arguments. -/
def value (f : MathFunction) (args : List Float) : Float :=
  let x := args.headD 0
  match f with
  | absolute => x.abs
  | ceiling => Rounding.up.round x
  | floor => Rounding.down.round x
  | round => Rounding.nearest.round x
  | truncate => Rounding.towardsZero.round x
  | sign => signOf x
  | squareRoot => x.sqrt
  | cubeRoot => if x == 0 then x else x.cbrt
  | exponential => if x == 0 then 1 else x.exp
  | logarithm => if x == 0 then -infinity else x.log
  | logarithm2 => if x == 0 then -infinity else x.log2
  | logarithm10 => if x == 0 then -infinity else x.log10
  | minimum => args.foldl lesser infinity
  | maximum => args.foldl greater (-infinity)
  | power => toThe x (args.getD 1 0)
  | hypotenuse => (args.foldl (fun sum x => sum + x * x) 0).sqrt

end MathFunction

/-- Passes a finite value on.  What is written is worked out for an error only. -/
@[macro_inline]
def finite (x : Float) (written : String) : Except CalcError Float :=
  if x.isFinite then .ok x else .error (.nonFinite written)

/-- Calls a function. -/
def MathFunction.apply (f : MathFunction) (args : List Float) : Except CalcError Float :=
  if f.accepts args.length then
    finite (f.value args) (f.name ++ "(" ++ ", ".intercalate (args.map formulaNumber) ++ ")")
  else .error (.arity f args.length)

def CalcError.message : CalcError → String
  | .malformed expression => "invalid arithmetic expression \"" ++ expression ++ "\""
  | .nonFinite written => "non-finite result while calculating " ++ written
  | .arity f given =>
      f.name ++ "() called with " ++ toString given ++ " argument(s)"
  | .unresolved term => "unresolved term \"" ++ term ++ "\""

end DiceFormula
