/-
# DiceFormula.Arithmetic.Operator -- the four operators

Formulas and expressions share the operators `+`, `-`, `*` and `/`, which act on
doubles.
-/

namespace DiceFormula

set_option autoImplicit false

/-- An operator between two values. -/
inductive Operator where
  | add
  | subtract
  | multiply
  | divide
deriving DecidableEq, Repr

namespace Operator

def symbol : Operator → Char
  | add => '+'
  | subtract => '-'
  | multiply => '*'
  | divide => '/'

def ofSymbol? : Char → Option Operator
  | '+' => some add
  | '-' => some subtract
  | '*' => some multiply
  | '/' => some divide
  | _ => none

def text (op : Operator) : String :=
  String.singleton op.symbol

/-- Whether the operator binds weakly, as sums do. -/
def isAdditive : Operator → Bool
  | add | subtract => true
  | multiply | divide => false

def isMultiplicative (op : Operator) : Bool :=
  !op.isAdditive

/-- Whether the operator undoes another, so that a chain of it has to be read
from the left. -/
def isInverse : Operator → Bool
  | subtract | divide => true
  | add | multiply => false

def apply (op : Operator) (a b : Float) : Float :=
  match op with
  | add => a + b
  | subtract => a - b
  | multiply => a * b
  | divide => a / b

end Operator

end DiceFormula
