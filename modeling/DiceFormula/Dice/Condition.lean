/-
# DiceFormula.Dice.Condition -- conditions on the value of a die

A condition compares the value of a die with a number.  `alwaysMet` recognises
the conditions that every face of a die meets, so that rerolling or exploding
on them would never end.
-/

namespace DiceFormula

set_option autoImplicit false

/-- How a value is compared. -/
inductive Comparison where
  | equal
  | above
  | atLeast
  | below
  | atMost
deriving DecidableEq, Repr

namespace Comparison

def symbol : Comparison → String
  | equal => "="
  | above => ">"
  | atLeast => ">="
  | below => "<"
  | atMost => "<="

def ofSymbol? (symbol : String) : Option Comparison :=
  [equal, above, atLeast, below, atMost].find? fun c => c.symbol == symbol

/-- Whether a value compares so with a bound. -/
def holds (c : Comparison) (value bound : Int) : Bool :=
  match c with
  | equal => value == bound
  | above => bound < value
  | atLeast => bound ≤ value
  | below => value < bound
  | atMost => value ≤ bound

end Comparison

/-- A test on the value of a die. -/
structure Condition where
  comparison : Comparison
  bound : Int
deriving DecidableEq, Repr

namespace Condition

def check (c : Condition) (value : Int) : Bool :=
  c.comparison.holds value c.bound

/-- Whether every face from 1 to `sides` meets the condition. -/
def alwaysMet (c : Condition) (sides : Nat) : Bool :=
  match c.comparison with
  | .equal => c.bound == 1 && sides == 1
  | .above => c.bound < 1
  | .atLeast => c.bound ≤ 1
  | .below => (sides : Int) < c.bound
  | .atMost => (sides : Int) ≤ c.bound

def text (c : Condition) : String :=
  c.comparison.symbol ++ toString c.bound

end Condition

end DiceFormula
