/-
# DiceFormula.Dice.Modifier -- modifiers and dice

A modifier changes what became of a roll: it rerolls or explodes dice, keeps or
drops some, bounds their values, or scores them.  `Dice` are a number of equal
dice with the modifiers to apply to their roll, in the order written.

The texts are those that formulas use: `r`, `x`, `kh`, `kl`, `dh`, `dl`, `min`,
`max`, `cs` and `cf`.  A count of one is left out.
-/
import DiceFormula.Dice.Condition

namespace DiceFormula

set_option autoImplicit false

/-- A change to the dice of a roll. -/
inductive Modifier where
  /-- drops the dice that meet the condition and rolls one anew for each;
  `again` says whether the new ones are treated alike -/
  | reroll (condition : Condition) (again : Bool)
  /-- rolls one more for each die that meets the condition, or shows its highest
  face if there is none -/
  | explode (condition : Option Condition) (again : Bool)
  | keepHigh (n : Nat)
  | keepLow (n : Nat)
  | dropHigh (n : Nat)
  | dropLow (n : Nat)
  /-- raises lower values to a minimum -/
  | raise (least : Int)
  /-- lowers higher values to a maximum -/
  | cap (most : Int)
  | countSuccess (condition : Condition)
  | countFailure (condition : Condition)
deriving DecidableEq, Repr

namespace Modifier

/-- A count behind a keyword. -/
def countText (n : Nat) : String :=
  if 1 < n then toString n else ""

def text : Modifier → String
  | reroll condition again => (if again then "rr" else "r") ++ condition.text
  | explode condition again =>
      (if again then "x" else "xo") ++ (condition.map Condition.text).getD ""
  | keepHigh n => "kh" ++ countText n
  | keepLow n => "kl" ++ countText n
  | dropHigh n => "dh" ++ countText n
  | dropLow n => "dl" ++ countText n
  | raise least => "min" ++ toString least
  | cap most => "max" ++ toString most
  | countSuccess condition => "cs" ++ condition.text
  | countFailure condition => "cf" ++ condition.text

/-- Whether the modifier only selects or scores dice.  Only such modifiers mean
something on a pool of sub-formulas. -/
def isSelective : Modifier → Bool
  | keepHigh _ | keepLow _ | dropHigh _ | dropLow _ => true
  | countSuccess _ | countFailure _ => true
  | _ => false

/-- The condition of a modifier that counts successes. -/
def successCondition? : Modifier → Option Condition
  | countSuccess condition => some condition
  | _ => none

def countsSuccesses (m : Modifier) : Bool :=
  m.successCondition?.isSome

def countsFailures : Modifier → Bool
  | countFailure _ => true
  | _ => false

/-- The texts of modifiers one after the other. -/
def textAll (modifiers : List Modifier) : String :=
  String.join (modifiers.map text)

end Modifier

/-- A number of equal dice and what to do with their roll. -/
structure Dice where
  count : Nat
  sides : Nat
  modifiers : List Modifier
deriving DecidableEq, Repr

namespace Dice

/-- The most dice that one roll may have. -/
def maxCount : Nat := 10000

/-- Dice without modifiers. -/
def plain (count sides : Nat) : Dice :=
  ⟨count, sides, []⟩

/-- One die with six sides. -/
def standard : Dice :=
  plain 1 6

/-- The same dice without their modifiers. -/
def withoutModifiers (d : Dice) : Dice :=
  plain d.count d.sides

/-- The same dice with one modifier more. -/
def modified (d : Dice) (m : Modifier) : Dice :=
  { d with modifiers := d.modifiers ++ [m] }

/-- The condition that dice score by, if they count successes. -/
def successCondition? (d : Dice) : Option Condition :=
  d.modifiers.findSome? Modifier.successCondition?

def text (d : Dice) : String :=
  toString d.count ++ "d" ++ toString d.sides ++ Modifier.textAll d.modifiers

end Dice

end DiceFormula
