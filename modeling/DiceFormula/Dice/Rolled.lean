/-
# DiceFormula.Dice.Rolled -- rolls and their totals

Rolling `Dice` draws its dice from the first to the last and then applies its
modifiers in the order written.  `tally` totals the dice of a roll by the rule
that the modifiers imply: dice that count successes total these, dice that only
count failures total those, and all other dice total the values that are kept.
-/
import DiceFormula.Dice.Apply

namespace DiceFormula

set_option autoImplicit false

/-! ## Totals -/

/-- Adds two values if the sum fits in 64 bits. -/
def addWithin (a b : Int) : Except DiceError Int :=
  if Limit.leastValue ≤ a + b ∧ a + b ≤ Limit.mostValue then .ok (a + b) else .error .overflow

/-- The sum of the kept values. -/
def Die.sum (dice : List Die) : Except DiceError Int :=
  (dice.filter Die.isKept).foldlM (fun sum die => addWithin sum die.value) 0

/-- The total of the dice of a roll with those modifiers. -/
def tally (modifiers : List Modifier) (dice : List Die) : Except DiceError Int :=
  if modifiers.any Modifier.countsSuccesses then .ok (Die.successes dice)
  else if modifiers.any Modifier.countsFailures then .ok (Die.failures dice)
  else Die.sum dice

/-! ## Rolls -/

/-- Dice and what became of them. -/
structure Rolled where
  rolls : List Die
  dice : Dice
deriving DecidableEq, Repr

namespace Rolled

/-- Dice that have not been rolled. -/
def unrolled (dice : Dice) : Rolled :=
  ⟨[], dice⟩

/-- Dice that fell with given values. -/
def ofValues (dice : Dice) (values : List Int) : Rolled :=
  ⟨values.map Die.fresh, dice⟩

def total (r : Rolled) : Except DiceError Int :=
  tally r.dice.modifiers r.rolls

def successes (r : Rolled) : Nat :=
  Die.successes r.rolls

def failures (r : Rolled) : Nat :=
  Die.failures r.rolls

def views (r : Rolled) : List DieView :=
  r.rolls.map Die.view

/-- The dice and what they show. -/
def describe (r : Rolled) (limit : Option Nat) : String :=
  r.dice.text ++ Die.listText r.rolls limit

end Rolled

/-- Rolls dice, and applies their modifiers if asked to. -/
def Dice.roll (d : Dice) (modified : Bool) : Rolling Rolled := do
  if Dice.maxCount < d.count then Rolling.fail (.tooManyDice d.count)
  else
    let rolls ← Rolling.drawMany d.sides d.count
    let rolls ← if modified then Modifier.applyAll d.sides d.modifiers rolls else pure rolls
    pure ⟨rolls, d⟩

end DiceFormula
