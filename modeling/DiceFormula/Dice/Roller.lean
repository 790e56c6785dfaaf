/-
# DiceFormula.Dice.Roller -- where the faces come from

A `Roller` shows a face for each die drawn from it, which may depend on how many
dice were drawn before and on the number of sides.  It has a supply of dice, and
drawing from an empty one is a fault; so every computation that draws dice ends,
and says so if it ran out of them.

A tape shows given faces and no more.  The other rollers have a supply that no
roll within reach uses up.

`Rolling` computations keep the roller they reached also when they fail.
-/
import DiceFormula.Dice.Die
import DiceFormula.Limits

namespace DiceFormula

set_option autoImplicit false

/-! ## Rollers -/

/-- A source of faces. -/
structure Roller where
  /-- the face of the die drawn after a number of dice, by its number of sides -/
  face : Nat → Nat → Int
  /-- the number of dice drawn so far -/
  drawn : Nat
  /-- the number of dice left -/
  supply : Nat

namespace Roller

/-- A supply larger than any roll needs. -/
def plenty : Nat := 0x4000000000000000

/-- The given faces in order. -/
def tape (faces : List Int) : Roller :=
  let table := faces.toArray
  ⟨fun n _ => table.getD n 0, 0, faces.length⟩

/-- The same face again and again. -/
def constant (face : Int) (supply : Nat) : Roller :=
  ⟨fun _ _ => face, 0, supply⟩

/-- The lowest face of each die. -/
def lowest (supply : Nat) : Roller :=
  ⟨fun _ sides => (min sides 1 : Nat), 0, supply⟩

/-- The highest face of each die. -/
def highest (supply : Nat) : Roller :=
  ⟨fun _ sides => sides, 0, supply⟩

/-- Scrambles a word: two rounds of multiplying and folding the high half in. -/
def scramble (x : UInt64) : UInt64 :=
  let x := (x ^^^ (x >>> 30)) * 0xBF58476D1CE4E5B9
  let x := (x ^^^ (x >>> 27)) * 0x94D049BB133111EB
  x ^^^ (x >>> 31)

/-- Faces between one and the number of sides that look random and depend on a
seed alone.  A die without sides shows zero. -/
def seeded (seed supply : Nat) : Roller :=
  let face (n sides : Nat) : Int :=
    if sides = 0 then 0
    else
      let word := scramble (UInt64.ofNat seed + UInt64.ofNat (n + 1) * 0x9E3779B97F4A7C15)
      ((word.toNat % sides + 1 : Nat) : Int)
  ⟨face, 0, supply⟩

end Roller

/-! ## Failures -/

/-- Why dice could not be rolled. -/
inductive DiceError where
  /-- the sum of the values does not fit in 64 bits -/
  | overflow
  /-- the modifier would never stop rolling -/
  | infiniteRolls (modifier : Modifier) (sides : Nat)
  | tooManyDice (count : Nat)
  | unknownCondition (symbol : String)
deriving DecidableEq, Repr

def DiceError.message : DiceError → String
  | .overflow => "integer overflow"
  | .infiniteRolls modifier sides =>
      modifier.text ++ " on d" ++ toString sides ++ " would result in infinite rolls"
  | .tooManyDice count =>
      toString count ++ " dice is more than the limit of " ++ toString Dice.maxCount
  | .unknownCondition symbol => "unknown condition symbol: " ++ symbol

/-- How a computation with dice fails: in a way that callers expect, or not. -/
inductive RollFailure where
  | error (e : DiceError)
  | fault (f : Fault)
deriving DecidableEq, Repr

/-- A condition from its symbol. -/
def Condition.ofSymbol (symbol : String) (bound : Int) : Except DiceError Condition :=
  match Comparison.ofSymbol? symbol with
  | some comparison => .ok ⟨comparison, bound⟩
  | none => .error (.unknownCondition symbol)

/-! ## Drawing -/

/-- A computation that draws dice. -/
abbrev Rolling := ExceptT RollFailure (StateM Roller)

namespace Rolling

def fail {α : Type} (e : DiceError) : Rolling α :=
  throw (.error e)

/-- Passes a fault on. -/
def ofFault {α : Type} : Except Fault α → Rolling α
  | .ok a => pure a
  | .error f => throw (.fault f)

/-- Draws a die. -/
def draw (sides : Nat) : Rolling Die := do
  let roller ← get
  match roller.supply with
  | 0 => throw (.fault .diceSpent)
  | supply + 1 =>
      set { roller with drawn := roller.drawn + 1, supply := supply }
      pure (Die.fresh (roller.face roller.drawn sides))

/-- Draws a number of dice, one after the other. -/
def drawMany (sides : Nat) : Nat → Rolling (List Die)
  | 0 => pure []
  | n + 1 => do
      let die ← draw sides
      let rest ← drawMany sides n
      pure (die :: rest)

/-- Draws a number of dice that a modifier adds. -/
def drawAdded (m : Modifier) (sides : Nat) : Nat → Rolling (List Die)
  | 0 => pure []
  | n + 1 => do
      let die ← draw sides
      let die ← ofFault (die.add m)
      let rest ← drawAdded m sides n
      pure (die :: rest)

end Rolling

end DiceFormula
