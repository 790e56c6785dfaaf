/-
# DiceFormula.Dice.Die -- a die that was rolled

A `Die` records what became of one die: its value, the modifier that added it,
the modifier that dropped it, every change to its value, and whether it scored.
A die is added at most once and dropped at most once; a second time is a
`Fault`, not an outcome.
-/
import DiceFormula.Dice.Modifier

namespace DiceFormula

set_option autoImplicit false

/-- A misuse that no roll of dice should lead to. -/
inductive Fault where
  /-- a die was asked for and none was left -/
  | diceSpent
  | addedTwice
  | droppedTwice
deriving DecidableEq, Repr

/-- What is reported of a fault. -/
def Fault.message : Fault → String
  | .diceSpent => "iterator is finished"
  | .addedTwice =>
      "marking a die as added that has already been marked as added by another modifier"
  | .droppedTwice =>
      "marking a die as dropped that has already been marked as dropped by another modifier"

/-- A change to the value of a die. -/
structure Change where
  before : Int
  after : Int
  cause : Modifier
deriving DecidableEq, Repr

/-- A die that was rolled, or a member of a pool with its total as value. -/
structure Die where
  value : Int
  addedBy : Option Modifier
  droppedBy : Option Modifier
  changes : List Change
  /-- how the die scored, once a counting modifier looked at it -/
  success : Option Bool
deriving DecidableEq, Repr

/-- What a reader of a roll needs to know of a die. -/
structure DieView where
  value : Int
  active : Bool
  success : Option Bool
deriving DecidableEq, Repr

namespace Die

/-- A die as it falls. -/
def fresh (value : Int) : Die :=
  ⟨value, none, none, [], none⟩

/-! ## Marks -/

def isInitial (d : Die) : Bool := d.addedBy.isNone

def isAdded (d : Die) : Bool := d.addedBy.isSome

def isDropped (d : Die) : Bool := d.droppedBy.isSome

def isKept (d : Die) : Bool := d.droppedBy.isNone

def isChanged (d : Die) : Bool := !d.changes.isEmpty

def isSuccess (d : Die) : Bool := d.success == some true

def isFailure (d : Die) : Bool := d.success == some false

/-! ## Changes -/

def add (m : Modifier) (d : Die) : Except Fault Die :=
  if d.isAdded then .error .addedTwice else .ok { d with addedBy := some m }

def drop (m : Modifier) (d : Die) : Except Fault Die :=
  if d.isDropped then .error .droppedTwice else .ok { d with droppedBy := some m }

/-- Replaces the value and records the change. -/
def change (m : Modifier) (value : Int) (d : Die) : Die :=
  { d with value := value, changes := d.changes ++ [⟨d.value, value, m⟩] }

/-- Records how the die scored. -/
def score (success : Bool) (d : Die) : Die :=
  { d with success := some success }

/-! ## Views -/

def view (d : Die) : DieView :=
  ⟨d.value, d.isKept, d.success⟩

/-- The value, followed by a mark for a changed, a scored and a dropped die. -/
def text (d : Die) : String :=
  let changed := if d.isChanged then " (m)" else ""
  let scored := match d.success with
    | some true => " (s)"
    | some false => " (f)"
    | none => ""
  let dropped := if d.isDropped then " (d)" else ""
  toString d.value ++ changed ++ scored ++ dropped

/-- The dice in brackets.  Beyond the limit only their number is told. -/
def listText (dice : List Die) (limit : Option Nat) : String :=
  let limit := limit.getD dice.length
  let hidden := dice.length - limit
  let more := if 0 < hidden then ", " ++ toString hidden ++ " more..." else ""
  "[" ++ ", ".intercalate ((dice.take limit).map text) ++ more ++ "]"

end Die

end DiceFormula
