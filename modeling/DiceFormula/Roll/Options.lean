/-
# DiceFormula.Roll.Options -- how formulas are rolled
-/
import DiceFormula.Dice.Roller

namespace DiceFormula

set_option autoImplicit false

/-- How the dice fall. -/
inductive RollMode where
  | random
  /-- every die shows its lowest face -/
  | minimize
  /-- every die shows its highest face -/
  | maximize
deriving DecidableEq, Repr

namespace RollMode

def all : List RollMode :=
  [random, minimize, maximize]

def name : RollMode → String
  | random => "random"
  | minimize => "minimize"
  | maximize => "maximize"

/-- A roller of the mode.  Only random faces depend on the seed. -/
def roller (mode : RollMode) (seed : Nat) : Roller :=
  match mode with
  | random => .seeded seed Roller.plenty
  | minimize => .lowest Roller.plenty
  | maximize => .highest Roller.plenty

end RollMode

structure RollOptions where
  /-- what is put in the place of missing data, or nothing -/
  missingData : Option String
  /-- whether to warn of missing data -/
  warnMissing : Bool
  mode : RollMode
  /-- how many dice of a roll are listed -/
  listLimit : Option Nat
deriving DecidableEq, Repr

namespace RollOptions

/-- Missing data counts as zero, with a warning, and every die is listed. -/
def default : RollOptions :=
  ⟨some "0", true, .random, none⟩

end RollOptions

end DiceFormula
