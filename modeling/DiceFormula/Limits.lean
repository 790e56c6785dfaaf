/-
# DiceFormula.Limits -- the ranges of numbers

Counts of dice and sides are unsigned and have 32 bits.  Values of dice and the
bounds of conditions are signed and have 64.  JSON that is given as an argument
is nested at most 127 levels deep.
-/

namespace DiceFormula

set_option autoImplicit false

namespace Limit

/-- The largest count of dice or sides. -/
def mostCount : Nat := 0xFFFFFFFF

/-- The largest position in a list. -/
def mostIndex : Nat := 0xFFFFFFFFFFFFFFFF

/-- The lowest value of a die. -/
def leastValue : Int := -0x8000000000000000

/-- The highest value of a die. -/
def mostValue : Int := 0x7FFFFFFFFFFFFFFF

/-- How many arrays and objects an argument nests in one another. -/
def mostLevels : Nat := 127

end Limit

end DiceFormula
