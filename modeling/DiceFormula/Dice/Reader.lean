/-
# DiceFormula.Dice.Reader -- reading dice text

Dice are written as an optional count, a `d`, the number of sides and modifiers,
such as `4d6kh3`.  The text is read from left to right; where several readings
are possible the first one counts, in the order `r`, `x`, `kl`, `k`, `dh`, `d`,
`min`, `max`, `cs`, `cf`, and each takes as much as it can.

Numbers have no leading zeros, and must fit: counts and sides in 32 bits, bounds
in 64 bits with sign.  A condition or a count that may be left out and cannot be
read is left out, so that what stands there must be read as something else.
White space may surround the count and the whole text.
-/
import DiceFormula.Dice.Modifier
import DiceFormula.Limits
import DiceFormula.Text.Basic

namespace DiceFormula

set_option autoImplicit false

namespace Dice.Reader

/-! ## Numbers -/

/-- Takes the digits of a number without leading zeros. -/
def numeral? : List Char → Option (List Char × List Char)
  | '0' :: s => some (['0'], s)
  | s =>
      match s.span Char.isDigit with
      | ([], _) => none
      | found => some found

/-- Reads a number up to a largest one. -/
def numberUpTo? (most : Nat) (s : List Char) : Option (Nat × List Char) := do
  let (digits, s) ← numeral? s
  let n := Nat.ofDigitChars 10 digits 0
  if n ≤ most then some (n, s) else none

/-- Reads the bound of a condition, a minimum or a maximum. -/
def bound? (s : List Char) : Option (Int × List Char) :=
  (numberUpTo? Limit.mostValue.toNat s).map fun (n, s) => ((n : Int), s)

/-- Reads a count behind a keyword; one if there is none. -/
def count? (s : List Char) : Option (Nat × List Char) :=
  match numeral? s with
  | none => some (1, s)
  | some _ => numberUpTo? Limit.mostCount s

/-! ## Conditions -/

/-- Reads the symbol of a comparison; equality if there is none. -/
def comparison : List Char → Comparison × List Char
  | '>' :: '=' :: s => (.atLeast, s)
  | '<' :: '=' :: s => (.atMost, s)
  | '>' :: s => (.above, s)
  | '<' :: s => (.below, s)
  | '=' :: s => (.equal, s)
  | s => (.equal, s)

def condition? (s : List Char) : Option (Condition × List Char) :=
  let (comparison, s) := comparison s
  (bound? s).map fun (bound, s) => (⟨comparison, bound⟩, s)

/-- Reads a condition that may be left out. -/
def optionalCondition (s : List Char) : Option Condition × List Char :=
  match condition? s with
  | some (condition, s) => (some condition, s)
  | none => (none, s)

/-- Takes a letter that may be left out. -/
def optionalLetter (letter : Char) : List Char → Bool × List Char
  | c :: s => if c = letter then (true, s) else (false, c :: s)
  | [] => (false, [])

/-! ## Modifiers -/

/-- Reads `r` and what belongs to it, behind the letter. -/
def reroll (s : List Char) : Modifier × List Char :=
  let (again, s) := optionalLetter 'r' s
  let (condition, s) := optionalCondition s
  (.reroll (condition.getD ⟨.equal, 1⟩) again, s)

/-- Reads `x` and what belongs to it, behind the letter. -/
def explode (s : List Char) : Modifier × List Char :=
  let (once, s) := optionalLetter 'o' s
  let (condition, s) := optionalCondition s
  (.explode condition (!once), s)

/-- Reads a keyword and a count. -/
def counted? (keyword : List Char) (make : Nat → Modifier) (s : List Char) :
    Option (Modifier × List Char) := do
  let s ← Text.after? keyword s
  let (n, s) ← count? s
  some (make n, s)

/-- Reads a letter, a letter that may be left out, and a count. -/
def countedShort? (letter optional : Char) (make : Nat → Modifier) (s : List Char) :
    Option (Modifier × List Char) := do
  let s ← Text.after? [letter] s
  let (n, s) ← count? (optionalLetter optional s).2
  some (make n, s)

/-- Reads a keyword and a bound. -/
def bounded? (keyword : List Char) (make : Int → Modifier) (s : List Char) :
    Option (Modifier × List Char) := do
  let s ← Text.after? keyword s
  let (n, s) ← bound? s
  some (make n, s)

/-- Reads a keyword and a condition. -/
def scored? (keyword : List Char) (make : Condition → Modifier) (s : List Char) :
    Option (Modifier × List Char) := do
  let s ← Text.after? keyword s
  let (condition, s) ← condition? s
  some (make condition, s)

/-- Reads one modifier. -/
def modifier? (s : List Char) : Option (Modifier × List Char) :=
  match s with
  | 'r' :: s => some (reroll s)
  | 'x' :: s => some (explode s)
  | s =>
      counted? ['k', 'l'] .keepLow s
      <|> countedShort? 'k' 'h' .keepHigh s
      <|> counted? ['d', 'h'] .dropHigh s
      <|> countedShort? 'd' 'l' .dropLow s
      <|> bounded? ['m', 'i', 'n'] .raise s
      <|> bounded? ['m', 'a', 'x'] .cap s
      <|> scored? ['c', 's'] .countSuccess s
      <|> scored? ['c', 'f'] .countFailure s

/-- Reads modifiers to the end of the text, at most a number of them. -/
def modifiersWithin? : Nat → List Char → Option (List Modifier)
  | _, [] => some []
  | 0, _ => none
  | n + 1, s =>
      match modifier? s with
      | none => none
      | some (m, s) => (modifiersWithin? n s).map (m :: ·)

/-- Reads modifiers to the end of the text.  Each takes at least a letter. -/
def modifiers? (s : List Char) : Option (List Modifier) :=
  modifiersWithin? s.length s

/-! ## Dice -/

/-- Reads the count in front of the `d`; one if there is none. -/
def diceCount? (s : List Char) : Option (Nat × List Char) :=
  match numeral? (Text.trimStart s) with
  | none => some (1, s)
  | some (digits, rest) =>
      let n := Nat.ofDigitChars 10 digits 0
      if n ≤ Dice.maxCount then some (n, Text.trimStart rest) else none

/-- Reads dice that make up the whole text, in lower case. -/
def dice? (s : List Char) : Option Dice := do
  let (count, s) ← diceCount? s
  let s ← Text.after? ['d'] s
  let (sides, s) ← numberUpTo? Limit.mostCount s
  let modifiers ← modifiers? s
  if sides = 0 then none else some ⟨count, sides, modifiers⟩

end Dice.Reader

/-- Reads dice in lower or upper case, with white space around them. -/
def Dice.read? (text : List Char) : Option Dice :=
  Dice.Reader.dice? (Text.trim (text.map Text.lower))

end DiceFormula
