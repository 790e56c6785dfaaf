/-
# DiceFormula.Formula.Error -- what can be wrong with a formula

Each error tells where in the formula the problem is, as far as that is known.
-/
import DiceFormula.Text.Basic
import DiceFormula.Dice.Modifier

namespace DiceFormula

set_option autoImplicit false

/-- Why a formula cannot be read. -/
inductive FormatError where
  | empty
  /-- an opening bracket is never closed -/
  | unclosed (symbol : Char) (span : Option Span)
  /-- a closing bracket has no opening one -/
  | unexpectedClose (symbol opening : Char) (span : Option Span)
  /-- a group has nothing in it -/
  | emptyGroup (group : String) (span : Option Span)
  /-- between two commas of a group is nothing -/
  | emptyArgument (group : String) (span : Option Span)
  /-- the text starts as dice do and is none -/
  | malformedDice (term : String) (span : Option Span)
  /-- a pool is followed by something else than modifiers, or by one that means
  nothing on a pool -/
  | poolModifiers (modifiers : String) (culprit : Option Modifier) (span : Option Span)
  /-- the text is neither a number nor dice -/
  | unresolved (term : String) (span : Option Span)
deriving DecidableEq, Repr

namespace FormatError

def span : FormatError → Option Span
  | empty => none
  | unclosed _ span | unexpectedClose _ _ span => span
  | emptyGroup _ span | emptyArgument _ span => span
  | malformedDice _ span | poolModifiers _ _ span | unresolved _ span => span

/-- Tells where the problem is, unless the error knows. -/
def locate (place : Option Span) : FormatError → FormatError
  | empty => empty
  | unclosed symbol span => unclosed symbol (span <|> place)
  | unexpectedClose symbol opening span => unexpectedClose symbol opening (span <|> place)
  | emptyGroup group span => emptyGroup group (span <|> place)
  | emptyArgument group span => emptyArgument group (span <|> place)
  | malformedDice term span => malformedDice term (span <|> place)
  | poolModifiers modifiers culprit span => poolModifiers modifiers culprit (span <|> place)
  | unresolved term span => unresolved term (span <|> place)

/-- A text in double quotes. -/
def quoted (text : String) : String :=
  "\"" ++ text ++ "\""

/-- A character in single quotes. -/
def quotedChar (c : Char) : String :=
  "'" ++ String.singleton c ++ "'"

def message : FormatError → String
  | empty => "empty formula"
  | unclosed symbol _ => "unclosed " ++ quotedChar symbol
  | unexpectedClose symbol opening _ =>
      "unexpected " ++ quotedChar symbol ++ " without a matching " ++ quotedChar opening
  | emptyGroup group _ => "empty group " ++ quoted group
  | emptyArgument group _ => "empty argument in " ++ quoted group
  | malformedDice term _ => "malformed dice " ++ quoted term
  | poolModifiers modifiers none _ => "invalid pool modifiers " ++ quoted modifiers
  | poolModifiers modifiers (some m) _ =>
      "invalid pool modifiers " ++ quoted modifiers ++ ": " ++ m.text ++
        " can't be applied to a pool"
  | unresolved term _ => "unresolved term " ++ quoted term

end FormatError

end DiceFormula
