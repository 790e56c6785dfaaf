/-
# DiceFormula.Formula.Split -- operators

`Piece.splitOperators` cuts the text of a formula at its operators.  Operators
in flavor do not count.

A minus sign where an operand is expected, directly in front of a number,
belongs to that number.  Any other sign stays an operator.
-/
import DiceFormula.Formula.Bracket
import DiceFormula.Formula.Fragment

namespace DiceFormula

set_option autoImplicit false

/-- An operator or an operand of a text, with its byte offset. -/
inductive Cut where
  | operator (start : Nat) (op : Operator)
  | operand (start : Nat) (text : List Char)
deriving DecidableEq, Repr

namespace Cut

/-- The operand that a text is without the white space around it, if there is
anything else in it. -/
def operand? (start : Nat) (text : List Char) : List Cut :=
  if Text.allBlank text then []
  else
    let blanks := text.takeWhile Text.isBlank
    [.operand (start + Text.byteLength blanks) (Text.trim text)]

/-- The operator that a lexeme is. -/
def operator? (l : Lexeme) : Option Operator :=
  l.char?.bind Operator.ofSymbol?

/-- Cuts lexemes at the operators, behind text that starts at a byte offset and
is reversed. -/
def scan (start : Nat) (read : List Lexeme) : List Lexeme → List Cut
  | [] => operand? start (Lexeme.textAll read.reverse)
  | l :: rest =>
      match operator? l with
      | some op =>
          let text := Lexeme.textAll read.reverse
          let at_ := start + Text.byteLength text
          operand? start text ++ .operator at_ op :: scan (at_ + 1) [] rest
      | none => scan start (l :: read) rest

/-- The operators and operands of a text that starts at a byte offset. -/
def of (start : Nat) (text : List Char) : List Cut :=
  scan start [] (Lexeme.scan text)

/-- The pieces of cuts, and whether an operand is expected behind them. -/
def pieces (expecting : Bool) : List Cut → List Piece × Bool
  | [] => ([], expecting)
  | .operator start .subtract :: .operand next text :: rest =>
      if expecting && Fragment.isNumeric text then
        let span : Span := ⟨start, next + Text.byteLength text⟩
        let (others, last) := pieces false rest
        (⟨.fragment (String.ofList ('-' :: text)), some span⟩ :: others, last)
      else
        let (others, last) := pieces false rest
        (⟨.operator .subtract, some ⟨start, start + 1⟩⟩ :: Piece.ofText next text :: others,
          last)
  | .operator start op :: rest =>
      let (others, last) := pieces true rest
      (⟨.operator op, some ⟨start, start + 1⟩⟩ :: others, last)
  | .operand start text :: rest =>
      let (others, last) := pieces false rest
      (Piece.ofText start text :: others, last)

end Cut

namespace Piece

/-- Cuts the fragments among some pieces at their operators. -/
def splitOperatorsFrom (expecting : Bool) : List Piece → List Piece
  | [] => []
  | p :: rest =>
      match p.term with
      | .fragment text =>
          let (found, expecting) := Cut.pieces expecting (Cut.of p.start text.toList)
          found ++ splitOperatorsFrom expecting rest
      | _ => p :: splitOperatorsFrom p.term.isOperator rest

/-- Cuts the text of a formula at its operators. -/
def splitOperators (pieces : List Piece) : List Piece :=
  splitOperatorsFrom true pieces

end Piece

end DiceFormula
