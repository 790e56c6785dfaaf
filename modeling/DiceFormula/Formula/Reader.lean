/-
# DiceFormula.Formula.Reader -- reading formulas

A formula is read in stages: round groups, then curly groups, then operators,
then the fragments between them, and last the fragments beside groups.  What a
group holds is a formula and is read the same way.

A group is shorter than the formula that it stands in, so the length of the
formula bounds how deep they are nested.
-/
import DiceFormula.Formula.Group
import DiceFormula.Formula.Simplify
import DiceFormula.Formula.Split

namespace DiceFormula

set_option autoImplicit false

namespace Formula

/-- Reads a formula that starts at a byte offset, with what is in its groups. -/
def piecesWith (read : SubReader) (offset : Nat) (text : List Char) :
    Except FormatError (List Piece) :=
  match Piece.splitGroups .round read [Piece.ofText offset text] with
  | .error e => .error e
  | .ok pieces =>
      match Piece.splitGroups .curly read pieces with
      | .error e => .error e
      | .ok pieces =>
          Piece.simplifyEarly (Piece.classifyEarly (Piece.splitOperators pieces))

/-- Reads a formula with groups nested less deep than a bound. -/
def piecesWithin : Nat → Nat → List Char → Except FormatError (List Piece)
  | 0, _, text => .error (.unresolved (String.ofList text) none)
  | depth + 1, offset, text =>
      piecesWith (fun offset text => (piecesWithin depth offset text).map Piece.terms)
        offset text

/-- Reads a formula that starts at a byte offset. -/
def pieces (offset : Nat) (text : List Char) : Except FormatError (List Piece) :=
  piecesWithin (text.length + 1) offset text

/-- Reads a formula. -/
def read (formula : String) : Except FormatError (List Term) :=
  (pieces 0 formula.toList).map Piece.terms

end Formula

/-- Reads dice that are not part of a formula. -/
def Dice.parse (text : String) : Except FormatError Dice :=
  match Dice.read? text.toList with
  | some dice => .ok dice
  | none => .error (.malformedDice text none)

end DiceFormula
