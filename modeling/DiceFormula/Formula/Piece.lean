/-
# DiceFormula.Formula.Piece -- terms and the places they come from

While a formula is read each term keeps the place that it was read from, so that
errors can point there.  During evaluation the places are not known.
-/
import DiceFormula.Formula.Error
import DiceFormula.Formula.Term

namespace DiceFormula

set_option autoImplicit false

/-- A term and its place in the formula. -/
structure Piece where
  term : Term
  span : Option Span

namespace Piece

/-- A piece of text that starts at a byte offset. -/
def ofText (offset : Nat) (text : List Char) : Piece :=
  ⟨.fragment (String.ofList text), some (Span.ofText offset text)⟩

/-- A piece of text, if there is more than white space in it. -/
def ofText? (offset : Nat) (text : List Char) : List Piece :=
  if Text.allBlank text then [] else [ofText offset text]

/-- The start of the piece, as far as it is known. -/
def start (p : Piece) : Nat :=
  (p.span.map Span.start).getD 0

/-- Terms that are not from a formula. -/
def ofTerms (terms : List Term) : List Piece :=
  terms.map fun term => ⟨term, none⟩

def terms (pieces : List Piece) : List Term :=
  pieces.map term

/-- Maps each piece with the terms in front of it and behind it, behind a term
that comes before all of them. -/
def mapNeighboursFrom {α : Type} (f : Option Term → Piece → Option Term → α)
    (prior : Option Term) : List Piece → List α
  | [] => []
  | p :: rest =>
      f prior p (rest.head?.map Piece.term) :: mapNeighboursFrom f (some p.term) rest

/-- Maps each piece with the terms in front of it and behind it. -/
def mapNeighbours {α : Type} (f : Option Term → Piece → Option Term → α)
    (pieces : List Piece) : List α :=
  mapNeighboursFrom f none pieces

end Piece

end DiceFormula
