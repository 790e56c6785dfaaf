/-
# DiceFormula.Formula.Simplify -- fragments and the values beside them

A fragment beside a value belongs to it: `(2+1)d6` is `3d6` once the group has
its value.  `Piece.merge` joins fragments with the values directly beside them.

* When a formula is read (`simplifyEarly`), groups and calls beside a fragment
  that have the same value whatever the dice show are replaced by it.  A fragment
  that is still beside a group waits, after a check that it will fit.
* When a formula is evaluated (`simplifyLate`), every fragment has to be
  something, and operators that stand at an end for nothing are left out.  A
  minus sign at the start is a sign.
-/
import DiceFormula.Formula.Fragment

namespace DiceFormula

set_option autoImplicit false

/-! ## Constant terms -/

namespace Term

mutual

/-- The value of a term, if it is the same for all dice. -/
def constant? : Term → Option Float
  | number value _ => some value
  | group inner _ => (Item.total (constantItems inner)).toOption
  | call f args _ => (constantTotals? args).bind fun xs => (f.apply xs).toOption
  | _ => none

/-- Terms as a sequence of values, by their constant values. -/
def constantItems : List Term → List Item
  | [] => []
  | .operator op :: rest => .operator op :: constantItems rest
  | term :: rest =>
      (match constant? term with
        | some x => Item.value x
        | none => .unresolved term.text) :: constantItems rest

/-- The totals of lists of terms, by their constant values. -/
def constantTotals? : List (List Term) → Option (List Float)
  | [] => some []
  | terms :: rest =>
      match (Item.total (constantItems terms)).toOption with
      | none => none
      | some x => (constantTotals? rest).map (x :: ·)

end

/-- Whether the term can be replaced by a constant value. -/
def isFoldable : Term → Bool
  | group _ _ | call _ _ _ => true
  | _ => false

/-! ## Merging -/

/-- Whether a fragment ends with flavor. -/
def endsWithFlavor (fragment : String) : Bool :=
  (Text.trimEnd fragment.toList).getLast? = some ']'

/-- The flavor of a value that is joined with a fragment, unless that has its
own. -/
def mergedFlavor (flavor : Option String) (fragment : String) : String :=
  if endsWithFlavor fragment then "" else flavorText flavor

/-- The fragment that two terms next to each other join to. -/
def merged? (a b : Term) : Option String :=
  match a, b with
  | fragment text, value =>
      value.total?.map fun x => text ++ formulaNumber x ++ mergedFlavor value.flavor? text
  | value, fragment text =>
      value.total?.map fun x =>
        let joined := formulaNumber x ++ text
        joined ++ mergedFlavor value.flavor? joined
  | _, _ => none

end Term

namespace Piece

/-- Replaces constant groups and calls beside fragments by their values. -/
def foldConstants (pieces : List Piece) : List Piece :=
  mapNeighbours
    (fun prior p next =>
      if p.term.isFoldable && (prior.any Term.isFragment || next.any Term.isFragment) then
        match p.term.constant? with
        | some x => { p with term := .number x p.term.flavor? }
        | none => p
      else p)
    pieces

/-- Joins fragments with the values beside them, behind a first piece. -/
def mergeFrom (last : Piece) : List Piece → List Piece
  | [] => [last]
  | p :: rest =>
      match Term.merged? last.term p.term with
      | some text => mergeFrom ⟨.fragment text, Span.cover? last.span p.span⟩ rest
      | none => last :: mergeFrom p rest

/-- Joins fragments with the values beside them. -/
def merge : List Piece → List Piece
  | [] => []
  | p :: rest => mergeFrom p rest

/-! ## Simplification -/

/-- The piece of a fragment when a formula is read. -/
def settleEarly (prior : Option Term) (p : Piece) (next : Option Term) :
    Except FormatError Piece :=
  match p.term with
  | .fragment text =>
      if Fragment.isPending prior next then
        match Fragment.checkPending text prior next with
        | .ok () => .ok p
        | .error e => .error (e.locate p.span)
      else
        match Fragment.classify text with
        | .ok term => .ok { p with term := term }
        | .error e => .error (e.locate p.span)
  | _ => .ok p

/-- The piece of a fragment when a formula is evaluated. -/
def settleLate (p : Piece) : Except FormatError Piece :=
  match p.term with
  | .fragment text =>
      match Fragment.classify text with
      | .ok term => .ok { p with term := term }
      | .error e => .error (e.locate p.span)
  | _ => .ok p

/-- Whether an operator stands for nothing at the start of a formula. -/
def isStrayAtStart (p : Piece) : Bool :=
  match p.term with
  | .operator op => op != .subtract
  | _ => false

/-- Leaves out operators at the ends that stand for nothing. -/
def stripStray (pieces : List Piece) : List Piece :=
  let front := (pieces.reverse.dropWhile fun p => p.term.isOperator).reverse
  front.dropWhile isStrayAtStart

/-- Simplifies a formula that was read. -/
def simplifyEarly (pieces : List Piece) : Except FormatError (List Piece) :=
  (mapNeighbours settleEarly (merge (foldConstants pieces))).mapM id

/-- Simplifies a formula whose groups have been evaluated. -/
def simplifyLate (pieces : List Piece) : Except FormatError (List Piece) :=
  ((merge pieces).mapM settleLate).map stripStray

end Piece

end DiceFormula
