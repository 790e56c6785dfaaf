/-
# DiceFormula.Formula.Fragment -- fragments of text

What is left of a formula without its groups and operators are fragments: each
is a number or dice, with flavor behind it if need be.

`classify` decides which.  While groups are still to be evaluated it only
decides what is certain: dice must have a count, and nothing is decided beside
a term that a fragment may belong to.  Otherwise every fragment has to be
something, and a missing count is one.
-/
import DiceFormula.Dice.Reader
import DiceFormula.Formula.Piece

namespace DiceFormula

set_option autoImplicit false

namespace Fragment

/-! ## Numbers -/

/-- Decimal digits of any script, and perhaps a point and more of them. -/
def isUnsignedNumeric (s : List Char) : Bool :=
  match s.span Text.isDecimalDigit with
  | ([], _) => false
  | (_, []) => true
  | (_, '.' :: fraction) => !fraction.isEmpty && fraction.all Text.isDecimalDigit
  | _ => false

/-- Whether a fragment looks like a number. -/
def isNumeric : List Char → Bool
  | '-' :: s => isUnsignedNumeric s
  | s => isUnsignedNumeric s

/-- The value of a fragment in ASCII digits. -/
def unsignedValue? (s : List Char) : Option Float :=
  match s.span Char.isDigit with
  | ([], _) => none
  | (whole, []) => some (Decimal.ofDigits whole []).toFloat
  | (whole, '.' :: fraction) =>
      if !fraction.isEmpty && fraction.all Char.isDigit then
        some (Decimal.ofDigits whole fraction).toFloat
      else none
  | _ => none

/-- The number that a fragment is. -/
def number? : List Char → Option Float
  | '-' :: s => (unsignedValue? s).map (withSign true)
  | s => unsignedValue? s

/-! ## Flavor -/

/-- Cuts a text at its last opening square bracket. -/
def cutAtLastOpening (s : List Char) : Option (List Char × List Char) :=
  match s.reverse.span (· != '[') with
  | (behind, _ :: front) => some (front.reverse, behind.reverse)
  | (_, []) => none

/-- A trimmed fragment without its flavor, and the flavor. -/
def splitFlavor (fragment : List Char) : List Char × Option (List Char) :=
  let text := Text.trim fragment
  if text.getLast? = some ']' then
    match cutAtLastOpening text with
    | some (front, behind) => (Text.trimEnd front, some behind.dropLast)
    | none => (text, none)
  else (text, none)

/-! ## Dice -/

def isLetterD (c : Char) : Bool :=
  c == 'd' || c == 'D'

/-- A letter `d` and a digit behind it. -/
def startsWithSides : List Char → Bool
  | d :: n :: _ => isLetterD d && Text.isDecimalDigit n
  | _ => false

/-- Whether a fragment starts as dice do, even if the rest is malformed. -/
def looksLikeDice (s : List Char) : Bool :=
  match s.span Text.isDecimalDigit with
  | ([], s) => startsWithSides s
  | (_, s) => startsWithSides (Text.trimStart s)

/-- Whether dice are written without a count. -/
def lacksCount (s : List Char) : Bool :=
  (Text.trimStart s).head?.any isLetterD

/-! ## Classification -/

/-- Whether a neighbour of a fragment is still to be evaluated. -/
def isPending (prior next : Option Term) : Bool :=
  prior.any Term.isIntermediate || next.any Term.isIntermediate

/-- What a fragment is beside its neighbours, as far as it is certain. -/
def classifyEarly (fragment : String) (prior next : Option Term) : Term :=
  let (body, flavor) := splitFlavor fragment.toList
  let flavor := flavor.map String.ofList
  match number? body with
  | some x => .number x flavor
  | none =>
      match Dice.read? body with
      | some dice =>
          if lacksCount body || isPending prior next then .fragment fragment
          else Term.ofDice dice flavor
      | none => .fragment fragment

/-- What a fragment is. -/
def classify (fragment : String) : Except FormatError Term :=
  let (body, flavor) := splitFlavor fragment.toList
  let flavor := flavor.map String.ofList
  match number? body with
  | some x => .ok (.number x flavor)
  | none =>
      match Dice.read? body with
      | some dice => .ok (Term.ofDice dice flavor)
      | none =>
          if looksLikeDice body then .error (.malformedDice (String.ofList body) none)
          else .error (.unresolved (String.ofList (Text.trim fragment.toList)) none)

/-- What stands for the value of a neighbour that is still to be evaluated. -/
def placeholder (neighbour : Option Term) : List Char :=
  if neighbour.any Term.isIntermediate then ['1'] else []

/-- Makes sure that a fragment can be something once its neighbours have
values, by trying it with ones in their places. -/
def checkPending (fragment : String) (prior next : Option Term) : Except FormatError Unit :=
  let text := Text.trim fragment.toList
  let (body, flavor) := splitFlavor text
  let flavorText := match flavor with
    | some flavor => '[' :: flavor ++ [']']
    | none => []
  let trial := placeholder prior ++ body ++ placeholder next ++ flavorText
  match classify (String.ofList trial) with
  | .ok _ => .ok ()
  | .error (.malformedDice _ span) => .error (.malformedDice (String.ofList text) span)
  | .error (.unresolved _ span) => .error (.unresolved (String.ofList text) span)
  | .error e => .error e

end Fragment

/-- Decides what is certain of the fragments among some pieces. -/
def Piece.classifyEarly (pieces : List Piece) : List Piece :=
  Piece.mapNeighbours
    (fun prior p next =>
      match p.term with
      | .fragment text => { p with term := Fragment.classifyEarly text prior next }
      | _ => p)
    pieces

end DiceFormula
