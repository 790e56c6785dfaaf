/-
# DiceFormula.Formula.Term -- the terms of a formula

A formula is a list of terms: values, operators, and groups that hold formulas
of their own.  A `fragment` is text that waits for the value of a group beside
it, as the `d6` of `(1d4)d6` does.

`formulaText` writes a formula such that it can be read again.  Operators stand
apart from their operands, but a sign keeps to the operand behind it.
`describe` writes the same with the faces of the dice that were rolled.
-/
import DiceFormula.Arithmetic.Reader
import DiceFormula.Dice.Rolled

namespace DiceFormula

set_option autoImplicit false

/-- A term of a formula.  All but operators and fragments may carry a flavor, a
text in brackets that says what the term stands for. -/
inductive Term where
  | number (value : Float) (flavor : Option String)
  | operator (op : Operator)
  /-- dice and, once evaluated, their roll -/
  | dice (rolled : Rolled) (evaluated : Bool) (flavor : Option String)
  /-- formulas that are scored together and, once evaluated, the total of each -/
  | pool (members : List (List Term)) (modifiers : List Modifier) (results : List Die)
      (evaluated : Bool) (flavor : Option String)
  | call (f : MathFunction) (args : List (List Term)) (flavor : Option String)
  | group (inner : List Term) (flavor : Option String)
  | fragment (text : String)

namespace Term

instance : Inhabited Term := ⟨.fragment ""⟩

/-- Dice that have not been rolled. -/
def ofDice (dice : Dice) (flavor : Option String) : Term :=
  .dice (Rolled.unrolled dice) false flavor

/-! ## Equality -/

mutual

/-- Equality, with that of doubles on numbers. -/
def beq : Term → Term → Bool
  | number x flavor, number x' flavor' => x == x' && flavor == flavor'
  | operator op, operator op' => op == op'
  | dice rolled evaluated flavor, dice rolled' evaluated' flavor' =>
      rolled == rolled' && evaluated == evaluated' && flavor == flavor'
  | pool members modifiers results evaluated flavor,
    pool members' modifiers' results' evaluated' flavor' =>
      beqLists members members' && modifiers == modifiers' && results == results' &&
        evaluated == evaluated' && flavor == flavor'
  | call f args flavor, call f' args' flavor' =>
      f == f' && beqLists args args' && flavor == flavor'
  | group inner flavor, group inner' flavor' => beqAll inner inner' && flavor == flavor'
  | fragment text, fragment text' => text == text'
  | _, _ => false

def beqAll : List Term → List Term → Bool
  | [], [] => true
  | a :: as, b :: bs => beq a b && beqAll as bs
  | _, _ => false

def beqLists : List (List Term) → List (List Term) → Bool
  | [], [] => true
  | a :: as, b :: bs => beqAll a b && beqLists as bs
  | _, _ => false

end

instance : BEq Term := ⟨beq⟩

/-! ## Properties -/

def isOperator : Term → Bool
  | operator _ => true
  | _ => false

def isFragment : Term → Bool
  | fragment _ => true
  | _ => false

/-- Whether the term has to be evaluated or read further before it has a value.
A fragment beside such a term waits for it. -/
def isIntermediate : Term → Bool
  | fragment _ | group _ _ | call _ _ _ => true
  | pool _ _ _ evaluated _ => !evaluated
  | number _ _ | operator _ | dice _ _ _ => false

/-- The value of the term, if it has one. -/
def total? : Term → Option Float
  | number value _ => some value
  | dice rolled true _ => rolled.total.toOption.map Float.ofInt
  | pool _ modifiers results true _ => (tally modifiers results).toOption.map Float.ofInt
  | _ => none

def flavor? : Term → Option String
  | number _ flavor | dice _ _ flavor | pool _ _ _ _ flavor => flavor
  | call _ _ flavor | group _ flavor => flavor
  | operator _ | fragment _ => none

/-- Gives the term a flavor, if it can carry one. -/
def withFlavor (flavor : Option String) : Term → Term
  | number value _ => number value flavor
  | dice rolled evaluated _ => dice rolled evaluated flavor
  | pool members modifiers results evaluated _ =>
      pool members modifiers results evaluated flavor
  | call f args _ => call f args flavor
  | group inner _ => group inner flavor
  | operator op => operator op
  | fragment text => fragment text

/-! ## Text -/

/-- The flavor in brackets. -/
def flavorText : Option String → String
  | none => ""
  | some flavor => "[" ++ flavor ++ "]"

/-- An operator, set apart if it stands between two operands. -/
def operatorText (afterOperand : Bool) (op : Operator) : String :=
  if afterOperand then " " ++ op.text ++ " " else op.text

/-- A pool from the texts of its members. -/
def poolText (members : List String) (modifiers : List Modifier) : String :=
  "\x7b" ++ ", ".intercalate members ++ "\x7d" ++ Modifier.textAll modifiers

/-- A call from the texts of its arguments. -/
def callText (f : MathFunction) (args : List String) : String :=
  f.name ++ "(" ++ ", ".intercalate args ++ ")"

mutual

/-- The term as a formula writes it. -/
def text : Term → String
  | number value flavor => formulaNumber value ++ flavorText flavor
  | operator op => op.text
  | dice rolled _ flavor => rolled.dice.text ++ flavorText flavor
  | pool members modifiers _ _ flavor =>
      poolText (textLists members) modifiers ++ flavorText flavor
  | call f args flavor => callText f (textLists args) ++ flavorText flavor
  | group inner flavor => "(" ++ textFrom false inner ++ ")" ++ flavorText flavor
  | fragment text => text

/-- Terms one after the other, behind an operand or not. -/
def textFrom (afterOperand : Bool) : List Term → String
  | [] => ""
  | .operator op :: rest => operatorText afterOperand op ++ textFrom false rest
  | term :: rest => text term ++ textFrom true rest

def textLists : List (List Term) → List String
  | [] => []
  | terms :: rest => textFrom false terms :: textLists rest

end

/-- The formula of a list of terms. -/
def formulaText (terms : List Term) : String :=
  textFrom false terms

mutual

/-- The term as a formula writes it, with what was rolled. -/
def describe (limit : Option Nat) : Term → String
  | dice rolled true flavor => rolled.describe limit ++ flavorText flavor
  | pool members modifiers results true flavor =>
      poolText (describeLists limit members) modifiers ++ Die.listText results limit ++
        flavorText flavor
  | term => text term

def describeFrom (limit : Option Nat) (afterOperand : Bool) : List Term → String
  | [] => ""
  | .operator op :: rest => operatorText afterOperand op ++ describeFrom limit false rest
  | term :: rest => describe limit term ++ describeFrom limit true rest

def describeLists (limit : Option Nat) : List (List Term) → List String
  | [] => []
  | terms :: rest => describeFrom limit false terms :: describeLists limit rest

end

/-- The formula of a list of terms with what was rolled. -/
def describeAll (limit : Option Nat) (terms : List Term) : String :=
  describeFrom limit false terms

/-! ## Values -/

/-- The term in a sequence of values, by a rule for the values. -/
def item (value? : Term → Option Float) (term : Term) : Item :=
  match term with
  | operator op => .operator op
  | term =>
      match value? term with
      | some x => .value x
      | none => .unresolved term.text

/-- The total of terms that all have values. -/
def totalAll (terms : List Term) : Except CalcError Float :=
  Item.total (terms.map (item total?))

end Term

end DiceFormula
