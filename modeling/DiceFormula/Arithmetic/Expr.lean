/-
# DiceFormula.Arithmetic.Expr -- arithmetic expressions

`Expr.calculate` calculates an expression from the inside out and from left to right,
and fails as soon as a value is not finite.  `Expr.text` writes it with the
parentheses that keep its layout when it is read again.
-/
import DiceFormula.Arithmetic.MathFunction
import DiceFormula.Arithmetic.Operator

namespace DiceFormula

set_option autoImplicit false

/-- An arithmetic expression. -/
inductive Expr where
  | number (x : Float)
  | negate (e : Expr)
  | binary (op : Operator) (left right : Expr)
  | call (f : MathFunction) (args : List Expr)

/-- The kind of the outermost operation of an expression. -/
inductive ExprKind where
  | value
  | unary
  | additive
  | multiplicative
deriving DecidableEq, Repr

namespace Expr

instance : Inhabited Expr := ⟨.number 0⟩

def kind : Expr → ExprKind
  | number _ | call _ _ => .value
  | negate _ => .unary
  | binary op _ _ => if op.isAdditive then .additive else .multiplicative

/-! ## Equality -/

mutual

/-- Equality, with that of doubles on numbers. -/
def beq : Expr → Expr → Bool
  | number x, number y => x == y
  | negate a, negate b => beq a b
  | binary op a b, binary op' a' b' => op == op' && beq a a' && beq b b'
  | call f args, call f' args' => f == f' && beqAll args args'
  | _, _ => false

def beqAll : List Expr → List Expr → Bool
  | [], [] => true
  | a :: as, b :: bs => beq a b && beqAll as bs
  | _, _ => false

end

instance : BEq Expr := ⟨beq⟩

/-! ## Text -/

def parenthesized (needed : Bool) (text : String) : String :=
  if needed then "(" ++ text ++ ")" else text

/-- Whether the left operand of an operator needs parentheses. -/
def leftNeeds (op : Operator) (left : Expr) : Bool :=
  op.isMultiplicative && left.kind == .additive

/-- Whether the right operand of an operator needs parentheses. -/
def rightNeeds (op : Operator) (right : Expr) : Bool :=
  match right.kind with
  | .additive => op.isMultiplicative || op.isInverse
  | .multiplicative => op.isMultiplicative && op.isInverse
  | _ => false

mutual

def text : Expr → String
  | number x => formulaNumber x
  | negate e => "-" ++ parenthesized (e.kind != .value) (text e)
  | binary op a b =>
      parenthesized (leftNeeds op a) (text a) ++ " " ++ op.text ++ " " ++
        parenthesized (rightNeeds op b) (text b)
  | call f args => f.name ++ "(" ++ ", ".intercalate (texts args) ++ ")"

def texts : List Expr → List String
  | [] => []
  | e :: rest => text e :: texts rest

end

/-! ## Values -/

mutual

/-- The value of an expression. -/
def calculate : Expr → Except CalcError Float
  | number x => finite x (text (number x))
  | negate e => do
      let x ← calculate e
      finite (-x) (text (negate e))
  | binary op a b => do
      let x ← calculate a
      let y ← calculate b
      finite (op.apply x y) (text (binary op a b))
  | call f args => do
      let xs ← calculateAll args
      f.apply xs

def calculateAll : List Expr → Except CalcError (List Float)
  | [] => pure []
  | e :: rest => do
      let x ← calculate e
      let xs ← calculateAll rest
      pure (x :: xs)

end

end Expr

end DiceFormula
