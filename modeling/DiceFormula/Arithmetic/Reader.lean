/-
# DiceFormula.Arithmetic.Reader -- reading expressions

An expression is first cut into tokens.  White space may stand between any two
tokens; the name of a function and the parenthesis behind it are one token.  A
number is a sequence of ASCII digits, with a fraction behind a point if need be,
and has no sign.

The tokens are then read by the grammar

    sum      := product (('+' | '-') product)*
    product  := signed (('*' | '/') signed)*
    signed   := ('+' | '-')* atom
    atom     := number | name '(' sum (',' sum)* ')' | '(' sum ')'

Chains of operators are read from the left, and a plus sign leaves no trace.
Each part of the grammar is a `Step`, made from the step for what is nested
inside it; `sum` counts the levels of nesting.
-/
import DiceFormula.Text.Basic
import DiceFormula.Arithmetic.Expr

namespace DiceFormula

set_option autoImplicit false

namespace Arithmetic

/-! ## Tokens -/

/-- A piece of an expression's text. -/
inductive Token where
  | number (x : Float)
  /-- the name of a function with its opening parenthesis -/
  | call (f : MathFunction)
  | opening
  | closing
  | comma
  | operator (op : Operator)

namespace Token

/-- The fraction of a number: a point and at least one digit. -/
def fraction : List Char → List Char × List Char
  | '.' :: s =>
      match s.span Char.isDigit with
      | ([], _) => ([], '.' :: s)
      | found => found
  | s => ([], s)

def number? (s : List Char) : Option (Token × List Char) :=
  match s.span Char.isDigit with
  | ([], _) => none
  | (whole, s) =>
      let (digits, s) := fraction s
      some (.number (Decimal.ofDigits whole digits).toFloat, s)

def call? (s : List Char) : Option (Token × List Char) :=
  MathFunction.all.findSome? fun f =>
    (Text.after? (f.name.toList ++ ['(']) s).map fun s => (.call f, s)

/-- A token of one character. -/
def symbol? (c : Char) : Option Token :=
  match c with
  | '(' => some .opening
  | ')' => some .closing
  | ',' => some .comma
  | c => (Operator.ofSymbol? c).map .operator

/-- The token at the start of a text. -/
def next? : List Char → Option (Token × List Char)
  | [] => none
  | c :: s =>
      match symbol? c with
      | some token => some (token, s)
      | none => number? (c :: s) <|> call? (c :: s)

/-- The tokens of a text, at most a number of them. -/
def scanWithin? : Nat → List Char → Option (List Token)
  | n, s =>
      match Text.trimStart s with
      | [] => some []
      | c :: s =>
          match n with
          | 0 => none
          | n + 1 =>
              match next? (c :: s) with
              | none => none
              | some (token, s) => (scanWithin? n s).map (token :: ·)

/-- The tokens of a text.  Each takes at least a character. -/
def scan? (s : List Char) : Option (List Token) :=
  scanWithin? s.length s

end Token

/-! ## Grammar -/

/-- Reads an expression at the start of a token list. -/
abbrev Step := List Token → Option (Expr × List Token)

/-- Reads the operators behind an operand, at most a number of them. -/
def chainTail (belongs : Operator → Bool) (operand : Step) :
    Nat → Expr → List Token → Option (Expr × List Token)
  | n + 1, left, .operator op :: ts =>
      if belongs op then
        match operand ts with
        | none => none
        | some (right, ts) => chainTail belongs operand n (.binary op left right) ts
      else some (left, .operator op :: ts)
  | _, left, ts => some (left, ts)

/-- Reads operands with operators between them. -/
def chain (belongs : Operator → Bool) (operand : Step) : Step := fun ts =>
  match operand ts with
  | none => none
  | some (left, ts) => chainTail belongs operand ts.length left ts

/-- Reads an atom behind its signs. -/
def signed (atom : Step) : Step
  | .operator .add :: ts => signed atom ts
  | .operator .subtract :: ts => (signed atom ts).map fun (e, ts) => (.negate e, ts)
  | ts => atom ts

/-- Reads arguments and the closing parenthesis, at most a number of them. -/
def arguments (sum : Step) : Nat → List Token → Option (List Expr × List Token)
  | 0, _ => none
  | n + 1, ts =>
      match sum ts with
      | some (e, .comma :: ts) => (arguments sum n ts).map fun (es, ts) => (e :: es, ts)
      | some (e, .closing :: ts) => some ([e], ts)
      | _ => none

/-- Reads a number, a call or an expression in parentheses. -/
def atom (sum : Step) : Step
  | .number x :: ts => some (.number x, ts)
  | .call f :: ts =>
      (arguments sum ts.length ts).map fun (args, ts) => (.call f args, ts)
  | .opening :: ts =>
      match sum ts with
      | some (e, .closing :: ts) => some (e, ts)
      | _ => none
  | _ => none

/-- Reads an expression nested less deep than a bound. -/
def sum : Nat → Step
  | 0 => fun _ => none
  | depth + 1 =>
      chain Operator.isAdditive
        (chain Operator.isMultiplicative (signed (atom (sum depth))))

end Arithmetic

/-! ## Expressions -/

/-- The expression that makes up a token list.  Each level of nesting opens with
a token. -/
def Expr.ofTokens? (ts : List Arithmetic.Token) : Option Expr :=
  match Arithmetic.sum (ts.length + 1) ts with
  | some (e, []) => some e
  | _ => none

def Expr.read? (s : List Char) : Option Expr :=
  (Arithmetic.Token.scan? s).bind Expr.ofTokens?

/-- Reads and calculates an expression. -/
def evaluate (expression : String) : Except CalcError Float :=
  match Expr.read? expression.toList with
  | some e => e.calculate
  | none => .error (.malformed expression)

/-! ## Sequences of values -/

/-- A value or an operator in the sequence that a formula comes down to. -/
inductive Item where
  | operator (op : Operator)
  | value (x : Float)
  /-- a term without a value -/
  | unresolved (term : String)

namespace Item

/-- The text of an item.  Negative values stand in parentheses. -/
def text : Item → Except CalcError String
  | operator op => .ok (" " ++ op.text ++ " ")
  | value x => .ok (if x < 0 then "(" ++ formulaNumber x ++ ")" else formulaNumber x)
  | unresolved term => .error (.unresolved term)

/-- The value of a sequence of items: that of their text. -/
def total (items : List Item) : Except CalcError Float := do
  let texts ← items.mapM text
  evaluate (String.join texts)

end Item

end DiceFormula
