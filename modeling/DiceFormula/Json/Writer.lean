/-
# DiceFormula.Json.Writer -- JSON text

Writes a value without white space.  In strings the quote, the backslash and the
control characters are escaped, and nothing else.  A double that is not finite
is written `null`.
-/
import DiceFormula.Decimal.Layout
import DiceFormula.Json.Basic

namespace DiceFormula

set_option autoImplicit false

/-- Integers in digits, doubles in the layout of JSON. -/
def JsonNumber.text : JsonNumber → String
  | .integer n => toString n
  | .double x => String.ofList (numberText .json x)

namespace Json

/-! ## Strings -/

/-- A control character by its code. -/
def escapeControl (c : Char) : List Char :=
  let n := c.toNat
  ['\\', 'u', '0', '0', Nat.digitChar (n / 16), Nat.digitChar (n % 16)]

/-- A character inside a string. -/
def escapeChar (c : Char) : List Char :=
  match c with
  | '"' => ['\\', '"']
  | '\\' => ['\\', '\\']
  | '\x08' => ['\\', 'b']
  | '\x0c' => ['\\', 'f']
  | '\n' => ['\\', 'n']
  | '\r' => ['\\', 'r']
  | '\t' => ['\\', 't']
  | c => if c.toNat < 0x20 then escapeControl c else [c]

/-- A string in quotes. -/
def quote (s : String) : String :=
  String.ofList ('"' :: s.toList.flatMap escapeChar ++ ['"'])

/-! ## Values -/

/-- A number, if it has a text in JSON. -/
def numberOrNull : JsonNumber → String
  | .double x => if x.isFinite then JsonNumber.text (.double x) else "null"
  | n => n.text

mutual

/-- The text of a value. -/
def text : Json → String
  | .null => "null"
  | .bool b => if b then "true" else "false"
  | .number n => numberOrNull n
  | .string s => quote s
  | .array items => "[" ++ ",".intercalate (texts items) ++ "]"
  | .object members => "\x7b" ++ ",".intercalate (memberTexts members) ++ "\x7d"

def texts : List Json → List String
  | [] => []
  | item :: rest => text item :: texts rest

def memberTexts : List (String × Json) → List String
  | [] => []
  | (name, value) :: rest => (quote name ++ ":" ++ text value) :: memberTexts rest

end

end Json

end DiceFormula
