/-
# DiceFormula.Json.Reader -- reading JSON text

`Json.read?` accepts the JSON grammar and nothing else: white space is space,
tab and the two line ends, a number has no leading zeros, and a string has no
bare control characters and no lone surrogates.  Of two members with one name
the later one counts.  Values may be nested to any depth; `Json.readWithin?` reads
text that is nested no deeper than asked for.

An integer of 64 bits stays an integer.  Any other number becomes a double by
`scaled?`: of its digits as many as fit in 64 bits form an integer, and that
integer is scaled by a power of ten in double arithmetic.  Negative zero is a
double.  A number too large for a double is refused.
-/
import DiceFormula.Decimal.Basic
import DiceFormula.Json.Basic
import DiceFormula.Limits

namespace DiceFormula

set_option autoImplicit false

namespace Json

/-! ## Numbers -/

/-- The double `x * 10 ^ exponent`.  A power of ten beyond the doubles is applied
in steps of `10 ^ 308`, and only downwards. -/
def scaled? : Nat → Float → Int → Option Float
  | 0, x, _ => some x
  | steps + 1, x, exponent =>
      if exponent.natAbs ≤ 308 then
        let power := Float.ofScientific 1 false exponent.natAbs
        if exponent < 0 then some (x / power)
        else if (x * power).isFinite then some (x * power) else none
      else if x == 0 then some x
      else if 0 ≤ exponent then none
      else scaled? steps (x / Float.ofScientific 1 false 308) (exponent + 308)

/-- The digits of a number: those that fit in 64 bits, as an integer, and how
many digits followed them. -/
def significant : Nat → List Char → Nat × Nat
  | n, [] => (n, 0)
  | n, d :: rest =>
      let next := 10 * n + (d.toNat - '0'.toNat)
      if next ≤ Limit.mostIndex then significant next rest else (n, (d :: rest).length)

/-- A number written with the digits `whole` before and `fraction` behind the
decimal point. -/
def doubleOf? (negative : Bool) (whole fraction : List Char) (exponent : Int) : Option Json :=
  let (units, dropped) := significant 0 (whole ++ fraction)
  (scaled? 5 (Float.ofNat units) (exponent - fraction.length + dropped)).map fun x =>
    .number (.double (withSign negative x))

/-- A number written with digits alone. -/
def integerOf? (negative : Bool) (digits : List Char) : Option Json :=
  let n := Nat.ofDigitChars 10 digits 0
  if negative then
    if 0 < n ∧ Limit.leastValue ≤ -n then some (ofInt (-n)) else doubleOf? true digits [] 0
  else
    if n ≤ Limit.mostIndex then some (ofNat n) else doubleOf? false digits [] 0

/-- The sign of an exponent. -/
def exponentSign : List Char → Bool × List Char
  | '+' :: s => (false, s)
  | '-' :: s => (true, s)
  | s => (false, s)

/-- Reads the exponent of a number, if there is one. -/
def exponent? : List Char → Option (Option Int × List Char)
  | c :: s =>
      if c = 'e' ∨ c = 'E' then
        let (negative, s) := exponentSign s
        match s.span Char.isDigit with
        | ([], _) => none
        | (digits, rest) =>
            let n : Int := Nat.ofDigitChars 10 digits 0
            some (some (if negative then -n else n), rest)
      else some (none, c :: s)
  | [] => some (none, [])

/-- Reads the fraction of a number, if there is one. -/
def fraction? : List Char → Option (Option (List Char) × List Char)
  | '.' :: s =>
      match s.span Char.isDigit with
      | ([], _) => none
      | (digits, rest) => some (some digits, rest)
  | s => some (none, s)

/-- Reads the digits before the decimal point. -/
def whole? : List Char → Option (List Char × List Char)
  | '0' :: d :: s => if d.isDigit then none else some (['0'], d :: s)
  | s =>
      match s.span Char.isDigit with
      | ([], _) => none
      | found => some found

/-- Reads a number behind its sign. -/
def number? (negative : Bool) (s : List Char) : Option (Json × List Char) := do
  let (whole, s) ← whole? s
  let (fraction, s) ← fraction? s
  let (exponent, s) ← exponent? s
  let value ← match fraction, exponent with
    | none, none => integerOf? negative whole
    | fraction, exponent => doubleOf? negative whole (fraction.getD []) (exponent.getD 0)
  some (value, s)

/-! ## Strings -/

/-- The character of an escape other than `u`. -/
def escaped? : Char → Option Char
  | '"' => some '"'
  | '\\' => some '\\'
  | '/' => some '/'
  | 'b' => some '\x08'
  | 'f' => some '\x0c'
  | 'n' => some '\n'
  | 'r' => some '\r'
  | 't' => some '\t'
  | _ => none

/-- The value of a hexadecimal digit. -/
def hexDigit? (c : Char) : Option Nat :=
  if c.isDigit then some (c.toNat - '0'.toNat)
  else if 'a' ≤ c && c ≤ 'f' then some (c.toNat - 'a'.toNat + 10)
  else if 'A' ≤ c && c ≤ 'F' then some (c.toNat - 'A'.toNat + 10)
  else none

/-- The code unit of four hexadecimal digits. -/
def codeUnit? (a b c d : Char) : Option Nat := do
  let a ← hexDigit? a
  let b ← hexDigit? b
  let c ← hexDigit? c
  let d ← hexDigit? d
  some (((a * 16 + b) * 16 + c) * 16 + d)

/-- The character of a surrogate pair. -/
def surrogatePair? (high low : Nat) : Option Char :=
  if 0xDC00 ≤ low ∧ low < 0xE000 then
    some (Char.ofNat (0x10000 + (high - 0xD800) * 0x400 + (low - 0xDC00)))
  else none

/-- Reads a string behind its opening quote, with what is read so far reversed. -/
def stringBody? (read : List Char) : List Char → Option (String × List Char)
  | [] => none
  | '"' :: s => some (String.ofList read.reverse, s)
  | '\\' :: 'u' :: a :: b :: c :: d :: s =>
      match codeUnit? a b c d with
      | none => none
      | some unit =>
          if 0xDC00 ≤ unit ∧ unit < 0xE000 then none
          else if 0xD800 ≤ unit ∧ unit < 0xDC00 then
            match s with
            | '\\' :: 'u' :: e :: f :: g :: h :: s =>
                match (codeUnit? e f g h).bind (surrogatePair? unit) with
                | none => none
                | some c => stringBody? (c :: read) s
            | _ => none
          else stringBody? (Char.ofNat unit :: read) s
  | '\\' :: c :: s =>
      match escaped? c with
      | none => none
      | some c => stringBody? (c :: read) s
  | c :: s => if c = '\\' ∨ c.toNat < 0x20 then none else stringBody? (c :: read) s

/-! ## Values -/

def isSpace (c : Char) : Bool :=
  c == ' ' || c == '\n' || c == '\t' || c == '\r'

def skipSpace (s : List Char) : List Char :=
  s.dropWhile isSpace

mutual

/-- Reads a value.  `depth` is how many levels deeper it may be nested; each
level and each item uses up one of the first argument. -/
def value? : Nat → Nat → List Char → Option (Json × List Char)
  | 0, _, _ => none
  | n + 1, depth, s =>
      match skipSpace s with
      | 'n' :: 'u' :: 'l' :: 'l' :: s => some (.null, s)
      | 't' :: 'r' :: 'u' :: 'e' :: s => some (.bool true, s)
      | 'f' :: 'a' :: 'l' :: 's' :: 'e' :: s => some (.bool false, s)
      | '"' :: s => (stringBody? [] s).map fun (text, s) => (.string text, s)
      | '-' :: s => number? true s
      | '[' :: s =>
          match depth with
          | 0 => none
          | depth + 1 =>
              match skipSpace s with
              | ']' :: s => some (.array [], s)
              | s => (items? n depth s).map fun (items, s) => (.array items, s)
      | '\x7b' :: s =>
          match depth with
          | 0 => none
          | depth + 1 =>
              match skipSpace s with
              | '\x7d' :: s => some (.object [], s)
              | s => (members? n depth s).map fun (members, s) => (ofMembers members, s)
      | s => number? false s

/-- Reads the items of an array that has some, and its closing bracket. -/
def items? : Nat → Nat → List Char → Option (List Json × List Char)
  | 0, _, _ => none
  | n + 1, depth, s =>
      match value? n depth s with
      | none => none
      | some (item, s) =>
          match skipSpace s with
          | ',' :: s => (items? n depth s).map fun (items, s) => (item :: items, s)
          | ']' :: s => some ([item], s)
          | _ => none

/-- Reads the members of an object that has some, and its closing brace. -/
def members? : Nat → Nat → List Char → Option (List (String × Json) × List Char)
  | 0, _, _ => none
  | n + 1, depth, s =>
      match skipSpace s with
      | '"' :: s =>
          match stringBody? [] s with
          | none => none
          | some (name, s) =>
              match skipSpace s with
              | ':' :: s =>
                  match value? n depth s with
                  | none => none
                  | some (value, s) =>
                      match skipSpace s with
                      | ',' :: s =>
                          (members? n depth s).map fun (members, s) =>
                            ((name, value) :: members, s)
                      | '\x7d' :: s => some ([(name, value)], s)
                      | _ => none
              | _ => none
      | _ => none

end

/-- Reads a text that holds one value, nested at most `depth` levels deep. -/
def readWithin? (depth : Nat) (text : String) : Option Json :=
  let s := text.toList
  match value? (2 * s.length + 2) depth s with
  | some (value, rest) => if rest.all isSpace then some value else none
  | none => none

/-- Reads a text that holds one value. -/
def read? (text : String) : Option Json :=
  readWithin? text.toList.length text

end Json

end DiceFormula
