/-
# DiceFormula.Context -- data that formulas refer to

A context is a JSON value.  A formula refers to a part of it by a path of names
with points between them, such as `@attributes.str.mod`.  In an array a part of
the path is a position.

`Context.substitute` replaces the references of a formula by the texts of what
they refer to.  What is put in is not looked at again.
-/
import DiceFormula.Json.Writer
import DiceFormula.Limits

namespace DiceFormula

set_option autoImplicit false

/-! ## Paths -/

namespace Json

/-- A position in an array: decimal digits, perhaps behind a plus sign. -/
def position? (key : String) : Option Nat :=
  let digits := match key.toList with
    | '+' :: digits => digits
    | digits => digits
  if digits.isEmpty || digits.any fun c => !c.isDigit then none
  else
    let n := Nat.ofDigitChars 10 digits 0
    if n ≤ Limit.mostIndex then some n else none

/-- The part of a value that a name or a position refers to. -/
def part? (j : Json) (key : String) : Option Json :=
  match j with
  | .array items => (position? key).bind fun i => items[i]?
  | j => j.member? key

/-- The part of a value at the end of a path. -/
def get? : List String → Json → Option Json
  | [], j => some j
  | key :: path, j => (j.part? key).bind (get? path)

/-- The members of an object; another value has none. -/
def members : Json → List (String × Json)
  | .object members => members
  | _ => []

/-- Sets the part at the end of a path, making objects of what is no object on
the way. -/
def set (value : Json) : List String → Json → Json
  | [], _ => value
  | key :: path, j =>
      .object (insert key (set value path ((find? key j.members).getD .null)) j.members)

/-- The text of a value that can stand in a formula. -/
def scalarText? : Json → Option String
  | .number n => some n.text
  | .string s => some s
  | .bool b => some (if b then "true" else "false")
  | .null | .array _ | .object _ => none

end Json

/-! ## Contexts -/

/-- Data that formulas refer to. -/
structure Context where
  value : Json

namespace Context

def empty : Context :=
  ⟨.object []⟩

instance : BEq Context := ⟨fun a b => a.value == b.value⟩

/-- The names of a path. -/
def keys (path : String) : List String :=
  (path.toList.splitOn '.').map String.ofList

def get? (c : Context) (path : String) : Option Json :=
  c.value.get? (keys path)

def set (c : Context) (path : String) (value : Json) : Context :=
  ⟨Json.set value (keys path) c.value⟩

/-- What a formula sees at a path. -/
def lookup? (c : Context) (path : String) : Option String :=
  (c.get? path).bind Json.scalarText?

end Context

/-! ## Substitution -/

/-- A reference to a part that does not exist, and what was put in its place. -/
structure Missing where
  path : String
  substituted : Option String
deriving DecidableEq, Repr

def Missing.text (m : Missing) : String :=
  match m.substituted with
  | some text => "@" ++ m.path ++ " is missing, substituted " ++ text
  | none => "@" ++ m.path ++ " is missing"

/-- A text with its references replaced, and those that are missing in order. -/
structure Substituted where
  text : List Char
  missing : List Missing
deriving DecidableEq, Repr

namespace Substituted

def formula (s : Substituted) : String :=
  String.ofList s.text

def append (s t : Substituted) : Substituted :=
  ⟨s.text ++ t.text, s.missing ++ t.missing⟩

/-- Puts a character in front. -/
def cons (c : Char) (s : Substituted) : Substituted :=
  { s with text := c :: s.text }

end Substituted

namespace Context

/-- Whether a character can be part of a path. -/
def isPathChar (c : Char) : Bool :=
  c.isAlphanum || c == '.' || c == '_' || c == '-'

/-- What a reference is replaced by.  A path that is missing is replaced by the
fallback, or stays as it is written if there is none. -/
def resolve (c : Context) (fallback : Option String) (path : List Char) : Substituted :=
  let name := String.ofList path
  match c.lookup? name with
  | some text => ⟨text.toList, []⟩
  | none => ⟨(fallback.map String.toList).getD ('@' :: path), [⟨name, fallback⟩]⟩

/-- What an `@` with a path behind it, given reversed, is replaced by.  Without a
path it is no reference. -/
def resolveRead (c : Context) (fallback : Option String) : List Char → Substituted
  | [] => ⟨['@'], []⟩
  | path => c.resolve fallback path.reverse

/-- Replaces the references of a text.  If there is a path, the text stands
behind an `@` with that path, reversed. -/
def substituteFrom (c : Context) (fallback : Option String) :
    Option (List Char) → List Char → Substituted
  | none, [] => ⟨[], []⟩
  | some path, [] => c.resolveRead fallback path
  | none, d :: s =>
      if d = '@' then c.substituteFrom fallback (some []) s
      else (c.substituteFrom fallback none s).cons d
  | some path, d :: s =>
      if isPathChar d then c.substituteFrom fallback (some (d :: path)) s
      else
        (c.resolveRead fallback path).append
          (if d = '@' then c.substituteFrom fallback (some []) s
          else (c.substituteFrom fallback none s).cons d)

/-- Replaces the references of a formula. -/
def substitute (c : Context) (fallback : Option String) (formula : String) : Substituted :=
  c.substituteFrom fallback none formula.toList

end Context

end DiceFormula
