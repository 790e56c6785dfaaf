/-
# DiceFormula.Json.Fields -- reading records from JSON values

A record is an object with its fields by name, where other members are ignored,
or an array with its fields in order.  A choice between alternatives is an
object with one member, named for the alternative, and an alternative that
carries nothing may also be a bare string.

A field that may be `null` may be missing (`optional?`); every other field must
be present (`required?`).
-/
import DiceFormula.Json.Basic
import DiceFormula.Limits

namespace DiceFormula

set_option autoImplicit false

namespace Json

/-! ## Records and alternatives -/

/-- The fields of an object, in the order of their names. -/
def named? (names : List String) : Json → Option (List (Option Json))
  | .object members => some (names.map fun name => find? name members)
  | _ => none

/-- The fields of a record, in the order of their names.  In an array the last
`spare` fields may be left out. -/
def fields? (names : List String) (spare : Nat) : Json → Option (List (Option Json))
  | .object members => named? names (.object members)
  | .array items =>
      if items.length ≤ names.length ∧ names.length ≤ items.length + spare then
        some (items.map some ++ List.replicate (names.length - items.length) none)
      else none
  | _ => none

/-- The name of an alternative and what it carries. -/
def alternative? : Json → Option (String × Option Json)
  | .string name => some (name, none)
  | .object [(name, content)] => some (name, some content)
  | _ => none

/-- The name of an alternative that carries nothing. -/
def choice? (j : Json) : Option String :=
  match j.alternative? with
  | some (name, none) => some name
  | some (name, some .null) => some name
  | _ => none

/-- The alternative of that name among some that carry nothing. -/
def oneOf? {α : Type} (name : α → String) (all : List α) (j : Json) : Option α :=
  j.choice?.bind fun s => all.find? fun a => name a == s

/-! ## Fields -/

/-- Reads a field that must be there. -/
def required? {α : Type} (read : Json → Option α) (field : Option Json) : Option α :=
  field.bind read

/-- Reads a field that may be `null` or missing. -/
def optional? {α : Type} (read : Json → Option α) : Option Json → Option (Option α)
  | none => some none
  | some .null => some none
  | some j => (read j).map some

/-- Reads a field that has a default. -/
def defaulted? {α : Type} (read : Json → Option α) (default : α) : Option Json → Option α
  | none => some default
  | some j => read j

/-! ## Values -/

def asBool? : Json → Option Bool
  | .bool b => some b
  | _ => none

def asString? : Json → Option String
  | .string s => some s
  | _ => none

def asFloat? : Json → Option Float
  | .number n => some n.toFloat
  | _ => none

/-- An integer from `low` to `high`; a double is no integer. -/
def asIntIn? (low high : Int) : Json → Option Int
  | .number (.integer n) => if low ≤ n ∧ n ≤ high then some n else none
  | _ => none

/-- A signed integer of 64 bits. -/
def asInt? : Json → Option Int :=
  asIntIn? Limit.leastValue Limit.mostValue

/-- An unsigned integer of 32 bits. -/
def asCount? (j : Json) : Option Nat :=
  (asIntIn? 0 Limit.mostCount j).map Int.toNat

/-- An unsigned integer of 64 bits. -/
def asIndex? (j : Json) : Option Nat :=
  (asIntIn? 0 Limit.mostIndex j).map Int.toNat

/-- Reads every item of an array. -/
def asList? {α : Type} (read : Json → Option α) : Json → Option (List α)
  | .array items => items.mapM read
  | _ => none

/-! ## Nesting -/

mutual

/-- How many values are nested in one another. -/
def depth : Json → Nat
  | .array items => depthItems items + 1
  | .object members => depthMembers members + 1
  | _ => 1

def depthItems : List Json → Nat
  | [] => 0
  | item :: rest => max (depth item) (depthItems rest)

def depthMembers : List (String × Json) → Nat
  | [] => 0
  | (_, value) :: rest => max (depth value) (depthMembers rest)

end

end Json

end DiceFormula
