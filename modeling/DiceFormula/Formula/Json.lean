/-
# DiceFormula.Formula.Json -- terms as JSON

A term is a record of its class and its data.  The data is a record itself,
except for an operator, which is a name, and for a fragment, which is a text.
Flavor is left out where there is none.
-/
import DiceFormula.Dice.Json
import DiceFormula.Formula.Term

namespace DiceFormula

set_option autoImplicit false

open Json (required? optional? defaulted? asBool? asFloat? asString? asList?)

namespace Operator

def all : List Operator :=
  [add, subtract, multiply, divide]

/-- The name of an operator in JSON. -/
def jsonName : Operator → String
  | add => "add"
  | subtract => "sub"
  | multiply => "mul"
  | divide => "div"

end Operator

namespace Term

/-! ## Writing -/

/-- A term of a class with its data. -/
def classed (name : String) (data : Json) : Json :=
  .object [("class", .string name), ("data", data)]

/-- The member for the flavor, if there is one. -/
def flavorMember (flavor : Option String) : List (String × Json) :=
  match flavor with
  | none => []
  | some text => [("flavor", .string text)]

mutual

def toJson : Term → Json
  | number value flavor =>
      classed "num" (.object (("val", Json.ofFloat value) :: flavorMember flavor))
  | operator op => classed "op" (.string op.jsonName)
  | dice rolled evaluated flavor =>
      classed "dice"
        (.object (("rolled", rolled.toJson) :: ("evaluated", .bool evaluated) ::
          flavorMember flavor))
  | pool members modifiers results evaluated flavor =>
      classed "pool"
        (.object (("members", .array (listsToJson members)) ::
          ("modifiers", Json.ofList Modifier.toJson modifiers) ::
          ("results", Json.ofList Die.toJson results) :: ("evaluated", .bool evaluated) ::
          flavorMember flavor))
  | call f args flavor =>
      classed "math"
        (.object (("func", .string f.name) :: ("args", .array (listsToJson args)) ::
          flavorMember flavor))
  | group inner flavor =>
      classed "paren" (.object (("inner", .array (allToJson inner)) :: flavorMember flavor))
  | fragment text => classed "str" (.string text)

def allToJson : List Term → List Json
  | [] => []
  | term :: rest => toJson term :: allToJson rest

def listsToJson : List (List Term) → List Json
  | [] => []
  | terms :: rest => .array (allToJson terms) :: listsToJson rest

end

/-! ## Reading -/

/-- The flavor of a term. -/
def flavorOfJson? (field : Option Json) : Option (Option String) :=
  optional? asString? field

def numberOfJson? (j : Json) : Option Term := do
  match ← j.fields? ["val", "flavor"] 1 with
  | [value, flavor] => do
      let value ← required? asFloat? value
      let flavor ← flavorOfJson? flavor
      some (.number value flavor)
  | _ => none

def diceOfJson? (j : Json) : Option Term := do
  match ← j.fields? ["rolled", "evaluated", "flavor"] 1 with
  | [rolled, evaluated, flavor] => do
      let rolled ← required? Rolled.ofJson? rolled
      let evaluated ← required? asBool? evaluated
      let flavor ← flavorOfJson? flavor
      some (.dice rolled evaluated flavor)
  | _ => none

def poolOfJson? (terms? : Json → Option (List Term)) (j : Json) : Option Term := do
  match ← j.fields? ["members", "modifiers", "results", "evaluated", "flavor"] 1 with
  | [members, modifiers, results, evaluated, flavor] => do
      let members ← required? (asList? terms?) members
      let modifiers ← required? (asList? Modifier.ofJson?) modifiers
      let results ← required? (asList? Die.ofJson?) results
      let evaluated ← required? asBool? evaluated
      let flavor ← flavorOfJson? flavor
      some (.pool members modifiers results evaluated flavor)
  | _ => none

def callOfJson? (terms? : Json → Option (List Term)) (j : Json) : Option Term := do
  match ← j.fields? ["func", "args", "flavor"] 1 with
  | [f, args, flavor] => do
      let f ← required? (Json.oneOf? MathFunction.name MathFunction.all) f
      let args ← required? (asList? terms?) args
      let flavor ← flavorOfJson? flavor
      some (.call f args flavor)
  | _ => none

def groupOfJson? (terms? : Json → Option (List Term)) (j : Json) : Option Term := do
  match ← j.fields? ["inner", "flavor"] 1 with
  | [inner, flavor] => do
      let inner ← required? terms? inner
      let flavor ← flavorOfJson? flavor
      some (.group inner flavor)
  | _ => none

/-- Reads the data of a class, with what reads the terms in it. -/
def dataOfJson? (terms? : Json → Option (List Term)) (name : String) (data : Json) :
    Option Term :=
  match name with
  | "num" => numberOfJson? data
  | "op" => (Json.oneOf? Operator.jsonName Operator.all data).map .operator
  | "dice" => diceOfJson? data
  | "pool" => poolOfJson? terms? data
  | "math" => callOfJson? terms? data
  | "paren" => groupOfJson? terms? data
  | "str" => (asString? data).map .fragment
  | _ => none

/-- Reads a term from JSON nested less deep than a bound. -/
def ofJsonWithin? : Nat → Json → Option Term
  | 0, _ => none
  | depth + 1, j => do
      match ← j.fields? ["class", "data"] 0 with
      | [name, data] => do
          let name ← required? asString? name
          let data ← data
          dataOfJson? (asList? (ofJsonWithin? depth)) name data
      | _ => none

def ofJson? (j : Json) : Option Term :=
  ofJsonWithin? j.depth j

end Term

end DiceFormula
