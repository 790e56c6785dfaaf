/-
# DiceFormula.Dice.Json -- dice as JSON

Conditions and modifiers are alternatives named by keywords; everything else is
a record.  Counts are unsigned and have 32 bits, values are signed and have 64.
-/
import DiceFormula.Dice.Rolled
import DiceFormula.Json.Fields

namespace DiceFormula

set_option autoImplicit false

open Json (required? optional? asBool? asInt? asCount? asList?)

/-! ## Conditions -/

namespace Comparison

def all : List Comparison :=
  [equal, above, atLeast, below, atMost]

/-- The name of a comparison in JSON. -/
def jsonName : Comparison → String
  | equal => "eq"
  | above => "gt"
  | atLeast => "gte"
  | below => "lt"
  | atMost => "lte"

end Comparison

namespace Condition

def toJson (c : Condition) : Json :=
  .object [(c.comparison.jsonName, Json.ofInt c.bound)]

def ofJson? (j : Json) : Option Condition := do
  let (name, content) ← j.alternative?
  let comparison ← Comparison.all.find? fun c => c.jsonName == name
  let bound ← required? asInt? content
  some ⟨comparison, bound⟩

end Condition

/-! ## Modifiers -/

namespace Modifier

def toJson : Modifier → Json
  | reroll condition again =>
      .object [("reroll", .object [("cond", condition.toJson), ("recurse", .bool again)])]
  | explode condition again =>
      .object [("explode",
        .object [("cond", Json.ofOption Condition.toJson condition), ("recurse", .bool again)])]
  | keepHigh n => .object [("keepHigh", Json.ofNat n)]
  | keepLow n => .object [("keepLow", Json.ofNat n)]
  | dropHigh n => .object [("dropHigh", Json.ofNat n)]
  | dropLow n => .object [("dropLow", Json.ofNat n)]
  | raise least => .object [("min", Json.ofInt least)]
  | cap most => .object [("max", Json.ofInt most)]
  | countSuccess condition => .object [("countSuccess", condition.toJson)]
  | countFailure condition => .object [("countFailure", condition.toJson)]

def rerollOfJson? (j : Json) : Option Modifier := do
  match ← j.named? ["cond", "recurse"] with
  | [condition, again] => do
      let condition ← required? Condition.ofJson? condition
      let again ← required? asBool? again
      some (.reroll condition again)
  | _ => none

def explodeOfJson? (j : Json) : Option Modifier := do
  match ← j.named? ["cond", "recurse"] with
  | [condition, again] => do
      let condition ← optional? Condition.ofJson? condition
      let again ← required? asBool? again
      some (.explode condition again)
  | _ => none

def ofJson? (j : Json) : Option Modifier := do
  match j.alternative? with
  | some (name, some content) =>
      match name with
      | "reroll" => rerollOfJson? content
      | "explode" => explodeOfJson? content
      | "keepHigh" => (asCount? content).map keepHigh
      | "keepLow" => (asCount? content).map keepLow
      | "dropHigh" => (asCount? content).map dropHigh
      | "dropLow" => (asCount? content).map dropLow
      | "min" => (asInt? content).map raise
      | "max" => (asInt? content).map cap
      | "countSuccess" => (Condition.ofJson? content).map countSuccess
      | "countFailure" => (Condition.ofJson? content).map countFailure
      | _ => none
  | _ => none

end Modifier

/-! ## Dice and rolls -/

namespace Dice

def toJson (d : Dice) : Json :=
  .object [("count", Json.ofNat d.count), ("sides", Json.ofNat d.sides),
    ("modifiers", Json.ofList Modifier.toJson d.modifiers)]

def ofJson? (j : Json) : Option Dice := do
  match ← j.fields? ["count", "sides", "modifiers"] 0 with
  | [count, sides, modifiers] => do
      let count ← required? asCount? count
      let sides ← required? asCount? sides
      let modifiers ← required? (asList? Modifier.ofJson?) modifiers
      some ⟨count, sides, modifiers⟩
  | _ => none

end Dice

namespace Change

def toJson (c : Change) : Json :=
  .object [("before", Json.ofInt c.before), ("after", Json.ofInt c.after),
    ("cause", c.cause.toJson)]

def ofJson? (j : Json) : Option Change := do
  match ← j.fields? ["before", "after", "cause"] 0 with
  | [before, after, cause] => do
      let before ← required? asInt? before
      let after ← required? asInt? after
      let cause ← required? Modifier.ofJson? cause
      some ⟨before, after, cause⟩
  | _ => none

end Change

namespace Die

def toJson (d : Die) : Json :=
  .object [("val", Json.ofInt d.value), ("addedBy", Json.ofOption Modifier.toJson d.addedBy),
    ("droppedBy", Json.ofOption Modifier.toJson d.droppedBy),
    ("changes", Json.ofList Change.toJson d.changes),
    ("success", Json.ofOption Json.bool d.success)]

def ofJson? (j : Json) : Option Die := do
  match ← j.fields? ["val", "addedBy", "droppedBy", "changes", "success"] 0 with
  | [value, addedBy, droppedBy, changes, success] => do
      let value ← required? asInt? value
      let addedBy ← optional? Modifier.ofJson? addedBy
      let droppedBy ← optional? Modifier.ofJson? droppedBy
      let changes ← required? (asList? Change.ofJson?) changes
      let success ← optional? asBool? success
      some ⟨value, addedBy, droppedBy, changes, success⟩
  | _ => none

end Die

namespace DieView

def toJson (v : DieView) : Json :=
  .object [("faceValue", Json.ofInt v.value), ("active", .bool v.active),
    ("success", Json.ofOption Json.bool v.success)]

end DieView

namespace Rolled

def toJson (r : Rolled) : Json :=
  .object [("rolls", Json.ofList Die.toJson r.rolls), ("dice", r.dice.toJson)]

def ofJson? (j : Json) : Option Rolled := do
  match ← j.fields? ["rolls", "dice"] 0 with
  | [rolls, dice] => do
      let rolls ← required? (asList? Die.ofJson?) rolls
      let dice ← required? Dice.ofJson? dice
      some ⟨rolls, dice⟩
  | _ => none

end Rolled

end DiceFormula
