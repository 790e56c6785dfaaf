/-
# DiceFormula.Roll.Json -- rolls, options, checks and outcomes as JSON

Everything is a record.  Options have defaults for all fields, and the missing
data of a roll is left out where there is none.
-/
import DiceFormula.Formula.Json
import DiceFormula.Roll.Check

namespace DiceFormula

set_option autoImplicit false

open Json (required? optional? defaulted? asBool? asInt? asCount? asIndex? asFloat? asString?
  asList?)

namespace Missing

def toJson (m : Missing) : Json :=
  .object [("path", .string m.path), ("substituted", Json.ofOption Json.string m.substituted)]

def ofJson? (j : Json) : Option Missing := do
  match ← j.fields? ["path", "substituted"] 0 with
  | [path, substituted] => do
      let path ← required? asString? path
      let substituted ← optional? asString? substituted
      some ⟨path, substituted⟩
  | _ => none

end Missing

namespace Roll

def toJson (r : Roll) : Json :=
  let missing :=
    if r.missing.isEmpty then [] else [("missing", Json.ofList Missing.toJson r.missing)]
  .object ([("formula", .string r.formula), ("data", r.data.value),
    ("terms", Json.ofList Term.toJson r.terms), ("dice", Json.ofList Rolled.toJson r.dice),
    ("total", Json.ofOption Json.ofFloat r.total), ("evaluated", .bool r.evaluated)] ++ missing)

def ofJson? (j : Json) : Option Roll := do
  match ← j.fields? ["formula", "data", "terms", "dice", "total", "evaluated", "missing"] 1 with
  | [formula, data, terms, dice, total, evaluated, missing] => do
      let formula ← required? asString? formula
      let data ← data
      let terms ← required? (asList? Term.ofJson?) terms
      let dice ← required? (asList? Rolled.ofJson?) dice
      let total ← optional? asFloat? total
      let evaluated ← required? asBool? evaluated
      let missing ← defaulted? (asList? Missing.ofJson?) [] missing
      some ⟨formula, ⟨data⟩, terms, dice, total, evaluated, missing⟩
  | _ => none

end Roll

namespace RollOptions

def toJson (o : RollOptions) : Json :=
  .object [("missingData", Json.ofOption Json.string o.missingData),
    ("warnMissing", .bool o.warnMissing), ("mode", .string o.mode.name),
    ("listLimit", Json.ofOption Json.ofNat o.listLimit)]

/-- Reads a field that may be `null` and has a default. -/
def nullable? {α : Type} (read : Json → Option α) (default : Option α) (field : Option Json) :
    Option (Option α) :=
  match field with
  | none => some default
  | some j => optional? read (some j)

def ofJson? (j : Json) : Option RollOptions := do
  match ← j.fields? ["missingData", "warnMissing", "mode", "listLimit"] 4 with
  | [missingData, warnMissing, mode, listLimit] => do
      let missingData ← nullable? asString? default.missingData missingData
      let warnMissing ← defaulted? asBool? default.warnMissing warnMissing
      let mode ← defaulted? (Json.oneOf? RollMode.name RollMode.all) default.mode mode
      let listLimit ← nullable? asIndex? default.listLimit listLimit
      some ⟨missingData, warnMissing, mode, listLimit⟩
  | _ => none

end RollOptions

namespace Check

def toJson (c : Check) : Json :=
  .object [("label", .string c.label), ("dice", Json.ofNat c.dice),
    ("difficulty", Json.ofNat c.difficulty), ("advantage", .string c.advantage.name)]

def ofJson? (j : Json) : Option Check := do
  match ← j.fields? ["label", "dice", "difficulty", "advantage"] 0 with
  | [label, dice, difficulty, kind] => do
      let label ← required? asString? label
      let dice ← required? asCount? dice
      let difficulty ← required? asCount? difficulty
      let kind ← required? (Json.oneOf? Advantage.name Advantage.all) kind
      some ⟨label, dice, difficulty, kind⟩
  | _ => none

end Check

namespace RollOutcome

def toJson (o : RollOutcome) : Json :=
  .object [("label", .string o.label), ("difficulty", Json.ofInt o.difficulty),
    ("baseline", Json.ofNat o.baseline), ("sides", Json.ofNat o.sides),
    ("condition", o.condition.toJson), ("dice", Json.ofList Die.toJson o.dice),
    ("successCount", Json.ofNat o.successCount), ("state", .string o.state.name)]

def ofJson? (j : Json) : Option RollOutcome := do
  match ← j.fields?
      ["label", "difficulty", "baseline", "sides", "condition", "dice", "successCount",
        "state"] 0 with
  | [label, difficulty, baseline, sides, condition, dice, successCount, state] => do
      let label ← required? asString? label
      let difficulty ← required? asInt? difficulty
      let baseline ← required? asCount? baseline
      let sides ← required? asCount? sides
      let condition ← required? Condition.ofJson? condition
      let dice ← required? (asList? Die.ofJson?) dice
      let successCount ← required? asCount? successCount
      let state ← required? (Json.oneOf? OutcomeState.name OutcomeState.all) state
      some ⟨label, difficulty, baseline, sides, condition, dice, successCount, state⟩
  | _ => none

end RollOutcome

end DiceFormula
