/-
# DiceFormula.CommandLine -- rolling from the command line

The arguments are options and the words of a formula.  Without words the formula
is the first line of the input, which is asked for.

Everything is decided here: what is written, what is reported as an error, and
whether the run was a success.
-/
import DiceFormula.Json.Reader
import DiceFormula.Roll.Basic

namespace DiceFormula

set_option autoImplicit false

namespace CommandLine

/-! ## Arguments -/

/-- What the arguments ask for. -/
structure Request where
  mode : RollMode
  data : Context
  words : List String

namespace Request

def initial : Request :=
  ⟨.random, .empty, []⟩

/-- Reads arguments after others that were read. -/
def readFrom (r : Request) : List String → Except String Request
  | [] => .ok r
  | "--min" :: rest => readFrom { r with mode := .minimize } rest
  | "--max" :: rest => readFrom { r with mode := .maximize } rest
  | ["--data"] => .error "--data needs a JSON object"
  | "--data" :: text :: rest =>
      match Json.readWithin? Limit.mostLevels text with
      | some value => readFrom { r with data := ⟨value⟩ } rest
      | none => .error ("Invalid data: " ++ text)
  | word :: rest => readFrom { r with words := r.words ++ [word] } rest

def read (args : List String) : Except String Request :=
  readFrom .initial args

/-- Whether the formula has to be asked for. -/
def asks (r : Request) : Bool :=
  r.words.isEmpty

end Request

def prompt : String := "Enter roll formula: "

/-- The first line of an input, without its end. -/
def firstLine? (input : String) : Option String :=
  if input.isEmpty then none
  else
    let (line, rest) := input.toList.span (· != '\n')
    let line := if !rest.isEmpty && line.getLast? = some '\r' then line.dropLast else line
    some (String.ofList line)

/-! ## Reports -/

/-- What a run writes, line by line, and what is wrong if it is no success. -/
structure Report where
  lines : List String
  error : Option String

namespace Report

def failure (error : String) : Report :=
  ⟨[], some error⟩

/-- Puts a line in front. -/
def line (text : String) (r : Report) : Report :=
  { r with lines := text :: r.lines }

end Report

/-- Rolls what was read. -/
def rollReport (roll : Roll) (roller : Roller) : Report :=
  let rest : Report := match roll.evaluate roller with
    | (.ok total, roll, _) =>
        ⟨["Described: " ++ roll.describe RollOptions.default.listLimit,
          "Total: " ++ resultText total], none⟩
    | (.error e, _, _) => .failure ("Evaluation error: " ++ e.message)
  rest.line ("Parsed: " ++ roll.describe none)

/-- Reads and rolls a formula.  The seed is for random faces. -/
def report (r : Request) (formula : String) (seed : Nat) : Report :=
  let substituted := r.data.substitute RollOptions.default.missingData formula
  let rest := match Roll.parse substituted.formula with
    | .ok roll => rollReport roll (r.mode.roller seed)
    | .error e => Report.failure ("Parse error: " ++ e.message)
  let missing := substituted.missing.foldr (fun m => Report.line ("Missing: " ++ m.text)) rest
  missing.line ("Input: " ++ formula)

/-! ## Runs -/

/-- What a run writes to its output, and whether it is a success. -/
structure Run where
  output : String
  success : Bool
deriving DecidableEq, Repr

namespace Run

def ofReport (prompted : Bool) (r : Report) : Run :=
  ⟨(if prompted then prompt else "") ++ String.join (r.lines.map (· ++ "\n")),
    r.error.isNone⟩

end Run

/-- A whole run with its input. -/
def run (args : List String) (input : String) (seed : Nat) : Run :=
  match Request.read args with
  | .error _ => ⟨"", false⟩
  | .ok r =>
      if r.asks then
        match firstLine? input with
        | none => ⟨prompt, false⟩
        | some formula => .ofReport true (report r formula seed)
      else .ofReport false (report r (" ".intercalate r.words) seed)

end CommandLine

end DiceFormula
