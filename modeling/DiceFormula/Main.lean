/-
# DiceFormula.Main -- the program

Rolls the formula given by the arguments or, without one, by the first line of
the input.
-/
import DiceFormula.CommandLine

namespace DiceFormula.CommandLine

/-- Writes a report, and what is wrong to the error output. -/
def Report.write (r : Report) : IO UInt32 := do
  for line in r.lines do
    IO.println line
  match r.error with
  | none => return 0
  | some e =>
      IO.eprintln e
      return 1

end DiceFormula.CommandLine

open DiceFormula

def main (args : List String) : IO UInt32 := do
  match CommandLine.Request.read args with
  | .error e =>
      IO.eprintln e
      return 1
  | .ok request =>
      let seed ← IO.rand 0 Limit.mostIndex
      if request.asks then
        IO.print CommandLine.prompt
        (← IO.getStdout).flush
        match CommandLine.firstLine? (← (← IO.getStdin).getLine) with
        | none => return 1
        | some formula => (CommandLine.report request formula seed).write
      else (CommandLine.report request (" ".intercalate request.words) seed).write
