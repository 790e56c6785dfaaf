/-
# DiceFormula.Roll.Evaluation -- evaluating formulas

A formula is evaluated from the inside out.  First its groups, calls and pools
are resolved from left to right, each by evaluating what it holds: groups and
calls become numbers, and pools are scored.  Then the fragments beside them can
be read, the dice of the formula itself are rolled from left to right, and the
total is calculated.

An `Evaluation` keeps its `Session`, also when it fails: the roller that it
reached, and the dice that it rolled so far.  Dice are logged once they are
rolled to the end, with all their modifiers.
-/
import DiceFormula.Formula.Simplify

namespace DiceFormula

set_option autoImplicit false

/-! ## Errors -/

/-- What is not possible in the present state of a roll or an outcome. -/
inductive StateError where
  | alreadyEvaluated
  | notEvaluated
  | noCountingDice
  | invalidDie (index : Nat)
deriving DecidableEq, Repr

def StateError.message : StateError → String
  | .alreadyEvaluated => "roll has already been evaluated"
  | .notEvaluated => "roll hasn't been evaluated"
  | .noCountingDice => "roll doesn't have any success-counting dice"
  | .invalidDie index => "die " ++ toString index ++ " can't be rerolled"

/-- Why a roll has no total. -/
inductive RollError where
  | format (e : FormatError)
  | state (e : StateError)
  /-- some dice of the formula cannot be rolled -/
  | dice (term : String) (e : DiceError)
  | calc (e : CalcError)
  | fault (f : Fault)
deriving DecidableEq, Repr

def RollError.message : RollError → String
  | .format e => e.message
  | .state e => e.message
  | .dice term e => "dice error while evaluating \"" ++ term ++ "\": " ++ e.message
  | .calc e => e.message
  | .fault f => f.message

/-! ## Sessions -/

/-- What an evaluation draws from and what it rolled. -/
structure Session where
  roller : Roller
  log : List Rolled

/-- A computation that rolls the dice of a formula. -/
abbrev Evaluation := ExceptT RollError (StateM Session)

namespace Evaluation

/-- Rolls on behalf of a term. -/
def rolling {α : Type} (term : String) (r : Rolling α) : Evaluation α := do
  let session ← get
  let (result, roller) := r.run.run session.roller
  set { session with roller := roller }
  match result with
  | .ok a => pure a
  | .error (.error e) => throw (.dice term e)
  | .error (.fault f) => throw (.fault f)

def ofFormat {α : Type} : Except FormatError α → Evaluation α
  | .ok a => pure a
  | .error e => throw (.format e)

def ofCalc {α : Type} : Except CalcError α → Evaluation α
  | .ok a => pure a
  | .error e => throw (.calc e)

/-! ## Dice -/

/-- Rolls the dice of a term, unless they were rolled. -/
def rollDice : Term → Evaluation Term
  | .dice unrolled false flavor => do
      let rolled ← rolling unrolled.dice.text (unrolled.dice.roll true)
      modify fun session => { session with log := session.log ++ [rolled] }
      pure (.dice rolled true flavor)
  | term => pure term

def rollAll : List Term → Evaluation (List Term)
  | [] => pure []
  | term :: rest => do
      let term ← rollDice term
      let rest ← rollAll rest
      pure (term :: rest)

/-- Evaluates terms whose groups are resolved. -/
def finish (terms : List Term) : Evaluation (List Term × Float) := do
  let pieces ← ofFormat (Piece.simplifyLate (Piece.ofTerms terms))
  let terms ← rollAll (Piece.terms pieces)
  let total ← ofCalc (Term.totalAll terms)
  pure (terms, total)

/-! ## Pools -/

/-- The nearest number to a whole one that fits in 64 bits. -/
def clampWhole (n : Int) : Int :=
  max Limit.leastValue (min n Limit.mostValue)

/-- A member of a pool that came to a total. -/
def poolDie (total : Float) : Die :=
  Die.fresh (clampWhole ((nearestWhole? total).getD 0))

/-- Applies the modifiers of a pool to its members. -/
def applyPool : List Modifier → List Die → Evaluation (List Die)
  | [], results => pure results
  | m :: rest, results => do
      let results ← rolling ("\x7b...\x7d" ++ m.text) (m.apply 0 results)
      applyPool rest results

/-! ## Groups -/

mutual

/-- Evaluates what a group, a call or a pool holds. -/
def resolve : Term → Evaluation Term
  | .group inner flavor => do
      let terms ← resolveAll inner
      let (_, total) ← finish terms
      pure (.number total flavor)
  | .call f args flavor => do
      let results ← evaluateLists args
      let total ← ofCalc (f.apply (results.map Prod.snd))
      pure (.number total flavor)
  | .pool members modifiers _ false flavor => do
      let results ← evaluateLists members
      let dice ← applyPool modifiers (results.map fun (_, total) => poolDie total)
      pure (.pool (results.map Prod.fst) modifiers dice true flavor)
  | term => pure term

def resolveAll : List Term → Evaluation (List Term)
  | [] => pure []
  | term :: rest => do
      let term ← resolve term
      let rest ← resolveAll rest
      pure (term :: rest)

/-- Evaluates formulas one after the other. -/
def evaluateLists : List (List Term) → Evaluation (List (List Term × Float))
  | [] => pure []
  | terms :: rest => do
      let terms ← resolveAll terms
      let result ← finish terms
      let rest ← evaluateLists rest
      pure (result :: rest)

end

/-- Evaluates a formula: its terms with what was rolled, and the total. -/
def evaluate (terms : List Term) : Evaluation (List Term × Float) := do
  let terms ← resolveAll terms
  finish terms

end Evaluation

end DiceFormula
