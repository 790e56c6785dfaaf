/-
# DiceFormula.Roll.Basic -- rolls

A `Roll` is a formula, the terms it was read as, and what came of it.  A roll is
evaluated at most once.  An evaluation that fails leaves the roll as it was, but
for the dice that were rolled.
-/
import DiceFormula.Context
import DiceFormula.Formula.Reader
import DiceFormula.Roll.Evaluation
import DiceFormula.Roll.Options

namespace DiceFormula

set_option autoImplicit false

structure Roll where
  /-- the formula, with data in the place of references -/
  formula : String
  data : Context
  terms : List Term
  /-- the dice that were rolled, in order -/
  dice : List Rolled
  total : Option Float
  evaluated : Bool
  missing : List Missing

namespace Roll

/-- Equality, with that of doubles on totals. -/
def beq (a b : Roll) : Bool :=
  a.formula == b.formula && a.data == b.data && a.terms == b.terms && a.dice == b.dice &&
    a.total == b.total && a.evaluated == b.evaluated && a.missing == b.missing

instance : BEq Roll := ⟨beq⟩

/-! ## Making rolls -/

/-- A roll of terms, with the formula that they write. -/
def ofTerms (terms : List Term) : Roll :=
  ⟨Term.formulaText terms, .empty, terms, [], none, false, []⟩

/-- Reads a formula without references. -/
def parse (formula : String) : Except FormatError Roll :=
  if Text.allBlank formula.toList then .error .empty
  else (Formula.read formula).map fun terms => { ofTerms terms with formula := formula }

/-- Reads a formula with references to data. -/
def ofFormula (options : RollOptions) (data : Context) (formula : String) :
    Except FormatError Roll :=
  let substituted := data.substitute options.missingData formula
  (parse substituted.formula).map fun roll =>
    { roll with data := data, missing := substituted.missing }

/-! ## Evaluating rolls -/

/-- Evaluates a roll: the total or what went wrong, the roll afterwards and the
roller afterwards. -/
def evaluate (r : Roll) (roller : Roller) : Except RollError Float × Roll × Roller :=
  if r.evaluated then (.error (.state .alreadyEvaluated), r, roller)
  else
    match (Evaluation.evaluate r.terms).run.run ⟨roller, []⟩ with
    | (.ok (terms, total), session) =>
        (.ok total,
          { r with terms := terms, dice := session.log, total := some total, evaluated := true },
          session.roller)
    | (.error e, session) => (.error e, { r with dice := session.log }, session.roller)

/-! ## Views -/

/-- Every die that was rolled, in order. -/
def views (r : Roll) : List DieView :=
  r.dice.flatMap Rolled.views

/-- The formula with what was rolled. -/
def describe (r : Roll) (limit : Option Nat) : String :=
  Term.describeAll limit r.terms

/-- The formula, or what was rolled and the total once the roll is evaluated. -/
def text (r : Roll) : String :=
  match r.total, r.evaluated with
  | some total, true => r.describe none ++ " = " ++ resultText total
  | _, _ => r.formula

end Roll

end DiceFormula
