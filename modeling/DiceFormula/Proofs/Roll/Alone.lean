/-
# DiceFormula.Proofs.Roll.Alone -- evaluating nothing but dice

A formula that is nothing but dice, or comes to that once its groups have values, is evaluated by
rolling these dice (`finish_alone`).  What the evaluation comes to depends on the dice only
(`EndsWith`): their total, if there is one, and else the reason why they cannot be rolled or why
what they show has no total.
-/
import DiceFormula.Proofs.Arithmetic.Items
import DiceFormula.Proofs.Dice.Totals
import DiceFormula.Proofs.Double.Whole
import DiceFormula.Proofs.Formula.Alone
import DiceFormula.Proofs.Roll.Drawn

namespace DiceFormula

set_option autoImplicit false

/-! ## Totals -/

/-- The total of dice is finite. -/
theorem Rolled.isFinite_total {rolled : Rolled} {n : Int} (total : rolled.total = .ok n) :
    (Float.ofInt n).isFinite = true := by
  have within := tally_within total
  refine Double.isFinite_ofInt ?_
  have : Limit.leastValue = -0x8000000000000000 := rfl
  have : Limit.mostValue = 0x7FFFFFFFFFFFFFFF := rfl
  omega

namespace Term

/-- A term with a finite value comes to it. -/
theorem exists_totalAll {t : Term} (operand : t.isOperator = false) {x : Float}
    (value : t.total? = some x) (finite : x.isFinite = true) :
    ∃ total, totalAll [t] = .ok total ∧ (total == x) = true := by
  have item : t.item total? = .value x := by
    unfold Term.item
    split
    · cases operand
    · rw [value]
  let o : Arithmetic.Operand := ⟨[], List.forall_mem_nil _, x, finite⟩
  have agrees : Arithmetic.Agrees (Item.total (o.itemsAll [])) (some x) :=
    Arithmetic.total_agrees o []
  have items : totalAll [t] = Item.total (o.itemsAll []) := by
    rw [totalAll, List.map_singleton, item]
    rfl
  rw [← items] at agrees
  cases total : totalAll [t] with
  | ok v =>
      rw [total] at agrees
      exact ⟨v, rfl, agrees.2⟩
  | error e =>
      rw [total] at agrees
      exact absurd agrees (by cases e <;> exact id)

/-- A term without a value has no total. -/
theorem totalAll_unresolved {t : Term} (operand : t.isOperator = false) (value : t.total? = none) :
    totalAll [t] = .error (.unresolved t.text) := by
  have item : t.item total? = .unresolved t.text := by
    unfold Term.item
    split
    · cases operand
    · rw [value]
  rw [totalAll, List.map_singleton, item]
  rfl

end Term

namespace Evaluation

open Term

/-! ## Dice alone -/

/-- Why an evaluation fails that cannot roll some dice. -/
def ofFailure (d : Dice) : RollFailure → RollError
  | .error e => .dice d.text e
  | .fault f => .fault f

/-- Rolls dice that are all of a formula. -/
def alone (d : Dice) : Evaluation (List Term × Float) := do
  let terms ← rollAll [.ofDice d none]
  let total ← ofCalc (totalAll terms)
  pure (terms, total)

/-- **What is simplified to dice is evaluated by rolling these.** -/
theorem finish_alone {ts : List Term} {d : Dice}
    (simplified : Piece.simplifyLate (Piece.ofTerms ts) = .ok [⟨.ofDice d none, none⟩]) :
    finish ts = alone d := by
  rw [finish, simplified]
  rfl

theorem evaluate_alone (d : Dice) : evaluate [.ofDice d none] = alone d := by
  have resolved : resolveAll [.ofDice d none] = pure [.ofDice d none] := by
    rw [resolveAll, resolveAll]
    rfl
  rw [evaluate, resolved, pure_bind]
  exact finish_alone rfl

section Run

variable {d : Dice} {s : Session} {roller : Roller}

theorem run_alone_rolled {rolled : Rolled}
    (rolls : (d.roll true).run.run s.roller = (.ok rolled, roller)) :
    (alone d).run.run s = ((ofCalc (totalAll [.dice rolled true none]) >>= fun total =>
      pure ([.dice rolled true none], total) : Evaluation _).run.run
        ⟨roller, s.log ++ [rolled]⟩) := by
  have first : (rollDice (.ofDice d none)).run.run s =
      (.ok (.dice rolled true none), ⟨roller, s.log ++ [rolled]⟩) := by
    rw [ofDice, rollDice, run_bind, run_rolling, Rolled.unrolled, rolls]
    rfl
  rw [alone, rollAll, rollAll, bind_assoc, run_bind, first]
  rfl

/-- Dice whose total is in range come to it. -/
theorem run_alone_total {rolled : Rolled} {n : Int}
    (rolls : (d.roll true).run.run s.roller = (.ok rolled, roller)) (total : rolled.total = .ok n) :
    ∃ x, (x == Float.ofInt n) = true ∧ (alone d).run.run s =
      (.ok ([.dice rolled true none], x), ⟨roller, s.log ++ [rolled]⟩) := by
  have value : (Term.dice rolled true none).total? = some (Float.ofInt n) := by
    rw [Term.total?, total]
    rfl
  obtain ⟨x, comes, same⟩ :=
    exists_totalAll (t := .dice rolled true none) rfl value (Rolled.isFinite_total total)
  refine ⟨x, same, ?_⟩
  rw [run_alone_rolled rolls, comes]
  rfl

/-- All other dice have no value. -/
theorem run_alone_overflow {rolled : Rolled} {e : DiceError}
    (rolls : (d.roll true).run.run s.roller = (.ok rolled, roller))
    (total : rolled.total = .error e) : (alone d).run.run s =
      (.error (.calc (.unresolved (Term.dice rolled true none).text)),
        ⟨roller, s.log ++ [rolled]⟩) := by
  have value : (Term.dice rolled true none).total? = none := by
    rw [Term.total?, total]
    rfl
  rw [run_alone_rolled rolls, totalAll_unresolved rfl value]
  rfl

/-- Dice that cannot be rolled are not logged. -/
theorem run_alone_failed {failure : RollFailure}
    (rolls : (d.roll true).run.run s.roller = (.error failure, roller)) :
    (alone d).run.run s = (.error (ofFailure d failure), { s with roller := roller }) := by
  have first : (rollDice (.ofDice d none)).run.run s =
      (.error (ofFailure d failure), { s with roller := roller }) := by
    rw [ofDice, rollDice, run_bind, run_rolling, Rolled.unrolled, rolls]
    cases failure <;> rfl
  rw [alone, rollAll, rollAll, bind_assoc, run_bind, first]

end Run

end Evaluation

/-! ## Rolls -/

namespace Roll

open Evaluation

/-- How an evaluation ends that has rolled some dice already and rolls some more: with the total of
these, or with what is wrong with them. -/
inductive EndsWith (before : List Rolled) (d : Dice) :
    Except RollFailure Rolled × Roller → Except RollError Float × Roll × Roller → Prop
  | total {rolled : Rolled} {roller : Roller} {r : Roll} {n : Int} {x : Float}
      (total : rolled.total = .ok n) (same : (x == Float.ofInt n) = true)
      (logged : r.dice = before ++ [rolled]) :
      EndsWith before d (.ok rolled, roller) (.ok x, r, roller)
  | overflow {rolled : Rolled} {roller : Roller} {r : Roll} {e : DiceError}
      (total : rolled.total = .error e) (logged : r.dice = before ++ [rolled]) :
      EndsWith before d (.ok rolled, roller)
        (.error (.calc (.unresolved (Term.dice rolled true none).text)), r, roller)
  | failed {failure : RollFailure} {roller : Roller} {r : Roll} (logged : r.dice = before) :
      EndsWith before d (.error failure, roller) (.error (ofFailure d failure), r, roller)

/-- **A formula that goes on as dice alone would ends with these dice.** -/
theorem endsWith_evaluate {r : Roll} {roller : Roller} (fresh : r.evaluated = false) {d : Dice}
    {s : Session} (run : (Evaluation.evaluate r.terms).run.run ⟨roller, []⟩ = (alone d).run.run s) :
    EndsWith s.log d ((d.roll true).run.run s.roller) (r.evaluate roller) := by
  rw [evaluate, fresh, if_neg Bool.false_ne_true, run]
  rcases rolls : (d.roll true).run.run s.roller with ⟨failure | rolled, roller'⟩
  · rw [run_alone_failed rolls]
    exact .failed rfl
  · cases total : rolled.total with
    | ok n =>
        obtain ⟨x, same, comes⟩ := run_alone_total rolls total
        rw [comes]
        exact .total total same rfl
    | error e =>
        rw [run_alone_overflow rolls total]
        exact .overflow total rfl

/-- The text of dice makes a roll of these alone. -/
theorem parse_dice {d : Dice} (writable : d.Writable) :
    parse d.text = .ok { ofTerms [.ofDice d none] with formula := d.text } := by
  rw [parse, if_neg (by simp [Formula.visible_dice writable.modifiers]),
    Formula.read_dice writable]
  rfl

/-- Dice alone that have a total are evaluated, and nothing else is rolled. -/
theorem exists_evaluate_dice {d : Dice} {r : Roll} {roller roller' : Roller} {rolled : Rolled}
    {n : Int} (fresh : r.evaluated = false) (terms : r.terms = [.ofDice d none])
    (rolls : (d.roll true).run.run roller = (.ok rolled, roller')) (total : rolled.total = .ok n) :
    ∃ x r', r.evaluate roller = (.ok x, r', roller') ∧ r'.evaluated = true ∧ r'.dice = [rolled] := by
  obtain ⟨x, -, comes⟩ := run_alone_total (s := ⟨roller, []⟩) rolls total
  rw [evaluate, fresh, if_neg Bool.false_ne_true, terms, Evaluation.evaluate_alone, comes]
  exact ⟨x, _, rfl, rfl, rfl⟩

end Roll

end DiceFormula
