/-
# DiceFormula.Proofs.Roll.Adjacent -- operands next to each other

The terms of an evaluated roll are those whose total it has.  Operands next to each other have a
total only if their values `Fuse` (`totalAll_fuse`), and so the operands of an evaluated roll do
(`evaluate_fuse`).

That can happen: `(1)(2)` comes to twelve (`evaluate_adjacent`).
-/
import DiceFormula.Proofs.Arithmetic.Adjacent
import DiceFormula.Proofs.Roll.Drawn

namespace DiceFormula

set_option autoImplicit false

open Arithmetic

/-! ## Terms -/

namespace Term

/-- An operand is written as its value. -/
theorem item_operand {t : Term} (operand : t.isOperator = false)
    (resolved : isResolved (item total? t) = true) :
    ∃ a, t.total? = some a ∧ item total? t = .value a := by
  cases value : t.total? with
  | none =>
      have unresolved : item total? t = .unresolved t.text := by
        cases t with
        | operator op => cases operand
        | _ =>
            unfold item
            dsimp only
            rw [value]
      rw [unresolved] at resolved
      cases resolved
  | some a =>
      refine ⟨a, rfl, ?_⟩
      cases t with
      | operator op => cases operand
      | _ =>
          unfold item
          dsimp only
          rw [value]

/-- Terms with values that fuse. -/
def Fused (t u : Term) : Prop := ∃ a b, t.total? = some a ∧ u.total? = some b ∧ Fuse a b

/-- Operands next to each other have a total only if their values fuse. -/
theorem totalAll_fuse {front back : List Term} {t u : Term} {x : Float}
    (ok : totalAll (front ++ t :: u :: back) = .ok x) (left : t.isOperator = false)
    (right : u.isOperator = false) : Fused t u := by
  rw [totalAll, List.map_append, List.map_cons, List.map_cons] at ok
  have resolved := (reads_of_total ok).1
  obtain ⟨a, valueLeft, itemLeft⟩ := item_operand left (resolved _ (by simp))
  obtain ⟨b, valueRight, itemRight⟩ := item_operand right (resolved _ (by simp))
  rw [itemLeft, itemRight] at ok
  exact ⟨a, b, valueLeft, valueRight, fuse_of_total ok⟩

end Term

/-! ## Rolls -/

namespace Evaluation

theorem ok_of_ofFormat {α : Type} {x : Except FormatError α} {a : α} {s s' : Session}
    (ok : (ofFormat x).run.run s = (.ok a, s')) : x = .ok a ∧ s' = s := by
  cases x <;> cases ok
  exact ⟨rfl, rfl⟩

theorem ok_of_ofCalc {α : Type} {x : Except CalcError α} {a : α} {s s' : Session}
    (ok : (ofCalc x).run.run s = (.ok a, s')) : x = .ok a ∧ s' = s := by
  cases x <;> cases ok
  exact ⟨rfl, rfl⟩

/-- Terms are finished by simplifying, rolling and totalling them. -/
theorem ok_of_finish {ts ts' : List Term} {total : Float} {s : Session}
    (ok : ((finish ts).run.run s).1 = .ok (ts', total)) :
    ∃ ps, Piece.simplifyLate (Piece.ofTerms ts) = .ok ps ∧
      ((rollAll (Piece.terms ps)).run.run s).1 = .ok ts' ∧ Term.totalAll ts' = .ok total := by
  obtain ⟨ps, s', formatted, ok⟩ := ok_of_run_bind ok
  obtain ⟨simplified, same⟩ := ok_of_ofFormat formatted
  rw [same] at ok
  obtain ⟨terms, s'', rolled, ok⟩ := ok_of_run_bind ok
  obtain ⟨x, s''', calculated, ok⟩ := ok_of_run_bind ok
  obtain ⟨value, -⟩ := ok_of_ofCalc calculated
  cases ok
  exact ⟨ps, simplified, congrArg Prod.fst rolled, value⟩

/-- A formula comes to the total of its evaluated terms. -/
theorem totalAll_of_finish {ts ts' : List Term} {total : Float} {s : Session}
    (ok : ((finish ts).run.run s).1 = .ok (ts', total)) : Term.totalAll ts' = .ok total := by
  obtain ⟨ps, -, -, value⟩ := ok_of_finish ok
  exact value

end Evaluation

namespace Roll

variable {roll roll' : Roll} {roller roller' : Roller} {total : Float}

theorem totalAll_of_evaluate (ok : roll.evaluate roller = (.ok total, roll', roller')) :
    Term.totalAll roll'.terms = .ok total := by
  obtain ⟨ts, s, evaluates, rfl, -⟩ := evaluate_ok ok
  have whole := congrArg Prod.fst evaluates
  obtain ⟨resolved, s', -, finished⟩ := ok_of_run_bind whole
  exact Evaluation.totalAll_of_finish finished

/-- Terms of which two are operands, and no others. -/
theorem two_operands {ts : List Term} (kinds : ts.map Term.isOperator = [false, false]) :
    ∃ t u, ts = [t, u] ∧ t.isOperator = false ∧ u.isOperator = false := by
  obtain ⟨t, rest, rfl, left, kinds⟩ := List.map_eq_cons_iff.mp kinds
  obtain ⟨u, rest, rfl, right, kinds⟩ := List.map_eq_cons_iff.mp kinds
  exact ⟨t, u, by rw [List.map_eq_nil_iff.mp kinds], left, right⟩

/-- **Where operands stand next to each other, in terms with a total or in an evaluated roll,
their digits run together.**  Neither is below zero, and at most one has a fraction. -/
theorem evaluate_fuse {front back : List Term} {t u : Term} (left : t.isOperator = false)
    (right : u.isOperator = false) :
    (∀ x, Term.totalAll (front ++ t :: u :: back) = .ok x → Term.Fused t u) ∧
      ∀ (roll roll' : Roll) (roller roller' : Roller) (total : Float),
        roll.evaluate roller = (.ok total, roll', roller') →
          roll'.terms = front ++ t :: u :: back → Term.Fused t u := by
  refine ⟨fun x ok => Term.totalAll_fuse ok left right, ?_⟩
  intro roll roll' roller roller' total ok terms
  have whole := totalAll_of_evaluate ok
  rw [terms] at whole
  exact Term.totalAll_fuse whole left right

/-- One and two and a half: twelve and a half. -/
theorem evaluate_fuse_fraction :
    ∃ (roll roll' : Roll) (roller' : Roller) (t u : Term) (x a b : Float),
      parse "(1)(2.5)" = .ok roll ∧ roll.evaluate (.tape []) = (.ok x, roll', roller') ∧
        roll'.terms = [t, u] ∧ t.total? = some a ∧ u.total? = some b ∧ Fuse a b := by
  have comes : ∃ roll ∈ (parse "(1)(2.5)").toOption,
      (roll.evaluate (.tape [])).1.toOption.isSome = true ∧
        (roll.evaluate (.tape [])).2.1.terms.map Term.isOperator = [false, false] := by
    decide +kernel
  obtain ⟨roll, parsed, ends, kinds⟩ := comes
  rcases outcome : roll.evaluate (.tape []) with ⟨e | x, roll', roller'⟩
  · rw [outcome] at ends
    cases ends
  · rw [outcome] at kinds
    obtain ⟨t, u, terms, left, right⟩ := two_operands kinds
    have whole : roll'.terms = [] ++ t :: u :: [] := terms
    obtain ⟨a, b, valueLeft, valueRight, fuse⟩ :=
      (evaluate_fuse left right).2 roll roll' _ roller' x outcome whole
    exact ⟨roll, roll', roller', t, u, x, a, b, eq_ok_of_toOption parsed, outcome, terms, valueLeft,
      valueRight, fuse⟩

/-- Groups next to each other are not multiplied, nor are they refused: one and two make
twelve. -/
theorem evaluate_adjacent :
    ∃ (roll roll' : Roll) (roller' : Roller) (t u : Term) (x : Float),
      parse "(1)(2)" = .ok roll ∧ roll.evaluate (.tape []) = (.ok x, roll', roller') ∧
        roll'.terms = [t, u] ∧ t.isOperator = false ∧ u.isOperator = false ∧
          Term.totalAll [t, u] = .ok x ∧ (x == 12) = true := by
  have comes : ∃ roll ∈ (parse "(1)(2)").toOption,
      (roll.evaluate (.tape [])).1.toOption.any (· == 12) = true ∧
        (roll.evaluate (.tape [])).2.1.terms.map Term.isOperator = [false, false] := by
    decide +kernel
  obtain ⟨roll, parsed, value, kinds⟩ := comes
  rcases outcome : roll.evaluate (.tape []) with ⟨e | x, roll', roller'⟩
  · rw [outcome] at value
    cases value
  · rw [outcome] at value kinds
    obtain ⟨t, u, terms, left, right⟩ := two_operands kinds
    refine ⟨roll, roll', roller', t, u, x, eq_ok_of_toOption parsed, outcome, terms, left, right,
      ?_, value⟩
    rw [← terms]
    exact totalAll_of_evaluate outcome

end Roll

end DiceFormula
