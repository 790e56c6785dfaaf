/-
# DiceFormula.Proofs.Formula.Total -- the total of a list of terms

A formula whose terms all have values is totalled through text: `Term.totalAll`
writes the values and operators and calculates what is written.  This comes to
the same as calculating with the values themselves (`totalAll_agrees`), as long
as the terms are operands with one binary operator between them.  An operand is
any number of signs and a term that comes to a finite number.
-/
import DiceFormula.Proofs.Arithmetic.Items

namespace DiceFormula

set_option autoImplicit false

open Arithmetic

/-- Signs and a term behind them that has a finite value. -/
structure SignedTerm where
  signs : List Operator
  additive : ∀ op ∈ signs, op.isAdditive = true
  term : Term
  operand : term.isOperator = false
  value : Float
  hasValue : term.total? = some value
  finite : value.isFinite = true

namespace SignedTerm

/-- The terms of an operand. -/
def terms (o : SignedTerm) : List Term := o.signs.map .operator ++ [o.term]

/-- The terms of operands with operators between them. -/
def termsAll (first : SignedTerm) (rest : List (Operator × SignedTerm)) : List Term :=
  first.terms ++ rest.flatMap fun (op, o) => .operator op :: o.terms

/-- The same operand with its value in the place of the term. -/
def valued (o : SignedTerm) : Operand := ⟨o.signs, o.additive, o.value, o.finite⟩

/-- The operators and the operands with values in the place of terms. -/
def valuedAll (rest : List (Operator × SignedTerm)) : List (Operator × Operand) :=
  rest.map fun (op, o) => (op, o.valued)

/-- The value of the term with the signs in front of it. -/
def total (o : SignedTerm) : Float := o.valued.total

/-- The operators and the totals of operands. -/
def totals (rest : List (Operator × SignedTerm)) : List (Operator × Float) :=
  rest.map fun (op, o) => (op, o.total)

theorem item_term (o : SignedTerm) : o.term.item Term.total? = .value o.value := by
  have operand := o.operand
  have hasValue := o.hasValue
  unfold Term.item
  split
  · rename_i op term
    rw [term] at operand
    cases operand
  · rw [hasValue]

theorem items_terms (o : SignedTerm) :
    o.terms.map (Term.item Term.total?) = o.valued.items := by
  have signs : (o.signs.map Term.operator).map (Term.item Term.total?) =
      o.signs.map Item.operator := by
    rw [List.map_map]
    rfl
  rw [terms, List.map_append, signs, List.map_singleton, item_term]
  rfl

theorem items_termsAll (first : SignedTerm) (rest : List (Operator × SignedTerm)) :
    (first.termsAll rest).map (Term.item Term.total?) =
      first.valued.itemsAll (valuedAll rest) := by
  rw [termsAll, List.map_append, items_terms, Operand.itemsAll, valuedAll]
  congr 1
  induction rest with
  | nil => rfl
  | cons link rest ih =>
      obtain ⟨op, o⟩ := link
      have sign : (Term.operator op).item Term.total? = .operator op := rfl
      rw [List.flatMap_cons, List.map_append, ih, List.map_cons, sign, items_terms,
        List.map_cons, List.flatMap_cons]

theorem totals_valued (rest : List (Operator × SignedTerm)) :
    Operand.totals (valuedAll rest) = totals rest := by
  rw [Operand.totals, valuedAll, List.map_map]
  rfl

/-- Terms are totalled as their values are. -/
theorem totalAll_termsAll (first : SignedTerm) (rest : List (Operator × SignedTerm)) :
    Term.totalAll (first.termsAll rest) =
      Item.total (first.valued.itemsAll (valuedAll rest)) := by
  rw [Term.totalAll, items_termsAll]

/-- **The total of terms is what their values come to from left to right**, up to
the sign of a zero.  It fails only if some value on the way is not finite. -/
theorem totalAll_agrees (first : SignedTerm) (rest : List (Operator × SignedTerm)) :
    Agrees (Term.totalAll (first.termsAll rest)) (direct none first.total (totals rest)) := by
  have agrees := total_agrees first.valued (valuedAll rest)
  rwa [totals_valued, ← totalAll_termsAll] at agrees

/-- `-2[a] - -3 * 4`, whose signs bind tighter than its operators. -/
theorem totalAll_agrees_signed :
    Agrees (Term.totalAll [.operator .subtract, .number 2 (some "a"), .operator .subtract,
        .operator .subtract, .number 3 none, .operator .multiply, .number 4 none])
      (direct none (-2) [(.subtract, -3), (.multiply, 4)]) ∧
    (direct none (-2) [(.subtract, -3), (.multiply, 4)] == some 10) = true := by
  -- For any values first: the total of literals would be computed to match it with the theorem.
  have agrees (x y z : Float) (first : x.isFinite = true) (second : y.isFinite = true)
      (third : z.isFinite = true)
      (value : (direct none (-x) [(.subtract, -y), (.multiply, z)] == some 10) = true) :
      Agrees (Term.totalAll [.operator .subtract, .number x (some "a"), .operator .subtract,
          .operator .subtract, .number y none, .operator .multiply, .number z none])
        (direct none (-x) [(.subtract, -y), (.multiply, z)]) ∧
      (direct none (-x) [(.subtract, -y), (.multiply, z)] == some 10) = true :=
    ⟨totalAll_agrees ⟨[.subtract], by decide, .number x (some "a"), rfl, x, rfl, first⟩
      [(.subtract, ⟨[.subtract], by decide, .number y none, rfl, y, rfl, second⟩),
        (.multiply, ⟨[], List.forall_mem_nil _, .number z none, rfl, z, rfl, third⟩)], value⟩
  exact agrees 2 3 4 (by decide +kernel) (by decide +kernel) (by decide +kernel) (by decide +kernel)

end SignedTerm

end DiceFormula
