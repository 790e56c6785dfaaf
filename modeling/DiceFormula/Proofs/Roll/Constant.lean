/-
# DiceFormula.Proofs.Roll.Constant -- terms with the same value for all dice

Two recursions go through the groups and calls of a formula: `Term.constant?` looks for their
values without a roller, and `Evaluation.resolve` evaluates them.  Only the latter simplifies each
formula on its way, and leaves out its stray operators.

They agree (`resolve_constant`): a term with a constant value is resolved to that number, with its
flavor, and neither the roller nor the log changes.  For if a formula has a constant total, then
its terms come to numbers, which settles all of them, and of its stray operators there are but plus
signs in front, which stand for nothing (`totalAll_stripStray`).
-/
import DiceFormula.Proofs.Arithmetic.Ends
import DiceFormula.Proofs.Roll.Arithmetic

namespace DiceFormula

set_option autoImplicit false

open Arithmetic

namespace Term

/-! ## Stray operators -/

/-- Plus signs in front of a formula with a total can be left out, and other stray operators there
are none. -/
theorem totalAll_dropStray {ts : List Term} {x : Float} (ok : totalAll ts = .ok x) :
    totalAll (Piece.terms ((Piece.ofTerms ts).dropWhile Piece.isStrayAtStart)) = .ok x := by
  induction ts with
  | nil => exact ok
  | cons t rest ih =>
      by_cases stray : Piece.isStrayAtStart ⟨t, none⟩ = true
      · rw [Piece.ofTerms, List.map_cons, List.dropWhile_cons_of_pos stray]
        cases t with
        | operator op =>
            obtain ⟨additive, plus⟩ := total_leading ok
            refine ih (plus ?_)
            cases op with
            | add => rfl
            | subtract => cases stray
            | multiply | divide => cases additive
        | _ => cases stray
      · rw [Piece.ofTerms, List.map_cons, List.dropWhile_cons_of_neg stray]
        exact (congrArg totalAll (Piece.terms_ofTerms (t :: rest))).trans ok

/-- **Leaving out stray operators does not change a total.** -/
theorem totalAll_stripStray {ts : List Term} {x : Float} (ok : totalAll ts = .ok x) :
    totalAll (Piece.terms (Piece.stripStray (Piece.ofTerms ts))) = .ok x := by
  have behind : ((Piece.ofTerms ts).rdropWhile fun p => p.term.isOperator) = Piece.ofTerms ts := by
    rw [List.rdropWhile_eq_self_iff]
    intro nonempty operator
    rcases List.eq_nil_or_concat ts with rfl | ⟨front, t, rfl⟩
    · exact nonempty rfl
    · cases t with
      | operator op =>
          rw [totalAll, List.concat_eq_append, List.map_append] at ok
          exact total_trailing ok
      | _ => simp [Piece.ofTerms, isOperator] at operator
  rw [Piece.stripStray_eq, behind]
  exact totalAll_dropStray ok

/-! ## Numbers and operators -/

/-- The term is a number or an operator. -/
def isPlain : Term → Bool
  | number _ _ | operator _ => true
  | _ => false

end Term

namespace Evaluation

open Term

/-- Numbers and operators are totalled as they stand. -/
theorem finish_plain {ts : List Term} {x : Float} (plain : ∀ t ∈ ts, t.isPlain = true)
    (ok : totalAll ts = .ok x) : ∃ ts', finish ts = pure (ts', x) := by
  have settled : Piece.Settled (Piece.ofTerms ts) := by
    intro p mem
    obtain ⟨t, member, rfl⟩ := List.mem_map.1 mem
    have known := plain t member
    cases t <;> first | rfl | cases known
  have unrolled : rollAll (Piece.terms (Piece.stripStray (Piece.ofTerms ts))) =
      pure (Piece.terms (Piece.stripStray (Piece.ofTerms ts))) := by
    refine rollAll_alone fun t mem => ?_
    obtain ⟨p, kept, rfl⟩ := List.mem_map.1 mem
    obtain ⟨t, member, rfl⟩ := List.mem_map.1 (Piece.mem_of_stripStray kept)
    have known := plain t member
    cases t <;> first | rfl | cases known
  refine ⟨Piece.terms (Piece.stripStray (Piece.ofTerms ts)), ?_⟩
  rw [finish, Piece.simplifyLate_settled settled]
  show rollAll _ >>= _ = _
  rw [unrolled, pure_bind, totalAll_stripStray ok]
  rfl

/-! ## Constant terms -/

mutual

/-- **A term with a constant value is resolved to that value**, with its flavor and without a
die. -/
theorem resolve_of_constant : ∀ (t : Term) {x : Float}, t.constant? = some x →
    resolve t = pure (.number x t.flavor?)
  | .number value flavor, x, constant => by
      cases constant
      exact resolve_alone rfl
  | .group us flavor, x, constant => by
      obtain ⟨ts', evaluated⟩ := evaluate_of_constant us (eq_ok_of_toOption constant)
      rw [resolve_group, evaluated, pure_bind]
      rfl
  | .call f args flavor, x, constant => by
      rw [constant?] at constant
      obtain ⟨xs, totals, value⟩ := Option.bind_eq_some_iff.1 constant
      obtain ⟨results, evaluated, rfl⟩ := evaluateLists_of_constant args totals
      rw [resolve, evaluated, pure_bind, eq_ok_of_toOption value]
      rfl
  | .operator _, _, constant => by cases constant
  | .dice _ _ _, _, constant => by cases constant
  | .pool _ _ _ _ _, _, constant => by cases constant
  | .fragment _, _, constant => by cases constant

/-- Terms with constant values are resolved to numbers and operators with the same items. -/
theorem resolveAll_of_constant : ∀ (ts : List Term),
    (∀ item ∈ constantItems ts, isResolved item = true) →
      ∃ us, resolveAll ts = pure us ∧ us.map (item total?) = constantItems ts ∧
        ∀ u ∈ us, u.isPlain = true
  | [], _ => ⟨[], rfl, rfl, List.forall_mem_nil _⟩
  | t :: rest, resolved => by
      cases kind : t.isOperator with
      | true =>
          obtain ⟨op, rfl⟩ : ∃ op, t = .operator op := by
            cases t with
            | operator op => exact ⟨op, rfl⟩
            | _ => cases kind
          obtain ⟨-, others⟩ := List.forall_mem_cons.1 resolved
          obtain ⟨us, evaluated, items, plain⟩ := resolveAll_of_constant rest others
          refine ⟨.operator op :: us, ?_, congrArg _ items, List.forall_mem_cons.2 ⟨rfl, plain⟩⟩
          rw [resolveAll, resolve_alone rfl, pure_bind, evaluated, pure_bind]
      | false =>
          rw [constantItems_operand kind] at resolved ⊢
          obtain ⟨first, others⟩ := List.forall_mem_cons.1 resolved
          obtain ⟨us, evaluated, items, plain⟩ := resolveAll_of_constant rest others
          cases constant : t.constant? with
          | none =>
              rw [constant] at first
              cases first
          | some x =>
              refine ⟨.number x t.flavor? :: us, ?_, congrArg _ items,
                List.forall_mem_cons.2 ⟨rfl, plain⟩⟩
              rw [resolveAll, resolve_of_constant t constant, pure_bind, evaluated, pure_bind]

theorem evaluate_of_constant (ts : List Term) {x : Float}
    (ok : Item.total (constantItems ts) = .ok x) : ∃ ts', evaluate ts = pure (ts', x) := by
  obtain ⟨us, resolved, items, plain⟩ := resolveAll_of_constant ts (reads_of_total ok).1
  obtain ⟨ts', finished⟩ := finish_plain plain (x := x) (by rw [totalAll, items, ok])
  exact ⟨ts', by rw [evaluate, resolved, pure_bind, finished]⟩

theorem evaluateLists_of_constant : ∀ (lists : List (List Term)) {xs : List Float},
    constantTotals? lists = some xs →
      ∃ results, evaluateLists lists = pure results ∧ results.map Prod.snd = xs
  | [], xs, totals => by
      cases totals
      exact ⟨[], by rw [evaluateLists], rfl⟩
  | ts :: rest, xs, totals => by
      rw [constantTotals?] at totals
      split at totals
      · cases totals
      · rename_i x total
        obtain ⟨ys, others, rfl⟩ := Option.map_eq_some_iff.1 totals
        obtain ⟨ts', evaluated⟩ := evaluate_of_constant ts (eq_ok_of_toOption total)
        obtain ⟨results, behind, rfl⟩ := evaluateLists_of_constant rest others
        refine ⟨(ts', x) :: results, ?_, rfl⟩
        rw [evaluateLists_cons, evaluated, pure_bind, behind, pure_bind]

end

/-- **Constant terms are evaluated to their values.**  Whatever the roller and whatever was rolled
before, the evaluation of a term with a constant value succeeds with that number and the flavor of
the term.  It draws no die: the roller and the log are what they were. -/
theorem resolve_constant {t : Term} {x : Float} (constant : t.constant? = some x) (s : Session) :
    (resolve t).run.run s = (.ok (.number x t.flavor?), s) := by
  rw [resolve_of_constant t constant]
  rfl

/-- A stray plus sign, a call and a group in a group with flavor. -/
theorem resolve_constant_nested :
    ∃ t, Formula.read "(+2 * max(1, -(0.5)))[bonus]" = .ok [t] ∧ t.constant? = some 2 ∧
      ∀ s, (resolve t).run.run s = (.ok (.number 2 (some "bonus")), s) := by
  have reads : ∃ ts ∈ (Formula.read "(+2 * max(1, -(0.5)))[bonus]").toOption, ts.length = 1 ∧
      ∃ t ∈ ts.head?, t.constant? = some 2 ∧ t.flavor? = some "bonus" := by
    decide +kernel
  obtain ⟨ts, read, single, t, head, constant, flavor⟩ := reads
  obtain ⟨u, rfl⟩ := List.length_eq_one_iff.1 single
  cases head
  refine ⟨t, eq_ok_of_toOption read, constant, fun s => ?_⟩
  have resolves := resolve_constant constant s
  rwa [flavor] at resolves

end Evaluation

end DiceFormula
