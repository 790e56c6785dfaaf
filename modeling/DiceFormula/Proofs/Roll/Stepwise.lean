/-
# DiceFormula.Proofs.Roll.Stepwise -- what evaluations are made of

An evaluation goes step by step: it comes to a result or an error, it rolls the dice of a term, or
it marks the members of a pool, for which no dice are drawn.  A property of computations that each
of these steps has, and that two computations pass on to their sequence, is `Stepwise`.

The evaluation of every formula that was read has such a property, however deep its groups are
nested (`Stepwise.evaluate`): the pools in it have modifiers that only select and score.
-/
import DiceFormula.Proofs.Dice.Drawn
import DiceFormula.Proofs.Formula.Everywhere
import DiceFormula.Roll.Basic

namespace DiceFormula

set_option autoImplicit false

namespace Evaluation

/-! ## Pools -/

/-- The pools of a formula can only select and score their members. -/
def Selective (ts : List Term) : Prop :=
  ∀ members modifiers results evaluated flavor,
    Term.pool members modifiers results evaluated flavor ∈ ts →
      ∀ m ∈ modifiers, m.isSelective = true

theorem selective_cons {t : Term} {rest : List Term} :
    Selective (t :: rest) ↔ Selective [t] ∧ Selective rest := by
  constructor
  · intro selective
    constructor <;> intro members modifiers results evaluated flavor mem
    · exact selective _ _ _ _ _ (List.mem_cons.2 (.inl (List.mem_singleton.1 mem)))
    · exact selective _ _ _ _ _ (List.mem_cons_of_mem t mem)
  · rintro ⟨first, others⟩ members modifiers results evaluated flavor mem
    rcases List.mem_cons.1 mem with rfl | mem
    · exact first _ _ _ _ _ List.mem_cons_self
    · exact others _ _ _ _ _ mem

/-- Pools that were read can only select and score. -/
theorem selective_read {formula : String} {ts : List Term} (read : Formula.read formula = .ok ts) :
    Term.Everywhere Selective ts := by
  refine Formula.everywhere_read (fun links ts sound settles => ?_) read
  intro members modifiers results evaluated flavor mem
  have bracketed := sound _ (Link.mem_of_terms (Piece.mem_of_settle? settles mem rfl) rfl)
  cases bracketed with
  | pool inside selective => exact selective

/-! ## Steps -/

/-- The steps of evaluations have the property, and a sequence has it if both parts do. -/
structure Stepwise (P : ∀ {α : Type}, Evaluation α → Prop) : Prop where
  value : ∀ {α : Type} (a : α), P (pure a)
  failure : ∀ {α : Type} (e : RollError), P (throw e : Evaluation α)
  sequence : ∀ {α β : Type} {x : Evaluation α} {k : α → Evaluation β},
    P x → (∀ a, P (k a)) → P (x >>= k)
  dice : ∀ t : Term, P (rollDice t)
  /-- members of pools are marked, or were dropped twice -/
  marks : ∀ (term : String) (x : Except Fault (List Die)), P (rolling term (Rolling.ofFault x))

namespace Stepwise

variable {P : ∀ {α : Type}, Evaluation α → Prop} (steps : Stepwise P)

include steps

theorem ofFormat {α : Type} (x : Except FormatError α) : P (ofFormat x) := by
  cases x with
  | ok a => exact steps.value a
  | error e => exact steps.failure (.format e)

theorem ofCalc {α : Type} (x : Except CalcError α) : P (ofCalc x) := by
  cases x with
  | ok a => exact steps.value a
  | error e => exact steps.failure (.calc e)

/-! ## Dice -/

theorem rollAll (ts : List Term) : P (rollAll ts) := by
  induction ts with
  | nil => exact steps.value []
  | cons t rest ih =>
      exact steps.sequence (steps.dice t) fun _ => steps.sequence ih fun _ => steps.value _

theorem finish (ts : List Term) : P (finish ts) :=
  steps.sequence (steps.ofFormat _) fun _ => steps.sequence (steps.rollAll _) fun _ =>
    steps.sequence (steps.ofCalc _) fun _ => steps.value _

/-! ## Groups -/

/-- Modifiers of pools draw no dice. -/
theorem applyPool {modifiers : List Modifier}
    (selective : ∀ m ∈ modifiers, m.isSelective = true) (results : List Die) :
    P (applyPool modifiers results) := by
  induction modifiers generalizing results with
  | nil => exact steps.value results
  | cons m rest ih =>
      obtain ⟨first, others⟩ := List.forall_mem_cons.1 selective
      obtain ⟨x, marks⟩ := Modifier.apply_selective 0 first results
      rw [Evaluation.applyPool, marks]
      exact steps.sequence (steps.marks _ x) (ih others)

theorem evaluateLists {args : List (List Term)} (inside : ∀ us ∈ args, P (resolveAll us)) :
    P (evaluateLists args) := by
  induction args with
  | nil =>
      rw [Evaluation.evaluateLists]
      exact steps.value []
  | cons us rest ih =>
      obtain ⟨first, others⟩ := List.forall_mem_cons.1 inside
      rw [Evaluation.evaluateLists]
      exact steps.sequence first fun ts => steps.sequence (steps.finish ts) fun _ =>
        steps.sequence (ih others) fun _ => steps.value _

/-- A term has the property if the formulas in it do. -/
theorem resolve {t : Term} (selective : Selective [t])
    (inside : ∀ us ∈ t.inner, P (resolveAll us)) : P (resolve t) := by
  unfold Evaluation.resolve
  split
  · rename_i inner flavor
    exact steps.sequence (inside inner List.mem_cons_self) fun ts =>
      steps.sequence (steps.finish ts) fun _ => steps.value _
  · exact steps.sequence (steps.evaluateLists inside) fun _ =>
      steps.sequence (steps.ofCalc _) fun _ => steps.value _
  · exact steps.sequence (steps.evaluateLists inside) fun _ =>
      steps.sequence (steps.applyPool (selective _ _ _ _ _ List.mem_cons_self) _) fun _ =>
        steps.value _
  · exact steps.value _

theorem resolveAll {ts : List Term} (everywhere : Term.Everywhere Selective ts) :
    P (resolveAll ts) := by
  induction everywhere with
  | @intro ts here inside ih =>
      clear inside
      induction ts with
      | nil =>
          rw [Evaluation.resolveAll]
          exact steps.value []
      | cons t rest others =>
          obtain ⟨selective, selectiveRest⟩ := selective_cons.1 here
          obtain ⟨ihFirst, ihRest⟩ := List.forall_mem_cons.1 ih
          rw [Evaluation.resolveAll]
          exact steps.sequence (steps.resolve selective ihFirst) fun _ =>
            steps.sequence (others selectiveRest ihRest) fun _ => steps.value _

/-- **What every step has, the evaluation of a formula that was read has too.** -/
theorem evaluate {formula : String} {ts : List Term} (read : Formula.read formula = .ok ts) :
    P (evaluate ts) :=
  steps.sequence (steps.resolveAll (selective_read read)) steps.finish

end Stepwise

end Evaluation

end DiceFormula
