/-
# DiceFormula.Proofs.Roll.Faults -- the faults that rolling comes to

A die is marked once as added and once as dropped, and marking it again is a fault.  Nothing comes
to that: neither modifiers in any order (`Modifier.fails_applyAll`), nor rerolling the dice of an
outcome, which asks first whether a die is kept (`RollOutcome.run_reroll`).  Both may start from
dice with any marks (`never_marked_twice`).

So the only fault of an evaluation is a want of dice, whatever formula is evaluated
(`Roll.fault_evaluate`).
-/
import DiceFormula.Proofs.Dice.Refused
import DiceFormula.Proofs.Roll.Rerolls
import DiceFormula.Proofs.Roll.Stages

namespace DiceFormula

set_option autoImplicit false

/-! ## Outcomes -/

/-- Rerolling a die is not refused as dice are, and marks none twice. -/
theorem RollOutcome.fails_reroll (o : RollOutcome) (index : Nat) :
    Rolling.FailsFor (fun _ => False) (o.reroll index) := by
  intro r _
  have comes := o.run_reroll index r
  generalize (o.reroll index).run.run r = outcome at comes
  cases comes with
  | ignored | refused | applied => trivial
  | spent presented kept empty => exact ⟨rfl, empty⟩

/-- **No die is ever marked twice**, as added or as dropped: not by modifiers that are applied one
after the other to dice with any marks, and not by rerolling dice of an outcome, whatever it holds
and however often it was rerolled before.  If one of these comes to a fault, then to a want of dice,
with none left. -/
theorem never_marked_twice (sides : Nat) (modifiers : List Modifier) (dice : List Die)
    (r : Roller) (o : RollOutcome) (calls : List (Nat × Roller)) (index : Nat) (roller : Roller) :
    (∀ f ∈ [Fault.addedTwice, .droppedTwice],
      ((Modifier.applyAll sides modifiers dice).run.run r).1 ≠ .error (.fault f) ∧
        (((o.rerolled calls).reroll index).run.run roller).1 ≠ .error (.fault f)) ∧
      (∀ f r', (Modifier.applyAll sides modifiers dice).run.run r = (.error (.fault f), r') →
        f = .diceSpent ∧ r'.supply = 0) ∧
      ∀ f roller', ((o.rerolled calls).reroll index).run.run roller = (.error (.fault f), roller') →
        f = .diceSpent ∧ roller'.supply = 0 := by
  have applies := @Modifier.fails_applyAll sides modifiers dice
  have rerolls := (o.rerolled calls).fails_reroll index
  refine ⟨fun f marked => ⟨?_, ?_⟩, fun f r' failed => ?_, fun f roller' failed => ?_⟩
  · exact applies.ne_marked marked
  · exact rerolls.ne_marked marked
  · exact applies.fault failed
  · exact rerolls.fault failed

/-! ## Formulas -/

/-- If the evaluation ended with a fault, then for want of dice, and none are left. -/
def RollError.IsWant (e : RollError) (s : Session) : Prop :=
  ∀ f, e = .fault f → f = .diceSpent ∧ s.roller.supply = 0

namespace Evaluation

/-- The evaluation comes to no fault but a want of dice. -/
def Wants {α : Type} (x : Evaluation α) : Prop :=
  Leads (fun _ => True) (fun _ _ => True ∧ True) RollError.IsWant x

theorem wants_rolling {α : Type} (term : String) {allowed : DiceError → Prop} {x : Rolling α}
    (fails : x.FailsFor allowed) : Wants (rolling term x) := by
  refine leads_rolling fun s _ => ?_
  have outcome := fails s.roller trivial
  revert outcome
  rcases x.run.run s.roller with ⟨(e | f) | a, roller⟩
  · rintro - f ⟨⟩
  · rintro want f' ⟨⟩
    exact want
  · exact fun _ => ⟨trivial, trivial⟩

theorem wants_rollDice (t : Term) : Wants (rollDice t) := by
  unfold rollDice
  split
  · rename_i unrolled flavor
    exact leads_step (R := fun _ => True) (wants_rolling _ (unrolled.dice.fails_roll true))
      fun _ _ _ _ => ⟨trivial, trivial⟩
  · exact leads_pure fun _ _ => ⟨trivial, trivial⟩

theorem wants_rollAll (ts : List Term) : Wants (rollAll ts) := by
  induction ts with
  | nil => exact leads_pure fun _ _ => ⟨trivial, trivial⟩
  | cons t rest ih =>
      exact leads_step (wants_rollDice t) fun _ _ => leads_step ih fun _ _ =>
        leads_pure fun _ _ => ⟨trivial, trivial⟩

theorem wants_applyPool (modifiers : List Modifier) (results : List Die) :
    Wants (applyPool modifiers results) := by
  induction modifiers generalizing results with
  | nil => exact leads_pure fun _ _ => ⟨trivial, trivial⟩
  | cons m rest ih =>
      exact leads_step (wants_rolling _ (m.fails_apply results)) fun marked _ => ih marked

theorem wants_finish (ts : List Term) : Wants (finish ts) := by
  refine leads_step (leads_ofFormat fun e s _ f same => by cases same) fun ps _ => ?_
  refine leads_step (wants_rollAll _) fun ts' _ => ?_
  exact leads_step (leads_ofCalc fun e _ s _ f same => by cases same) fun _ _ =>
    leads_pure fun _ _ => ⟨trivial, trivial⟩

theorem stages_wants :
    Stages (fun _ => True) (fun _ => True) (fun _ => True) (fun _ => True) RollError.IsWant where
  other _ _ := trivial
  number _ _ := trivial
  call _ _ _ f same := by cases same
  pool _ _ := wants_applyPool _ _
  finish _ := wants_finish _

end Evaluation

/-- **Evaluating a formula never marks a die twice**, whatever its terms are. -/
theorem Roll.fault_evaluate {roll roll' : Roll} {roller roller' : Roller} {f : Fault}
    (failed : roll.evaluate roller = (.error (.fault f), roll', roller')) :
    f = .diceSpent ∧ roller'.supply = 0 := by
  have known : Term.Everywhere (fun us => ∀ t ∈ us, True) roll.terms :=
    Term.everywhere_of_forall (fun _ _ _ => trivial) roll.terms
  cases fresh : roll.evaluated with
  | true =>
      rw [evaluate, fresh] at failed
      cases failed
  | false =>
      obtain ⟨s, evaluates, -, rfl⟩ := evaluate_error fresh failed
      exact (Evaluation.stages_wants.evaluate known).error trivial evaluates f rfl

end DiceFormula
