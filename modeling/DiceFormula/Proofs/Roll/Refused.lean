/-
# DiceFormula.Proofs.Roll.Refused -- evaluations that are refused

An evaluation refuses dice for one reason only: a modifier of theirs that would never stop
(`evaluate_refused`).  Whether the dice stand in the formula or a fragment was merged to them, they
were read, and so there are not too many of them (`Term.Rollable`).

Pools never are the reason.  Their modifiers select and score, which can be done with any members
and takes no dice (`run_applyPool`).
-/
import DiceFormula.Proofs.Dice.Refused
import DiceFormula.Proofs.Roll.Complete
import DiceFormula.Proofs.Roll.Stages

namespace DiceFormula

set_option autoImplicit false

open Term

/-! ## Dice -/

/-- The dice of the term, if it has any, are such as are read. -/
def Term.Rollable : Term → Prop
  | dice rolled _ _ => rolled.dice.Admitted
  | _ => True

theorem Piece.lasting_rollable : Lasting Rollable := by
  refine ⟨fun leaf => ?_, fun _ _ _ => trivial⟩
  cases leaf with
  | number value flavor => trivial
  | dice admitted flavor => exact admitted

theorem Formula.rollable_read {formula : String} {ts : List Term} (ok : read formula = .ok ts) :
    Everywhere (fun us => ∀ t ∈ us, t.Rollable) ts := by
  refine all_read Piece.lasting_rollable (fun _ => trivial) (fun _ => trivial) ?_ ok
  intro E t bracketed
  cases bracketed <;> trivial

/-- If some dice were refused, then for a modifier that would never stop. -/
def RollError.Reasoned (e : RollError) : Prop :=
  ∀ term cause, e = .dice term cause →
    ∃ d : Dice, d.Admitted ∧ term = d.text ∧ ∃ m ∈ d.modifiers, m.Forever d.sides cause

namespace Evaluation

/-- The computation has the property of results, and fails for no dice without reason. -/
def Reasons {α : Type} (Q : α → Prop) (x : Evaluation α) : Prop :=
  Leads (fun _ => True) (fun a _ => True ∧ Q a) (fun e _ => e.Reasoned) x

theorem reasons_rollDice {t : Term} (rollable : t.Rollable) :
    Reasons (fun _ => True) (rollDice t) := by
  unfold rollDice
  split
  · rename_i unrolled flavor
    have admitted : unrolled.dice.Admitted := rollable
    refine leads_step (R := fun _ => True) (leads_rolling fun s _ => ?_) fun rolled _ => ?_
    · have fails := unrolled.dice.fails_roll true s.roller trivial
      revert fails
      rcases (unrolled.dice.roll true).run.run s.roller with ⟨(cause | f) | rolled, roller⟩
      · rintro refused _ _ ⟨⟩
        rcases refused with ⟨many, -⟩ | forever
        · exact absurd admitted.count (Nat.not_le.2 many)
        · exact ⟨unrolled.dice, admitted, rfl, forever⟩
      · rintro - _ _ ⟨⟩
      · exact fun _ => ⟨trivial, trivial⟩
    · exact fun _ _ => ⟨trivial, trivial⟩
  · exact leads_pure fun _ _ => ⟨trivial, trivial⟩

theorem reasons_rollAll {ts : List Term} (rollable : ∀ t ∈ ts, t.Rollable) :
    Reasons (fun _ => True) (rollAll ts) := by
  induction ts with
  | nil => exact leads_pure fun _ _ => ⟨trivial, trivial⟩
  | cons t rest ih =>
      obtain ⟨first, others⟩ := List.forall_mem_cons.1 rollable
      exact leads_step (reasons_rollDice first) fun _ _ => leads_step (ih others) fun _ _ =>
        leads_pure fun _ _ => ⟨trivial, trivial⟩

theorem reasons_finish {ts : List Term} (rollable : ∀ t ∈ ts, t.Rollable) :
    Reasons (fun _ => True) (finish ts) := by
  refine leads_step (leads_ofFormat fun e s _ _ _ same => by cases same) fun ps simplified => ?_
  have settled := Piece.settled_simplifyLate Piece.lasting_rollable (Piece.all_ofTerms rollable)
    simplified
  have rollable' : ∀ t ∈ Piece.terms ps, t.Rollable :=
    List.forall_mem_map.2 fun p mem => (settled p mem).1
  refine leads_step (reasons_rollAll rollable') fun ts' _ => ?_
  exact leads_step (leads_ofCalc fun e _ s _ _ _ same => by cases same) fun _ _ =>
    leads_pure fun _ _ => ⟨trivial, trivial⟩

/-! ## Pools -/

/-- **Modifiers that select and score are applied to any members**, and take nothing from the
session. -/
theorem run_applyPool {modifiers : List Modifier}
    (selective : ∀ m ∈ modifiers, m.isSelective = true) (results : List Die) (s : Session) :
    ∃ dice, (applyPool modifiers results).run.run s = (.ok dice, s) := by
  induction modifiers generalizing results with
  | nil => exact ⟨results, rfl⟩
  | cons m rest ih =>
      obtain ⟨first, others⟩ := List.forall_mem_cons.1 selective
      obtain ⟨marked, applied⟩ := Modifier.exists_apply first 0 results
      obtain ⟨dice, behind⟩ := ih others marked
      refine ⟨dice, ?_⟩
      rw [applyPool, run_bind, run_rolling, applied]
      exact behind

/-! ## Evaluations -/

theorem stages_reasons : Stages (fun t => t.Rollable ∧ Selective [t]) Rollable (fun _ => True)
    (fun _ => True) (fun e _ => e.Reasoned) where
  other _ own := own.1
  number _ _ := trivial
  call _ _ _ _ _ same := by cases same
  pool own _ := by
    intro s _
    obtain ⟨dice, scored⟩ := run_applyPool (own.2 _ _ _ _ _ List.mem_cons_self) _ s
    rw [scored]
    exact ⟨trivial, trivial⟩
  finish := reasons_finish

theorem selective_each {us : List Term} (selective : Selective us) : ∀ t ∈ us, Selective [t] := by
  intro t mem members modifiers results evaluated flavor member
  obtain rfl := List.mem_singleton.1 member
  exact selective _ _ _ _ _ mem

/-- Dice are refused only for a modifier that would never stop. -/
theorem reasons_evaluate {formula : String} {ts : List Term}
    (read : Formula.read formula = .ok ts) : Reasons (fun _ => True) (evaluate ts) := by
  have known := (Formula.rollable_read read).and (selective_read read)
  refine stages_reasons.evaluate (known.mono ?_)
  rintro us ⟨rollable, selective⟩ t mem
  exact ⟨rollable t mem, selective_each selective t mem⟩

end Evaluation

namespace Roll

open Evaluation

variable {formula : String} {roll roll' : Roll} {roller roller' : Roller}

theorem reasoned_evaluate {e : RollError} (read : Formula.read formula = .ok roll.terms)
    (failed : roll.evaluate roller = (.error e, roll', roller')) : e.Reasoned := by
  cases fresh : roll.evaluated with
  | true =>
      rw [evaluate, fresh] at failed
      cases failed
      rintro _ _ ⟨⟩
  | false =>
      obtain ⟨s, evaluates, -, -⟩ := evaluate_error fresh failed
      exact (reasons_evaluate read).error trivial evaluates

/-- **An evaluation refuses dice only for a modifier that would never stop.**  The modifiers of a
pool, wherever it stands in the formula, can be applied to any members, and take no dice. -/
theorem evaluate_refused (read : Formula.read formula = .ok roll.terms) :
    (∀ roller term cause roll' roller',
      roll.evaluate roller = (.error (.dice term cause), roll', roller') →
        ∃ d : Dice, d.Admitted ∧ term = d.text ∧ ∃ m ∈ d.modifiers, m.IsEndless d.sides ∧
          cause = .infiniteRolls m d.sides) ∧
      Everywhere (fun us => ∀ members modifiers old evaluated flavor,
        Term.pool members modifiers old evaluated flavor ∈ us → ∀ results s,
          ∃ dice, (applyPool modifiers results).run.run s = (.ok dice, s)) roll.terms := by
  refine ⟨fun roller term cause roll' roller' failed => ?_, (selective_read read).mono ?_⟩
  · obtain ⟨d, admitted, named, m, mem, forever⟩ := reasoned_evaluate read failed term cause rfl
    cases forever with
    | intro endless => exact ⟨d, admitted, named, m, mem, endless, rfl⟩
  · intro us selective members modifiers old evaluated flavor mem results s
    exact run_applyPool (selective _ _ _ _ _ mem) results s

/-- Dice in a pool that are merged when the formula is evaluated, and explode for ever. -/
theorem evaluate_refused_merged :
    ∃ (roll roll' : Roll) (roller' : Roller) (e : RollError),
      Formula.read "\x7b(1d2)d1x + 2, 3d6kh\x7dkhcs>2dl" = .ok roll.terms ∧
        roll.evaluate (.highest 9) = (.error e, roll', roller') ∧
          ∃ (d : Dice) (cause : DiceError), e = .dice d.text cause ∧ d.Admitted ∧
            ∃ m ∈ d.modifiers, m.IsEndless d.sides ∧ cause = .infiniteRolls m d.sides := by
  have fails : ∃ ts ∈ (Formula.read "\x7b(1d2)d1x + 2, 3d6kh\x7dkhcs>2dl").toOption,
      ((ofTerms ts).evaluate (.highest 9)).1 =
        .error (.dice "2d1x" (.infiniteRolls (.explode none true) 1)) := by decide +kernel
  obtain ⟨ts, read, failed⟩ := fails
  rcases outcome : (ofTerms ts).evaluate (.highest 9) with ⟨result, roll', roller'⟩
  rw [outcome] at failed
  obtain rfl : result = _ := failed
  have read : Formula.read _ = .ok (ofTerms ts).terms := eq_ok_of_toOption read
  obtain ⟨d, admitted, named, m, mem, endless, cause⟩ :=
    (evaluate_refused read).1 _ _ _ _ _ outcome
  exact ⟨ofTerms ts, roll', roller', _, read, outcome, d, _, by rw [← named], admitted, m, mem,
    endless, cause⟩

end Roll

end DiceFormula
