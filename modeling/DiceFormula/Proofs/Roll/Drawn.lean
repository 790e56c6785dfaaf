/-
# DiceFormula.Proofs.Roll.Drawn -- the log of an evaluation

An evaluation logs what it rolls.  Every step of it `Keeps` the account: what it adds to the log
tells of the dice that it drew, in the order in which it drew them.  Only a roll that fails is not
logged, and its dice are lost (`Loses`); whatever else goes wrong, the log is complete.

So an evaluation that succeeds tells of all dice in order (`evaluate_tells`), and one that fails
of all but those of the roll that failed (`evaluate_failed`).
-/
import DiceFormula.Proofs.Context
import DiceFormula.Proofs.Roll.Stepwise

namespace DiceFormula

set_option autoImplicit false

/-- The dice that were drawn for rolls, in order. -/
def Rolled.throwsAll (log : List Rolled) : List Throw := log.flatMap throws

theorem Rolled.throwsAll_append (log rolled : List Rolled) :
    throwsAll (log ++ rolled) = throwsAll log ++ throwsAll rolled := List.flatMap_append

namespace Evaluation

/-! ## The account -/

/-- The dice that were drawn but not logged when a computation came to a result: none, or those
of the roll that failed. -/
inductive Loses {α : Type} : Except RollError α → List Throw → Prop
  | nothing (result : Except RollError α) : Loses result []
  | roll (d : Dice) (cause : DiceError) {lost : List Throw}
      (own : ∀ throw ∈ lost, throw.sides = d.sides) : Loses (.error (.dice d.text cause)) lost
  | fault (f : Fault) (lost : List Throw) : Loses (.error (.fault f)) lost

theorem Loses.error {α β : Type} {e : RollError} {lost : List Throw}
    (loses : Loses (.error e : Except RollError α) lost) :
    Loses (.error e : Except RollError β) lost := by
  cases loses with
  | nothing => exact .nothing _
  | roll d cause own => exact .roll d cause own
  | fault f lost => exact .fault f lost

/-- The computation logs the dice that it draws, but for those of a roll that fails. -/
def Keeps {α : Type} (x : Evaluation α) : Prop :=
  ∀ s : Session, ∃ rolled lost, (x.run.run s).2.log = s.log ++ rolled ∧
    s.roller.Draws (Rolled.throwsAll rolled ++ lost) (x.run.run s).2.roller ∧
    Loses (x.run.run s).1 lost

section Keeps

variable {α β : Type}

/-- A computation that leaves the session as it is. -/
theorem keeps_still {x : Evaluation α} (still : ∀ s, (x.run.run s).2 = s) : Keeps x := by
  refine fun s => ⟨[], [], ?_, ?_, .nothing _⟩
  · rw [still, List.append_nil]
  · rw [still]
    exact .nothing s.roller

theorem keeps_pure (a : α) : Keeps (pure a) := keeps_still fun _ => rfl

theorem keeps_throw (e : RollError) : Keeps (throw e : Evaluation α) := keeps_still fun _ => rfl

theorem keeps_bind {x : Evaluation α} {k : α → Evaluation β} (first : Keeps x)
    (rest : ∀ a, Keeps (k a)) : Keeps (x >>= k) := by
  intro s
  obtain ⟨rolled, lost, logged, draws, loses⟩ := first s
  rw [run_bind]
  revert logged draws loses
  rcases x.run.run s with ⟨result, s'⟩
  intro logged draws loses
  cases result with
  | error e => exact ⟨rolled, lost, logged, draws, loses.error⟩
  | ok a =>
      cases loses
      obtain ⟨rolled', lost', logged', draws', loses'⟩ := rest a s'
      refine ⟨rolled ++ rolled', lost', ?_, ?_, loses'⟩
      · rw [logged', logged, List.append_assoc]
      · rw [List.append_nil] at draws
        rw [Rolled.throwsAll_append, List.append_assoc]
        exact draws.trans draws'

end Keeps

/-! ## Dice -/

/-- Rolling on behalf of a term. -/
theorem run_rolling {α : Type} (term : String) (x : Rolling α) (s : Session) :
    (rolling term x).run.run s =
      (match (x.run.run s.roller).1 with
        | .ok a => .ok a
        | .error (.error e) => .error (.dice term e)
        | .error (.fault f) => .error (.fault f),
      { s with roller := (x.run.run s.roller).2 }) := by
  have got : (get : Evaluation Session).run.run s = (.ok s, s) := rfl
  rw [rolling, run_bind, got]
  dsimp only
  rcases x.run.run s.roller with ⟨(e | f) | a, roller⟩ <;> rfl

/-- Dice of a term are logged once they are rolled. -/
theorem keeps_rollDice (t : Term) : Keeps (rollDice t) := by
  unfold rollDice
  split
  · rename_i unrolled flavor
    intro s
    obtain ⟨throws, draws, own, tells⟩ := unrolled.dice.draws_roll true s.roller
    rw [run_bind, run_rolling]
    revert draws tells
    rcases (unrolled.dice.roll true).run.run s.roller with ⟨(e | f) | rolled, roller⟩
    · exact fun draws _ => ⟨[], throws, (List.append_nil _).symm, draws, .roll _ e own⟩
    · exact fun draws _ => ⟨[], throws, (List.append_nil _).symm, draws, .fault f throws⟩
    · intro draws tells
      refine ⟨[rolled], [], rfl, ?_, .nothing _⟩
      rw [Rolled.throwsAll, List.flatMap_singleton, tells rolled rfl, List.append_nil]
      exact draws
  · exact keeps_pure _

/-! ## Evaluations -/

theorem stepwise_keeps : Stepwise @Keeps where
  value := keeps_pure
  failure := keeps_throw
  sequence := keeps_bind
  dice := keeps_rollDice
  marks term x := keeps_still fun s => by
    rw [run_rolling]
    cases x <;> rfl

/-- **Whatever comes of the evaluation of a formula that was read, its log tells of the dice
that were drawn**, but for those of a roll that failed. -/
theorem keeps_evaluate {formula : String} {ts : List Term} (read : Formula.read formula = .ok ts) :
    Keeps (evaluate ts) :=
  stepwise_keeps.evaluate read

end Evaluation

/-! ## Rolls -/

namespace Roll

open Evaluation

/-- The dice that were drawn for a roll, in order. -/
def throws (r : Roll) : List Throw := Rolled.throwsAll r.dice

/-- The faces that the dice of a roll fell with, in order. -/
def faces (r : Roll) : List Int := r.dice.flatMap fun rolled => Die.drawnAll rolled.rolls

theorem faces_eq (r : Roll) : r.faces = r.throws.map Throw.face := by
  simp [faces, throws, Rolled.throwsAll, Rolled.throws, List.map_flatMap, Function.comp_def]

variable {formula : String} {roll roll' : Roll} {roller roller' : Roller}

/-- A formula is parsed to a roll that is still to be evaluated. -/
theorem parse_ok (parsed : parse formula = .ok roll) :
    Formula.read formula = .ok roll.terms ∧ roll.total = none ∧ roll.evaluated = false := by
  unfold parse at parsed
  split at parsed
  · cases parsed
  · cases read : Formula.read formula with
    | error e => rw [read] at parsed; cases parsed
    | ok ts =>
        rw [read] at parsed
        cases parsed
        exact ⟨rfl, rfl, rfl⟩

/-- A roll that is made of a formula has its data. -/
theorem ofFormula_ok {options : RollOptions} {data : Context}
    (made : ofFormula options data formula = .ok roll) :
    Formula.read (data.substitute options.missingData formula).formula = .ok roll.terms ∧
      roll.data = data := by
  obtain ⟨roll, parsed, rfl⟩ := ok_of_map made
  exact ⟨(parse_ok parsed).1, rfl⟩

/-- A formula without references is read as it is. -/
theorem ofFormula_plain (options : RollOptions) (data : Context)
    (visible : Text.allBlank formula.toList = false) (plain : '@' ∉ formula.toList) :
    ofFormula options data formula = (Formula.read formula).map fun terms =>
      { ofTerms terms with formula := formula, data := data } := by
  have substituted : data.substitute options.missingData formula = ⟨formula.toList, []⟩ :=
    data.substituteFrom_plain options.missingData plain
  rw [ofFormula, substituted, Substituted.formula, String.ofList_toList, parse,
    if_neg (by simp [visible])]
  cases Formula.read formula <;> rfl

/-- What becomes of a roll that is evaluated. -/
theorem evaluate_ok {total : Float} (ok : roll.evaluate roller = (.ok total, roll', roller')) :
    ∃ ts s, (Evaluation.evaluate roll.terms).run.run ⟨roller, []⟩ = (.ok (ts, total), s) ∧
      roll' = { roll with terms := ts, dice := s.log, total := some total, evaluated := true } ∧
        roller' = s.roller := by
  unfold evaluate at ok
  split at ok
  · cases ok
  · split at ok
    · rename_i ts total' s evaluates
      cases ok
      exact ⟨ts, s, evaluates, rfl, rfl⟩
    · cases ok

/-- What becomes of a roll that cannot be evaluated, unless it was before. -/
theorem evaluate_error {e : RollError} (fresh : roll.evaluated = false)
    (failed : roll.evaluate roller = (.error e, roll', roller')) :
    ∃ s, (Evaluation.evaluate roll.terms).run.run ⟨roller, []⟩ = (.error e, s) ∧
      roll' = { roll with dice := s.log } ∧ roller' = s.roller := by
  unfold evaluate at failed
  split at failed
  · rename_i again
    rw [fresh] at again
    cases again
  · split at failed
    · cases failed
    · rename_i e' s evaluates
      cases failed
      exact ⟨s, evaluates, rfl, rfl⟩

/-- **No die is lost, duplicated or reordered.**  The faces that the dice of an evaluated roll
fell with are those that its roller showed, one after the other; if it showed a tape, they are
the part of the tape that was used up. -/
theorem evaluate_tells {total : Float} (read : Formula.read formula = .ok roll.terms)
    (ok : roll.evaluate roller = (.ok total, roll', roller')) :
    roller.Draws roll'.throws roller' ∧
      ∀ tape, roller = .tape tape → roll'.faces = tape.take roller'.drawn := by
  obtain ⟨ts, s, evaluates, told, reached⟩ := evaluate_ok ok
  have draws : roller.Draws roll'.throws roller' := by
    obtain ⟨rolled, lost, logged, draws, loses⟩ := keeps_evaluate read ⟨roller, []⟩
    rw [evaluates] at logged draws loses
    cases loses
    rw [List.nil_append] at logged
    rw [List.append_nil] at draws
    rwa [throws, told, reached, logged]
  refine ⟨draws, fun tape shown => ?_⟩
  obtain ⟨supplied, faced, rfl⟩ := draws
  rw [shown] at supplied faced ⊢
  rw [faces_eq, faced, Roller.upcoming_tape (by rwa [List.length_map]), List.length_map]
  exact congrArg tape.take (Nat.zero_add _).symm

/-- A group that counts dice which explode and are raised, and a pool with dice that are
rerolled. -/
theorem evaluate_tells_nested :
    ∃ (roll roll' : Roll) (roller' : Roller) (total : Float),
      Formula.read "(1d2)d6xmin2 + \x7b1d4, 2d6rr<=2\x7dcs>3" = .ok roll.terms ∧
        roll.evaluate (.tape [2, 3, 1, 5, 2, 6, 6, 1, 4, 9]) = (.ok total, roll', roller') ∧
        roller'.drawn = 9 ∧ roll'.faces = [2, 3, 1, 5, 2, 6, 6, 1, 4] := by
  have comes : ∃ ts ∈ (Formula.read "(1d2)d6xmin2 + \x7b1d4, 2d6rr<=2\x7dcs>3").toOption,
      ((ofTerms ts).evaluate (.tape [2, 3, 1, 5, 2, 6, 6, 1, 4, 9])).1.toOption.isSome = true ∧
        ((ofTerms ts).evaluate (.tape [2, 3, 1, 5, 2, 6, 6, 1, 4, 9])).2.2.drawn = 9 := by
    decide +kernel
  obtain ⟨ts, read, ends, drawn⟩ := comes
  rcases outcome : (ofTerms ts).evaluate (.tape [2, 3, 1, 5, 2, 6, 6, 1, 4, 9]) with
    ⟨e | total, roll', roller'⟩
  · rw [outcome] at ends
    cases ends
  · rw [outcome] at drawn
    have drawn : roller'.drawn = 9 := drawn
    refine ⟨ofTerms ts, roll', roller', total, eq_ok_of_toOption read, outcome, drawn, ?_⟩
    rw [(evaluate_tells (eq_ok_of_toOption read) outcome).2 _ rfl, drawn]
    rfl

/-- **A failed evaluation has no total, and its roll is as it was but for the dice.**  These
are all that were drawn, in order, unless it was a roll of dice that failed: then the dice of
that one roll are missing. -/
theorem evaluate_failed {e : RollError} (parsed : parse formula = .ok roll)
    (failed : roll.evaluate roller = (.error e, roll', roller')) :
    roll'.total = none ∧ roll'.evaluated = false ∧ roll'.terms = roll.terms ∧
      ∃ lost, roller.Draws (roll'.throws ++ lost) roller' ∧
        (lost = [] ∨ (∃ f, e = .fault f) ∨
          ∃ d cause, e = .dice (Dice.text d) cause ∧ ∀ throw ∈ lost, throw.sides = d.sides) := by
  obtain ⟨read, unfinished, fresh⟩ := parse_ok parsed
  obtain ⟨s, evaluates, rfl, rfl⟩ := evaluate_error fresh failed
  obtain ⟨rolled, lost, logged, draws, loses⟩ := keeps_evaluate read ⟨roller, []⟩
  rw [evaluates] at logged draws loses
  rw [List.nil_append] at logged
  refine ⟨unfinished, fresh, rfl, lost, ?_, ?_⟩
  · rwa [throws, logged]
  · cases loses with
    | nothing => exact .inl rfl
    | fault f => exact .inr (.inl ⟨f, rfl⟩)
    | roll d cause own => exact .inr (.inr ⟨d, cause, rfl, own⟩)

/-- The first dice are kept, and the second refuse to be rolled for ever. -/
theorem evaluate_failed_second :
    ∃ (roll roll' : Roll) (roller' : Roller) (e : RollError), parse "1d8 + 2d6rr<=6" = .ok roll ∧
      roll.evaluate (.tape [7, 3, 4]) = (.error e, roll', roller') ∧
        roll'.total = none ∧ roll'.evaluated = false ∧ roll'.faces = [7] := by
  have fails : ∃ roll ∈ (parse "1d8 + 2d6rr<=6").toOption,
      (roll.evaluate (.tape [7, 3, 4])).1.toOption = none ∧
        (roll.evaluate (.tape [7, 3, 4])).2.1.faces = [7] := by decide +kernel
  obtain ⟨roll, parsed, ends, told⟩ := fails
  rcases outcome : roll.evaluate (.tape [7, 3, 4]) with ⟨e | total, roll', roller'⟩
  · rw [outcome] at told
    obtain ⟨unfinished, unevaluated, -, -⟩ := evaluate_failed (eq_ok_of_toOption parsed) outcome
    exact ⟨roll, roll', roller', e, eq_ok_of_toOption parsed, outcome, unfinished, unevaluated, told⟩
  · rw [outcome] at ends
    cases ends

/-- Dice that refuse to be rerolled for ever were rolled once, and no die of the roll tells. -/
theorem evaluate_loses_dice :
    ∃ (roll roll' : Roll) (roller' : Roller) (e : RollError), parse "2d6rr<=6" = .ok roll ∧
      roll.evaluate (.tape [3, 4]) = (.error e, roll', roller') ∧
        (∀ f, e ≠ .fault f) ∧ roller'.drawn = 2 ∧ roll'.dice = [] := by
  have fails : ∃ roll ∈ (parse "2d6rr<=6").toOption,
      (roll.evaluate (.tape [3, 4])).1 =
          .error (.dice "2d6rr<=6" (.infiniteRolls (.reroll ⟨.atMost, 6⟩ true) 6)) ∧
        (roll.evaluate (.tape [3, 4])).2.2.drawn = 2 ∧
          (roll.evaluate (.tape [3, 4])).2.1.dice = [] := by decide +kernel
  obtain ⟨roll, parsed, fails, drawn, told⟩ := fails
  rcases outcome : roll.evaluate (.tape [3, 4]) with ⟨result, roll', roller'⟩
  rw [outcome] at fails drawn told
  obtain rfl : result = _ := fails
  refine ⟨roll, roll', roller', _, eq_ok_of_toOption parsed, outcome, fun f fault => ?_, drawn, told⟩
  cases fault

end Roll

end DiceFormula
