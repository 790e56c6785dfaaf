/-
# DiceFormula.Proofs.Roll.Scored -- how the dice of an outcome are scored

Whatever every roll of dice satisfies, everything that an evaluation logs does (`stepwise_logs`).
So the dice of an outcome are scored as those of a roll are: by the condition of the outcome,
unless a modifier that is written behind it touched them; and a die that is rerolled is replaced by
one that is scored by the condition too (`rerolled_scored`).

Modifiers behind the condition do touch dice: a later `cf` makes a failure of a die that meets the
condition (`scored_failure`).
-/
import DiceFormula.Proofs.Dice.Scored
import DiceFormula.Proofs.Roll.Drawn
import DiceFormula.Proofs.Roll.Rerolls

namespace DiceFormula

set_option autoImplicit false

namespace Evaluation

/-! ## What is logged -/

/-- The computation keeps a property of everything that is logged. -/
def Logs {α : Type} (P : Rolled → Prop) (x : Evaluation α) : Prop :=
  ∀ s : Session, (∀ rolled ∈ s.log, P rolled) → ∀ rolled ∈ (x.run.run s).2.log, P rolled

section Logs

variable {α β : Type} {P : Rolled → Prop}

theorem logs_still {x : Evaluation α} (still : ∀ s, (x.run.run s).2.log = s.log) : Logs P x := by
  intro s all
  rwa [still]

theorem logs_pure (a : α) : Logs P (pure a) := logs_still fun _ => rfl

theorem logs_bind {x : Evaluation α} {k : α → Evaluation β} (first : Logs P x)
    (rest : ∀ a, Logs P (k a)) : Logs P (x >>= k) := by
  intro s all
  have logged := first s all
  rw [run_bind]
  revert logged
  rcases x.run.run s with ⟨e | a, s'⟩
  · exact id
  · exact rest a s'

variable (rolls : ∀ (d : Dice) (r : Roller) (rolled : Rolled),
  ((d.roll true).run.run r).1 = .ok rolled → P rolled)

include rolls

theorem logs_rollDice (t : Term) : Logs P (rollDice t) := by
  unfold rollDice
  split
  · rename_i unrolled flavor
    intro s all
    rw [run_bind, run_rolling]
    rcases outcome : (unrolled.dice.roll true).run.run s.roller with ⟨(e | f) | rolled, roller⟩
    · exact all
    · exact all
    · refine List.forall_mem_append.2 ⟨all, List.forall_mem_singleton.2 ?_⟩
      exact rolls unrolled.dice s.roller rolled (by rw [outcome])
  · exact logs_pure _

/-- **What every roll of dice satisfies, everything in the log of an evaluation does.** -/
theorem stepwise_logs : Stepwise fun x => Logs P x where
  value := logs_pure
  failure _ := logs_still fun _ => rfl
  sequence := logs_bind
  dice := logs_rollDice rolls
  marks term x := logs_still fun s => by rw [run_rolling]

end Logs

end Evaluation

namespace RollOutcome

/-! ## Outcomes -/

variable {formula label : String} {baseline : Nat} {roll roll' : Roll} {roller roller' : Roller}
variable {total : Float} {o : RollOutcome}

/-- The dice of an evaluated roll are scored by the conditions that count successes. -/
theorem scored_evaluate (read : Formula.read formula = .ok roll.terms)
    (ok : roll.evaluate roller = (.ok total, roll', roller')) :
    ∀ rolled ∈ roll'.dice, rolled.Scored := by
  obtain ⟨ts, s, evaluates, rfl, -⟩ := Roll.evaluate_ok ok
  have steps := Evaluation.stepwise_logs fun _ _ _ => Dice.scored_roll
  have logged := steps.evaluate read ⟨roller, []⟩ (List.forall_mem_nil _)
  rwa [evaluates] at logged

/-- If the dice of an outcome are judged by its condition, a new one is as well. -/
theorem judged_rerolled {calls : List (Nat × Roller)} {d : Die}
    (judged : d ∈ o.dice → d.Judged o.condition) (mem : d ∈ (o.rerolled calls).dice) :
    d.Judged o.condition := by
  rcases o.rerolled_cases calls with ⟨-, same⟩ | ⟨a, -, old, face, -, kept, -, amended⟩
  · rw [same] at mem
    exact judged mem
  · rw [amended] at mem
    rcases mem_amend kept mem with mem | rfl | rfl
    · exact judged mem
    · exact fun kept => by cases kept
    · exact fun _ => rfl

theorem condition_rerolled (o : RollOutcome) (calls : List (Nat × Roller)) :
    (o.rerolled calls).condition = o.condition := by
  rw [o.rerolled_eq calls]

/-- A die that a reroll puts in is judged by the condition of the outcome. -/
theorem judged_answers (o : RollOutcome) (calls : List (Nat × Roller)) :
    ∀ a ∈ o.answers calls, ∀ old new, a.result = .ok (.applied old new) →
      new.success = some (o.condition.check new.value) := by
  induction calls generalizing o with
  | nil => exact List.forall_mem_nil _
  | cons call rest ih =>
      rw [answers]
      split
      · exact List.forall_mem_nil _
      · rename_i a answered
        refine List.forall_mem_cons.2 ⟨fun old new result => ?_, fun b mem => ?_⟩
        · cases of_answer? answered <;> cases result
          rfl
        · have same : a.after.condition = o.condition := by
            cases of_answer? answered <;> rfl
          rw [← same]
          exact ih a.after b mem

/-- **The dice of an outcome are scored by its condition, and so is the die that comes in the place
of a rerolled one.**  The condition is that of the first modifier of the dice that counts successes,
and modifiers are applied in the order written; so this is said of dice that no modifier behind it
touched.  If that is true of all, the number of successes is that of the kept dice which meet the
condition. -/
theorem rerolled_scored (read : Formula.read formula = .ok roll.terms)
    (ok : roll.evaluate roller = (.ok total, roll', roller'))
    (made : ofRoll label baseline roll' = .ok o) (calls : List (Nat × Roller)) :
    (o.rerolled calls).condition = o.condition ∧
      (∀ a ∈ o.answers calls, ∀ old new, a.result = .ok (.applied old new) →
        new.success = some (o.condition.check new.value)) ∧
      ∃ rolled ∈ roll'.dice, o.dice = rolled.rolls ∧
        (∃ earlier later, rolled.dice.modifiers = earlier ++ .countSuccess o.condition :: later ∧
          ∀ c, .countSuccess c ∉ earlier) ∧
        ∀ earlier later, rolled.dice.modifiers = earlier ++ .countSuccess o.condition :: later →
          (∀ d ∈ (o.rerolled calls).dice, d.isKept = true →
            (d ∈ o.dice → ∀ m ∈ later, m.Spares o.condition d) →
              d.success = some (o.condition.check d.value)) ∧
          ((∀ d ∈ o.dice, d.isKept = true → ∀ m ∈ later, m.Spares o.condition d) →
            o.dice.countP Die.isKept ≤ Limit.mostCount →
              (o.rerolled calls).successCount = (o.rerolled calls).dice.countP fun d =>
                d.isKept && o.condition.check d.value) := by
  obtain ⟨rolled, before, behind, dice, -, counts, whole⟩ := ofRoll_ok made
  have mem : rolled ∈ roll'.dice := by simp [dice]
  have same : o.dice = rolled.rolls := congrArg RollOutcome.dice whole
  refine ⟨o.condition_rerolled calls, o.judged_answers calls, rolled, mem, same,
    Dice.exists_counting counts, fun earlier later written => ?_⟩
  have judged : ∀ d ∈ o.dice, (∀ m ∈ later, m.Spares o.condition d) → d.Judged o.condition := by
    rw [same]
    exact scored_evaluate read ok rolled mem o.condition earlier later written
  constructor
  · intro d member kept spared
    exact judged_rerolled (fun there => judged d there (spared there)) member kept
  · intro spared few
    have counts := exact_rerolled (counts_ofRoll made) few calls
    refine counts.trans (Die.countP_isSuccess fun d member => ?_)
    exact judged_rerolled (fun there kept => judged d there (spared d there kept) kept) member

/-- A value that is raised, and a failure that fails the condition as well. -/
theorem rerolled_scored_raised :
    ∃ (roll roll' : Roll) (roller' : Roller) (total : Float) (o : RollOutcome),
      Formula.read "3d6cs<=4min2cf=6" = .ok roll.terms ∧
        roll.evaluate (.tape [1, 3, 6]) = (.ok total, roll', roller') ∧
        ofRoll "Luck" 3 roll' = .ok o ∧
        o.dice.map Die.view = [⟨2, true, some true⟩, ⟨3, true, some true⟩, ⟨6, true, some false⟩] ∧
        (o.rerolled [(2, .tape [4])]).dice.map Die.view =
          [⟨2, true, some true⟩, ⟨3, true, some true⟩, ⟨6, false, some false⟩,
            ⟨4, true, some true⟩] ∧
        (o.rerolled [(2, .tape [4])]).condition = ⟨.atMost, 4⟩ ∧
        (∀ d ∈ (o.rerolled [(2, .tape [4])]).dice, d.isKept = true →
          d.success = some (o.condition.check d.value)) ∧
        (o.rerolled [(2, .tape [4])]).successCount =
          (o.rerolled [(2, .tape [4])]).dice.countP fun d =>
            d.isKept && o.condition.check d.value := by
  have comes : ∃ ts ∈ (Formula.read "3d6cs<=4min2cf=6").toOption,
      ((Roll.ofTerms ts).evaluate (.tape [1, 3, 6])).1.toOption.isSome = true ∧
        ∃ o ∈ (ofRoll "Luck" 3 ((Roll.ofTerms ts).evaluate (.tape [1, 3, 6])).2.1).toOption,
          o.dice.map Die.view =
            [⟨2, true, some true⟩, ⟨3, true, some true⟩, ⟨6, true, some false⟩] ∧
          (o.rerolled [(2, .tape [4])]).dice.map Die.view =
            [⟨2, true, some true⟩, ⟨3, true, some true⟩, ⟨6, false, some false⟩,
              ⟨4, true, some true⟩] ∧
          o.condition = ⟨.atMost, 4⟩ ∧
          (∀ rolled ∈ ((Roll.ofTerms ts).evaluate (.tape [1, 3, 6])).2.1.dice,
            rolled.dice.modifiers =
              [.countSuccess ⟨.atMost, 4⟩, .raise 2, .countFailure ⟨.equal, 6⟩]) ∧
          (∀ d ∈ o.dice, ∀ m ∈ [Modifier.raise 2, .countFailure ⟨.equal, 6⟩],
            m.Spares o.condition d) ∧
          o.dice.countP Die.isKept ≤ Limit.mostCount := by
    decide +kernel
  obtain ⟨ts, read, ends, o, made, before, after, condition, written, spared, few⟩ := comes
  obtain ⟨total, outcome⟩ := ok_of_isSome ends
  have read : Formula.read "3d6cs<=4min2cf=6" = .ok (Roll.ofTerms ts).terms :=
    eq_ok_of_toOption read
  have made := eq_ok_of_toOption made
  obtain ⟨same, -, rolled, mem, -, -, scored⟩ := rerolled_scored read outcome made [(2, .tape [4])]
  have split := written rolled mem
  rw [← condition] at split
  obtain ⟨each, count⟩ := scored [] _ split
  exact ⟨Roll.ofTerms ts, _, _, total, o, read, outcome, made, before, after,
    same.trans condition, fun d member kept => each d member kept fun there => spared d there,
    count (fun d there _ => spared d there) few⟩

/-- A die that meets the condition, and that a later modifier counts as a failure. -/
theorem scored_failure :
    ∃ (roll roll' : Roll) (roller' : Roller) (total : Float) (o : RollOutcome),
      Roll.parse "2d6cs<=3cf=1" = .ok roll ∧
        roll.evaluate (.tape [1, 2]) = (.ok total, roll', roller') ∧
        ofRoll "Luck" 1 roll' = .ok o ∧
        (∃ d ∈ o.dice, d.isKept = true ∧ d.success ≠ some (o.condition.check d.value)) ∧
        o.successCount ≠ o.dice.countP fun d => d.isKept && o.condition.check d.value := by
  have comes : ∃ roll ∈ (Roll.parse "2d6cs<=3cf=1").toOption,
      (roll.evaluate (.tape [1, 2])).1.toOption.isSome = true ∧
        ∃ o ∈ (ofRoll "Luck" 1 (roll.evaluate (.tape [1, 2])).2.1).toOption,
          (∃ d ∈ o.dice, d.isKept = true ∧ d.success ≠ some (o.condition.check d.value)) ∧
          o.successCount ≠ o.dice.countP fun d => d.isKept && o.condition.check d.value := by
    decide +kernel
  obtain ⟨roll, parsed, ends, o, made, marked, counted⟩ := comes
  obtain ⟨total, outcome⟩ := ok_of_isSome ends
  exact ⟨roll, _, _, total, o, eq_ok_of_toOption parsed, outcome, eq_ok_of_toOption made, marked,
    counted⟩

end RollOutcome

end DiceFormula
