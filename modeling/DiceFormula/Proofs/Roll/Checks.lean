/-
# DiceFormula.Proofs.Roll.Checks -- checks, from their formula to their last reroll

The formula of a check is the text of dice alone (`formula_eq`), which draws its dice and scores
each of them.  So a check comes to an outcome whose dice are judged by its difficulty, and stays
such an outcome however it is rerolled (`Stands`, `stands_rerolled`).  A check with too many dice
is refused before any is drawn.
-/
import DiceFormula.Proofs.Roll.Scored

namespace DiceFormula

set_option autoImplicit false

/-! ## Formulas of dice -/

namespace Roll

variable {d : Dice} (options : RollOptions) (data : Context)

theorem ofFormula_eq (writable : ∀ m ∈ d.modifiers, m.Writable) :
    ofFormula options data d.text = (Formula.read d.text).map fun terms =>
      { ofTerms terms with formula := d.text, data := data } := by
  have plain : '@' ∉ d.text.toList := fun mem => by cases isBody_dice writable '@' mem
  exact ofFormula_plain options data (Formula.visible_dice writable) plain

end Roll

/-! ## Checks -/

namespace Check

/-- The number of dice that the check rolls. -/
def adjusted (c : Check) : Nat := c.advantage.adjust c.dice

/-- What makes a die of the check a success. -/
def condition (c : Check) : Condition := ⟨.atMost, c.difficulty⟩

/-- The dice of the check. -/
def asDice (c : Check) : Dice := ⟨c.adjusted, sides, [.countSuccess c.condition]⟩

/-- Whether a kept die is at or under the difficulty. -/
def meets (c : Check) (d : Die) : Bool := d.isKept && decide (d.value ≤ c.difficulty)

/-- An outcome of the check, as it was presented or amended. -/
structure Stands (c : Check) (o : RollOutcome) : Prop where
  kept : o.dice.countP Die.isKept = c.adjusted
  judged : ∀ d ∈ o.dice, d.isKept = true → d.success = some (decide (d.value ≤ c.difficulty))
  counted : o.successCount = o.dice.countP c.meets
  amended : o.state = .amended ↔ o.dice.countP Die.isDropped = 1
  passed : o.passed = true ↔ c.dice ≤ o.dice.countP c.meets

variable {c : Check} {roller : Roller}

/-- The formula of a check is the text of its dice. -/
theorem formula_eq (c : Check) : c.formula = c.asDice.text := by
  have modifiers : Modifier.textAll [.countSuccess c.condition] =
      "cs<=" ++ toString c.difficulty := by
    rw [Modifier.textAll, List.map_singleton]
    rfl
  rw [formula, Dice.text, asDice]
  dsimp only
  rw [modifiers, adjusted, ← String.append_assoc]

theorem writable_modifiers (fits : c.difficulty ≤ Limit.mostCount) :
    ∀ m ∈ c.asDice.modifiers, m.Writable := by
  refine List.forall_mem_singleton.2 ⟨Int.natCast_nonneg _, ?_⟩
  have most : (Limit.mostCount : Int) ≤ Limit.mostValue := by decide
  exact (Int.ofNat_le.2 fits).trans most

/-- The dice of the check as they fall and are scored. -/
def scored (c : Check) (roller : Roller) : List Die :=
  Die.scoreAll c.condition ((roller.upcoming (.replicate c.adjusted sides)).map Die.fresh)

theorem run_roll (within : c.adjusted ≤ Dice.maxCount) (supplied : c.adjusted ≤ roller.supply) :
    (c.asDice.roll true).run.run roller =
      (.ok ⟨c.scored roller, c.asDice⟩, roller.after c.adjusted) :=
  Dice.run_roll within supplied

/-- What the check comes to. -/
def outcome (c : Check) (roller : Roller) : RollOutcome :=
  ⟨c.label, c.difficulty, c.dice, sides, c.condition, c.scored roller,
    Die.successes (c.scored roller), .presented⟩

theorem writable_asDice (fits : c.difficulty ≤ Limit.mostCount)
    (within : c.adjusted ≤ Dice.maxCount) : c.asDice.Writable :=
  ⟨within, (by decide : 1 ≤ sides ∧ sides ≤ Limit.mostCount), writable_modifiers fits⟩

/-- A check is rolled if its dice are not too many and the roller has enough. -/
theorem roll_ok (fits : c.difficulty ≤ Limit.mostCount) (within : c.adjusted ≤ Dice.maxCount)
    (supplied : c.adjusted ≤ roller.supply) :
    c.roll roller = (.ok (c.outcome roller), roller.after c.adjusted) := by
  have rolled : (⟨c.scored roller, c.asDice⟩ : Rolled).total =
      .ok (Die.successes (c.scored roller)) := rfl
  obtain ⟨total, -, evaluates⟩ :=
    Evaluation.run_alone_total (s := ⟨roller, []⟩) (run_roll within supplied) rolled
  rw [Check.roll, formula_eq, Roll.ofFormula_eq .default .empty (writable_modifiers fits),
    Formula.read_dice (writable_asDice fits within)]
  dsimp only [Except.map]
  rw [Roll.evaluate, if_neg (by simp [Roll.ofTerms])]
  dsimp only [Roll.ofTerms]
  rw [Evaluation.evaluate_alone, evaluates]
  rfl

/-- A check with too many dice is refused before any is drawn. -/
theorem roll_many (fits : c.difficulty ≤ Limit.mostCount) (many : Dice.maxCount < c.adjusted)
    (roller : Roller) : ∃ e, c.roll roller = (.error (.format e), roller) := by
  obtain ⟨e, refused⟩ := Formula.read_many (d := c.asDice) (writable_modifiers fits) many
  refine ⟨e, ?_⟩
  rw [Check.roll, formula_eq, Roll.ofFormula_eq .default .empty (writable_modifiers fits), refused]
  rfl

/-! ## Outcomes of checks -/

theorem isKept_scored (c : Check) (roller : Roller) : ∀ d ∈ c.scored roller, d.isKept = true := by
  intro d mem
  obtain ⟨fresh, member, rfl⟩ := List.mem_map.1 mem
  obtain ⟨face, -, rfl⟩ := List.mem_map.1 member
  rfl

theorem length_scored (c : Check) (roller : Roller) : (c.scored roller).length = c.adjusted := by
  rw [scored, Die.scoreAll, List.length_map, List.length_map, Roller.length_upcoming,
    List.length_replicate]

theorem countP_isKept_scored (c : Check) (roller : Roller) :
    (c.scored roller).countP Die.isKept = c.adjusted :=
  (List.countP_eq_length.2 (c.isKept_scored roller)).trans (c.length_scored roller)

theorem countP_isDropped_scored (c : Check) (roller : Roller) :
    (c.scored roller).countP Die.isDropped = 0 := by
  refine List.countP_eq_zero.2 fun d mem => ?_
  simp [Die.isDropped_eq, c.isKept_scored roller d mem]

/-- The outcome of a check is such an outcome however it is rerolled. -/
theorem stands_rerolled (within : c.adjusted ≤ Dice.maxCount) (calls : List (Nat × Roller)) :
    c.Stands ((c.outcome roller).rerolled calls) := by
  have kept : (c.outcome roller).dice.countP Die.isKept = c.adjusted :=
    c.countP_isKept_scored roller
  have few : (c.outcome roller).dice.countP Die.isKept ≤ Limit.mostCount :=
    kept.trans_le (within.trans (by decide))
  have judged : ∀ d ∈ ((c.outcome roller).rerolled calls).dice, d.Judged c.condition :=
    fun d mem => RollOutcome.judged_rerolled
      (fun there => Modifier.judged_scoreAll c.condition _ d there) mem
  have counts : (c.outcome roller).Counts := rfl
  have counted : ((c.outcome roller).rerolled calls).successCount =
      ((c.outcome roller).rerolled calls).dice.countP c.meets :=
    (RollOutcome.exact_rerolled counts few calls).trans (Die.countP_isSuccess judged)
  have baseline : ((c.outcome roller).rerolled calls).baseline = c.dice := by
    rw [(c.outcome roller).rerolled_eq calls]
    rfl
  refine ⟨(RollOutcome.countP_isKept_rerolled _ calls).trans kept, judged, counted,
    RollOutcome.amended_rerolled rfl (c.countP_isDropped_scored roller) calls, ?_⟩
  rw [RollOutcome.passed, counted, baseline, decide_eq_true_eq]

/-- **A check is rolled, and its outcome is what the check says whatever is rerolled in it.**  As
many dice are kept as the check has, each of them is a success exactly if it is at or under the
difficulty, these successes are counted and decide whether the check is passed, and the outcome is
amended exactly if one die was dropped.  A check with too many dice is refused, and draws none. -/
theorem roll_stands (c : Check) (fits : c.difficulty ≤ Limit.mostCount) (roller : Roller) :
    (c.advantage.adjust c.dice ≤ Dice.maxCount → c.advantage.adjust c.dice ≤ roller.supply →
      ∃ o, c.roll roller = (.ok o, roller.after (c.advantage.adjust c.dice)) ∧
        ∀ calls, c.Stands (o.rerolled calls)) ∧
    (Dice.maxCount < c.advantage.adjust c.dice →
      ∃ e, c.roll roller = (.error (.format e), roller)) :=
  ⟨fun within supplied => ⟨c.outcome roller, roll_ok fits within supplied, stands_rerolled within⟩,
    fun many => roll_many fits many roller⟩

/-- A check with a die more that fails until one of its dice is rerolled, and one with too many
dice. -/
theorem roll_stands_passed :
    (∃ o, (Check.mk "Stealth" 2 3 .advantage).roll (.tape [2, 6, 5]) =
        (.ok o, (Roller.tape [2, 6, 5]).after 3) ∧ o.passed = false ∧
      (o.rerolled [(9, .tape [1]), (1, .tape [3])]).dice.map Die.view =
        [⟨2, true, some true⟩, ⟨6, false, some false⟩, ⟨3, true, some true⟩,
          ⟨5, true, some false⟩] ∧
      (o.rerolled [(9, .tape [1]), (1, .tape [3])]).passed = true ∧
      (Check.mk "Stealth" 2 3 .advantage).Stands
        (o.rerolled [(9, .tape [1]), (1, .tape [3])])) ∧
    ∃ e, (Check.mk "Stealth" 20000 3 .disadvantage).roll (.tape [2, 6, 5]) =
      (.error (.format e), .tape [2, 6, 5]) := by
  obtain ⟨o, comes, stands⟩ := (roll_stands ⟨"Stealth", 2, 3, .advantage⟩ (by decide)
    (.tape [2, 6, 5])).1 (by decide) (by decide)
  have shown : ∃ o ∈ ((Check.mk "Stealth" 2 3 .advantage).roll (.tape [2, 6, 5])).1.toOption,
      o.passed = false ∧
      (o.rerolled [(9, .tape [1]), (1, .tape [3])]).dice.map Die.view =
        [⟨2, true, some true⟩, ⟨6, false, some false⟩, ⟨3, true, some true⟩,
          ⟨5, true, some false⟩] ∧
      (o.rerolled [(9, .tape [1]), (1, .tape [3])]).passed = true := by
    decide +kernel
  rw [comes] at shown
  obtain ⟨o', same, failed, dice, passed⟩ := shown
  cases same
  exact ⟨⟨o, comes, failed, dice, passed, stands _⟩,
    (roll_stands ⟨"Stealth", 20000, 3, .disadvantage⟩ (by decide) (.tape [2, 6, 5])).2 (by decide)⟩

end Check

end DiceFormula
