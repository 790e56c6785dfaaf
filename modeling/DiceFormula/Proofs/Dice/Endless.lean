/-
# DiceFormula.Proofs.Dice.Endless -- which repeated modifiers are refused

A repeated modifier is refused before it draws anything, if every face makes it go on
(`run_apply_endless`).  Whether that is so is told from the condition and the number of sides
alone, without going through the faces.

* A condition that two values meet is met by all values between them (`Condition.check_between`).
  So every face that a die shows meets it if and only if the lowest and the highest do
  (`forall_shows_iff`).
* For dice with sides the test says just this.  Dice without sides show zero, but the test takes
  them to show one where a condition bounds values from below, and nothing at all where values are
  to be equal.  That matters for four conditions (`misjudged`), and for no other
  (`endless_exact_iff`).

Modifiers are refused accordingly (`refused_exact_iff`).
-/
import DiceFormula.Proofs.Dice.Steady

namespace DiceFormula

set_option autoImplicit false

/-! ## The faces of a die -/

/-- The faces that a die can show: those from one to the number of its sides, or zero if it has
none. -/
def Die.Shows (sides : Nat) (face : Int) : Prop :=
  if sides = 0 then face = 0 else 1 ≤ face ∧ face ≤ sides

namespace Roller

open Die (Shows)

theorem shows_low (sides : Nat) : Shows sides (low sides) := by
  unfold Shows low
  split <;> omega

theorem shows_high (sides : Nat) : Shows sides (high sides) := by
  unfold Shows high
  split <;> omega

theorem shows_between {sides : Nat} {face : Int} (shows : Shows sides face) :
    low sides ≤ face ∧ face ≤ high sides := by
  unfold Shows at shows
  unfold low high
  split at shows <;> omega

end Roller

/-- Conditions are met by all values between two that meet them. -/
theorem Condition.check_between {c : Condition} {low high value : Int}
    (first : c.check low = true) (last : c.check high = true) (above : low ≤ value)
    (below : value ≤ high) : c.check value = true := by
  obtain ⟨comparison, bound⟩ := c
  cases comparison <;> simp [check, Comparison.holds] at * <;> omega

namespace Modifier

open Die (Shows)
open Roller (low high)
open Rolling (Spends)

variable {sides : Nat} {condition : Option Condition} {m : Modifier}

theorem explodes_between {first last value : Int} (low : explodes condition sides first = true)
    (high : explodes condition sides last = true) (above : first ≤ value) (below : value ≤ last) :
    explodes condition sides value = true := by
  cases condition with
  | some c => exact Condition.check_between low high above below
  | none =>
      simp [explodes] at *
      omega

/-- Every face that a die shows makes it explode if the lowest and the highest do. -/
theorem forall_shows_iff (sides : Nat) (condition : Option Condition) :
    (∀ face, Shows sides face → explodes condition sides face = true) ↔
      explodes condition sides (low sides) = true ∧ explodes condition sides (high sides) = true := by
  constructor
  · exact fun all => ⟨all _ (Roller.shows_low sides), all _ (Roller.shows_high sides)⟩
  · rintro ⟨first, last⟩ face shows
    obtain ⟨above, below⟩ := Roller.shows_between shows
    exact explodes_between first last above below

/-! ## The test -/

/-- The conditions on which dice without sides are misjudged. -/
def misjudged : List (Option Condition) :=
  [none, some ⟨.equal, 0⟩, some ⟨.above, 0⟩, some ⟨.atLeast, 1⟩]

/-- The test asks of dice with sides whether the lowest and the highest face meet the condition. -/
theorem endless_iff (some : 0 < sides) (condition : Option Condition) :
    endless condition sides = true ↔
      explodes condition sides (low sides) = true ∧ explodes condition sides (high sides) = true := by
  have lowest : low sides = 1 := by simp [low]; omega
  have highest : high sides = sides := rfl
  rw [lowest, highest]
  rcases condition with _ | ⟨comparison, bound⟩
  · simp [endless, explodes]
    omega
  · cases comparison <;>
      simp [endless, explodes, Condition.alwaysMet, Condition.check, Comparison.holds] <;> omega

/-- Dice without sides are misjudged on four conditions. -/
theorem endless_zero_iff (condition : Option Condition) :
    (endless condition 0 = true ↔ explodes condition 0 0 = true) ↔ condition ∉ misjudged := by
  rcases condition with _ | ⟨comparison, bound⟩
  · simp [endless, explodes, misjudged]
  · cases comparison <;>
      simp [endless, explodes, Condition.alwaysMet, Condition.check, Comparison.holds, misjudged] <;>
      omega

/-- **The test is exact but for four conditions on dice without sides.** -/
theorem endless_exact_iff (sides : Nat) (condition : Option Condition) :
    (endless condition sides = true ↔ ∀ face, Shows sides face → explodes condition sides face = true) ↔
      ¬ (sides = 0 ∧ condition ∈ misjudged) := by
  rw [forall_shows_iff]
  rcases Nat.eq_zero_or_pos sides with rfl | some
  · have zero := endless_zero_iff condition
    simpa [low, high] using zero
  · simp [endless_iff some condition, Nat.ne_of_gt some]

/-! ## Modifiers that are refused -/

/-- The condition on which a modifier rolls dice, if it names one. -/
def condition? : Modifier → Option Condition
  | reroll condition _ => some condition
  | explode condition _ => condition
  | _ => none

theorem meets_eq (repeated : m.isRepeated = true) (sides : Nat) :
    m.meets sides = explodes m.condition? sides := by
  cases m <;> first | rfl | cases repeated

theorem isEndless_iff (repeated : m.isRepeated = true) (sides : Nat) :
    m.IsEndless sides ↔ endless m.condition? sides = true := by
  cases m with
  | reroll condition again | explode condition again =>
      obtain rfl : again = true := repeated
      simp [IsEndless, condition?, endless]
  | _ => cases repeated

variable {dice : List Die} {r : Roller}

/-- All other repeated modifiers end, or want for dice. -/
theorem isEndless_of_refused (repeated : m.isRepeated = true) {e : DiceError}
    (refused : ((m.apply sides dice).run.run r).1 = .error (.error e)) : m.IsEndless sides := by
  by_contra passes
  have supplies := supplies_apply repeated passes dice r
  generalize (m.apply sides dice).run.run r = outcome at supplies refused
  cases supplies <;> cases refused

/-- **Repeated modifiers are refused exactly if every face that the dice can show meets their
condition, but for four conditions on dice without sides.**  That is the only reason to refuse
them, and nothing is drawn before.  The lowest and the highest faces are such that the dice can
show. -/
theorem refused_exact_iff (repeated : m.isRepeated = true) (sides : Nat) (dice : List Die)
    (r : Roller) :
    (((∃ m' sides', ((m.apply sides dice).run.run r).1 =
          .error (.error (.infiniteRolls m' sides'))) ↔
        ∀ face, Shows sides face → m.meets sides face = true) ↔
      ¬ (sides = 0 ∧ m.condition? ∈ misjudged)) ∧
    (∀ e, ((m.apply sides dice).run.run r).1 = .error (.error e) →
      (m.apply sides dice).run.run r = (.error (.error (.infiniteRolls m sides)), r)) ∧
    ∀ supply n, Shows sides ((Roller.lowest supply).face n sides) ∧
      Shows sides ((Roller.highest supply).face n sides) := by
  have refused : (∃ m' sides', ((m.apply sides dice).run.run r).1 =
      .error (.error (.infiniteRolls m' sides'))) ↔ endless m.condition? sides = true := by
    rw [← isEndless_iff repeated]
    constructor
    · rintro ⟨m', sides', refused⟩
      exact isEndless_of_refused repeated refused
    · exact fun always => ⟨m, sides, congrArg Prod.fst (run_apply_endless always dice r)⟩
  refine ⟨?_, fun e failed => ?_, fun supply n => ?_⟩
  · rw [refused, meets_eq repeated]
    exact endless_exact_iff sides m.condition?
  · exact run_apply_endless (isEndless_of_refused repeated failed) dice r
  · exact ⟨Roller.shows_low sides, Roller.shows_high sides⟩

/-- All faces of a die with six sides are at most six, but not all are at most five. -/
theorem refused_exact_iff_six :
    (∃ m : Modifier, m.isRepeated = true ∧ (∀ face, Shows 6 face → m.meets 6 face = true) ∧
      ∃ m' sides', ((m.apply 6 [.fresh 2]).run.run (.tape [3])).1 =
        .error (.error (.infiniteRolls m' sides'))) ∧
    ∃ m : Modifier, m.isRepeated = true ∧ Shows 6 6 ∧ m.meets 6 6 = false ∧
      ¬ ∃ m' sides', ((m.apply 6 [.fresh 2]).run.run (.tape [3])).1 =
        .error (.error (.infiniteRolls m' sides')) := by
  have all : ∀ face, Shows 6 face → (explode (some ⟨.atMost, 6⟩) true).meets 6 face = true := by
    intro face shows
    have below := (Roller.shows_between shows).2
    exact decide_eq_true below
  refine ⟨⟨explode (some ⟨.atMost, 6⟩) true, rfl, all, ?_⟩,
    ⟨reroll ⟨.atMost, 5⟩ true, rfl, Roller.shows_high 6, rfl, fun refused => ?_⟩⟩
  · exact ((refused_exact_iff rfl 6 _ _).1.2 (by simp)).2 all
  · have meets := ((refused_exact_iff rfl 6 _ _).1.2 (by simp)).1 refused 6 (Roller.shows_high 6)
    cases meets

/-- **On dice without sides the test is wrong both ways.**  A reroll of what is above zero is refused,
though such dice show zero and never meet it.  A reroll of zero is not refused, though every such
die meets it, and with the lowest faces it goes on as long as there are dice. -/
theorem refused_without_sides :
    (∃ m : Modifier, m.isRepeated = true ∧ (∀ face, Shows 0 face → m.meets 0 face = false) ∧
      ((m.apply 0 [.fresh 0]).run.run (.lowest 1)).1 = .error (.error (.infiniteRolls m 0))) ∧
    ∃ m : Modifier, m.isRepeated = true ∧ (∀ face, Shows 0 face → m.meets 0 face = true) ∧
      Spends low (m.apply 0 [.fresh 0]) := by
  refine ⟨⟨.reroll ⟨.above, 0⟩ true, rfl, ?_, by decide⟩, ⟨.reroll ⟨.equal, 0⟩ true, rfl, ?_, ?_⟩⟩
  · rintro face rfl
    rfl
  · rintro face rfl
    rfl
  · exact spends_apply (by decide) (by decide)

end Modifier

end DiceFormula
