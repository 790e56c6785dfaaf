/-
# DiceFormula.Proofs.Dice.Doubled -- dice that double

An explosion that is done once adds a die for each kept die that meets its condition.  If all dice
do, and so does the face that is shown, there are twice as many dice afterwards, and all of them meet
the condition again (`ends_explosions`).  Dice are at most ten thousand when they are drawn, but with
a modifier for each doubling they outgrow every count: the `swarm` is more dice than can be counted
(`exists_swarm`).
-/
import DiceFormula.Proofs.Dice.Steady

namespace DiceFormula

set_option autoImplicit false

open Rolling

variable {face : Nat → Int} {c : Condition}

namespace Modifier

variable {sides : Nat} {dice : List Die}

/-- An explosion that is done once adds as many dice as meet its condition. -/
theorem ends_explodeOnce (face : Nat → Int) (sides : Nat) (all : ∀ d ∈ dice, c.selects d = true) :
    Ends face ((explode (some c) false).apply sides dice)
      (.ok (dice ++ .replicate dice.length (.extra (explode (some c) false) (face sides))))
      dice.length := by
  have exploding : dice.countP (fun d => d.isKept && explodes (some c) sides d.value) =
      dice.length := List.countP_eq_length.2 all
  rw [apply, applyExplode, exploding]
  exact ends_last (ends_drawAdded face _ sides _) (ends_pure _)

/-- **Explosions that all dice meet double the dice**, each of them. -/
theorem ends_explosions (meets : c.check (face sides) = true)
    (all : ∀ d ∈ dice, c.selects d = true) (n : Nat) :
    ∃ dice' draws, Ends face (applyAll sides (.replicate n (explode (some c) false)) dice)
        (.ok dice') draws ∧
      dice'.length = dice.length * 2 ^ n ∧ dice.length + draws = dice'.length ∧
      ∀ d ∈ dice', c.selects d = true := by
  induction n generalizing dice with
  | zero => exact ⟨dice, 0, ends_pure dice, (Nat.mul_one _).symm, rfl, all⟩
  | succ n ih =>
      have step := ends_explodeOnce face sides all
      have added : ∀ d ∈ List.replicate dice.length (Die.extra (explode (some c) false) (face sides)),
          c.selects d = true := fun d mem => List.eq_of_mem_replicate mem ▸ meets
      obtain ⟨dice', draws, rest, length, drawn, all'⟩ := ih (List.forall_mem_append.2 ⟨all, added⟩)
      rw [List.length_append, List.length_replicate] at length drawn
      rw [List.replicate_succ, applyAll]
      refine ⟨dice', _, ends_bind step rest, ?_, by omega, all'⟩
      rw [length, Nat.pow_succ]
      ring

end Modifier

namespace Dice

/-- **Dice that explode on every face, and then count these, are as many as the doublings make
them**, and all of them are successes. -/
theorem ends_doubled {d : Dice} {n : Nat}
    (written : d.modifiers = .replicate n (.explode (some c) false) ++ [.countSuccess c])
    (few : d.count ≤ maxCount) (meets : c.check (face d.sides) = true) :
    ∃ rolled, Ends face (d.roll true) (.ok rolled) (d.count * 2 ^ n) ∧ rolled.dice = d ∧
      rolled.rolls.length = d.count * 2 ^ n ∧
      ∀ die ∈ rolled.rolls, c.selects die = true ∧ die.success = some true := by
  have drawn : Ends face (drawMany d.sides d.count) _ _ := ends_drawMany d.sides d.count
  have all : ∀ die ∈ List.replicate d.count (Die.fresh (face d.sides)), c.selects die = true :=
    fun die mem => List.eq_of_mem_replicate mem ▸ meets
  obtain ⟨dice, draws, doubled, length, added, selected⟩ := Modifier.ends_explosions meets all n
  rw [List.length_replicate] at length added
  have scored : Ends face (Modifier.applyAll d.sides d.modifiers
      (.replicate d.count (.fresh (face d.sides)))) (.ok (Die.scoreAll c dice)) draws := by
    rw [written, Modifier.applyAll_append]
    exact ends_last doubled (ends_pure _)
  refine ⟨⟨Die.scoreAll c dice, d⟩, ?_, rfl, ?_, fun die mem => ?_⟩
  · rw [roll_eq, if_neg (Nat.not_lt.2 few), ← length, ← added]
    exact ends_bind drawn (ends_last scored (ends_pure _))
  · rw [Die.scoreAll, List.length_map, length]
  · obtain ⟨before, member, rfl⟩ := List.mem_map.1 mem
    have met := selected before member
    obtain ⟨kept, value⟩ := Bool.and_eq_true_iff.1 met
    rw [if_pos kept, value]
    exact ⟨met, rfl⟩

/-- Ten thousand dice that double nineteen times. -/
def swarm : Dice :=
  ⟨10000, 6, .replicate 19 (.explode (some ⟨.above, 0⟩) false) ++ [.countSuccess ⟨.above, 0⟩]⟩

/-- **The swarm is rolled, and all its dice are successes.**  They are more than can be counted. -/
theorem exists_swarm :
    ∃ rolled r', (swarm.roll true).run.run (.highest Roller.plenty) = (.ok rolled, r') ∧
      rolled.dice = swarm ∧ rolled.rolls.length = 5242880000 ∧
      ∀ die ∈ rolled.rolls, Condition.selects ⟨.above, 0⟩ die = true ∧ die.success = some true := by
  obtain ⟨rolled, ends, dice, length, all⟩ :=
    @ends_doubled Roller.high ⟨.above, 0⟩ swarm 19 rfl (by decide) (by decide)
  have comes := ends.enough 0 (Roller.plenty - 5242880000)
  have supplied : swarm.count * 2 ^ 19 + (Roller.plenty - 5242880000) = Roller.plenty := by decide
  rw [supplied, ← Roller.highest_eq] at comes
  exact ⟨rolled, _, comes, dice, length.trans (by decide), all⟩

end Dice

end DiceFormula
