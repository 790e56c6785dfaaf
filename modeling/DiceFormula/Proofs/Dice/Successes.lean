/-
# DiceFormula.Proofs.Dice.Successes -- totals that count successes

A modifier that counts successes scores every die that is kept then, whatever marks the dice had
before.  Modifiers that go by rank drop some of the dice and leave the others as they are
(`Die.Screened`).  So behind these each kept die is still scored by the condition
(`judged_applyRanking`), and nothing that came before matters: dice that were rerolled, added,
bounded or scored otherwise are judged by the value that they have at last.

The total counts marks and knows nothing of the condition.  As the marks agree with it, the total is
the number of kept dice that meet the condition, and successes and failures together are all kept
dice, as far as these are counts (`total_scored`).  Explosions lead to more dice than can be counted
(`total_uncounted`).
-/
import DiceFormula.Proofs.Dice.Active
import DiceFormula.Proofs.Dice.Doubled
import DiceFormula.Proofs.Dice.Scored

namespace DiceFormula

set_option autoImplicit false

/-! ## Dice that are dropped by rank -/

namespace Die

variable {m : Modifier} {c : Condition} {d d' : Die}

theorem Screened.judged (screened : Screened m d d') (judged : d.Judged c) : d'.Judged c := by
  rcases screened with rfl | ⟨-, rfl⟩
  · exact judged
  · exact fun kept => by cases kept

end Die

namespace Modifier

open Die

variable {c : Condition} {sides : Nat} {dice dice' : List Die} {r : Roller}

/-- The modifier keeps or drops dice by rank. -/
def isRanking : Modifier → Bool
  | keepHigh _ | keepLow _ | dropHigh _ | dropLow _ => true
  | _ => false

theorem isExplosion_of_isRanking {m : Modifier} (ranks : m.isRanking = true) :
    m.isExplosion = false := by
  cases m <;> first | rfl | cases ranks

theorem exists_screened {m : Modifier} (ranks : m.isRanking = true) (sides : Nat)
    (dice : List Die) :
    ∃ dice', m.apply sides dice = pure dice' ∧ List.Forall₂ (Screened m) dice dice' := by
  cases m with
  | keepHigh n => exact ⟨_, apply_keepHigh sides dice n, (selects_dropLowest _ _ dice).each⟩
  | keepLow n => exact ⟨_, apply_keepLow sides dice n, (selects_keepLowest _ _ dice).each⟩
  | dropHigh n => exact ⟨_, apply_dropHigh sides dice n, (selects_keepLowest _ _ dice).each⟩
  | dropLow n => exact ⟨_, apply_dropLow sides dice n, (selects_dropLowest _ _ dice).each⟩
  | reroll | explode | raise | cap | countSuccess | countFailure => cases ranks

theorem judged_ranking {m : Modifier} (ranks : m.isRanking = true)
    (judged : ∀ d ∈ dice, d.Judged c) (ok : ((m.apply sides dice).run.run r).1 = .ok dice') :
    ∀ d ∈ dice', d.Judged c := by
  obtain ⟨next, applied, each⟩ := exists_screened ranks sides dice
  rw [applied] at ok
  cases ok
  intro d' mem
  obtain ⟨d, member, screened⟩ := forall₂_mem_right each mem
  exact screened.judged (judged d member)

/-- However many dice are dropped by rank, those that are left are judged as before. -/
theorem judged_applyRanking {modifiers : List Modifier}
    (ranks : ∀ m ∈ modifiers, m.isRanking = true) (judged : ∀ d ∈ dice, d.Judged c)
    (ok : ((applyAll sides modifiers dice).run.run r).1 = .ok dice') :
    ∀ d ∈ dice', d.Judged c := by
  induction modifiers generalizing dice r with
  | nil =>
      cases ok
      exact judged
  | cons m rest ih =>
      obtain ⟨first, others⟩ := List.forall_mem_cons.1 ranks
      obtain ⟨next, r', applied, ok⟩ := ok_of_run_bind ok
      exact ih others (judged_ranking first judged (congrArg Prod.fst applied)) ok

theorem leaves_le (m : Modifier) (k : Nat) : m.leaves k ≤ k := by
  cases m <;> simp [Modifier.leaves]

theorem foldl_leaves_le (modifiers : List Modifier) (k : Nat) :
    modifiers.foldl (fun k m => m.leaves k) k ≤ k := by
  induction modifiers generalizing k with
  | nil => exact le_rfl
  | cons m rest ih => exact (ih _).trans (leaves_le m k)

end Modifier

/-! ## Counts of marks -/

namespace Die

variable {c : Condition} {dice : List Die} (judged : ∀ d ∈ dice, d.Judged c)
include judged

/-- Successes are the kept dice that meet the condition. -/
theorem successes_judged : successes dice = min (dice.countP c.selects) Limit.mostCount :=
  congrArg (min · Limit.mostCount) (countP_isSuccess judged)

/-- Failures are the other kept dice. -/
theorem failures_judged :
    failures dice = min (dice.countP isKept - dice.countP c.selects) Limit.mostCount := by
  rw [← countP_isFailure judged, Nat.add_sub_cancel]
  rfl

end Die

/-! ## Rolls -/

namespace Dice

open Modifier

/-- Behind a modifier that counts successes, and others that go by rank, every kept die is scored by
the condition. -/
theorem judged_roll {d : Dice} {c : Condition} {earlier later : List Modifier} {r r' : Roller}
    {rolled : Rolled} (written : d.modifiers = earlier ++ .countSuccess c :: later)
    (ranks : ∀ m ∈ later, m.isRanking = true) (ok : (d.roll true).run.run r = (.ok rolled, r')) :
    ∀ die ∈ rolled.rolls, die.Judged c := by
  rw [roll_append written] at ok
  obtain ⟨before, behind, -, ok⟩ := exists_of_run_bind ok
  obtain ⟨rolls, r₂, applied, ok⟩ := exists_of_run_bind ok
  cases ok
  obtain ⟨scored, behind', scores, rest⟩ := exists_of_run_bind applied
  cases scores
  exact judged_applyRanking ranks (judged_scoreAll c before.rolls) (congrArg Prod.fst rest)

/-- Dice that do not explode are never more than were asked for. -/
theorem countP_isKept_le {d : Dice} {r r' : Roller} {rolled : Rolled}
    (still : ∀ m ∈ d.modifiers, m.isExplosion = false)
    (ok : (d.roll true).run.run r = (.ok rolled, r')) :
    rolled.rolls.countP Die.isKept ≤ maxCount := by
  obtain ⟨within, -⟩ := ok_of_run_roll ok
  rw [countP_roll still ok]
  exact (foldl_leaves_le d.modifiers d.count).trans within

/-- **Dice that count successes total the kept dice that meet the condition.**  Whatever was done to
the dice before they were scored, and however they are dropped by rank behind that, the total and
the successes are the number of these dice, and the failures that of the other kept dice.  These are
counts, which end at the largest one.  Only explosions can lead to more kept dice than that; otherwise
successes and failures together are all kept dice. -/
theorem total_scored {d : Dice} {c : Condition} {earlier later : List Modifier} {r r' : Roller}
    {rolled : Rolled} (written : d.modifiers = earlier ++ .countSuccess c :: later)
    (ranks : ∀ m ∈ later, m.isRanking = true) (ok : (d.roll true).run.run r = (.ok rolled, r')) :
    rolled.total = .ok (min (rolled.rolls.countP c.selects) Limit.mostCount : Nat) ∧
    rolled.successes = min (rolled.rolls.countP c.selects) Limit.mostCount ∧
    rolled.failures =
      min (rolled.rolls.countP Die.isKept - rolled.rolls.countP c.selects) Limit.mostCount ∧
    ((∀ m ∈ earlier, m.isExplosion = false) ∨
        rolled.rolls.countP Die.isKept ≤ Limit.mostCount →
      rolled.total = .ok (rolled.rolls.countP c.selects) ∧
      rolled.successes = rolled.rolls.countP c.selects ∧
      rolled.successes + rolled.failures = rolled.rolls.countP Die.isKept) := by
  have judged := judged_roll written ranks ok
  have total : rolled.total = .ok (rolled.successes : Nat) := by
    refine Rolled.total_of_counting (c := c) ?_
    rw [dice_of_roll (congrArg Prod.fst ok), written]
    exact List.mem_append_right _ List.mem_cons_self
  have successes : rolled.successes = _ := Die.successes_judged judged
  have failures : rolled.failures = _ := Die.failures_judged judged
  refine ⟨total.trans (by rw [successes]), successes, failures, fun few => ?_⟩
  have few : rolled.rolls.countP Die.isKept ≤ Limit.mostCount := by
    refine few.elim (fun still => ?_) id
    refine (countP_isKept_le ?_ ok).trans (by decide)
    rw [written]
    exact List.forall_mem_append.2 ⟨still, List.forall_mem_cons.2
      ⟨rfl, fun m mem => isExplosion_of_isRanking (ranks m mem)⟩⟩
  have all := Die.countP_isFailure judged
  have met : rolled.successes = rolled.rolls.countP c.selects := by
    rw [successes]
    omega
  refine ⟨by rw [total, met], met, ?_⟩
  rw [met, failures]
  omega

/-- Of four dice one is rerolled, one explodes, and two are raised.  A die that was marked as a failure
at first is a success at last, and the dice that were added are scored too. -/
theorem total_scored_remarked :
    ∃ rolled r', ((Dice.mk 4 6 [.countFailure ⟨.atMost, 2⟩, .reroll ⟨.equal, 1⟩ false,
          .explode none true, .raise 3, .countSuccess ⟨.atMost, 4⟩, .dropHigh 1, .keepLow 4]).roll
        true).run.run (.tape [6, 1, 2, 5, 2, 3]) = (.ok rolled, r') ∧
      rolled.rolls.map Die.text =
        ["6 (f) (d)", "1 (f) (d)", "3 (m) (s)", "5 (f)", "3 (m) (s)", "3 (s)"] ∧
      rolled.rolls.countP (Condition.selects ⟨.atMost, 4⟩) = 3 ∧
      rolled.rolls.countP Die.isKept = 4 ∧ rolled.total = .ok 3 ∧ rolled.successes = 3 ∧
      rolled.successes + rolled.failures = 4 := by
  let d : Dice := ⟨4, 6, [.countFailure ⟨.atMost, 2⟩, .reroll ⟨.equal, 1⟩ false, .explode none true,
    .raise 3, .countSuccess ⟨.atMost, 4⟩, .dropHigh 1, .keepLow 4]⟩
  let tape := Roller.tape [6, 1, 2, 5, 2, 3]
  have ends : ((d.roll true).run.run tape).1.toOption.isSome = true := by cbv
  have shown : ((d.roll true).run.run tape).1.toOption.map (fun rolled =>
      (rolled.rolls.map Die.text, rolled.rolls.countP (Condition.selects ⟨.atMost, 4⟩),
        rolled.rolls.countP Die.isKept)) =
      some (["6 (f) (d)", "1 (f) (d)", "3 (m) (s)", "5 (f)", "3 (m) (s)", "3 (s)"], 3, 4) := by cbv
  obtain ⟨rolled, ok⟩ := ok_of_isSome ends
  have written : d.modifiers = [.countFailure ⟨.atMost, 2⟩, .reroll ⟨.equal, 1⟩ false,
      .explode none true, .raise 3] ++ .countSuccess ⟨.atMost, 4⟩ :: [.dropHigh 1, .keepLow 4] := rfl
  obtain ⟨-, -, -, scored⟩ := total_scored written (by decide) ok
  rw [ok] at shown
  simp only [Except.toOption, Option.map_some, Option.some.injEq, Prod.mk.injEq] at shown
  obtain ⟨texts, hits, kept⟩ := shown
  rw [hits, kept] at scored
  exact ⟨rolled, _, ok, texts, hits, kept, scored (.inr (by decide))⟩

/-- Ten thousand dice that double nineteen times are more than can be counted. -/
theorem total_uncounted :
    ∃ rolled r', ((Dice.mk 10000 6 (.replicate 19 (.explode (some ⟨.above, 0⟩) false) ++
          [.countSuccess ⟨.above, 0⟩])).roll true).run.run (.highest Roller.plenty) =
        (.ok rolled, r') ∧
      rolled.rolls.countP (Condition.selects ⟨.above, 0⟩) = 5242880000 ∧
      rolled.rolls.countP Die.isKept = 5242880000 ∧
      rolled.total = .ok 4294967295 ∧ rolled.successes = 4294967295 ∧ rolled.failures = 0 := by
  obtain ⟨rolled, r', comes, dice, length, all⟩ := exists_swarm
  have selected : rolled.rolls.countP (Condition.selects ⟨.above, 0⟩) = 5242880000 :=
    (List.countP_eq_length.2 fun die mem => (all die mem).1).trans length
  have kept : rolled.rolls.countP Die.isKept = 5242880000 :=
    (List.countP_eq_length.2 fun die mem =>
      (Bool.and_eq_true_iff.1 (all die mem).1).1).trans length
  have judged := judged_roll (d := swarm) rfl (List.forall_mem_nil _) comes
  have successes : rolled.successes = 4294967295 := by
    rw [Rolled.successes, Die.successes_judged judged, selected]
    rfl
  have total : rolled.total = .ok (rolled.successes : Nat) := by
    refine Rolled.total_of_counting (c := ⟨.above, 0⟩) ?_
    rw [dice]
    decide
  refine ⟨rolled, r', comes, selected, kept, by rw [total, successes]; rfl, successes, ?_⟩
  rw [Rolled.failures, Die.failures_judged judged, selected, kept]
  rfl

end Dice

end DiceFormula
