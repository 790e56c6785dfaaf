/-
# DiceFormula.Proofs.Dice.Scored -- how dice keep the score that they were given

A modifier handles each die on its own: it drops it, changes its value or scores it, or leaves it,
and all dice that it adds name it (`Modifier.handled_of_apply`).  Modifiers are applied in the order
written, so a die that was scored by a condition may be scored otherwise later on, its value may
change, and dice that come later are not scored at all.

A modifier `Spares` a die if it did none of that to it.  Dice that are spared by all modifiers
behind one that counts successes are `Judged` by its condition (`scored_roll`).
-/
import DiceFormula.Proofs.Dice.History

namespace DiceFormula

set_option autoImplicit false

/-! ## Scores that stay -/

namespace Die

/-- The values that the die showed. -/
def shown (d : Die) : List Int := d.value :: d.changes.map Change.before

/-- The die is scored by a condition, unless it was dropped. -/
def Judged (c : Condition) (d : Die) : Prop := d.isKept = true → d.success = some (c.check d.value)

theorem judged_score (c : Condition) (d : Die) : Judged c (d.score (c.check d.value)) :=
  fun _ => rfl

section Counts

variable {c : Condition} {dice : List Die}

/-- Dice that are judged count as successes if they meet the condition. -/
theorem countP_isSuccess (judged : ∀ d ∈ dice, d.Judged c) :
    dice.countP (fun d => d.isKept && d.isSuccess) = dice.countP c.selects := by
  refine List.countP_congr fun d mem => ?_
  rw [Condition.selects, Bool.and_eq_true_iff, Bool.and_eq_true_iff]
  refine and_congr_right fun kept => ?_
  rw [isSuccess, judged d mem kept]
  exact beq_iff_eq.trans Option.some_inj

/-- Every other kept die counts as a failure. -/
theorem countP_isFailure (judged : ∀ d ∈ dice, d.Judged c) :
    dice.countP (fun d => d.isKept && d.isFailure) + dice.countP c.selects =
      dice.countP isKept := by
  induction dice with
  | nil => rfl
  | cons d dice ih =>
      obtain ⟨first, others⟩ := List.forall_mem_cons.1 judged
      rw [List.countP_cons, List.countP_cons, List.countP_cons, ← ih others, Condition.selects]
      cases kept : d.isKept with
      | false => rfl
      | true =>
          rw [isFailure, first kept]
          cases c.check d.value <;> simp <;> omega

end Counts

end Die

/-- The modifier did not touch how the die compares with a condition and how it was scored by it:
it neither added the die, nor moved its value across the condition, nor does it score a value that
the die showed in another way. -/
structure Modifier.Spares (c : Condition) (d : Die) (m : Modifier) : Prop where
  unadded : d.addedBy ≠ some m
  unmoved : ∀ change ∈ d.changes, change.cause = m → c.check change.after = c.check change.before
  unmarked : ∀ value ∈ d.shown, ∀ success, m.mark? value = some success →
    success = c.check value

instance (c : Condition) (d : Die) (m : Modifier) : Decidable (m.Spares c d) :=
  decidable_of_iff (d.addedBy ≠ some m ∧
      (∀ change ∈ d.changes, change.cause = m → c.check change.after = c.check change.before) ∧
      ∀ value ∈ d.shown, ∀ success, m.mark? value = some success → success = c.check value)
    ⟨fun ⟨unadded, unmoved, unmarked⟩ => ⟨unadded, unmoved, unmarked⟩,
      fun spares => ⟨spares.unadded, spares.unmoved, spares.unmarked⟩⟩

namespace Die

variable {m : Modifier} {c : Condition} {d d' : Die}

/-- What spares a die at last spared it all the time. -/
theorem Handled.spares (handled : Handled m d d') {m' : Modifier} (spares : m'.Spares c d') :
    m'.Spares c d := by
  cases handled with
  | left => exact spares
  | dropped | scored => exact ⟨spares.unadded, spares.unmoved, spares.unmarked⟩
  | changed kept value =>
      refine ⟨spares.unadded, fun change mem => ?_, fun seen mem => ?_⟩
      · exact spares.unmoved change (List.mem_append_left _ mem)
      · refine spares.unmarked seen (List.mem_cons_of_mem _ ?_)
        rw [change, List.map_append]
        rcases List.mem_cons.1 mem with rfl | mem
        · exact List.mem_append_right _ (List.mem_singleton_self _)
        · exact List.mem_append_left _ mem

/-- A die that is spared keeps its score. -/
theorem Handled.judged (handled : Handled m d d') (spares : m.Spares c d') (judged : d.Judged c) :
    d'.Judged c := by
  cases handled with
  | left => exact judged
  | dropped => exact fun kept => by cases kept
  | changed kept value =>
      intro kept
      have moved := spares.unmoved ⟨d.value, value, m⟩
        (List.mem_append_right _ (List.mem_singleton_self _)) rfl
      rw [show (d.change m value).success = d.success from rfl, judged kept]
      exact congrArg _ moved.symm
  | @scored kept success marks =>
      intro kept
      exact congrArg some (spares.unmarked d.value List.mem_cons_self success marks)

end Die

namespace Modifier

variable {c : Condition} {sides : Nat} {dice dice' : List Die} {r : Roller}

/-- Every die is one that the modifier added or handled. -/
theorem handled_of_apply {m : Modifier} (ok : ((m.apply sides dice).run.run r).1 = .ok dice') :
    ∀ d' ∈ dice', d'.addedBy = some m ∨ ∃ d ∈ dice, Die.Handled m d d' := by
  obtain ⟨old, added, rfl, handled, named, -⟩ := handled_apply ok
  refine List.forall_mem_append.2 ⟨fun d' mem => .inr ?_, fun d' mem => .inl ?_⟩
  · exact forall₂_mem_right handled mem
  · exact (named d' mem).addedBy_eq

/-- Dice that were judged unless a modifier before touched them are so afterwards, unless one of
all these touched them. -/
theorem judged_applyAll {modifiers : List Modifier} (earlier : List Modifier)
    (judged : ∀ d ∈ dice, (∀ m ∈ earlier, m.Spares c d) → d.Judged c)
    (ok : ((applyAll sides modifiers dice).run.run r).1 = .ok dice') :
    ∀ d ∈ dice', (∀ m ∈ earlier ++ modifiers, m.Spares c d) → d.Judged c := by
  induction modifiers generalizing earlier dice r with
  | nil =>
      cases ok
      rwa [List.append_nil]
  | cons m rest ih =>
      obtain ⟨next, r', applied, ok⟩ := ok_of_run_bind ok
      have step : ∀ d ∈ next, (∀ m' ∈ earlier ++ [m], m'.Spares c d) → d.Judged c := by
        intro d' mem spared
        obtain ⟨sparedEarlier, spared⟩ := List.forall_mem_append.1 spared
        have spares := spared m (List.mem_singleton_self m)
        rcases handled_of_apply (congrArg Prod.fst applied) d' mem with added | ⟨d, member, handled⟩
        · exact absurd added spares.unadded
        · exact handled.judged spares
            (judged d member fun m' mem' => handled.spares (sparedEarlier m' mem'))
      have whole := ih _ step ok
      rwa [List.append_assoc, List.singleton_append] at whole

theorem judged_scoreAll (c : Condition) (dice : List Die) :
    ∀ d ∈ Die.scoreAll c dice, d.Judged c := by
  intro d' mem
  obtain ⟨d, -, rfl⟩ := List.mem_map.1 mem
  split
  · exact d.judged_score c
  · rename_i dropped
    exact fun kept => absurd kept dropped

end Modifier

/-- Dice that count successes do so by the first of their modifiers that does. -/
theorem Dice.exists_counting {d : Dice} {c : Condition} (counts : d.successCondition? = some c) :
    ∃ earlier later, d.modifiers = earlier ++ .countSuccess c :: later ∧
      ∀ c', .countSuccess c' ∉ earlier := by
  obtain ⟨earlier, m, later, modifiers, here, others⟩ := List.findSome?_eq_some_iff.1 counts
  refine ⟨earlier, later, ?_, fun c' mem => ?_⟩
  · unfold Modifier.successCondition? at here
    split at here
    · cases here
      exact modifiers
    · cases here
  · have none := others _ mem
    cases none

/-- The dice of a roll are judged by the conditions that count successes, as far as the modifiers
behind them spare them. -/
def Rolled.Scored (rolled : Rolled) : Prop :=
  ∀ c earlier later, rolled.dice.modifiers = earlier ++ .countSuccess c :: later →
    ∀ d ∈ rolled.rolls, (∀ m ∈ later, m.Spares c d) → d.Judged c

/-- **Dice that are rolled are judged by the condition that counts successes**, unless a modifier
that is written behind it added them, changed their value or scored them otherwise. -/
theorem Dice.scored_roll {d : Dice} {r : Roller} {rolled : Rolled}
    (ok : ((d.roll true).run.run r).1 = .ok rolled) : rolled.Scored := by
  intro c earlier later written
  rw [dice_of_roll ok] at written
  rw [roll_eq] at ok
  split at ok
  · cases ok
  · obtain ⟨rolls, r', -, ok⟩ := ok_of_run_bind ok
    obtain ⟨rolls', r'', applied, ok⟩ := ok_of_run_bind ok
    cases ok
    have applied := congrArg Prod.fst applied
    rw [if_pos rfl, written, Modifier.applyAll_append] at applied
    obtain ⟨next, behind, -, applied⟩ := ok_of_run_bind applied
    obtain ⟨scored, behind', scores, rest⟩ := ok_of_run_bind applied
    cases scores
    exact Modifier.judged_applyAll [] (fun d mem _ => Modifier.judged_scoreAll c next d mem)
      rest

end DiceFormula
