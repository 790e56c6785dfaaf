/-
# DiceFormula.Proofs.Dice.Active -- how many dice are active

The active dice of a roll are those that are kept.  Their number does not depend on the faces, but
for explosions: keeping and dropping leave so many of them (`Modifier.leaves`), a reroll adds a kept
die for each that it drops, whether it is done once or as long as dice meet the condition, and all
other modifiers but explosions leave the number as it is.  An explosion adds as many as it appends.

So much for one modifier (`active_apply`).  The modifiers of dice are applied one after the other,
and the number of active dice is carried through all of them (`active_roll`).
-/
import DiceFormula.Proofs.Dice.History
import DiceFormula.Proofs.Dice.Ranked

namespace DiceFormula

set_option autoImplicit false

/-! ## Kept dice -/

namespace Die

theorem countP_map_isKept {f : Die → Die} (keeps : ∀ d, (f d).isKept = d.isKept) (dice : List Die) :
    (dice.map f).countP isKept = dice.countP isKept := by
  rw [List.countP_map]
  exact List.countP_congr fun d _ => by rw [Function.comp_apply, keeps d]

theorem countP_map_kept {f : Int → Die} (kept : ∀ face, (f face).isKept = true) (faces : List Int) :
    (faces.map f).countP isKept = faces.length := by
  rw [List.countP_map, List.countP_eq_length]
  exact fun face _ => kept face

end Die

/-- Dice that are rerolled are dropped, and no others. -/
theorem Condition.countP_retire_isKept (c : Condition) (m : Modifier) (dice : List Die) :
    (dice.map (c.retire m)).countP Die.isKept + dice.countP c.selects = dice.countP Die.isKept := by
  induction dice with
  | nil => rfl
  | cons d dice ih =>
      rw [List.map_cons, List.countP_cons, List.countP_cons, List.countP_cons, ← ih]
      unfold retire
      cases selected : c.selects d with
      | true =>
          have kept : d.isKept = true := (Bool.and_eq_true_iff.1 selected).1
          have dropped : ({ d with droppedBy := some m } : Die).isKept = false := rfl
          simp [kept, dropped]
          omega
      | false =>
          simp
          omega

/-! ## One modifier -/

namespace Modifier

open Die Rolling

/-- How many of `k` active dice a modifier leaves, if it adds none. -/
def leaves : Modifier → Nat → Nat
  | keepHigh n, k | keepLow n, k => min k n
  | dropHigh n, k | dropLow n, k => k - min k n
  | _, k => k

def isExplosion : Modifier → Bool
  | explode _ _ => true
  | _ => false

/-- How many dice are active after a modifier that appended `n`, of `k` that were so before. -/
def active (m : Modifier) (n k : Nat) : Nat :=
  if m.isExplosion then k + n else m.leaves k

variable {m : Modifier} {sides : Nat} {dice dice' : List Die} {r r' : Roller}

/-- The modifier appended some dice, and left as many active as it should. -/
structure Accounts (m : Modifier) (dice dice' : List Die) : Prop where
  grows : dice.length ≤ dice'.length
  active : dice'.countP isKept = m.active (dice'.length - dice.length) (dice.countP isKept)

/-- Dice that are only changed or scored stay active. -/
theorem accounts_map {f : Die → Die} (plain : ∀ n k, m.active n k = k)
    (keeps : ∀ d, (f d).isKept = d.isKept) : m.Accounts dice (dice.map f) := by
  refine ⟨by simp, ?_⟩
  rw [plain, countP_map_isKept keeps]

theorem accounts_selects {stay go : Nat} {compares : Int → Int → Prop}
    (selects : Selects m stay go compares dice dice') (still : m.isExplosion = false)
    (leaves : stay = m.leaves (dice.countP isKept)) : m.Accounts dice dice' := by
  refine ⟨selects.each.length_eq.le, ?_⟩
  rw [selects.kept, leaves, Modifier.active, still, if_neg Bool.false_ne_true]

/-- An explosion appends dice that are kept. -/
theorem accounts_explode (condition : Option Condition) (again : Bool) (dice : List Die)
    (faces : List Int) :
    (explode condition again).Accounts dice
      (dice ++ faces.map (extra (explode condition again))) := by
  refine ⟨by simp, ?_⟩
  rw [List.countP_append, countP_map_kept fun _ => rfl, List.length_append, List.length_map,
    Nat.add_sub_cancel_left]
  rfl

/-- A reroll is even if it appends as many kept dice as it drops. -/
theorem accounts_reroll {condition : Condition} {again : Bool} {added : List Die}
    (even : added.countP isKept = dice.countP condition.selects) :
    (reroll condition again).Accounts dice
      (dice.map (condition.retire (reroll condition again)) ++ added) := by
  refine ⟨by simp, ?_⟩
  rw [List.countP_append, even, condition.countP_retire_isKept]
  rfl

theorem ok_of_run_drawAdded {n : Nat} {added : List Die}
    (ok : ((drawAdded m sides n).run.run r).1 = .ok added) :
    ∃ faces : List Int, faces.length = n ∧ added = faces.map (extra m) := by
  by_cases within : n ≤ r.supply
  · rw [run_drawAdded m within] at ok
    cases ok
    exact ⟨_, by simp [Roller.length_upcoming], rfl⟩
  · rw [run_drawAdded_short m (by omega)] at ok
    cases ok

/-- What a repeated reroll leaves of the dice that it added: those that miss the condition. -/
theorem countP_settled_extras (condition : Condition) (again : Bool) (sides : Nat)
    (faces : List Int) :
    (faces.map fun face => settle (reroll condition again) (extra (reroll condition again) face)).countP
        isKept = faces.countP ((reroll condition again).misses sides) := by
  rw [List.countP_map]
  refine List.countP_congr fun face _ => ?_
  rw [Function.comp_apply, settle, Condition.retire]
  cases met : condition.check face <;> simp [misses, meets, met, Condition.selects, extra, isKept, fresh]

theorem accounts_repeated (repeated : m.isRepeated = true)
    (ok : ((m.apply sides dice).run.run r).1 = .ok dice') : m.Accounts dice dice' := by
  by_cases always : m.IsEndless sides
  · rw [run_apply_endless always] at ok
    cases ok
  · have supplies := supplies_apply repeated always dice r
    generalize (m.apply sides dice).run.run r = outcome at supplies ok
    cases supplies with
    | short few => cases ok
    | @enough used reaches =>
        cases ok
        cases m with
        | reroll condition again =>
            -- of the dice that were added, as many miss the condition as were picked at first
            have even := reaches.count
            rw [← countP_settled_extras] at even
            exact accounts_reroll even
        | explode condition again =>
            have whole : (explode condition again).settled dice used =
                dice ++ used.map (extra (explode condition again)) :=
              congrArg (· ++ _) (List.map_id dice)
            rw [whole]
            exact accounts_explode condition again dice used
        | _ => cases repeated

/-- **How many dice are active after a modifier**, which appended the others. -/
theorem active_apply (ok : ((m.apply sides dice).run.run r).1 = .ok dice') :
    m.Accounts dice dice' := by
  cases m with
  | reroll condition again =>
      cases again with
      | true => exact accounts_repeated rfl ok
      | false =>
          change ((rerollOnce _ condition sides dice).run.run r).1 = _ at ok
          rw [rerollOnce_eq] at ok
          obtain ⟨added, r', drawn, ok⟩ := ok_of_run_bind ok
          cases ok
          obtain ⟨faces, counted, rfl⟩ := ok_of_run_drawAdded (congrArg Prod.fst drawn)
          refine accounts_reroll ?_
          rw [countP_map_kept fun _ => rfl, counted]
  | explode condition again =>
      cases again with
      | true => exact accounts_repeated rfl ok
      | false =>
          obtain ⟨added, r', drawn, ok⟩ := ok_of_run_bind ok
          cases ok
          obtain ⟨faces, -, rfl⟩ := ok_of_run_drawAdded (congrArg Prod.fst drawn)
          exact accounts_explode condition false dice faces
  | keepHigh n =>
      rw [apply_keepHigh] at ok
      cases ok
      exact accounts_selects (selects_dropLowest _ _ dice) rfl (by rw [leaves]; omega)
  | keepLow n =>
      rw [apply_keepLow] at ok
      cases ok
      exact accounts_selects (selects_keepLowest _ _ dice) rfl (Nat.min_comm _ _)
  | dropHigh n =>
      rw [apply_dropHigh] at ok
      cases ok
      exact accounts_selects (selects_keepLowest _ _ dice) rfl (by rw [leaves]; omega)
  | dropLow n =>
      rw [apply_dropLow] at ok
      cases ok
      exact accounts_selects (selects_dropLowest _ _ dice) rfl (by rw [leaves]; omega)
  | raise bound | cap bound =>
      cases ok
      exact accounts_map (fun _ _ => rfl) fun d => by split <;> rfl
  | countSuccess condition | countFailure condition =>
      cases ok
      exact accounts_map (fun _ _ => rfl) fun d => by split <;> rfl

/-- Modifiers that do not explode leave one after the other. -/
theorem countP_applyAll {modifiers : List Modifier}
    (still : ∀ m ∈ modifiers, m.isExplosion = false)
    (ok : ((applyAll sides modifiers dice).run.run r).1 = .ok dice') :
    dice'.countP isKept = modifiers.foldl (fun k m => m.leaves k) (dice.countP isKept) := by
  induction modifiers generalizing dice r with
  | nil =>
      cases ok
      rfl
  | cons m rest ih =>
      obtain ⟨first, others⟩ := List.forall_mem_cons.1 still
      obtain ⟨next, r', applied, ok⟩ := ok_of_run_bind ok
      have accounts := active_apply (congrArg Prod.fst applied)
      rw [ih others ok, accounts.active, active, first, if_neg Bool.false_ne_true, List.foldl_cons]

end Modifier

/-! ## Rolls -/

namespace Dice

open Modifier

/-- Modifiers that do not explode leave so many of the dice that were asked for. -/
theorem countP_roll {d : Dice} {r r' : Roller} {rolled : Rolled}
    (still : ∀ m ∈ d.modifiers, m.isExplosion = false)
    (ok : (d.roll true).run.run r = (.ok rolled, r')) :
    rolled.rolls.countP Die.isKept = d.modifiers.foldl (fun k m => m.leaves k) d.count := by
  obtain ⟨-, -, rolls, rfl, applied⟩ := ok_of_run_roll ok
  rw [countP_applyAll still (congrArg Prod.fst applied), Die.countP_map_kept fun _ => rfl,
    Roller.length_upcoming, List.length_replicate]

/-- **The number of active dice is fixed by the modifiers**, unless they explode: it is the number of
dice that were asked for, and what each of the modifiers leaves of it.  With explosions it is so
step by step: of the dice that are active before a modifier each one leaves as many as it should, and
explosions leave all of them and as many more as they append. -/
theorem active_roll {d : Dice} {r r' : Roller} {rolled : Rolled}
    (ok : (d.roll true).run.run r = (.ok rolled, r')) :
    ((∀ m ∈ d.modifiers, m.isExplosion = false) →
      rolled.rolls.countP Die.isKept = d.modifiers.foldl (fun k m => m.leaves k) d.count) ∧
    ∀ earlier m later, d.modifiers = earlier ++ m :: later →
      ∃ before after behind behind',
        ({ d with modifiers := earlier }.roll true).run.run r = (.ok before, behind) ∧
        (m.apply d.sides before.rolls).run.run behind = (.ok after, behind') ∧
        (applyAll d.sides later after).run.run behind' = (.ok rolled.rolls, r') ∧
        before.rolls.length ≤ after.length ∧
        after.countP Die.isKept =
          if m.isExplosion then
            before.rolls.countP Die.isKept + (after.length - before.rolls.length)
          else m.leaves (before.rolls.countP Die.isKept) := by
  refine ⟨fun still => countP_roll still ok, fun earlier m later written => ?_⟩
  rw [roll_append written] at ok
  obtain ⟨before, behind, first, ok⟩ := exists_of_run_bind ok
  obtain ⟨rolls, r₂, applied, ok⟩ := exists_of_run_bind ok
  cases ok
  obtain ⟨after, behind', step, rest⟩ := exists_of_run_bind applied
  have accounts := active_apply (congrArg Prod.fst step)
  exact ⟨before, after, behind, behind', first, step, rest, accounts.grows, accounts.active⟩

/-- Of four dice, one of which is rerolled, two are left.  With three dice, one of which is rerolled,
an explosion of two appends three, and six are active until the highest four are kept. -/
theorem active_roll_exploding :
    (∃ rolled r', ((Dice.mk 4 6 [.reroll ⟨.equal, 1⟩ false, .raise 2, .keepHigh 3, .dropLow 1]).roll
          true).run.run (.tape [1, 6, 4, 3, 5]) = (.ok rolled, r') ∧
        rolled.rolls.map Die.text = ["1 (d)", "6", "4 (d)", "3 (d)", "5"] ∧
        rolled.rolls.countP Die.isKept = 2) ∧
      ∃ (rolled : Rolled) (r' : Roller) (before after : List Die),
        ((Dice.mk 3 6 [.reroll ⟨.equal, 1⟩ true, .explode none true, .keepHigh 4]).roll
          true).run.run (.tape [6, 1, 2, 6, 6, 3, 4]) = (.ok rolled, r') ∧
        rolled.rolls.map Die.text = ["6", "1 (d)", "2 (d)", "6", "6", "3 (d)", "4"] ∧
        before.countP Die.isKept = 3 ∧ before.length ≤ after.length ∧
        after.countP Die.isKept = before.countP Die.isKept + (after.length - before.length) := by
  constructor
  · let d : Dice := ⟨4, 6, [.reroll ⟨.equal, 1⟩ false, .raise 2, .keepHigh 3, .dropLow 1]⟩
    have ends : ((d.roll true).run.run (.tape [1, 6, 4, 3, 5])).1.toOption.isSome = true := by cbv
    have shown : ((d.roll true).run.run (.tape [1, 6, 4, 3, 5])).1.toOption.map
        (fun rolled => rolled.rolls.map Die.text) =
          some ["1 (d)", "6", "4 (d)", "3 (d)", "5"] := by cbv
    obtain ⟨rolled, ok⟩ := ok_of_isSome ends
    obtain ⟨fixed, -⟩ := active_roll ok
    rw [ok] at shown
    exact ⟨rolled, _, ok, Option.some.inj shown, fixed (by decide)⟩
  · let first : Modifier := .reroll ⟨.equal, 1⟩ true
    let d : Dice := ⟨3, 6, [first, .explode none true, .keepHigh 4]⟩
    let tape := Roller.tape [6, 1, 2, 6, 6, 3, 4]
    have ends : ((d.roll true).run.run tape).1.toOption.isSome = true := by cbv
    have shown : ((d.roll true).run.run tape).1.toOption.map
        (fun rolled => rolled.rolls.map Die.text) =
          some ["6", "1 (d)", "2 (d)", "6", "6", "3 (d)", "4"] := by cbv
    have counted : (((Dice.mk 3 6 [first]).roll true).run.run tape).1.toOption.map
        (fun rolled => rolled.rolls.countP Die.isKept) = some 3 := by cbv
    obtain ⟨rolled, ok⟩ := ok_of_isSome ends
    obtain ⟨-, steps⟩ := active_roll ok
    obtain ⟨before, after, behind, behind', start, step, rest, grows, active⟩ :=
      steps [first] (.explode none true) [.keepHigh 4] rfl
    rw [ok] at shown
    rw [start] at counted
    exact ⟨rolled, _, before.rolls, after, ok, Option.some.inj shown, Option.some.inj counted, grows,
      active⟩

end Dice

end DiceFormula
