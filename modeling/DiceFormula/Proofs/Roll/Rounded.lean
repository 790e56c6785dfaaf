/-
# DiceFormula.Proofs.Roll.Rounded -- the results of pools

A member of a pool comes to a total, which is a finite double, and its result is a whole number of
64 bits.  The result is the whole number nearest to the total, halves away from zero, if that fits
(`evaluate_rounded`).  If it does not, the result is the least or the largest number that does,
and nothing tells that it is another one (`evaluate_saturates`).
-/
import DiceFormula.Proofs.Double.NearestWhole
import DiceFormula.Proofs.Roll.Stored
import DiceFormula.Proofs.Roll.Unresolved

namespace DiceFormula

set_option autoImplicit false

open Term

/-! ## Results -/

/-- A whole number and what becomes of it in 64 bits. -/
inductive Saturates (n : Int) : Int → Prop
  | within (least : Limit.leastValue ≤ n) (most : n ≤ Limit.mostValue) : Saturates n n
  | below (lt : n < Limit.leastValue) : Saturates n Limit.leastValue
  | above (gt : Limit.mostValue < n) : Saturates n Limit.mostValue

theorem saturates_clampWhole (n : Int) : Saturates n (Evaluation.clampWhole n) := by
  have range : Limit.leastValue ≤ Limit.mostValue := by decide
  unfold Evaluation.clampWhole
  rcases lt_or_ge n Limit.leastValue with lt | least
  · rw [min_eq_left (by omega), max_eq_left (by omega)]
    exact .below lt
  · rcases lt_or_ge Limit.mostValue n with gt | most
    · rw [min_eq_right (by omega), max_eq_right (by omega)]
      exact .above gt
    · rw [min_eq_left (by omega), max_eq_right (by omega)]
      exact .within least most

/-- The value of a finite total in a pool is the nearest whole number, as far as it fits. -/
theorem Evaluation.saturates_poolDie {total : Float} (finite : total.isFinite = true) :
    ∃ n, NearestWhole (Double.value total) n ∧ Saturates n (poolDie total).value := by
  obtain ⟨n, rounded, nearest⟩ := Double.nearestWhole?_value finite
  refine ⟨n, nearest, ?_⟩
  show Saturates n (clampWhole ((nearestWhole? total).getD 0))
  rw [rounded]
  exact saturates_clampWhole n

/-- A member of a pool and its result. -/
def Term.RoundedTo (member : List Term) (die : Die) : Prop :=
  ∃ (total : Float) (n : Int), totalAll member = .ok total ∧ total.isFinite = true ∧
    NearestWhole (Double.value total) n ∧ Saturates n die.value

theorem Term.Scores.roundedTo {member : List Term} {die : Die} (scores : Scores member die) :
    RoundedTo member die := by
  obtain ⟨total, comes, value, -, -⟩ := scores
  have finite := Arithmetic.total_finite comes
  obtain ⟨n, nearest, saturates⟩ := Evaluation.saturates_poolDie finite
  exact ⟨total, n, comes, finite, nearest, value ▸ saturates⟩

/-! ## Rolls -/

namespace Roll

open Evaluation

variable {formula : String} {roll roll' : Roll} {roller roller' : Roller} {total : Float}

/-- **The results of a pool are the totals of its members, rounded to the nearest whole numbers as
far as these fit in 64 bits**: one for each member, in every pool of an evaluated roll. -/
theorem evaluate_rounded (read : Formula.read formula = .ok roll.terms)
    (ok : roll.evaluate roller = (.ok total, roll', roller')) :
    Everywhere (fun us => ∀ members modifiers results evaluated flavor,
      Term.pool members modifiers results evaluated flavor ∈ us →
        evaluated = true ∧ List.Forall₂ RoundedTo members results) roll'.terms := by
  obtain ⟨ts, s, evaluates, rfl, -⟩ := evaluate_ok ok
  obtain ⟨-, complete, -⟩ := (leads_evaluate read).ok (summed_start roller) evaluates
  refine complete.mono fun us complete members modifiers results evaluated flavor mem => ?_
  cases complete.evaluated _ mem with
  | pool _ _ scored => exact ⟨rfl, scored.imp fun member die scores => scores.roundedTo⟩

/-- Halves on both sides of zero, a member with a pool in it, and one that is too large. -/
theorem evaluate_rounded_halves :
    ∃ (roll roll' : Roll) (roller' : Roller) (total : Float),
      Formula.read "\x7b5 / 2, -5 / 2, \x7b1d6, 3\x7dcs>4 + 1, 2 * 10000000000000000000\x7dcs>2" =
          .ok roll.terms ∧
        roll.evaluate (.highest 2) = (.ok total, roll', roller') ∧
          Everywhere (fun us => ∀ members modifiers results evaluated flavor,
            Term.pool members modifiers results evaluated flavor ∈ us →
              evaluated = true ∧ List.Forall₂ RoundedTo members results) roll'.terms := by
  have comes : ∃ ts ∈ (Formula.read
      "\x7b5 / 2, -5 / 2, \x7b1d6, 3\x7dcs>4 + 1, 2 * 10000000000000000000\x7dcs>2").toOption,
      ((ofTerms ts).evaluate (.highest 2)).1.toOption.isSome = true := by
    decide +kernel
  obtain ⟨ts, read, ends⟩ := comes
  rcases outcome : (ofTerms ts).evaluate (.highest 2) with ⟨e | total, roll', roller'⟩
  · rw [outcome] at ends
    cases ends
  · exact ⟨ofTerms ts, roll', roller', total, eq_ok_of_toOption read, outcome,
      evaluate_rounded (eq_ok_of_toOption read) outcome⟩

/-- The member of a pool that has only one, and no modifiers, with its result. -/
def single? : Term → Option (List Term × Die)
  | .pool [member] [] [die] true none => some (member, die)
  | _ => none

theorem eq_of_single? {t : Term} {member : List Term} {die : Die}
    (only : single? t = some (member, die)) : t = .pool [member] [] [die] true none := by
  unfold single? at only
  split at only
  · cases only
    rfl
  · cases only

/-- A member whose total does not fit: the roll is evaluated, and the result is another number. -/
theorem evaluate_saturates :
    ∃ (roll roll' : Roll) (roller' : Roller) (total x : Float) (member : List Term) (die : Die),
      parse "\x7b10000000000000000000\x7d" = .ok roll ∧
        roll.evaluate (.lowest 0) = (.ok total, roll', roller') ∧
          Term.pool [member] [] [die] true none ∈ roll'.terms ∧ totalAll member = .ok x ∧
            NearestWhole (Double.value x) 10000000000000000000 ∧
              ¬ NearestWhole (Double.value x) die.value := by
  have comes : ∃ roll ∈ (parse "\x7b10000000000000000000\x7d").toOption,
      (roll.evaluate (.lowest 0)).1.toOption.isSome = true ∧
        ∃ t ∈ (roll.evaluate (.lowest 0)).2.1.terms, ∃ only ∈ single? t,
          (totalAll only.1).toOption.bind nearestWhole? = some 10000000000000000000 ∧
            only.2.value = 9223372036854775807 := by decide +kernel
  obtain ⟨roll, parsed, ends, t, mem, ⟨member, die⟩, only, rounds, shown⟩ := comes
  obtain rfl := eq_of_single? only
  rcases outcome : roll.evaluate (.lowest 0) with ⟨e | total, roll', roller'⟩
  · rw [outcome] at ends
    cases ends
  · rw [outcome] at mem
    obtain ⟨x, comes, nearest⟩ := Option.bind_eq_some_iff.1 rounds
    have comes := eq_ok_of_toOption comes
    obtain ⟨n, rounded, best⟩ := Double.nearestWhole?_value (Arithmetic.total_finite comes)
    obtain rfl : n = 10000000000000000000 := Option.some.inj (rounded.symm.trans nearest)
    refine ⟨roll, roll', roller', total, x, member, die, eq_ok_of_toOption parsed, outcome, mem,
      comes, best, fun other => ?_⟩
    rw [show die.value = 9223372036854775807 from shown] at other
    exact absurd (best.unique other) (by decide)

end Roll

end DiceFormula
