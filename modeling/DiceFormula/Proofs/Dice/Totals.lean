/-
# DiceFormula.Proofs.Dice.Totals -- what the total of dice can be

A sum of dice adds the values of the kept dice in their order (`Die.values`), and each sum on the way
has to fit in 64 bits.  So a sum is exact or it overflows, and there is nothing between
(`Die.sum_cases`); and it depends on these values only (`Die.sum_congr`).

A total that counts dice always fits.  So all totals fit (`tally_within`), and a total that is
missing is a sum that overflowed (`tally_error`).
-/
import DiceFormula.Dice.Rolled
import Mathlib

namespace DiceFormula

set_option autoImplicit false

/-! ## Checked sums -/

section Sums

variable {start : Int}

/-- Adding one value after the other comes to the exact sum, or overflows. -/
theorem foldlM_addWithin (values : List Int)
    (within : Limit.leastValue ≤ start ∧ start ≤ Limit.mostValue) :
    values.foldlM addWithin start = .error .overflow ∨
      values.foldlM addWithin start = .ok (start + values.sum) ∧
        Limit.leastValue ≤ start + values.sum ∧ start + values.sum ≤ Limit.mostValue := by
  induction values generalizing start with
  | nil =>
      rw [List.sum_nil, Int.add_zero]
      exact .inr ⟨rfl, within⟩
  | cons v values ih =>
      rw [List.foldlM_cons, addWithin]
      split
      · rename_i fits
        rw [List.sum_cons, ← Int.add_assoc]
        exact ih fits
      · exact .inl rfl

/-- Small values that are few do not overflow. -/
theorem exists_foldlM_addWithin {values : List Int} {bound : Int}
    (small : ∀ v ∈ values, 0 ≤ v ∧ v ≤ bound) (positive : 0 ≤ start)
    (fits : start + values.length * bound ≤ Limit.mostValue) :
    ∃ total, values.foldlM addWithin start = .ok total := by
  induction values generalizing start with
  | nil => exact ⟨start, rfl⟩
  | cons v values ih =>
      obtain ⟨⟨low, high⟩, small⟩ := List.forall_mem_cons.1 small
      have others : 0 ≤ (values.length : Int) * bound :=
        Int.mul_nonneg (Int.natCast_nonneg _) (low.trans high)
      rw [List.length_cons, Nat.cast_add, Nat.cast_one, Int.add_mul, Int.one_mul] at fits
      have within : Limit.leastValue ≤ start + v ∧ start + v ≤ Limit.mostValue := by
        have least : Limit.leastValue ≤ 0 := by decide
        omega
      have positive : 0 ≤ start + v := by omega
      obtain ⟨total, ok⟩ := ih small positive (by omega)
      refine ⟨total, ?_⟩
      rw [List.foldlM_cons, addWithin, if_pos within]
      exact ok

end Sums

/-! ## Sums of dice -/

namespace Die

/-- The values of the kept dice, in their order. -/
def values (dice : List Die) : List Int := (dice.filter isKept).map value

@[simp] theorem length_values (dice : List Die) : (values dice).length = dice.countP isKept := by
  rw [values, List.length_map, List.countP_eq_length_filter]

theorem sum_eq_foldlM (dice : List Die) : Die.sum dice = (values dice).foldlM addWithin 0 := by
  rw [values, List.foldlM_map]
  rfl

variable {dice dice' : List Die}

theorem sum_congr (same : values dice = values dice') : Die.sum dice = Die.sum dice' := by
  rw [sum_eq_foldlM, sum_eq_foldlM, same]

/-- **The sum of dice is exact and fits, or it overflows.** -/
theorem sum_cases (dice : List Die) :
    Die.sum dice = .error .overflow ∨
      Die.sum dice = .ok (values dice).sum ∧
        Limit.leastValue ≤ (values dice).sum ∧ (values dice).sum ≤ Limit.mostValue := by
  have zero : Limit.leastValue ≤ 0 ∧ 0 ≤ Limit.mostValue := by decide
  have cases := foldlM_addWithin (values dice) zero
  rwa [Int.zero_add, ← sum_eq_foldlM] at cases

theorem sum_eq {total : Int} (ok : Die.sum dice = .ok total) : total = (values dice).sum := by
  rcases sum_cases dice with overflow | ⟨sum, -⟩
  · rw [ok] at overflow
    cases overflow
  · rw [ok] at sum
    exact Except.ok.inj sum

theorem exists_sum {bound : Int} (small : ∀ v ∈ values dice, 0 ≤ v ∧ v ≤ bound)
    (fits : (values dice).length * bound ≤ Limit.mostValue) : ∃ total, Die.sum dice = .ok total := by
  rw [sum_eq_foldlM]
  exact exists_foldlM_addWithin small le_rfl (by rwa [Int.zero_add])

end Die

/-! ## Totals -/

section Tally

variable {modifiers : List Modifier} {dice : List Die}

/-- Totals of dice fit in 64 bits. -/
theorem tally_within {n : Int} (total : tally modifiers dice = .ok n) :
    Limit.leastValue ≤ n ∧ n ≤ Limit.mostValue := by
  have count (p : Die → Bool) : Limit.leastValue ≤ (Die.countKept p dice : Int) ∧
      (Die.countKept p dice : Int) ≤ Limit.mostValue := by
    have few : Die.countKept p dice ≤ Limit.mostCount := Nat.min_le_right _ _
    constructor
    · exact Int.le_trans (by decide) (Int.natCast_nonneg _)
    · exact Int.le_trans (Int.ofNat_le.2 few) (by decide)
  unfold tally at total
  split at total
  · cases total
    exact count _
  · split at total
    · cases total
      exact count _
    · rcases Die.sum_cases dice with overflow | ⟨sum, within⟩
      · rw [total] at overflow
        cases overflow
      · rw [total] at sum
        cases sum
        exact within

/-- There is no other error of totals. -/
theorem tally_error {e : DiceError} (failed : tally modifiers dice = .error e) : e = .overflow := by
  unfold tally at failed
  split at failed
  · cases failed
  · split at failed
    · cases failed
    · rcases Die.sum_cases dice with overflow | ⟨sum, -⟩
      · rw [failed] at overflow
        exact Except.error.inj overflow
      · rw [failed] at sum
        cases sum

end Tally

/-- Dice that count successes total these. -/
theorem Rolled.total_of_counting {r : Rolled} {c : Condition}
    (counts : .countSuccess c ∈ r.dice.modifiers) : r.total = .ok (r.successes : Nat) := by
  have counted : r.dice.modifiers.any Modifier.countsSuccesses = true :=
    List.any_eq_true.2 ⟨_, counts, rfl⟩
  rw [total, tally, if_pos counted]
  rfl

end DiceFormula
