/-
# DiceFormula.Proofs.Double.Sign -- decimals have no sign

A numeral has no sign, and neither has what it is read as: products and quotients of parts
without a negative sign have none (`negativeOf_mul`, `negativeOf_div`), rounding keeps the sign,
and packing keeps it also where a double overflows (`isNegative_ofParts_eq_false`).

So every finite number that was read from a numeral is written as a numeral that is read as the
same double (`Numeral.exists_formulaNumber`).
-/
import DiceFormula.Proofs.Double.Numeral

namespace DiceFormula

set_option autoImplicit false

namespace Double

open Float.Model UnpackedFloat

/-! ## Parts without a negative sign -/

/-- The parts without a negative sign. -/
theorem positive_of_negativeOf {u : UnpackedFloat} (sign : negativeOf u = false) :
    u = .notANumber ∨ u = .infinity .positive ∨ u = .zero .positive ∨
      ∃ m q pos, u = .finite .positive m q pos := by
  cases u with
  | notANumber => exact .inl rfl
  | infinity s =>
      cases s with
      | positive => exact .inr (.inl rfl)
      | negative => cases sign
  | zero s =>
      cases s with
      | positive => exact .inr (.inr (.inl rfl))
      | negative => cases sign
  | finite s m q pos =>
      cases s with
      | positive => exact .inr (.inr (.inr ⟨m, q, pos, rfl⟩))
      | negative => cases sign

/-- Words with a positive sign do not reach the sign bit. -/
theorem packComponents_lt (e : BitVec 11) (m : BitVec 52) :
    (packComponents .binary64 .positive e m).toNat < 2 ^ 63 := by
  have word := toNat_packComponents .positive e m
  have sign : Sign.positive.toBitVec.toNat = 0 := rfl
  have he := e.isLt
  have hm := m.isLt
  omega

theorem pack_lt {u : UnpackedFloat} (sign : negativeOf u = false) :
    (UnpackedFloat.pack .binary64 u).toNat < 2 ^ 63 := by
  rcases positive_of_negativeOf sign with rfl | rfl | rfl | ⟨m, q, pos, rfl⟩
  · exact packComponents_lt _ _
  · exact packComponents_lt _ _
  · exact packComponents_lt _ _
  · unfold UnpackedFloat.pack
    dsimp only
    split
    · exact packComponents_lt _ _
    · split <;> exact packComponents_lt _ _

/-- Packing parts makes no negative sign, even if it overflows. -/
theorem isNegative_ofParts_eq_false {u : UnpackedFloat} (sign : negativeOf u = false) :
    isNegative (ofParts u) = false := by
  have low := pack_lt sign
  rw [isNegative, toBits_ofParts]
  exact decide_eq_false (by omega)

/-- Rounding keeps the sign. -/
theorem negativeOf_roundWithAccuracy (s : Sign) (m : Nat) (q : Int) (accuracy : Accuracy) :
    negativeOf (roundWithAccuracy .binary64 s m q accuracy) = (s == .negative) := by
  unfold roundWithAccuracy
  dsimp only
  split <;> rfl

theorem negativeOf_mul {u v : UnpackedFloat} (left : negativeOf u = false)
    (right : negativeOf v = false) : negativeOf (UnpackedFloat.mul .binary64 u v) = false := by
  rcases positive_of_negativeOf left with rfl | rfl | rfl | ⟨m, q, pos, rfl⟩ <;>
    rcases positive_of_negativeOf right with rfl | rfl | rfl | ⟨m', q', pos', rfl⟩ <;>
      first | rfl | exact negativeOf_roundWithAccuracy _ _ _ _

theorem negativeOf_div {u v : UnpackedFloat} (left : negativeOf u = false)
    (right : negativeOf v = false) : negativeOf (UnpackedFloat.div .binary64 u v) = false := by
  rcases positive_of_negativeOf left with rfl | rfl | rfl | ⟨m, q, pos, rfl⟩ <;>
    rcases positive_of_negativeOf right with rfl | rfl | rfl | ⟨m', q', pos', rfl⟩ <;>
      first | rfl | exact negativeOf_roundWithAccuracy _ _ _ _

/-! ## Decimals -/

theorem negativeOf_ofScientific (n : Nat) (e : Int) :
    negativeOf (UnpackedFloat.ofScientific .binary64 n e) = false := by
  unfold UnpackedFloat.ofScientific
  split
  · rfl
  · split
    · rfl
    · split
      · rfl
      · split
        · exact negativeOf_mul rfl rfl
        · exact negativeOf_div rfl rfl

/-- Whole numbers of 53 bits have no sign. -/
theorem negativeOf_whole {n : Nat} (small : n < 2 ^ 53) :
    negativeOf (parts n.toUInt64.toFloat) = false := by
  rcases Nat.eq_zero_or_pos n with rfl | nonzero
  · rfl
  · obtain ⟨m, q, pos, whole, -, -⟩ := parts_whole nonzero small
    rw [whole]
    rfl

/-- **What a decimal is read as has no negative sign.** -/
theorem isNegative_toFloat (d : Decimal) : isNegative d.toFloat = false := by
  by_cases short : d.units < 2 ^ 53 ∧ d.exponent.natAbs ≤ 22
  · have le : d.exponent.natAbs < Float.exactlyRepresentablePowersOfTen.size :=
      Nat.lt_succ_of_le short.2
    obtain ⟨m, q, pos, power, -, -⟩ := parts_powerOfTen le
    have whole := negativeOf_whole short.1
    have sign : negativeOf (parts Float.exactlyRepresentablePowersOfTen[d.exponent.natAbs]) =
        false := by rw [power]; rfl
    rw [toFloat_eq, Float.ofScientific, dif_pos short]
    split
    · exact isNegative_ofParts_eq_false (negativeOf_div whole sign)
    · exact isNegative_ofParts_eq_false (negativeOf_mul whole sign)
  · rw [toFloat_long short]
    exact isNegative_ofParts_eq_false (negativeOf_ofScientific _ _)

end Double

namespace Numeral

open Double

theorem isNegative_value (n : Numeral) : isNegative n.value = false :=
  isNegative_toFloat _

/-- **A finite number that was read from a numeral is written as a numeral that is read as the
same double.** -/
theorem exists_formulaNumber (n : Numeral) (finite : n.value.isFinite = true) :
    ∃ n' : Numeral, (formulaNumber n.value).toList = n'.text ∧ n'.value = n.value := by
  have sign := n.isNegative_value
  by_cases isZero : IsZero n.value
  · rw [formulaNumber_toList, if_pos ((beq_zero_iff _).2 isZero)]
    obtain ⟨s, hx⟩ := isZero
    refine ⟨zero, rfl, parts_injective ?_⟩
    rw [isNegative_eq, hx] at sign
    rw [parts_zero_value, hx]
    cases s with
    | positive => rfl
    | negative => cases sign
  · rw [formulaNumber_toList, if_neg fun eq => isZero ((beq_zero_iff _).1 eq)]
    exact exists_numeral finite sign

end Numeral

end DiceFormula
