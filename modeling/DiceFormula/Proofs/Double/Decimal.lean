/-
# DiceFormula.Proofs.Double.Decimal -- reading decimals

`Decimal.value` is the number that a decimal stands for.  A decimal is read as
its nearest double (`parts_toFloat`): short ones are a product or a quotient of a
whole number and a power of ten that are both exact doubles, all others are
worked out in exact arithmetic and rounded once.
-/
import DiceFormula.Proofs.Double.Rounding

namespace DiceFormula

set_option autoImplicit false

/-- The number `units * 10 ^ exponent`. -/
def Decimal.value (d : Decimal) : ℚ := d.units * 10 ^ d.exponent

namespace Double

open Float.Model UnpackedFloat

/-! ## Exact doubles -/

theorem parts_of_magnitude {x : Float} {m : Nat} {q : Int} (pos : 0 < m)
    (size : magnitude x = .finite m q) (sign : isNegative x = false) :
    parts x = .finite .positive m q pos := by
  rw [magnitude_eq] at size
  rw [isNegative_eq] at sign
  cases h : parts x with
  | notANumber => rw [h] at size; cases size
  | infinity s => rw [h] at size; cases size
  | zero s => rw [h] at size; cases size; cases pos
  | finite s m' q' pos' =>
      rw [h] at size sign
      cases size
      cases s with
      | positive => rfl
      | negative => cases sign

theorem parts_mul {x y : Float} {u : UnpackedFloat}
    (product : UnpackedFloat.mul .binary64 (parts x) (parts y) = u) (canonical : Canonical u) :
    parts (x * y) = u := by
  have packed : x * y = ofParts (UnpackedFloat.mul .binary64 (parts x) (parts y)) := rfl
  rw [packed, product, parts_ofParts canonical]

theorem parts_div {x y : Float} {u : UnpackedFloat}
    (quotient : UnpackedFloat.div .binary64 (parts x) (parts y) = u) (canonical : Canonical u) :
    parts (x / y) = u := by
  have packed : x / y = ofParts (UnpackedFloat.div .binary64 (parts x) (parts y)) := rfl
  rw [packed, quotient, parts_ofParts canonical]

/-- A power of ten that is an exact double, with a mantissa of 53 bits. -/
def powerMantissa (e : Nat) : Nat := 10 ^ e * 2 ^ 52 / 2 ^ (10 ^ e).log2

theorem powersOfTen_exact : ∀ e : Fin 23,
    magnitude (getElem Float.exactlyRepresentablePowersOfTen e.val e.isLt) =
        .finite (powerMantissa e) ((10 ^ e.val).log2 - 52) ∧
      isNegative (getElem Float.exactlyRepresentablePowersOfTen e.val e.isLt) = false ∧
      2 ^ 52 ≤ powerMantissa e ∧
      powerMantissa e * 2 ^ (10 ^ e.val).log2 = 10 ^ e.val * 2 ^ 52 := by
  decide +kernel

theorem parts_powerOfTen {e : Nat} (le : e < Float.exactlyRepresentablePowersOfTen.size) :
    ∃ (m : Nat) (q : Int) (pos : 0 < m),
      parts Float.exactlyRepresentablePowersOfTen[e] = .finite .positive m q pos ∧
        (m : ℚ) * 2 ^ q = 10 ^ e ∧ 2 ^ 52 ≤ m := by
  obtain ⟨size, sign, large, shifted⟩ := powersOfTen_exact ⟨e, le⟩
  have pos : 0 < powerMantissa e := lt_of_lt_of_le (by norm_num) large
  refine ⟨powerMantissa e, (10 ^ e).log2 - 52, pos, parts_of_magnitude pos size sign, ?_, large⟩
  have value : (powerMantissa e : ℚ) * 2 ^ (10 ^ e).log2 = 10 ^ e * 2 ^ 52 := by
    exact_mod_cast shifted
  rw [zpow_sub₀ (by norm_num), zpow_natCast, ← mul_div_assoc, value]
  norm_num

/-- Whole numbers of 53 bits are doubles. -/
theorem parts_whole {n : Nat} (nonzero : 0 < n) (small : n < 2 ^ 53) :
    ∃ (m : Nat) (q : Int) (pos : 0 < m),
      parts n.toUInt64.toFloat = .finite .positive m q pos ∧ (m : ℚ) * 2 ^ q = n ∧ 2 ^ 52 ≤ m := by
  have digits : n.log2 ≤ 52 := Nat.le_of_lt_succ ((Nat.log2_lt (Nat.ne_of_gt nonzero)).2 small)
  have word : n.toUInt64.toNat = n := by
    simp only [Nat.toUInt64_eq]
    exact UInt64.toNat_ofNat_of_lt' (by simp only [UInt64.size]; omega)
  have target : Format.binary64.targetExponent (totalExponent n 0) = (n.log2 : Int) - 52 := by
    rw [Format.targetExponent, mantissaBits_binary64, minExponent_binary64, totalExponent]
    omega
  have shift : (0 - ((n.log2 : Int) - 52)).toNat = 52 - n.log2 := by omega
  have large : 2 ^ 52 ≤ n <<< (52 - n.log2) := by
    rw [Nat.shiftLeft_eq]
    calc 2 ^ 52 = 2 ^ n.log2 * 2 ^ (52 - n.log2) := by rw [← pow_add]; congr 1; omega
      _ ≤ n * 2 ^ (52 - n.log2) :=
          Nat.mul_le_mul_right _ (Nat.log2_self_le (Nat.ne_of_gt nonzero))
  have fits : n <<< (52 - n.log2) < 2 ^ 53 := by
    rw [Nat.shiftLeft_eq]
    calc n * 2 ^ (52 - n.log2) < 2 ^ (n.log2 + 1) * 2 ^ (52 - n.log2) :=
          Nat.mul_lt_mul_of_pos_right Nat.lt_log2_self (by positivity)
      _ = 2 ^ 53 := by rw [← pow_add]; congr 1; omega
  have pos : 0 < n <<< (52 - n.log2) := lt_of_lt_of_le (by norm_num) large
  have canonical : Canonical (.finite .positive _ ((n.log2 : Int) - 52) pos) :=
    ⟨fits, by omega, by omega, Or.inl large⟩
  refine ⟨n <<< (52 - n.log2), (n.log2 : Int) - 52, pos, ?_, ?_, large⟩
  · have packed : n.toUInt64.toFloat = ofParts (normalize .binary64 n.toUInt64.toNat 0 .positive) :=
      rfl
    have positive : compare (n : Int) 0 = .gt := Int.compare_eq_gt.2 (by omega)
    have rounded := roundWithAccuracy_of_nearest .positive (nearest_self _ _) pos canonical
      (placed_exact _ _) (by
        rw [Format.targetExponent, mantissaBits_binary64, minExponent_binary64, totalExponent,
          log2_of_normal large fits]
        omega)
    rw [packed, word, UnpackedFloat.normalize, positive]
    simp only [UnpackedFloat.round, decreaseExponent, Int.toNat_natCast, target, shift]
    rw [show (0 : Int) - ((52 - n.log2 : Nat) : Int) = (n.log2 : Int) - 52 by omega, rounded,
      parts_ofParts canonical]
  · rw [Nat.shiftLeft_eq, zpow_sub₀ (by norm_num), zpow_natCast]
    have split : ((2 ^ (52 - n.log2) : Nat) : ℚ) * 2 ^ n.log2 = 2 ^ 52 := by
      rw [Nat.cast_pow, Nat.cast_ofNat, ← pow_add]
      congr 1
      omega
    have unit : (2 : ℚ) ^ (52 : Int) = 2 ^ 52 := rfl
    rw [unit, Nat.cast_mul, ← mul_div_assoc, mul_assoc, split]
    field_simp

/-! ## Decimals -/

theorem toFloat_eq (d : Decimal) :
    d.toFloat = Float.ofScientific d.units (decide (d.exponent < 0)) d.exponent.natAbs := by
  unfold Decimal.toFloat
  split
  · rename_i negative
    rw [decide_eq_true negative]
  · rename_i negative
    rw [decide_eq_false negative]

/-- Short decimals take one exact multiplication or division. -/
theorem parts_short {d : Decimal} {m : Nat} {q : Int} (near : Nearest d.value m q) (pos : 0 < m)
    (canonical : Canonical (.finite .positive m q pos)) (nonzero : 0 < d.units)
    (small : d.units < 2 ^ 53) (few : d.exponent.natAbs ≤ 22) :
    parts d.toFloat = .finite .positive m q pos := by
  have le : d.exponent.natAbs < Float.exactlyRepresentablePowersOfTen.size :=
    Nat.lt_succ_of_le few
  obtain ⟨m₁, q₁, pos₁, whole, value₁, large₁⟩ := parts_whole nonzero small
  obtain ⟨m₂, q₂, pos₂, power, value₂, large₂⟩ := parts_powerOfTen le
  rw [toFloat_eq, Float.ofScientific, dif_pos ⟨small, few⟩]
  by_cases fraction : d.exponent < 0
  · rw [decide_eq_true fraction]
    refine parts_div ?_ canonical
    rw [whole, power]
    refine div_of_nearest ?_ pos canonical
    have inverse : (10 : ℚ) ^ d.exponent = (10 ^ d.exponent.natAbs)⁻¹ := by
      rw [← zpow_natCast, ← zpow_neg]
      congr 1
      omega
    rwa [value₁, value₂, div_eq_mul_inv, ← inverse]
  · rw [decide_eq_false fraction]
    refine parts_mul ?_ canonical
    rw [whole, power]
    refine mul_of_nearest ?_ pos canonical ?_
    · rwa [value₁, value₂, ← zpow_natCast, Int.natAbs_of_nonneg (not_lt.1 fraction)]
    · exact large₁.trans (Nat.le_mul_of_pos_right _ pos₂)

/-- All other decimals are worked out exactly. -/
theorem toFloat_long {d : Decimal} (long : ¬ (d.units < 2 ^ 53 ∧ d.exponent.natAbs ≤ 22)) :
    d.toFloat = ofParts (UnpackedFloat.ofScientific .binary64 d.units d.exponent) := by
  have exponent : (if decide (d.exponent < 0) = true then Int.negOfNat d.exponent.natAbs
      else Int.ofNat d.exponent.natAbs) = d.exponent := by
    cases d.exponent with
    | ofNat k => rw [if_neg (by simp)]; rfl
    | negSucc k => rw [if_pos (by simp)]; rfl
  rw [toFloat_eq, Float.ofScientific, dif_neg long, exponent]
  rfl

/-- No double lies so high that a power of ten has to be given up. -/
theorem exponent_small {n m : Nat} {e q : Int} (near : Nearest (n * 10 ^ e) m q) {pos : 0 < m}
    (canonical : Canonical (.finite .positive m q pos)) (nonzero : 0 < n) : e ≤ 2048 := by
  obtain ⟨small, -, most, -⟩ := canonical
  by_contra large
  have nonzeroQ : (1 : ℚ) ≤ n := by exact_mod_cast nonzero
  have smallQ : (m : ℚ) + 1 ≤ 2 ^ 53 := by exact_mod_cast small
  have above : (2 : ℚ) ^ (1024 : Int) < n * 10 ^ e :=
    calc (2 : ℚ) ^ (1024 : Int) < 2 ^ e := zpow_lt_zpow_right₀ (by norm_num) (by omega)
      _ ≤ 10 ^ e := zpow_le_zpow_left₀ (by omega) (by norm_num) (by norm_num)
      _ ≤ n * 10 ^ e := le_mul_of_one_le_left (by positivity) nonzeroQ
  have under : (n : ℚ) * 10 ^ e < 2 ^ (53 + q) :=
    calc (n : ℚ) * 10 ^ e ≤ (m + 1 / 2) * 2 ^ q := near.high
      _ < 2 ^ 53 * 2 ^ q := mul_lt_mul_of_pos_right (by linarith) (two_zpow_pos q)
      _ = 2 ^ (53 + q) := pow_mul_zpow 53 q
  have := exponent_lt_of_zpow_lt (above.trans under)
  omega

/-- No double but zero lies so low that a power of ten has to be given up. -/
theorem exponent_large {n m : Nat} {e q : Int} (near : Nearest (n * 10 ^ e) m q) {pos : 0 < m}
    (canonical : Canonical (.finite .positive m q pos)) : -(2048 + (n.log2 : Int)) ≤ e := by
  obtain ⟨-, least, -, -⟩ := canonical
  by_contra small
  have posQ : (1 : ℚ) ≤ m := by exact_mod_cast pos
  have digits : (n : ℚ) < 2 ^ (n.log2 + 1) := by exact_mod_cast Nat.lt_log2_self
  obtain ⟨k, power⟩ := Int.eq_ofNat_of_zero_le (a := -e) (by omega)
  have tenth : (10 : ℚ) ^ e ≤ 2 ^ e := by
    have negative : e = -(k : Int) := by omega
    rw [negative, zpow_neg, zpow_neg, zpow_natCast, zpow_natCast]
    exact inv_anti₀ (by positivity) (pow_le_pow_left₀ (by norm_num) (by norm_num) k)
  have under : (n : ℚ) * 10 ^ e < 2 ^ ((n.log2 + 1 : Nat) + e) :=
    calc (n : ℚ) * 10 ^ e < 2 ^ (n.log2 + 1) * 10 ^ e :=
          mul_lt_mul_of_pos_right digits (by positivity)
      _ ≤ 2 ^ (n.log2 + 1) * 2 ^ e := mul_le_mul_of_nonneg_left tenth (by positivity)
      _ = 2 ^ ((n.log2 + 1 : Nat) + e) := pow_mul_zpow _ e
  have above : (2 : ℚ) ^ (q - 1) ≤ n * 10 ^ e :=
    calc (2 : ℚ) ^ (q - 1) = 1 / 2 * 2 ^ q := by rw [zpow_sub_one₀ (by norm_num)]; ring
      _ ≤ (m - reach m q) * 2 ^ q := by
          have := (reach_bounds m q).2
          exact mul_le_mul_of_nonneg_right (by linarith) (two_zpow_pos q).le
      _ ≤ n * 10 ^ e := near.low
  have := exponent_lt_of_zpow_lt (above.trans_lt under)
  omega

theorem ofScientific_of_nearest {n m : Nat} {e q : Int} (near : Nearest (n * 10 ^ e) m q)
    (pos : 0 < m) (canonical : Canonical (.finite .positive m q pos)) (nonzero : 0 < n) :
    UnpackedFloat.ofScientific .binary64 n e = .finite .positive m q pos := by
  have high : ¬ e > 2 ^ Format.binary64.exponentBits := by
    have := exponent_small near canonical nonzero
    show ¬ e > 2 ^ 11
    omega
  have low : ¬ e < -((2 ^ Format.binary64.exponentBits : Int) + n.log2) := by
    have := exponent_large near canonical
    show ¬ e < -((2 ^ 11 : Int) + n.log2)
    omega
  rw [UnpackedFloat.ofScientific, dif_neg (Nat.ne_of_gt nonzero), if_neg high, if_neg low]
  split
  · rename_i whole
    refine mul_of_nearest ?_ pos canonical ?_
    · have shifted : ((n <<< Format.binary64.mantissaBits : Nat) : ℚ) *
          2 ^ (-(Format.binary64.mantissaBits : Int)) = n := by
        rw [mantissaBits_binary64, Nat.shiftLeft_eq, zpow_neg, zpow_natCast, Nat.cast_mul,
          Nat.cast_pow, Nat.cast_ofNat]
        field_simp
      have power : (((10 ^ e.toNat : Nat) : ℚ)) * 2 ^ (0 : Int) = 10 ^ e := by
        rw [zpow_zero, mul_one, Nat.cast_pow, ← zpow_natCast, Int.toNat_of_nonneg whole]
        rfl
      rwa [shifted, power]
    · rw [mantissaBits_binary64, Nat.shiftLeft_eq]
      have one : 1 ≤ 10 ^ e.toNat := Nat.one_le_pow _ _ (by norm_num)
      calc 2 ^ 52 ≤ 1 * 2 ^ 53 * 1 := by norm_num
        _ ≤ n * 2 ^ 53 * 10 ^ e.toNat := Nat.mul_le_mul (Nat.mul_le_mul_right _ nonzero) one
  · rename_i fraction
    refine div_of_nearest ?_ pos canonical
    have power : (((10 ^ (-e).toNat : Nat) : ℚ)) * 2 ^ (0 : Int) = (10 ^ e)⁻¹ := by
      rw [zpow_zero, mul_one, Nat.cast_pow, ← zpow_natCast, Int.toNat_of_nonneg (by omega),
        zpow_neg]
      rfl
    rwa [power, zpow_zero, mul_one, div_inv_eq_mul]

/-- Only zero has no units. -/
theorem units_pos {d : Decimal} {m : Nat} {q : Int} (near : Nearest d.value m q) (pos : 0 < m) :
    0 < d.units := by
  by_contra zero
  have posQ : (1 : ℚ) ≤ m := by exact_mod_cast pos
  have positive : 0 < ((m : ℚ) - reach m q) * 2 ^ q :=
    mul_pos (by linarith [(reach_bounds m q).2]) (two_zpow_pos q)
  have value : d.value = 0 := by simp [Decimal.value, Nat.eq_zero_of_not_pos zero]
  linarith [near.low]

/-- **A decimal is read as its nearest double.** -/
theorem parts_toFloat {d : Decimal} {m : Nat} {q : Int} (near : Nearest d.value m q) (pos : 0 < m)
    (canonical : Canonical (.finite .positive m q pos)) :
    parts d.toFloat = .finite .positive m q pos := by
  have nonzero := units_pos near pos
  by_cases short : d.units < 2 ^ 53 ∧ d.exponent.natAbs ≤ 22
  · exact parts_short near pos canonical nonzero short.1 short.2
  · rw [toFloat_long short, ofScientific_of_nearest near pos canonical nonzero,
      parts_ofParts canonical]

/-- No units are read as zero. -/
theorem parts_toFloat_zero {d : Decimal} (none : d.units = 0) :
    parts d.toFloat = .zero .positive := by
  by_cases short : d.units < 2 ^ 53 ∧ d.exponent.natAbs ≤ 22
  · have le : d.exponent.natAbs < Float.exactlyRepresentablePowersOfTen.size :=
      Nat.lt_succ_of_le short.2
    obtain ⟨m, q, pos, power, -, -⟩ := parts_powerOfTen le
    have zero : parts d.units.toUInt64.toFloat = .zero .positive := by rw [none]; rfl
    rw [toFloat_eq, Float.ofScientific, dif_pos short]
    by_cases fraction : d.exponent < 0
    · rw [decide_eq_true fraction]
      refine parts_div ?_ trivial
      rw [zero, power]
      rfl
    · rw [decide_eq_false fraction]
      refine parts_mul ?_ trivial
      rw [zero, power]
      rfl
  · rw [toFloat_long short, UnpackedFloat.ofScientific, dif_pos none]
    exact parts_ofParts trivial

end Double

end DiceFormula
