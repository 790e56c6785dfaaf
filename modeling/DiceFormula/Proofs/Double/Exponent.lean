/-
# DiceFormula.Proofs.Double.Exponent -- numbers that are written with an exponent

JSON text writes a number with an exponent if its digits stand for less than `1e-5`, or for `1e16`
or more.  Digits and doubles are ordered alike, since the intervals of two doubles do not overlap
(`interval_le`).  So it is the double itself that decides: it is written without an exponent exactly
if it is `Moderate` (`positional_json_iff`), and then its text is a numeral, with a minus sign in
front if need be (`json_moderate`).  The text of any other double is two numerals with an `e` and a
sign between them (`json_extreme`).
-/
import DiceFormula.Proofs.Double.NearestWhole
import DiceFormula.Proofs.Double.Numeral

namespace DiceFormula.Double

open Float.Model UnpackedFloat Decimal

set_option autoImplicit false

/-! ## Doubles in order -/

section Order

variable {m m' : Nat} {q q' : Int} {pos : 0 < m} {pos' : 0 < m'}
  (canonical : Canonical (.finite .positive m q pos))
  (canonical' : Canonical (.finite .positive m' q' pos'))

include canonical in
/-- Where the exponent is larger all doubles are. -/
theorem high_of_exponent_lt (less : q < q') :
    ((m : ℚ) + 1 / 2) * 2 ^ q ≤ (2 ^ 52 - 1 / 4) * 2 ^ q' := by
  have small : (m : ℚ) + 1 ≤ 2 ^ 53 := by exact_mod_cast canonical.1
  have double : (2 : ℚ) * 2 ^ q ≤ 2 ^ q' := by
    have grows : (2 : ℚ) ^ (1 + q) ≤ 2 ^ q' := zpow_le_zpow_right₀ (by norm_num) (by omega)
    rwa [zpow_add₀ (by norm_num), zpow_one] at grows
  calc ((m : ℚ) + 1 / 2) * 2 ^ q ≤ (2 ^ 53 - 1 / 2) * 2 ^ q :=
        mul_le_mul_of_nonneg_right (by linarith) (two_zpow_pos q).le
    _ = (2 ^ 52 - 1 / 4) * (2 * 2 ^ q) := by ring
    _ ≤ (2 ^ 52 - 1 / 4) * 2 ^ q' := mul_le_mul_of_nonneg_left double (by norm_num)

include canonical' in
theorem low_of_exponent (more : -1074 < q') : (2 : ℚ) ^ 52 - 1 / 4 ≤ m' - reach m' q' := by
  have leading : 2 ^ 52 ≤ m' := canonical'.2.2.2.resolve_right (by omega)
  by_cases power : m' = 2 ^ 52
  · rw [reach, if_pos ⟨power, more⟩, power]
    norm_num
  · have larger : 2 ^ 52 + 1 ≤ m' := by omega
    have largerQ : (2 : ℚ) ^ 52 + 1 ≤ m' := by exact_mod_cast larger
    have := (reach_bounds m' q').2
    linarith

include canonical canonical'

theorem lt_of_exponent_lt (less : q < q') : (m : ℚ) * 2 ^ q < m' * 2 ^ q' := by
  have low := low_of_exponent canonical' (canonical.2.1.trans_lt less)
  have away := (reach_bounds m' q').1
  calc (m : ℚ) * 2 ^ q < (m + 1 / 2) * 2 ^ q :=
        mul_lt_mul_of_pos_right (by linarith) (two_zpow_pos q)
    _ ≤ (2 ^ 52 - 1 / 4) * 2 ^ q' := high_of_exponent_lt canonical less
    _ ≤ m' * 2 ^ q' := mul_le_mul_of_nonneg_right (by linarith) (two_zpow_pos q').le

/-- **What is rounded to a double is at most what is rounded to a larger one.** -/
theorem interval_le (lt : (m : ℚ) * 2 ^ q < m' * 2 ^ q') :
    ((m : ℚ) + 1 / 2) * 2 ^ q ≤ (m' - reach m' q') * 2 ^ q' := by
  rcases lt_trichotomy q q' with less | rfl | more
  · calc ((m : ℚ) + 1 / 2) * 2 ^ q ≤ (2 ^ 52 - 1 / 4) * 2 ^ q' := high_of_exponent_lt canonical less
      _ ≤ (m' - reach m' q') * 2 ^ q' := mul_le_mul_of_nonneg_right
          (low_of_exponent canonical' (canonical.2.1.trans_lt less)) (two_zpow_pos q').le
  · have fewer : m < m' := by exact_mod_cast lt_of_mul_lt_mul_right lt (two_zpow_pos q).le
    have next : (m : ℚ) + 1 ≤ m' := by exact_mod_cast fewer
    have := (reach_bounds m' q).2
    exact mul_le_mul_of_nonneg_right (by linarith) (two_zpow_pos q).le
  · exact absurd lt (lt_of_exponent_lt canonical' canonical more).le.not_gt

/-- A number is at most one double. -/
theorem eq_of_finite (same : (m : ℚ) * 2 ^ q = m' * 2 ^ q') : m = m' ∧ q = q' := by
  rcases lt_trichotomy q q' with less | rfl | more
  · exact absurd same (lt_of_exponent_lt canonical canonical' less).ne
  · exact ⟨by exact_mod_cast mul_right_cancel₀ (two_zpow_pos q).ne' same, rfl⟩
  · exact absurd same (lt_of_exponent_lt canonical' canonical more).ne'

/-- The digits of a double are below a bound if the double is, where the double that the bound is
rounded up to has the bound as its digits. -/
theorem shortest_lt_iff {t : ℚ} (tie : Tie) (low : (m' - reach m' q') * 2 ^ q' < t)
    (high : t ≤ m' * 2 ^ q') (short : (shortest tie m' q').value = t) :
    (shortest tie m q).value < t ↔ (m : ℚ) * 2 ^ q < t := by
  have near := shortest_nearest tie pos q
  have inside {n : Nat} {e : Int} : (n : ℚ) * 2 ^ e < (n + 1 / 2) * 2 ^ e :=
    mul_lt_mul_of_pos_right (by linarith) (two_zpow_pos e)
  rcases lt_trichotomy ((m : ℚ) * 2 ^ q) (m' * 2 ^ q') with below | same | above
  · have apart := (interval_le canonical canonical' below).trans_lt low
    exact iff_of_true (near.high.trans_lt apart) (inside.trans apart)
  · obtain ⟨rfl, rfl⟩ := eq_of_finite canonical canonical' same
    exact iff_of_false (by rw [short]; exact lt_irrefl t) high.not_gt
  · have apart := (high.trans_lt inside).le.trans (interval_le canonical' canonical above)
    exact iff_of_false (apart.trans near.low).not_gt (high.trans above.le).not_gt

end Order

/-! ## Positions of the point -/

/-- The position of the point tells how large a number is. -/
theorem point_le_iff {d : Decimal} (nonzero : 0 < d.units) (p : Int) :
    ((Nat.toDigits 10 d.units).length : Int) + d.exponent ≤ p ↔ d.value < 10 ^ p := by
  have split : (10 : ℚ) ^ p = 10 ^ (p - d.exponent) * 10 ^ d.exponent := by
    rw [← zpow_add₀ (by norm_num), sub_add_cancel]
  rw [Decimal.value, split, mul_lt_mul_iff_left₀ (by positivity)]
  have some_ : 0 < (Nat.toDigits 10 d.units).length := Nat.length_toDigits_pos
  rcases lt_or_ge 0 (p - d.exponent) with places | nowhere
  · obtain ⟨k, steps⟩ := Int.eq_ofNat_of_zero_le places.le
    have digits := Nat.length_toDigits_le_iff (n := d.units) (b := 10) (k := k) (by decide)
      (by omega)
    rw [steps, zpow_natCast]
    norm_cast
    rw [← digits]
    omega
  · refine iff_of_false (by omega) (not_lt.2 ?_)
    calc (10 : ℚ) ^ (p - d.exponent) ≤ 1 := zpow_le_one_of_nonpos₀ (by norm_num) nowhere
      _ ≤ d.units := by exact_mod_cast nonzero

/-- The double is zero, or neither too small nor too large for JSON text to write it without an
exponent. -/
def Moderate (x : Float) : Prop :=
  value x = 0 ∨ 1 / 10 ^ 5 ≤ |value x| ∧ |value x| < 10 ^ 16

section Positional

variable {m : Nat} {q : Int} {pos : 0 < m} (canonical : Canonical (.finite .positive m q pos))
include canonical

theorem shortest_lt_large : (shortest .even m q).value < 10 ^ 16 ↔ (m : ℚ) * 2 ^ q < 10 ^ 16 := by
  have bound : Canonical (.finite .positive 5000000000000000 1 (by decide)) := by
    simp [Canonical]
  refine shortest_lt_iff canonical bound .even ?_ (by norm_num) ?_
  · have := (reach_bounds 5000000000000000 1).1
    norm_num
    linarith
  · have digits : shortest .even 5000000000000000 1 = ⟨1, 16⟩ := by decide +kernel
    rw [digits]
    norm_num [Decimal.value]

theorem shortest_lt_small :
    (shortest .even m q).value < 1 / 10 ^ 5 ↔ (m : ℚ) * 2 ^ q < 1 / 10 ^ 5 := by
  have bound : Canonical (.finite .positive 5902958103587057 (-69) (by decide)) := by
    simp [Canonical]
  refine shortest_lt_iff canonical bound .even ?_ (by norm_num) ?_
  · rw [reach, if_neg (by decide)]
    norm_num
  · have digits : shortest .even 5902958103587057 (-69) = ⟨1, -5⟩ := by decide +kernel
    rw [digits]
    norm_num [Decimal.value]

theorem positional_point : Layout.json.positional (Numeral.point Layout.json.tie m q) = true ↔
    1 / 10 ^ 5 ≤ (m : ℚ) * 2 ^ q ∧ (m : ℚ) * 2 ^ q < 10 ^ 16 := by
  have units := units_pos (shortest_nearest .even pos q) pos
  have small := point_le_iff units (-5)
  have large := point_le_iff units 16
  have bound : (10 : ℚ) ^ (-5 : Int) = 1 / 10 ^ 5 := by norm_num
  rw [bound, shortest_lt_small canonical] at small
  rw [← not_lt, ← small, ← shortest_lt_large canonical]
  refine Iff.trans ?_ (and_congr Iff.rfl large)
  show ((decide (_ < _) && decide (_ ≤ _)) = true) ↔ _
  rw [Bool.and_eq_true, decide_eq_true_iff, decide_eq_true_iff, not_le]
  exact Iff.rfl

end Positional

theorem abs_value {x : Float} {m : Nat} {q : Int} (size : magnitude x = .finite m q) :
    |value x| = (m : ℚ) * 2 ^ q := by
  have nonneg : (0 : ℚ) ≤ (m : ℚ) * 2 ^ q := by positivity
  rw [value, size]
  dsimp only
  split
  · rw [abs_neg, abs_of_nonneg nonneg]
  · exact abs_of_nonneg nonneg

/-- **JSON text writes a double without an exponent if it is zero, or neither too small nor too
large.** -/
theorem positional_json_iff {x : Float} (finite : x.isFinite = true) :
    Numeral.Positional .json x ↔ Moderate x := by
  have canonical := canonical_parts x
  have size := magnitude_eq x
  rcases parts_of_isFinite finite with ⟨s, hx⟩ | ⟨s, m, q, pos, hx⟩ <;> rw [hx] at size canonical
  · have nothing : value x = 0 := abs_eq_zero.1 ((abs_value size).trans (by simp))
    refine iff_of_true (fun m q pos other => ?_) (.inl nothing)
    rw [size] at other
    cases other
    cases pos
  · have nonzero : value x ≠ 0 := by
      rw [← abs_ne_zero, abs_value size]
      positivity
    have point : Numeral.Positional .json x ↔
        Layout.json.positional (Numeral.point Layout.json.tie m q) = true := by
      refine ⟨fun positional => positional m q pos size, fun positional m' q' _ other => ?_⟩
      rw [size] at other
      cases other
      exact positional
    -- the sign makes no difference to what is canonical
    have canonical : Canonical (.finite .positive m q pos) := canonical
    rw [point, positional_point canonical, Moderate, or_iff_right nonzero, abs_value size]

theorem moderate_neg (x : Float) (finite : x.isFinite = true) : Moderate (-x) ↔ Moderate x := by
  rw [← positional_json_iff finite, ← positional_json_iff ((isFinite_neg x).trans finite),
    Numeral.Positional, Numeral.Positional, Numeral.magnitude_neg]

/-! ## Texts -/

theorem endsWhole_json : Numeral.EndsWhole .json := .inr rfl

/-- **The text of a moderate double is a numeral of it**, behind its sign. -/
theorem json_moderate {x : Float} (finite : x.isFinite = true) (moderate : Moderate x) :
    ∃ n : Numeral, (numberText .json x = n.text ∧ n.value = x) ∨
      (numberText .json x = '-' :: n.text ∧ -n.value = x) := by
  cases sign : isNegative x with
  | false =>
      obtain ⟨n, text, value⟩ := Numeral.exists_numeral_layout endsWhole_json finite sign
        ((positional_json_iff finite).2 moderate)
      exact ⟨n, .inl ⟨text, value⟩⟩
  | true =>
      have finite' : (-x).isFinite = true := (isFinite_neg x).trans finite
      obtain ⟨n, text, value⟩ := Numeral.exists_numeral_layout endsWhole_json finite'
        (by rw [Numeral.isNegative_neg finite, sign]; rfl)
        ((positional_json_iff finite').2 ((moderate_neg x finite).2 moderate))
      refine ⟨n, .inr ⟨?_, by rw [value, neg_neg]⟩⟩
      rw [Numeral.numberText_of_negative .json finite sign, text]

/-- A text with an exponent: two numerals with an `e` and a sign between them. -/
def IsExponentText (text : List Char) : Prop :=
  ∃ (mantissa power : Numeral) (sign : Char), (sign = '+' ∨ sign = '-') ∧
    text = mantissa.text ++ 'e' :: sign :: power.text

theorem isExponentText_exponentText {digits : List Char} (nonempty : digits ≠ [])
    (all : ∀ c ∈ digits, c.isDigit = true) (point : Int) :
    IsExponentText (Layout.exponentText digits point) := by
  have power : ∀ c ∈ Nat.toDigits 10 (point - 1).natAbs, c.isDigit = true :=
    fun c mem => Nat.isDigit_of_mem_toDigits (by decide) (by decide) mem
  obtain ⟨d, rest, rfl⟩ := List.exists_cons_of_ne_nil nonempty
  obtain ⟨first, others⟩ := List.forall_mem_cons.1 all
  refine ⟨⟨[d], rest, List.cons_ne_nil d [], List.forall_mem_singleton.2 first, others⟩,
    ⟨_, [], Nat.toDigits_ne_nil, power, List.forall_mem_nil _⟩,
    if point - 1 < 0 then '-' else '+', by split <;> simp, ?_⟩
  cases rest with
  | nil => rfl
  | cons e rest => rfl

/-- **Any other double is written with an exponent**, behind its sign. -/
theorem json_extreme {x : Float} (finite : x.isFinite = true) (extreme : ¬ Moderate x) :
    ∃ text, IsExponentText text ∧
      (numberText .json x = text ∨ numberText .json x = '-' :: text) := by
  rw [← positional_json_iff finite, Numeral.Positional] at extreme
  push Not at extreme
  obtain ⟨m, q, pos, same, high⟩ := extreme
  have units := units_pos (shortest_nearest Layout.json.tie pos q) pos
  have digits : ∀ c ∈ Nat.toDigits 10 (shortest Layout.json.tie m q).units, c.isDigit = true :=
    fun c mem => Nat.isDigit_of_mem_toDigits (by decide) (by decide) mem
  refine ⟨_, isExponentText_exponentText Nat.toDigits_ne_nil digits
    (Numeral.point Layout.json.tie m q), ?_⟩
  have written : Layout.json.writeMagnitude (.finite m q) =
      Layout.exponentText (Nat.toDigits 10 (shortest Layout.json.tie m q).units)
        (Numeral.point Layout.json.tie m q) := by
    rw [Layout.writeMagnitude, Layout.write, if_neg units.ne']
    exact if_neg high
  rw [numberText, same]
  dsimp only
  rw [written]
  cases isNegative x with
  | false => exact .inl rfl
  | true => exact .inr rfl

end DiceFormula.Double
