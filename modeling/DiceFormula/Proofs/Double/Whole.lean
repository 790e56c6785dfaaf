/-
# DiceFormula.Proofs.Double.Whole -- whole numbers are written as their digits

The fewest digits that read back are sought from coarse grids to fine ones.  No other whole number
is rounded to the same double as one of 53 bits (`eq_of_nearest`), so the grids of hundreds or tens
offer nothing but the number without some of its zeros, and the grid of ones does offer it
(`search_whole`).  The zeros are put back when the digits are set out, so a whole number is written
as its digits (`formulaNumber_whole`).

Larger whole numbers need not be doubles, but up to 64 bits they have a nearest one, so they are
finite (`isFinite_ofInt`).
-/
import DiceFormula.Proofs.Double.Numeral

namespace DiceFormula.Double

open Decimal Float.Model UnpackedFloat

set_option autoImplicit false

/-! ## The doubles of whole numbers -/

/-- A whole number is read as it is written. -/
theorem ofNat_eq (n : Nat) : Float.ofNat n = Decimal.toFloat ⟨n, 0⟩ := rfl

/-- Whole numbers of 53 bits are doubles. -/
theorem parts_ofNat {n : Nat} (nonzero : 0 < n) (small : n < 2 ^ 53) :
    ∃ (m : Nat) (q : Int) (pos : 0 < m), parts (Float.ofNat n) = .finite .positive m q pos ∧
      (m : ℚ) * 2 ^ q = n ∧ 2 ^ 52 ≤ m := by
  obtain ⟨m, q, pos, whole, value, large⟩ := parts_whole nonzero small
  have near : Nearest (Decimal.value ⟨n, 0⟩) m q := by
    rw [Decimal.value, zpow_zero, mul_one, ← value]
    exact nearest_self m q
  have canonical : Canonical (.finite .positive m q pos) := whole ▸ canonical_parts _
  exact ⟨m, q, pos, ofNat_eq n ▸ parts_toFloat near pos canonical, value, large⟩

/-- A number between two neighbouring doubles has a nearest one. -/
theorem exists_nearest_between {a r s : Nat} (least : 2 ^ 52 ≤ a) (most : a < 2 ^ 53)
    (rest : r < 2 ^ s) : ∃ (m : Nat) (q : Int), 2 ^ 52 ≤ m ∧ m < 2 ^ 53 ∧ (s ≤ q ∧ q ≤ s + 1) ∧
      Nearest ((a * 2 ^ s + r : Nat) : ℚ) m q := by
  have unit : (0 : ℚ) < 2 ^ s := by positivity
  have value : ((a * 2 ^ s + r : Nat) : ℚ) = a * 2 ^ s + r := by push_cast; ring
  have rest' : (r : ℚ) < 2 ^ s := by exact_mod_cast rest
  have positive : (0 : ℚ) ≤ r := Nat.cast_nonneg r
  have power : (2 : ℚ) ^ (s : Int) = 2 ^ s := zpow_natCast 2 s
  rw [value]
  by_cases down : 2 * r < 2 ^ s ∨ (2 * r = 2 ^ s ∧ a % 2 = 0)
  · have half : (2 * r : ℚ) ≤ 2 ^ s := by
      have : 2 * r ≤ 2 ^ s := by omega
      exact_mod_cast this
    obtain ⟨reach_pos, -⟩ := reach_bounds a s
    refine ⟨a, s, least, most, by omega, ?_, ?_, fun odd => ⟨?_, ?_⟩⟩
    · rw [power]; nlinarith
    · rw [power]; linarith
    · rw [power]; nlinarith
    · have : 2 * r < 2 ^ s := by omega
      have strict : (2 * r : ℚ) < 2 ^ s := by exact_mod_cast this
      rw [power]; linarith
  · have half : (2 ^ s : ℚ) ≤ 2 * r := by
      have : 2 ^ s ≤ 2 * r := by omega
      exact_mod_cast this
    by_cases carry : a + 1 < 2 ^ 53
    · have reach_eq : reach (a + 1) s = 1 / 2 := if_neg (by omega)
      refine ⟨a + 1, s, by omega, carry, by omega, ?_, ?_, fun odd => ⟨?_, ?_⟩⟩
      · rw [power, reach_eq]; push_cast; linarith
      · rw [power]; push_cast; linarith
      · have : 2 ^ s < 2 * r := by omega
        have strict : (2 ^ s : ℚ) < 2 * r := by exact_mod_cast this
        rw [power, reach_eq]; push_cast; linarith
      · rw [power]; push_cast; linarith
    · have top : (a : ℚ) = 2 ^ 53 - 1 := by
        have : a = 2 ^ 53 - 1 := by omega
        rw [this]; norm_num
      have reach_eq : reach (2 ^ 52) (s + 1 : Int) = 1 / 4 := if_pos ⟨rfl, by omega⟩
      have double : (2 : ℚ) ^ (s + 1 : Int) = 2 * 2 ^ s := by
        rw [zpow_add_one₀ (by norm_num), power, mul_comm]
      refine ⟨2 ^ 52, s + 1, le_rfl, by norm_num, by omega, ?_, ?_, fun odd => absurd odd (by decide)⟩
      · rw [double, reach_eq, top]; push_cast; linarith
      · rw [double, top]; push_cast; linarith

/-- Whole numbers of 64 bits have a nearest double. -/
theorem exists_nearest {n : Nat} (nonzero : 0 < n) (small : n < 2 ^ 64) :
    ∃ (m : Nat) (q : Int) (pos : 0 < m), Canonical (.finite .positive m q pos) ∧ Nearest n m q := by
  by_cases whole : n < 2 ^ 53
  · obtain ⟨m, q, pos, parts, value, -⟩ := parts_ofNat nonzero whole
    exact ⟨m, q, pos, parts ▸ canonical_parts _, value ▸ nearest_self m q⟩
  · have bits : n.log2 < 64 := (Nat.log2_lt (by omega)).2 small
    obtain ⟨s, size⟩ : ∃ s, n.log2 = 52 + s :=
      Nat.exists_eq_add_of_le ((Nat.le_log2 (by omega)).2 (by omega))
    have least : 2 ^ 52 ≤ n / 2 ^ s := by
      rw [Nat.le_div_iff_mul_le (by positivity), ← pow_add, ← size]
      exact Nat.log2_self_le (by omega)
    have most : n / 2 ^ s < 2 ^ 53 := by
      rw [Nat.div_lt_iff_lt_mul (by positivity), ← pow_add]
      calc n < 2 ^ (n.log2 + 1) := Nat.lt_log2_self
        _ = 2 ^ (53 + s) := by rw [size]; congr 1; omega
    obtain ⟨m, q, large, fits, range, near⟩ :=
      exists_nearest_between least most (Nat.mod_lt n (by positivity))
    rw [Nat.div_add_mod'] at near
    exact ⟨m, q, by omega, ⟨fits, by omega, by omega, .inl large⟩, near⟩

/-- Whole numbers of 64 bits are finite. -/
theorem isFinite_ofNat {n : Nat} (small : n < 2 ^ 64) : (Float.ofNat n).isFinite = true := by
  rw [isFinite_eq, ofNat_eq]
  rcases Nat.eq_zero_or_pos n with zero | nonzero
  · rw [parts_toFloat_zero zero]
    rfl
  · obtain ⟨m, q, pos, canonical, near⟩ := exists_nearest nonzero small
    have near : Nearest (Decimal.value ⟨n, 0⟩) m q := by
      rwa [Decimal.value, zpow_zero, mul_one]
    rw [parts_toFloat near pos canonical]
    rfl

theorem isFinite_ofInt {n : Int} (small : n.natAbs < 2 ^ 64) : (Float.ofInt n).isFinite = true := by
  cases n with
  | ofNat n => exact isFinite_ofNat small
  | negSucc n =>
      have same : Float.ofInt (.negSucc n) = -(Float.ofNat (n + 1)) := rfl
      rw [same, isFinite_neg]
      exact isFinite_ofNat small

/-! ## The search -/

/-- No other whole number is rounded to a double that is whole. -/
theorem eq_of_nearest {a n m : Nat} {q : Int} (near : Nearest a m q) (value : (m : ℚ) * 2 ^ q = n)
    (fine : q ≤ 0) : a = n := by
  have unit := two_zpow_pos q
  have small : (2 : ℚ) ^ q ≤ 1 := zpow_le_one_of_nonpos₀ (by norm_num) fine
  obtain ⟨-, reach_le⟩ := reach_bounds m q
  have low : (n : ℚ) - 1 / 2 ≤ a := by
    have := near.low
    nlinarith
  have high : (a : ℚ) ≤ n + 1 / 2 := by
    have := near.high
    nlinarith
  have below : n < a + 1 := by
    have : (n : ℚ) < a + 1 := by linarith
    exact_mod_cast this
  have above : a < n + 1 := by
    have : (a : ℚ) < n + 1 := by linarith
    exact_mod_cast this
  omega

/-- A grid point is accepted if it is the double. -/
theorem holds_of_value {m n : Nat} {q k : Int} (pos : 0 < m)
    (value : (m : ℚ) * 2 ^ q = n * 10 ^ k) : (Grid.of m q k).holds n = true := by
  have unit := gridUnit_pos q k
  have power := two_zpow_pos q
  obtain ⟨reach_pos, -⟩ := reach_bounds m q
  have point : ((n * (Grid.of m q k).step : Nat) : ℚ) = m * 2 ^ q * gridUnit q k := by
    rw [Nat.cast_mul, grid_step, value]
    ring
  have above : (Grid.of m q k).low < n * (Grid.of m q k).step := by
    have : ((Grid.of m q k).low : ℚ) < (n * (Grid.of m q k).step : Nat) := by
      rw [grid_low pos, point]
      exact mul_lt_mul_of_pos_right (mul_lt_mul_of_pos_right (by linarith) power) unit
    exact_mod_cast this
  have below : n * (Grid.of m q k).step < (Grid.of m q k).high := by
    have : ((n * (Grid.of m q k).step : Nat) : ℚ) < (Grid.of m q k).high := by
      rw [grid_high, point]
      exact mul_lt_mul_of_pos_right (mul_lt_mul_of_pos_right (by linarith) power) unit
    exact_mod_cast this
  unfold Grid.holds
  dsimp only
  split <;> simp <;> omega

theorem exists_nearest?_of_holds {g : Grid} (holds : g.holds (g.value / g.step) = true) (tie : Tie) :
    ∃ n, g.nearest? tie = some n := by
  unfold Grid.nearest?
  dsimp only
  rw [holds]
  cases g.holds (g.value / g.step + 1) with
  | true =>
      dsimp only
      split
      · exact ⟨_, rfl⟩
      · split <;> exact ⟨_, rfl⟩
  | false => exact ⟨_, rfl⟩

/-- The grid of ones offers something if the double is whole. -/
theorem exists_nearest?_ones {m n : Nat} {q : Int} (pos : 0 < m) (value : (m : ℚ) * 2 ^ q = n)
    (tie : Tie) : ∃ a, (Grid.of m q 0).nearest? tie = some a := by
  have step_pos : 0 < (Grid.of m q 0).step := by
    have : (0 : ℚ) < (Grid.of m q 0).step := by
      rw [grid_step, zpow_zero, one_mul]
      exact gridUnit_pos q 0
    exact_mod_cast this
  have point : (Grid.of m q 0).value = n * (Grid.of m q 0).step := by
    have : ((Grid.of m q 0).value : ℚ) = (n * (Grid.of m q 0).step : Nat) := by
      show ((4 * m * (2 ^ (q - 2).toNat * 10 ^ (-(0 : Int)).toNat) : Nat) : ℚ) = _
      rw [Nat.cast_mul, grid_scale]
      push_cast
      rw [grid_step, ← value, zpow_zero]
      ring
    exact_mod_cast this
  refine exists_nearest?_of_holds ?_ tie
  rw [point, Nat.mul_div_cancel _ step_pos]
  exact holds_of_value pos (by rw [value, zpow_zero, mul_one])

/-- **A whole number loses nothing but zeros.** -/
theorem search_whole {m n : Nat} {q : Int} (pos : 0 < m) (value : (m : ℚ) * 2 ^ q = n) (fine : q ≤ 0)
    (tie : Tie) {tries k : Nat} (enough : k < tries) :
    ∃ a e : Nat, search tie m q tries k = ⟨a, e⟩ ∧ a * 10 ^ e = n := by
  induction tries generalizing k with
  | zero => exact absurd enough (Nat.not_lt_zero k)
  | succ tries ih =>
      rw [search]
      split
      · rename_i a found
        have near := nearest_of_holds pos (holds_of_nearest? found)
        have whole : ((a * 10 ^ k : Nat) : ℚ) = a * 10 ^ (k : Int) := by push_cast; rfl
        rw [← whole] at near
        exact ⟨a, k, rfl, eq_of_nearest near value fine⟩
      · rename_i nothing
        cases k with
        | zero =>
            obtain ⟨a, found⟩ := exists_nearest?_ones pos value tie
            rw [Nat.cast_zero, found] at nothing
            cases nothing
        | succ k =>
            rw [Nat.cast_succ, add_sub_cancel_right]
            exact ih (by omega)

/-! ## Digits -/

/-- Zeros behind a number multiply it by ten. -/
theorem toDigits_zeros {n : Nat} (nonzero : n ≠ 0) (e : Nat) :
    Nat.toDigits 10 (n * 10 ^ e) = Nat.toDigits 10 n ++ List.replicate e '0' := by
  induction e with
  | zero => simp
  | succ e ih =>
      have front : n * 10 ^ (e + 1) / 10 = n * 10 ^ e := by
        rw [pow_succ, ← mul_assoc, Nat.mul_div_cancel _ (by decide)]
      have last : n * 10 ^ (e + 1) % 10 = 0 := by
        rw [pow_succ, ← mul_assoc, Nat.mul_mod_left]
      have large : 10 ≤ n * 10 ^ (e + 1) := by
        rw [pow_succ, ← mul_assoc]
        exact Nat.le_mul_of_pos_left 10 (Nat.mul_pos (by omega) (by positivity))
      rw [Nat.toDigits_of_base_le (by decide) large, front, last, ih, List.replicate_succ',
        List.append_assoc]
      rfl

/-- The digits of a whole number are set out without a point. -/
theorem write_whole {a e : Nat} (nonzero : a ≠ 0) :
    Layout.plain.write ⟨a, e⟩ = Nat.toDigits 10 (a * 10 ^ e) := by
  have positive : 0 < (Nat.toDigits 10 a).length := List.length_pos_iff.2 Nat.toDigits_ne_nil
  have zeros : (((Nat.toDigits 10 a).length : Int) + (e : Int)).toNat -
      (Nat.toDigits 10 a).length = e := by omega
  rw [toDigits_zeros nonzero, Layout.write, if_neg nonzero]
  show Layout.plain.positionalText (Nat.toDigits 10 a) ((Nat.toDigits 10 a).length + e) = _
  rw [Layout.positionalText, if_neg (by omega), if_pos (by omega), zeros]
  exact List.append_nil _

/-- The exponent of a whole number of 53 bits. -/
theorem exponent_whole {m n : Nat} {q : Int} (value : (m : ℚ) * 2 ^ q = n) (large : 2 ^ 52 ≤ m)
    (fits : m < 2 ^ 53) (nonzero : 0 < n) (small : n < 2 ^ 53) : -53 < q ∧ q ≤ 0 := by
  have unit := two_zpow_pos q
  have large : (2 : ℚ) ^ 52 ≤ m := by exact_mod_cast large
  have fits : (m : ℚ) < 2 ^ 53 := by exact_mod_cast fits
  have nonzero : (1 : ℚ) ≤ n := by exact_mod_cast nonzero
  have small : (n : ℚ) < 2 ^ 53 := by exact_mod_cast small
  constructor
  · have above : (2 : ℚ) ^ (0 : Int) < 2 ^ (((53 : Nat) : Int) + q) := by
      rw [zpow_zero, ← pow_mul_zpow]
      calc (1 : ℚ) ≤ m * 2 ^ q := value ▸ nonzero
        _ < 2 ^ 53 * 2 ^ q := mul_lt_mul_of_pos_right fits unit
    have := exponent_lt_of_zpow_lt above
    omega
  · have below : (2 : ℚ) ^ (((52 : Nat) : Int) + q) < 2 ^ (53 : Int) := by
      rw [← pow_mul_zpow]
      calc (2 : ℚ) ^ 52 * 2 ^ q ≤ m * 2 ^ q := mul_le_mul_of_nonneg_right large unit.le
        _ < 2 ^ (53 : Int) := value ▸ small
    have := exponent_lt_of_zpow_lt below
    omega

/-- **A whole number is written as its digits.** -/
theorem numberText_ofNat {n : Nat} (nonzero : 0 < n) (small : n < 2 ^ 53) :
    numberText .plain (Float.ofNat n) = Nat.toDigits 10 n := by
  obtain ⟨m, q, pos, whole, value, large⟩ := parts_ofNat nonzero small
  have canonical : Canonical (.finite .positive m q pos) := whole ▸ canonical_parts _
  obtain ⟨least, fine⟩ := exponent_whole value large canonical.1 nonzero small
  have size : magnitude (Float.ofNat n) = .finite m q := by rw [magnitude_eq, whole]; rfl
  have sign : isNegative (Float.ofNat n) = false := by rw [isNegative_eq, whole]; rfl
  obtain ⟨k, top, enough⟩ : ∃ k : Nat, ceiling m q = k ∧ k < 40 := by
    refine ⟨(ceiling m q).toNat, ?_, ?_⟩ <;>
      rw [ceiling, log2_of_normal large canonical.1] <;> omega
  obtain ⟨a, e, found, same⟩ := search_whole pos value fine Layout.plain.tie enough
  have digits : a ≠ 0 := by
    rintro rfl
    omega
  rw [numberText, size, sign]
  show Layout.plain.write (shortest Layout.plain.tie m q) = _
  rw [shortest, if_neg (Nat.ne_of_gt pos), top, found, write_whole digits, same]

/-- **A number that is whole is written as its digits in a formula**, also if it is a negative
zero. -/
theorem formulaNumber_whole {x : Float} {n : Nat} (whole : (x == Float.ofNat n) = true)
    (small : n < 2 ^ 53) : formulaNumber x = toString n := by
  have finite := isFinite_ofNat (n := n) (by omega)
  have alike := (beq_iff_alike (isFinite_of_beq whole finite) _).1 whole
  have digits : (toString n).toList = Nat.toDigits 10 n := Nat.toList_repr
  rw [String.ext_iff, Numeral.formulaNumber_toList, digits]
  rcases Nat.eq_zero_or_pos n with rfl | nonzero
  · have nothing : parts (Float.ofNat 0) = .zero .positive := by
      rw [ofNat_eq, parts_toFloat_zero rfl]
    have zero : IsZero x := alike.isZero_iff.2 ⟨_, nothing⟩
    rw [if_pos ((beq_zero_iff x).2 zero)]
    rfl
  · obtain ⟨m, q, pos, parts, -, -⟩ := parts_ofNat nonzero small
    have other : ¬ IsZero (Float.ofNat n) := by
      rintro ⟨s, zero⟩
      rw [parts] at zero
      cases zero
    obtain rfl : x = Float.ofNat n := alike.resolve_right fun zeros => other zeros.2
    rw [if_neg fun zero => other ((beq_zero_iff _).1 zero), numberText_ofNat nonzero small]

end DiceFormula.Double
