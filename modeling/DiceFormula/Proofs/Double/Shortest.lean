/-
# DiceFormula.Proofs.Double.Shortest -- written digits read back

The search for the fewest digits looks at the interval of a double through grids
whose numbers are all whole.  Clearing the common unit (`Grid.unit`) shows that a
grid point it accepts lies in the interval (`nearest_of_holds`), and all digits
of the double do in any case, so the double is the nearest one of the decimal that
`Decimal.shortest` returns (`shortest_nearest`).
-/
import DiceFormula.Decimal.Shortest
import DiceFormula.Proofs.Double.Decimal

namespace DiceFormula.Double

open Decimal

set_option autoImplicit false

/-! ## Grids -/

/-- What the numbers of a grid are multiplied with to make them whole. -/
def gridUnit (q k : Int) : ℚ := 2 ^ (2 - q).toNat * 10 ^ (-k).toNat

theorem gridUnit_pos (q k : Int) : 0 < gridUnit q k := by
  unfold gridUnit
  positivity

/-- A power is a quotient of whole numbers. -/
theorem zpow_mul_clear {b : ℚ} (nonzero : b ≠ 0) (e : Int) :
    b ^ e * b ^ (-e).toNat = b ^ e.toNat := by
  rw [← zpow_natCast, ← zpow_natCast b e.toNat, ← zpow_add₀ nonzero]
  congr 1
  omega

theorem grid_step (m : Nat) (q k : Int) :
    ((Grid.of m q k).step : ℚ) = 10 ^ k * gridUnit q k := by
  have power : (10 : ℚ) ^ k * 10 ^ (-k).toNat = 10 ^ k.toNat := zpow_mul_clear (by norm_num) k
  show (((10 ^ k.toNat * 2 ^ (2 - q).toNat : Nat)) : ℚ) = _
  rw [gridUnit, Nat.cast_mul, Nat.cast_pow, Nat.cast_pow, Nat.cast_ofNat, Nat.cast_ofNat, ← power]
  ring

theorem grid_scale (q k : Int) :
    ((2 ^ (q - 2).toNat * 10 ^ (-k).toNat : Nat) : ℚ) = 2 ^ q / 4 * gridUnit q k := by
  have power : (2 : ℚ) ^ (q - 2) * 2 ^ (-(q - 2)).toNat = 2 ^ (q - 2).toNat :=
    zpow_mul_clear (by norm_num) (q - 2)
  have quarter : (2 : ℚ) ^ (q - 2) = 2 ^ q / 4 := by
    rw [zpow_sub₀ (by norm_num)]
    norm_num
  rw [neg_sub, quarter] at power
  rw [gridUnit, Nat.cast_mul, Nat.cast_pow, Nat.cast_pow, Nat.cast_ofNat, Nat.cast_ofNat, ← power]
  ring

theorem grid_low {m : Nat} (pos : 0 < m) (q k : Int) :
    ((Grid.of m q k).low : ℚ) = (m - reach m q) * 2 ^ q * gridUnit q k := by
  have scale := grid_scale q k
  show ((((4 * m - if m = leadingBit ∧ -1074 < q then 1 else 2) *
    (2 ^ (q - 2).toNat * 10 ^ (-k).toNat) : Nat)) : ℚ) = _
  have leading : leadingBit = 2 ^ 52 := rfl
  rw [Nat.cast_mul, scale, reach, leading]
  by_cases power : m = 2 ^ 52 ∧ -1074 < q
  · rw [if_pos power, if_pos power, Nat.cast_sub (by omega)]
    push_cast
    ring
  · rw [if_neg power, if_neg power, Nat.cast_sub (by omega)]
    push_cast
    ring

theorem grid_high (m : Nat) (q k : Int) :
    ((Grid.of m q k).high : ℚ) = (m + 1 / 2) * 2 ^ q * gridUnit q k := by
  have scale := grid_scale q k
  show (((4 * m + 2) * (2 ^ (q - 2).toNat * 10 ^ (-k).toNat) : Nat) : ℚ) = _
  rw [Nat.cast_mul, scale]
  push_cast
  ring

/-- A grid point that is accepted lies in the interval of the double. -/
theorem nearest_of_holds {m n : Nat} {q k : Int} (pos : 0 < m)
    (holds : (Grid.of m q k).holds n = true) : Nearest (n * 10 ^ k) m q := by
  have unit := gridUnit_pos q k
  have low := grid_low pos q k
  have high := grid_high m q k
  have point : ((n * (Grid.of m q k).step : Nat) : ℚ) = n * 10 ^ k * gridUnit q k := by
    rw [Nat.cast_mul, grid_step]
    ring
  have closed : (Grid.of m q k).closed = decide (m % 2 = 0) := rfl
  unfold Grid.holds at holds
  dsimp only at holds
  rw [closed] at holds
  by_cases even : m % 2 = 0
  · rw [decide_eq_true even, if_pos rfl, Bool.and_eq_true, decide_eq_true_eq,
      decide_eq_true_eq] at holds
    obtain ⟨above, below⟩ := holds
    have above : ((Grid.of m q k).low : ℚ) ≤ (n * (Grid.of m q k).step : Nat) := by
      exact_mod_cast above
    have below : ((n * (Grid.of m q k).step : Nat) : ℚ) ≤ (Grid.of m q k).high := by
      exact_mod_cast below
    rw [low, point] at above
    rw [high, point] at below
    exact ⟨le_of_mul_le_mul_right above unit, le_of_mul_le_mul_right below unit,
      fun odd => by omega⟩
  · rw [decide_eq_false even, if_neg Bool.false_ne_true, Bool.and_eq_true, decide_eq_true_eq,
      decide_eq_true_eq] at holds
    obtain ⟨above, below⟩ := holds
    have above : ((Grid.of m q k).low : ℚ) < (n * (Grid.of m q k).step : Nat) := by
      exact_mod_cast above
    have below : ((n * (Grid.of m q k).step : Nat) : ℚ) < (Grid.of m q k).high := by
      exact_mod_cast below
    rw [low, point] at above
    rw [high, point] at below
    have inside := And.intro (lt_of_mul_lt_mul_right above unit.le)
      (lt_of_mul_lt_mul_right below unit.le)
    exact ⟨inside.1.le, inside.2.le, fun _ => inside⟩

theorem holds_take {g : Grid} {n : Nat} (tie : Tie) (here : g.holds n = true)
    (next : g.holds (n + 1) = true) : g.holds (tie.take n) = true := by
  cases tie with
  | larger => exact next
  | even =>
      unfold Tie.take
      dsimp only
      split
      · exact here
      · exact next

theorem holds_of_nearest? {g : Grid} {tie : Tie} {n : Nat} (found : g.nearest? tie = some n) :
    g.holds n = true := by
  unfold Grid.nearest? at found
  dsimp only at found
  split at found
  · rename_i here next
    split at found
    · cases found; exact here
    · split at found
      · cases found; exact next
      · cases found; exact holds_take tie here next
  · rename_i here _
    cases found; exact here
  · rename_i _ next
    cases found; exact next
  · cases found

/-! ## The search -/

theorem exact_value (m : Nat) (q : Int) : (exact m q).value = m * 2 ^ q := by
  unfold exact Decimal.value
  split
  · rename_i whole
    show ((m * 2 ^ q.toNat : Nat) : ℚ) * 10 ^ (0 : Int) = _
    rw [zpow_zero, mul_one, Nat.cast_mul, Nat.cast_pow, ← zpow_natCast, Int.toNat_of_nonneg whole]
    rfl
  · rename_i fraction
    show ((m * 5 ^ (-q).toNat : Nat) : ℚ) * 10 ^ q = _
    have fives : (5 : ℚ) ^ (-q).toNat = (5 ^ q)⁻¹ := by
      rw [← zpow_natCast, Int.toNat_of_nonneg (by omega), zpow_neg]
    have tens : (10 : ℚ) ^ q = 5 ^ q * 2 ^ q := by
      rw [← mul_zpow]
      norm_num
    have nonzero : (5 : ℚ) ^ q ≠ 0 := by positivity
    rw [Nat.cast_mul, Nat.cast_pow, Nat.cast_ofNat, fives, tens]
    field_simp

theorem search_nearest (tie : Tie) {m : Nat} (pos : 0 < m) (q : Int) (tries : Nat) (k : Int) :
    Nearest (search tie m q tries k).value m q := by
  induction tries generalizing k with
  | zero =>
      rw [search, exact_value]
      exact nearest_self m q
  | succ tries ih =>
      rw [search]
      split
      · rename_i n found
        exact nearest_of_holds pos (holds_of_nearest? found)
      · exact ih (k - 1)

/-- **The double is the nearest one of its shortest decimal.** -/
theorem shortest_nearest (tie : Tie) {m : Nat} (pos : 0 < m) (q : Int) :
    Nearest (shortest tie m q).value m q := by
  rw [shortest, if_neg (Nat.ne_of_gt pos)]
  exact search_nearest tie pos q _ _

end DiceFormula.Double
