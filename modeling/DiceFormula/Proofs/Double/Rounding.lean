/-
# DiceFormula.Proofs.Double.Rounding -- rounding to the nearest double

A double `m * 2 ^ q` is the nearest one of all numbers in an interval around it
(`Nearest`): half way to the neighbours, and the ends only if `m` is even.

Arithmetic knows an exact result by a whole number of units and by where it lies
in the unit above (`Placed`).  Dropping a digit keeps track of that
(`Placed.shiftRightOne`), so `roundWithAccuracy_of_nearest` holds: whatever lies
in the interval of a double is rounded to that double.  Products and quotients
follow (`mul_of_nearest`, `div_of_nearest`).
-/
import DiceFormula.Proofs.Double.Parts

namespace DiceFormula.Double

open Float.Model UnpackedFloat

set_option autoImplicit false

/-! ## Places -/

/-- A number lies at `m` or, by the accuracy, somewhere before `m + 1`. -/
def Placed (m : Nat) (a : Accuracy) (x : ℚ) : Prop :=
  match a with
  | .exact => x = m
  | .inexact .lt => (m : ℚ) < x ∧ x < m + 1 / 2
  | .inexact .eq => x = m + 1 / 2
  | .inexact .gt => (m : ℚ) + 1 / 2 < x ∧ x < m + 1

theorem Placed.bounds {m : Nat} {a : Accuracy} {x : ℚ} (placed : Placed m a x) :
    (m : ℚ) ≤ x ∧ x < m + 1 := by
  match a, placed with
  | .exact, h => simp only [Placed] at h; constructor <;> linarith
  | .inexact .lt, h => simp only [Placed] at h; constructor <;> linarith
  | .inexact .eq, h => simp only [Placed] at h; constructor <;> linarith
  | .inexact .gt, h => simp only [Placed] at h; constructor <;> linarith

theorem placed_ofMantissaAndAccuracy {m : Nat} {a : Accuracy} {x : ℚ} (placed : Placed m a x) :
    Placed (ExtendedMantissa.ofMantissaAndAccuracy m a).mantissa
      (ExtendedMantissa.ofMantissaAndAccuracy m a).accuracy x := by
  match a, placed with
  | .exact, h => exact h
  | .inexact .lt, h => exact h
  | .inexact .eq, h => exact h
  | .inexact .gt, h => exact h

/-- Dropping the last digit halves. -/
theorem Placed.shiftRightOne {em : ExtendedMantissa} {x : ℚ}
    (placed : Placed em.mantissa em.accuracy x) :
    Placed em.shiftRightOne.mantissa em.shiftRightOne.accuracy (x / 2) := by
  obtain ⟨m, round, sticky⟩ := em
  have digits : (m : ℚ) = 2 * ((m / 2 : Nat) : ℚ) + ((m % 2 : Nat) : ℚ) := by
    exact_mod_cast (Nat.div_add_mod m 2).symm
  have digit : m % 2 = 0 ∨ m % 2 = 1 := by omega
  rcases digit with even | odd
  · rw [even] at digits
    cases round <;> cases sticky <;>
      simp only [ExtendedMantissa.accuracy, ExtendedMantissa.shiftRightOne, Placed, even,
        bne_self_eq_false, Bool.or_false, Bool.or_true, Nat.cast_zero] at placed digits ⊢ <;>
      first
      | linarith
      | constructor <;> linarith
  · rw [odd] at digits
    cases round <;> cases sticky <;>
      simp only [ExtendedMantissa.accuracy, ExtendedMantissa.shiftRightOne, Placed, odd,
        Nat.reduceBNe, Bool.or_false, Bool.or_true, Nat.cast_one] at placed digits ⊢ <;>
      first
      | linarith
      | constructor <;> linarith

theorem Placed.shiftRight {em : ExtendedMantissa} {x : ℚ}
    (placed : Placed em.mantissa em.accuracy x) (n : Nat) :
    Placed (em >>> n).mantissa (em >>> n).accuracy (x / 2 ^ n) := by
  change Placed (n.repeat ExtendedMantissa.shiftRightOne em).mantissa
    (n.repeat ExtendedMantissa.shiftRightOne em).accuracy _
  induction n with
  | zero => simpa [Nat.repeat] using placed
  | succ n ih =>
      rw [pow_succ, ← div_div]
      exact ih.shiftRightOne

/-- A number is rounded to the whole number that it is near to. -/
theorem Placed.round {m n : Nat} {a : Accuracy} {x : ℚ} (placed : Placed m a x)
    (low : (n : ℚ) - 1 / 2 ≤ x) (high : x ≤ n + 1 / 2)
    (odd : n % 2 = 1 → (n : ℚ) - 1 / 2 < x ∧ x < n + 1 / 2) :
    a.roundToNearestEven m = n := by
  have below (h : (n : ℚ) < m + 1) : n ≤ m := by
    have : n < m + 1 := by exact_mod_cast h
    omega
  have above (h : (m : ℚ) < n + 1) : m ≤ n := by
    have : m < n + 1 := by exact_mod_cast h
    omega
  match a, placed with
  | .exact, h =>
      simp only [Placed] at h
      exact le_antisymm (above (by linarith)) (below (by linarith))
  | .inexact .lt, h =>
      simp only [Placed] at h
      exact le_antisymm (above (by linarith)) (below (by linarith))
  | .inexact .eq, h =>
      simp only [Placed] at h
      have least : m ≤ n := above (by linarith)
      have most : n < m + 2 := by
        have : (n : ℚ) < (m + 2 : Nat) := by push_cast; linarith
        exact_mod_cast this
      have even : n % 2 = 0 := by
        by_contra notEven
        obtain ⟨strictLow, strictHigh⟩ := odd (by omega)
        have : n < m + 1 := by
          have : (n : ℚ) < (m + 1 : Nat) := by push_cast; linarith
          exact_mod_cast this
        have : m < n := by
          have : (m : ℚ) < n := by linarith
          exact_mod_cast this
        omega
      simp only [Accuracy.roundToNearestEven]
      omega
  | .inexact .gt, h =>
      simp only [Placed] at h
      have least : m < n := by
        have : (m : ℚ) < n := by linarith
        exact_mod_cast this
      have most : n < m + 2 := by
        have : (n : ℚ) < (m + 2 : Nat) := by push_cast; linarith
        exact_mod_cast this
      simp only [Accuracy.roundToNearestEven]
      omega

/-! ## The interval of a double -/

/-- How far the interval of `m * 2 ^ q` reaches down, in units.  Below a power of
two doubles lie twice as close. -/
def reach (m : Nat) (q : Int) : ℚ :=
  if m = 2 ^ 52 ∧ -1074 < q then 1 / 4 else 1 / 2

/-- The double `m * 2 ^ q` is the one that `v` is rounded to. -/
structure Nearest (v : ℚ) (m : Nat) (q : Int) : Prop where
  low : (m - reach m q) * 2 ^ q ≤ v
  high : v ≤ (m + 1 / 2) * 2 ^ q
  odd : m % 2 = 1 → (m - reach m q) * 2 ^ q < v ∧ v < (m + 1 / 2) * 2 ^ q

theorem two_zpow_pos (q : Int) : (0 : ℚ) < 2 ^ q := by positivity

theorem reach_bounds (m : Nat) (q : Int) : 1 / 4 ≤ reach m q ∧ reach m q ≤ 1 / 2 := by
  unfold reach
  split <;> norm_num

theorem nearest_self (m : Nat) (q : Int) : Nearest (m * 2 ^ q) m q := by
  have unit := two_zpow_pos q
  obtain ⟨least, -⟩ := reach_bounds m q
  constructor
  · exact mul_le_mul_of_nonneg_right (by linarith) unit.le
  · exact mul_le_mul_of_nonneg_right (by linarith) unit.le
  · intro _
    exact ⟨mul_lt_mul_of_pos_right (by linarith) unit, mul_lt_mul_of_pos_right (by linarith) unit⟩

theorem pow_mul_zpow (n : Nat) (q : Int) : (2 : ℚ) ^ n * 2 ^ q = 2 ^ ((n : Int) + q) := by
  rw [zpow_add₀ (by norm_num), zpow_natCast]

theorem exponent_lt_of_zpow_lt {a b : Int} (lt : (2 : ℚ) ^ a < 2 ^ b) : a < b :=
  (zpow_lt_zpow_iff_right₀ (by norm_num)).1 lt

/-- The unit that a number is rounded to is that of its nearest double, or half
of it just below a power of two. -/
theorem nearest_exponent {v : ℚ} {m : Nat} {q t T : Int} (near : Nearest v m q) (pos : 0 < m)
    (canonical : Canonical (.finite .positive m q pos)) (below : v < 2 ^ t)
    (least : (2 : ℚ) ^ (t - 1) ≤ v ∨ T ≤ -1074) (target : T = max (t - 53) (-1074)) :
    (T = q ∧ ((m : ℚ) - 1 / 2) * 2 ^ q ≤ v ∧ (m % 2 = 1 → ((m : ℚ) - 1 / 2) * 2 ^ q < v)) ∨
      (T = q - 1 ∧ m = 2 ^ 52 ∧ ((m : ℚ) - 1 / 4) * 2 ^ q ≤ v ∧ v < 2 ^ 52 * 2 ^ q) := by
  obtain ⟨small, qLeast, -, shape⟩ := canonical
  have unit := two_zpow_pos q
  have smallQ : (m : ℚ) + 1 ≤ 2 ^ 53 := by exact_mod_cast small
  have atMost : T ≤ q := by
    rcases least with least | least
    · have : v < 2 ^ (53 + q) :=
        calc v ≤ (m + 1 / 2) * 2 ^ q := near.high
          _ < 2 ^ 53 * 2 ^ q := mul_lt_mul_of_pos_right (by linarith) unit
          _ = 2 ^ (53 + q) := pow_mul_zpow 53 q
      have := exponent_lt_of_zpow_lt (least.trans_lt this)
      omega
    · omega
  by_cases bottom : q = -1074
  · have half : reach m q = 1 / 2 := if_neg (by omega)
    have low := near.low
    have odd := near.odd
    rw [half] at low odd
    exact Or.inl ⟨by omega, low, fun h => (odd h).1⟩
  have normal : 2 ^ 52 ≤ m := by omega
  by_cases under : v < 2 ^ 52 * 2 ^ q
  · have power : m = 2 ^ 52 := by
      by_contra larger
      have half : reach m q = 1 / 2 := if_neg (by omega)
      have low := near.low
      have largeQ : (2 : ℚ) ^ 52 + 1 ≤ m := by
        have : 2 ^ 52 + 1 ≤ m := by omega
        exact_mod_cast this
      rw [half] at low
      have : (2 : ℚ) ^ 52 * 2 ^ q ≤ (m - 1 / 2) * 2 ^ q :=
        mul_le_mul_of_nonneg_right (by linarith) unit.le
      linarith
    have quarter : reach m q = 1 / 4 := if_pos (by omega)
    have low := near.low
    rw [quarter] at low
    have above : (2 : ℚ) ^ (51 + q) < v :=
      calc (2 : ℚ) ^ (51 + q) = 2 ^ 51 * 2 ^ q := (pow_mul_zpow 51 q).symm
        _ < (m - 1 / 4) * 2 ^ q := mul_lt_mul_of_pos_right (by rw [power]; norm_num) unit
        _ ≤ v := low
    have := exponent_lt_of_zpow_lt (above.trans below)
    have : T ≤ q - 1 := by
      rcases least with least | least
      · rw [show (2 : ℚ) ^ 52 * 2 ^ q = 2 ^ (52 + q) from pow_mul_zpow 52 q] at under
        have := exponent_lt_of_zpow_lt (least.trans_lt under)
        omega
      · omega
    exact Or.inr ⟨by omega, power, low, under⟩
  · rw [not_lt] at under
    have above : (2 : ℚ) ^ (52 + q) < 2 ^ t :=
      calc (2 : ℚ) ^ (52 + q) = 2 ^ 52 * 2 ^ q := (pow_mul_zpow 52 q).symm
        _ ≤ v := under
        _ < 2 ^ t := below
    have := exponent_lt_of_zpow_lt above
    refine Or.inl ⟨by omega, ?_⟩
    by_cases power : m = 2 ^ 52
    · have lower : ((m : ℚ) - 1 / 2) * 2 ^ q < v :=
        calc ((m : ℚ) - 1 / 2) * 2 ^ q < 2 ^ 52 * 2 ^ q :=
              mul_lt_mul_of_pos_right (by rw [power]; norm_num) unit
          _ ≤ v := under
      exact ⟨lower.le, fun _ => lower⟩
    · have half : reach m q = 1 / 2 := if_neg (by omega)
      have low := near.low
      have odd := near.odd
      rw [half] at low odd
      exact ⟨low, fun h => (odd h).1⟩

/-! ## Rounding -/

theorem mantissaBits_binary64 : Format.binary64.mantissaBits = 53 := rfl

theorem minExponent_binary64 : Format.binary64.minExponent = -1074 := rfl

/-- The second shift of rounding: it only undoes a carry. -/
theorem shiftToTargetExponent_canonical {m : Nat} {q : Int} (pos : 0 < m)
    (canonical : Canonical (.finite .positive m q pos)) :
    shiftToTargetExponent .binary64 m q .exact = (⟨m, false, false⟩, q) := by
  obtain ⟨small, qLeast, -, -⟩ := canonical
  have digits := (Nat.log2_lt (Nat.ne_of_gt pos)).2 small
  have still : (Format.binary64.targetExponent (totalExponent m q) - q).toNat = 0 := by
    rw [Format.targetExponent, mantissaBits_binary64, minExponent_binary64, totalExponent]
    omega
  simp only [shiftToTargetExponent, shiftToExponent, still]
  rw [Nat.cast_zero, add_zero]
  rfl

theorem shiftToTargetExponent_carry {q : Int} (qLeast : -1074 < q) :
    shiftToTargetExponent .binary64 (2 ^ 53) (q - 1) .exact = (⟨2 ^ 52, false, false⟩, q) := by
  have step : (Format.binary64.targetExponent (totalExponent (2 ^ 53) (q - 1)) - (q - 1)).toNat =
      1 := by
    rw [Format.targetExponent, mantissaBits_binary64, minExponent_binary64, totalExponent,
      Nat.log2_two_pow]
    omega
  simp only [shiftToTargetExponent, shiftToExponent, step]
  rw [Nat.cast_one, sub_add_cancel]
  rfl

/-- The first shift of rounding brings a number to the target exponent. -/
theorem placed_shiftToTargetExponent {v : ℚ} {m : Nat} {q : Int} {a : Accuracy}
    (placed : Placed m a (v / 2 ^ q))
    (enough : q ≤ Format.binary64.targetExponent (totalExponent m q)) :
    ∃ em : ExtendedMantissa,
      shiftToTargetExponent .binary64 m q a =
          (em, Format.binary64.targetExponent (totalExponent m q)) ∧
        Placed em.mantissa em.accuracy
          (v / 2 ^ Format.binary64.targetExponent (totalExponent m q)) := by
  obtain ⟨n, steps⟩ := Int.le.dest enough
  have count : (Format.binary64.targetExponent (totalExponent m q) - q).toNat = n := by omega
  refine ⟨ExtendedMantissa.ofMantissaAndAccuracy m a >>> n, ?_, ?_⟩
  · simp only [shiftToTargetExponent, shiftToExponent, count, steps]
  · have shifted := (placed_ofMantissaAndAccuracy placed).shiftRight n
    rwa [div_div, ← zpow_natCast, ← zpow_add₀ (by norm_num), steps] at shifted

theorem totalExponent_bounds {v : ℚ} {m : Nat} {q : Int} {a : Accuracy}
    (placed : Placed m a (v / 2 ^ q)) :
    v < 2 ^ totalExponent m q ∧ (0 < m → (2 : ℚ) ^ (totalExponent m q - 1) ≤ v) := by
  have unit := two_zpow_pos q
  obtain ⟨low, high⟩ := placed.bounds
  rw [le_div_iff₀ unit] at low
  rw [div_lt_iff₀ unit] at high
  unfold totalExponent
  constructor
  · have digits : (m : ℚ) + 1 ≤ 2 ^ (m.log2 + 1) := by
      have : m + 1 ≤ 2 ^ (m.log2 + 1) := Nat.lt_log2_self
      exact_mod_cast this
    calc v < (m + 1) * 2 ^ q := high
      _ ≤ 2 ^ (m.log2 + 1) * 2 ^ q := mul_le_mul_of_nonneg_right digits unit.le
      _ = 2 ^ ((m.log2 : Int) + 1 + q) := by rw [pow_mul_zpow]; push_cast; rfl
  · intro pos
    have digits : (2 : ℚ) ^ m.log2 ≤ m := by
      have : 2 ^ m.log2 ≤ m := Nat.log2_self_le (Nat.ne_of_gt pos)
      exact_mod_cast this
    calc (2 : ℚ) ^ ((m.log2 : Int) + 1 + q - 1) = 2 ^ m.log2 * 2 ^ q := by
          rw [pow_mul_zpow]; congr 1; omega
      _ ≤ m * 2 ^ q := mul_le_mul_of_nonneg_right digits unit.le
      _ ≤ v := low

/-- **Rounding takes a number to its nearest double.** -/
theorem roundWithAccuracy_of_nearest {v : ℚ} {m m' : Nat} {q q' : Int} {a : Accuracy} (s : Sign)
    (near : Nearest v m q) (pos : 0 < m) (canonical : Canonical (.finite .positive m q pos))
    (placed : Placed m' a (v / 2 ^ q'))
    (enough : q' ≤ Format.binary64.targetExponent (totalExponent m' q')) :
    roundWithAccuracy .binary64 s m' q' a = .finite s m q pos := by
  obtain ⟨em, first, atTarget⟩ := placed_shiftToTargetExponent placed enough
  obtain ⟨below, least⟩ := totalExponent_bounds placed
  have target : Format.binary64.targetExponent (totalExponent m' q') =
      max (totalExponent m' q' - 53) (-1074) := rfl
  have least : (2 : ℚ) ^ (totalExponent m' q' - 1) ≤ v ∨
      Format.binary64.targetExponent (totalExponent m' q') ≤ -1074 := by
    rcases Nat.eq_zero_or_pos m' with zero | pos'
    · right
      have : totalExponent m' q' = 1 + q' := by subst zero; simp [totalExponent]
      omega
    · exact Or.inl (least pos')
  generalize Format.binary64.targetExponent (totalExponent m' q') = T at *
  -- `second` is the shift that follows once the rounded mantissa is known
  suffices second : shiftToTargetExponent .binary64 em.roundedMantissa T .exact =
      (⟨m, false, false⟩, q) by
    unfold roundWithAccuracy
    rw [first]
    simp only [second]
    rw [dif_neg (Nat.ne_of_gt pos)]
  have unit := two_zpow_pos q
  rcases nearest_exponent near pos canonical below least target with
    ⟨rfl, low, odd⟩ | ⟨rfl, power, low, under⟩
  · have rounded : em.roundedMantissa = m := by
      refine atTarget.round ?_ ?_ fun h => ⟨?_, ?_⟩
      · rw [le_div_iff₀ unit]; exact low
      · rw [div_le_iff₀ unit]; exact near.high
      · rw [lt_div_iff₀ unit]; exact odd h
      · rw [div_lt_iff₀ unit]; exact (near.odd h).2
    rw [rounded]
    exact shiftToTargetExponent_canonical pos canonical
  · have half : (2 : ℚ) ^ q = 2 * 2 ^ (q - 1) := by
      rw [zpow_sub_one₀ (by norm_num)]; ring
    have unit' := two_zpow_pos (q - 1)
    have rounded : em.roundedMantissa = 2 ^ 53 := by
      rw [power] at low
      rw [half] at low under
      refine atTarget.round ?_ ?_ fun h => absurd h (by decide)
      · rw [le_div_iff₀ unit']; push_cast at low ⊢; linarith
      · rw [div_le_iff₀ unit']; push_cast; linarith
    rw [rounded, power]
    exact shiftToTargetExponent_carry (by omega)

/-! ## Products and quotients -/

theorem placed_exact (m : Nat) (q : Int) : Placed m .exact ((m : ℚ) * 2 ^ q / 2 ^ q) := by
  have unit := two_zpow_pos q
  simp only [Placed]
  field_simp

theorem mul_of_nearest {m m₁ m₂ : Nat} {q q₁ q₂ : Int} {pos₁ : 0 < m₁} {pos₂ : 0 < m₂}
    (near : Nearest ((m₁ : ℚ) * 2 ^ q₁ * (m₂ * 2 ^ q₂)) m q) (pos : 0 < m)
    (canonical : Canonical (.finite .positive m q pos)) (enough : 2 ^ 52 ≤ m₁ * m₂) :
    UnpackedFloat.mul .binary64 (.finite .positive m₁ q₁ pos₁) (.finite .positive m₂ q₂ pos₂) =
      .finite .positive m q pos := by
  have value : (m₁ : ℚ) * 2 ^ q₁ * (m₂ * 2 ^ q₂) = ((m₁ * m₂ : Nat) : ℚ) * 2 ^ (q₁ + q₂) := by
    rw [zpow_add₀ (by norm_num)]; push_cast; ring
  have digits : 52 ≤ (m₁ * m₂).log2 := (Nat.le_log2 (by positivity)).2 enough
  rw [value] at near
  refine roundWithAccuracy_of_nearest _ near pos canonical (placed_exact _ _) ?_
  rw [Format.targetExponent, mantissaBits_binary64, minExponent_binary64, totalExponent]
  omega

theorem placed_accuracyOfFraction (n d : Nat) (pos : 0 < d) :
    Placed (n / d) (accuracyOfFraction (n % d) d) ((n : ℚ) / d) := by
  have posQ : (0 : ℚ) < d := by exact_mod_cast pos
  have split : (n : ℚ) = d * ((n / d : Nat) : ℚ) + ((n % d : Nat) : ℚ) := by
    exact_mod_cast (Nat.div_add_mod n d).symm
  have value : (n : ℚ) / d = ((n / d : Nat) : ℚ) + ((n % d : Nat) : ℚ) / d := by
    rw [split]; field_simp
  have below : ((n % d : Nat) : ℚ) < d := by exact_mod_cast Nat.mod_lt n pos
  rw [value]
  unfold accuracyOfFraction
  split
  · rename_i zero
    simp [Placed, zero]
  · rename_i nonzero
    have inside : (0 : ℚ) < ((n % d : Nat) : ℚ) := by exact_mod_cast Nat.pos_of_ne_zero nonzero
    have proper : (0 : ℚ) < ((n % d : Nat) : ℚ) / d ∧ ((n % d : Nat) : ℚ) / d < 1 :=
      ⟨by positivity, (div_lt_one posQ).2 below⟩
    have half : (((n % d : Nat) : ℚ) / d < 1 / 2 ↔ 2 * (n % d) < d) ∧
        (((n % d : Nat) : ℚ) / d = 1 / 2 ↔ 2 * (n % d) = d) := by
      constructor
      · rw [div_lt_div_iff₀ posQ (by norm_num)]
        constructor <;> intro h
        · have : ((2 * (n % d) : Nat) : ℚ) < d := by push_cast; linarith
          exact_mod_cast this
        · have : ((2 * (n % d) : Nat) : ℚ) < d := by exact_mod_cast h
          push_cast at this; linarith
      · rw [div_eq_div_iff posQ.ne' (by norm_num)]
        constructor <;> intro h
        · have : ((2 * (n % d) : Nat) : ℚ) = d := by push_cast; linarith
          exact_mod_cast this
        · have : ((2 * (n % d) : Nat) : ℚ) = d := by exact_mod_cast h
          push_cast at this; linarith
    rcases Nat.lt_trichotomy (2 * (n % d)) d with lt | eq | gt
    · rw [Nat.compare_eq_lt.2 lt]
      exact ⟨by linarith, by linarith [half.1.2 lt]⟩
    · rw [Nat.compare_eq_eq.2 eq]
      simp only [Placed, half.2.2 eq]
    · rw [Nat.compare_eq_gt.2 gt]
      have above : (1 : ℚ) / 2 < ((n % d : Nat) : ℚ) / d := by
        rcases lt_trichotomy (((n % d : Nat) : ℚ) / d) (1 / 2) with h | h | h
        · have := half.1.1 h; omega
        · have := half.2.1 h; omega
        · exact h
      exact ⟨by linarith, by linarith⟩

/-- A quotient is worked out to at least 53 digits, or to the last one there is. -/
theorem divCore_enough {m₁ m₂ : Nat} (pos₁ : 0 < m₁) (pos₂ : 0 < m₂) (q₁ q₂ : Int) :
    (divCore .binary64 m₁ q₁ m₂ q₂).2.1 ≤ Format.binary64.targetExponent
      (totalExponent (divCore .binary64 m₁ q₁ m₂ q₂).1 (divCore .binary64 m₁ q₁ m₂ q₂).2.1) := by
  simp only [divCore, Format.targetExponent, mantissaBits_binary64, minExponent_binary64,
    totalExponent]
  generalize hT : min (q₁ - q₂) (max ((m₁.log2 : Int) + 1 + q₁ - (m₂.log2 + 1 + q₂) - (53 : Nat))
    (-1074)) = T
  by_cases bottom : T ≤ -1074
  · exact bottom.trans (le_max_right _ _)
  have shift : m₂.log2 + 53 ≤ m₁.log2 + (q₁ - q₂ - T).toNat := by omega
  generalize (q₁ - q₂ - T).toNat = k at shift
  have large : 2 ^ 52 ≤ (m₁ <<< k) / m₂ := by
    rw [Nat.le_div_iff_mul_le pos₂, Nat.shiftLeft_eq]
    calc 2 ^ 52 * m₂ ≤ 2 ^ 52 * 2 ^ (m₂.log2 + 1) :=
          Nat.mul_le_mul_left _ Nat.lt_log2_self.le
      _ = 2 ^ (m₂.log2 + 53) := by rw [← pow_add]; congr 1; omega
      _ ≤ 2 ^ (m₁.log2 + k) := Nat.pow_le_pow_right (by norm_num) shift
      _ = 2 ^ m₁.log2 * 2 ^ k := pow_add _ _ _
      _ ≤ m₁ * 2 ^ k := Nat.mul_le_mul_right _ (Nat.log2_self_le (Nat.ne_of_gt pos₁))
  have digits : 52 ≤ ((m₁ <<< k) / m₂).log2 := (Nat.le_log2 (by omega)).2 large
  omega

theorem div_of_nearest {m m₁ m₂ : Nat} {q q₁ q₂ : Int} {pos₁ : 0 < m₁} {pos₂ : 0 < m₂}
    (near : Nearest ((m₁ : ℚ) * 2 ^ q₁ / (m₂ * 2 ^ q₂)) m q) (pos : 0 < m)
    (canonical : Canonical (.finite .positive m q pos)) :
    UnpackedFloat.div .binary64 (.finite .positive m₁ q₁ pos₁) (.finite .positive m₂ q₂ pos₂) =
      .finite .positive m q pos := by
  have enough := divCore_enough pos₁ pos₂ q₁ q₂
  refine roundWithAccuracy_of_nearest _ near pos canonical ?_ enough
  have pos₂Q : (0 : ℚ) < m₂ := by exact_mod_cast pos₂
  generalize target : min (q₁ - q₂) (Format.binary64.targetExponent
    (totalExponent m₁ q₁ - totalExponent m₂ q₂)) = T
  have value : (m₁ : ℚ) * 2 ^ q₁ / (m₂ * 2 ^ q₂) / 2 ^ T =
      ((m₁ <<< (q₁ - q₂ - T).toNat : Nat) : ℚ) / m₂ := by
    have shift : (2 : ℚ) ^ q₁ = 2 ^ ((q₁ - q₂ - T).toNat) * 2 ^ q₂ * 2 ^ T := by
      rw [pow_mul_zpow, ← zpow_add₀ (by norm_num)]; congr 1; omega
    have unit₂ := two_zpow_pos q₂
    have unit := two_zpow_pos T
    rw [Nat.shiftLeft_eq, shift]
    push_cast
    field_simp
  rw [value]
  exact placed_accuracyOfFraction _ _ pos₂

end DiceFormula.Double
