/-
# DiceFormula.Proofs.Double.NearestWhole -- rounding to the nearest whole number

A finite double stands for a rational number, its `Double.value`.  The whole number that it is
rounded to is the one nearest to that, and of two that are as near the one away from zero
(`Double.nearestWhole?_value`).  There is no other such number (`NearestWhole.unique`), however
large the double is.
-/
import DiceFormula.Decimal.Whole
import DiceFormula.Proofs.Double.Alike

namespace DiceFormula

set_option autoImplicit false

/-- The whole number is nearest to the rational one, and away from zero if another is as near. -/
structure NearestWhole (v : ℚ) (n : Int) : Prop where
  near : |v - n| ≤ 1 / 2
  half : |v - n| = 1 / 2 → |v| < |(n : ℚ)|

namespace NearestWhole

theorem self (n : Int) : NearestWhole n n := by
  constructor <;> rw [sub_self, abs_zero]
  · norm_num
  · intro same
    norm_num at same

theorem neg {v : ℚ} {n : Int} (nearest : NearestWhole v n) : NearestWhole (-v) (-n) := by
  have apart : |(-v) - ((-n : Int) : ℚ)| = |v - n| := by
    rw [← abs_neg]
    push_cast
    ring_nf
  constructor
  · rw [apart]
    exact nearest.near
  · rw [apart, abs_neg, Int.cast_neg, abs_neg]
    exact nearest.half

/-- There are no whole numbers above and below that are both nearest. -/
theorem not_both {v : ℚ} {n : Int} (low : NearestWhole v n) (high : NearestWhole v (n + 1)) :
    False := by
  have lower := abs_le.1 low.near
  have upper := abs_le.1 high.near
  push_cast at upper
  have middle : v = n + 1 / 2 := by linarith
  have below : |v| < |(n : ℚ)| := low.half (by rw [middle]; norm_num)
  have above : |v| < |((n + 1 : Int) : ℚ)| := high.half (by rw [middle]; push_cast; norm_num)
  rw [middle] at below above
  push_cast at above
  rw [← sq_lt_sq] at below above
  have negative : (n : ℚ) < 0 := by nlinarith
  have positive : (-1 : ℚ) < n := by nlinarith
  have : n < 0 := by exact_mod_cast negative
  have : -1 < n := by exact_mod_cast positive
  omega

/-- **There is only one nearest whole number.** -/
theorem unique {v : ℚ} {n n' : Int} (first : NearestWhole v n) (second : NearestWhole v n') :
    n = n' := by
  have apart : |(n : ℚ) - n'| ≤ 1 := by
    have triangle := abs_sub_le (n : ℚ) v n'
    rw [abs_sub_comm (n : ℚ) v] at triangle
    linarith [first.near, second.near]
  have apart : |n - n'| ≤ 1 := by exact_mod_cast apart
  rcases abs_le.1 apart with ⟨low, high⟩
  rcases lt_trichotomy n n' with lt | eq | gt
  · obtain rfl : n' = n + 1 := by omega
    exact (not_both first second).elim
  · exact eq
  · obtain rfl : n = n' + 1 := by omega
    exact (not_both second first).elim

/-- A number is rounded by what is left beside its whole part. -/
theorem of_parts (whole left : Nat) {unit : Nat} (pos : 0 < unit) :
    (2 * left < unit → NearestWhole ((unit * whole + left : ℚ) / unit) (whole : Nat)) ∧
      (unit ≤ 2 * left → left < unit →
        NearestWhole ((unit * whole + left : ℚ) / unit) (whole + 1 : Nat)) := by
  have unitPos : (0 : ℚ) < unit := by exact_mod_cast pos
  have split : (unit * whole + left : ℚ) / unit = whole + left / unit := by
    field_simp
  have leftNonneg : (0 : ℚ) ≤ left / unit := by positivity
  rw [split]
  constructor
  · intro small
    have small : (left : ℚ) / unit < 1 / 2 := by
      rw [div_lt_div_iff₀ unitPos two_pos]
      exact_mod_cast (by omega : left * 2 < 1 * unit)
    have apart : |(whole + left / unit : ℚ) - ((whole : Nat) : Int)| < 1 / 2 := by
      rw [abs_lt]
      push_cast
      constructor <;> linarith
    exact ⟨apart.le, fun same => absurd same apart.ne⟩
  · intro large less
    have large : (1 : ℚ) / 2 ≤ left / unit := by
      rw [div_le_div_iff₀ two_pos unitPos]
      exact_mod_cast (by omega : 1 * unit ≤ left * 2)
    have less : (left : ℚ) / unit < 1 := by
      rw [div_lt_one unitPos]
      exact_mod_cast less
    constructor
    · rw [abs_le]
      push_cast
      constructor <;> linarith
    · intro _
      push_cast
      rw [abs_of_nonneg (by positivity), abs_of_nonneg (by positivity)]
      linarith

end NearestWhole

/-- The whole number that a magnitude is rounded to is nearest to it. -/
theorem Rounding.nearestWhole_magnitude (negative : Bool) (m : Nat) (q : Int) :
    NearestWhole ((m : ℚ) * 2 ^ q) (Rounding.nearest.magnitude negative m q : Nat) := by
  unfold Rounding.magnitude wholePart
  by_cases large : 0 ≤ q
  · have exactly : (m : ℚ) * 2 ^ q = ((m * Nat.pow 2 q.toNat : Nat) : Int) := by
      obtain ⟨k, rfl⟩ := Int.eq_ofNat_of_zero_le large
      rw [zpow_natCast, Int.toNat_natCast, Nat.pow_eq]
      push_cast
      rfl
    rw [if_pos large, exactly]
    exact .self _
  · obtain ⟨k, exponent⟩ : ∃ k : Nat, q = -k := ⟨q.natAbs, by omega⟩
    have unitPos : 0 < Nat.pow 2 k := Nat.two_pow_pos k
    have value : (m : ℚ) * 2 ^ q =
        ((Nat.pow 2 k : Nat) * (m / Nat.pow 2 k : Nat) + (m % Nat.pow 2 k : Nat) : ℚ) /
          (Nat.pow 2 k : Nat) := by
      have divides := Nat.div_add_mod m (Nat.pow 2 k)
      rw [exponent, zpow_neg, zpow_natCast, ← div_eq_mul_inv]
      congr 1
      · exact_mod_cast divides.symm
      · rw [Nat.pow_eq, Nat.cast_pow, Nat.cast_ofNat]
    obtain ⟨below, above⟩ :=
      NearestWhole.of_parts (m / Nat.pow 2 k) (m % Nat.pow 2 k) unitPos
    have less := Nat.mod_lt m unitPos
    rw [if_neg large, value, show (-q).toNat = k by omega]
    dsimp only
    split
    · exact below (by omega)
    · split
      · rename_i small
        exact below small
      · split
        · rename_i half
          exact above (by omega) less
        · rename_i small half
          exact above (by omega) less

namespace Double

/-- The number that a finite double stands for. -/
def value (x : Float) : ℚ :=
  match magnitude x with
  | .finite m q => if isNegative x then -(m * 2 ^ q) else m * 2 ^ q
  | _ => 0

/-- **A finite double is rounded to the whole number nearest to it.** -/
theorem nearestWhole?_value {x : Float} (finite : x.isFinite = true) :
    ∃ n, nearestWhole? x = some n ∧ NearestWhole (value x) n := by
  obtain ⟨m, q, parts⟩ : ∃ m q, magnitude x = .finite m q := by
    rw [magnitude_eq]
    rcases parts_of_isFinite finite with ⟨s, hx⟩ | ⟨s, m, q, pos, hx⟩
    · exact ⟨0, -1074, by rw [hx]; rfl⟩
    · exact ⟨m, q, by rw [hx]; rfl⟩
  have nearest := Rounding.nearestWhole_magnitude (isNegative x) m q
  unfold nearestWhole? value
  rw [parts]
  dsimp only
  cases isNegative x with
  | false => exact ⟨_, rfl, nearest⟩
  | true => exact ⟨_, rfl, nearest.neg⟩

end Double

end DiceFormula
