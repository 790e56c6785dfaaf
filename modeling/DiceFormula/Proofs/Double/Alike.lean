/-
# DiceFormula.Proofs.Double.Alike -- the sign of zero

Text has only one zero, so a calculation that goes through text can change the
sign of a zero.  Doubles that differ in nothing else are `Alike`, and these are
the finite doubles that compare as equal (`beq_iff_alike`).

The sign of a zero never matters for long: operators take operands that are alike
to results that are alike, or to results that are both not finite
(`Matching.apply`).
-/
import DiceFormula.Arithmetic.Operator
import DiceFormula.Proofs.Double.Parts

namespace DiceFormula.Double

open Float.Model UnpackedFloat

set_option autoImplicit false

/-! ## Zeros -/

/-- Zero of either sign. -/
def IsZero (x : Float) : Prop := ∃ s, parts x = .zero s

theorem lt_iff (x y : Float) : x < y ↔ (parts x).lt (parts y) = true :=
  decide_eq_true_iff

theorem isFinite_eq (x : Float) : x.isFinite = (parts x).isFinite := rfl

theorem isNaN_eq (x : Float) : x.isNaN = (parts x).isNaN := rfl

theorem beq_eq (x y : Float) : (x == y) = (parts x).beq (parts y) := rfl

theorem parts_zero : parts 0 = .zero .positive := rfl

theorem isZero_ofParts (s : Sign) : IsZero (ofParts (.zero s)) :=
  ⟨s, parts_ofParts trivial⟩

theorem isFinite_ofParts {u : UnpackedFloat} (canonical : Canonical u) :
    (ofParts u).isFinite = u.isFinite := by
  rw [isFinite_eq, parts_ofParts canonical]

theorem IsZero.isFinite {x : Float} (isZero : IsZero x) : x.isFinite = true := by
  obtain ⟨s, h⟩ := isZero
  rw [isFinite_eq, h]
  rfl

/-- A finite double is a zero or has a mantissa. -/
theorem parts_of_isFinite {x : Float} (finite : x.isFinite = true) :
    (∃ s, parts x = .zero s) ∨ ∃ s m q, ∃ pos : 0 < m, parts x = .finite s m q pos := by
  rw [isFinite_eq] at finite
  cases h : parts x with
  | notANumber => rw [h] at finite; cases finite
  | infinity s => rw [h] at finite; cases finite
  | zero s => exact Or.inl ⟨s, rfl⟩
  | finite s m q pos => exact Or.inr ⟨s, m, q, pos, rfl⟩

theorem beq_zero_iff (x : Float) : (x == 0) = true ↔ IsZero x := by
  rw [beq_eq, parts_zero, IsZero]
  constructor
  · intro eq
    cases h : parts x with
    | notANumber => rw [h] at eq; cases eq
    | infinity s => rw [h] at eq; cases s <;> cases eq
    | zero s => exact ⟨s, rfl⟩
    | finite s m q pos => rw [h] at eq; cases s <;> cases eq
  · rintro ⟨s, h⟩
    rw [h]
    rfl

/-! ## Doubles that are alike -/

/-- Equal but perhaps for the sign of a zero. -/
def Alike (x y : Float) : Prop := x = y ∨ (IsZero x ∧ IsZero y)

namespace Alike

theorem refl (x : Float) : Alike x x := Or.inl rfl

theorem symm {x y : Float} (alike : Alike x y) : Alike y x := by
  rcases alike with rfl | ⟨hx, hy⟩
  · exact refl _
  · exact Or.inr ⟨hy, hx⟩

theorem trans {x y z : Float} (first : Alike x y) (second : Alike y z) : Alike x z := by
  rcases first with rfl | ⟨hx, hy⟩
  · exact second
  · rcases second with rfl | ⟨-, hz⟩
    · exact Or.inr ⟨hx, hy⟩
    · exact Or.inr ⟨hx, hz⟩

theorem isZero_iff {x y : Float} (alike : Alike x y) : IsZero x ↔ IsZero y := by
  rcases alike with rfl | ⟨hx, hy⟩
  · rfl
  · exact ⟨fun _ => hy, fun _ => hx⟩

theorem isFinite {x y : Float} (alike : Alike x y) : x.isFinite = y.isFinite := by
  rcases alike with rfl | ⟨hx, hy⟩
  · rfl
  · rw [hx.isFinite, hy.isFinite]

end Alike

theorem beq_self_of_finite {x : Float} (finite : x.isFinite = true) : (x == x) = true := by
  rw [beq_eq]
  rcases parts_of_isFinite finite with ⟨s, hx⟩ | ⟨s, m, q, pos, hx⟩
  · rw [hx]
    rfl
  · rw [hx]
    cases s <;> simp [UnpackedFloat.beq, UnpackedFloat.compare]

/-- A number that compares as equal to a finite one is finite. -/
theorem isFinite_of_beq {x y : Float} (same : (x == y) = true) (finite : y.isFinite = true) :
    x.isFinite = true := by
  rw [beq_eq] at same
  rw [isFinite_eq]
  rcases parts_of_isFinite finite with ⟨s', hy⟩ | ⟨s', m, q, pos, hy⟩ <;> rw [hy] at same <;>
    cases h : parts x with
    | notANumber => rw [h] at same; cases same
    | infinity s => rw [h] at same; cases s <;> cases same
    | zero s | finite s m q pos => rfl

/-- Exponent and mantissa compare as equal only if they are. -/
theorem finite_of_compare {s s' : Sign} {m m' : Nat} {q q' : Int} {pos : 0 < m} {pos' : 0 < m'}
    (eq : (UnpackedFloat.finite s m q pos).beq (.finite s' m' q' pos') = true) :
    UnpackedFloat.finite s m q pos = .finite s' m' q' pos' := by
  cases s <;> cases s' <;>
    simp only [UnpackedFloat.beq, UnpackedFloat.compare, beq_iff_eq, Option.some.injEq,
      Ordering.swap_eq_eq, Ordering.then_eq_eq, Int.compare_eq_eq, Nat.compare_eq_eq,
      reduceCtorEq] at eq
  · obtain ⟨rfl, rfl⟩ := eq
    rfl
  · obtain ⟨rfl, rfl⟩ := eq
    rfl

/-- **Finite doubles compare as equal if they are alike.** -/
theorem beq_iff_alike {x : Float} (finite : x.isFinite = true) (y : Float) :
    (x == y) = true ↔ Alike x y := by
  constructor
  · intro eq
    rw [beq_eq] at eq
    rcases parts_of_isFinite finite with ⟨s, hx⟩ | ⟨s, m, q, pos, hx⟩
    · refine Or.inr ⟨⟨s, hx⟩, ?_⟩
      rw [hx] at eq
      cases hy : parts y with
      | notANumber => rw [hy] at eq; cases eq
      | infinity s' => rw [hy] at eq; cases s' <;> cases eq
      | zero s' => exact ⟨s', hy⟩
      | finite s' m q pos => rw [hy] at eq; cases s' <;> cases eq
    · refine Or.inl (parts_injective ?_)
      rw [hx] at eq ⊢
      cases hy : parts y with
      | notANumber => rw [hy] at eq; cases s <;> cases eq
      | infinity s' => rw [hy] at eq; cases s <;> cases s' <;> cases eq
      | zero s' => rw [hy] at eq; cases s <;> cases eq
      | finite s' m' q' pos' => rw [hy] at eq; exact finite_of_compare eq
  · intro alike
    rcases alike with rfl | ⟨⟨s, hx⟩, ⟨s', hy⟩⟩
    · exact beq_self_of_finite finite
    · rw [beq_eq, hx, hy]
      rfl

/-! ## Operators -/

/-- Alike, or both not finite: what is written of either is the same up to the
sign of a zero. -/
def Matching (x y : Float) : Prop := Alike x y ∨ (x.isFinite = false ∧ y.isFinite = false)

theorem Alike.matching {x y : Float} (alike : Alike x y) : Matching x y := Or.inl alike

namespace Matching

theorem refl (x : Float) : Matching x x := Or.inl (Alike.refl x)

theorem isFinite {x y : Float} (matching : Matching x y) : x.isFinite = y.isFinite := by
  rcases matching with alike | ⟨hx, hy⟩
  · exact alike.isFinite
  · rw [hx, hy]

theorem alike {x y : Float} (matching : Matching x y) (finite : x.isFinite = true) :
    Alike x y := by
  rcases matching with alike | ⟨hx, -⟩
  · exact alike
  · rw [finite] at hx
    cases hx

end Matching

theorem neg_eq (x : Float) : -x = ofParts (parts x).neg := rfl

theorem canonical_neg {u : UnpackedFloat} (canonical : Canonical u) : Canonical u.neg := by
  cases u <;> exact canonical

@[simp] theorem parts_neg (x : Float) : parts (-x) = (parts x).neg := by
  rw [neg_eq, parts_ofParts (canonical_neg (canonical_parts x))]

theorem neg_neg (x : Float) : -(-x) = x := by
  apply parts_injective
  rw [parts_neg, parts_neg]
  cases parts x with
  | notANumber => rfl
  | infinity s => cases s <;> rfl
  | zero s => cases s <;> rfl
  | finite s m q pos => cases s <;> rfl

theorem Alike.neg {x y : Float} (alike : Alike x y) : Alike (-x) (-y) := by
  rcases alike with rfl | ⟨⟨s, hx⟩, ⟨s', hy⟩⟩
  · exact Alike.refl _
  · exact Or.inr ⟨⟨-s, by rw [parts_neg, hx]; rfl⟩, ⟨-s', by rw [parts_neg, hy]; rfl⟩⟩

@[simp] theorem isFinite_neg (x : Float) : (-x).isFinite = x.isFinite := by
  rw [isFinite_eq, parts_neg, isFinite_eq]
  cases parts x <;> rfl

section Zero

variable {x z : Float} (finite : x.isFinite = true) (isZero : IsZero z)
include finite isZero

theorem alike_zero_add : Alike (z + x) x := by
  obtain ⟨s, hz⟩ := isZero
  have packed : z + x = ofParts (UnpackedFloat.add .binary64 (parts z) (parts x)) := rfl
  rw [packed, hz]
  rcases parts_of_isFinite finite with ⟨t, hx⟩ | ⟨t, m, q, pos, hx⟩
  · rw [hx]
    exact Or.inr ⟨by cases s <;> cases t <;> exact isZero_ofParts _, t, hx⟩
  · left
    rw [hx, ← ofParts_parts x, hx]
    rfl

theorem alike_add_zero : Alike (x + z) x := by
  obtain ⟨s, hz⟩ := isZero
  have packed : x + z = ofParts (UnpackedFloat.add .binary64 (parts x) (parts z)) := rfl
  rw [packed, hz]
  rcases parts_of_isFinite finite with ⟨t, hx⟩ | ⟨t, m, q, pos, hx⟩
  · rw [hx]
    exact Or.inr ⟨by cases s <;> cases t <;> exact isZero_ofParts _, t, hx⟩
  · left
    rw [hx, ← ofParts_parts x, hx]
    rfl

theorem alike_zero_sub : Alike (z - x) (-x) := by
  obtain ⟨s, hz⟩ := isZero
  have packed : z - x = ofParts (UnpackedFloat.sub .binary64 (parts z) (parts x)) := rfl
  rw [packed, hz, neg_eq]
  rcases parts_of_isFinite finite with ⟨t, hx⟩ | ⟨t, m, q, pos, hx⟩
  · rw [hx]
    exact Or.inr ⟨by cases s <;> cases t <;> exact isZero_ofParts _, isZero_ofParts _⟩
  · rw [hx]
    exact Alike.refl _

theorem alike_sub_zero : Alike (x - z) x := by
  obtain ⟨s, hz⟩ := isZero
  have packed : x - z = ofParts (UnpackedFloat.sub .binary64 (parts x) (parts z)) := rfl
  rw [packed, hz]
  rcases parts_of_isFinite finite with ⟨t, hx⟩ | ⟨t, m, q, pos, hx⟩
  · rw [hx]
    exact Or.inr ⟨by cases s <;> cases t <;> exact isZero_ofParts _, t, hx⟩
  · left
    rw [hx, ← ofParts_parts x, hx]
    rfl

theorem isZero_zero_mul : IsZero (z * x) := by
  obtain ⟨s, hz⟩ := isZero
  have packed : z * x = ofParts (UnpackedFloat.mul .binary64 (parts z) (parts x)) := rfl
  rw [packed, hz]
  rcases parts_of_isFinite finite with ⟨t, hx⟩ | ⟨t, m, q, pos, hx⟩ <;> rw [hx] <;>
    exact isZero_ofParts _

theorem isZero_mul_zero : IsZero (x * z) := by
  obtain ⟨s, hz⟩ := isZero
  have packed : x * z = ofParts (UnpackedFloat.mul .binary64 (parts x) (parts z)) := rfl
  rw [packed, hz]
  rcases parts_of_isFinite finite with ⟨t, hx⟩ | ⟨t, m, q, pos, hx⟩ <;> rw [hx] <;>
    exact isZero_ofParts _

theorem zero_div_cases : IsZero (z / x) ∨ (IsZero x ∧ (z / x).isFinite = false) := by
  obtain ⟨s, hz⟩ := isZero
  have packed : z / x = ofParts (UnpackedFloat.div .binary64 (parts z) (parts x)) := rfl
  rw [packed, hz]
  rcases parts_of_isFinite finite with ⟨t, hx⟩ | ⟨t, m, q, pos, hx⟩
  · rw [hx]
    exact Or.inr ⟨⟨t, hx⟩, isFinite_ofParts (u := .notANumber) trivial⟩
  · rw [hx]
    exact Or.inl (isZero_ofParts _)

theorem isFinite_div_zero : (x / z).isFinite = false := by
  obtain ⟨s, hz⟩ := isZero
  have packed : x / z = ofParts (UnpackedFloat.div .binary64 (parts x) (parts z)) := rfl
  rw [packed, hz]
  rcases parts_of_isFinite finite with ⟨t, hx⟩ | ⟨t, m, q, pos, hx⟩
  · rw [hx]
    exact isFinite_ofParts (u := .notANumber) trivial
  · rw [hx]
    exact isFinite_ofParts (u := .infinity (t / s)) trivial

end Zero

/-- **Operators take operands that are alike to results that match.** -/
theorem Matching.apply {x x' y y' : Float} (op : Operator) (left : Alike x x') (right : Alike y y')
    (finiteLeft : x.isFinite = true) (finiteRight : y.isFinite = true) :
    Matching (op.apply x y) (op.apply x' y') := by
  have finiteRight' : y'.isFinite = true := right.isFinite ▸ finiteRight
  have finiteLeft' : x'.isFinite = true := left.isFinite ▸ finiteLeft
  rcases right with rfl | ⟨hy, hy'⟩
  · rcases left with rfl | ⟨hx, hx'⟩
    · exact Matching.refl _
    · cases op with
      | add =>
          exact ((alike_zero_add finiteRight hx).trans (alike_zero_add finiteRight hx').symm).matching
      | subtract =>
          exact ((alike_zero_sub finiteRight hx).trans (alike_zero_sub finiteRight hx').symm).matching
      | multiply =>
          exact Or.inl (Or.inr ⟨isZero_zero_mul finiteRight hx, isZero_zero_mul finiteRight hx'⟩)
      | divide =>
          rcases zero_div_cases finiteRight hx with zero | ⟨hy, -⟩
          · rcases zero_div_cases finiteRight hx' with zero' | ⟨hy, -⟩
            · exact Or.inl (Or.inr ⟨zero, zero'⟩)
            · exact Or.inr ⟨isFinite_div_zero finiteLeft hy, isFinite_div_zero finiteLeft' hy⟩
          · exact Or.inr ⟨isFinite_div_zero finiteLeft hy, isFinite_div_zero finiteLeft' hy⟩
  · cases op with
    | add =>
        exact ((alike_add_zero finiteLeft hy).trans
          (left.trans (alike_add_zero finiteLeft' hy').symm)).matching
    | subtract =>
        exact ((alike_sub_zero finiteLeft hy).trans
          (left.trans (alike_sub_zero finiteLeft' hy').symm)).matching
    | multiply =>
        exact Or.inl (Or.inr ⟨isZero_mul_zero finiteLeft hy, isZero_mul_zero finiteLeft' hy'⟩)
    | divide => exact Or.inr ⟨isFinite_div_zero finiteLeft hy, isFinite_div_zero finiteLeft' hy'⟩

end DiceFormula.Double
