/-
# DiceFormula.Proofs.Arithmetic.Functions -- functions and the sign of zero

A function takes arguments that are alike to values that match (`matching_value`),
as operators do: the sign of a zero decides at most about the sign of another zero
or of an infinity, and infinities are no values of a call.  So calls of arguments
that are alike have values that are alike (`apply_alike`).
-/
import DiceFormula.Arithmetic.MathFunction
import DiceFormula.Proofs.Double.Alike

namespace DiceFormula.MathFunction

open Double

set_option autoImplicit false

/-! ## Comparing -/

theorem isNaN_alike {x y : Float} (alike : Alike x y) : x.isNaN = y.isNaN := by
  rcases alike with rfl | ⟨⟨s, hx⟩, ⟨s', hy⟩⟩
  · rfl
  · rw [isNaN_eq, isNaN_eq, hx, hy]
    rfl

theorem lt_zeros {x y : Float} (hx : IsZero x) (hy : IsZero y) (z : Float) :
    (x < z ↔ y < z) ∧ (z < x ↔ z < y) := by
  obtain ⟨s, hx⟩ := hx
  obtain ⟨s', hy⟩ := hy
  rw [lt_iff, lt_iff, lt_iff, lt_iff, hx, hy]
  cases parts z with
  | notANumber => exact ⟨Iff.rfl, Iff.rfl⟩
  | infinity t => cases t <;> exact ⟨Iff.rfl, Iff.rfl⟩
  | zero t => exact ⟨Iff.rfl, Iff.rfl⟩
  | finite t m q pos => cases t <;> exact ⟨Iff.rfl, Iff.rfl⟩

theorem lt_alike {x x' y y' : Float} (left : Alike x x') (right : Alike y y') :
    x < y ↔ x' < y' := by
  have first : x < y ↔ x' < y := by
    rcases left with rfl | ⟨hx, hx'⟩
    · rfl
    · exact (lt_zeros hx hx' y).1
  rcases right with rfl | ⟨hy, hy'⟩
  · exact first
  · exact first.trans (lt_zeros hy hy' x').2

/-- Only a zero is neither below nor above a zero. -/
theorem isZero_of_not_lt {x y : Float} (hx : IsZero x) (number : y.isNaN = false)
    (notBelow : ¬ x < y) (notAbove : ¬ y < x) : IsZero y := by
  obtain ⟨s, hx⟩ := hx
  rw [lt_iff, hx] at notBelow notAbove
  rw [isNaN_eq] at number
  cases h : parts y with
  | notANumber =>
      rw [h] at number
      cases number
  | infinity t =>
      rw [h] at notBelow notAbove
      cases t
      · exact absurd rfl notAbove
      · exact absurd rfl notBelow
  | zero t => exact ⟨t, h⟩
  | finite t m q pos =>
      rw [h] at notBelow notAbove
      cases t
      · exact absurd rfl notAbove
      · exact absurd rfl notBelow

/-- Of two numbers that are not apart either may be chosen. -/
theorem alike_chosen {x x' y y' : Float} (left : Alike x x') (right : Alike y y')
    (number : x.isNaN = false) (number' : y.isNaN = false) (notBelow : ¬ x < y)
    (notAbove : ¬ y < x) (choose : Float → Bool) :
    Alike (if choose x then x else y) (if choose x' then x' else y') := by
  have zeros (hx : IsZero x) (hy : IsZero y) :
      Alike (if choose x then x else y) (if choose x' then x' else y') := by
    have hx' := left.isZero_iff.1 hx
    have hy' := right.isZero_iff.1 hy
    right
    constructor
    · split <;> assumption
    · split <;> assumption
  rcases left with rfl | ⟨hx, hx'⟩
  · rcases right with rfl | ⟨hy, hy'⟩
    · exact Alike.refl _
    · exact zeros (isZero_of_not_lt hy number notAbove notBelow) hy
  · exact zeros hx (isZero_of_not_lt hx number' notBelow notAbove)

theorem lesser_alike {x x' y y' : Float} (left : Alike x x') (right : Alike y y') :
    Alike (lesser x y) (lesser x' y') := by
  unfold lesser
  simp only [← isNaN_alike left, ← isNaN_alike right, ← lt_alike left right,
    ← lt_alike right left]
  split
  · exact right
  · split
    · exact left
    · split
      · exact left
      · split
        · exact right
        · rename_i nan nan' below above
          exact alike_chosen left right (Bool.not_eq_true _ ▸ nan) (Bool.not_eq_true _ ▸ nan') below
            above isNegative

theorem greater_alike {x x' y y' : Float} (left : Alike x x') (right : Alike y y') :
    Alike (greater x y) (greater x' y') := by
  unfold greater
  simp only [← isNaN_alike left, ← isNaN_alike right, ← lt_alike left right,
    ← lt_alike right left]
  split
  · exact right
  · split
    · exact left
    · split
      · exact left
      · split
        · exact right
        · rename_i nan nan' above below
          have flip (a b : Float) : (if isNegative a then b else a) =
              if !isNegative a then a else b := by
            cases isNegative a <;> rfl
          rw [flip, flip]
          exact alike_chosen left right (Bool.not_eq_true _ ▸ nan) (Bool.not_eq_true _ ▸ nan') below
            above fun a => !isNegative a

theorem foldl_alike {f : Float → Float → Float}
    (step : ∀ {x x' y y'}, Alike x x' → Alike y y' → Alike (f x y) (f x' y')) {xs ys : List Float}
    (alike : List.Forall₂ Alike xs ys) (start : Float) :
    Alike (xs.foldl f start) (ys.foldl f start) := by
  have onward {a b : Float} (first : Alike a b) : Alike (xs.foldl f a) (ys.foldl f b) := by
    induction alike generalizing a b with
    | nil => exact first
    | cons head tail ih => exact ih (step first head)
  exact onward (Alike.refl start)

/-! ## Values -/

/-- Doubles that compare as equal match, and so do doubles that are not finite. -/
theorem matching_of_check {x y : Float}
    (check : (x.isFinite && x == y || !x.isFinite && !y.isFinite) = true) : Matching x y := by
  simp only [Bool.or_eq_true, Bool.and_eq_true, Bool.not_eq_true'] at check
  rcases check with ⟨finite, equal⟩ | infinite
  · exact ((beq_iff_alike finite y).1 equal).matching
  · exact Or.inr infinite

/-- There are two zeros. -/
theorem IsZero.cases {x : Float} (isZero : IsZero x) : x = 0 ∨ x = -0 := by
  obtain ⟨s, h⟩ := isZero
  cases s with
  | positive => exact Or.inl (parts_injective (h.trans parts_zero.symm))
  | negative => exact Or.inr (parts_injective (h.trans (by rw [parts_neg]; rfl)))

/-- Whether the function looks at its first argument only. -/
def isUnary (f : MathFunction) : Bool := f.arity.2 == some 1

theorem value_unary {f : MathFunction} (unary : f.isUnary = true) (xs : List Float) :
    f.value xs = f.value [xs.headD 0] := by
  cases f <;> first | rfl | cases unary

/-- A function makes of either zero the same. -/
theorem matching_zeros (f : MathFunction) : Matching (f.value [0]) (f.value [-0]) := by
  cases f <;> exact matching_of_check (by decide +kernel)

theorem matching_symm {x y : Float} (matching : Matching x y) : Matching y x := by
  rcases matching with alike | ⟨hx, hy⟩
  · exact alike.symm.matching
  · exact Or.inr ⟨hy, hx⟩

theorem matching_single (f : MathFunction) {x y : Float} (alike : Alike x y) : Matching (f.value [x]) (f.value [y]) := by
  rcases alike with rfl | ⟨hx, hy⟩
  · exact Matching.refl _
  · rcases IsZero.cases hx with rfl | rfl <;> rcases IsZero.cases hy with rfl | rfl
    · exact Matching.refl _
    · exact matching_zeros f
    · exact matching_symm (matching_zeros f)
    · exact Matching.refl _

theorem matching_zeroToThe (negative negative' : Bool) (y : Float) :
    Matching (zeroToThe negative y) (zeroToThe negative' y) := by
  unfold zeroToThe
  by_cases below : y < 0
  · rw [if_pos below]
    have infinite (sign : Bool) : (withSign sign infinity).isFinite = false := by
      cases sign <;> decide +kernel
    exact Or.inr ⟨infinite _, infinite _⟩
  · rw [if_neg below]
    have zero (sign : Bool) : IsZero (withSign sign 0) := by
      rw [← beq_zero_iff]
      cases sign <;> decide +kernel
    exact Or.inl (Or.inr ⟨zero _, zero _⟩)

theorem beq_zero_alike {x y : Float} (alike : Alike x y) : (x == 0) = (y == 0) := by
  rw [Bool.eq_iff_iff, beq_zero_iff, beq_zero_iff, alike.isZero_iff]

theorem matching_toThe {x x' y y' : Float} (base : Alike x x') (exponent : Alike y y')
    (finite : y.isFinite = true) : Matching (toThe x y) (toThe x' y') := by
  unfold toThe
  rw [← beq_zero_alike base, ← beq_zero_alike exponent]
  by_cases zero : (y == 0) = true
  · rw [if_pos zero, if_pos zero]
    exact Matching.refl 1
  · obtain rfl := exponent.resolve_right fun zeros => zero ((beq_zero_iff y).2 zeros.1)
    have number : y.isNaN = false := by
      rw [isNaN_eq]
      rw [isFinite_eq] at finite
      cases h : parts y <;> first | rfl | (rw [h] at finite; cases finite)
    rw [if_neg zero, if_neg zero, number]
    by_cases base' : (x == 0) = true
    · rw [base']
      exact matching_zeroToThe _ _ y
    · obtain rfl := base.resolve_right fun zeros => base' ((beq_zero_iff x).2 zeros.1)
      exact Matching.refl _

/-- A square has no sign. -/
theorem square_alike {x y : Float} (alike : Alike x y) : x * x = y * y := by
  have square {z : Float} (isZero : IsZero z) : z * z = 0 := by
    rcases IsZero.cases isZero with rfl | rfl
    · rfl
    · apply parts_injective
      rfl
  rcases alike with rfl | ⟨hx, hy⟩
  · rfl
  · rw [square hx, square hy]

/-- **A function takes arguments that are alike to values that match.** -/
theorem matching_value {f : MathFunction} {xs ys : List Float}
    (alike : List.Forall₂ Alike xs ys) (finite : ∀ x ∈ xs, x.isFinite = true)
    (accepted : f.accepts xs.length = true) : Matching (f.value xs) (f.value ys) := by
  have head : Alike (xs.headD 0) (ys.headD 0) := by
    cases alike with
    | nil => exact Alike.refl 0
    | cons first others => exact first
  by_cases unary : f.isUnary = true
  · rw [value_unary unary, value_unary unary ys]
    exact matching_single f head
  · cases f with
    | minimum => exact (foldl_alike lesser_alike alike infinity).matching
    | maximum => exact (foldl_alike greater_alike alike (-infinity)).matching
    | power =>
        cases alike with
        | nil => cases accepted
        | cons first others =>
            cases others with
            | nil => cases accepted
            | cons second others =>
                exact matching_toThe first second
                  (finite _ (List.mem_cons_of_mem _ List.mem_cons_self))
    | hypotenuse =>
        have sums (start : Float) : xs.foldl (fun sum x => sum + x * x) start =
            ys.foldl (fun sum x => sum + x * x) start := by
          clear finite accepted head
          induction alike generalizing start with
          | nil => rfl
          | cons first others ih =>
              rw [List.foldl_cons, List.foldl_cons, square_alike first, ih]
        show Matching (xs.foldl (fun sum x => sum + x * x) 0).sqrt
          (ys.foldl (fun sum x => sum + x * x) 0).sqrt
        rw [sums]
        exact Matching.refl _
    | _ => exact absurd rfl unary

/-- **A call of arguments that are alike has a value that is alike.** -/
theorem apply_alike {f : MathFunction} {xs ys : List Float} (alike : List.Forall₂ Alike xs ys)
    (finite : ∀ x ∈ xs, x.isFinite = true) {v : Float} (calls : f.apply xs = .ok v) :
    v.isFinite = true ∧ ∃ w, f.apply ys = .ok w ∧ Alike v w := by
  unfold MathFunction.apply at calls ⊢
  rw [← alike.length_eq]
  split at calls
  · rename_i accepted
    rw [if_pos accepted]
    have matching := matching_value alike finite accepted
    unfold DiceFormula.finite at calls ⊢
    split at calls
    · rename_i value
      cases calls
      rw [if_pos (matching.isFinite ▸ value)]
      exact ⟨value, _, rfl, matching.alike value⟩
    · cases calls
  · cases calls

end DiceFormula.MathFunction
