/-
# DiceFormula.Proofs.Double.Numeral -- the text of a double

A `Numeral` is the text of a number without sign or exponent: digits and, if need
be, a point and more digits.  The expression reader (`number?_numeral`) and the
formula reader (`unsignedValue?_numeral`) both read it as `Numeral.value`.

Every finite double without a negative sign is written as a numeral that is read
as that double again (`exists_numeral`).  A number of a formula is written as a
numeral, behind a minus sign if it is below zero (`formulaNumber_spec`).
-/
import DiceFormula.Arithmetic.Reader
import DiceFormula.Formula.Fragment
import DiceFormula.Proofs.Double.Alike
import DiceFormula.Proofs.Double.Shortest
import DiceFormula.Proofs.Text.Basic

namespace DiceFormula

set_option autoImplicit false

/-- Digits around a decimal point, which is left out if no digits follow it. -/
structure Numeral where
  whole : List Char
  fraction : List Char
  nonempty : whole ≠ []
  wholeDigits : ∀ c ∈ whole, c.isDigit = true
  fractionDigits : ∀ c ∈ fraction, c.isDigit = true

namespace Numeral

def text (n : Numeral) : List Char :=
  match n.fraction with
  | [] => n.whole
  | digits => n.whole ++ '.' :: digits

/-- The double that the numeral is read as. -/
def value (n : Numeral) : Float :=
  (Decimal.ofDigits n.whole n.fraction).toFloat

/-- A text that does not go on with a digit or a point. -/
def Ends (rest : List Char) : Prop :=
  Text.Stops (fun c => c.isDigit || c == '.') rest

theorem Ends.stops {rest : List Char} (ends : Ends rest) : Text.Stops Char.isDigit rest := by
  intro c mem
  have := ends c mem
  rw [Bool.or_eq_false_iff] at this
  exact this.1

theorem text_whole {n : Numeral} (none : n.fraction = []) : n.text = n.whole := by
  rw [text, none]

theorem text_fraction {n : Numeral} {c : Char} {digits : List Char}
    (some : n.fraction = c :: digits) : n.text = n.whole ++ '.' :: n.fraction := by
  rw [text, some]

theorem exists_head (n : Numeral) : ∃ c s, n.text = c :: s ∧ c.isDigit = true := by
  obtain ⟨c, others, cons⟩ := List.exists_cons_of_ne_nil n.nonempty
  have digit := n.wholeDigits c (by rw [cons]; exact List.mem_cons_self)
  cases h : n.fraction with
  | nil => exact ⟨c, others, by rw [text_whole h, cons], digit⟩
  | cons d digits =>
      exact ⟨c, others ++ '.' :: n.fraction, by rw [text_fraction h, cons]; rfl, digit⟩

theorem text_ne_nil (n : Numeral) : n.text ≠ [] := by
  obtain ⟨c, s, text, -⟩ := n.exists_head
  rw [text]
  exact List.cons_ne_nil c s

theorem exists_last (n : Numeral) : ∃ s c, n.text = s ++ [c] ∧ c.isDigit = true := by
  have digits (front run : List Char) (some_ : run ≠ []) (all : ∀ c ∈ run, c.isDigit = true) :
      ∃ s c, front ++ run = s ++ [c] ∧ c.isDigit = true := by
    refine ⟨front ++ run.dropLast, run.getLast some_, ?_, all _ (List.getLast_mem some_)⟩
    rw [List.append_assoc, List.dropLast_append_getLast]
  cases h : n.fraction with
  | nil =>
      rw [text_whole h]
      exact digits [] n.whole n.nonempty n.wholeDigits
  | cons c rest =>
      rw [text_fraction h, List.append_cons]
      exact digits _ n.fraction (by rw [h]; exact List.cons_ne_nil c rest) n.fractionDigits

/-- A numeral consists of digits and a point. -/
theorem digit_or_point (n : Numeral) : ∀ c ∈ n.text, (c.isDigit || c == '.') = true := by
  intro c mem
  rw [Bool.or_eq_true, beq_iff_eq]
  cases h : n.fraction with
  | nil =>
      rw [text_whole h] at mem
      exact .inl (n.wholeDigits c mem)
  | cons d rest =>
      rw [text_fraction h, List.mem_append, List.mem_cons] at mem
      rcases mem with mem | rfl | mem
      · exact .inl (n.wholeDigits c mem)
      · exact .inr rfl
      · exact .inl (n.fractionDigits c mem)

theorem chars_text (n : Numeral) {c : Char} (mem : c ∈ n.text) : c.isDigit = true ∨ c = '.' := by
  have numeric := n.digit_or_point c mem
  rwa [Bool.or_eq_true, beq_iff_eq] at numeric

/-- There is at most one point. -/
theorem count_point (n : Numeral) : n.text.count '.' ≤ 1 := by
  have pointless (run : List Char) (all : ∀ c ∈ run, c.isDigit = true) : run.count '.' = 0 :=
    List.count_eq_zero_of_not_mem fun mem => by cases all _ mem
  cases h : n.fraction with
  | nil =>
      rw [text_whole h, pointless _ n.wholeDigits]
      exact Nat.zero_le 1
  | cons c rest =>
      rw [text_fraction h, List.count_append, List.count_cons_self, pointless _ n.wholeDigits,
        pointless _ n.fractionDigits]

/-! ## Reading -/

open Arithmetic in
theorem number?_numeral (n : Numeral) {rest : List Char} (ends : Ends rest) :
    Token.number? (n.text ++ rest) = some (.number n.value, rest) := by
  obtain ⟨whole, fraction, nonempty, wholeDigits, fractionDigits⟩ := n
  obtain ⟨first, others, rfl⟩ := List.exists_cons_of_ne_nil nonempty
  cases fraction with
  | nil =>
      have span := Text.span_append wholeDigits ends.stops
      have pointless : Token.fraction rest = ([], rest) := by
        unfold Token.fraction
        split
        · exact absurd (ends '.' rfl) (by decide)
        · rfl
      unfold Token.number?
      rw [text, span]
      simp only [pointless]
      rfl
  | cons d digits =>
      have stop : Text.Stops Char.isDigit ('.' :: (d :: digits ++ rest)) :=
        Text.stops_cons (by decide)
      have span := Text.span_append wholeDigits stop
      have behind := Text.span_append fractionDigits ends.stops
      have point : Token.fraction ('.' :: (d :: digits ++ rest)) = (d :: digits, rest) := by
        simp only [Token.fraction]
        rw [behind]
      have laid : text ⟨first :: others, d :: digits, nonempty, wholeDigits, fractionDigits⟩ ++
          rest = first :: others ++ '.' :: (d :: digits ++ rest) := by
        rw [text_fraction rfl, List.append_assoc]
        rfl
      unfold Token.number?
      rw [laid, span]
      simp only [point]
      rfl

theorem unsignedValue?_numeral (n : Numeral) :
    Fragment.unsignedValue? n.text = some n.value := by
  obtain ⟨whole, fraction, nonempty, wholeDigits, fractionDigits⟩ := n
  obtain ⟨first, others, rfl⟩ := List.exists_cons_of_ne_nil nonempty
  cases fraction with
  | nil =>
      unfold Fragment.unsignedValue?
      rw [text, Text.span_all wholeDigits]
      rfl
  | cons d digits =>
      have stop : Text.Stops Char.isDigit ('.' :: d :: digits) := Text.stops_cons (by decide)
      have all : (!(d :: digits).isEmpty && (d :: digits).all Char.isDigit) = true := by
        rw [List.isEmpty_cons, Bool.not_false, Bool.true_and, List.all_eq_true]
        exact fractionDigits
      unfold Fragment.unsignedValue?
      rw [text, Text.span_append wholeDigits stop]
      simp only [all]
      rfl

/-! ## Writing -/

theorem isDigit_zeros {n : Nat} : ∀ c ∈ List.replicate n '0', c.isDigit = true := by
  intro c mem
  rw [List.eq_of_mem_replicate mem]
  rfl

theorem isDigit_append {a b : List Char} (left : ∀ c ∈ a, c.isDigit = true)
    (right : ∀ c ∈ b, c.isDigit = true) : ∀ c ∈ a ++ b, c.isDigit = true := by
  intro c mem
  rcases List.mem_append.1 mem with h | h
  · exact left c h
  · exact right c h

theorem ofDigits_value (whole fraction : List Char) :
    (Decimal.ofDigits whole fraction).value =
      Nat.ofDigitChars 10 (whole ++ fraction) 0 * 10 ^ (-(fraction.length : Int)) := rfl

/-- Leading zeros count for nothing. -/
theorem ofDigitChars_leading_zeros (n : Nat) (digits : List Char) :
    Nat.ofDigitChars 10 (List.replicate n '0' ++ digits) 0 = Nat.ofDigitChars 10 digits 0 := by
  rw [Nat.ofDigitChars_append, Nat.ofDigitChars_replicate_zero, Nat.mul_zero]

/-- The point position of the shortest digits of `m * 2 ^ q`. -/
def point (tie : Decimal.Tie) (m : Nat) (q : Int) : Int :=
  (Nat.toDigits 10 (Decimal.shortest tie m q).units).length + (Decimal.shortest tie m q).exponent

/-- Whole numbers end with nothing or with `.0`. -/
def EndsWhole (layout : Layout) : Prop := layout.wholeEnd = [] ∨ layout.wholeEnd = ['.', '0']

theorem endsWhole_plain : EndsWhole .plain := .inl rfl

section Layouts

variable {layout : Layout} (ends : EndsWhole layout)
include ends

/-- Digits with the end of a whole number are a numeral of the same value. -/
theorem numeral_of_whole {digits : List Char} (nonempty : digits ≠ [])
    (all : ∀ c ∈ digits, c.isDigit = true) :
    ∃ n : Numeral, digits ++ layout.wholeEnd = n.text ∧
      (Decimal.ofDigits n.whole n.fraction).value = Nat.ofDigitChars 10 digits 0 := by
  rcases ends with nothing | zero
  · refine ⟨⟨digits, [], nonempty, all, List.forall_mem_nil _⟩, ?_, ?_⟩
    · rw [nothing, List.append_nil, text_whole rfl]
    · simp [ofDigits_value]
  · refine ⟨⟨digits, ['0'], nonempty, all, List.forall_mem_singleton.2 rfl⟩, ?_, ?_⟩
    · rw [zero, text_fraction rfl]
    · have tenfold : Nat.ofDigitChars 10 (digits ++ ['0']) 0 = 10 * Nat.ofDigitChars 10 digits 0 := by
        rw [Nat.ofDigitChars_append]
        rfl
      rw [ofDigits_value, tenfold, List.length_singleton, Nat.cast_mul, Nat.cast_one, zpow_neg_one,
        mul_comm, Nat.cast_ofNat, inv_mul_cancel_left₀ (by norm_num)]

/-- Digits set around a decimal point are a numeral of the same value. -/
theorem numeral_of_positional {digits : List Char} (nonempty : digits ≠ [])
    (all : ∀ c ∈ digits, c.isDigit = true) (e : Int) :
    ∃ n : Numeral, layout.positionalText digits (digits.length + e) = n.text ∧
      (Decimal.ofDigits n.whole n.fraction).value = Nat.ofDigitChars 10 digits 0 * 10 ^ e := by
  have positive : 0 < digits.length := List.length_pos_iff.2 nonempty
  unfold Layout.positionalText
  split
  · rename_i low
    refine ⟨⟨['0'], List.replicate (-((digits.length : Int) + e)).toNat '0' ++ digits, by simp,
      by simp, isDigit_append isDigit_zeros all⟩, ?_, ?_⟩
    · obtain ⟨c, rest, behind⟩ := List.exists_cons_of_ne_nil
        (List.append_ne_nil_of_right_ne_nil
          (List.replicate (-((digits.length : Int) + e)).toNat '0') nonempty)
      rw [text_fraction behind]
      simp
    · have zero : ['0'] = List.replicate 1 '0' := rfl
      dsimp only
      rw [ofDigits_value, zero, ofDigitChars_leading_zeros, ofDigitChars_leading_zeros,
        List.length_append, List.length_replicate]
      congr 2
      omega
  · rename_i high
    split
    · rename_i short
      have zeros : ((digits.length : Int) + e).toNat - digits.length = e.toNat := by omega
      obtain ⟨n, text, value⟩ := numeral_of_whole ends
        (List.append_ne_nil_of_left_ne_nil nonempty (List.replicate e.toNat '0'))
        (isDigit_append all isDigit_zeros)
      refine ⟨n, by rw [zeros, text], ?_⟩
      rw [value, Nat.ofDigitChars_append, Nat.ofDigitChars_replicate_zero, Nat.cast_mul,
        Nat.cast_pow, ← zpow_natCast, Int.toNat_of_nonneg (by omega), mul_comm]
      rfl
    · rename_i long
      refine ⟨⟨digits.take ((digits.length : Int) + e).toNat,
        digits.drop ((digits.length : Int) + e).toNat, ?_,
        fun c mem => all c (List.mem_of_mem_take mem),
        fun c mem => all c (List.mem_of_mem_drop mem)⟩, ?_, ?_⟩
      · rw [← List.length_pos_iff, List.length_take]
        omega
      · obtain ⟨c, rest, behind⟩ := List.exists_cons_of_ne_nil
          (List.ne_nil_of_length_pos (l := digits.drop ((digits.length : Int) + e).toNat)
            (by rw [List.length_drop]; omega))
        rw [text_fraction behind]
      · rw [ofDigits_value, List.take_append_drop, List.length_drop]
        congr 2
        omega

/-- The text of a magnitude without an exponent is a numeral of the double. -/
theorem exists_numeral_of_finite {m : Nat} {q : Int} (pos : 0 < m)
    (canonical : Double.Canonical (.finite .positive m q pos))
    (positional : layout.positional (point layout.tie m q) = true) :
    ∃ n : Numeral, layout.writeMagnitude (.finite m q) = n.text ∧
      Double.parts n.value = .finite .positive m q pos := by
  have near := Double.shortest_nearest layout.tie pos q
  have units := Nat.ne_of_gt (Double.units_pos near pos)
  have digits : ∀ c ∈ Nat.toDigits 10 (Decimal.shortest layout.tie m q).units,
      c.isDigit = true := fun c mem => Nat.isDigit_of_mem_toDigits (by decide) (by decide) mem
  obtain ⟨n, written, value⟩ := numeral_of_positional ends Nat.toDigits_ne_nil digits
    (Decimal.shortest layout.tie m q).exponent
  refine ⟨n, ?_, ?_⟩
  · rw [← written, Layout.writeMagnitude, Layout.write, if_neg units]
    exact if_pos positional
  · rw [Nat.ofDigitChars_ten_toDigits] at value
    rw [Decimal.value, ← value] at near
    exact Double.parts_toFloat near pos canonical

end Layouts

def zero : Numeral :=
  ⟨['0'], [], List.cons_ne_nil _ _, List.all_eq_true.1 (by decide), List.forall_mem_nil _⟩

open Double Float.Model UnpackedFloat

theorem parts_zero_value : parts zero.value = .zero .positive := parts_toFloat_zero rfl

/-- The text of zero is a numeral of it. -/
theorem exists_numeral_of_zero {layout : Layout} (ends : EndsWhole layout) :
    ∃ n : Numeral, layout.writeMagnitude (.finite 0 (-1074)) = n.text ∧
      parts n.value = .zero .positive := by
  obtain ⟨n, text, value⟩ := numeral_of_whole ends (List.cons_ne_nil '0' [])
    (List.forall_mem_singleton.2 rfl)
  refine ⟨n, text, parts_toFloat_zero ?_⟩
  have nothing : (Decimal.ofDigits n.whole n.fraction).value = 0 := value
  rw [Decimal.value, mul_eq_zero, Nat.cast_eq_zero] at nothing
  exact nothing.resolve_right (by positivity)

/-- The text of the double has no exponent. -/
def Positional (layout : Layout) (x : Float) : Prop :=
  ∀ m q, 0 < m → magnitude x = .finite m q → layout.positional (point layout.tie m q) = true

theorem positional_plain (x : Float) : Positional .plain x := fun _ _ _ _ => rfl

/-- **A double that is finite and has no negative sign is written as it is read**, unless it is
written with an exponent. -/
theorem exists_numeral_layout {layout : Layout} (ends : EndsWhole layout) {x : Float}
    (finite : x.isFinite = true) (sign : isNegative x = false) (positional : Positional layout x) :
    ∃ n : Numeral, numberText layout x = n.text ∧ n.value = x := by
  have canonical := canonical_parts x
  have written : numberText layout x = layout.writeMagnitude (magnitudeOf (parts x)) := by
    rw [numberText, sign, magnitude_eq]
    cases magnitudeOf (parts x) <;> rfl
  have size := magnitude_eq x
  rw [isNegative_eq] at sign
  rcases parts_of_isFinite finite with ⟨s, hx⟩ | ⟨s, m, q, pos, hx⟩
  · rw [hx] at sign written
    obtain ⟨n, text, value⟩ := exists_numeral_of_zero ends
    refine ⟨n, written.trans text, parts_injective ?_⟩
    rw [hx, value]
    cases s with
    | positive => rfl
    | negative => cases sign
  · rw [hx] at sign written canonical size
    cases s with
    | positive =>
        obtain ⟨n, text, value⟩ :=
          exists_numeral_of_finite ends pos canonical (positional m q pos size)
        exact ⟨n, written.trans text, parts_injective (value.trans hx.symm)⟩
    | negative => cases sign

/-- A result that is finite and has no negative sign is written as it is read. -/
theorem exists_numeral {x : Float} (finite : x.isFinite = true) (sign : isNegative x = false) :
    ∃ n : Numeral, numberText .plain x = n.text ∧ n.value = x :=
  exists_numeral_layout endsWhole_plain finite sign (positional_plain x)

theorem isNegative_neg {x : Float} (finite : x.isFinite = true) :
    isNegative (-x) = !isNegative x := by
  rw [isNegative_eq, isNegative_eq, parts_neg]
  rcases parts_of_isFinite finite with ⟨s, hx⟩ | ⟨s, m, q, pos, hx⟩
  · rw [hx]
    cases s <;> rfl
  · rw [hx]
    cases s <;> rfl

/-- Below zero are the doubles with a negative sign but negative zero. -/
theorem lt_zero_iff {x : Float} (finite : x.isFinite = true) :
    x < 0 ↔ isNegative x = true ∧ ¬ IsZero x := by
  rw [lt_iff, parts_zero, isNegative_eq, IsZero]
  rcases parts_of_isFinite finite with ⟨s, hx⟩ | ⟨s, m, q, pos, hx⟩
  · rw [hx]
    constructor
    · intro below
      cases below
    · rintro ⟨-, nonzero⟩
      exact absurd ⟨s, rfl⟩ nonzero
  · rw [hx]
    cases s with
    | negative =>
        refine ⟨fun _ => ⟨rfl, ?_⟩, fun _ => rfl⟩
        rintro ⟨t, h⟩
        cases h
    | positive =>
        constructor
        · intro below
          cases below
        · rintro ⟨negative, -⟩
          cases negative

theorem formulaNumber_toList (x : Float) :
    (formulaNumber x).toList = if x == 0 then ['0'] else numberText .plain x := by
  unfold formulaNumber resultText
  split
  · rfl
  · exact String.toList_ofList

/-- Words stand for what is no number. -/
theorem formulaNumber_of_nonfinite {x : Float} (infinite : x.isFinite = false) :
    (formulaNumber x).toList ∈ [['i', 'n', 'f'], ['-', 'i', 'n', 'f'], ['N', 'a', 'N']] := by
  have nonzero : ¬ (x == 0) = true := by
    intro eq
    rw [((beq_zero_iff x).1 eq).isFinite] at infinite
    cases infinite
  rw [formulaNumber_toList, if_neg nonzero, numberText, magnitude_eq, isNegative_eq]
  rw [isFinite_eq] at infinite
  cases h : parts x with
  | notANumber => decide
  | infinity s => cases s <;> decide
  | zero s => rw [h] at infinite; cases infinite
  | finite s m q pos => rw [h] at infinite; cases infinite

/-- **A number of a formula is written as it is read, but for the sign of a zero.** -/
theorem formulaNumber_of_nonneg {x : Float} (finite : x.isFinite = true) (nonneg : ¬ x < 0) :
    ∃ n : Numeral, (formulaNumber x).toList = n.text ∧ Alike n.value x := by
  rw [formulaNumber_toList]
  by_cases isZero : IsZero x
  · rw [if_pos ((beq_zero_iff x).2 isZero)]
    exact ⟨zero, rfl, Or.inr ⟨⟨_, parts_zero_value⟩, isZero⟩⟩
  · rw [if_neg fun eq => isZero ((beq_zero_iff x).1 eq)]
    have sign : isNegative x = false := by
      by_contra negative
      exact nonneg ((lt_zero_iff finite).2 ⟨by simpa using negative, isZero⟩)
    obtain ⟨n, text, value⟩ := exists_numeral finite sign
    exact ⟨n, text, value ▸ Alike.refl _⟩

theorem magnitude_neg (x : Float) : magnitude (-x) = magnitude x := by
  rw [magnitude_eq, magnitude_eq, parts_neg]
  cases parts x <;> rfl

theorem numberText_of_negative (layout : Layout) {x : Float} (finite : x.isFinite = true)
    (negative : isNegative x = true) :
    numberText layout x = '-' :: numberText layout (-x) := by
  have positive : isNegative (-x) = false := by rw [isNegative_neg finite, negative]; rfl
  unfold numberText
  rw [negative, positive, magnitude_neg]
  rcases parts_of_isFinite finite with ⟨s, hx⟩ | ⟨s, m, q, pos, hx⟩
  · rw [magnitude_eq, hx]
    rfl
  · rw [magnitude_eq, hx]
    rfl

/-- **A number below zero is written as a minus sign and what it is the negative of.** -/
theorem formulaNumber_of_neg {x : Float} (finite : x.isFinite = true) (negative : x < 0) :
    ∃ n : Numeral, (formulaNumber x).toList = '-' :: n.text ∧ n.value = -x := by
  obtain ⟨sign, nonzero⟩ := (lt_zero_iff finite).1 negative
  have positive : isNegative (-x) = false := by rw [isNegative_neg finite, sign]; rfl
  obtain ⟨n, text, value⟩ := exists_numeral (x := -x) (by rw [isFinite_neg, finite]) positive
  rw [formulaNumber_toList, if_neg fun eq => nonzero ((beq_zero_iff x).1 eq),
    numberText_of_negative .plain finite sign, text]
  exact ⟨n, rfl, value⟩

/-- The characters of numbers. -/
theorem chars_formulaNumber {x : Float} {c : Char} (mem : c ∈ (formulaNumber x).toList) :
    c.isDigit = true ∨ c ∈ ['-', '.', 'i', 'n', 'f', 'N', 'a'] := by
  cases finite : x.isFinite with
  | false =>
      have words := formulaNumber_of_nonfinite finite
      revert words mem
      generalize (formulaNumber x).toList = word
      intro mem words
      simp only [List.mem_cons, List.not_mem_nil, or_false] at words
      rcases words with rfl | rfl | rfl <;> simp only [List.mem_cons, List.not_mem_nil] at mem ⊢ <;>
        tauto
  | true =>
      by_cases negative : x < 0
      · obtain ⟨n, text, -⟩ := formulaNumber_of_neg finite negative
        rw [text] at mem
        rcases List.mem_cons.1 mem with rfl | mem
        · exact .inr (by decide)
        · rcases n.chars_text mem with digit | rfl
          · exact .inl digit
          · exact .inr (by decide)
      · obtain ⟨n, text, -⟩ := formulaNumber_of_nonneg finite negative
        rw [text] at mem
        rcases n.chars_text mem with digit | rfl
        · exact .inl digit
        · exact .inr (by decide)

theorem formulaNumber_ne_nil (x : Float) : (formulaNumber x).toList ≠ [] := by
  cases finite : x.isFinite with
  | false =>
      have words := formulaNumber_of_nonfinite finite
      intro nothing
      rw [nothing] at words
      simp at words
  | true =>
      by_cases negative : x < 0
      · obtain ⟨n, text, -⟩ := formulaNumber_of_neg finite negative
        rw [text]
        exact List.cons_ne_nil _ _
      · obtain ⟨n, text, -⟩ := formulaNumber_of_nonneg finite negative
        rw [text]
        exact n.text_ne_nil

/-- There is no white space in a number. -/
theorem trimmed_formulaNumber (x : Float) : Text.Trimmed (formulaNumber x).toList := by
  refine Text.trimmed_of_visible (formulaNumber_ne_nil x) fun c mem => ?_
  rcases chars_formulaNumber mem with digit | symbol
  · exact Text.isBlank_of_isDigit digit
  · have all : ['-', '.', 'i', 'n', 'f', 'N', 'a'].all (fun c => !Text.isBlank c) = true := rfl
    simpa using List.all_eq_true.1 all c symbol

end Numeral

end DiceFormula
