/-
# DiceFormula.Proofs.Text.Basic -- runs of characters

Readers take the longest run of a class of characters from the start of a text.
A text that is put together from such a run and something else comes apart at
the same place (`span_append`).
-/
import DiceFormula.Text.Basic
import Mathlib

namespace DiceFormula.Text

set_option autoImplicit false

/-- The text starts with no character of a class. -/
def Stops (p : Char → Bool) (s : List Char) : Prop := ∀ c ∈ s.head?, p c = false

theorem stops_nil (p : Char → Bool) : Stops p [] := by
  intro c mem
  cases mem

theorem stops_cons {p : Char → Bool} {c : Char} {s : List Char} (stop : p c = false) :
    Stops p (c :: s) := by
  intro d mem
  cases mem
  exact stop

theorem span_append {p : Char → Bool} {run rest : List Char} (all : ∀ c ∈ run, p c = true)
    (stop : Stops p rest) : (run ++ rest).span p = (run, rest) := by
  rw [List.span_eq_takeWhile_dropWhile, List.takeWhile_append_of_pos all,
    List.dropWhile_append_of_pos all]
  cases rest with
  | nil => simp
  | cons c rest => simp [stop c rfl]

theorem span_all {p : Char → Bool} {run : List Char} (all : ∀ c ∈ run, p c = true) :
    run.span p = (run, []) := by
  have := span_append all (stops_nil p)
  rwa [List.append_nil] at this

/-- What is taken and what is left. -/
theorem span_spec (p : Char → Bool) (s : List Char) :
    s = (s.span p).1 ++ (s.span p).2 ∧ (∀ c ∈ (s.span p).1, p c = true) ∧
      Stops p (s.span p).2 := by
  rw [List.span_eq_takeWhile_dropWhile]
  refine ⟨List.takeWhile_append_dropWhile.symm, fun c mem => ?_, fun c mem => ?_⟩
  · exact List.mem_takeWhile_imp mem
  · have := List.head?_dropWhile_not p s
    rw [Option.mem_def.1 mem] at this
    simpa using this

/-! ## Beginnings -/

theorem after?_sound {beginning s rest : List Char}
    (found : after? beginning s = some rest) : s = beginning ++ rest := by
  induction beginning generalizing s with
  | nil =>
      cases found
      rfl
  | cons c beginning ih =>
      cases s with
      | nil => cases found
      | cons d s =>
          unfold after? at found
          split at found
          · rename_i same
            rw [same, ih found]
            rfl
          · cases found

/-! ## White space -/

/-- White space is no printable ASCII character. -/
theorem toNat_of_isBlank {c : Char} (blank : isBlank c = true) : c.toNat < 33 ∨ 126 < c.toNat := by
  unfold isBlank at blank
  dsimp only at blank
  generalize c.toNat = n at blank
  simp only [Bool.or_eq_true, Bool.and_eq_true, decide_eq_true_eq, beq_iff_eq] at blank
  omega

theorem isBlank_of_printable {c : Char} (low : 33 ≤ c.toNat) (high : c.toNat ≤ 126) :
    isBlank c = false := by
  by_contra blank
  rw [Bool.not_eq_false] at blank
  have := toNat_of_isBlank blank
  omega

theorem isBlank_of_isDigit {c : Char} (digit : c.isDigit = true) : isBlank c = false := by
  have bounds : 48 ≤ c.toNat ∧ c.toNat ≤ 57 := Char.isDigit_iff_toNat.1 digit
  exact isBlank_of_printable (by omega) (by omega)

/-- ASCII letters and digits are printable. -/
theorem toNat_of_isAlphanum {c : Char} (alphanumeric : c.isAlphanum = true) :
    48 ≤ c.toNat ∧ c.toNat ≤ 122 := by
  simp only [Char.isAlphanum, Char.isAlpha, Char.isUpper, Char.isLower, Char.isDigit,
    Bool.or_eq_true, Bool.and_eq_true, decide_eq_true_eq, ge_iff_le, UInt32.le_iff_toNat_le]
    at alphanumeric
  have value : c.val.toNat = c.toNat := rfl
  simp only [value, Char.reduceVal, UInt32.reduceToNat] at alphanumeric
  omega

theorem isWordChar_of_isBlank {c : Char} (blank : isBlank c = true) : isWordChar c = false := by
  have outside := toNat_of_isBlank blank
  by_contra word
  rw [Bool.not_eq_false, isWordChar, Bool.or_eq_true, beq_iff_eq] at word
  rcases word with alphanumeric | rfl
  · have := toNat_of_isAlphanum alphanumeric
    omega
  · cases blank

theorem trimStart_append {gap : List Char} (blank : allBlank gap = true) (s : List Char) :
    trimStart (gap ++ s) = trimStart s :=
  List.dropWhile_append_of_pos (List.all_eq_true.1 blank)

theorem trimStart_of_stops {s : List Char} (stops : Stops isBlank s) : trimStart s = s := by
  cases s with
  | nil => rfl
  | cons c s => exact List.dropWhile_cons_of_neg (by simp [stops c rfl])

theorem trimStart_of_allBlank {s : List Char} (blank : allBlank s = true) : trimStart s = [] := by
  have := trimStart_append blank []
  rwa [List.append_nil] at this

theorem allBlank_append (s t : List Char) : allBlank (s ++ t) = (allBlank s && allBlank t) :=
  List.all_append

theorem trimEnd_append {gap : List Char} (blank : allBlank gap = true) (s : List Char) :
    trimEnd (s ++ gap) = trimEnd s := by
  have reversed : ∀ c ∈ gap.reverse, isBlank c = true := fun c mem =>
    List.all_eq_true.1 blank c (List.mem_reverse.1 mem)
  rw [trimEnd, List.reverse_append, List.dropWhile_append_of_pos reversed]
  rfl

theorem trim_blank_append {gap : List Char} (blank : allBlank gap = true) (s : List Char) :
    trim (gap ++ s) = trim s := by
  rw [trim, trimStart_append blank, trim]

theorem trim_append_blank {gap : List Char} (blank : allBlank gap = true) (s : List Char) :
    trim (s ++ gap) = trim s := by
  rw [trim, trim]
  by_cases all : allBlank s = true
  · have both : allBlank (s ++ gap) = true := by rw [allBlank_append, all, blank]; rfl
    rw [trimStart_of_allBlank both, trimStart_of_allBlank all]
  · obtain ⟨c, mem, visible⟩ : ∃ c ∈ s, ¬ isBlank c = true := by
      simpa [allBlank] using all
    have behind : trimStart (s ++ gap) = trimStart s ++ gap := by
      rw [trimStart, trimStart, List.dropWhile_append, if_neg]
      simp only [List.isEmpty_iff, List.dropWhile_eq_nil_iff]
      exact fun blanks => visible (blanks c mem)
    rw [behind, trimEnd_append blank]

theorem trimEnd_of_stops {s : List Char} (last : Stops isBlank s.reverse) : trimEnd s = s := by
  have behind := trimStart_of_stops last
  rw [trimStart] at behind
  rw [trimEnd, behind, List.reverse_reverse]

theorem trim_of_stops {s : List Char} (first : Stops isBlank s) (last : Stops isBlank s.reverse) :
    trim s = s := by
  rw [trim, trimStart_of_stops first, trimEnd_of_stops last]

theorem trim_of_visible {s : List Char} (visible : ∀ c ∈ s, isBlank c = false) : trim s = s :=
  trim_of_stops (fun c mem => visible c (List.mem_of_mem_head? mem))
    fun c mem => visible c (List.mem_reverse.1 (List.mem_of_mem_head? mem))

/-- A text is white space and what is left when it is trimmed. -/
theorem exists_gap (s : List Char) :
    ∃ gap, allBlank gap = true ∧ s = gap ++ trimStart s := by
  refine ⟨s.takeWhile isBlank, ?_, List.takeWhile_append_dropWhile.symm⟩
  exact List.all_eq_true.2 fun c mem => List.mem_takeWhile_imp mem

/-- There is something in the text, and no white space around it. -/
structure Trimmed (s : List Char) : Prop where
  visible : s ≠ []
  first : Stops isBlank s
  last : Stops isBlank s.reverse

theorem Trimmed.trim_eq {s : List Char} (trimmed : Trimmed s) : trim s = s :=
  trim_of_stops trimmed.first trimmed.last

theorem Trimmed.allBlank_eq {s : List Char} (trimmed : Trimmed s) : allBlank s = false := by
  obtain ⟨c, s, rfl⟩ := List.exists_cons_of_ne_nil trimmed.visible
  rw [allBlank, List.all_cons, trimmed.first c rfl, Bool.false_and]

theorem stops_trimStart (s : List Char) : Stops isBlank (trimStart s) := by
  intro c mem
  have stop := List.head?_dropWhile_not isBlank s
  rw [← trimStart, Option.mem_def.1 mem] at stop
  simpa using stop

/-- A text without white space in front is what is left when it is trimmed, and white space. -/
theorem exists_gap_behind (s : List Char) :
    ∃ gap, allBlank gap = true ∧ trimStart s = trim s ++ gap := by
  obtain ⟨gap, blank, split⟩ := exists_gap (trimStart s).reverse
  refine ⟨gap.reverse, by rwa [allBlank, List.all_reverse], ?_⟩
  have reversed := congrArg List.reverse split
  rwa [List.reverse_reverse, List.reverse_append] at reversed

/-- What is trimmed is trimmed for good. -/
theorem trimmed_trim {s : List Char} (visible : allBlank s = false) : Trimmed (trim s) := by
  obtain ⟨gap, blank, split⟩ := exists_gap s
  obtain ⟨gap', blank', whole⟩ := exists_gap_behind s
  have some_ : trim s ≠ [] := by
    intro nothing
    rw [nothing, List.nil_append] at whole
    have all : allBlank s = true := by
      rw [split, allBlank_append, blank, whole, blank']
      rfl
    rw [visible] at all
    cases all
  refine ⟨some_, fun c mem => stops_trimStart s c ?_, ?_⟩
  · rw [whole, List.head?_append_of_ne_nil _ some_]
    exact mem
  · rw [trim, trimEnd, List.reverse_reverse]
    exact stops_trimStart _

theorem Trimmed.join {front behind : List Char} (first : Trimmed front) (middle : List Char)
    (last : Trimmed behind) : Trimmed (front ++ middle ++ behind) := by
  obtain ⟨c, s, rfl⟩ := List.exists_cons_of_ne_nil first.visible
  obtain ⟨d, t, reversed⟩ := List.exists_cons_of_ne_nil (List.reverse_ne_nil_iff.2 last.visible)
  refine ⟨List.cons_ne_nil _ _, stops_cons (first.first c rfl), ?_⟩
  rw [List.reverse_append, reversed]
  exact stops_cons (last.last d (by rw [reversed]; rfl))

theorem Trimmed.append {front behind : List Char} (first : Trimmed front)
    (last : Trimmed behind) : Trimmed (front ++ behind) := by
  have joined := first.join [] last
  rwa [List.append_nil] at joined

theorem trimmed_of_visible {s : List Char} (some_ : s ≠ []) (visible : ∀ c ∈ s, isBlank c = false) :
    Trimmed s :=
  ⟨some_, fun c mem => visible c (List.mem_of_mem_head? mem),
    fun c mem => visible c (List.mem_reverse.1 (List.mem_of_mem_head? mem))⟩

theorem trimmed_of_printable {s : List Char} (some_ : s ≠ [])
    (printable : ∀ c ∈ s, 33 ≤ c.toNat ∧ c.toNat ≤ 126) : Trimmed s :=
  trimmed_of_visible some_ fun c mem => isBlank_of_printable (printable c mem).1 (printable c mem).2

theorem trimmed_singleton {c : Char} (visible : isBlank c = false) : Trimmed [c] :=
  trimmed_of_visible (List.cons_ne_nil c []) (List.forall_mem_singleton.2 visible)

theorem trimEnd_trimEnd (s : List Char) : trimEnd (trimEnd s) = trimEnd s := by
  rw [trimEnd, trimEnd, List.reverse_reverse, List.dropWhile_idempotent]

theorem Trimmed.trimEnd_eq {s : List Char} (trimmed : Trimmed s) : trimEnd s = s :=
  trimEnd_of_stops trimmed.last

theorem trimEnd_join {front : List Char} (first : Trimmed front) (s : List Char) :
    trimEnd (front ++ s) = front ++ trimEnd s := by
  have kept : front.reverse.dropWhile isBlank = front.reverse := by
    have same := congrArg List.reverse first.trimEnd_eq
    rwa [trimEnd, List.reverse_reverse] at same
  rw [trimEnd, trimEnd, List.reverse_append, List.dropWhile_append]
  split
  · rename_i blank
    rw [kept, List.isEmpty_iff.1 blank, List.reverse_nil, List.append_nil, List.reverse_reverse]
  · rw [List.reverse_append, List.reverse_reverse]

/-! ## Lengths -/

theorem length_le_intercalate {s : List Char} {xs : List (List Char)} {x : List Char}
    (mem : x ∈ xs) : x.length ≤ (s.intercalate xs).length := by
  induction xs with
  | nil => cases mem
  | cons y xs ih =>
      cases xs with
      | nil =>
          rw [List.mem_singleton.1 mem, List.intercalate_singleton]
      | cons z xs =>
          rw [List.intercalate_cons_cons, List.length_append, List.length_append]
          rcases List.mem_cons.1 mem with rfl | mem
          · omega
          · have := ih mem
            omega

theorem byteLength_append (s t : List Char) : byteLength (s ++ t) = byteLength s + byteLength t := by
  induction s with
  | nil => exact (Nat.zero_add _).symm
  | cons c s ih => rw [List.cons_append, byteLength, byteLength, ih, Nat.add_assoc]

end DiceFormula.Text
