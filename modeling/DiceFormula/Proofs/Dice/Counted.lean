/-
# DiceFormula.Proofs.Dice.Counted -- counts in front of dice

Dice may be written without their count, and are one then.  Such a text has no white space at all,
if there is none around it (`Uncounted.written`), and with digits in front of it it is read as the
same dice, only as many as the digits say (`Uncounted.read?_counted`).

Neither text is a number, and neither has flavor.  So among the fragments of a formula dice without
a count wait for one, and with a count they are dice (`Uncounted.classify_counted`).
-/
import DiceFormula.Proofs.Dice.Alphabet
import DiceFormula.Proofs.Formula.Waiting

namespace DiceFormula

set_option autoImplicit false

open Text (Stops Trimmed)

/-! ## Small letters -/

namespace Text

theorem isBlank_lower (c : Char) : isBlank (lower c) = isBlank c := by
  unfold lower
  split
  · rename_i kelvin
    rw [isBlank, isBlank, kelvin]
    rfl
  · by_cases upper : c.isUpper = true
    · have letter : c.toLower.isLower = true := by
        rw [Char.isLower_toLower_eq_isAlpha, Char.isAlpha, upper]
        rfl
      have written : Dice.Reader.isWritten c.toLower = true := by
        rw [Dice.Reader.isWritten, letter, Bool.or_true]
        rfl
      have range : 65 ≤ c.toNat ∧ c.toNat ≤ 90 := by
        simpa [Char.isUpper, UInt32.le_iff_toNat_le] using upper
      rw [Dice.Reader.isBlank_of_isWritten written, isBlank_of_printable (by omega) (by omega)]
    · rw [Char.toLower_eq_of_not_isUpper upper]

theorem Trimmed.lower {s : List Char} (trimmed : Trimmed s) : Trimmed (s.map lower) := by
  have stops {s : List Char} (stops : Stops isBlank s) : Stops isBlank (s.map Text.lower) := by
    intro c mem
    rw [List.head?_map, Option.mem_map] at mem
    obtain ⟨d, first, rfl⟩ := mem
    rw [isBlank_lower]
    exact stops d first
  refine ⟨fun nothing => trimmed.visible (List.map_eq_nil_iff.1 nothing), stops trimmed.first, ?_⟩
  rw [← List.map_reverse]
  exact stops trimmed.last

end Text

/-! ## Dice without a count -/

namespace Dice

/-- Dice without a count, and without white space around them. -/
structure Uncounted (text : List Char) (d : Dice) : Prop where
  trimmed : Trimmed text
  letter : text.head?.any Fragment.isLetterD = true
  read : Dice.read? text = some d

theorem parse_iff {text : String} {d : Dice} :
    parse text = .ok d ↔ read? text.toList = some d := by
  unfold parse
  split
  · rename_i d' read
    rw [read]
    exact ⟨fun ok => congrArg some (Except.ok.inj ok), fun same => congrArg _ (Option.some.inj same)⟩
  · rename_i read
    rw [read]
    constructor <;> rintro ⟨⟩

theorem uncounted_of_parse {text : String} {d : Dice} (trimmed : Text.trim text.toList = text.toList)
    (letter : text.toList.head?.any Fragment.isLetterD = true) (dice : parse text = .ok d) :
    Uncounted text.toList d := by
  have visible : Text.allBlank text.toList = false := by
    cases chars : text.toList with
    | nil => rw [chars] at letter; cases letter
    | cons c rest =>
        rw [chars, List.head?_cons, Option.any_some, Fragment.isLetterD, Bool.or_eq_true, beq_iff_eq,
          beq_iff_eq] at letter
        rcases letter with rfl | rfl <;> rfl
  exact ⟨trimmed ▸ Text.trimmed_trim visible, letter, parse_iff.1 dice⟩

namespace Uncounted

open Reader

variable {text : List Char} {d : Dice} (uncounted : Uncounted text d)
include uncounted

/-! ## Reading -/

theorem exists_small : ∃ rest, text.map Text.lower = 'd' :: rest ∧ dice? ('d' :: rest) = some d := by
  obtain ⟨trimmed, letter, read⟩ := uncounted
  cases text with
  | nil => cases letter
  | cons c text =>
      have small : Text.lower c = 'd' := by
        rw [List.head?_cons, Option.any_some, Fragment.isLetterD, Bool.or_eq_true, beq_iff_eq,
          beq_iff_eq] at letter
        rcases letter with rfl | rfl <;> rfl
      rw [Dice.read?, trimmed.lower.trim_eq, List.map_cons, small] at read
      exact ⟨text.map Text.lower, by rw [List.map_cons, small], read⟩

omit uncounted in
theorem diceCount?_letter (rest : List Char) : diceCount? ('d' :: rest) = some (1, 'd' :: rest) := by
  rw [diceCount?, Text.trimStart_of_stops (Text.stops_cons (by decide)),
    numeral?_none (Text.stops_cons (by decide))]

omit uncounted in
theorem diceCount?_counted {n : Nat} (few : n ≤ maxCount) (rest : List Char) :
    diceCount? (Nat.toDigits 10 n ++ 'd' :: rest) = some (n, 'd' :: rest) := by
  have first : Stops Text.isBlank (Nat.toDigits 10 n ++ 'd' :: rest) := by
    obtain ⟨c, digits, split⟩ := List.exists_cons_of_ne_nil (Nat.toDigits_ne_nil (b := 10) (n := n))
    rw [split]
    refine Text.stops_cons (Text.isBlank_of_isDigit (isDigit_toDigits n c ?_))
    rw [split]
    exact List.mem_cons_self
  rw [diceCount?, Text.trimStart_of_stops first,
    numeral?_toDigits n (Text.stops_cons (by decide))]
  dsimp only
  rw [Nat.ofDigitChars_ten_toDigits, if_pos few, Text.trimStart_of_stops (Text.stops_cons (by decide))]

omit uncounted in
/-- Texts with the same behind their counts are the same dice but for these. -/
theorem dice?_counted {s s' behind : List Char} {n n' : Nat}
    (counted : diceCount? s = some (n, behind)) (counted' : diceCount? s' = some (n', behind))
    (read : dice? s = some d) : dice? s' = some { d with count := n' } := by
  obtain ⟨found, first, read⟩ := Option.bind_eq_some_iff.1 read
  rw [counted] at first
  cases first
  obtain ⟨rest, after, read⟩ := Option.bind_eq_some_iff.1 read
  obtain ⟨⟨sides, rest'⟩, sided, read⟩ := Option.bind_eq_some_iff.1 read
  obtain ⟨ms, modified, read⟩ := Option.bind_eq_some_iff.1 read
  split at read
  · cases read
  · rename_i nonzero
    cases read
    rw [dice?, counted']
    simp [after, sided, modified, nonzero]

/-- Dice without a count are written without white space. -/
theorem written : ∀ c ∈ text, isWritten (Text.lower c) = true := by
  obtain ⟨rest, small, read⟩ := uncounted.exists_small
  obtain ⟨n, behind, counted, written⟩ := written_of_dice? read
  rw [diceCount?_letter] at counted
  cases counted
  intro c mem
  refine written _ ?_
  rw [← small]
  exact List.mem_map_of_mem mem

theorem not_mem {c : Char} (other : isWritten (Text.lower c) = false) : c ∉ text := by
  intro mem
  rw [uncounted.written c mem] at other
  cases other

theorem isBlank_eq : ∀ c ∈ text, Text.isBlank c = false := by
  intro c mem
  rw [← Text.isBlank_lower]
  exact isBlank_of_isWritten (uncounted.written c mem)

theorem isBracket_eq : ∀ c ∈ text, isBracket c = false := by
  intro c mem
  by_contra bracket
  simp only [isBracket, Bool.not_eq_false, Bool.or_eq_true, beq_iff_eq] at bracket
  rcases bracket with (((rfl | rfl) | rfl) | rfl) | rfl <;> exact uncounted.not_mem rfl mem

theorem ofSymbol?_eq : ∀ c ∈ text, Operator.ofSymbol? c = none := by
  intro c mem
  unfold Operator.ofSymbol?
  split
  · exact absurd mem (uncounted.not_mem rfl)
  · exact absurd mem (uncounted.not_mem rfl)
  · exact absurd mem (uncounted.not_mem rfl)
  · exact absurd mem (uncounted.not_mem rfl)
  · rfl

/-- **Digits in front of dice are their count.** -/
theorem read?_counted {n : Nat} (few : n ≤ maxCount) :
    Dice.read? (Nat.toDigits 10 n ++ text) = some { d with count := n } := by
  obtain ⟨rest, small, read⟩ := uncounted.exists_small
  have digits : (Nat.toDigits 10 n).map Text.lower = Nat.toDigits 10 n := by
    conv => rhs; rw [← List.map_id (Nat.toDigits 10 n)]
    exact List.map_congr_left fun c mem =>
      lower_of_isWritten (isWritten_of_isDigit (isDigit_toDigits n c mem))
  have front : Trimmed (Nat.toDigits 10 n) := Text.trimmed_of_visible Nat.toDigits_ne_nil
    fun c mem => Text.isBlank_of_isDigit (isDigit_toDigits n c mem)
  rw [Dice.read?, List.map_append, digits, (front.append uncounted.trimmed.lower).trim_eq, small]
  exact dice?_counted (diceCount?_letter rest) (diceCount?_counted few rest) read

/-! ## Fragments -/

theorem number?_counted {digits : List Char} (all : ∀ c ∈ digits, c.isDigit = true) :
    Fragment.number? (digits ++ text) = none := by
  have letter := uncounted.letter
  cases text with
  | nil => cases letter
  | cons c rest => exact Fragment.number?_letter all letter rest

theorem splitFlavor_counted {digits : List Char} (all : ∀ c ∈ digits, c.isDigit = true) :
    Fragment.splitFlavor (digits ++ text) = (digits ++ text, none) := by
  have bracket : ']' ∉ digits ++ text := by
    rw [List.mem_append, not_or]
    refine ⟨fun mem => ?_, uncounted.not_mem rfl⟩
    cases all ']' mem
  have trimmed : Trimmed (digits ++ text) := by
    refine Text.trimmed_of_visible (List.append_ne_nil_of_right_ne_nil _ uncounted.trimmed.visible) ?_
    exact List.forall_mem_append.2 ⟨fun c mem => Text.isBlank_of_isDigit (all c mem), uncounted.isBlank_eq⟩
  exact Fragment.splitFlavor_plain trimmed fun last => bracket (List.mem_of_getLast? last)

/-- With a count they are classified as dice. -/
theorem classify_counted {n : Nat} (few : n ≤ maxCount) :
    Fragment.classify (String.ofList (Nat.toDigits 10 n ++ text)) =
      .ok (.ofDice { d with count := n } none) := by
  unfold Fragment.classify
  rw [String.toList_ofList, uncounted.splitFlavor_counted (isDigit_toDigits n)]
  dsimp only
  rw [uncounted.number?_counted (isDigit_toDigits n), uncounted.read?_counted few]
  rfl

/-- Without a count they are no term yet. -/
theorem classifyEarly_uncounted (prior next : Option Term) :
    Fragment.classifyEarly (String.ofList text) prior next = .fragment (String.ofList text) := by
  have split := uncounted.splitFlavor_counted (List.forall_mem_nil _)
  have number := uncounted.number?_counted (List.forall_mem_nil _)
  rw [List.nil_append] at split number
  have lacks : Fragment.lacksCount text = true := by
    rw [Fragment.lacksCount, Text.trimStart_of_stops uncounted.trimmed.first]
    exact uncounted.letter
  unfold Fragment.classifyEarly
  rw [String.toList_ofList, split]
  dsimp only
  rw [number, uncounted.read]
  dsimp only
  rw [lacks, Bool.true_or, if_pos rfl]

/-- They can wait for a count. -/
theorem checkPending_uncounted {g : Term} (pending : g.isIntermediate = true) :
    Fragment.checkPending (String.ofList text) (some g) none = .ok () := by
  have split := uncounted.splitFlavor_counted (List.forall_mem_nil _)
  rw [List.nil_append] at split
  have one := uncounted.classify_counted (n := 1) (by decide)
  have digit : Nat.toDigits 10 1 = ['1'] := rfl
  rw [digit] at one
  unfold Fragment.checkPending
  rw [String.toList_ofList, uncounted.trimmed.trim_eq]
  dsimp only
  rw [split, Fragment.placeholder_pending pending, Fragment.placeholder_other rfl]
  dsimp only
  rw [List.append_nil, List.append_nil, one]

end Uncounted

end Dice

end DiceFormula
