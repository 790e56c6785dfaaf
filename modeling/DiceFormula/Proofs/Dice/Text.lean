/-
# DiceFormula.Proofs.Dice.Text -- dice are read from their text

A modifier is `Writable` if its numbers are in the ranges that are read, and its
count, if it has one, is not zero: a count of one is left out, and so is a count of
zero.  The reader takes a writable modifier from the start of a text, whatever
modifiers follow (`modifier?_text`), and so it reads all of them
(`modifiers?_textAll`) and the dice that they belong to (`read?_text`).
-/
import DiceFormula.Dice.Reader
import DiceFormula.Proofs.Text.Basic

namespace DiceFormula

set_option autoImplicit false

/-! ## What can be written -/

/-- The bound can be read. -/
def Condition.Writable (c : Condition) : Prop := 0 ≤ c.bound ∧ c.bound ≤ Limit.mostValue

instance (c : Condition) : Decidable c.Writable := inferInstanceAs (Decidable (_ ∧ _))

namespace Modifier

/-- The count is not zero, and all numbers can be read. -/
def Writable : Modifier → Prop
  | reroll condition _ => condition.Writable
  | explode condition _ => ∀ c, condition = some c → c.Writable
  | keepHigh n | keepLow n | dropHigh n | dropLow n => 1 ≤ n ∧ n ≤ Limit.mostCount
  | raise bound | cap bound => 0 ≤ bound ∧ bound ≤ Limit.mostValue
  | countSuccess condition | countFailure condition => condition.Writable

end Modifier

/-- The dice and all their modifiers can be read. -/
structure Dice.Writable (d : Dice) : Prop where
  count : d.count ≤ Dice.maxCount
  sides : 1 ≤ d.sides ∧ d.sides ≤ Limit.mostCount
  modifiers : ∀ m ∈ d.modifiers, m.Writable

namespace Dice.Reader

open Text (Stops)

/-! ## Numbers -/

theorem isDigit_toDigits (n : Nat) : ∀ c ∈ Nat.toDigits 10 n, c.isDigit = true :=
  fun _ mem => Nat.isDigit_of_mem_toDigits (by decide) (by decide) mem

/-- A number that is not zero has no leading zero. -/
theorem head_toDigits {n : Nat} (nonzero : n ≠ 0) (rest : List Char) :
    Nat.toDigits 10 n ≠ '0' :: rest := by
  induction n using Nat.strongRecOn generalizing rest with
  | _ n ih =>
      by_cases small : n < 10
      · rw [Nat.toDigits_of_lt_base small]
        intro same
        exact nonzero (Nat.digitChar_eq_zero.1 (List.cons.inj same).1)
      · rw [Nat.toDigits_of_base_le (by decide) (Nat.le_of_not_lt small)]
        cases front : Nat.toDigits 10 (n / 10) with
        | nil => exact absurd front Nat.toDigits_ne_nil
        | cons c others =>
            intro same
            obtain ⟨rfl, -⟩ := List.cons.inj same
            exact ih (n / 10) (by omega) (by omega) others front

theorem numeral?_toDigits (n : Nat) {rest : List Char} (stops : Stops Char.isDigit rest) :
    numeral? (Nat.toDigits 10 n ++ rest) = some (Nat.toDigits 10 n, rest) := by
  by_cases zero : n = 0
  · rw [zero, Nat.toDigits_zero]
    rfl
  · have span := Text.span_append (isDigit_toDigits n) stops
    cases digits : Nat.toDigits 10 n with
    | nil => exact absurd digits Nat.toDigits_ne_nil
    | cons c others =>
        rw [digits] at span
        have first : c ≠ '0' := by
          rintro rfl
          exact head_toDigits zero others digits
        unfold numeral?
        split
        · rename_i same
          exact absurd (List.cons.inj same).1 first
        · rw [span]

theorem numberUpTo?_toDigits {n most : Nat} (within : n ≤ most) {rest : List Char}
    (stops : Stops Char.isDigit rest) :
    numberUpTo? most (Nat.toDigits 10 n ++ rest) = some (n, rest) := by
  rw [numberUpTo?, numeral?_toDigits n stops]
  simp [Nat.ofDigitChars_ten_toDigits, within]

theorem toList_toString (n : Nat) : (toString n).toList = Nat.toDigits 10 n := Nat.toList_repr

theorem numeral?_none {s : List Char} (stops : Stops Char.isDigit s) : numeral? s = none := by
  unfold numeral?
  split
  · exact absurd (stops '0' rfl) (by decide)
  · rename_i other
    cases s with
    | nil => rfl
    | cons c s =>
        have stop : c.isDigit = false := stops c rfl
        rw [List.span_eq_takeWhile_dropWhile, List.takeWhile_cons_of_neg (by simp [stop])]

theorem bound?_text {b : Int} (least : 0 ≤ b) (most : b ≤ Limit.mostValue) {rest : List Char}
    (stops : Stops Char.isDigit rest) : bound? ((toString b).toList ++ rest) = some (b, rest) := by
  obtain ⟨n, rfl⟩ := Int.eq_ofNat_of_zero_le least
  have within : n ≤ Limit.mostValue.toNat := by omega
  have text : (toString (n : Int)).toList = Nat.toDigits 10 n := toList_toString n
  rw [bound?, text, numberUpTo?_toDigits within stops]
  rfl

theorem isDigit_bound {b : Int} (least : 0 ≤ b) : ∀ c ∈ (toString b).toList, c.isDigit = true := by
  obtain ⟨n, rfl⟩ := Int.eq_ofNat_of_zero_le least
  exact fun c mem => isDigit_toDigits n c ((toList_toString n) ▸ mem)

theorem count?_text {n : Nat} (least : 1 ≤ n) (most : n ≤ Limit.mostCount) {rest : List Char}
    (stops : Stops Char.isDigit rest) :
    count? ((Modifier.countText n).toList ++ rest) = some (n, rest) := by
  unfold Modifier.countText
  split
  · rw [toList_toString, count?, numeral?_toDigits n stops]
    exact numberUpTo?_toDigits most stops
  · have one : n = 1 := by omega
    rw [one]
    show count? rest = some (1, rest)
    rw [count?, numeral?_none stops]

/-! ## Conditions -/

theorem comparison_text (c : Comparison) {rest : List Char}
    (digit : ∃ d s, rest = d :: s ∧ d.isDigit = true) :
    comparison (c.symbol.toList ++ rest) = (c, rest) := by
  obtain ⟨d, s, rfl, digit⟩ := digit
  have other : d ≠ '=' := by
    rintro rfl
    cases digit
  cases c with
  | equal => rfl
  | atLeast => rfl
  | atMost => rfl
  | above => 
      show comparison ('>' :: d :: s) = _
      unfold comparison
      split <;> simp_all
  | below =>
      show comparison ('<' :: d :: s) = _
      unfold comparison
      split <;> simp_all

theorem digit_text {b : Int} (least : 0 ≤ b) (rest : List Char) :
    ∃ d s, (toString b).toList ++ rest = d :: s ∧ d.isDigit = true := by
  obtain ⟨n, rfl⟩ := Int.eq_ofNat_of_zero_le least
  have text : (toString (n : Int)).toList = Nat.toDigits 10 n := toList_toString n
  rw [text]
  cases digits : Nat.toDigits 10 n with
  | nil => exact absurd digits Nat.toDigits_ne_nil
  | cons c others =>
      exact ⟨c, others ++ rest, rfl, isDigit_toDigits n c (by rw [digits]; exact List.mem_cons_self)⟩

theorem condition?_text {c : Condition} (writable : c.Writable) {rest : List Char}
    (stops : Stops Char.isDigit rest) :
    condition? (c.text.toList ++ rest) = some (c, rest) := by
  rw [Condition.text, String.toList_append, List.append_assoc, condition?,
    comparison_text _ (digit_text writable.1 rest)]
  dsimp only
  rw [bound?_text writable.1 writable.2 stops]
  rfl

/-! ## Modifiers -/

/-- The text is over, or a modifier starts there. -/
def Follows (s : List Char) : Prop := ∀ c ∈ s.head?, c ∈ ['r', 'x', 'k', 'd', 'm', 'c']

theorem Follows.stops {s : List Char} (follows : Follows s) : Stops Char.isDigit s := by
  have letters : ['r', 'x', 'k', 'd', 'm', 'c'].all (!·.isDigit) = true := by decide
  exact fun c mem => Bool.not_eq_true' _ ▸ List.all_eq_true.1 letters c (follows c mem)

theorem head_condition (c : Condition) :
    ∃ d s, c.text.toList = d :: s ∧ d ∈ ['=', '<', '>'] := by
  rw [Condition.text, String.toList_append]
  cases c.comparison with
  | equal => exact ⟨'=', _, rfl, by decide⟩
  | above => exact ⟨'>', _, rfl, by decide⟩
  | atLeast => exact ⟨'>', _, rfl, by decide⟩
  | below => exact ⟨'<', _, rfl, by decide⟩
  | atMost => exact ⟨'<', _, rfl, by decide⟩

theorem optionalLetter_other {letter : Char} {s : List Char} (other : ∀ c ∈ s.head?, c ≠ letter) :
    optionalLetter letter s = (false, s) := by
  cases s with
  | nil => rfl
  | cons c s => exact if_neg (other c rfl)

theorem optionalLetter_condition {letter : Char} (c : Condition) (rest : List Char)
    (other : letter ∉ ['=', '<', '>']) :
    optionalLetter letter (c.text.toList ++ rest) = (false, c.text.toList ++ rest) := by
  obtain ⟨d, s, text, symbol⟩ := head_condition c
  refine optionalLetter_other fun e mem => ?_
  rw [text] at mem
  cases mem
  rintro rfl
  exact other symbol

theorem optionalCondition_text {c : Condition} (writable : c.Writable) {rest : List Char}
    (follows : Follows rest) : optionalCondition (c.text.toList ++ rest) = (some c, rest) := by
  rw [optionalCondition, condition?_text writable follows.stops]

/-- A condition that is left out. -/
theorem optionalCondition_none {rest : List Char} (follows : Follows rest) :
    optionalCondition rest = (none, rest) := by
  have symbol : comparison rest = (.equal, rest) := by
    unfold comparison
    split
    · exact absurd (follows '>' rfl) (by decide)
    · exact absurd (follows '<' rfl) (by decide)
    · exact absurd (follows '>' rfl) (by decide)
    · exact absurd (follows '<' rfl) (by decide)
    · exact absurd (follows '=' rfl) (by decide)
    · rfl
  have number : condition? rest = none := by
    rw [condition?, symbol]
    dsimp only
    rw [bound?, numberUpTo?, numeral?_none follows.stops]
    rfl
  rw [optionalCondition, number]

theorem reroll_text {c : Condition} (writable : c.Writable) (again : Bool) {rest : List Char}
    (follows : Follows rest) :
    modifier? ((Modifier.reroll c again).text.toList ++ rest) = some (.reroll c again, rest) := by
  have read : Reader.reroll ((if again then ['r'] else []) ++ (c.text.toList ++ rest)) =
      (.reroll c again, rest) := by
    unfold Reader.reroll
    cases again with
    | true =>
        have letter : optionalLetter 'r' ('r' :: (c.text.toList ++ rest)) =
            (true, c.text.toList ++ rest) := rfl
        dsimp only
        rw [if_pos rfl, List.singleton_append, letter]
        dsimp only
        rw [optionalCondition_text writable follows]
        rfl
    | false =>
        rw [if_neg (by simp), List.nil_append, optionalLetter_condition c rest (by decide)]
        dsimp only
        rw [optionalCondition_text writable follows]
        rfl
  have text : (Modifier.reroll c again).text.toList ++ rest =
      'r' :: ((if again then ['r'] else []) ++ (c.text.toList ++ rest)) := by
    rw [Modifier.text, String.toList_append, List.append_assoc]
    cases again <;> rfl
  rw [text]
  exact congrArg some read

/-- The condition of exploding dice, which may be left out. -/
theorem optionalCondition_getD {c : Option Condition} (writable : ∀ d, c = some d → d.Writable)
    {rest : List Char} (follows : Follows rest) :
    optionalCondition (((c.map Condition.text).getD "").toList ++ rest) = (c, rest) := by
  cases c with
  | none => exact optionalCondition_none follows
  | some c => exact optionalCondition_text (writable c rfl) follows

theorem optionalLetter_getD (c : Option Condition) {rest : List Char} (follows : Follows rest) :
    optionalLetter 'o' (((c.map Condition.text).getD "").toList ++ rest) =
      (false, ((c.map Condition.text).getD "").toList ++ rest) := by
  cases c with
  | none =>
      refine optionalLetter_other fun d mem => ?_
      rintro rfl
      exact absurd (follows 'o' mem) (by decide)
  | some c => exact optionalLetter_condition c rest (by decide)

theorem explode_text {c : Option Condition} (writable : ∀ d, c = some d → d.Writable) (again : Bool)
    {rest : List Char} (follows : Follows rest) :
    modifier? ((Modifier.explode c again).text.toList ++ rest) = some (.explode c again, rest) := by
  have condition := optionalCondition_getD writable follows
  have read : Reader.explode ((if again then [] else ['o']) ++
      (((c.map Condition.text).getD "").toList ++ rest)) = (.explode c again, rest) := by
    unfold Reader.explode
    cases again with
    | true =>
        rw [if_pos rfl, List.nil_append, optionalLetter_getD c follows]
        dsimp only
        rw [condition]
        rfl
    | false =>
        have letter (s : List Char) : optionalLetter 'o' ('o' :: s) = (true, s) := rfl
        rw [if_neg (by simp), List.singleton_append, letter]
        dsimp only
        rw [condition]
        rfl
  have text : (Modifier.explode c again).text.toList ++ rest = 'x' ::
      ((if again then [] else ['o']) ++ (((c.map Condition.text).getD "").toList ++ rest)) := by
    rw [Modifier.text, String.toList_append, List.append_assoc]
    cases again <;> rfl
  rw [text]
  exact congrArg some read

/-- **A modifier is read from its text**, whatever modifiers follow. -/
theorem modifier?_text {m : Modifier} (writable : m.Writable) {rest : List Char}
    (follows : Follows rest) : modifier? (m.text.toList ++ rest) = some (m, rest) := by
  cases m with
  | reroll condition again => exact reroll_text writable again follows
  | explode condition again => exact explode_text writable again follows
  | keepHigh n =>
      have read := count?_text writable.1 writable.2 follows.stops
      rw [Modifier.text, String.toList_append, List.append_assoc]
      show modifier? ('k' :: 'h' :: ((Modifier.countText n).toList ++ rest)) = _
      simp [modifier?, counted?, countedShort?, Text.after?, optionalLetter, read]
  | keepLow n =>
      have read := count?_text writable.1 writable.2 follows.stops
      rw [Modifier.text, String.toList_append, List.append_assoc]
      show modifier? ('k' :: 'l' :: ((Modifier.countText n).toList ++ rest)) = _
      simp [modifier?, counted?, Text.after?, read]
  | dropHigh n =>
      have read := count?_text writable.1 writable.2 follows.stops
      rw [Modifier.text, String.toList_append, List.append_assoc]
      show modifier? ('d' :: 'h' :: ((Modifier.countText n).toList ++ rest)) = _
      simp [modifier?, counted?, countedShort?, Text.after?, read]
  | dropLow n =>
      have read := count?_text writable.1 writable.2 follows.stops
      rw [Modifier.text, String.toList_append, List.append_assoc]
      show modifier? ('d' :: 'l' :: ((Modifier.countText n).toList ++ rest)) = _
      simp [modifier?, counted?, countedShort?, Text.after?, optionalLetter, read]
  | raise bound =>
      have read := bound?_text writable.1 writable.2 follows.stops
      rw [Modifier.text, String.toList_append, List.append_assoc]
      generalize (toString bound).toList ++ rest = s at read ⊢
      show modifier? ('m' :: 'i' :: 'n' :: s) = _
      simp [modifier?, counted?, countedShort?, bounded?, Text.after?, read]
  | cap bound =>
      have read := bound?_text writable.1 writable.2 follows.stops
      rw [Modifier.text, String.toList_append, List.append_assoc]
      generalize (toString bound).toList ++ rest = s at read ⊢
      show modifier? ('m' :: 'a' :: 'x' :: s) = _
      simp [modifier?, counted?, countedShort?, bounded?, Text.after?, read]
  | countSuccess condition =>
      have read := condition?_text writable follows.stops
      rw [Modifier.text, String.toList_append, List.append_assoc]
      show modifier? ('c' :: 's' :: (condition.text.toList ++ rest)) = _
      simp [modifier?, counted?, countedShort?, bounded?, scored?, Text.after?, read]
  | countFailure condition =>
      have read := condition?_text writable follows.stops
      rw [Modifier.text, String.toList_append, List.append_assoc]
      show modifier? ('c' :: 'f' :: (condition.text.toList ++ rest)) = _
      simp [modifier?, counted?, countedShort?, bounded?, scored?, Text.after?, read]

/-- A modifier starts with its letter. -/
theorem head_text (m : Modifier) :
    ∃ c s, m.text.toList = c :: s ∧ c ∈ ['r', 'x', 'k', 'd', 'm', 'c'] := by
  cases m with
  | reroll condition again =>
      rw [Modifier.text, String.toList_append]
      cases again <;> exact ⟨'r', _, rfl, by decide⟩
  | explode condition again =>
      rw [Modifier.text, String.toList_append]
      cases again <;> exact ⟨'x', _, rfl, by decide⟩
  | keepHigh n | keepLow n =>
      rw [Modifier.text, String.toList_append]
      exact ⟨'k', _, rfl, by decide⟩
  | dropHigh n | dropLow n =>
      rw [Modifier.text, String.toList_append]
      exact ⟨'d', _, rfl, by decide⟩
  | raise bound | cap bound =>
      rw [Modifier.text, String.toList_append]
      exact ⟨'m', _, rfl, by decide⟩
  | countSuccess condition | countFailure condition =>
      rw [Modifier.text, String.toList_append]
      exact ⟨'c', _, rfl, by decide⟩

theorem toList_textAll (ms : List Modifier) :
    (Modifier.textAll ms).toList = ms.flatMap fun m => m.text.toList := by
  rw [Modifier.textAll, String.toList_join, List.flatMap_map]

theorem follows_textAll (ms : List Modifier) : Follows (Modifier.textAll ms).toList := by
  rw [toList_textAll]
  cases ms with
  | nil => exact fun c mem => by cases mem
  | cons m ms =>
      obtain ⟨c, s, text, letter⟩ := head_text m
      rw [List.flatMap_cons, text]
      intro d mem
      cases mem
      exact letter

theorem modifiersWithin?_textAll {ms : List Modifier} (writable : ∀ m ∈ ms, m.Writable) {n : Nat}
    (enough : ms.length ≤ n) :
    modifiersWithin? n (Modifier.textAll ms).toList = some ms := by
  induction ms generalizing n with
  | nil => cases n <;> rfl
  | cons m ms ih =>
      cases n with
      | zero => cases enough
      | succ n =>
          have read := modifier?_text (writable m List.mem_cons_self) (follows_textAll ms)
          have others := ih (fun m' mem => writable m' (List.mem_cons_of_mem m mem))
            (Nat.le_of_succ_le_succ enough)
          obtain ⟨c, s, text, -⟩ := head_text m
          have split : (Modifier.textAll (m :: ms)).toList =
              m.text.toList ++ (Modifier.textAll ms).toList := by
            rw [toList_textAll, toList_textAll, List.flatMap_cons]
          rw [split]
          rw [text, List.cons_append] at read ⊢
          rw [modifiersWithin?, read]
          · dsimp only
            rw [others]
            rfl
          · simp

/-- **Modifiers are read from their text.** -/
theorem modifiers?_textAll {ms : List Modifier} (writable : ∀ m ∈ ms, m.Writable) :
    modifiers? (Modifier.textAll ms).toList = some ms := by
  refine modifiersWithin?_textAll writable ?_
  rw [toList_textAll]
  clear writable
  induction ms with
  | nil => exact Nat.zero_le _
  | cons m ms ih =>
      obtain ⟨c, s, text, -⟩ := head_text m
      rw [List.flatMap_cons, text, List.length_cons, List.length_append, List.length_cons]
      omega

/-! ## Dice -/

theorem toList_text (d : Dice) : d.text.toList = Nat.toDigits 10 d.count ++
    ('d' :: (Nat.toDigits 10 d.sides ++ (Modifier.textAll d.modifiers).toList)) := by
  rw [Dice.text, String.toList_append, String.toList_append, String.toList_append, toList_toString,
    toList_toString, List.append_assoc, List.append_assoc]
  rfl

/-- Dice start with their count. -/
theorem exists_head (d : Dice) : ∃ c s, d.text.toList = c :: s ∧ c.isDigit = true := by
  rw [toList_text]
  cases digits : Nat.toDigits 10 d.count with
  | nil => exact absurd digits Nat.toDigits_ne_nil
  | cons c others =>
      exact ⟨c, _, rfl, isDigit_toDigits d.count c (by rw [digits]; exact List.mem_cons_self)⟩

theorem text_ne_nil (d : Dice) : d.text.toList ≠ [] := by
  obtain ⟨c, s, text, -⟩ := exists_head d
  rw [text]
  exact List.cons_ne_nil c s

/-- The count of dice is read if it is not too large. -/
theorem diceCount?_text (d : Dice) : diceCount? d.text.toList =
    if d.count ≤ Dice.maxCount then
      some (d.count, 'd' :: (Nat.toDigits 10 d.sides ++ (Modifier.textAll d.modifiers).toList))
    else none := by
  obtain ⟨c, s, head, digit⟩ := exists_head d
  have first : Stops Text.isBlank d.text.toList := by
    rw [head]
    exact Text.stops_cons (Text.isBlank_of_isDigit digit)
  have letter : Stops Char.isDigit
      ('d' :: (Nat.toDigits 10 d.sides ++ (Modifier.textAll d.modifiers).toList)) :=
    Text.stops_cons (by decide)
  rw [diceCount?, Text.trimStart_of_stops first, toList_text, numeral?_toDigits d.count letter]
  dsimp only
  rw [Nat.ofDigitChars_ten_toDigits, Text.trimStart_of_stops (Text.stops_cons (by decide))]

theorem dice?_text {d : Dice} (writable : d.Writable) : dice? d.text.toList = some d := by
  obtain ⟨most, ⟨least, mostSides⟩, each⟩ := writable
  have sidesRead := numberUpTo?_toDigits mostSides (follows_textAll d.modifiers).stops
  have modified := modifiers?_textAll each
  have sided : d.sides ≠ 0 := Nat.ne_of_gt least
  rw [dice?, diceCount?_text, if_pos most]
  simp [Text.after?, sidesRead, modified, sided]

/-! ## Characters -/

/-- A character of dice as they are written: a digit, a small letter or a part of a
comparison. -/
def isWritten (c : Char) : Bool := c.isDigit || c.isLower || c == '<' || c == '>' || c == '='

theorem isWritten_of_isDigit {c : Char} (digit : c.isDigit = true) : isWritten c = true := by
  simp [isWritten, digit]

theorem isWritten_condition {c : Condition} (writable : c.Writable) :
    ∀ d ∈ c.text.toList, isWritten d = true := by
  intro d mem
  rw [Condition.text, String.toList_append, List.mem_append] at mem
  rcases mem with symbol | digit
  · have symbols : c.comparison.symbol.toList.all isWritten = true := by
      cases c.comparison <;> decide
    exact List.all_eq_true.1 symbols d symbol
  · exact isWritten_of_isDigit (isDigit_bound writable.1 d digit)

theorem isWritten_modifier {m : Modifier} (writable : m.Writable) :
    ∀ c ∈ m.text.toList, isWritten c = true := by
  have join {keyword s : String} (first : keyword.toList.all isWritten = true)
      (others : ∀ c ∈ s.toList, isWritten c = true) :
      ∀ c ∈ (keyword ++ s).toList, isWritten c = true := by
    intro c mem
    rw [String.toList_append, List.mem_append] at mem
    exact mem.elim (List.all_eq_true.1 first c) (others c)
  have counted (n : Nat) : ∀ c ∈ (Modifier.countText n).toList, isWritten c = true := by
    unfold Modifier.countText
    split
    · intro c mem
      rw [toList_toString] at mem
      exact isWritten_of_isDigit (isDigit_toDigits n c mem)
    · exact fun c mem => by cases mem
  have bounded {b : Int} (least : 0 ≤ b) : ∀ c ∈ (toString b).toList, isWritten c = true :=
    fun c mem => isWritten_of_isDigit (isDigit_bound least c mem)
  cases m with
  | reroll condition again =>
      exact join (by cases again <;> decide) (isWritten_condition writable)
  | explode condition again =>
      refine join (by cases again <;> decide) ?_
      cases condition with
      | none => exact fun c mem => by cases mem
      | some condition => exact isWritten_condition (writable condition rfl)
  | keepHigh n | keepLow n | dropHigh n | dropLow n => exact join (by decide) (counted n)
  | raise bound | cap bound => exact join (by decide) (bounded writable.1)
  | countSuccess condition | countFailure condition =>
      exact join (by decide) (isWritten_condition writable)

theorem isWritten_textAll {ms : List Modifier} (writable : ∀ m ∈ ms, m.Writable) :
    ∀ c ∈ (Modifier.textAll ms).toList, isWritten c = true := by
  intro c mem
  rw [toList_textAll, List.mem_flatMap] at mem
  obtain ⟨m, belongs, mem⟩ := mem
  exact isWritten_modifier (writable m belongs) c mem

theorem isWritten_dice {d : Dice} (writable : ∀ m ∈ d.modifiers, m.Writable) :
    ∀ c ∈ d.text.toList, isWritten c = true := by
  intro c mem
  rw [toList_text, List.mem_append, List.mem_cons, List.mem_append] at mem
  rcases mem with count | rfl | sides | modifiers
  · exact isWritten_of_isDigit (isDigit_toDigits _ c count)
  · rfl
  · exact isWritten_of_isDigit (isDigit_toDigits _ c sides)
  · exact isWritten_textAll writable c modifiers

theorem toNat_of_isWritten {c : Char} (written : isWritten c = true) :
    (48 ≤ c.toNat ∧ c.toNat ≤ 57) ∨ (60 ≤ c.toNat ∧ c.toNat ≤ 62) ∨
      (97 ≤ c.toNat ∧ c.toNat ≤ 122) := by
  simp only [isWritten, Bool.or_eq_true, beq_iff_eq] at written
  rcases written with (((digit | lower) | rfl) | rfl) | rfl
  · exact Or.inl (Char.isDigit_iff_toNat.1 digit)
  · simp only [Char.isLower, Bool.and_eq_true, decide_eq_true_eq, ge_iff_le,
      UInt32.le_iff_toNat_le] at lower
    exact Or.inr (Or.inr lower)
  · exact Or.inr (Or.inl (by decide))
  · exact Or.inr (Or.inl (by decide))
  · exact Or.inr (Or.inl (by decide))

theorem isBlank_of_isWritten {c : Char} (written : isWritten c = true) :
    Text.isBlank c = false := by
  have range := toNat_of_isWritten written
  exact Text.isBlank_of_printable (by omega) (by omega)

theorem lower_of_isWritten {c : Char} (written : isWritten c = true) : Text.lower c = c := by
  have range := toNat_of_isWritten written
  have small : ¬ (c.val ≥ 'A'.val ∧ c.val ≤ 'Z'.val) := by
    intro upper
    simp only [ge_iff_le, UInt32.le_iff_toNat_le] at upper
    have value : c.val.toNat = c.toNat := rfl
    simp only [value, Char.reduceVal, UInt32.reduceToNat] at upper
    omega
  have noKelvin : c.toNat ≠ 0x212A := by omega
  rw [Text.lower, if_neg noKelvin, Char.toLower, dif_neg small]

theorem lower_dice {d : Dice} (writable : ∀ m ∈ d.modifiers, m.Writable) :
    d.text.toList.map Text.lower = d.text.toList := by
  conv => rhs; rw [← List.map_id d.text.toList]
  exact List.map_congr_left fun c mem => lower_of_isWritten (isWritten_dice writable c mem)

end Dice.Reader

open Dice.Reader in
theorem Dice.read?_eq {d : Dice} (writable : ∀ m ∈ d.modifiers, m.Writable) :
    Dice.read? d.text.toList = dice? d.text.toList := by
  have trimmed : Text.trim d.text.toList = d.text.toList :=
    Text.trim_of_visible fun c mem => isBlank_of_isWritten (isWritten_dice writable c mem)
  rw [Dice.read?, lower_dice writable, trimmed]

open Dice.Reader in
/-- **Dice are read from their text.** -/
theorem Dice.read?_text {d : Dice} (writable : d.Writable) : Dice.read? d.text.toList = some d := by
  rw [read?_eq writable.modifiers, dice?_text writable]

open Dice.Reader in
/-- More dice than a roll may have are not read. -/
theorem Dice.read?_many {d : Dice} (writable : ∀ m ∈ d.modifiers, m.Writable)
    (many : maxCount < d.count) : Dice.read? d.text.toList = none := by
  rw [read?_eq writable, dice?, diceCount?_text, if_neg (Nat.not_le.2 many)]
  rfl

end DiceFormula
