/-
# DiceFormula.Proofs.Arithmetic.Tokens -- tokens as they are written

A `Mark` is a token as it stands in a text, and a `Spaced` mark has white space in
front of it.  The token scanner accepts a text if and only if it is spaced marks
with white space at the end, and then it returns their tokens
(`scan?_complete`, `scan?_sound`).

Two numbers next to each other could run together, which the grammar rules out;
`Apart` says that it does not happen.
-/
import DiceFormula.Proofs.Double.Numeral

namespace DiceFormula

set_option autoImplicit false

namespace Arithmetic

/-! ## Marks -/

/-- A token as it is written. -/
inductive Mark where
  | number (n : Numeral)
  | call (f : MathFunction)
  | opening
  | closing
  | comma
  | operator (op : Operator)

namespace Mark

def text : Mark → List Char
  | number n => n.text
  | call f => f.name.toList ++ ['(']
  | opening => ['(']
  | closing => [')']
  | comma => [',']
  | operator op => [op.symbol]

def token : Mark → Token
  | number n => .number n.value
  | call f => .call f
  | opening => .opening
  | closing => .closing
  | comma => .comma
  | operator op => .operator op

def isNumber : Mark → Bool
  | number _ => true
  | _ => false

end Mark

/-- A mark with white space in front of it. -/
structure Spaced where
  gap : List Char
  blank : Text.allBlank gap = true
  mark : Mark

namespace Spaced

/-- A mark without white space in front of it. -/
def bare (mark : Mark) : Spaced := ⟨[], rfl, mark⟩

def text (m : Spaced) : List Char := m.gap ++ m.mark.text

def token (m : Spaced) : Token := m.mark.token

def textAll (ms : List Spaced) : List Char := ms.flatMap text

theorem textAll_cons (m : Spaced) (ms : List Spaced) :
    textAll (m :: ms) = m.gap ++ m.mark.text ++ textAll ms := rfl

theorem textAll_append (ms ms' : List Spaced) : textAll (ms ++ ms') = textAll ms ++ textAll ms' :=
  List.flatMap_append

/-- No two numbers stand next to each other. -/
def Apart (ms : List Spaced) : Prop :=
  ms.IsChain fun a b => a.mark.isNumber = true → b.mark.isNumber = false

end Spaced

/-! ## One token -/

theorem symbol?_of_isDigit {c : Char} (digit : c.isDigit = true) : Token.symbol? c = none := by
  unfold Token.symbol?
  split
  · cases digit
  · cases digit
  · cases digit
  · unfold Operator.ofSymbol?
    split
    · cases digit
    · cases digit
    · cases digit
    · cases digit
    · rfl

theorem stops_mark (m : Mark) (rest : List Char) : Text.Stops Text.isBlank (m.text ++ rest) := by
  cases m with
  | number n =>
      obtain ⟨c, s, text, digit⟩ := n.exists_head
      rw [Mark.text, text]
      exact Text.stops_cons (Text.isBlank_of_isDigit digit)
  | call f => cases f <;> exact Text.stops_cons (by decide)
  | opening => exact Text.stops_cons (by decide)
  | closing => exact Text.stops_cons (by decide)
  | comma => exact Text.stops_cons (by decide)
  | operator op => cases op <;> exact Text.stops_cons (by decide)

/-- What is no number ends the number in front of it. -/
theorem ends_mark {m : Mark} (other : m.isNumber = false) (rest : List Char) :
    Numeral.Ends (m.text ++ rest) := by
  cases m with
  | number n => cases other
  | call f => cases f <;> exact Text.stops_cons (by decide)
  | opening => exact Text.stops_cons (by decide)
  | closing => exact Text.stops_cons (by decide)
  | comma => exact Text.stops_cons (by decide)
  | operator op => cases op <;> exact Text.stops_cons (by decide)

theorem next?_mark {m : Mark} {rest : List Char}
    (ends : m.isNumber = true → Numeral.Ends rest) :
    Token.next? (m.text ++ rest) = some (m.token, rest) := by
  cases m with
  | number n =>
      obtain ⟨c, s, text, digit⟩ := n.exists_head
      have read := n.number?_numeral (ends rfl)
      rw [text] at read
      rw [Mark.text, text, List.cons_append, Token.next?]
      simp only [symbol?_of_isDigit digit]
      rw [← List.cons_append, read]
      rfl
  | call f => cases f <;> rfl
  | opening => rfl
  | closing => rfl
  | comma => rfl
  | operator op => cases op <;> rfl

/-- A fraction is empty, or digits behind a point. -/
theorem fraction_sound {s digits rest : List Char} (read : Token.fraction s = (digits, rest)) :
    (∀ c ∈ digits, c.isDigit = true) ∧
      ((digits = [] ∧ s = rest) ∨ (digits ≠ [] ∧ s = '.' :: digits ++ rest)) := by
  unfold Token.fraction at read
  split at read
  · rename_i behind
    obtain ⟨split, all, -⟩ := Text.span_spec Char.isDigit behind
    split at read
    · cases read
      exact ⟨by simp, Or.inl ⟨rfl, rfl⟩⟩
    · rename_i nonempty
      rw [read] at split all nonempty
      exact ⟨all, Or.inr ⟨fun none => nonempty rest (none ▸ rfl), congrArg _ split⟩⟩
  · cases read
    exact ⟨by simp, Or.inl ⟨rfl, rfl⟩⟩

theorem number?_sound {s rest : List Char} {t : Token} (read : Token.number? s = some (t, rest)) :
    ∃ n : Numeral, s = n.text ++ rest ∧ t = .number n.value := by
  obtain ⟨split, all, -⟩ := Text.span_spec Char.isDigit s
  unfold Token.number? at read
  split at read
  · cases read
  · rename_i whole behind nonempty span
    rw [span] at split all
    have nonempty : whole ≠ [] := fun none => nonempty none
    cases h : Token.fraction behind with
    | mk digits left =>
        rw [h] at read
        cases read
        obtain ⟨digitsAll, shape⟩ := fraction_sound h
        refine ⟨⟨whole, digits, nonempty, all, digitsAll⟩, ?_, rfl⟩
        rcases shape with ⟨rfl, rfl⟩ | ⟨some, rfl⟩
        · exact split
        · obtain ⟨d, others, rfl⟩ := List.exists_cons_of_ne_nil some
          rw [Numeral.text_fraction rfl, List.append_assoc]
          exact split

theorem call?_sound {s rest : List Char} {t : Token} (read : Token.call? s = some (t, rest)) :
    ∃ f : MathFunction, s = (Mark.call f).text ++ rest ∧ t = .call f := by
  obtain ⟨f, -, found⟩ := List.exists_of_findSome?_eq_some read
  obtain ⟨behind, after, same⟩ := Option.map_eq_some_iff.1 found
  cases same
  exact ⟨f, Text.after?_sound after, rfl⟩

theorem symbol?_sound {c : Char} {t : Token} (read : Token.symbol? c = some t) :
    ∃ m : Mark, [c] = m.text ∧ t = m.token := by
  unfold Token.symbol? at read
  split at read
  · cases read
    exact ⟨.opening, rfl, rfl⟩
  · cases read
    exact ⟨.closing, rfl, rfl⟩
  · cases read
    exact ⟨.comma, rfl, rfl⟩
  · obtain ⟨op, found, rfl⟩ := Option.map_eq_some_iff.1 read
    refine ⟨.operator op, ?_, rfl⟩
    unfold Operator.ofSymbol? at found
    split at found
    · cases found; rfl
    · cases found; rfl
    · cases found; rfl
    · cases found; rfl
    · cases found

/-- A token is read from a mark. -/
theorem next?_sound {s rest : List Char} {t : Token} (read : Token.next? s = some (t, rest)) :
    ∃ m : Mark, s = m.text ++ rest ∧ t = m.token := by
  cases s with
  | nil => cases read
  | cons c s =>
      rw [Token.next?] at read
      split at read
      · rename_i token found
        cases read
        obtain ⟨m, text, same⟩ := symbol?_sound found
        exact ⟨m, congrArg (· ++ rest) text, same⟩
      · rcases (Option.orElse_eq_some _ _ _).1 read with number | ⟨-, call⟩
        · obtain ⟨n, text, same⟩ := number?_sound number
          exact ⟨.number n, text, same⟩
        · obtain ⟨f, text, same⟩ := call?_sound call
          exact ⟨.call f, text, same⟩

/-! ## All tokens -/

theorem text_ne_nil (m : Mark) : m.text ≠ [] := by
  cases m with
  | number n =>
      obtain ⟨c, s, text, -⟩ := n.exists_head
      rw [Mark.text, text]
      exact List.cons_ne_nil c s
  | call f => exact List.append_ne_nil_of_right_ne_nil _ (List.cons_ne_nil _ _)
  | _ => exact List.cons_ne_nil _ _

theorem scanWithin?_sound {n : Nat} {s : List Char} {ts : List Token}
    (read : Token.scanWithin? n s = some ts) :
    ∃ ms gap, Text.allBlank gap = true ∧ s = Spaced.textAll ms ++ gap ∧
      ts = ms.map Spaced.token := by
  obtain ⟨gap, blank, split⟩ := Text.exists_gap s
  induction n generalizing s ts gap with
  | zero =>
      unfold Token.scanWithin? at read
      split at read
      · rename_i none
        cases read
        rw [none, List.append_nil] at split
        exact ⟨[], gap, blank, split, rfl⟩
      · cases read
  | succ n ih =>
      unfold Token.scanWithin? at read
      split at read
      · rename_i none
        cases read
        rw [none, List.append_nil] at split
        exact ⟨[], gap, blank, split, rfl⟩
      · rename_i c rest trimmed
        dsimp only at read
        split at read
        · cases read
        · rename_i t behind first
          obtain ⟨others, found, rfl⟩ := Option.map_eq_some_iff.1 read
          obtain ⟨m, text, rfl⟩ := next?_sound first
          obtain ⟨next, nextBlank, nextSplit⟩ := Text.exists_gap behind
          obtain ⟨ms, last, lastBlank, rfl, rfl⟩ := ih found next nextBlank nextSplit
          refine ⟨⟨gap, blank, m⟩ :: ms, last, lastBlank, ?_, rfl⟩
          rw [split, trimmed, text]
          simp [Spaced.textAll_cons]

theorem ends_of_blank {gap rest : List Char} (blank : Text.allBlank gap = true)
    (ends : Numeral.Ends rest) : Numeral.Ends (gap ++ rest) := by
  cases gap with
  | nil => exact ends
  | cons c gap =>
      have first : Text.isBlank c = true := List.all_eq_true.1 blank c List.mem_cons_self
      refine Text.stops_cons ?_
      by_contra numeric
      rw [Bool.not_eq_false, Bool.or_eq_true, beq_iff_eq] at numeric
      rcases numeric with digit | point
      · rw [Text.isBlank_of_isDigit digit] at first
        cases first
      · rw [point] at first
        revert first
        decide

/-- Numbers that stand apart from the next mark end there. -/
theorem ends_of_apart {m : Spaced} {ms : List Spaced} {gap : List Char}
    (apart : Spaced.Apart (m :: ms)) (blank : Text.allBlank gap = true)
    (number : m.mark.isNumber = true) : Numeral.Ends (Spaced.textAll ms ++ gap) := by
  cases ms with
  | nil =>
      have := ends_of_blank blank (Text.stops_nil _)
      rwa [List.append_nil] at this
  | cons next ms =>
      have other := (List.isChain_cons_cons.1 apart).1 number
      have : Spaced.textAll (next :: ms) ++ gap =
          next.gap ++ (next.mark.text ++ (Spaced.textAll ms ++ gap)) := by
        simp [Spaced.textAll_cons]
      rw [this]
      exact ends_of_blank next.blank (ends_mark other _)

theorem scanWithin?_complete {ms : List Spaced} (apart : Spaced.Apart ms) {gap : List Char}
    (blank : Text.allBlank gap = true) {n : Nat} (enough : ms.length ≤ n) :
    Token.scanWithin? n (Spaced.textAll ms ++ gap) = some (ms.map Spaced.token) := by
  induction ms generalizing n with
  | nil =>
      unfold Token.scanWithin?
      rw [Spaced.textAll, List.flatMap_nil, List.nil_append, Text.trimStart_of_allBlank blank]
      rfl
  | cons m ms ih =>
      cases n with
      | zero => cases enough
      | succ n =>
          have laid : Spaced.textAll (m :: ms) ++ gap =
              m.gap ++ (m.mark.text ++ (Spaced.textAll ms ++ gap)) := by
            simp [Spaced.textAll_cons]
          obtain ⟨c, s, text⟩ := List.exists_cons_of_ne_nil (text_ne_nil m.mark)
          have read := next?_mark fun number => ends_of_apart apart blank number
          have others := ih (List.IsChain.tail apart) (Nat.le_of_succ_le_succ enough)
          unfold Token.scanWithin?
          rw [laid, Text.trimStart_append m.blank, Text.trimStart_of_stops (stops_mark _ _)]
          rw [text, List.cons_append] at read ⊢
          dsimp only
          rw [read]
          dsimp only
          rw [others]
          rfl

/-- **What the scanner accepts is spaced marks.** -/
theorem scan?_sound {s : List Char} {ts : List Token} (read : Token.scan? s = some ts) :
    ∃ ms gap, Text.allBlank gap = true ∧ s = Spaced.textAll ms ++ gap ∧
      ts = ms.map Spaced.token :=
  scanWithin?_sound read

theorem length_le_textAll (ms : List Spaced) : ms.length ≤ (Spaced.textAll ms).length := by
  induction ms with
  | nil => exact Nat.le_refl 0
  | cons m ms ih =>
      have := List.length_pos_iff.2 (text_ne_nil m.mark)
      simp only [Spaced.textAll, Spaced.text, List.flatMap_cons, List.length_append,
        List.length_cons] at ih ⊢
      omega

/-- **The scanner reads the tokens of spaced marks.** -/
theorem scan?_complete {ms : List Spaced} (apart : Spaced.Apart ms) {gap : List Char}
    (blank : Text.allBlank gap = true) :
    Token.scan? (Spaced.textAll ms ++ gap) = some (ms.map Spaced.token) := by
  refine scanWithin?_complete apart blank ?_
  have := length_le_textAll ms
  rw [List.length_append]
  omega

end Arithmetic

end DiceFormula
