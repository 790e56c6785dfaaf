/-
# DiceFormula.Proofs.Dice.Alphabet -- the characters of dice

Dice are written in few characters: digits, letters, comparison signs, and white space around the
count.  Each part of their reader takes some of these and leaves the rest of the text (`Takes`),
and a text is read as dice only if nothing is left.  So whatever is read as dice has no other
characters, once its letters are small (`written_of_read?`).
-/
import DiceFormula.Proofs.Dice.Text

namespace DiceFormula.Dice

set_option autoImplicit false

namespace Reader

/-! ## What is taken -/

/-- The text is characters of dice and a rest. -/
def Takes (s rest : List Char) : Prop :=
  ∃ run, s = run ++ rest ∧ ∀ c ∈ run, isWritten c = true

theorem takes_nothing (s : List Char) : Takes s s :=
  ⟨[], rfl, List.forall_mem_nil _⟩

theorem Takes.cons {c : Char} {s rest : List Char} (written : isWritten c = true)
    (takes : Takes s rest) : Takes (c :: s) rest := by
  obtain ⟨run, rfl, all⟩ := takes
  exact ⟨c :: run, rfl, List.forall_mem_cons.2 ⟨written, all⟩⟩

theorem Takes.trans {s behind rest : List Char} (first : Takes s behind) (second : Takes behind rest) :
    Takes s rest := by
  obtain ⟨run, rfl, all⟩ := first
  obtain ⟨run', rfl, all'⟩ := second
  exact ⟨run ++ run', (List.append_assoc _ _ _).symm, List.forall_mem_append.2 ⟨all, all'⟩⟩

theorem Takes.all {s : List Char} (takes : Takes s []) : ∀ c ∈ s, isWritten c = true := by
  obtain ⟨run, rfl, all⟩ := takes
  rwa [List.append_nil]

/-! ## Numbers -/

theorem takes_numeral? {s digits rest : List Char} (read : numeral? s = some (digits, rest)) :
    Takes s rest := by
  unfold numeral? at read
  split at read
  · cases read
    exact .cons rfl (takes_nothing _)
  · split at read
    · cases read
    · obtain ⟨whole, all, -⟩ := Text.span_spec Char.isDigit s
      rw [Option.some.inj read] at whole all
      exact ⟨digits, whole, fun c mem => isWritten_of_isDigit (all c mem)⟩

theorem takes_numberUpTo? {most n : Nat} {s rest : List Char}
    (read : numberUpTo? most s = some (n, rest)) : Takes s rest := by
  obtain ⟨⟨digits, behind⟩, number, read⟩ := Option.bind_eq_some_iff.1 read
  dsimp only at read
  split at read
  · cases read
    exact takes_numeral? number
  · cases read

theorem takes_bound? {b : Int} {s rest : List Char} (read : bound? s = some (b, rest)) :
    Takes s rest := by
  obtain ⟨⟨n, behind⟩, number, same⟩ := Option.map_eq_some_iff.1 read
  cases same
  exact takes_numberUpTo? number

theorem takes_count? {n : Nat} {s rest : List Char} (read : count? s = some (n, rest)) :
    Takes s rest := by
  unfold count? at read
  split at read
  · cases read
    exact takes_nothing s
  · exact takes_numberUpTo? read

/-! ## Conditions -/

theorem takes_comparison (s : List Char) : Takes s (comparison s).2 := by
  unfold comparison
  split
  · exact .cons rfl (.cons rfl (takes_nothing _))
  · exact .cons rfl (.cons rfl (takes_nothing _))
  · exact .cons rfl (takes_nothing _)
  · exact .cons rfl (takes_nothing _)
  · exact .cons rfl (takes_nothing _)
  · exact takes_nothing _

theorem takes_condition? {c : Condition} {s rest : List Char}
    (read : condition? s = some (c, rest)) : Takes s rest := by
  obtain ⟨⟨b, behind⟩, bound, same⟩ := Option.map_eq_some_iff.1 read
  cases same
  exact (takes_comparison s).trans (takes_bound? bound)

theorem takes_optionalCondition (s : List Char) : Takes s (optionalCondition s).2 := by
  unfold optionalCondition
  split
  · rename_i condition
    exact takes_condition? condition
  · exact takes_nothing s

theorem takes_optionalLetter {letter : Char} (written : isWritten letter = true) (s : List Char) :
    Takes s (optionalLetter letter s).2 := by
  unfold optionalLetter
  split
  · split
    · rename_i same
      exact .cons (same ▸ written) (takes_nothing _)
    · exact takes_nothing _
  · exact takes_nothing _

/-! ## Modifiers -/

theorem takes_reroll (s : List Char) : Takes s (reroll s).2 :=
  (takes_optionalLetter rfl s).trans (takes_optionalCondition _)

theorem takes_explode (s : List Char) : Takes s (explode s).2 :=
  (takes_optionalLetter rfl s).trans (takes_optionalCondition _)

section Keywords

variable {keyword s rest : List Char} {m : Modifier}

theorem takes_after? (written : keyword.all isWritten = true)
    (read : Text.after? keyword s = some rest) : Takes s rest :=
  ⟨keyword, Text.after?_sound read, List.all_eq_true.1 written⟩

theorem takes_counted? (written : keyword.all isWritten = true) {make : Nat → Modifier}
    (read : counted? keyword make s = some (m, rest)) : Takes s rest := by
  obtain ⟨behind, after, read⟩ := Option.bind_eq_some_iff.1 read
  obtain ⟨⟨n, _⟩, number, same⟩ := Option.bind_eq_some_iff.1 read
  cases same
  exact (takes_after? written after).trans (takes_count? number)

theorem takes_countedShort? {letter optional : Char} (written : isWritten letter = true)
    (written' : isWritten optional = true) {make : Nat → Modifier}
    (read : countedShort? letter optional make s = some (m, rest)) : Takes s rest := by
  obtain ⟨behind, after, read⟩ := Option.bind_eq_some_iff.1 read
  obtain ⟨⟨n, _⟩, number, same⟩ := Option.bind_eq_some_iff.1 read
  cases same
  exact (takes_after? (by rw [List.all_cons, written, List.all_nil]; rfl) after).trans
    ((takes_optionalLetter written' behind).trans (takes_count? number))

theorem takes_bounded? (written : keyword.all isWritten = true) {make : Int → Modifier}
    (read : bounded? keyword make s = some (m, rest)) : Takes s rest := by
  obtain ⟨behind, after, read⟩ := Option.bind_eq_some_iff.1 read
  obtain ⟨⟨b, _⟩, number, same⟩ := Option.bind_eq_some_iff.1 read
  cases same
  exact (takes_after? written after).trans (takes_bound? number)

theorem takes_scored? (written : keyword.all isWritten = true) {make : Condition → Modifier}
    (read : scored? keyword make s = some (m, rest)) : Takes s rest := by
  obtain ⟨behind, after, read⟩ := Option.bind_eq_some_iff.1 read
  obtain ⟨⟨c, _⟩, condition, same⟩ := Option.bind_eq_some_iff.1 read
  cases same
  exact (takes_after? written after).trans (takes_condition? condition)

/-- A modifier takes its keyword and what belongs to it. -/
theorem takes_modifier? (read : modifier? s = some (m, rest)) : Takes s rest := by
  unfold modifier? at read
  split at read
  · rename_i s
    have behind : (reroll s).2 = rest := congrArg Prod.snd (Option.some.inj read)
    exact .cons rfl (behind ▸ takes_reroll s)
  · rename_i s
    have behind : (explode s).2 = rest := congrArg Prod.snd (Option.some.inj read)
    exact .cons rfl (behind ▸ takes_explode s)
  · simp only [Option.orElse_eq_orElse, Option.orElse_eq_or, Option.or_eq_some_iff] at read
    rcases read with read | ⟨-, read | ⟨-, read | ⟨-, read | ⟨-, read | ⟨-, read | ⟨-, read |
      ⟨-, read⟩⟩⟩⟩⟩⟩⟩
    · exact takes_counted? rfl read
    · exact takes_countedShort? rfl rfl read
    · exact takes_counted? rfl read
    · exact takes_countedShort? rfl rfl read
    · exact takes_bounded? rfl read
    · exact takes_bounded? rfl read
    · exact takes_scored? rfl read
    · exact takes_scored? rfl read

end Keywords

theorem takes_modifiersWithin? {n : Nat} {ms : List Modifier} {s : List Char}
    (read : modifiersWithin? n s = some ms) : Takes s [] := by
  induction n generalizing ms s with
  | zero =>
      unfold modifiersWithin? at read
      split at read
      · exact takes_nothing []
      · cases read
      · contradiction
  | succ n ih =>
      unfold modifiersWithin? at read
      split at read
      · exact takes_nothing []
      · contradiction
      · rename_i same _
        obtain rfl := Nat.succ.inj same
        split at read
        · cases read
        · rename_i m rest first
          obtain ⟨others, behind, -⟩ := Option.map_eq_some_iff.1 read
          exact (takes_modifier? first).trans (ih behind)

/-! ## Dice -/

/-- Behind their count dice are written without white space. -/
theorem written_of_dice? {d : Dice} {s : List Char} (read : dice? s = some d) :
    ∃ n behind, diceCount? s = some (n, behind) ∧ ∀ c ∈ behind, isWritten c = true := by
  obtain ⟨⟨n, behind⟩, counted, read⟩ := Option.bind_eq_some_iff.1 read
  obtain ⟨sides, after, read⟩ := Option.bind_eq_some_iff.1 read
  obtain ⟨⟨number, modifiers⟩, sided, read⟩ := Option.bind_eq_some_iff.1 read
  obtain ⟨ms, modified, -⟩ := Option.bind_eq_some_iff.1 read
  have takes := (takes_after? rfl after).trans
    ((takes_numberUpTo? sided).trans (takes_modifiersWithin? modified))
  exact ⟨n, behind, counted, takes.all⟩

/-- The count of dice stands between white space. -/
theorem written_of_diceCount? {n : Nat} {s behind : List Char}
    (read : diceCount? s = some (n, behind)) (written : ∀ c ∈ behind, isWritten c = true) :
    ∀ c ∈ s, isWritten c = true ∨ Text.isBlank c = true := by
  unfold diceCount? at read
  split at read
  · cases read
    exact fun c mem => .inl (written c mem)
  · rename_i digits rest number
    dsimp only at read
    split at read
    · cases read
      obtain ⟨gap, blank, split⟩ := Text.exists_gap s
      obtain ⟨run, split', all⟩ := takes_numeral? number
      obtain ⟨gap', blank', split''⟩ := Text.exists_gap rest
      intro c mem
      rw [split, split', split'', List.mem_append, List.mem_append, List.mem_append] at mem
      rcases mem with mem | mem | mem | mem
      · exact .inr (List.all_eq_true.1 blank c mem)
      · exact .inl (all c mem)
      · exact .inr (List.all_eq_true.1 blank' c mem)
      · exact .inl (written c mem)
    · cases read

/-- What stands behind the count of dice is text of the dice. -/
theorem subset_of_diceCount? {n : Nat} {s behind : List Char}
    (read : diceCount? s = some (n, behind)) : ∀ c ∈ behind, c ∈ s := by
  unfold diceCount? at read
  split at read
  · cases read
    exact fun c mem => mem
  · rename_i digits rest number
    dsimp only at read
    split at read
    · cases read
      obtain ⟨run, split, -⟩ := takes_numeral? number
      intro c mem
      have inside : c ∈ Text.trimStart s := by
        rw [split]
        exact List.mem_append_right run (List.dropWhile_subset _ mem)
      exact List.dropWhile_subset _ inside
    · cases read

/-- Dice have a letter behind their count. -/
theorem letter_of_dice? {d : Dice} {s : List Char} (read : dice? s = some d) : 'd' ∈ s := by
  obtain ⟨⟨n, behind⟩, counted, read⟩ := Option.bind_eq_some_iff.1 read
  obtain ⟨sides, after, -⟩ := Option.bind_eq_some_iff.1 read
  refine subset_of_diceCount? counted 'd' ?_
  rw [Text.after?_sound after]
  exact List.mem_cons_self

end Reader

/-- **There are no dice without a letter for them.** -/
theorem letter_of_read? {d : Dice} {text : List Char} (read : Dice.read? text = some d) :
    ∃ c ∈ text, Text.lower c = 'd' := by
  have letter := Reader.letter_of_dice? read
  obtain ⟨gap, -, split⟩ := Text.exists_gap (text.map Text.lower)
  obtain ⟨gap', -, split'⟩ := Text.exists_gap_behind (text.map Text.lower)
  have inside : 'd' ∈ text.map Text.lower := by
    rw [split, split']
    exact List.mem_append_right _ (List.mem_append_left _ letter)
  exact List.mem_map.1 inside

/-- **Dice have no characters but their own**, and white space. -/
theorem written_of_read? {d : Dice} {text : List Char} (read : Dice.read? text = some d) :
    ∀ c ∈ text, Reader.isWritten (Text.lower c) = true ∨ Text.isBlank (Text.lower c) = true := by
  obtain ⟨n, behind, counted, written⟩ := Reader.written_of_dice? read
  have inside := Reader.written_of_diceCount? counted written
  obtain ⟨gap, blank, split⟩ := Text.exists_gap (text.map Text.lower)
  obtain ⟨gap', blank', split'⟩ := Text.exists_gap_behind (text.map Text.lower)
  intro c mem
  have small : Text.lower c ∈ text.map Text.lower := List.mem_map_of_mem mem
  rw [split, split', List.mem_append, List.mem_append] at small
  rcases small with front | dice | behind
  · exact .inr (List.all_eq_true.1 blank _ front)
  · exact inside _ dice
  · exact .inr (List.all_eq_true.1 blank' _ behind)

theorem not_mem_of_read? {d : Dice} {text : List Char} (read : Dice.read? text = some d) {c : Char}
    (other : (Reader.isWritten (Text.lower c) || Text.isBlank (Text.lower c)) = false) :
    c ∉ text := by
  intro mem
  rw [Bool.or_eq_false_iff] at other
  rcases written_of_read? read c mem with written | blank
  · rw [other.1] at written
    cases written
  · rw [other.2] at blank
    cases blank

end DiceFormula.Dice
