/-
# DiceFormula.Proofs.Dice.Reread -- what dice become when their text is read again

Dice that were read have numbers in the ranges that the reader checks (`admitted_of_read?`).  They
can be written, but for one thing: a keyword without a count stands for a count of one, and a count
of zero is left out as well.  So when their text is read again, every count of zero has become a
count of one, and nothing else has changed (`read?_reread`).
-/
import DiceFormula.Proofs.Dice.Text

namespace DiceFormula

set_option autoImplicit false

/-! ## Modifiers -/

namespace Modifier

/-- All numbers can be read.  Unlike what can be written, a count may be zero. -/
def Admitted : Modifier → Prop
  | reroll condition _ => condition.Writable
  | explode condition _ => ∀ c, condition = some c → c.Writable
  | keepHigh n | keepLow n | dropHigh n | dropLow n => n ≤ Limit.mostCount
  | raise bound | cap bound => 0 ≤ bound ∧ bound ≤ Limit.mostValue
  | countSuccess condition | countFailure condition => condition.Writable

/-- Whether the modifier has a count of zero. -/
def countsNone : Modifier → Bool
  | keepHigh n | keepLow n | dropHigh n | dropLow n => n == 0
  | _ => false

/-- The modifier that is read from the text of another one. -/
def reread : Modifier → Modifier
  | keepHigh n => keepHigh (max 1 n)
  | keepLow n => keepLow (max 1 n)
  | dropHigh n => dropHigh (max 1 n)
  | dropLow n => dropLow (max 1 n)
  | m => m

/-- A count of zero is left out like a count of one. -/
theorem countText_max (n : Nat) : countText (max 1 n) = countText n := by
  cases n with
  | zero => rfl
  | succ n => rw [Nat.max_eq_right (Nat.le_add_left 1 n)]

theorem text_reread (m : Modifier) : m.reread.text = m.text := by
  cases m with
  | keepHigh n | keepLow n | dropHigh n | dropLow n => exact congrArg (_ ++ ·) (countText_max n)
  | _ => rfl

theorem writable_reread {m : Modifier} (admitted : m.Admitted) : m.reread.Writable := by
  cases m with
  | keepHigh n | keepLow n | dropHigh n | dropLow n =>
      exact ⟨Nat.le_max_left 1 n, Nat.max_le.2 ⟨by decide, admitted⟩⟩
  | _ => exact admitted

theorem reread_eq_iff (m : Modifier) : m.reread = m ↔ m.countsNone = false := by
  have same (n : Nat) : max 1 n = n ↔ (n == 0) = false := by
    rw [beq_eq_false_iff_ne]
    omega
  cases m with
  | keepHigh n => exact keepHigh.injEq .. ▸ same n
  | keepLow n => exact keepLow.injEq .. ▸ same n
  | dropHigh n => exact dropHigh.injEq .. ▸ same n
  | dropLow n => exact dropLow.injEq .. ▸ same n
  | _ => exact iff_of_true rfl rfl

theorem writable_of_admitted {m : Modifier} (admitted : m.Admitted) (counts : m.countsNone = false) :
    m.Writable := by
  rw [← m.reread_eq_iff.2 counts]
  exact writable_reread admitted

end Modifier

namespace Dice

/-- All numbers can be read. -/
structure Admitted (d : Dice) : Prop where
  count : d.count ≤ maxCount
  sides : 1 ≤ d.sides ∧ d.sides ≤ Limit.mostCount
  modifiers : ∀ m ∈ d.modifiers, m.Admitted

/-- The dice that are read from the text of others. -/
def reread (d : Dice) : Dice :=
  { d with modifiers := d.modifiers.map Modifier.reread }

theorem text_reread (d : Dice) : d.reread.text = d.text := by
  have same : d.modifiers.map (Modifier.text ∘ Modifier.reread) = d.modifiers.map Modifier.text :=
    List.map_congr_left fun m _ => m.text_reread
  rw [text, text, Modifier.textAll, Modifier.textAll, reread, List.map_map, same]

theorem writable_reread {d : Dice} (admitted : d.Admitted) : d.reread.Writable := by
  refine ⟨admitted.count, admitted.sides, fun m mem => ?_⟩
  obtain ⟨m, belongs, rfl⟩ := List.mem_map.1 mem
  exact Modifier.writable_reread (admitted.modifiers m belongs)

theorem reread_eq_iff (d : Dice) :
    d.reread = d ↔ ∀ m ∈ d.modifiers, m.countsNone = false := by
  have fields : d.reread = d ↔ d.modifiers.map Modifier.reread = d.modifiers := by
    cases d
    exact ⟨fun same => congrArg modifiers same, fun same => congrArg (Dice.mk _ _) same⟩
  rw [fields]
  conv => lhs; rhs; rw [← List.map_id d.modifiers]
  rw [List.map_inj_left]
  exact forall₂_congr fun m _ => m.reread_eq_iff

namespace Reader

/-! ## What was read -/

theorem le_of_numberUpTo? {most n : Nat} {s rest : List Char}
    (read : numberUpTo? most s = some (n, rest)) : n ≤ most := by
  obtain ⟨⟨digits, behind⟩, -, read⟩ := Option.bind_eq_some_iff.1 read
  dsimp only at read
  split at read
  · rename_i within
    cases read
    exact within
  · cases read

theorem range_of_bound? {b : Int} {s rest : List Char} (read : bound? s = some (b, rest)) :
    0 ≤ b ∧ b ≤ Limit.mostValue := by
  obtain ⟨⟨n, behind⟩, number, same⟩ := Option.map_eq_some_iff.1 read
  cases same
  have within := le_of_numberUpTo? number
  have most : (Limit.mostValue.toNat : Int) = Limit.mostValue := by decide
  omega

theorem le_of_count? {n : Nat} {s rest : List Char} (read : count? s = some (n, rest)) :
    n ≤ Limit.mostCount := by
  unfold count? at read
  split at read
  · cases read
    decide
  · exact le_of_numberUpTo? read

theorem writable_of_condition? {c : Condition} {s rest : List Char}
    (read : condition? s = some (c, rest)) : c.Writable := by
  obtain ⟨⟨b, behind⟩, bound, same⟩ := Option.map_eq_some_iff.1 read
  cases same
  exact range_of_bound? bound

theorem writable_of_optionalCondition {c : Condition} {s : List Char}
    (read : (optionalCondition s).1 = some c) : c.Writable := by
  unfold optionalCondition at read
  split at read
  · rename_i condition
    cases read
    exact writable_of_condition? condition
  · cases read

theorem admitted_reroll (s : List Char) : (reroll s).1.Admitted := by
  show ((optionalCondition (optionalLetter 'r' s).2).1.getD ⟨.equal, 1⟩).Writable
  cases condition : (optionalCondition (optionalLetter 'r' s).2).1 with
  | none => exact (by decide : Condition.Writable ⟨.equal, 1⟩)
  | some c => exact writable_of_optionalCondition condition

theorem admitted_explode (s : List Char) : (explode s).1.Admitted :=
  fun _ condition => writable_of_optionalCondition condition

section Keywords

variable {m : Modifier} {s rest : List Char}

theorem admitted_of_counted? {keyword : List Char} {make : Nat → Modifier}
    (read : counted? keyword make s = some (m, rest))
    (admits : ∀ n ≤ Limit.mostCount, (make n).Admitted) : m.Admitted := by
  obtain ⟨behind, -, read⟩ := Option.bind_eq_some_iff.1 read
  obtain ⟨⟨n, _⟩, number, same⟩ := Option.bind_eq_some_iff.1 read
  cases same
  exact admits n (le_of_count? number)

theorem admitted_of_countedShort? {letter optional : Char} {make : Nat → Modifier}
    (read : countedShort? letter optional make s = some (m, rest))
    (admits : ∀ n ≤ Limit.mostCount, (make n).Admitted) : m.Admitted := by
  obtain ⟨behind, -, read⟩ := Option.bind_eq_some_iff.1 read
  obtain ⟨⟨n, _⟩, number, same⟩ := Option.bind_eq_some_iff.1 read
  cases same
  exact admits n (le_of_count? number)

theorem admitted_of_bounded? {keyword : List Char} {make : Int → Modifier}
    (read : bounded? keyword make s = some (m, rest))
    (admits : ∀ b, 0 ≤ b ∧ b ≤ Limit.mostValue → (make b).Admitted) : m.Admitted := by
  obtain ⟨behind, -, read⟩ := Option.bind_eq_some_iff.1 read
  obtain ⟨⟨b, _⟩, number, same⟩ := Option.bind_eq_some_iff.1 read
  cases same
  exact admits b (range_of_bound? number)

theorem admitted_of_scored? {keyword : List Char} {make : Condition → Modifier}
    (read : scored? keyword make s = some (m, rest))
    (admits : ∀ c : Condition, c.Writable → (make c).Admitted) : m.Admitted := by
  obtain ⟨behind, -, read⟩ := Option.bind_eq_some_iff.1 read
  obtain ⟨⟨c, _⟩, condition, same⟩ := Option.bind_eq_some_iff.1 read
  cases same
  exact admits c (writable_of_condition? condition)

/-- A modifier that was read, by its keyword. -/
theorem admitted_of_modifier? (read : modifier? s = some (m, rest)) : m.Admitted := by
  unfold modifier? at read
  split at read
  · rename_i s
    have first : (reroll s).1 = m := congrArg Prod.fst (Option.some.inj read)
    exact first ▸ admitted_reroll s
  · rename_i s
    have first : (explode s).1 = m := congrArg Prod.fst (Option.some.inj read)
    exact first ▸ admitted_explode s
  · simp only [Option.orElse_eq_orElse, Option.orElse_eq_or, Option.or_eq_some_iff] at read
    rcases read with read | ⟨-, read | ⟨-, read | ⟨-, read | ⟨-, read | ⟨-, read | ⟨-, read |
      ⟨-, read⟩⟩⟩⟩⟩⟩⟩
    · exact admitted_of_counted? read fun _ admitted => admitted
    · exact admitted_of_countedShort? read fun _ admitted => admitted
    · exact admitted_of_counted? read fun _ admitted => admitted
    · exact admitted_of_countedShort? read fun _ admitted => admitted
    · exact admitted_of_bounded? read fun _ admitted => admitted
    · exact admitted_of_bounded? read fun _ admitted => admitted
    · exact admitted_of_scored? read fun _ admitted => admitted
    · exact admitted_of_scored? read fun _ admitted => admitted

end Keywords

theorem admitted_of_modifiersWithin? {n : Nat} {ms : List Modifier} {s : List Char}
    (read : modifiersWithin? n s = some ms) : ∀ m ∈ ms, m.Admitted := by
  induction n generalizing ms s with
  | zero =>
      unfold modifiersWithin? at read
      split at read
      · cases read
        exact List.forall_mem_nil _
      · cases read
      · contradiction
  | succ n ih =>
      unfold modifiersWithin? at read
      split at read
      · cases read
        exact List.forall_mem_nil _
      · contradiction
      · rename_i same _
        obtain rfl := Nat.succ.inj same
        split at read
        · cases read
        · rename_i m rest first
          obtain ⟨others, behind, rfl⟩ := Option.map_eq_some_iff.1 read
          exact List.forall_mem_cons.2 ⟨admitted_of_modifier? first, ih behind⟩

theorem admitted_of_modifiers? {ms : List Modifier} {s : List Char}
    (read : modifiers? s = some ms) : ∀ m ∈ ms, m.Admitted :=
  admitted_of_modifiersWithin? read

theorem le_of_diceCount? {n : Nat} {s rest : List Char} (read : diceCount? s = some (n, rest)) :
    n ≤ maxCount := by
  unfold diceCount? at read
  split at read
  · cases read
    decide
  · dsimp only at read
    split at read
    · rename_i within
      cases read
      exact within
    · cases read

theorem admitted_of_dice? {d : Dice} {s : List Char} (read : dice? s = some d) : d.Admitted := by
  obtain ⟨⟨count, behind⟩, counted, read⟩ := Option.bind_eq_some_iff.1 read
  obtain ⟨behind', -, read⟩ := Option.bind_eq_some_iff.1 read
  obtain ⟨⟨sides, behind''⟩, sided, read⟩ := Option.bind_eq_some_iff.1 read
  obtain ⟨ms, modified, read⟩ := Option.bind_eq_some_iff.1 read
  split at read
  · cases read
  · rename_i nonzero
    cases read
    exact ⟨le_of_diceCount? counted, ⟨Nat.one_le_iff_ne_zero.2 nonzero, le_of_numberUpTo? sided⟩,
      admitted_of_modifiers? modified⟩

end Reader

/-! ## Dice -/

/-- **The numbers of dice that were read are in range.** -/
theorem admitted_of_read? {d : Dice} {text : List Char} (read : Dice.read? text = some d) :
    d.Admitted :=
  Reader.admitted_of_dice? read

/-- **The text of dice that were read is read again**, as the same dice if and only if no modifier
counts zero.  Otherwise a count of zero becomes a count of one. -/
theorem read?_reread {d : Dice} {text : List Char} (read : Dice.read? text = some d) :
    Dice.read? d.text.toList = some d.reread ∧
      (d.reread = d ↔ ∀ m ∈ d.modifiers, m.countsNone = false) := by
  refine ⟨?_, d.reread_eq_iff⟩
  rw [← text_reread]
  exact read?_text (writable_reread (admitted_of_read? read))

/-- Every modifier side by side, with counts that are left out and one that is zero. -/
theorem read?_reread_mixed :
    ∃ d, Dice.read? " 12 D8rr<3XO>=7k2dhDL0min2max7cs=6cf<=1 ".toList = some d ∧
      d.text = "12d8rr<3xo>=7kh2dhdlmin2max7cs=6cf<=1" ∧
        Dice.read? d.text.toList = some d.reread ∧ d.reread ≠ d := by
  have reads : ∃ d ∈ Dice.read? " 12 D8rr<3XO>=7k2dhDL0min2max7cs=6cf<=1 ".toList,
      d.text = "12d8rr<3xo>=7kh2dhdlmin2max7cs=6cf<=1" ∧ d.reread ≠ d := by decide +kernel
  obtain ⟨d, read, text, differ⟩ := reads
  exact ⟨d, read, text, (read?_reread read).1, differ⟩

/-- Dice of which none are kept are read again as dice of which one is kept. -/
theorem read?_text_none :
    ∃ d, Dice.read? "2d6kh0".toList = some d ∧ d.modifiers = [.keepHigh 0] ∧
      ∃ d', Dice.read? d.text.toList = some d' ∧ d' ≠ d := by
  have reads : ∃ d ∈ Dice.read? "2d6kh0".toList, d.modifiers = [.keepHigh 0] ∧
      ∃ d' ∈ Dice.read? d.text.toList, d' ≠ d := by decide +kernel
  exact reads

end Dice

end DiceFormula
