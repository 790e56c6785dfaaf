/-
# DiceFormula.Proofs.Arithmetic.Items -- the total of a sequence of values

The total of a sequence of operators and values is that of its text.  The text
has white space around operators and parentheses around negative values, so it is
the text of an expression with the same operators, and its value is what `direct`
calculates from the values (`total_agrees`).
-/
import DiceFormula.Proofs.Arithmetic.Direct
import DiceFormula.Proofs.Computation

namespace DiceFormula.Arithmetic

open Double

set_option autoImplicit false

/-! ## Operands -/

/-- Signs and a finite value behind them. -/
structure Operand where
  signs : List Operator
  additive : ∀ op ∈ signs, op.isAdditive = true
  value : Float
  finite : value.isFinite = true

namespace Operand

def items (o : Operand) : List Item := o.signs.map .operator ++ [.value o.value]

/-- A sign in front of a value. -/
def sign (op : Operator) (x : Float) : Float := if op = .subtract then -x else x

/-- The value with its signs. -/
def total (o : Operand) : Float := o.signs.foldr sign o.value

/-- Operands with operators between them, as a sequence. -/
def itemsAll (first : Operand) (rest : List (Operator × Operand)) : List Item :=
  first.items ++ rest.flatMap fun (op, o) => .operator op :: o.items

/-- The operators and the totals of operands. -/
def totals (rest : List (Operator × Operand)) : List (Operator × Float) :=
  rest.map fun (op, o) => (op, o.total)

end Operand

/-! ## Text -/

/-- The characters of an operator or a value. -/
def written : Item → List Char
  | .operator op => [' ', op.symbol, ' ']
  | .value x => if x < 0 then '(' :: (formulaNumber x).toList ++ [')'] else (formulaNumber x).toList
  | .unresolved _ => []

def isResolved : Item → Bool
  | .unresolved _ => false
  | _ => true

theorem text_written {item : Item} (resolved : isResolved item = true) :
    ∃ text, item.text = .ok text ∧ text.toList = written item := by
  cases item with
  | operator op =>
      refine ⟨_, rfl, ?_⟩
      rw [String.toList_append, String.toList_append, Operator.text, String.toList_singleton]
      rfl
  | value x =>
      refine ⟨_, rfl, ?_⟩
      unfold written
      dsimp only
      split
      · rw [String.toList_append, String.toList_append]
        rfl
      · rfl
  | unresolved term => cases resolved

/-- Items with a total are resolved. -/
theorem resolved_of_total {items : List Item} {x : Float} (ok : Item.total items = .ok x) :
    ∀ item ∈ items, isResolved item = true := by
  intro item mem
  cases texts : items.mapM Item.text with
  | ok texts' =>
      obtain ⟨text, written⟩ := ok_of_mapM texts item mem
      cases item with
      | unresolved term => cases written
      | operator | value => rfl
  | error e =>
      rw [Item.total, texts] at ok
      cases ok

theorem total_eq_evaluate {items : List Item} (resolved : ∀ item ∈ items, isResolved item = true) :
    Item.total items = evaluate (String.ofList (items.flatMap written)) := by
  have texts : ∃ texts, items.mapM Item.text = .ok texts ∧
      texts.flatMap String.toList = items.flatMap written := by
    induction items with
    | nil => exact ⟨[], rfl, rfl⟩
    | cons item items ih =>
        obtain ⟨text, read, chars⟩ := text_written (resolved item List.mem_cons_self)
        obtain ⟨texts, others, rest⟩ := ih fun i mem => resolved i (List.mem_cons_of_mem _ mem)
        refine ⟨text :: texts, ?_, ?_⟩
        · rw [List.mapM_cons, read, others]
          rfl
        · rw [List.flatMap_cons, List.flatMap_cons, chars, rest]
  obtain ⟨texts, read, chars⟩ := texts
  rw [Item.total, read]
  show evaluate (String.join texts) = _
  rw [← chars, ← String.toList_join, String.ofList_toList]

/-! ## Marks -/

theorem allBlank_snoc {gap : List Char} (blank : Text.allBlank gap = true) :
    Text.allBlank (gap ++ [' ']) = true := by
  rw [Text.allBlank, List.all_append, Bool.and_eq_true]
  exact ⟨blank, rfl⟩

/-- A value is written as an atom that comes to it. -/
theorem calculates_value {x : Float} (finite : x.isFinite = true) {gap : List Char}
    (blank : Text.allBlank gap = true) :
    ∃ ms, Spaced.textAll ms = gap ++ written (.value x) ∧ Calculates .atom ms (some x) := by
  unfold written
  dsimp only
  by_cases negative : x < 0
  · obtain ⟨n, text, value⟩ := Numeral.formulaNumber_of_neg finite negative
    rw [if_pos negative, text]
    have finite : n.value.isFinite = true := by rw [value, isFinite_neg, finite]
    have number : Calculates .atom [.bare (.number n)] (some n.value) :=
      ⟨_, .number rfl, Agrees.number finite (Alike.refl _)⟩
    have inner := (Calculates.minus (.bare (.operator .subtract)) rfl number.unsigned).factor.summand
    have whole := Calculates.group ⟨gap, blank, .opening⟩ (.bare .closing) rfl rfl inner
    rw [Option.map_some, value, neg_neg] at whole
    exact ⟨_, by simp [Spaced.textAll, Spaced.text, Spaced.bare, Mark.text, Operator.symbol],
      whole⟩
  · obtain ⟨n, text, alike⟩ := Numeral.formulaNumber_of_nonneg finite negative
    rw [if_neg negative, text]
    refine ⟨[⟨gap, blank, .number n⟩], ?_, _, .number rfl, Agrees.number ?_ alike⟩
    · simp [Spaced.textAll, Spaced.text, Mark.text]
    · rw [alike.isFinite, finite]

/-- Signs and a value are written as a part that comes to its total. -/
theorem calculates_operand (o : Operand) {gap : List Char} (blank : Text.allBlank gap = true) :
    ∃ ms, Spaced.textAll ms = gap ++ o.items.flatMap written ∧
      Calculates .signed ms (some o.total) := by
  obtain ⟨signs, additive, value, finite⟩ := o
  unfold Operand.items Operand.total
  dsimp only
  induction signs generalizing gap with
  | nil =>
      obtain ⟨ms, text, atom⟩ := calculates_value finite blank
      exact ⟨ms, by simpa using text, atom.unsigned⟩
  | cons op signs ih =>
      obtain ⟨ms, text, signed⟩ := @ih [' '] rfl fun op mem =>
        additive op (List.mem_cons_of_mem _ mem)
      have weak := additive op List.mem_cons_self
      refine ⟨⟨gap ++ [' '], allBlank_snoc blank, .operator op⟩ :: ms, ?_, ?_⟩
      · rw [Spaced.textAll_cons, text]
        simp [written, Mark.text]
      · rw [List.foldr_cons]
        cases op with
        | add => exact Calculates.plus _ rfl signed
        | subtract => exact Calculates.minus _ rfl signed
        | multiply => cases weak
        | divide => cases weak

/-! ## Running through the operands -/

/-- What `direct` calculates if a value may already be missing. -/
def directAll (held : Option (Option Float × Operator)) (x : Option Float) :
    List (Operator × Float) → Option Float
  | [] => settleAll held x
  | (op, y) :: rest =>
      if op.isMultiplicative then directAll held (combine op x (some y)) rest
      else directAll (some (settleAll held x, op)) (some y) rest

theorem combine_none (op : Operator) (x : Option Float) : combine op x none = none := by
  cases x <;> rfl

/-- Without a value there is no total. -/
theorem directAll_missing {held : Option (Option Float × Operator)} {x : Option Float}
    (missing : x = none ∨ ∃ op, held = some (none, op)) (rest : List (Operator × Float)) :
    directAll held x rest = none := by
  induction rest generalizing held x with
  | nil =>
      rcases missing with rfl | ⟨op, rfl⟩
      · cases held with
        | none => rfl
        | some held => exact combine_none _ _
      · rfl
  | cons link rest ih =>
      obtain ⟨op, y⟩ := link
      rw [directAll]
      split
      · refine ih ?_
        rcases missing with rfl | missing
        · exact Or.inl rfl
        · exact Or.inr missing
      · refine ih (Or.inr ⟨op, ?_⟩)
        rcases missing with rfl | ⟨op, rfl⟩
        · cases held with
          | none => rfl
          | some held => exact congrArg (fun sum => some (sum, op)) (combine_none _ _)
        · rfl

/-- The held sum, as a value that is not missing. -/
def heldAll (held : Option (Float × Operator)) : Option (Option Float × Operator) :=
  held.map fun (sum, op) => (some sum, op)

theorem directAll_eq (held : Option (Float × Operator)) (x : Float)
    (rest : List (Operator × Float)) :
    directAll (heldAll held) (some x) rest = direct held x rest := by
  have settled (held : Option (Float × Operator)) (x : Float) :
      settleAll (heldAll held) (some x) = settle held x := by
    cases held <;> rfl
  induction rest generalizing held x with
  | nil => exact settled held x
  | cons link rest ih =>
      obtain ⟨op, y⟩ := link
      rw [directAll, direct]
      split
      · have product : combine op (some x) (some y) = finite? (op.apply x y) := rfl
        rw [product]
        cases finite? (op.apply x y) with
        | none => exact directAll_missing (Or.inl rfl) rest
        | some product => exact ih held product
      · rw [settled]
        cases settle held x with
        | none => exact directAll_missing (Or.inr ⟨op, rfl⟩) rest
        | some sum => exact ih (some (sum, op)) y

/-- Operands behind what stands are calculated one after the other. -/
theorem Standing.runs {ms : List Spaced} {held : Option (Option Float × Operator)}
    {x : Option Float} (standing : Standing ms held x) (rest : List (Operator × Operand)) :
    ∃ ms', Spaced.textAll ms' = Spaced.textAll ms ++
        (rest.flatMap fun (op, o) => .operator op :: o.items).flatMap written ∧
      Calculates .sum ms' (directAll held x (Operand.totals rest)) := by
  induction rest generalizing ms held x with
  | nil => exact ⟨ms, by simp, standing.settles⟩
  | cons link rest ih =>
      obtain ⟨op, o⟩ := link
      obtain ⟨back, text, operand⟩ := @calculates_operand o [' '] rfl
      have laid : ∀ front : List Spaced, Spaced.textAll (front ++ ⟨[' '], rfl, .operator op⟩ :: back) =
          Spaced.textAll front ++ (.operator op :: o.items).flatMap written := by
        intro front
        rw [Spaced.textAll_append, Spaced.textAll_cons, text]
        simp [written, Mark.text]
      rw [Operand.totals, List.map_cons, directAll]
      split
      · rename_i strong
        obtain ⟨ms', text', calculates⟩ := ih (standing.times ⟨[' '], rfl, .operator op⟩ rfl strong operand)
        exact ⟨ms', by rw [text', laid]; simp, calculates⟩
      · rename_i weak
        obtain ⟨ms', text', calculates⟩ :=
          ih (standing.plus ⟨[' '], rfl, .operator op⟩ rfl
            (by simpa [Operator.isMultiplicative] using weak) operand)
        exact ⟨ms', by rw [text', laid]; simp, calculates⟩

theorem isResolved_items (o : Operand) : ∀ item ∈ o.items, isResolved item = true := by
  intro item mem
  rcases List.mem_append.1 mem with sign | value
  · obtain ⟨op, -, rfl⟩ := List.mem_map.1 sign
    rfl
  · rw [List.mem_singleton.1 value]
    rfl

theorem isResolved_itemsAll (first : Operand) (rest : List (Operator × Operand)) :
    ∀ item ∈ first.itemsAll rest, isResolved item = true := by
  intro item mem
  rcases List.mem_append.1 mem with mem | mem
  · exact isResolved_items first item mem
  · obtain ⟨⟨op, o⟩, -, mem⟩ := List.mem_flatMap.1 mem
    rcases List.mem_cons.1 mem with rfl | mem
    · rfl
    · exact isResolved_items o item mem

/-- **The total of a sequence is what its values come to from left to right.** -/
theorem total_agrees (first : Operand) (rest : List (Operator × Operand)) :
    Agrees (Item.total (first.itemsAll rest)) (direct none first.total (Operand.totals rest)) := by
  obtain ⟨ms, text, operand⟩ := @calculates_operand first [] rfl
  have standing : Standing ms none (some first.total) := operand.factor
  obtain ⟨ms', text', e, reads, agrees⟩ := standing.runs rest
  have read : Expr.read? ((first.itemsAll rest).flatMap written) = some e := by
    refine (read?_iff _ e).2 ⟨ms', [], reads, rfl, ?_⟩
    rw [text', text, Operand.itemsAll, List.flatMap_append, List.nil_append, List.append_nil]
  rw [total_eq_evaluate (isResolved_itemsAll first rest), evaluate, String.toList_ofList, read,
    ← directAll_eq]
  exact agrees

end DiceFormula.Arithmetic
