/-
# DiceFormula.Proofs.Arithmetic.Ends -- operators at the ends of an expression

An expression starts with an operand or with a sign, and ends with an operand (`Derives.opens`,
`Derives.closes`).  A plus sign in front of it changes nothing: what stands behind it has the same
tree.

So a sequence of values that has a total does not end with an operator (`total_trailing`), and an
operator that it starts with is a sign, which can be left out if it is a plus sign
(`total_leading`).
-/
import DiceFormula.Proofs.Arithmetic.Adjacent
import DiceFormula.Proofs.Arithmetic.Derivation

namespace DiceFormula.Arithmetic

set_option autoImplicit false

/-! ## First characters -/

theorem isBlank_symbol (op : Operator) : Text.isBlank op.symbol = false := by
  cases op <;> rfl

theorem symbol_inj {op op' : Operator} (same : op.symbol = op'.symbol) : op = op' := by
  cases op <;> cases op' <;> first | rfl | exact absurd same (by decide)

theorem symbol_ne_of_isDigit {c : Char} (digit : c.isDigit = true) (op : Operator) :
    c ≠ op.symbol := by
  rintro rfl
  cases op <;> cases digit

/-- The text starts with what is no operator and no white space. -/
def StartsOperand (s : List Char) : Prop :=
  ∃ c t, s = c :: t ∧ Text.isBlank c = false ∧ ∀ op : Operator, c ≠ op.symbol

theorem StartsOperand.append {s : List Char} (starts : StartsOperand s) (t : List Char) :
    StartsOperand (s ++ t) := by
  obtain ⟨c, rest, rfl, visible, other⟩ := starts
  exact ⟨c, rest ++ t, rfl, visible, other⟩

/-- An expression of a kind starts with an operand or a sign, and a plus sign leaves no trace. -/
def StartsSigned (kind : Nonterminal) (s : List Char) (es : List Expr) : Prop :=
  ∃ c t, s = c :: t ∧ Text.isBlank c = false ∧ ∀ op : Operator, c = op.symbol →
    op.isAdditive = true ∧ (op = .add → ∃ (gap : Gap) (u : List Char),
      t = gap ++ u ∧ Derives kind u es)

/-- How the texts of a nonterminal start. -/
def Opens : Nonterminal → List Char → List Expr → Prop
  | .atom, s, _ => StartsOperand s
  | .unary, s, es => StartsSigned .unary s es
  | .product, s, es => StartsSigned .product s es
  | .sum, s, es => StartsSigned .sum s es
  | .summands _, _, _ | .factors _, _, _ | .arguments, _, _ => True

/-- A chain starts as its first operand does. -/
theorem StartsSigned.chain {kind chained : Nonterminal} {first rest : List Char} {left e : Expr}
    (starts : StartsSigned kind first [left])
    (chain : ∀ u, Derives kind u [left] → Derives chained (u ++ rest) [e]) :
    StartsSigned chained (first ++ rest) [e] := by
  obtain ⟨c, t, rfl, visible, signed⟩ := starts
  refine ⟨c, t ++ rest, rfl, visible, fun op symbol => ⟨(signed op symbol).1, fun plus => ?_⟩⟩
  obtain ⟨gap, u, rfl, derives⟩ := (signed op symbol).2 plus
  exact ⟨gap, u ++ rest, List.append_assoc _ _ _, chain u derives⟩

theorem Derives.opens {kind : Nonterminal} {s : List Char} {es : List Expr}
    (derives : Derives kind s es) : Opens kind s es := by
  induction derives with
  | sum head tail ih _ => exact StartsSigned.chain ih fun u left => .sum left tail
  | product head tail ih _ => exact StartsSigned.chain ih fun u left => .product left tail
  | @plus s e behind operand _ =>
      refine ⟨'+', _, rfl, rfl, fun op symbol => ?_⟩
      obtain rfl : Operator.add = op := symbol_inj symbol
      exact ⟨rfl, fun _ => ⟨behind, s, rfl, operand⟩⟩
  | minus behind operand _ =>
      refine ⟨'-', _, rfl, rfl, fun op symbol => ?_⟩
      obtain rfl : Operator.subtract = op := symbol_inj symbol
      exact ⟨rfl, fun plus => by cases plus⟩
  | unsigned atom ih =>
      obtain ⟨c, t, rfl, visible, other⟩ := ih
      exact ⟨c, t, rfl, visible, fun op symbol => absurd symbol (other op)⟩
  | number n =>
      obtain ⟨c, t, text, digit⟩ := n.exists_head
      exact ⟨c, t, text, Text.isBlank_of_isDigit digit, symbol_ne_of_isDigit digit⟩
  | call f front behind args _ =>
      have name : StartsOperand f.name.toList := by
        cases f <;> exact ⟨_, _, rfl, rfl, fun op => by cases op <;> decide⟩
      rw [Opens, List.append_assoc]
      exact name.append _
  | group front behind inner _ =>
      exact ⟨'(', _, rfl, rfl, fun op => by cases op <;> decide⟩
  | noSummand | summand | noFactor | factor | lastArgument | argument => trivial

/-! ## Last characters -/

/-- The text ends with what is no operator and no white space. -/
def EndsOperand (s : List Char) : Prop := StartsOperand s.reverse

theorem EndsOperand.append {s : List Char} (ends : EndsOperand s) (t : List Char) :
    EndsOperand (t ++ s) := by
  rw [EndsOperand, List.reverse_append]
  exact StartsOperand.append ends _

/-- How the texts of a nonterminal end.  A repetition may be empty. -/
def Closes : Nonterminal → List Char → Prop
  | .atom, s | .unary, s | .product, s | .sum, s => EndsOperand s
  | .summands _, s | .factors _, s => s = [] ∨ EndsOperand s
  | .arguments, _ => True

/-- A chain ends with its last operand. -/
theorem EndsOperand.chain {first rest : List Char} (head : EndsOperand first)
    (tail : rest = [] ∨ EndsOperand rest) : EndsOperand (first ++ rest) := by
  rcases tail with rfl | last
  · rwa [List.append_nil]
  · exact last.append first

theorem endsOperand_closing (s : List Char) : EndsOperand (s ++ [')']) :=
  EndsOperand.append ⟨')', [], rfl, rfl, fun op => by cases op <;> decide⟩ s

theorem Derives.closes {kind : Nonterminal} {s : List Char} {es : List Expr}
    (derives : Derives kind s es) : Closes kind s := by
  induction derives with
  | sum _ _ first rest | product _ _ first rest => exact EndsOperand.chain first rest
  | noSummand | noFactor => exact .inl rfl
  | summand front behind _ _ _ next rest | factor front behind _ _ _ next rest =>
      refine .inr (EndsOperand.chain ?_ rest)
      exact EndsOperand.append (EndsOperand.append (EndsOperand.append next behind.1) [_]) front.1
  | plus behind _ ih | minus behind _ ih =>
      exact EndsOperand.append (EndsOperand.append ih behind.1) [_]
  | unsigned _ ih => exact ih
  | number n =>
      obtain ⟨t, c, text, digit⟩ := n.exists_last
      refine ⟨c, t.reverse, ?_, Text.isBlank_of_isDigit digit, symbol_ne_of_isDigit digit⟩
      rw [text, List.reverse_append]
      rfl
  | call | group => 
      rw [Closes, ← List.append_assoc]
      exact endsOperand_closing _
  | lastArgument | argument => trivial

/-! ## Sequences of values -/

/-- The text of items with a total. -/
theorem derives_of_total {items : List Item} {x : Float} (ok : Item.total items = .ok x) :
    (∀ item ∈ items, isResolved item = true) ∧ ∃ (front behind : Gap) (s : List Char) (e : Expr),
      Derives .sum s [e] ∧ items.flatMap written = front ++ s ++ behind ∧ e.calculate = .ok x := by
  have resolved := (reads_of_total ok).1
  rw [total_eq_evaluate resolved, evaluate, String.toList_ofList] at ok
  cases read : Expr.read? (items.flatMap written) with
  | none => rw [read] at ok; cases ok
  | some e =>
      rw [read] at ok
      obtain ⟨front, behind, s, derives, text⟩ := derives_of_read? read
      exact ⟨resolved, front, behind, s, e, derives, text, ok⟩

/-- White space at the start of a text is all in front of what is visible. -/
theorem gap_of_visible {gap gap' s t : List Char} {c d : Char}
    (blank : Text.allBlank gap = true) (blank' : Text.allBlank gap' = true)
    (visible : Text.isBlank c = false) (visible' : Text.isBlank d = false)
    (same : gap ++ c :: s = gap' ++ d :: t) : gap = gap' ∧ c = d ∧ s = t := by
  have left := Text.span_append (List.all_eq_true.1 blank) (Text.stops_cons visible (s := s))
  have right := Text.span_append (List.all_eq_true.1 blank') (Text.stops_cons visible' (s := t))
  rw [same, right] at left
  obtain ⟨rfl, others⟩ := Prod.mk.injEq .. ▸ left
  obtain ⟨rfl, rfl⟩ := List.cons.injEq .. ▸ others
  exact ⟨rfl, rfl, rfl⟩

/-- **An operator in front of a sequence with a total is a sign, and a plus sign changes
nothing.** -/
theorem total_leading {op : Operator} {items : List Item} {x : Float}
    (ok : Item.total (.operator op :: items) = .ok x) :
    op.isAdditive = true ∧ (op = .add → Item.total items = .ok x) := by
  obtain ⟨resolved, front, behind, s, e, derives, text, calculated⟩ := derives_of_total ok
  obtain ⟨c, t, rfl, visible, signed⟩ := derives.opens
  rw [List.flatMap_cons, List.append_assoc] at text
  have blank : Text.allBlank [' '] = true := rfl
  obtain ⟨-, symbol, others⟩ := gap_of_visible blank front.2 (isBlank_symbol op) visible text
  refine ⟨(signed op symbol.symm).1, fun plus => ?_⟩
  obtain ⟨gap, u, rfl, tree⟩ := (signed op symbol.symm).2 plus
  -- what stands behind the sign starts with the space that is written behind it
  obtain ⟨d, v, rfl, visible', -⟩ := tree.opens
  obtain ⟨gap, blanks⟩ := gap
  cases gap with
  | nil =>
      obtain ⟨rfl, -⟩ := List.cons.injEq .. ▸ others
      cases visible'
  | cons space gap =>
      obtain ⟨rfl, rest⟩ := List.cons.injEq .. ▸ others
      have blanks : Text.allBlank gap = true := blanks
      have read : Expr.read? (items.flatMap written) = some e := by
        have rest : items.flatMap written = gap ++ d :: v ++ behind := rest
        rw [rest]
        exact read?_of_derives tree ⟨gap, blanks⟩ behind
      rw [total_eq_evaluate fun item mem => resolved item (List.mem_cons_of_mem _ mem), evaluate,
        String.toList_ofList, read]
      exact calculated

/-- **No sequence with a total ends with an operator.** -/
theorem total_trailing {op : Operator} {items : List Item} {x : Float} :
    Item.total (items ++ [.operator op]) ≠ .ok x := by
  intro ok
  obtain ⟨-, front, behind, s, e, derives, text, -⟩ := derives_of_total ok
  obtain ⟨c, t, last, visible, other⟩ := derives.closes
  have reversed : [' '] ++ op.symbol :: ' ' :: (items.flatMap written).reverse =
      behind.1.reverse ++ c :: (t ++ front.1.reverse) := by
    have both := congrArg List.reverse text
    rw [List.flatMap_append, List.flatMap_singleton, List.reverse_append, List.reverse_append,
      List.reverse_append, last] at both
    exact both
  have blank : Text.allBlank behind.1.reverse = true := by
    rw [Text.allBlank, List.all_reverse]
    exact behind.2
  exact other op (gap_of_visible rfl blank (isBlank_symbol op) visible reversed).2.1.symm

end DiceFormula.Arithmetic
