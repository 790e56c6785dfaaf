/-
# DiceFormula.Proofs.Arithmetic.NormalText -- the text of an expression is a normal form

An expression does not have to come from a text.  If its numbers are finite and not below zero and
its calls have arguments, its text is read (`Expr.text_normal`), and the text of what is read is
the same text.

What is read can be another expression than the one that was written.  Negative zero is written as
zero (`exists_readable`), and an operand behind an operator that does not undo another
can join the chain in front of it, where it needs no parentheses either (`text_graft`).
-/
import DiceFormula.Proofs.Arithmetic.Layout

namespace DiceFormula

set_option autoImplicit false

namespace Expr

open Arithmetic Double

/-- Expressions that can be written: their numbers are finite and not below zero, and their calls
have arguments. -/
inductive Writable : Expr → Prop
  | number {x : Float} (finite : x.isFinite = true) (nonneg : ¬ x < 0) : Writable (.number x)
  | negate {e : Expr} (inner : Writable e) : Writable (.negate e)
  | binary {op : Operator} {a b : Expr} (left : Writable a) (right : Writable b) :
      Writable (.binary op a b)
  | call {f : MathFunction} {args : List Expr} (some : args ≠ [])
      (each : ∀ e ∈ args, Writable e) : Writable (.call f args)

/-! ## Texts and kinds -/

theorem leftNeeds_congr (op : Operator) {a a' : Expr} (kinds : a.kind = a'.kind) :
    leftNeeds op a = leftNeeds op a' := by
  rw [leftNeeds, leftNeeds, kinds]

theorem rightNeeds_congr (op : Operator) {b b' : Expr} (kinds : b.kind = b'.kind) :
    rightNeeds op b = rightNeeds op b' := by
  unfold rightNeeds
  rw [kinds]

theorem text_negate_congr {e e' : Expr} (kinds : e.kind = e'.kind) (texts : e.text = e'.text) :
    (negate e).text = (negate e').text := by
  rw [text, text, kinds, texts]

/-- The text of a chain depends on the texts of its operands and on their kinds. -/
theorem text_binary_congr (op : Operator) {a a' b b' : Expr} (kinds : a.kind = a'.kind)
    (kinds' : b.kind = b'.kind) (left : a.text = a'.text) (right : b.text = b'.text) :
    (binary op a b).text = (binary op a' b').text := by
  rw [text, text, leftNeeds_congr op kinds, rightNeeds_congr op kinds', left, right]

theorem text_call_congr (f : MathFunction) {args args' : List Expr}
    (same : args.map text = args'.map text) : (call f args).text = (call f args').text := by
  rw [text, text, texts_eq, texts_eq, same]

/-! ## Expressions as they are read -/

theorem formulaNumber_alike {x y : Float} (alike : Alike x y) :
    formulaNumber x = formulaNumber y := by
  rcases alike with rfl | ⟨left, right⟩
  · rfl
  · rw [formulaNumber, formulaNumber, if_pos ((beq_zero_iff x).2 left),
      if_pos ((beq_zero_iff y).2 right)]

/-- A list of arguments is written as one whose members are replaced. -/
theorem exists_arguments {P : Expr → Prop} {args : List Expr}
    (each : ∀ e ∈ args, ∃ e', P e' ∧ e'.text = e.text) :
    ∃ args' : List Expr, (∀ e' ∈ args', P e') ∧ args'.map text = args.map text := by
  induction args with
  | nil => exact ⟨[], List.forall_mem_nil _, rfl⟩
  | cons e rest ih =>
      obtain ⟨first, others⟩ := List.forall_mem_cons.1 each
      obtain ⟨e', holds, same⟩ := first
      obtain ⟨rest', hold, all⟩ := ih others
      refine ⟨e' :: rest', List.forall_mem_cons.2 ⟨holds, hold⟩, ?_⟩
      rw [List.map_cons, List.map_cons, same, all]

/-- **What can be written is written as an expression that was read.** -/
theorem exists_readable {e : Expr} (writable : e.Writable) :
    ∃ e' : Expr, (e'.Readable ∧ e'.isFinite = true ∧ e'.kind = e.kind) ∧ e'.text = e.text := by
  induction writable with
  | @number x finite nonneg =>
      obtain ⟨n, -, alike⟩ := Numeral.formulaNumber_of_nonneg finite nonneg
      exact ⟨number n.value, ⟨.number n, alike.isFinite.trans finite, rfl⟩,
        formulaNumber_alike alike⟩
  | @negate e inner ih =>
      obtain ⟨e', ⟨readable, finite, kinds⟩, same⟩ := ih
      exact ⟨negate e', ⟨.negate readable, finite, rfl⟩, text_negate_congr kinds same⟩
  | @binary op a b left right ihLeft ihRight =>
      obtain ⟨a', ⟨readable, finite, kinds⟩, same⟩ := ihLeft
      obtain ⟨b', ⟨readable', finite', kinds'⟩, same'⟩ := ihRight
      exact ⟨binary op a' b',
        ⟨.binary readable readable', Bool.and_eq_true_iff.2 ⟨finite, finite'⟩, rfl⟩,
        text_binary_congr op kinds kinds' same same'⟩
  | @call f args some each ih =>
      have each' : ∀ e ∈ args,
          ∃ e' : Expr, (e'.Readable ∧ e'.isFinite = true) ∧ e'.text = e.text := by
        intro e mem
        obtain ⟨e', ⟨readable, finite, -⟩, same⟩ := ih e mem
        exact ⟨e', ⟨readable, finite⟩, same⟩
      obtain ⟨args', hold, same⟩ := exists_arguments each'
      have some' : args' ≠ [] := by
        rintro rfl
        exact some (List.map_eq_nil_iff.1 same.symm)
      exact ⟨call f args', ⟨.call some' fun e mem => (hold e mem).1,
        (areFinite_iff args').2 fun e mem => (hold e mem).2, rfl⟩, text_call_congr f same⟩

/-! ## Chains that are put together -/

/-- In front of a chain of its own kind a chain needs no parentheses. -/
theorem leftNeeds_of_kind {op : Operator} {e : Expr} (same : e.kind = op.kind) :
    leftNeeds op e = false := by
  unfold leftNeeds
  rw [same]
  cases op <;> rfl

/-- Behind an operator that does not undo another a chain of its own kind needs none. -/
theorem rightNeeds_of_kind {op : Operator} {e : Expr} (plain : op.isInverse = false)
    (same : e.kind = op.kind) : rightNeeds op e = false := by
  unfold rightNeeds
  rw [same]
  cases op <;> first | rfl | cases plain

/-- What stands between two operators of a kind has parentheses on account of either. -/
theorem rightNeeds_eq_leftNeeds {op op' : Operator} (plain : op.isInverse = false)
    (joins : op'.kind = op.kind) (e : Expr) : rightNeeds op e = leftNeeds op' e := by
  unfold rightNeeds leftNeeds
  revert plain joins
  cases op <;> cases op' <;> cases e.kind <;> decide

/-- **An operand that joins a chain is written as one behind it.** -/
theorem text_graft {op : Operator} (plain : op.isInverse = false) (a e : Expr) :
    (graft op a e).text = (binary op a e).text := by
  fun_induction graft op a e with
  | case1 op' b c joins ih =>
      have front : leftNeeds op' (graft op a b) = false :=
        leftNeeds_of_kind ((kind_graft op a b).trans joins.symm)
      have behind : rightNeeds op (binary op' b c) = false := rightNeeds_of_kind plain joins
      have between := rightNeeds_eq_leftNeeds plain joins b
      simp only [text] at ih ⊢
      simp only [ih, front, behind, between, parenthesized, String.append_assoc,
        Bool.false_eq_true, if_false]
  | case2 op' b c apart => rfl
  | case3 e other => rfl

/-- Without parentheses behind an operator that undoes another stands no chain of its kind. -/
theorem kind_ne_of_bare {op : Operator} {e : Expr} (inverse : op.isInverse = true)
    (bare : ¬ rightNeeds op e = true) : e.kind ≠ op.kind := by
  unfold rightNeeds at bare
  revert inverse bare
  cases op <;> cases e.kind <;> decide

/-- **The text of an expression is that of what it is read as.** -/
theorem text_reread {e : Expr} (readable : e.Readable) : e.reread.text = e.text := by
  induction readable with
  | number n => rfl
  | @negate e inner ih => exact text_negate_congr (kind_reread e) ih
  | @binary op a b left right ihLeft ihRight =>
      have operands : (binary op a.reread b.reread).text = (binary op a b).text :=
        text_binary_congr op (kind_reread a) (kind_reread b) ihLeft ihRight
      rw [reread]
      split
      · exact operands
      · rename_i bare
        cases inverse : op.isInverse with
        | true =>
            have other : b.reread.kind ≠ op.kind := kind_reread b ▸ kind_ne_of_bare inverse bare
            rw [graft_of_ne _ other, operands]
        | false => rw [text_graft inverse, operands]
  | @call f args some each ih =>
      have same : (args.map reread).map text = args.map text := by
        rw [List.map_map]
        exact List.map_congr_left ih
      rw [reread, rereadAll_eq]
      exact text_call_congr f same

/-- **The text of an expression is a normal form.**  If the numbers of the expression are finite
and not below zero and its calls have arguments, its text is read, and the text of what is read is
the same. -/
theorem text_normal {e : Expr} (writable : e.Writable) :
    ∃ e', Expr.read? e.text.toList = some e' ∧ e'.text = e.text := by
  obtain ⟨e₀, ⟨readable, finite, -⟩, same⟩ := exists_readable writable
  have again := read?_of_derives (spelled readable finite).sum ⟨[], rfl⟩ ⟨[], rfl⟩
  rw [List.nil_append, List.append_nil, same] at again
  exact ⟨e₀.reread, again, (text_reread readable).trans same⟩

/-- Operands of all kinds on both sides, behind a minus sign and in a call, and negative zero. -/
theorem text_normal_nested :
    let sum : Expr := .binary .add (.number 1) (.binary .subtract (.number (-0)) (.number 2.5))
    let product : Expr :=
      .binary .multiply sum (.binary .divide (.negate sum) (.binary .multiply sum (.number 3)))
    ∃ e', Expr.read? (call .maximum [.binary .subtract product sum, sum]).text.toList = some e' ∧
      e'.text = (call .maximum [.binary .subtract product sum, sum]).text := by
  intro sum product
  have one : (number 1).Writable := .number (by decide +kernel) (by decide +kernel)
  have zero : (number (-0)).Writable := .number (by decide +kernel) (by decide +kernel)
  have half : (number 2.5).Writable := .number (by decide +kernel) (by decide +kernel)
  have three : (number 3).Writable := .number (by decide +kernel) (by decide +kernel)
  have sums : sum.Writable := .binary one (.binary zero half)
  have products : product.Writable :=
    .binary sums (.binary (.negate sums) (.binary sums three))
  refine text_normal (.call (List.cons_ne_nil _ _) ?_)
  exact List.forall_mem_cons.2 ⟨.binary products sums, List.forall_mem_singleton.2 sums⟩

end Expr

end DiceFormula
