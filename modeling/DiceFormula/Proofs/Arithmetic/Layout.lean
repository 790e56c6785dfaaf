/-
# DiceFormula.Proofs.Arithmetic.Layout -- the layout of an expression's text

The text of an expression that was read is always read again, and `Expr.reread` is what it is
read as (`Expr.spelled`).  The parentheses keep the layout in all places but one: a sum behind a
plus sign and a product behind a multiplication sign have none, so their operands join the chain
in front of them, which grows to the left (`Expr.graft`).

So the expression is the same again if and only if it has no such operand (`reread_text`).  If it
has one, it may have another value when it is read again (`reread_text_regrouped`).
-/
import DiceFormula.Proofs.Arithmetic.Derivation
import DiceFormula.Proofs.Computation
import DiceFormula.Proofs.Double.Sign

namespace DiceFormula

set_option autoImplicit false

open Arithmetic

/-! ## What the text is read as -/

/-- The kind of what the operator makes of its operands. -/
def Operator.kind (op : Operator) : ExprKind :=
  if op.isAdditive then .additive else .multiplicative

namespace Expr

/-- Puts an operand and an operator in front of a text without parentheses.  In a chain of
operators of the same kind they come before all of them. -/
def graft (op : Operator) (a : Expr) : Expr → Expr
  | binary op' b c =>
      if op'.kind = op.kind then binary op' (graft op a b) c else binary op a (binary op' b c)
  | e => binary op a e

mutual

/-- What the text of an expression is read as. -/
def reread : Expr → Expr
  | number x => number x
  | negate e => negate (reread e)
  | binary op a b =>
      if rightNeeds op b then binary op (reread a) (reread b)
      else graft op (reread a) (reread b)
  | call f args => call f (rereadAll args)

def rereadAll : List Expr → List Expr
  | [] => []
  | e :: rest => reread e :: rereadAll rest

end

mutual

/-- Whether no operator but one that undoes another has a chain of its own kind behind it. -/
def growsLeft : Expr → Bool
  | number _ => true
  | negate e => growsLeft e
  | binary op a b => growsLeft a && growsLeft b && (op.isInverse || b.kind != op.kind)
  | call _ args => growLeft args

def growLeft : List Expr → Bool
  | [] => true
  | e :: rest => growsLeft e && growLeft rest

end

mutual

/-- Whether all numbers of the expression are finite. -/
def isFinite : Expr → Bool
  | number x => x.isFinite
  | negate e => isFinite e
  | binary _ a b => isFinite a && isFinite b
  | call _ args => areFinite args

def areFinite : List Expr → Bool
  | [] => true
  | e :: rest => isFinite e && areFinite rest

end

theorem rereadAll_eq (args : List Expr) : rereadAll args = args.map reread := by
  induction args with
  | nil => rfl
  | cons e rest ih => rw [rereadAll, ih, List.map_cons]

theorem growLeft_iff (args : List Expr) : growLeft args = true ↔ ∀ e ∈ args, e.growsLeft = true := by
  induction args with
  | nil => simp [growLeft]
  | cons e rest ih => rw [growLeft, Bool.and_eq_true, ih, List.forall_mem_cons]

theorem areFinite_iff (args : List Expr) : areFinite args = true ↔ ∀ e ∈ args, e.isFinite = true := by
  induction args with
  | nil => simp [areFinite]
  | cons e rest ih => rw [areFinite, Bool.and_eq_true, ih, List.forall_mem_cons]

theorem texts_eq (args : List Expr) : texts args = args.map text := by
  induction args with
  | nil => rfl
  | cons e rest ih => rw [texts, ih, List.map_cons]

/-! ## Kinds -/

theorem kind_binary (op : Operator) (a b : Expr) : (binary op a b).kind = op.kind := rfl

theorem kind_graft (op : Operator) (a e : Expr) : (graft op a e).kind = op.kind := by
  unfold graft
  split
  · split
    · rename_i same
      exact same
    · rfl
  · rfl

theorem kind_reread (e : Expr) : e.reread.kind = e.kind := by
  cases e with
  | number x => rfl
  | negate e => rfl
  | call f args => rfl
  | binary op a b =>
      rw [reread]
      split
      · rfl
      · exact kind_graft _ _ _

/-- What is no chain of the operator's kind is an operand as it is. -/
theorem graft_of_ne {op : Operator} (a : Expr) {e : Expr} (other : e.kind ≠ op.kind) :
    graft op a e = binary op a e := by
  unfold graft
  split
  · exact if_neg other
  · rfl

/-- The order in which chains are put together makes no difference. -/
theorem graft_graft {op op' : Operator} (same : op.kind = op'.kind) (x a b : Expr) :
    graft op (graft op' x a) b = graft op' x (graft op a b) := by
  have outer (b : Expr) : graft op' x (binary op a b) = binary op (graft op' x a) b := by
    rw [graft, if_pos same]
  fun_induction graft op a b with
  | case1 op'' b c joins ih =>
      rw [graft, if_pos joins, ih, graft, if_pos (joins.trans same)]
  | case2 op'' b c apart => rw [graft, if_neg apart, outer]
  | case3 e other => rw [outer, graft]; exact other

end Expr

/-! ## Kinds as parts of the grammar -/

namespace ExprKind

/-- The part of the grammar that expressions of the kind are. -/
def nonterminal : ExprKind → Nonterminal
  | value => .atom
  | unary => .unary
  | multiplicative => .product
  | additive => .sum

/-- How weakly expressions of the kind are bound. -/
def level : ExprKind → Nat
  | value => 0
  | unary => 1
  | multiplicative => 2
  | additive => 3

end ExprKind

/-- The weakest kind that an operand behind the operator can have without parentheses, if it is
not to join the chain. -/
def Operator.operandKind (op : Operator) : ExprKind :=
  if op.isAdditive then .multiplicative else .unary

namespace Arithmetic.Derives

/-- What is bound more strongly is also what is bound more weakly. -/
theorem lift {k k' : ExprKind} (le : k.level ≤ k'.level) {s : List Char} {e : Expr}
    (derives : Derives k.nonterminal s [e]) : Derives k'.nonterminal s [e] := by
  have product {s : List Char} {e : Expr} (operand : Derives .unary s [e]) :
      Derives .product s [e] := by
    have whole := Derives.product operand .noFactor
    rwa [List.append_nil] at whole
  have sum {s : List Char} {e : Expr} (operand : Derives .product s [e]) :
      Derives .sum s [e] := by
    have whole := Derives.sum operand .noSummand
    rwa [List.append_nil] at whole
  cases k <;> cases k' <;> first
    | exact derives
    | exact absurd le (by decide)
    | exact .unsigned derives
    | exact product derives
    | exact product (.unsigned derives)
    | exact sum derives
    | exact sum (product derives)
    | exact sum (product (.unsigned derives))

/-- A chain has one more operand. -/
theorem snoc {op : Operator} {s next : List Char} {a b : Expr}
    (left : Derives op.kind.nonterminal s [a]) (front behind : Gap)
    (right : Derives op.operandKind.nonterminal next [b]) :
    Derives op.kind.nonterminal (s ++ (front ++ op.symbol :: (behind ++ next)))
      [.binary op a b] := by
  cases op with
  | add | subtract => exact left.sum_snoc front behind rfl right
  | multiply | divide => exact left.product_snoc front behind rfl right

end Arithmetic.Derives

/-! ## Texts -/

/-- A text in parentheses, if they are needed. -/
def enclosed (needed : Bool) (s : List Char) : List Char :=
  if needed then '(' :: s ++ [')'] else s

namespace Expr

theorem toList_parenthesized (needed : Bool) (text : String) :
    (parenthesized needed text).toList = enclosed needed text.toList := by
  cases needed with
  | false => rfl
  | true =>
      rw [parenthesized, if_pos rfl, String.toList_append, String.toList_append]
      rfl

/-- An operator between blanks, with a text behind it. -/
def linked (op : Operator) (s : List Char) : List Char :=
  ' ' :: op.symbol :: ' ' :: s

theorem toList_negate (e : Expr) :
    (negate e).text.toList = '-' :: enclosed (e.kind != .value) e.text.toList := by
  rw [text, String.toList_append, toList_parenthesized]
  rfl

theorem toList_binary (op : Operator) (a b : Expr) :
    (binary op a b).text.toList = enclosed (leftNeeds op a) a.text.toList ++
      linked op (enclosed (rightNeeds op b) b.text.toList) := by
  have symbol : op.text.toList = [op.symbol] := by cases op <;> rfl
  simp only [text, String.toList_append, toList_parenthesized, symbol, List.append_assoc]
  rfl

theorem toList_call (f : MathFunction) (args : List Expr) :
    (call f args).text.toList = f.name.toList ++
      '(' :: ([',', ' '].intercalate (args.map fun e => e.text.toList) ++ [')']) := by
  have list : (", ".intercalate (args.map text)).toList =
      [',', ' '].intercalate (args.map fun e => e.text.toList) := by
    rw [String.toList_intercalate, List.map_map]
    rfl
  rw [text, texts_eq, String.toList_append, String.toList_append, String.toList_append, list,
    List.append_assoc, List.append_assoc]
  rfl

/-- The text of an expression is derived as what it is read as.  Behind an operator of its own
kind it goes on with the chain. -/
structure Spelled (e : Expr) : Prop where
  derives : Derives e.kind.nonterminal e.text.toList [e.reread]
  joins : ∀ {op : Operator} {s : List Char} {a : Expr}, e.kind = op.kind →
    Derives op.kind.nonterminal s [a] →
      Derives op.kind.nonterminal (s ++ linked op e.text.toList) [graft op a e.reread]

namespace Spelled

variable {e : Expr} (spelled : e.Spelled)
include spelled

/-- An expression is a sum. -/
theorem sum : Derives .sum e.text.toList [e.reread] := by
  have weakest : e.kind.level ≤ ExprKind.additive.level := by cases e.kind <;> decide
  exact spelled.derives.lift weakest

/-- In parentheses an expression is an atom. -/
theorem group : Derives .atom (enclosed true e.text.toList) [e.reread] :=
  .group ⟨[], rfl⟩ ⟨[], rfl⟩ spelled.sum

/-- The first operand of a chain. -/
theorem first {op : Operator} {needed : Bool}
    (fits : needed = false → e.kind.level ≤ op.kind.level) :
    Derives op.kind.nonterminal (enclosed needed e.text.toList) [e.reread] := by
  cases needed with
  | true => exact Derives.lift (k := .value) (Nat.zero_le _) spelled.group
  | false => exact spelled.derives.lift (fits rfl)

/-- An operand behind an operator. -/
theorem next {op : Operator} {needed : Bool}
    (fits : needed = false → e.kind.level ≤ op.kind.level) {s : List Char} {a : Expr}
    (left : Derives op.kind.nonterminal s [a]) :
    Derives op.kind.nonterminal (s ++ linked op (enclosed needed e.text.toList))
      [if needed then binary op a e.reread else graft op a e.reread] := by
  cases needed with
  | true =>
      have operand : Derives op.operandKind.nonterminal (enclosed true e.text.toList) [e.reread] :=
        Derives.lift (k := .value) (Nat.zero_le _) spelled.group
      exact left.snoc ⟨[' '], rfl⟩ ⟨[' '], rfl⟩ operand
  | false =>
      by_cases same : e.kind = op.kind
      · exact spelled.joins same left
      · have below : e.kind.level ≤ op.operandKind.level := by
          have le := fits rfl
          revert le same
          cases op <;> cases e.kind <;> decide
        rw [graft_of_ne a (kind_reread e ▸ same)]
        exact left.snoc ⟨[' '], rfl⟩ ⟨[' '], rfl⟩ (spelled.derives.lift below)

end Spelled

theorem leftNeeds_fits (op : Operator) (a : Expr) (bare : leftNeeds op a = false) :
    a.kind.level ≤ op.kind.level := by
  unfold leftNeeds at bare
  revert bare
  cases op <;> cases a.kind <;> decide

theorem rightNeeds_fits (op : Operator) (b : Expr) (bare : rightNeeds op b = false) :
    b.kind.level ≤ op.kind.level := by
  unfold rightNeeds at bare
  revert bare
  cases op <;> cases b.kind <;> decide

/-- A chain of two operands. -/
theorem Spelled.binary {op : Operator} {a b : Expr} (left : a.Spelled) (right : b.Spelled) :
    (binary op a b).Spelled := by
  constructor
  · rw [toList_binary, reread]
    exact right.next (rightNeeds_fits op b) (left.first (leftNeeds_fits op a))
  · intro op' s x kinds front
    rw [kind_binary] at kinds
    -- the left operand joins the chain in front: in parentheses it is of another kind
    have grafted : (if leftNeeds op a then Expr.binary op' x a.reread else graft op' x a.reread) =
        graft op' x a.reread := by
      split
      · rename_i needed
        refine (graft_of_ne x ?_).symm
        rw [kind_reread, ← kinds]
        unfold leftNeeds at needed
        revert needed
        cases op <;> cases a.kind <;> decide
      · rfl
    have first := left.next (fun bare => kinds ▸ leftNeeds_fits op a bare) front
    rw [grafted, ← kinds] at first
    have whole := right.next (rightNeeds_fits op b) first
    have laid : s ++ linked op' (Expr.binary op a b).text.toList =
        s ++ linked op' (enclosed (leftNeeds op a) a.text.toList) ++
          linked op (enclosed (rightNeeds op b) b.text.toList) := by
      rw [toList_binary, linked, linked, linked]
      simp
    rw [laid, ← kinds, reread]
    split at whole
    · rename_i needed
      rw [if_pos needed, graft, if_pos kinds]
      exact whole
    · rename_i bare
      rw [if_neg bare, ← graft_graft kinds]
      exact whole

/-- Arguments, of which there is at least one. -/
theorem derives_arguments {args : List Expr} (some : args ≠ []) (each : ∀ e ∈ args, e.Spelled) :
    Derives .arguments ([',', ' '].intercalate (args.map fun e => e.text.toList))
      (args.map reread) := by
  induction args with
  | nil => exact absurd rfl some
  | cons e rest ih =>
      obtain ⟨first, others⟩ := List.forall_mem_cons.1 each
      cases rest with
      | nil =>
          rw [List.map_singleton, List.map_singleton, List.intercalate_singleton]
          exact .lastArgument first.sum
      | cons e' rest =>
          have laid : [',', ' '].intercalate ((e :: e' :: rest).map fun e => e.text.toList) =
              e.text.toList ++ ',' :: ' ' ::
                [',', ' '].intercalate ((e' :: rest).map fun e => e.text.toList) := by
            rw [List.map_cons, List.map_cons, List.intercalate_cons_cons]
            simp
          have behind := ih (List.cons_ne_nil _ _) others
          rw [laid, List.map_cons]
          exact .argument ⟨[], rfl⟩ ⟨[' '], rfl⟩ first.sum behind

/-- Expressions as they are read: numbers come from numerals, and calls have arguments. -/
inductive Readable : Expr → Prop
  | number (n : Numeral) : Readable (.number n.value)
  | negate {e : Expr} (inner : Readable e) : Readable (.negate e)
  | binary {op : Operator} {a b : Expr} (left : Readable a) (right : Readable b) :
      Readable (.binary op a b)
  | call {f : MathFunction} {args : List Expr} (some : args ≠ [])
      (each : ∀ e ∈ args, Readable e) : Readable (.call f args)

theorem readable_of_reads {part : Part} {ms : List Spaced} {es : List Expr}
    (reads : Reads part ms es) : es ≠ [] ∧ ∀ e ∈ es, e.Readable := by
  induction reads with
  | number digits => exact ⟨List.cons_ne_nil _ _, List.forall_mem_singleton.2 (.number _)⟩
  | call name closes args ih =>
      exact ⟨List.cons_ne_nil _ _, List.forall_mem_singleton.2 (.call ih.1 ih.2)⟩
  | group opens closes inner ih => exact ih
  | unsigned atom ih => exact ih
  | plus sign signed ih => exact ih
  | minus sign signed ih =>
      exact ⟨List.cons_ne_nil _ _,
        List.forall_mem_singleton.2 (.negate (List.forall_mem_singleton.1 ih.2))⟩
  | factor signed ih => exact ih
  | summand product ih => exact ih
  | product between belongs left right ihLeft ihRight
  | sum between belongs left right ihLeft ihRight =>
      exact ⟨List.cons_ne_nil _ _, List.forall_mem_singleton.2
        (.binary (List.forall_mem_singleton.1 ihLeft.2) (List.forall_mem_singleton.1 ihRight.2))⟩
  | argument sum ih => exact ih
  | arguments between first others ihFirst ihOthers =>
      exact ⟨List.cons_ne_nil _ _,
        List.forall_mem_cons.2 ⟨List.forall_mem_singleton.1 ihFirst.2, ihOthers.2⟩⟩

theorem readable_of_read? {s : List Char} {e : Expr} (read : Expr.read? s = some e) : e.Readable := by
  obtain ⟨ms, gap, reads, -, -⟩ := (read?_iff s e).1 read
  exact List.forall_mem_singleton.1 (readable_of_reads reads).2

/-- **The text of an expression with finite numbers is read again.** -/
theorem spelled {e : Expr} (readable : e.Readable) (finite : e.isFinite = true) : e.Spelled := by
  induction readable with
  | number n =>
      obtain ⟨n', text, value⟩ := n.exists_formulaNumber finite
      refine ⟨?_, fun kinds => ?_⟩
      · have derives := Derives.number n'
        rw [value, ← text] at derives
        rwa [Expr.text]
      · rename_i op _ _
        cases op <;> cases kinds
  | @negate e inner ih =>
      have spelled := ih finite
      refine ⟨?_, fun kinds => ?_⟩
      · rw [toList_negate]
        refine .minus ⟨[], rfl⟩ ?_
        cases value : e.kind != .value with
        | true => exact .unsigned spelled.group
        | false =>
            have derives := spelled.derives
            rw [bne_eq_false_iff_eq.1 value] at derives
            exact .unsigned derives
      · rename_i op _ _
        cases op <;> cases kinds
  | @binary op a b left right ihLeft ihRight =>
      obtain ⟨finiteLeft, finiteRight⟩ := (Bool.and_eq_true_iff).1 finite
      exact (ihLeft finiteLeft).binary (ihRight finiteRight)
  | @call f args some each ih =>
      have finite := (areFinite_iff args).1 finite
      refine ⟨?_, fun kinds => ?_⟩
      · rw [toList_call, reread, rereadAll_eq]
        have inner := derives_arguments some fun e mem => ih e mem (finite e mem)
        have whole := Derives.call f ⟨[], rfl⟩ ⟨[], rfl⟩ inner
        rw [List.append_assoc] at whole
        exact whole
      · rename_i op _ _
        cases op <;> cases kinds

/-! ## The same layout -/

theorem sizeOf_graft (op : Operator) (a e : Expr) :
    sizeOf (graft op a e) = sizeOf (binary op a e) := by
  have unit (op : Operator) : sizeOf op = 1 := by cases op <;> rfl
  fun_induction graft op a e with
  | case1 op' b c joins ih =>
      simp only [binary.sizeOf_spec, unit] at ih ⊢
      omega
  | case2 op' b c apart => rfl
  | case3 e other => rfl

theorem sizeOf_reread {e : Expr} (readable : e.Readable) : sizeOf e.reread = sizeOf e := by
  induction readable with
  | number n => rfl
  | negate inner ih => rw [reread, negate.sizeOf_spec, negate.sizeOf_spec, ih]
  | binary left right ihLeft ihRight =>
      rw [reread]
      split
      · rw [binary.sizeOf_spec, binary.sizeOf_spec, ihLeft, ihRight]
      · rw [sizeOf_graft, binary.sizeOf_spec, binary.sizeOf_spec, ihLeft, ihRight]
  | @call f args some each ih =>
      have sizes : sizeOf (args.map reread) = sizeOf args := by
        clear some each
        induction args with
        | nil => rfl
        | cons e rest sizes =>
            obtain ⟨first, others⟩ := List.forall_mem_cons.1 ih
            rw [List.map_cons, List.cons.sizeOf_spec, List.cons.sizeOf_spec, first, sizes others]
      rw [reread, rereadAll_eq, call.sizeOf_spec, call.sizeOf_spec, sizes]

/-- The right operand is an operand again, unless it is a chain that goes on. -/
theorem reread_binary {op : Operator} (a : Expr) {b : Expr}
    (apart : (op.isInverse || b.kind != op.kind) = true) :
    (binary op a b).reread = binary op a.reread b.reread := by
  rw [reread]
  split
  · rfl
  · rename_i bare
    refine graft_of_ne _ ?_
    rw [kind_reread]
    unfold rightNeeds at bare
    revert bare apart
    cases op <;> cases b.kind <;> decide

/-- A chain that goes on is not the right operand any more: that is smaller now. -/
theorem reread_ne_binary {op : Operator} {a b : Expr} (readable : b.Readable)
    (joins : (op.isInverse || b.kind != op.kind) = false) :
    (binary op a b).reread ≠ binary op a b := by
  have same : b.kind = op.kind ∧ rightNeeds op b = false := by
    unfold rightNeeds
    revert joins
    cases op <;> cases b.kind <;> decide
  obtain ⟨kinds, bare⟩ := same
  have size := sizeOf_reread readable
  have kinds' : b.reread.kind = op.kind := (kind_reread b).trans kinds
  rw [reread, if_neg (by rw [bare]; decide)]
  intro eq
  unfold graft at eq
  split at eq
  · rename_i op' c d tree
    rw [if_pos (by rw [tree] at kinds'; exact kinds')] at eq
    injection eq with _ _ right
    rw [tree, right, binary.sizeOf_spec] at size
    omega
  · rename_i other
    injection eq with _ _ right
    cases kind : b.reread with
    | binary op' c d => exact other op' c d kind
    | _ => rw [kind] at kinds'; cases op <;> cases kinds'

/-- **What is read again is the same expression if no chain has one of its own kind behind it.** -/
theorem reread_eq_iff {e : Expr} (readable : e.Readable) : e.reread = e ↔ e.growsLeft = true := by
  induction readable with
  | number n => exact iff_of_true rfl rfl
  | negate inner ih => rw [reread, growsLeft, negate.injEq, ih]
  | @binary op a b left right ihLeft ihRight =>
      rw [growsLeft, Bool.and_eq_true, Bool.and_eq_true, ← ihLeft, ← ihRight]
      cases apart : op.isInverse || b.kind != op.kind with
      | true =>
          rw [reread_binary a apart, binary.injEq]
          tauto
      | false =>
          refine iff_of_false (reread_ne_binary right apart) fun all => ?_
          cases all.2
  | @call f args some each ih =>
      have fixed : args.map reread = args ↔ ∀ e ∈ args, e.reread = e := by
        have same := List.map_inj_left (l := args) (f := reread) (g := id)
        rwa [List.map_id] at same
      rw [reread, rereadAll_eq, growsLeft, growLeft_iff, call.injEq, fixed]
      constructor
      · exact fun same e mem => (ih e mem).1 (same.2 e mem)
      · exact fun all => ⟨rfl, fun e mem => (ih e mem).2 (all e mem)⟩

/-- **The text of an expression that was read is read again**, and gives the same expression if
and only if it has no sum behind a plus sign and no product behind a multiplication sign. -/
theorem reread_text {s : List Char} {e : Expr} (read : Expr.read? s = some e)
    (finite : e.isFinite = true) :
    Expr.read? e.text.toList = some e.reread ∧ (e.reread = e ↔ e.growsLeft = true) := by
  have readable := readable_of_read? read
  have again := read?_of_derives (spelled readable finite).sum ⟨[], rfl⟩ ⟨[], rfl⟩
  rw [List.nil_append, List.append_nil] at again
  exact ⟨again, reread_eq_iff readable⟩

/-- Parentheses that are needed on either side. -/
theorem reread_text_grouped :
    ∃ e, Expr.read? "-(1 + 2) * max(8 / (4 / 2), 1 - (2 - 3))".toList = some e ∧
      e.isFinite = true ∧
        Expr.read? e.text.toList = some e.reread ∧ (e.reread = e ↔ e.growsLeft = true) := by
  have reads : ∃ e ∈ Expr.read? "-(1 + 2) * max(8 / (4 / 2), 1 - (2 - 3))".toList,
      e.isFinite = true := by decide +kernel
  obtain ⟨e, read, finite⟩ := reads
  exact ⟨e, read, finite, reread_text read finite⟩

/-- A sum behind a plus sign loses its parentheses.  When it is read again, it is another
expression, with another value. -/
theorem reread_text_regrouped :
    ∃ e e', Expr.read? "0.1 + (0.2 + 0.3)".toList = some e ∧ e.isFinite = true ∧
      Expr.read? e.text.toList = some e' ∧ (e' == e) = false ∧
        ∃ x y, e.calculate = .ok x ∧ e'.calculate = .ok y ∧ (x == y) = false := by
  have reads : ∃ e ∈ Expr.read? "0.1 + (0.2 + 0.3)".toList, e.isFinite = true ∧
      ∃ e' ∈ Expr.read? e.text.toList, (e' == e) = false ∧
        ∃ x ∈ e.calculate.toOption, ∃ y ∈ e'.calculate.toOption, (x == y) = false := by
    decide +kernel
  obtain ⟨e, read, finite, e', again, other, x, value, y, value', differ⟩ := reads
  exact ⟨e, e', read, finite, again, other, x, y, eq_ok_of_toOption value,
    eq_ok_of_toOption value', differ⟩

end Expr

end DiceFormula
