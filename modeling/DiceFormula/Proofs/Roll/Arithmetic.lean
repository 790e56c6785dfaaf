/-
# DiceFormula.Proofs.Roll.Arithmetic -- arithmetic expressions as formulas

A text that is an arithmetic expression is also a formula, and has the same value
as one (`evaluate_roll`).  The two are read in different ways: the grammar of
expressions takes tokens from the left, whereas a formula is cut at its groups and
then at its operators.

The induction is on the grammar.  A part of an expression is `Cut` into links, and
each operator of the grammar is a barrier between the links on either side.  What is
inside parentheses `Comes` to a value as a formula of its own.
-/
import DiceFormula.Proofs.Arithmetic.Functions
import DiceFormula.Proofs.Roll.Operands

namespace DiceFormula

set_option autoImplicit false

open Arithmetic Double

/-! ## Links -/

/-- The text of marks is a tree with known links. -/
structure Cuts (depth : Nat) (ms : List Spaced) (m : Matched) (ls : List Link) : Prop where
  text : m.text = Spaced.textAll ms
  guarded : m.Guarded
  links : Formula.links? (Formula.reader depth) m.text = some ls

namespace Cuts

variable {depth : Nat}

theorem nothing : Cuts depth [] .nil [] := ⟨rfl, trivial, Formula.links?_nothing _⟩

/-- White space, as a tree. -/
theorem guarded_ofBlank {gap : List Char} (blank : Text.allBlank gap = true) :
    (Matched.ofBlank gap blank).Guarded :=
  Matched.guarded_ofPlain _ fun mem => by
    cases List.all_eq_true.1 blank ',' mem

/-- An operator is a barrier. -/
theorem operator {between : Spaced} {op : Operator} (sign : between.mark = .operator op)
    {ms ms' : List Spaced} {m m' : Matched} {ls ls' : List Link} (left : Cuts depth ms m ls)
    (right : Cuts depth ms' m' ls') :
    ∃ m'', Cuts depth (ms ++ between :: ms') m'' (ls ++ .operator op :: ls') := by
  obtain ⟨gap, blank, mark⟩ := between
  obtain rfl : mark = .operator op := sign
  have comma : op.symbol ≠ ',' := by cases op <;> decide
  have text : (m.append (.ofBlank gap blank)).text = m.text ++ gap := by
    rw [Matched.text_append, Matched.ofBlank, Matched.text_ofPlain]
  have whole : ((m.append (.ofBlank gap blank)).append ((Term.symbol op).append m')).text =
      (m.append (.ofBlank gap blank)).text ++ op.symbol :: m'.text := by
    rw [Matched.text_append, Matched.text_append (Term.symbol op)]
    rfl
  refine ⟨(m.append (.ofBlank gap blank)).append ((Term.symbol op).append m'), ?_, ?_, ?_⟩
  · rw [whole, text, left.text, right.text, Spaced.textAll_append, Spaced.textAll_cons]
    simp [Mark.text]
  · exact Matched.guarded_append (Matched.guarded_append left.guarded (guarded_ofBlank blank))
      ⟨comma, right.guarded⟩
  · rw [whole, Formula.links?_operator, text, Formula.links?_append_blank _ m blank, left.links,
      right.links]
    rfl

/-- A number is an operand. -/
theorem number {m : Spaced} {n : Numeral} (digits : m.mark = .number n) :
    ∃ m', Cuts depth [m] m' [.operand n.text] := by
  obtain ⟨gap, blank, mark⟩ := m
  obtain rfl : mark = .number n := digits
  have body := isBody_numeral n
  have text : (bodyMatched body none forall_none).text = n.text := by
    rw [text_bodyMatched, flavorChars, Term.flavorText, String.toList_empty, List.append_nil]
  have whole : ((Matched.ofBlank gap blank).append (bodyMatched body none forall_none)).text =
      gap ++ n.text := by
    rw [Matched.text_append, Matched.ofBlank, Matched.text_ofPlain, text]
  refine ⟨_, whole.trans ?_, Matched.guarded_append (guarded_ofBlank blank)
    (guarded_bodyMatched body none forall_none), ?_⟩
  · rw [Spaced.textAll_cons]
    exact (List.append_nil _).symm
  · have operand := ofText_body body n.text_ne_nil none forall_none
    rw [flavorChars, Term.flavorText, String.toList_empty, List.append_nil] at operand
    rw [whole, Formula.links?_blank_append _ blank, ← text,
      Formula.links?_bare _ (bare_bodyMatched body none forall_none), text, operand]

/-- A group or a call is a term. -/
theorem round {m close : Spaced} {word : List Char} (opens : m.mark.text = word ++ ['('])
    (closes : close.mark = .closing) (plain : ∀ c ∈ word, isBracket c = false)
    (commas : ',' ∉ word) {ms : List Spaced} {inner : Matched}
    (text : inner.text = Spaced.textAll ms ++ close.gap)
    (visible : Text.allBlank inner.text = false) {t : Term} (unflavored : t.withFlavor none = t)
    (found : Group.roundTerm (Formula.reader depth) word 0 inner.text = .ok ([], t)) :
    ∃ m', Cuts depth (m :: ms ++ [close]) m' [.term t] := by
  obtain ⟨gap, blank, mark⟩ := m
  have links := Formula.links?_round (Formula.reader depth) visible none forall_none plain unflavored found
  rw [unflavored, Term.flavorText, String.toList_empty] at links
  have whole : ((Matched.ofBlank gap blank).append
      ((Matched.ofPlain word plain).append (.group .round inner .nil))).text =
      gap ++ (word ++ '(' :: inner.text ++ [')']) := by
    rw [Matched.text_append, Matched.text_append, Matched.ofBlank, Matched.text_ofPlain,
      Matched.text_ofPlain]
    simp [Matched.text, Bracket.opening, Bracket.closing]
  refine ⟨_, whole.trans ?_, Matched.guarded_append (guarded_ofBlank blank)
    (Matched.guarded_append (Matched.guarded_ofPlain plain commas) trivial), ?_⟩
  · have opens : mark.text = word ++ ['('] := opens
    rw [Spaced.textAll_append, Spaced.textAll_cons, Spaced.textAll_cons, opens, closes, text]
    simp [Mark.text, Spaced.textAll]
  · rw [whole, Formula.links?_blank_append _ blank, links]

end Cuts

/-! ## Formulas inside parentheses -/

/-- A text is read as a formula, and this is evaluated to a value without dice. -/
structure Comes (depth : Nat) (v : Float) (m : Matched) (ts : List Term) : Prop where
  guarded : m.Guarded
  visible : Text.allBlank m.text = false
  reads : Formula.reads? depth m.text = some ts
  evaluates : ∃ rs w, Evaluation.evaluate ts = pure (rs, w) ∧ w.isFinite = true ∧ Alike v w

theorem visible_mark (m : Mark) : Text.allBlank m.text = false := by
  cases m with
  | number n =>
      have visible := visible_body (isBody_numeral n) n.text_ne_nil []
      rwa [List.append_nil] at visible
  | call f =>
      rw [Mark.text, Text.allBlank_append]
      exact Bool.and_false _
  | operator op => cases op <;> rfl
  | _ => rfl

theorem visible_textAll {ms : List Spaced} (nonempty : ms ≠ []) :
    Text.allBlank (Spaced.textAll ms) = false := by
  obtain ⟨m, ms, rfl⟩ := List.exists_cons_of_ne_nil nonempty
  rw [Spaced.textAll_cons, Text.allBlank_append, Text.allBlank_append, visible_mark, Bool.and_false,
    Bool.false_and]

theorem ne_nil_of_reads {part : Part} {ms : List Spaced} {es : List Expr}
    (reads : Reads part ms es) : ms ≠ [] := by
  induction reads with
  | unsigned _ ih | factor _ ih | summand _ ih | argument _ ih => exact ih
  | _ => simp

/-! ## Parts of expressions -/

/-- Signs and an atom are an operand of a formula. -/
def OperandComes (ms : List Spaced) (e : Expr) : Prop :=
  ∀ v, e.calculate = .ok v → ∀ depth, (Spaced.textAll ms).length ≤ depth →
    ∃ m r, Cuts depth ms m (Reading.links r) ∧ Alike v r.operand.total ∧
      (Link.Detached r.links ∨ ∃ n finite, r = .number n finite)

/-- Operands with operators between them come to a value. -/
def ChainComes (belongs : Operator → Bool) (ms : List Spaced) (e : Expr) : Prop :=
  ∀ v, e.calculate = .ok v → ∀ depth, (Spaced.textAll ms).length ≤ depth →
    ∃ m first rest x, Cuts depth ms m (Reading.linksAll first rest) ∧
      (∀ link ∈ rest, belongs link.1 = true) ∧
      direct none first.operand.total (Reading.totals rest) = some x ∧ Alike v x

/-- Each argument comes to its value.  White space may follow the last. -/
def ArgumentsCome (ms : List Spaced) (es : List Expr) : Prop :=
  ∀ vs, Expr.calculateAll es = .ok vs → ∀ depth gap, Text.allBlank gap = true →
    (Spaced.textAll ms ++ gap).length < depth →
      ∃ args : List (Matched × List Term), args ≠ [] ∧
        [','].intercalate (args.map (·.1.text)) = Spaced.textAll ms ++ gap ∧
        List.Forall₂ (fun v arg => Comes depth v arg.1 arg.2) vs args

theorem finite_ok {x v : Float} {written : String} (ok : finite x written = .ok v) :
    v = x ∧ x.isFinite = true := by
  unfold finite at ok
  split at ok
  · rename_i isFinite
    cases ok
    exact ⟨rfl, isFinite⟩
  · cases ok

theorem calculate_negate {e : Expr} {v : Float} (ok : (Expr.negate e).calculate = .ok v) :
    ∃ x, e.calculate = .ok x ∧ v = -x ∧ (-x).isFinite = true := by
  rw [Expr.calculate] at ok
  cases value : e.calculate with
  | error c =>
      rw [value] at ok
      cases ok
  | ok x =>
      rw [value] at ok
      exact ⟨x, rfl, finite_ok ok⟩

theorem calculate_binary {op : Operator} {a b : Expr} {v : Float}
    (ok : (Expr.binary op a b).calculate = .ok v) :
    ∃ x y, a.calculate = .ok x ∧ b.calculate = .ok y ∧ v = op.apply x y ∧
      (op.apply x y).isFinite = true := by
  rw [Expr.calculate] at ok
  cases left : a.calculate with
  | error c =>
      rw [left] at ok
      cases ok
  | ok x =>
      rw [left] at ok
      cases right : b.calculate with
      | error c =>
          rw [right] at ok
          cases ok
      | ok y =>
          rw [right] at ok
          obtain ⟨value, finite⟩ := finite_ok ok
          exact ⟨x, y, rfl, rfl, value, finite⟩

theorem calculate_call {f : MathFunction} {es : List Expr} {v : Float}
    (ok : (Expr.call f es).calculate = .ok v) :
    ∃ xs, Expr.calculateAll es = .ok xs ∧ f.apply xs = .ok v := by
  rw [Expr.calculate] at ok
  cases args : Expr.calculateAll es with
  | error c =>
      rw [args] at ok
      cases ok
  | ok xs =>
      rw [args] at ok
      exact ⟨xs, rfl, ok⟩

theorem calculateAll_cons {e : Expr} {es : List Expr} {vs : List Float}
    (ok : Expr.calculateAll (e :: es) = .ok vs) :
    ∃ x xs, e.calculate = .ok x ∧ Expr.calculateAll es = .ok xs ∧ vs = x :: xs := by
  rw [Expr.calculateAll] at ok
  cases first : e.calculate with
  | error c =>
      rw [first] at ok
      cases ok
  | ok x =>
      rw [first] at ok
      cases others : Expr.calculateAll es with
      | error c =>
          rw [others] at ok
          cases ok
      | ok xs =>
          rw [others] at ok
          cases ok
          exact ⟨x, xs, rfl, rfl, rfl⟩

/-- Only finite values are passed on. -/
theorem calculate_finite {e : Expr} {v : Float} (ok : e.calculate = .ok v) : v.isFinite = true := by
  cases e with
  | number x =>
      rw [Expr.calculate] at ok
      obtain ⟨rfl, finite⟩ := finite_ok ok
      exact finite
  | negate e =>
      obtain ⟨x, -, rfl, finite⟩ := calculate_negate ok
      exact finite
  | binary op a b =>
      obtain ⟨x, y, -, -, rfl, finite⟩ := calculate_binary ok
      exact finite
  | call f es =>
      obtain ⟨xs, -, calls⟩ := calculate_call ok
      unfold MathFunction.apply at calls
      split at calls
      · obtain ⟨rfl, finite⟩ := finite_ok calls
        exact finite
      · cases calls

theorem calculateAll_finite {es : List Expr} {vs : List Float}
    (ok : Expr.calculateAll es = .ok vs) : ∀ v ∈ vs, v.isFinite = true := by
  induction es generalizing vs with
  | nil =>
      rw [Expr.calculateAll] at ok
      cases ok
      exact List.forall_mem_nil _
  | cons e es ih =>
      obtain ⟨x, xs, value, values, rfl⟩ := calculateAll_cons ok
      exact List.forall_mem_cons.2 ⟨calculate_finite value, ih values⟩

theorem linksAll_nil (r : Reading) : r.linksAll [] = r.links := List.append_nil _

theorem linksAll_append (first : Reading) (rest : List (Operator × Reading)) (op : Operator)
    (first' : Reading) (rest' : List (Operator × Reading)) :
    first.linksAll (rest ++ (op, first') :: rest') =
      first.linksAll rest ++ .operator op :: first'.linksAll rest' := by
  rw [Reading.linksAll, List.flatMap_append, List.flatMap_cons, Reading.linksAll, Reading.linksAll,
    List.append_assoc, List.cons_append]

namespace OperandComes

variable {m : Spaced} {ms ms' : List Spaced} {e : Expr}

theorem number {n : Numeral} (digits : m.mark = .number n) : OperandComes [m] (.number n.value) := by
  intro v ok depth within
  rw [Expr.calculate] at ok
  obtain ⟨rfl, finite⟩ := finite_ok ok
  obtain ⟨m', cuts⟩ := Cuts.number digits
  exact ⟨m', .number n finite, cuts, Alike.refl _, Or.inr ⟨n, finite, rfl⟩⟩

theorem plus (sign : m.mark = .operator .add) (operand : OperandComes ms e) :
    OperandComes (m :: ms) e := by
  intro v ok depth within
  have shorter : (Spaced.textAll ms).length ≤ depth := by
    rw [Spaced.textAll_cons, List.length_append] at within
    omega
  obtain ⟨m', r, cuts, alike, -⟩ := operand v ok depth shorter
  obtain ⟨m'', whole⟩ := Cuts.nothing.operator sign cuts
  exact ⟨m'', r.signed .add rfl (by simp), whole, alike, Or.inl (Link.detached_operator _ _)⟩

theorem minus (sign : m.mark = .operator .subtract) (operand : OperandComes ms e) :
    OperandComes (m :: ms) (.negate e) := by
  intro v ok depth within
  have shorter : (Spaced.textAll ms).length ≤ depth := by
    rw [Spaced.textAll_cons, List.length_append] at within
    omega
  obtain ⟨x, value, rfl, -⟩ := calculate_negate ok
  obtain ⟨m', r, cuts, alike, shape⟩ := operand x value depth shorter
  obtain ⟨m'', whole⟩ := Cuts.nothing.operator sign cuts
  rcases shape with detached | ⟨n, finite, rfl⟩
  · exact ⟨m'', r.signed .subtract rfl fun _ => detached, whole, alike.neg,
      Or.inl (Link.detached_operator _ _)⟩
  · exact ⟨m'', .negative n finite, whole, alike.neg, Or.inl (Link.detached_operator _ _)⟩

theorem chain (belongs : Operator → Bool) (operand : OperandComes ms e) :
    ChainComes belongs ms e := by
  intro v ok depth within
  obtain ⟨m, r, cuts, alike, -⟩ := operand v ok depth within
  refine ⟨m, r, [], _, ?_, List.forall_mem_nil _, rfl, alike⟩
  rw [linksAll_nil]
  exact cuts

end OperandComes

namespace ChainComes

variable {m : Spaced} {ms ms' : List Spaced} {op : Operator} {a b : Expr}

theorem widen {e : Expr} {belongs : Operator → Bool} (chain : ChainComes belongs ms e) :
    ChainComes (fun _ => true) ms e := by
  intro v ok depth within
  obtain ⟨m, first, rest, x, cuts, -, comes, alike⟩ := chain v ok depth within
  exact ⟨m, first, rest, x, cuts, fun _ _ => rfl, comes, alike⟩

theorem strong_totals {rest : List (Operator × Reading)}
    (strong : ∀ link ∈ rest, link.1.isMultiplicative = true) :
    ∀ link ∈ Reading.totals rest, link.1.isMultiplicative = true := by
  intro link mem
  obtain ⟨link', member, rfl⟩ := List.mem_map.1 mem
  exact strong link' member

/-- What operators make of values that are alike. -/
theorem combined {x x' y y' : Float} (left : Alike x x') (right : Alike y y')
    (finiteLeft : x.isFinite = true) (finiteRight : y.isFinite = true)
    (finite : (op.apply x y).isFinite = true) :
    finite? (op.apply x' y') = some (op.apply x' y') ∧
      Alike (op.apply x y) (op.apply x' y') := by
  have matching := Matching.apply op left right finiteLeft finiteRight
  have finite' : (op.apply x' y').isFinite = true := matching.isFinite ▸ finite
  exact ⟨if_pos finite', matching.alike finite⟩

theorem shorter_left {depth : Nat} (within : (Spaced.textAll (ms ++ m :: ms')).length ≤ depth) :
    (Spaced.textAll ms).length ≤ depth ∧ (Spaced.textAll ms').length ≤ depth := by
  rw [Spaced.textAll_append, Spaced.textAll_cons, List.length_append, List.length_append] at within
  omega

theorem product (between : m.mark = .operator op) (belongs : op.isMultiplicative = true)
    (left : ChainComes Operator.isMultiplicative ms a) (right : OperandComes ms' b) :
    ChainComes Operator.isMultiplicative (ms ++ m :: ms') (.binary op a b) := by
  intro v ok depth within
  obtain ⟨shorter, shorter'⟩ := shorter_left within
  obtain ⟨x, y, valueA, valueB, rfl, finite⟩ := calculate_binary ok
  obtain ⟨m', first, rest, x', cuts, strong, comes, alike⟩ := left x valueA depth shorter
  obtain ⟨m'', r, cuts', alike', -⟩ := right y valueB depth shorter'
  obtain ⟨whole, links⟩ := cuts.operator between cuts'
  obtain ⟨last, alike⟩ :=
    combined alike alike' (calculate_finite valueA) (calculate_finite valueB) finite
  refine ⟨whole, first, rest ++ [(op, r)], _, ?_, ?_, ?_, alike⟩
  · rw [linksAll_append, linksAll_nil]
    exact links
  · intro link mem
    rcases List.mem_append.1 mem with mem | mem
    · exact strong link mem
    · rw [List.mem_singleton.1 mem]
      exact belongs
  · rw [Reading.totals, List.map_append, ← Reading.totals, List.map_singleton,
      direct_strong _ (strong_totals strong) belongs, comes, Option.bind_some, last]

theorem sum (between : m.mark = .operator op) (belongs : op.isAdditive = true)
    (left : ChainComes (fun _ => true) ms a)
    (right : ChainComes Operator.isMultiplicative ms' b) :
    ChainComes (fun _ => true) (ms ++ m :: ms') (.binary op a b) := by
  intro v ok depth within
  obtain ⟨shorter, shorter'⟩ := shorter_left within
  obtain ⟨x, y, valueA, valueB, rfl, finite⟩ := calculate_binary ok
  obtain ⟨m', first, rest, x', cuts, -, comes, alike⟩ := left x valueA depth shorter
  obtain ⟨m'', first', rest', y', cuts', strong, comes', alike'⟩ := right y valueB depth shorter'
  obtain ⟨whole, links⟩ := cuts.operator between cuts'
  obtain ⟨last, alike⟩ :=
    combined alike alike' (calculate_finite valueA) (calculate_finite valueB) finite
  refine ⟨whole, first, rest ++ (op, first') :: rest', _, ?_, fun _ _ => rfl, ?_, alike⟩
  · rw [linksAll_append]
    exact links
  · rw [Reading.totals, List.map_append, ← Reading.totals, List.map_cons, ← Reading.totals,
      direct_weak _ _ _ belongs, comes, Option.bind_some, direct_held _ _ _ (strong_totals strong),
      comes', Option.bind_some, last]

/-- What stands in parentheses comes to a value by itself. -/
theorem comes {e : Expr} {belongs : Operator → Bool} (chain : ChainComes belongs ms e)
    (nonempty : ms ≠ []) {v : Float} (ok : e.calculate = .ok v) {gap : List Char}
    (blank : Text.allBlank gap = true) {depth : Nat}
    (within : (Spaced.textAll ms ++ gap).length < depth) :
    ∃ m ts, m.text = Spaced.textAll ms ++ gap ∧ Comes depth v m ts := by
  rw [List.length_append] at within
  cases depth with
  | zero => omega
  | succ depth =>
      obtain ⟨m, first, rest, x, cuts, -, comes, alike⟩ := chain v ok depth (by omega)
      have text : (m.append (.ofBlank gap blank)).text = m.text ++ gap := by
        rw [Matched.text_append, Matched.ofBlank, Matched.text_ofPlain]
      refine ⟨m.append (.ofBlank gap blank), Reading.terms Reading.settled (first.partsAll rest),
        by rw [text, cuts.text], Matched.guarded_append cuts.guarded (Cuts.guarded_ofBlank blank),
        ?_, ?_, ?_⟩
      · rw [text, cuts.text, Text.allBlank_append, visible_textAll nonempty, Bool.false_and]
      · rw [text, Formula.reads?_succ, Formula.links?_append_blank _ m blank, cuts.links,
          Option.bind_some, Reading.settle?_partsAll]
      · obtain ⟨rs, w, evaluates, finite, alike'⟩ := first.evaluate_terms rest comes
        exact ⟨rs, w, evaluates, finite, alike.trans alike'.symm⟩

end ChainComes

/-! ## Groups and calls -/

theorem resolve_group (inner : List Term) (flavor : Option String) :
    Evaluation.resolve (.group inner flavor) =
      Evaluation.evaluate inner >>= fun result => pure (.number result.2 flavor) := by
  rw [Evaluation.resolve, Evaluation.evaluate, bind_assoc]

theorem evaluateLists_cons (ts : List Term) (rest : List (List Term)) :
    Evaluation.evaluateLists (ts :: rest) = Evaluation.evaluate ts >>= fun result =>
      Evaluation.evaluateLists rest >>= fun results => pure (result :: results) := by
  rw [Evaluation.evaluateLists, Evaluation.evaluate, bind_assoc]

/-- Arguments are evaluated one after the other. -/
theorem evaluateLists_comes {depth : Nat} {vs : List Float} {args : List (Matched × List Term)}
    (comes : List.Forall₂ (fun v arg => Comes depth v arg.1 arg.2) vs args) :
    ∃ results, Evaluation.evaluateLists (args.map Prod.snd) = pure results ∧
      List.Forall₂ Alike vs (results.map Prod.snd) := by
  induction comes with
  | nil => exact ⟨[], by rw [List.map_nil, Evaluation.evaluateLists], .nil⟩
  | cons first others ih =>
      obtain ⟨rs, w, evaluates, -, alike⟩ := first.evaluates
      obtain ⟨results, behind, alikes⟩ := ih
      refine ⟨(rs, w) :: results, ?_, .cons alike alikes⟩
      rw [List.map_cons, evaluateLists_cons, evaluates, pure_bind, behind, pure_bind]

namespace OperandComes

variable {m close : Spaced} {ms : List Spaced}

theorem group {e : Expr} (opens : m.mark = .opening) (closes : close.mark = .closing)
    (nonempty : ms ≠ []) (inner : ChainComes (fun _ => true) ms e) :
    OperandComes (m :: ms ++ [close]) e := by
  intro v ok depth within
  have shorter : (Spaced.textAll ms ++ close.gap).length < depth := by
    rw [Spaced.textAll_append, Spaced.textAll_cons, Spaced.textAll_cons, opens, closes] at within
    simp only [List.length_append, Mark.text, List.length_cons] at within ⊢
    omega
  obtain ⟨m', ts, text, comes⟩ := inner.comes nonempty ok close.blank shorter
  obtain ⟨rs, w, evaluates, finite, alike⟩ := comes.evaluates
  have found : Group.roundTerm (Formula.reader depth) [] 0 m'.text = .ok ([], .group ts none) := by
    show (Formula.reader depth 0 m'.text).map _ = _
    rw [eq_ok_of_toOption comes.reads]
    rfl
  have resolves : Evaluation.resolve (.group ts none) = pure (.number w none) := by
    rw [resolve_group, evaluates, pure_bind]
  have opening : m.mark.text = [] ++ ['('] := by
    rw [opens]
    rfl
  obtain ⟨whole, cuts⟩ := Cuts.round opening closes (List.forall_mem_nil _) (List.not_mem_nil) text comes.visible
    rfl found
  exact ⟨whole, .nested _ w finite rfl resolves, cuts, alike,
    Or.inl (Link.detached_term _ _)⟩

theorem call {f : MathFunction} {es : List Expr} (name : m.mark = .call f)
    (closes : close.mark = .closing) (args : ArgumentsCome ms es) :
    OperandComes (m :: ms ++ [close]) (.call f es) := by
  intro v ok depth within
  have shorter : (Spaced.textAll ms ++ close.gap).length < depth := by
    rw [Spaced.textAll_append, Spaced.textAll_cons, Spaced.textAll_cons, name, closes] at within
    simp only [List.length_append, Mark.text, List.length_cons] at within ⊢
    omega
  obtain ⟨xs, values, calls⟩ := calculate_call ok
  obtain ⟨args, present, text, each⟩ := args xs values depth close.gap close.blank shorter
  obtain ⟨results, evaluates, alikes⟩ := evaluateLists_comes each
  have good : ∀ arg ∈ args, arg.1.Guarded ∧ Text.allBlank arg.1.text = false ∧
      Formula.reads? depth arg.1.text = some arg.2 := by
    intro arg mem
    obtain ⟨v, -, comes⟩ := forall₂_mem_right each mem
    exact ⟨comes.guarded, comes.visible, comes.reads⟩
  obtain ⟨inner, joined, visible, reads⟩ := Group.exists_arguments 0 present good
  have finite : ∀ x ∈ xs, x.isFinite = true := calculateAll_finite values
  obtain ⟨finite, w, calls', alike⟩ := MathFunction.apply_alike alikes finite calls
  have resolves : Evaluation.resolve (.call f (args.map Prod.snd) none) =
      pure (.number w none) := by
    rw [Evaluation.resolve, evaluates, pure_bind, calls']
    rfl
  obtain ⟨whole, cuts⟩ := Cuts.round (by rw [name, Mark.text]) closes f.isBracket_name
    f.comma_not_mem_name (joined.trans text) visible rfl (f.roundTerm_name reads)
  exact ⟨whole, .nested _ w (alike.isFinite ▸ finite) rfl resolves, cuts, alike,
    Or.inl (Link.detached_term _ _)⟩

end OperandComes

namespace ArgumentsCome

variable {m : Spaced} {ms ms' : List Spaced} {e : Expr} {es : List Expr}

theorem argument (nonempty : ms ≠ []) (chain : ChainComes (fun _ => true) ms e) :
    ArgumentsCome ms [e] := by
  intro vs ok depth gap blank within
  obtain ⟨x, xs, value, none, rfl⟩ := calculateAll_cons ok
  rw [Expr.calculateAll] at none
  cases none
  obtain ⟨m, ts, text, comes⟩ := chain.comes nonempty value blank within
  refine ⟨[(m, ts)], List.cons_ne_nil _ _, ?_, .cons comes .nil⟩
  rw [List.map_singleton, List.intercalate_singleton, text]

theorem arguments (between : m.mark = .comma) (nonempty : ms ≠ [])
    (first : ChainComes (fun _ => true) ms e) (others : ArgumentsCome ms' es) :
    ArgumentsCome (ms ++ m :: ms') (e :: es) := by
  intro vs ok depth gap blank within
  have text : Spaced.textAll (ms ++ m :: ms') ++ gap =
      (Spaced.textAll ms ++ m.gap) ++ ',' :: (Spaced.textAll ms' ++ gap) := by
    rw [Spaced.textAll_append, Spaced.textAll_cons, between]
    simp [Mark.text]
  rw [text, List.length_append, List.length_cons] at within
  have within' : (Spaced.textAll ms ++ m.gap).length < depth := by omega
  obtain ⟨x, xs, value, values, rfl⟩ := calculateAll_cons ok
  obtain ⟨m', ts, front, comes⟩ := first.comes nonempty value m.blank within'
  obtain ⟨args, present, behind, each⟩ := others xs values depth gap blank (by omega)
  refine ⟨(m', ts) :: args, List.cons_ne_nil _ _, ?_, .cons comes each⟩
  obtain ⟨arg, args, rfl⟩ := List.exists_cons_of_ne_nil present
  rw [List.map_cons] at behind
  rw [List.map_cons, List.map_cons, List.intercalate_cons_cons, behind, front, text,
    List.append_assoc]
  rfl

end ArgumentsCome

/-! ## Whole formulas -/

/-- What is said of a part of an expression. -/
def PartComes : Part → List Spaced → List Expr → Prop
  | .atom, ms, [e] | .signed, ms, [e] => OperandComes ms e
  | .product, ms, [e] => ChainComes Operator.isMultiplicative ms e
  | .sum, ms, [e] => ChainComes (fun _ => true) ms e
  | .arguments, ms, es => ArgumentsCome ms es
  | _, _, _ => True

/-- Every part of an expression is cut and evaluated as the expression is calculated. -/
theorem comes_of_reads {part : Part} {ms : List Spaced} {es : List Expr}
    (reads : Reads part ms es) : PartComes part ms es := by
  induction reads with
  | number digits => exact OperandComes.number digits
  | call name closes args ih => exact OperandComes.call name closes ih
  | group opens closes inner ih => exact OperandComes.group opens closes (ne_nil_of_reads inner) ih
  | unsigned atom ih => exact ih
  | plus sign signed ih => exact OperandComes.plus sign ih
  | minus sign signed ih => exact OperandComes.minus sign ih
  | factor signed ih => exact OperandComes.chain _ ih
  | product between belongs left right ihLeft ihRight =>
      exact ChainComes.product between belongs ihLeft ihRight
  | summand product ih => exact ChainComes.widen ih
  | sum between belongs left right ihLeft ihRight =>
      exact ChainComes.sum between belongs ihLeft ihRight
  | argument sum ih => exact ArgumentsCome.argument (ne_nil_of_reads sum) ih
  | arguments between first others ihFirst ihOthers =>
      exact ArgumentsCome.arguments between (ne_nil_of_reads first) ihFirst ihOthers

/-- **Arithmetic expressions are formulas with the same value.**  Such a formula is
read, and its roll is evaluated to an equal double without a die, whatever the roller. -/
theorem evaluate_roll {s : String} {v : Float} (ok : evaluate s = .ok v) :
    ∃ roll w, Roll.parse s = .ok roll ∧ (w == v) = true ∧
      ∀ roller, ∃ roll', roll.evaluate roller = (.ok w, roll', roller) ∧ roll'.dice = [] := by
  unfold evaluate at ok
  split at ok
  · rename_i e read
    obtain ⟨ms, gap, reads, blank, text⟩ := (read?_iff s.toList e).1 read
    have chain : ChainComes (fun _ => true) ms e := comes_of_reads reads
    have within : (Spaced.textAll ms ++ gap).length < s.toList.length + 1 := by
      rw [← text]
      exact Nat.lt_succ_self _
    obtain ⟨m, ts, whole, comes⟩ := chain.comes (ne_nil_of_reads reads) ok blank within
    obtain ⟨rs, w, evaluates, finite, alike⟩ := comes.evaluates
    have same : m.text = s.toList := whole.trans text.symm
    have visible := comes.visible
    have reads := comes.reads
    rw [same] at visible reads
    refine ⟨{ Roll.ofTerms ts with formula := s }, w, ?_,
      (beq_iff_alike finite v).2 alike.symm, fun roller => ?_⟩
    · rw [Roll.parse, visible, Formula.read_of_reads? reads]
      rfl
    · refine ⟨{ Roll.ofTerms ts with formula := s, terms := rs, total := some w, evaluated := true },
        ?_, rfl⟩
      have fresh : ({ Roll.ofTerms ts with formula := s } : Roll).evaluated = false := rfl
      have held : ({ Roll.ofTerms ts with formula := s } : Roll).terms = ts := rfl
      rw [Roll.evaluate, fresh, if_neg Bool.false_ne_true, held, evaluates]
      rfl
  · cases ok

/-- Signs, a call and a quotient in parentheses. -/
theorem evaluate_roll_nested :
    evaluate " - - 2 * (max(1, -0.5) / 4) - -(3)" = .ok 3.5 ∧
      ∃ roll w, Roll.parse " - - 2 * (max(1, -0.5) / 4) - -(3)" = .ok roll ∧ (w == 3.5) = true ∧
        ∀ roller, ∃ roll', roll.evaluate roller = (.ok w, roll', roller) ∧ roll'.dice = [] := by
  have value : evaluate " - - 2 * (max(1, -0.5) / 4) - -(3)" = .ok 3.5 :=
    eq_ok_of_toOption (by decide +kernel)
  exact ⟨value, evaluate_roll value⟩

end DiceFormula
