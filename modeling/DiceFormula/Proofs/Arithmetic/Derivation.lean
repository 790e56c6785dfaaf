/-
# DiceFormula.Proofs.Arithmetic.Derivation -- the grammar over characters

`Derives` is the grammar of expressions over the characters of a text, rule by
rule as it is written down:

    sum      := product (('+' | '-') product)*
    product  := unary (('*' | '/') unary)*
    unary    := ('+' | '-')* atom
    atom     := number | name '(' sum (',' sum)* ')' | '(' sum ')'

White space may stand between any two tokens but the name of a function and its
parenthesis.  A repetition carries the tree of what stands in front of it, so that
a chain of operators grows to the left.

A derivation is another way to write what `Reads` says of spaced marks: the
repetition is unrolled at its end in one (`Derives.sum_snoc`) and at its front in
the other (`marked_of_derives`).  `read?_iff_derives` says of whole texts that the
reader accepts what the grammar derives, and builds its tree.
-/
import DiceFormula.Proofs.Arithmetic.Grammar

namespace DiceFormula.Arithmetic

set_option autoImplicit false

/-! ## Derivations -/

/-- White space, or nothing. -/
abbrev Gap := { gap : List Char // Text.allBlank gap = true }

/-- A nonterminal.  The repetitions in a sum and in a product have their own, with
the tree of what stands in front. -/
inductive Nonterminal where
  | sum
  | summands (left : Expr)
  | product
  | factors (left : Expr)
  | unary
  | atom
  | arguments

/-- The texts of a nonterminal, from its first token to its last, with the
expressions that they are.  Arguments are several expressions, and anything else
is one. -/
inductive Derives : Nonterminal → List Char → List Expr → Prop
  | sum {first rest : List Char} {left e : Expr} (head : Derives .product first [left])
      (tail : Derives (.summands left) rest [e]) : Derives .sum (first ++ rest) [e]
  | noSummand {left : Expr} : Derives (.summands left) [] [left]
  | summand {op : Operator} {next rest : List Char} {left right e : Expr} (front behind : Gap)
      (belongs : op.isAdditive = true) (operand : Derives .product next [right])
      (tail : Derives (.summands (.binary op left right)) rest [e]) :
      Derives (.summands left) (front ++ op.symbol :: (behind ++ next) ++ rest) [e]
  | product {first rest : List Char} {left e : Expr} (head : Derives .unary first [left])
      (tail : Derives (.factors left) rest [e]) : Derives .product (first ++ rest) [e]
  | noFactor {left : Expr} : Derives (.factors left) [] [left]
  | factor {op : Operator} {next rest : List Char} {left right e : Expr} (front behind : Gap)
      (belongs : op.isMultiplicative = true) (operand : Derives .unary next [right])
      (tail : Derives (.factors (.binary op left right)) rest [e]) :
      Derives (.factors left) (front ++ op.symbol :: (behind ++ next) ++ rest) [e]
  | plus {s : List Char} {e : Expr} (behind : Gap) (operand : Derives .unary s [e]) :
      Derives .unary ('+' :: (behind ++ s)) [e]
  | minus {s : List Char} {e : Expr} (behind : Gap) (operand : Derives .unary s [e]) :
      Derives .unary ('-' :: (behind ++ s)) [.negate e]
  | unsigned {s : List Char} {e : Expr} (atom : Derives .atom s [e]) : Derives .unary s [e]
  | number (n : Numeral) : Derives .atom n.text [.number n.value]
  | call {s : List Char} {es : List Expr} (f : MathFunction) (front behind : Gap)
      (args : Derives .arguments s es) :
      Derives .atom (f.name.toList ++ '(' :: (front ++ s) ++ (behind ++ [')'])) [.call f es]
  | group {s : List Char} {e : Expr} (front behind : Gap) (inner : Derives .sum s [e]) :
      Derives .atom ('(' :: (front ++ s) ++ (behind ++ [')'])) [e]
  | lastArgument {s : List Char} {e : Expr} (sum : Derives .sum s [e]) : Derives .arguments s [e]
  | argument {s rest : List Char} {e : Expr} {es : List Expr} (front behind : Gap)
      (first : Derives .sum s [e]) (others : Derives .arguments rest es) :
      Derives .arguments (s ++ (front ++ ',' :: (behind ++ rest))) (e :: es)

namespace Derives

/-- A repetition in a sum has one more operand. -/
theorem summands_snoc {op : Operator} {s next : List Char} {left a b : Expr}
    (chain : Derives (.summands left) s [a]) (front behind : Gap) (belongs : op.isAdditive = true)
    (operand : Derives .product next [b]) :
    Derives (.summands left) (s ++ (front ++ op.symbol :: (behind ++ next))) [.binary op a b] := by
  generalize start : Nonterminal.summands left = nonterminal at chain
  generalize tree : [a] = es at chain
  induction chain generalizing left with
  | noSummand =>
      cases start
      cases tree
      have whole : Derives (.summands a) _ [.binary op a b] :=
        .summand front behind belongs operand .noSummand
      rwa [List.append_nil] at whole
  | summand front' behind' belongs' operand' _ _ ih =>
      cases start
      have whole := summand front' behind' belongs' operand' (ih rfl tree)
      simpa using whole
  | _ => cases start

theorem factors_snoc {op : Operator} {s next : List Char} {left a b : Expr}
    (chain : Derives (.factors left) s [a]) (front behind : Gap)
    (belongs : op.isMultiplicative = true) (operand : Derives .unary next [b]) :
    Derives (.factors left) (s ++ (front ++ op.symbol :: (behind ++ next))) [.binary op a b] := by
  generalize start : Nonterminal.factors left = nonterminal at chain
  generalize tree : [a] = es at chain
  induction chain generalizing left with
  | noFactor =>
      cases start
      cases tree
      have whole : Derives (.factors a) _ [.binary op a b] :=
        .factor front behind belongs operand .noFactor
      rwa [List.append_nil] at whole
  | factor front' behind' belongs' operand' _ _ ih =>
      cases start
      have whole := factor front' behind' belongs' operand' (ih rfl tree)
      simpa using whole
  | _ => cases start

theorem sum_snoc {op : Operator} {s next : List Char} {a b : Expr} (left : Derives .sum s [a])
    (front behind : Gap) (belongs : op.isAdditive = true) (right : Derives .product next [b]) :
    Derives .sum (s ++ (front ++ op.symbol :: (behind ++ next))) [.binary op a b] := by
  cases left with
  | sum head tail =>
      rw [List.append_assoc]
      exact sum head (tail.summands_snoc front behind belongs right)

theorem product_snoc {op : Operator} {s next : List Char} {a b : Expr}
    (left : Derives .product s [a]) (front behind : Gap) (belongs : op.isMultiplicative = true)
    (right : Derives .unary next [b]) :
    Derives .product (s ++ (front ++ op.symbol :: (behind ++ next))) [.binary op a b] := by
  cases left with
  | product head tail =>
      rw [List.append_assoc]
      exact product head (tail.factors_snoc front behind belongs right)

end Derives

/-! ## From marks to derivations -/

/-- The nonterminal for a part. -/
def Part.nonterminal : Part → Nonterminal
  | .atom => .atom
  | .signed => .unary
  | .product => .product
  | .sum => .sum
  | .arguments => .arguments

/-- Marks with a mark behind them, and marks behind that. -/
theorem textAll_link {m : Spaced} {ms ms' : List Spaced} {front behind : Gap} {s s' : List Char}
    (text : Spaced.textAll ms = front ++ s) (text' : Spaced.textAll ms' = behind ++ s') :
    Spaced.textAll (ms ++ m :: ms') = front ++ (s ++ (m.gap ++ (m.mark.text ++ (behind ++ s')))) := by
  rw [Spaced.textAll_append, Spaced.textAll_cons, text, text']
  simp only [List.append_assoc]

/-- Marks between two others. -/
theorem textAll_enclosed {m close : Spaced} {ms : List Spaced} {front : Gap} {s : List Char}
    (text : Spaced.textAll ms = front ++ s) :
    Spaced.textAll (m :: ms ++ [close]) =
      m.gap ++ (m.mark.text ++ (front ++ s) ++ (close.gap ++ close.mark.text)) := by
  rw [Spaced.textAll_append, Spaced.textAll_cons, Spaced.textAll_cons, text]
  simp [Spaced.textAll]

/-- **What the grammar reads from marks it derives from their text**, up to the
white space in front. -/
theorem derives_of_reads {part : Part} {ms : List Spaced} {es : List Expr}
    (reads : Reads part ms es) :
    ∃ (gap : Gap) (s : List Char), Derives part.nonterminal s es ∧
      Spaced.textAll ms = gap ++ s := by
  induction reads with
  | @number m n digits =>
      refine ⟨⟨m.gap, m.blank⟩, n.text, .number n, ?_⟩
      simp [Spaced.textAll, Spaced.text, digits, Mark.text]
  | @call m close f ms es name closes _ ih =>
      obtain ⟨front, s, derives, text⟩ := ih
      refine ⟨⟨m.gap, m.blank⟩, _, .call f front ⟨close.gap, close.blank⟩ derives, ?_⟩
      rw [textAll_enclosed text, name, closes]
      simp [Mark.text]
  | @group m close ms e opens closes _ ih =>
      obtain ⟨front, s, derives, text⟩ := ih
      refine ⟨⟨m.gap, m.blank⟩, _, .group front ⟨close.gap, close.blank⟩ derives, ?_⟩
      rw [textAll_enclosed text, opens, closes]
      rfl
  | unsigned _ ih =>
      obtain ⟨gap, s, derives, text⟩ := ih
      exact ⟨gap, s, .unsigned derives, text⟩
  | @plus m ms e sign _ ih =>
      obtain ⟨behind, s, derives, text⟩ := ih
      refine ⟨⟨m.gap, m.blank⟩, _, .plus behind derives, ?_⟩
      simp [Spaced.textAll_cons, sign, text, Mark.text, Operator.symbol]
  | @minus m ms e sign _ ih =>
      obtain ⟨behind, s, derives, text⟩ := ih
      refine ⟨⟨m.gap, m.blank⟩, _, .minus behind derives, ?_⟩
      simp [Spaced.textAll_cons, sign, text, Mark.text, Operator.symbol]
  | factor _ ih =>
      obtain ⟨gap, s, derives, text⟩ := ih
      refine ⟨gap, _, .product derives .noFactor, ?_⟩
      rw [List.append_nil, text]
  | @product m ms ms' op a b between belongs _ _ ihLeft ihRight =>
      obtain ⟨gap, s, left, text⟩ := ihLeft
      obtain ⟨behind, next, right, text'⟩ := ihRight
      refine ⟨gap, _, left.product_snoc ⟨m.gap, m.blank⟩ behind belongs right, ?_⟩
      rw [textAll_link text text', between]
      rfl
  | summand _ ih =>
      obtain ⟨gap, s, derives, text⟩ := ih
      refine ⟨gap, _, .sum derives .noSummand, ?_⟩
      rw [List.append_nil, text]
  | @sum m ms ms' op a b between belongs _ _ ihLeft ihRight =>
      obtain ⟨gap, s, left, text⟩ := ihLeft
      obtain ⟨behind, next, right, text'⟩ := ihRight
      refine ⟨gap, _, left.sum_snoc ⟨m.gap, m.blank⟩ behind belongs right, ?_⟩
      rw [textAll_link text text', between]
      rfl
  | argument _ ih =>
      obtain ⟨gap, s, derives, text⟩ := ih
      exact ⟨gap, s, .lastArgument derives, text⟩
  | @arguments m ms ms' e es between _ _ ihFirst ihOthers =>
      obtain ⟨gap, s, first, text⟩ := ihFirst
      obtain ⟨behind, rest, others, text'⟩ := ihOthers
      refine ⟨gap, _, .argument ⟨m.gap, m.blank⟩ behind first others, ?_⟩
      rw [textAll_link text text', between]
      rfl

/-! ## From derivations to marks -/

/-- Behind any white space a text is the marks of a part. -/
def Begins (part : Part) (s : List Char) (es : List Expr) : Prop :=
  ∀ gap : Gap, ∃ ms, Reads part ms es ∧ Spaced.textAll ms = gap ++ s

/-- Behind marks of a part that are one expression a text makes the part be others. -/
def Continues (part : Part) (left : Expr) (s : List Char) (es : List Expr) : Prop :=
  ∀ ms, Reads part ms [left] → ∃ more, Reads part (ms ++ more) es ∧ Spaced.textAll more = s

/-- What the text of a nonterminal is in marks. -/
def Marked : Nonterminal → List Char → List Expr → Prop
  | .sum => Begins .sum
  | .summands left => Continues .sum left
  | .product => Begins .product
  | .factors left => Continues .product left
  | .unary => Begins .signed
  | .atom => Begins .atom
  | .arguments => Begins .arguments

/-- The first operand of a chain and the rest of it. -/
theorem Begins.chain {part chained : Part} {first rest : List Char} {left e : Expr}
    (start : ∀ {ms : List Spaced}, Reads part ms [left] → Reads chained ms [left])
    (head : Begins part first [left]) (tail : Continues chained left rest [e]) :
    Begins chained (first ++ rest) [e] := by
  intro gap
  obtain ⟨ms, reads, text⟩ := head gap
  obtain ⟨more, whole, text'⟩ := tail ms (start reads)
  refine ⟨ms ++ more, whole, ?_⟩
  rw [Spaced.textAll_append, text, text', List.append_assoc]

/-- An operator, its operand and the rest of a chain. -/
theorem Continues.link {part chained : Part} {op : Operator} {next rest : List Char}
    {left right e : Expr} (front behind : Gap)
    (link : ∀ {m : Spaced} {ms ms' : List Spaced}, m.mark = .operator op →
      Reads chained ms [left] → Reads part ms' [right] →
        Reads chained (ms ++ m :: ms') [.binary op left right])
    (operand : Begins part next [right]) (tail : Continues chained (.binary op left right) rest [e]) :
    Continues chained left (front ++ op.symbol :: (behind ++ next) ++ rest) [e] := by
  intro ms reads
  obtain ⟨ms', reads', text⟩ := operand behind
  let m : Spaced := ⟨front, front.property, .operator op⟩
  obtain ⟨more, whole, text'⟩ := tail _ (link (m := m) rfl reads reads')
  refine ⟨m :: ms' ++ more, by simpa using whole, ?_⟩
  rw [Spaced.textAll_append, Spaced.textAll_cons, text, text']
  simp [m, Mark.text]

/-- A text between two marks. -/
theorem Begins.enclosed {part : Part} {s : List Char} {es : List Expr} {e : Expr} (beginning : Mark)
    (front behind : Gap)
    (enclose : ∀ {m close : Spaced} {ms : List Spaced}, m.mark = beginning → close.mark = .closing →
      Reads part ms es → Reads .atom (m :: ms ++ [close]) [e])
    (inner : Begins part s es) :
    Begins .atom (beginning.text ++ (front ++ s) ++ (behind ++ [')'])) [e] := by
  intro gap
  obtain ⟨ms, reads, text⟩ := inner front
  let m : Spaced := ⟨gap, gap.property, beginning⟩
  let close : Spaced := ⟨behind, behind.property, .closing⟩
  have whole : Reads .atom (m :: ms ++ [close]) [e] := enclose rfl rfl reads
  refine ⟨_, whole, ?_⟩
  rw [textAll_enclosed text]
  rfl

/-- A sign in front of a text. -/
theorem Begins.signed {op : Operator} {s : List Char} {e e' : Expr} (behind : Gap)
    (sign : ∀ {m : Spaced} {ms : List Spaced}, m.mark = .operator op → Reads .signed ms [e] →
      Reads .signed (m :: ms) [e'])
    (operand : Begins .signed s [e]) : Begins .signed (op.symbol :: (behind ++ s)) [e'] := by
  intro gap
  obtain ⟨ms, reads, text⟩ := operand behind
  refine ⟨_, sign (m := ⟨gap, gap.property, .operator op⟩) rfl reads, ?_⟩
  rw [Spaced.textAll_cons, text]
  simp [Mark.text]

/-- **What the grammar derives from a text it reads from marks**, with any white
space in front. -/
theorem marked_of_derives {nonterminal : Nonterminal} {s : List Char} {es : List Expr}
    (derives : Derives nonterminal s es) : Marked nonterminal s es := by
  induction derives with
  | sum _ _ ihHead ihTail => exact ihHead.chain .summand ihTail
  | noSummand => exact fun ms reads => ⟨[], by rwa [List.append_nil], rfl⟩
  | summand front behind belongs _ _ ihOperand ihTail =>
      exact Continues.link front behind (fun between => .sum between belongs) ihOperand ihTail
  | product _ _ ihHead ihTail => exact ihHead.chain .factor ihTail
  | noFactor => exact fun ms reads => ⟨[], by rwa [List.append_nil], rfl⟩
  | factor front behind belongs _ _ ihOperand ihTail =>
      exact Continues.link front behind (fun between => .product between belongs) ihOperand ihTail
  | plus behind _ ih => exact Begins.signed behind .plus ih
  | minus behind _ ih => exact Begins.signed behind .minus ih
  | unsigned _ ih =>
      intro gap
      obtain ⟨ms, reads, text⟩ := ih gap
      exact ⟨ms, .unsigned reads, text⟩
  | number n =>
      intro gap
      refine ⟨[⟨gap, gap.property, .number n⟩], .number rfl, ?_⟩
      simp [Spaced.textAll, Spaced.text, Mark.text]
  | call f front behind _ ih =>
      have call := Begins.enclosed (.call f) front behind .call ih
      rw [Mark.text, List.append_assoc f.name.toList] at call
      exact call
  | group front behind _ ih => exact Begins.enclosed .opening front behind .group ih
  | lastArgument _ ih =>
      intro gap
      obtain ⟨ms, reads, text⟩ := ih gap
      exact ⟨ms, .argument reads, text⟩
  | argument front behind _ _ ihFirst ihOthers =>
      intro gap
      obtain ⟨ms, first, text⟩ := ihFirst gap
      obtain ⟨ms', others, text'⟩ := ihOthers behind
      refine ⟨_, .arguments (m := ⟨front, front.property, .comma⟩) rfl first others, ?_⟩
      rw [textAll_link text text']
      rfl

/-! ## Texts -/

/-- A derived text is read, with any white space around it. -/
theorem read?_of_derives {s : List Char} {e : Expr} (derives : Derives .sum s [e])
    (front behind : Gap) : Expr.read? (front ++ s ++ behind) = some e := by
  obtain ⟨ms, reads, text⟩ := marked_of_derives derives front
  exact (read?_iff _ _).2 ⟨ms, behind, reads, behind.property, by rw [text]⟩

/-- A text has one tree only. -/
theorem Derives.sum_unique {s : List Char} {e e' : Expr} (derives : Derives .sum s [e])
    (derives' : Derives .sum s [e']) : e = e' := by
  have read := read?_of_derives derives ⟨[], rfl⟩ ⟨[], rfl⟩
  rw [read?_of_derives derives' ⟨[], rfl⟩ ⟨[], rfl⟩] at read
  exact (Option.some.inj read).symm

/-- What is read is derived. -/
theorem derives_of_read? {s : List Char} {e : Expr} (read : Expr.read? s = some e) :
    ∃ (front behind : Gap) (text : List Char),
      Derives .sum text [e] ∧ s = front ++ text ++ behind := by
  obtain ⟨ms, behind, reads, blank, rfl⟩ := (read?_iff s e).1 read
  obtain ⟨front, text, derives, same⟩ := derives_of_reads reads
  exact ⟨front, ⟨behind, blank⟩, text, derives, by rw [same]⟩

/-- **The reader accepts what the grammar derives, and nothing else**: a text is
read as an expression if and only if, without the white space around it, it is
derived as a sum that has this tree. -/
theorem read?_iff_derives (s : List Char) (e : Expr) :
    Expr.read? s = some e ↔ ∃ (front behind : Gap) (text : List Char),
      Derives .sum text [e] ∧ s = front ++ text ++ behind := by
  constructor
  · exact derives_of_read?
  · rintro ⟨front, behind, text, derives, rfl⟩
    exact read?_of_derives derives front behind

end DiceFormula.Arithmetic
