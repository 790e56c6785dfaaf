/-
# DiceFormula.Proofs.Arithmetic.Grammar -- what the reader of expressions reads

`Reads` is the grammar of expressions as a relation between spaced marks and the
expressions that they are.  Chains of operators grow to the right, so that they
are read from the left.

The reader is sound (`sum_sound`): what it reads the grammar derives.  It is
complete (`sum_complete`): what the grammar derives it reads, up to where
something else follows.  `read?_iff` says both of whole texts.
-/
import DiceFormula.Proofs.Arithmetic.Tokens

namespace DiceFormula.Arithmetic

set_option autoImplicit false

/-- A part of the grammar. -/
inductive Part where
  | atom
  | signed
  | product
  | sum
  | arguments

/-- Marks that are a part of an expression.  Arguments are several expressions,
and any other part is one. -/
inductive Reads : Part → List Spaced → List Expr → Prop
  | number {m : Spaced} {n : Numeral} (digits : m.mark = .number n) :
      Reads .atom [m] [.number n.value]
  | call {m close : Spaced} {f : MathFunction} {ms : List Spaced} {es : List Expr}
      (name : m.mark = .call f) (closes : close.mark = .closing) (args : Reads .arguments ms es) :
      Reads .atom (m :: ms ++ [close]) [.call f es]
  | group {m close : Spaced} {ms : List Spaced} {e : Expr} (opens : m.mark = .opening)
      (closes : close.mark = .closing) (inner : Reads .sum ms [e]) :
      Reads .atom (m :: ms ++ [close]) [e]
  | unsigned {ms : List Spaced} {e : Expr} (atom : Reads .atom ms [e]) : Reads .signed ms [e]
  | plus {m : Spaced} {ms : List Spaced} {e : Expr} (sign : m.mark = .operator .add)
      (signed : Reads .signed ms [e]) : Reads .signed (m :: ms) [e]
  | minus {m : Spaced} {ms : List Spaced} {e : Expr} (sign : m.mark = .operator .subtract)
      (signed : Reads .signed ms [e]) : Reads .signed (m :: ms) [.negate e]
  | factor {ms : List Spaced} {e : Expr} (signed : Reads .signed ms [e]) : Reads .product ms [e]
  | product {m : Spaced} {ms ms' : List Spaced} {op : Operator} {a b : Expr}
      (between : m.mark = .operator op) (belongs : op.isMultiplicative = true)
      (left : Reads .product ms [a]) (right : Reads .signed ms' [b]) :
      Reads .product (ms ++ m :: ms') [.binary op a b]
  | summand {ms : List Spaced} {e : Expr} (product : Reads .product ms [e]) : Reads .sum ms [e]
  | sum {m : Spaced} {ms ms' : List Spaced} {op : Operator} {a b : Expr}
      (between : m.mark = .operator op) (belongs : op.isAdditive = true)
      (left : Reads .sum ms [a]) (right : Reads .product ms' [b]) :
      Reads .sum (ms ++ m :: ms') [.binary op a b]
  | argument {ms : List Spaced} {e : Expr} (sum : Reads .sum ms [e]) : Reads .arguments ms [e]
  | arguments {m : Spaced} {ms ms' : List Spaced} {e : Expr} {es : List Expr}
      (between : m.mark = .comma) (first : Reads .sum ms [e]) (others : Reads .arguments ms' es) :
      Reads .arguments (ms ++ m :: ms') (e :: es)

/-! ## Soundness -/

/-- Whatever a step reads from the tokens of marks is a part of the grammar. -/
def Sound (part : Part) (step : Step) : Prop :=
  ∀ {ms : List Spaced} {e : Expr} {rest : List Token},
    step (ms.map Spaced.token) = some (e, rest) →
      ∃ used left, ms = used ++ left ∧ rest = left.map Spaced.token ∧ Reads part used [e]

/-- All marks but numbers are known by their tokens. -/
theorem mark_of_token {m : Spaced} {k : Mark} (other : k.isNumber = false)
    (token : m.token = k.token) : m.mark = k := by
  unfold Spaced.token at token
  cases k with
  | number n => cases other
  | _ =>
      cases h : m.mark <;> rw [h] at token <;> cases token
      all_goals rfl

theorem mark_of_number {m : Spaced} {x : Float} (token : m.token = .number x) :
    ∃ n : Numeral, m.mark = .number n ∧ n.value = x := by
  unfold Spaced.token at token
  cases h : m.mark <;> rw [h] at token <;> cases token
  exact ⟨_, rfl, rfl⟩

theorem signed_sound {step : Step} (sound : Sound .atom step) : Sound .signed (signed step) := by
  intro ms
  induction ms with
  | nil =>
      intro e rest read
      obtain ⟨used, left, split, tokens, reads⟩ := @sound [] _ _ read
      exact ⟨used, left, split, tokens, .unsigned reads⟩
  | cons m ms ih =>
      intro e rest read
      rw [List.map_cons] at read
      unfold signed at read
      split at read
      · rename_i ts split
        obtain ⟨token, rfl⟩ := List.cons_eq_cons.1 split
        obtain ⟨used, left, rfl, tokens, reads⟩ := ih read
        exact ⟨m :: used, left, rfl, tokens, .plus (mark_of_token (k := .operator .add) rfl token) reads⟩
      · rename_i ts split
        obtain ⟨token, rfl⟩ := List.cons_eq_cons.1 split
        obtain ⟨⟨e', rest'⟩, inner, same⟩ := Option.map_eq_some_iff.1 read
        cases same
        obtain ⟨used, left, rfl, tokens, reads⟩ := ih inner
        exact ⟨m :: used, left, rfl, tokens,
          .minus (mark_of_token (k := .operator .subtract) rfl token) reads⟩
      · rename_i ts notPlus notMinus
        rw [← List.map_cons] at read
        obtain ⟨used, left, split, tokens, reads⟩ := sound read
        exact ⟨used, left, split, tokens, .unsigned reads⟩

/-- A step of a chain takes an operator that belongs to it and an operand. -/
theorem chainTail_sound {belongs : Operator → Bool} {operand : Step} {chained part : Part}
    (sound : Sound part operand)
    (link : ∀ {m : Spaced} {ms ms' : List Spaced} {op : Operator} {a b : Expr},
      m.mark = .operator op → belongs op = true → Reads chained ms [a] → Reads part ms' [b] →
        Reads chained (ms ++ m :: ms') [.binary op a b])
    {n : Nat} {left e : Expr} {before ms : List Spaced} {rest : List Token}
    (front : Reads chained before [left])
    (read : chainTail belongs operand n left (ms.map Spaced.token) = some (e, rest)) :
    ∃ used behind, ms = used ++ behind ∧ rest = behind.map Spaced.token ∧
      Reads chained (before ++ used) [e] := by
  induction n generalizing left before ms with
  | zero =>
      unfold chainTail at read
      cases read
      exact ⟨[], ms, rfl, rfl, by rwa [List.append_nil]⟩
  | succ n ih =>
      have stay : some (left, ms.map Spaced.token) = some (e, rest) →
          ∃ used behind, ms = used ++ behind ∧ rest = behind.map Spaced.token ∧
            Reads chained (before ++ used) [e] := by
        intro same
        cases same
        exact ⟨[], ms, rfl, rfl, by rwa [List.append_nil]⟩
      cases ms with
      | nil => exact stay read
      | cons m ms =>
          rw [List.map_cons] at read stay
          cases token : m.token with
          | operator op =>
              rw [token, chainTail] at read
              split at read
              · rename_i mine
                split at read
                · cases read
                · rename_i right ts found
                  obtain ⟨used, behind, rfl, rfl, reads⟩ := sound found
                  have mark := mark_of_token (k := .operator op) rfl token
                  obtain ⟨more, last, rfl, tokens, whole⟩ := ih (link mark mine front reads) read
                  exact ⟨m :: used ++ more, last, by simp, tokens, by simpa using whole⟩
              · rw [← token] at read
                exact stay read
          | _ =>
              rw [token] at stay read
              exact stay read

theorem chain_sound {belongs : Operator → Bool} {operand : Step} {chained part : Part}
    (sound : Sound part operand)
    (start : ∀ {ms : List Spaced} {e : Expr}, Reads part ms [e] → Reads chained ms [e])
    (link : ∀ {m : Spaced} {ms ms' : List Spaced} {op : Operator} {a b : Expr},
      m.mark = .operator op → belongs op = true → Reads chained ms [a] → Reads part ms' [b] →
        Reads chained (ms ++ m :: ms') [.binary op a b]) :
    Sound chained (chain belongs operand) := by
  intro ms e rest read
  unfold chain at read
  split at read
  · cases read
  · rename_i left ts found
    obtain ⟨used, behind, rfl, rfl, reads⟩ := sound found
    obtain ⟨more, last, rfl, tokens, whole⟩ := chainTail_sound sound link (start reads) read
    exact ⟨used ++ more, last, by simp, tokens, whole⟩

theorem arguments_sound {step : Step} (sound : Sound .sum step) {n : Nat} {ms : List Spaced}
    {es : List Expr} {rest : List Token}
    (read : arguments step n (ms.map Spaced.token) = some (es, rest)) :
    ∃ used close left, ms = used ++ close :: left ∧ rest = left.map Spaced.token ∧
      close.mark = .closing ∧ Reads .arguments used es := by
  induction n generalizing ms es rest with
  | zero => cases read
  | succ n ih =>
      unfold arguments at read
      split at read
      · rename_i e ts found
        obtain ⟨used, behind, rfl, tokens, reads⟩ := sound found
        cases behind with
        | nil => cases tokens
        | cons m behind =>
            obtain ⟨token, rfl⟩ := List.cons_eq_cons.1 tokens
            obtain ⟨⟨es', rest'⟩, inner, same⟩ := Option.map_eq_some_iff.1 read
            cases same
            obtain ⟨more, close, left, rfl, tokens, closes, others⟩ := ih inner
            exact ⟨used ++ m :: more, close, left, by simp, tokens, closes,
              .arguments (mark_of_token (k := .comma) rfl token.symm) reads others⟩
      · rename_i e ts found
        cases read
        obtain ⟨used, behind, rfl, tokens, reads⟩ := sound found
        cases behind with
        | nil => cases tokens
        | cons m behind =>
            obtain ⟨token, rfl⟩ := List.cons_eq_cons.1 tokens
            exact ⟨used, m, behind, rfl, rfl, mark_of_token (k := .closing) rfl token.symm,
              .argument reads⟩
      · cases read

theorem atom_sound {step : Step} (sound : Sound .sum step) : Sound .atom (atom step) := by
  intro ms e rest read
  unfold atom at read
  split at read
  · rename_i x ts split
    cases ms with
    | nil => cases split
    | cons m ms =>
        obtain ⟨token, rfl⟩ := List.cons_eq_cons.1 split
        cases read
        obtain ⟨n, digits, rfl⟩ := mark_of_number token
        exact ⟨[m], ms, rfl, rfl, .number digits⟩
  · rename_i f ts split
    cases ms with
    | nil => cases split
    | cons m ms =>
        obtain ⟨token, rfl⟩ := List.cons_eq_cons.1 split
        obtain ⟨⟨es, rest'⟩, inner, same⟩ := Option.map_eq_some_iff.1 read
        cases same
        obtain ⟨used, close, left, rfl, tokens, closes, args⟩ := arguments_sound sound inner
        exact ⟨m :: used ++ [close], left, by simp, tokens,
          .call (mark_of_token (k := .call f) rfl token) closes args⟩
  · rename_i ts split
    cases ms with
    | nil => cases split
    | cons m ms =>
        obtain ⟨token, rfl⟩ := List.cons_eq_cons.1 split
        split at read
        · rename_i e' ts' inner
          cases read
          obtain ⟨used, behind, rfl, tokens, reads⟩ := sound inner
          cases behind with
          | nil => cases tokens
          | cons close behind =>
              obtain ⟨closing, rfl⟩ := List.cons_eq_cons.1 tokens
              exact ⟨m :: used ++ [close], behind, by simp, rfl,
                .group (mark_of_token (k := .opening) rfl token)
                  (mark_of_token (k := .closing) rfl closing.symm) reads⟩
        · cases read
  · cases read

/-- **The reader reads nothing that the grammar does not derive.** -/
theorem sum_sound (depth : Nat) : Sound .sum (sum depth) := by
  induction depth with
  | zero =>
      intro ms e rest read
      cases read
  | succ depth ih =>
      exact chain_sound (chain_sound (signed_sound (atom_sound ih)) .factor .product) .summand .sum

/-! ## Completeness -/

/-- The tokens do not go on with an operator of a class. -/
def Follows (belongs : Operator → Bool) (rest : List Token) : Prop :=
  ∀ op, rest.head? = some (.operator op) → belongs op = false

theorem chainTail_stop {belongs : Operator → Bool} (operand : Step) {rest : List Token}
    (follows : Follows belongs rest) (n : Nat) (e : Expr) :
    chainTail belongs operand n e rest = some (e, rest) := by
  cases n with
  | zero => rfl
  | succ n =>
      cases rest with
      | nil => rfl
      | cons t rest =>
          cases t with
          | operator op =>
              rw [chainTail, follows op rfl]
              rfl
          | _ => rfl

/-- The step for an atom with parentheses nested less deep than a bound. -/
abbrev atomStep (depth : Nat) : Step := atom (sum depth)

abbrev productStep (depth : Nat) : Step :=
  chain Operator.isMultiplicative (signed (atomStep depth))

/-- What the reader makes of a part of the grammar.  A chain is read up to its
last operand, and goes on from there. -/
def Accepted : Part → List Spaced → List Expr → Prop
  | .atom, ms, [e] => ∀ depth rest, ms.length ≤ depth →
      atomStep depth (ms.map Spaced.token ++ rest) = some (e, rest)
  | .signed, ms, [e] => ∀ depth rest, ms.length ≤ depth →
      signed (atomStep depth) (ms.map Spaced.token ++ rest) = some (e, rest)
  | .product, ms, [e] => ∀ depth rest, ms.length ≤ depth → ∃ n, rest.length ≤ n ∧
      productStep depth (ms.map Spaced.token ++ rest) =
        chainTail Operator.isMultiplicative (signed (atomStep depth)) n e rest
  | .sum, ms, [e] => ∀ depth rest, ms.length ≤ depth → Follows Operator.isMultiplicative rest →
      ∃ n, rest.length ≤ n ∧ sum (depth + 1) (ms.map Spaced.token ++ rest) =
        chainTail Operator.isAdditive (productStep depth) n e rest
  | .arguments, ms, es => es.length ≤ ms.length + 1 ∧ ∀ depth n rest, ms.length ≤ depth →
      es.length ≤ n →
        arguments (sum (depth + 1)) n (ms.map Spaced.token ++ .closing :: rest) = some (es, rest)
  | _, _, _ => True

theorem follows_closing (belongs : Operator → Bool) (rest : List Token) :
    Follows belongs (.closing :: rest) := by
  intro op head
  cases head

theorem follows_comma (belongs : Operator → Bool) (rest : List Token) :
    Follows belongs (.comma :: rest) := by
  intro op head
  cases head

theorem Accepted.product_eq {ms : List Spaced} {e : Expr} (accepted : Accepted .product ms [e])
    (depth : Nat) (rest : List Token) (enough : ms.length ≤ depth)
    (follows : Follows Operator.isMultiplicative rest) :
    productStep depth (ms.map Spaced.token ++ rest) = some (e, rest) := by
  obtain ⟨n, -, read⟩ := accepted depth rest enough
  rw [read]
  exact chainTail_stop _ follows n e

/-- A sum is read to its end. -/
theorem Accepted.sum_eq {ms : List Spaced} {e : Expr} (accepted : Accepted .sum ms [e])
    (depth : Nat) (rest : List Token) (enough : ms.length ≤ depth)
    (follows : ∀ belongs, Follows belongs rest) :
    sum (depth + 1) (ms.map Spaced.token ++ rest) = some (e, rest) := by
  obtain ⟨n, -, read⟩ := accepted depth rest enough (follows _)
  rw [read]
  exact chainTail_stop _ (follows _) n e

theorem tokens_append (ms ms' : List Spaced) (m : Spaced) (rest : List Token) :
    (ms ++ m :: ms').map Spaced.token ++ rest =
      ms.map Spaced.token ++ m.token :: (ms'.map Spaced.token ++ rest) := by
  simp

theorem tokens_enclosed (ms : List Spaced) (m close : Spaced) (rest : List Token) :
    (m :: ms ++ [close]).map Spaced.token ++ rest =
      m.token :: (ms.map Spaced.token ++ close.token :: rest) := by
  simp

theorem token_of_mark {m : Spaced} {k : Mark} (mark : m.mark = k) : m.token = k.token := by
  rw [Spaced.token, mark]

/-- An atom starts with no operator. -/
theorem head_atom {ms : List Spaced} {e : Expr} (reads : Reads .atom ms [e]) :
    ∃ m rest, ms = m :: rest ∧ ∀ op, m.mark ≠ .operator op := by
  cases reads with
  | @number m n digits => exact ⟨m, [], rfl, fun op => by rw [digits]; exact Mark.noConfusion⟩
  | @call m close f ms es name => exact ⟨m, _, rfl, fun op => by rw [name]; exact Mark.noConfusion⟩
  | @group m close ms e opens => exact ⟨m, _, rfl, fun op => by rw [opens]; exact Mark.noConfusion⟩

theorem signed_of_other (step : Step) {m : Spaced} (other : ∀ op, m.mark ≠ .operator op)
    (rest : List Token) : signed step (m.token :: rest) = step (m.token :: rest) := by
  unfold Spaced.token
  cases h : m.mark with
  | operator op => exact absurd h (other op)
  | _ => rfl

theorem accepted_of_reads {part : Part} {ms : List Spaced} {es : List Expr}
    (reads : Reads part ms es) : Accepted part ms es := by
  induction reads with
  | number digits =>
      intro depth rest _
      rw [List.map_cons, token_of_mark digits]
      rfl
  | @call m close f ms es name closes args ih =>
      intro depth rest enough
      obtain ⟨depth, rfl⟩ : ∃ d, depth = d + 1 := ⟨depth - 1, by simp at enough; omega⟩
      obtain ⟨few, ih⟩ := ih
      have read := ih depth (ms.map Spaced.token ++ .closing :: rest).length rest
        (by simp at enough; omega) (by simp; omega)
      rw [tokens_enclosed, token_of_mark name, token_of_mark closes]
      simp only [Mark.token, atomStep, atom, read]
      rfl
  | @group m close ms e opens closes inner ih =>
      intro depth rest enough
      obtain ⟨depth, rfl⟩ : ∃ d, depth = d + 1 := ⟨depth - 1, by simp at enough; omega⟩
      have read := Accepted.sum_eq ih depth (.closing :: rest)
        (by simp at enough; omega) (fun _ => follows_closing _ _)
      rw [tokens_enclosed, token_of_mark opens, token_of_mark closes]
      simp only [Mark.token, atomStep, atom, read]
  | unsigned atom ih =>
      intro depth rest enough
      obtain ⟨m, others, rfl, other⟩ := head_atom atom
      rw [List.map_cons, List.cons_append, signed_of_other _ other]
      exact ih depth rest enough
  | plus sign reads ih =>
      intro depth rest enough
      rw [List.map_cons, List.cons_append, token_of_mark sign]
      exact ih depth rest (Nat.le_of_succ_le enough)
  | minus sign reads ih =>
      intro depth rest enough
      have read := ih depth rest (Nat.le_of_succ_le enough)
      rw [List.map_cons, List.cons_append, token_of_mark sign, Mark.token, signed, read]
      rfl
  | @factor ms e reads ih =>
      intro depth rest enough
      have read := ih depth rest enough
      refine ⟨rest.length, Nat.le_refl _, ?_⟩
      rw [productStep, chain, read]
  | @product m ms ms' op a b between belongs left right ihLeft ihRight =>
      intro depth rest enough
      rw [List.length_append, List.length_cons] at enough
      rw [tokens_append, token_of_mark between]
      obtain ⟨n, fuel, read⟩ := ihLeft depth
        (.operator op :: (ms'.map Spaced.token ++ rest)) (by omega)
      have operand := ihRight depth rest (by omega)
      cases n with
      | zero => simp at fuel
      | succ n =>
          refine ⟨n, by simp at fuel; omega, ?_⟩
          rw [Mark.token, read, chainTail, if_pos belongs, operand]
  | summand reads ih =>
      intro depth rest enough follows
      have read := Accepted.product_eq ih depth rest enough follows
      refine ⟨rest.length, Nat.le_refl _, ?_⟩
      show chain _ (productStep depth) _ = _
      rw [chain, read]
  | @sum m ms ms' op a b between belongs left right ihLeft ihRight =>
      intro depth rest enough follows
      rw [List.length_append, List.length_cons] at enough
      rw [tokens_append, token_of_mark between]
      have weak : Follows Operator.isMultiplicative
          (.operator op :: (ms'.map Spaced.token ++ rest)) := by
        intro op' head
        cases head
        rw [Operator.isMultiplicative, belongs]
        rfl
      obtain ⟨n, fuel, read⟩ := ihLeft depth
        (.operator op :: (ms'.map Spaced.token ++ rest)) (by omega) weak
      have operand := Accepted.product_eq ihRight depth rest (by omega) follows
      cases n with
      | zero => simp at fuel
      | succ n =>
          refine ⟨n, by simp at fuel; omega, ?_⟩
          rw [Mark.token, read, chainTail, if_pos belongs, operand]
  | argument reads ih =>
      refine ⟨by simp, fun depth n rest enough few => ?_⟩
      obtain ⟨n, rfl⟩ : ∃ k, n = k + 1 := ⟨n - 1, by simp at few; omega⟩
      have read := Accepted.sum_eq ih depth (.closing :: rest) enough
        (fun _ => follows_closing _ rest)
      rw [Arithmetic.arguments, read]
  | @arguments m ms ms' e es between first others ihFirst ihOthers =>
      obtain ⟨count, ihOthers⟩ := ihOthers
      refine ⟨by simp; omega, fun depth n rest enough few => ?_⟩
      rw [List.length_append, List.length_cons] at enough
      obtain ⟨n, rfl⟩ : ∃ k, n = k + 1 := ⟨n - 1, by simp at few; omega⟩
      have read := Accepted.sum_eq ihFirst depth
        (.comma :: (ms'.map Spaced.token ++ .closing :: rest)) (by omega)
        (fun _ => follows_comma _ _)
      have behind := ihOthers depth n rest (by omega) (by simp at few; omega)
      rw [tokens_append, token_of_mark between, Mark.token, Arithmetic.arguments, read]
      simp only [behind]
      rfl

/-- **The reader reads whatever the grammar derives.** -/
theorem sum_complete {ms : List Spaced} {e : Expr} (reads : Reads .sum ms [e]) {depth : Nat}
    (enough : ms.length ≤ depth) : sum (depth + 1) (ms.map Spaced.token) = some (e, []) := by
  have read := Accepted.sum_eq (accepted_of_reads reads) depth [] enough
    fun _ op head => by cases head
  rwa [List.append_nil] at read

/-! ## Texts -/

theorem apart_link {m : Spaced} (ms : List Spaced) {ms' : List Spaced}
    (other : m.mark.isNumber = false) (left : Spaced.Apart ms) (right : Spaced.Apart ms') :
    Spaced.Apart (ms ++ m :: ms') := by
  refine left.append (List.isChain_cons.2 ⟨fun b _ number => ?_, right⟩) fun a _ b mem _ => ?_
  · rw [other] at number
    cases number
  · cases mem
    exact other

theorem apart_of_reads {part : Part} {ms : List Spaced} {es : List Expr}
    (reads : Reads part ms es) : Spaced.Apart ms := by
  have nothing : Spaced.Apart [] := List.IsChain.nil
  induction reads with
  | number _ => exact List.isChain_singleton _
  | call name closes _ ih =>
      exact apart_link _ (by rw [closes]; rfl) (apart_link [] (by rw [name]; rfl) nothing ih)
        nothing
  | group opens closes _ ih =>
      exact apart_link _ (by rw [closes]; rfl) (apart_link [] (by rw [opens]; rfl) nothing ih)
        nothing
  | unsigned _ ih => exact ih
  | plus sign _ ih => exact apart_link [] (by rw [sign]; rfl) nothing ih
  | minus sign _ ih => exact apart_link [] (by rw [sign]; rfl) nothing ih
  | factor _ ih => exact ih
  | product between _ _ _ ihLeft ihRight => exact apart_link _ (by rw [between]; rfl) ihLeft ihRight
  | summand _ ih => exact ih
  | sum between _ _ _ ihLeft ihRight => exact apart_link _ (by rw [between]; rfl) ihLeft ihRight
  | argument _ ih => exact ih
  | arguments between _ _ ihFirst ihOthers =>
      exact apart_link _ (by rw [between]; rfl) ihFirst ihOthers

/-- **A text is read as an expression if it is the marks of a sum and white space.** -/
theorem read?_iff (s : List Char) (e : Expr) :
    Expr.read? s = some e ↔ ∃ ms gap, Reads .sum ms [e] ∧ Text.allBlank gap = true ∧
      s = Spaced.textAll ms ++ gap := by
  constructor
  · intro read
    obtain ⟨ts, scanned, parsed⟩ := Option.bind_eq_some_iff.1 read
    obtain ⟨ms, gap, blank, text, rfl⟩ := scan?_sound scanned
    unfold Expr.ofTokens? at parsed
    split at parsed
    · rename_i e' found
      cases parsed
      obtain ⟨used, left, rfl, none, reads⟩ := sum_sound _ found
      rw [List.nil_eq, List.map_eq_nil_iff] at none
      rw [none, List.append_nil] at text
      exact ⟨used, gap, reads, blank, text⟩
    · cases parsed
  · rintro ⟨ms, gap, reads, blank, rfl⟩
    have scanned := scan?_complete (apart_of_reads reads) blank
    have parsed := sum_complete reads (Nat.le_refl ms.length)
    rw [Expr.read?, scanned, Option.bind_some, Expr.ofTokens?, List.length_map, parsed]

end DiceFormula.Arithmetic
