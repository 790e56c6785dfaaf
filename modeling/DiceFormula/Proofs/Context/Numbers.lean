/-
# DiceFormula.Proofs.Context.Numbers -- numbers of the data in formulas

A number of the data comes into a formula as its JSON text.  A numeral is read as its number
(`read_numeral`), and so is one behind a minus sign (`read_negative`).  But formulas have no
exponents: the sign of an exponent is an operator to them, and what stands in front of it is
nothing (`read_exponent`).

So a number of the data stays what it is exactly if it is written without an exponent
(`read_substitute`).
-/
import DiceFormula.Proofs.Context
import DiceFormula.Proofs.Dice.Alphabet
import DiceFormula.Proofs.Double.Exponent
import DiceFormula.Proofs.Double.Whole
import DiceFormula.Proofs.Formula.Alone

namespace DiceFormula

set_option autoImplicit false

/-! ## Reading -/

namespace Formula

/-- The text of a numeral is one link. -/
theorem links?_numeral (read : SubReader) (n : Numeral) :
    links? read n.text = some [.operand n.text] := by
  have links := links?_body (isBody_numeral n) n.text_ne_nil none read forall_none
  rwa [append_flavorChars_none] at links

/-- **A numeral is read as its number.** -/
theorem read_numeral {text : String} {n : Numeral} (written : text.toList = n.text) :
    read text = .ok [.number n.value none] := by
  have settles := Term.settle?_apart (List.isChain_singleton (.fragment (String.ofList n.text)))
    (.cons (.fragment rfl fun prior next _ => by
      have number := Fragment.classifyEarly_numeral n forall_none prior next
      rwa [append_flavorChars_none] at number) .nil)
  refine read_of_reads? ?_
  rw [written, reads?_succ, links?_numeral, Option.bind_some]
  exact settles

/-- **A numeral behind a minus sign is read as the negative number.** -/
theorem read_negative {text : String} {n : Numeral} (written : text.toList = '-' :: n.text) :
    read text = .ok [.number (-n.value) none] := by
  have settles := Term.settle?_apart
    (List.isChain_singleton (.fragment (String.ofList ('-' :: n.text))))
    (.cons (.fragment rfl fun prior next _ => Fragment.classifyEarly_negative n prior next) .nil)
  refine read_of_reads? ?_
  rw [written, reads?_succ, links?_sign, links?_numeral, Option.map_some, Option.bind_some,
    Link.terms, Fragment.isNumeric_numeral]
  exact settles

/-! ## Exponents -/

section Exponent

variable (mantissa power : Numeral)

/-- What stands in front of the sign of an exponent. -/
def mantissaText : List Char := mantissa.text ++ ['e']

theorem isBody_mantissa : ∀ c ∈ mantissaText mantissa, isBody c = true :=
  List.forall_mem_append.2 ⟨isBody_numeral mantissa, List.forall_mem_singleton.2 rfl⟩

theorem mantissaText_ne_nil : mantissaText mantissa ≠ [] :=
  List.append_ne_nil_of_left_ne_nil mantissa.text_ne_nil _

theorem isNumeric_mantissa : Fragment.isNumeric (mantissaText mantissa) = false :=
  Fragment.isNumeric_behind mantissa (by decide) (by decide) []

theorem number?_mantissa : Fragment.number? (mantissaText mantissa) = none := by
  cases value : Fragment.number? (mantissaText mantissa) with
  | none => rfl
  | some x =>
      have numeric := Fragment.isNumeric_of_number? value
      rw [isNumeric_mantissa] at numeric
      cases numeric

theorem dice_mantissa : Dice.read? (mantissaText mantissa) = none := by
  cases read : Dice.read? (mantissaText mantissa) with
  | none => rfl
  | some d =>
      obtain ⟨c, mem, letter⟩ := Dice.letter_of_read? read
      rcases List.mem_append.1 mem with numeral | exponent
      · rcases mantissa.chars_text numeral with digit | rfl
        · rw [Dice.Reader.lower_of_isWritten (Dice.Reader.isWritten_of_isDigit digit)] at letter
          rw [letter] at digit
          cases digit
        · cases letter
      · rw [List.mem_singleton.1 exponent] at letter
        cases letter

theorem splitFlavor_mantissa :
    Fragment.splitFlavor (mantissaText mantissa) = (mantissaText mantissa, none) := by
  have body := Fragment.splitFlavor_body (isBody_mantissa mantissa) (mantissaText_ne_nil mantissa)
    none forall_none
  rwa [append_flavorChars_none] at body

/-- The sign of an exponent cuts it. -/
theorem links?_exponent (read : SubReader) (op : Operator) :
    links? read (mantissa.text ++ 'e' :: op.symbol :: power.text) =
      some [.operand (mantissaText mantissa), .operator op, .operand power.text] := by
  have front := links?_body (isBody_mantissa mantissa) (mantissaText_ne_nil mantissa) none read
    forall_none
  rw [append_flavorChars_none] at front
  have split := links?_operator read
    (.ofPlain _ fun c mem => isBracket_of_isBody (isBody_mantissa mantissa c mem)) op power.text
  rw [Matched.text_ofPlain, front, Option.bind_some, links?_numeral] at split
  rw [List.append_cons]
  exact split

/-- What stands in front of the sign of an exponent is nothing. -/
theorem classify_mantissa (prior next : Option Term) :
    Fragment.classifyEarly (String.ofList (mantissaText mantissa)) prior next =
        .fragment (String.ofList (mantissaText mantissa)) ∧
      ∃ e, Fragment.classify (String.ofList (mantissaText mantissa)) = .error e := by
  unfold Fragment.classifyEarly Fragment.classify
  rw [String.toList_ofList, splitFlavor_mantissa]
  dsimp only
  rw [number?_mantissa, dice_mantissa]
  refine ⟨rfl, ?_⟩
  dsimp only
  split <;> exact ⟨_, rfl⟩

/-- So an exponent cannot be settled, with a sign in front or without. -/
theorem settle?_exponent (op : Operator) (front : List Term)
    (sign : front = [] ∨ front = [.operator .subtract]) :
    Piece.settle? (front ++ [.fragment (String.ofList (mantissaText mantissa)), .operator op,
      .fragment (String.ofList power.text)]) = none := by
  have early := fun prior next => (classify_mantissa mantissa prior next).1
  obtain ⟨e, refused⟩ := (classify_mantissa mantissa none none).2
  generalize String.ofList (mantissaText mantissa) = text at early refused ⊢
  have number (prior next : Option Term) :
      Fragment.classifyEarly (String.ofList power.text) prior next = .number power.value none := by
    have number := Fragment.classifyEarly_numeral power forall_none prior next
    rwa [append_flavorChars_none] at number
  have stuck (prior : Option Term)
      (free : Fragment.isPending prior (some (.operator op)) = false) :
      Piece.settleEarly prior ⟨.fragment text, none⟩ (some (.operator op)) =
        .error (e.locate none) := by
    unfold Piece.settleEarly
    dsimp only
    rw [free, refused]
    rfl
  rcases sign with rfl | rfl
  · have classified : Piece.classifyEarly (Piece.ofTerms ([] ++ [.fragment text, .operator op,
        .fragment (String.ofList power.text)])) =
        [⟨Fragment.classifyEarly text none (some (.operator op)), none⟩, ⟨.operator op, none⟩,
          ⟨Fragment.classifyEarly (String.ofList power.text) (some (.operator op)) none, none⟩] :=
      rfl
    have simplified : Piece.simplifyEarly [⟨.fragment text, none⟩, ⟨.operator op, none⟩,
        ⟨.number power.value none, none⟩] =
        [Piece.settleEarly none ⟨.fragment text, none⟩ (some (.operator op)),
          .ok ⟨.operator op, none⟩, .ok ⟨.number power.value none, none⟩].mapM id := rfl
    rw [Piece.settle?, classified, early, number, simplified, stuck none rfl]
    rfl
  · have classified : Piece.classifyEarly (Piece.ofTerms ([.operator .subtract] ++ [.fragment text,
        .operator op, .fragment (String.ofList power.text)])) =
        [⟨.operator .subtract, none⟩, ⟨Fragment.classifyEarly text (some (.operator .subtract))
          (some (.operator op)), none⟩, ⟨.operator op, none⟩,
          ⟨Fragment.classifyEarly (String.ofList power.text) (some (.operator op)) none, none⟩] :=
      rfl
    have simplified : Piece.simplifyEarly [⟨.operator .subtract, none⟩, ⟨.fragment text, none⟩,
        ⟨.operator op, none⟩, ⟨.number power.value none, none⟩] =
        [.ok ⟨.operator .subtract, none⟩,
          Piece.settleEarly (some (.operator .subtract)) ⟨.fragment text, none⟩
            (some (.operator op)),
          .ok ⟨.operator op, none⟩, .ok ⟨.number power.value none, none⟩].mapM id := rfl
    rw [Piece.settle?, classified, early, number, simplified, stuck _ rfl]
    rfl

end Exponent

/-- **A text with an exponent is not read**, with a minus sign in front or without. -/
theorem read_exponent {text : String} {body : List Char} (exponent : Double.IsExponentText body)
    (written : text.toList = body ∨ text.toList = '-' :: body) : ∃ e, read text = .error e := by
  obtain ⟨mantissa, power, sign, signs, rfl⟩ := exponent
  obtain ⟨op, rfl⟩ : ∃ op : Operator, op.symbol = sign := by
    rcases signs with rfl | rfl
    · exact ⟨.add, rfl⟩
    · exact ⟨.subtract, rfl⟩
  have behind : Link.terms false [.operator op, .operand power.text] =
      [.operator op, .fragment (String.ofList power.text)] := by
    rw [Link.terms_kept false op (fun _ expects => by cases expects), Link.terms, Link.terms]
  rcases written with written | written
  · refine read_refused (fun read => (congrArg _ written).trans
      (links?_exponent mantissa power read op)) ?_
    rw [Link.terms, behind]
    exact settle?_exponent mantissa power op [] (.inl rfl)
  · refine read_refused (fun read => by
      rw [written, links?_sign, links?_exponent mantissa power read op, Option.map_some]) ?_
    rw [Link.terms, isNumeric_mantissa, Bool.and_false, if_neg Bool.false_ne_true, behind]
    exact settle?_exponent mantissa power op [.operator .subtract] (.inr rfl)

end Formula

/-! ## JSON numbers -/

namespace JsonNumber

/-- There are no other doubles in JSON. -/
def IsFinite : JsonNumber → Prop
  | integer _ => True
  | double x => x.isFinite = true

/-- The number is an integer, or a double that is written without an exponent. -/
def Moderate : JsonNumber → Prop
  | integer _ => True
  | double x => Double.Moderate x

/-- The digits of a whole number are a numeral of it. -/
theorem numeral_of_digits (m : Nat) :
    ∃ n : Numeral, (toString m).toList = n.text ∧ n.value = Float.ofNat m := by
  refine ⟨⟨Nat.toDigits 10 m, [], Nat.toDigits_ne_nil, Dice.Reader.isDigit_toDigits m,
    List.forall_mem_nil _⟩, Dice.Reader.toList_toString m, ?_⟩
  rw [Double.ofNat_eq, Numeral.value, Decimal.ofDigits, List.append_nil,
    Nat.ofDigitChars_ten_toDigits]
  rfl

/-- **The text of a moderate number is a numeral of it**, behind its sign. -/
theorem text_moderate {x : JsonNumber} (finite : x.IsFinite) (moderate : x.Moderate) :
    ∃ n : Numeral, (x.text.toList = n.text ∧ n.value = x.toFloat) ∨
      (x.text.toList = '-' :: n.text ∧ -n.value = x.toFloat) := by
  cases x with
  | integer m =>
      cases m with
      | ofNat m =>
          obtain ⟨n, text, value⟩ := numeral_of_digits m
          exact ⟨n, .inl ⟨text, value⟩⟩
      | negSucc m =>
          obtain ⟨n, text, value⟩ := numeral_of_digits (m + 1)
          refine ⟨n, .inr ⟨?_, ?_⟩⟩
          · show ("-" ++ toString (m + 1)).toList = _
            rw [String.toList_append, text]
            rfl
          · rw [value]
            rfl
  | double x =>
      obtain ⟨n, written⟩ := Double.json_moderate finite moderate
      rw [← String.toList_ofList (l := numberText .json x)] at written
      exact ⟨n, written⟩

/-- **The text of any other number has an exponent.** -/
theorem text_extreme {x : JsonNumber} (finite : x.IsFinite) (extreme : ¬ x.Moderate) :
    ∃ body, Double.IsExponentText body ∧
      (x.text.toList = body ∨ x.text.toList = '-' :: body) := by
  cases x with
  | integer m => exact absurd trivial extreme
  | double x =>
      obtain ⟨body, exponent, written⟩ := Double.json_extreme finite extreme
      rw [← String.toList_ofList (l := numberText .json x)] at written
      exact ⟨body, exponent, written⟩

end JsonNumber

namespace Context

variable (c : Context) (fallback : Option String)

/-- **A number of the data is the number that the formula has in its place, exactly if it is
written without an exponent.**  It is for all integers, for zero, and for the doubles from `1e-5`
up and below `1e16`; with any other double the formula is refused. -/
theorem read_substitute {path : String} (isPath : IsPath path) {x : JsonNumber}
    (finite : x.IsFinite) (found : c.get? path = some (.number x)) :
    (c.substitute fallback ("@" ++ path)).missing = [] ∧
      (x.Moderate → Formula.read (c.substitute fallback ("@" ++ path)).formula =
        .ok [.number x.toFloat none]) ∧
      (¬ x.Moderate → ∃ e, Formula.read (c.substitute fallback ("@" ++ path)).formula =
        .error e) := by
  have lookup : c.lookup? path = some x.text := by
    rw [lookup?, found]
    rfl
  have replaced : c.substitute fallback ("@" ++ path) = ⟨x.text.toList, []⟩ := by
    rw [substitute_reference c fallback isPath, replacement, lookup]
  rw [replaced, Substituted.formula, String.ofList_toList]
  refine ⟨rfl, fun moderate => ?_, fun extreme => ?_⟩
  · obtain ⟨n, ⟨written, value⟩ | ⟨written, value⟩⟩ := x.text_moderate finite moderate
    · rw [← value]
      exact Formula.read_numeral written
    · rw [← value]
      exact Formula.read_negative written
  · obtain ⟨body, exponent, written⟩ := x.text_extreme finite extreme
    exact Formula.read_exponent exponent written

/-- The least integer of 64 bits is rounded to a double, with its sign. -/
theorem read_substitute_integer :
    Formula.read (Context.substitute ⟨.object [("hp", .object [("least", .number
        (.integer (-9223372036854775808)))])]⟩ none ("@" ++ "hp.least")).formula =
      .ok [.number (-9223372036854775808) none] :=
  (read_substitute _ none ⟨by simp, by simp [isPathChar]⟩ (x := .integer (-9223372036854775808))
    trivial rfl).2.1 trivial

/-- From `1e16` up a double has an exponent, which no formula has. -/
theorem read_substitute_refused :
    ∃ c : Context, c.get? "hp" = some (.number (.double 1e16)) ∧ (1e16 : Float).isFinite = true ∧
      (c.substitute none ("@" ++ "hp")).formula = "1e+16" ∧
      ∃ e, Formula.read "1e+16" = .error e := by
  refine ⟨⟨.object [("hp", .number (.double 1e16))]⟩, rfl, by decide +kernel, by decide +kernel, ?_⟩
  have refused : (Formula.read "1e+16").toOption.isNone = true := by decide +kernel
  cases read : Formula.read "1e+16" with
  | error e => exact ⟨e, rfl⟩
  | ok ts =>
      rw [read] at refused
      cases refused

end Context

end DiceFormula
