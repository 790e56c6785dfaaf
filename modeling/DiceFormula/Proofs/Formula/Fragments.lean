/-
# DiceFormula.Proofs.Formula.Fragments -- numbers and dice among the operands

An operand without groups is a number or dice, perhaps with flavor.  The text of
either is one operand (`ofText_body`), a number is classified as the number that it
is written for and dice as the dice (`classifyEarly_numeral`, `classifyEarly_dice`).
Only numbers without flavor look numeric, so only these take a minus sign.
-/
import DiceFormula.Proofs.Dice.Text
import DiceFormula.Proofs.Double.Numeral
import DiceFormula.Proofs.Formula.Arguments
import DiceFormula.Proofs.Formula.Blocks

namespace DiceFormula

set_option autoImplicit false

/-- A character of a number or of dice. -/
def isBody (c : Char) : Bool := Dice.Reader.isWritten c || c == '.'

theorem toNat_of_isBody {c : Char} (body : isBody c = true) :
    (48 ≤ c.toNat ∧ c.toNat ≤ 57) ∨ (60 ≤ c.toNat ∧ c.toNat ≤ 62) ∨
      (97 ≤ c.toNat ∧ c.toNat ≤ 122) ∨ c.toNat = 46 := by
  rw [isBody, Bool.or_eq_true, beq_iff_eq] at body
  rcases body with written | rfl
  · have := Dice.Reader.toNat_of_isWritten written
    omega
  · decide

theorem ne_of_isBody {c d : Char} (body : isBody c = true) (other : isBody d = false) : c ≠ d := by
  rintro rfl
  rw [body] at other
  cases other

theorem isBlank_of_isBody {c : Char} (body : isBody c = true) : Text.isBlank c = false := by
  have range := toNat_of_isBody body
  exact Text.isBlank_of_printable (by omega) (by omega)

theorem isBracket_of_isBody {c : Char} (body : isBody c = true) : isBracket c = false := by
  rw [isBracket, beq_eq_false_iff_ne.2 (ne_of_isBody body (d := '[') rfl),
    beq_eq_false_iff_ne.2 (ne_of_isBody body (d := '(') rfl),
    beq_eq_false_iff_ne.2 (ne_of_isBody body (d := ')') rfl),
    beq_eq_false_iff_ne.2 (ne_of_isBody body (d := '\x7b') rfl),
    beq_eq_false_iff_ne.2 (ne_of_isBody body (d := '\x7d') rfl)]
  rfl

theorem ofSymbol?_of_isBody {c : Char} (body : isBody c = true) : Operator.ofSymbol? c = none := by
  unfold Operator.ofSymbol?
  split
  · cases body
  · cases body
  · cases body
  · cases body
  · rfl

theorem isBody_numeral (n : Numeral) : ∀ c ∈ n.text, isBody c = true := by
  have digit {c : Char} (digit : c.isDigit = true) : isBody c = true := by
    rw [isBody, Dice.Reader.isWritten_of_isDigit digit]
    rfl
  intro c mem
  cases h : n.fraction with
  | nil =>
      rw [Numeral.text_whole h] at mem
      exact digit (n.wholeDigits c mem)
  | cons d digits =>
      rw [Numeral.text_fraction h, List.mem_append, List.mem_cons] at mem
      rcases mem with whole | rfl | fraction
      · exact digit (n.wholeDigits c whole)
      · rfl
      · exact digit (n.fractionDigits c fraction)

theorem isBody_dice {d : Dice} (writable : ∀ m ∈ d.modifiers, m.Writable) :
    ∀ c ∈ d.text.toList, isBody c = true := by
  intro c mem
  rw [isBody, Dice.Reader.isWritten_dice writable c mem]
  rfl

/-! ## Operands -/

section Flavor

variable {body : List Char} (all : ∀ c ∈ body, isBody c = true) (nonempty : body ≠ [])
  (flavor : Option String)

/-- The flavor in brackets, as characters. -/
def flavorChars : List Char := (Term.flavorText flavor).toList

theorem append_flavorChars_none (body : List Char) : body ++ flavorChars none = body :=
  List.append_nil body

theorem flavorChars_some (f : String) : flavorChars (some f) = '[' :: (f.toList ++ [']']) := by
  rw [flavorChars, Term.flavorText, String.toList_append, String.toList_append]
  rfl

/-- The text of a number or of dice, as a tree. -/
def bodyMatched (closes : ∀ f, flavor = some f → ']' ∉ f.toList) : Matched :=
  (Matched.ofPlain body fun c mem => isBracket_of_isBody (all c mem)).append
    (Matched.ofFlavor flavor closes)

theorem text_bodyMatched (closes : ∀ f, flavor = some f → ']' ∉ f.toList) :
    (bodyMatched all flavor closes).text = body ++ flavorChars flavor := by
  rw [bodyMatched, Matched.text_append, Matched.text_ofPlain, Matched.text_ofFlavor, flavorChars]

theorem bare_bodyMatched (closes : ∀ f, flavor = some f → ']' ∉ f.toList) :
    (bodyMatched all flavor closes).Bare :=
  Matched.bare_append (Matched.bare_ofPlain _ _) (Matched.bare_ofFlavor _ _)

theorem guarded_ofFlavor (closes : ∀ f, flavor = some f → ']' ∉ f.toList) :
    (Matched.ofFlavor flavor closes).Guarded := by
  cases flavor <;> exact trivial

theorem guarded_bodyMatched (closes : ∀ f, flavor = some f → ']' ∉ f.toList) :
    (bodyMatched all flavor closes).Guarded := by
  refine Matched.guarded_append (Matched.guarded_ofPlain _ fun comma => ?_) (guarded_ofFlavor _ _)
  cases all ',' comma

include all nonempty

theorem stops_body (behind : List Char) : Text.Stops Text.isBlank (body ++ behind) := by
  obtain ⟨c, others, rfl⟩ := List.exists_cons_of_ne_nil nonempty
  exact Text.stops_cons (isBlank_of_isBody (all c List.mem_cons_self))

theorem visible_body (behind : List Char) : Text.allBlank (body ++ behind) = false := by
  obtain ⟨c, others, rfl⟩ := List.exists_cons_of_ne_nil nonempty
  rw [List.cons_append, Text.allBlank, List.all_cons,
    isBlank_of_isBody (all c List.mem_cons_self), Bool.false_and]

/-- The text starts and ends with something visible. -/
theorem trim_body : Text.trim (body ++ flavorChars flavor) = body ++ flavorChars flavor := by
  refine Text.trim_of_stops (stops_body all nonempty _) ?_
  cases flavor with
  | none =>
      intro c mem
      have last : c ∈ body := by
        have := List.mem_of_mem_head? mem
        simpa [flavorChars, Term.flavorText] using this
      exact isBlank_of_isBody (all c last)
  | some f =>
      rw [flavorChars_some]
      simp only [List.reverse_append, List.reverse_cons, List.reverse_nil]
      exact Text.stops_cons (by decide)

/-- The text of a number or of dice is one operand. -/
theorem ofText_body (closes : ∀ f, flavor = some f → ']' ∉ f.toList) :
    Link.ofText (body ++ flavorChars flavor) = [.operand (body ++ flavorChars flavor)] := by
  have other : ∀ l ∈ (bodyMatched all flavor closes).lexemes, Cut.operator? l = none := by
    intro l mem
    rw [bodyMatched, Matched.lexemes_append, Matched.lexemes_ofPlain, List.mem_append] at mem
    rcases mem with mem | mem
    · obtain ⟨c, member, rfl⟩ := List.mem_map.1 mem
      exact ofSymbol?_of_isBody (all c member)
    · cases flavor with
      | none => cases mem
      | some f =>
          rw [List.mem_singleton.1 mem]
          rfl
  have visible := visible_body all nonempty (flavorChars flavor)
  rw [← text_bodyMatched all flavor closes] at visible ⊢
  rw [Formula.ofText_operand other visible, text_bodyMatched, trim_body all nonempty]

theorem links?_body (read : SubReader) (closes : ∀ f, flavor = some f → ']' ∉ f.toList) :
    Formula.links? read (body ++ flavorChars flavor) =
      some [.operand (body ++ flavorChars flavor)] := by
  rw [← text_bodyMatched all flavor closes,
    Formula.links?_bare read (bare_bodyMatched all flavor closes), text_bodyMatched,
    ofText_body all nonempty flavor closes]

/-! ## Classification -/

namespace Fragment

omit all nonempty in
theorem cutAtLastOpening_append (front : List Char) {behind : List Char} (last : '[' ∉ behind) :
    cutAtLastOpening (front ++ '[' :: behind) = some (front, behind) := by
  have reversed : (front ++ '[' :: behind).reverse = behind.reverse ++ '[' :: front.reverse := by
    simp
  have span : (behind.reverse ++ '[' :: front.reverse).span (· != '[') =
      (behind.reverse, '[' :: front.reverse) := by
    refine Text.span_append (fun c mem => ?_) (Text.stops_cons (by decide))
    rw [bne_iff_ne]
    rintro rfl
    exact last (List.mem_reverse.1 mem)
  rw [cutAtLastOpening, reversed, span]
  simp

theorem splitFlavor_body (opens : ∀ f, flavor = some f → '[' ∉ f.toList) :
    splitFlavor (body ++ flavorChars flavor) = (body, flavor.map String.toList) := by
  unfold splitFlavor
  dsimp only
  rw [trim_body all nonempty]
  cases flavor with
  | none =>
      have unflavored : ¬ (body ++ flavorChars none).getLast? = some ']' := by
        rw [flavorChars, Term.flavorText]
        intro last
        have mem := List.mem_of_getLast? last
        cases all ']' (by simpa using mem)
      rw [if_neg unflavored]
      simp [flavorChars, Term.flavorText]
  | some f =>
      have closed : '[' ∉ f.toList ++ [']'] := by
        simp [opens f rfl]
      have trimmed : Text.trimEnd body = body := Text.trimEnd_of_stops fun c mem =>
        isBlank_of_isBody (all c (List.mem_reverse.1 (List.mem_of_mem_head? mem)))
      have last : (body ++ '[' :: (f.toList ++ [']'])).getLast? = some ']' := by
        rw [← List.cons_append, ← List.append_assoc, List.getLast?_append]
        rfl
      rw [flavorChars_some, if_pos last, cutAtLastOpening_append body closed]
      simp [trimmed]

end Fragment

end Flavor

namespace Fragment

theorem number?_numeral (n : Numeral) : number? n.text = some n.value := by
  have value := n.unsignedValue?_numeral
  obtain ⟨c, s, text, digit⟩ := n.exists_head
  rw [text] at value ⊢
  unfold number?
  split
  · rename_i same
    cases (List.cons.inj same).1
    cases digit
  · exact value

/-- A number is classified as the number that it is written for. -/
theorem classifyEarly_numeral (n : Numeral) {flavor : Option String}
    (opens : ∀ f, flavor = some f → '[' ∉ f.toList) (prior next : Option Term) :
    classifyEarly (String.ofList (n.text ++ flavorChars flavor)) prior next =
      .number n.value flavor := by
  unfold classifyEarly
  rw [String.toList_ofList, splitFlavor_body (isBody_numeral n) n.text_ne_nil flavor opens]
  dsimp only
  rw [number?_numeral]
  cases flavor with
  | none => rfl
  | some f => simp

/-- A number with its sign is classified as the negative number. -/
theorem classifyEarly_negative (n : Numeral) (prior next : Option Term) :
    classifyEarly (String.ofList ('-' :: n.text)) prior next = .number (-n.value) none := by
  have trimmed : Text.trim ('-' :: n.text) = '-' :: n.text := by
    refine Text.trim_of_visible fun c mem => ?_
    rcases List.mem_cons.1 mem with rfl | mem
    · decide
    · exact isBlank_of_isBody (isBody_numeral n c mem)
  have unflavored : ¬ ('-' :: n.text).getLast? = some ']' := by
    intro last
    rcases List.mem_cons.1 (List.mem_of_getLast? last) with same | mem
    · cases same
    · cases isBody_numeral n ']' mem
  unfold classifyEarly splitFlavor
  rw [String.toList_ofList]
  dsimp only
  rw [trimmed, if_neg unflavored]
  dsimp only
  rw [number?, n.unsignedValue?_numeral]
  rfl

/-- Behind digits a letter is no part of a number. -/
theorem number?_letter {digits : List Char} (all : ∀ c ∈ digits, c.isDigit = true) {c : Char}
    (letter : isLetterD c = true) (rest : List Char) :
    number? (digits ++ c :: rest) = none := by
  have other : c.isDigit = false ∧ c ≠ '.' ∧ c ≠ '-' := by
    rw [isLetterD, Bool.or_eq_true, beq_iff_eq, beq_iff_eq] at letter
    rcases letter with rfl | rfl <;> decide
  have value : unsignedValue? (digits ++ c :: rest) = none := by
    rw [unsignedValue?, Text.span_append all (Text.stops_cons other.1)]
    split
    · rfl
    · rename_i same
      cases same
    · rename_i same
      cases same
      exact absurd rfl other.2.1
    · rfl
  unfold number?
  split
  · rename_i same
    cases digits with
    | nil => exact absurd (List.cons.inj same).1 other.2.2
    | cons d digits =>
        obtain ⟨rfl, -⟩ := List.cons.inj same
        cases all '-' List.mem_cons_self
  · exact value

theorem number?_dice (d : Dice) : number? d.text.toList = none := by
  rw [Dice.Reader.toList_text]
  exact number?_letter (Dice.Reader.isDigit_toDigits d.count) rfl _

/-- Dice are classified as they are unless a neighbour is still to be evaluated. -/
theorem classifyEarly_dice {d : Dice} (writable : d.Writable) {flavor : Option String}
    (opens : ∀ f, flavor = some f → '[' ∉ f.toList) {prior next : Option Term}
    (settled : isPending prior next = false) :
    classifyEarly (String.ofList (d.text.toList ++ flavorChars flavor)) prior next =
      Term.ofDice d flavor := by
  obtain ⟨c, s, text, digit⟩ := Dice.Reader.exists_head d
  have counted : lacksCount d.text.toList = false := by
    rw [lacksCount, text, Text.trimStart_of_stops (Text.stops_cons (Text.isBlank_of_isDigit digit))]
    simp only [List.head?_cons, Option.any_some, isLetterD, Bool.or_eq_false_iff,
      beq_eq_false_iff_ne]
    constructor <;> rintro rfl <;> cases digit
  unfold classifyEarly
  rw [String.toList_ofList,
    splitFlavor_body (isBody_dice writable.modifiers) (Dice.Reader.text_ne_nil d) flavor opens]
  dsimp only
  rw [number?_dice, Dice.read?_text writable]
  dsimp only
  rw [counted, settled, if_neg (by decide)]
  cases flavor with
  | none => rfl
  | some f => simp

/-! ## Numeric texts -/

theorem isDecimalDigit_of_isDigit {c : Char} (digit : c.isDigit = true) :
    Text.isDecimalDigit c = true := by
  rw [Text.isDecimalDigit, digit]
  rfl

theorem isNumeric_of_head {c : Char} {s : List Char} (digit : c.isDigit = true) :
    isNumeric (c :: s) = isUnsignedNumeric (c :: s) := by
  unfold isNumeric
  split
  · rename_i same
    cases (List.cons.inj same).1
    cases digit
  · rfl

/-- Digits and something else than a point are not numeric. -/
theorem isUnsignedNumeric_other {digits : List Char} (all : ∀ c ∈ digits, c.isDigit = true)
    {d : Char} (other : Text.isDecimalDigit d = false) (point : d ≠ '.') (s : List Char) :
    isUnsignedNumeric (digits ++ d :: s) = false := by
  rw [isUnsignedNumeric, Text.span_append (fun c mem => isDecimalDigit_of_isDigit (all c mem))
    (Text.stops_cons other)]
  split
  · rfl
  · rename_i same
    cases same
  · rename_i same
    cases same
    exact absurd rfl point
  · rfl

/-- What is numeric behind a point, and nothing else. -/
theorem isUnsignedNumeric_point {digits : List Char} (all : ∀ c ∈ digits, c.isDigit = true)
    (nonempty : digits ≠ []) (s : List Char) :
    isUnsignedNumeric (digits ++ '.' :: s) = (!s.isEmpty && s.all Text.isDecimalDigit) := by
  obtain ⟨c, others, rfl⟩ := List.exists_cons_of_ne_nil nonempty
  rw [isUnsignedNumeric, Text.span_append (fun c mem => isDecimalDigit_of_isDigit (all c mem))
    (Text.stops_cons (by decide))]
  rfl

theorem isUnsignedNumeric_numeral (n : Numeral) : isUnsignedNumeric n.text = true := by
  cases h : n.fraction with
  | nil =>
      obtain ⟨c, others, cons⟩ := List.exists_cons_of_ne_nil n.nonempty
      rw [Numeral.text_whole h, isUnsignedNumeric,
        Text.span_all fun c mem => isDecimalDigit_of_isDigit (n.wholeDigits c mem), cons]
  | cons d digits =>
      rw [Numeral.text_fraction h, isUnsignedNumeric_point n.wholeDigits n.nonempty,
        Bool.and_eq_true, List.all_eq_true]
      exact ⟨by rw [h]; rfl, fun c mem => isDecimalDigit_of_isDigit (n.fractionDigits c mem)⟩

theorem isNumeric_numeral (n : Numeral) : isNumeric n.text = true := by
  obtain ⟨c, s, text, digit⟩ := n.exists_head
  rw [text, isNumeric_of_head digit, ← text, isUnsignedNumeric_numeral]

/-- A number with something else behind it does not look numeric. -/
theorem isNumeric_behind (n : Numeral) {d : Char} (other : Text.isDecimalDigit d = false)
    (point : d ≠ '.') (s : List Char) : isNumeric (n.text ++ d :: s) = false := by
  have unsigned : isUnsignedNumeric (n.text ++ d :: s) = false := by
    cases h : n.fraction with
    | nil =>
        rw [Numeral.text_whole h]
        exact isUnsignedNumeric_other n.wholeDigits other point s
    | cons e digits =>
        rw [Numeral.text_fraction h, List.append_assoc, List.cons_append,
          isUnsignedNumeric_point n.wholeDigits n.nonempty, List.all_append, List.all_cons, other,
          Bool.false_and, Bool.and_false, Bool.and_false]
  obtain ⟨c, s', text, digit⟩ := n.exists_head
  rw [text, List.cons_append] at unsigned ⊢
  rw [isNumeric_of_head digit, unsigned]

/-- A number with flavor does not look numeric. -/
theorem isNumeric_flavored (n : Numeral) (s : List Char) : isNumeric (n.text ++ '[' :: s) = false :=
  isNumeric_behind n (by decide) (by decide) s

theorem isUnsignedNumeric_of_value {s : List Char} {x : Float}
    (value : unsignedValue? s = some x) : isUnsignedNumeric s = true := by
  obtain ⟨split, all, -⟩ := Text.span_spec Char.isDigit s
  have decimal (run : List Char) (digits : ∀ c ∈ run, c.isDigit = true) :
      ∀ c ∈ run, Text.isDecimalDigit c = true :=
    fun c mem => isDecimalDigit_of_isDigit (digits c mem)
  unfold unsignedValue? at value
  split at value
  · cases value
  · rename_i whole nonempty span
    rw [span] at split all
    rw [isUnsignedNumeric, split, List.append_nil, Text.span_all (decimal _ all)]
    cases whole with
    | nil => exact absurd rfl nonempty
    | cons c others => rfl
  · rename_i whole fraction nonempty span
    split at value
    · rename_i digits
      rw [span] at split all
      rw [Bool.and_eq_true, List.all_eq_true] at digits
      rw [split, isUnsignedNumeric_point all nonempty, Bool.and_eq_true, List.all_eq_true]
      exact ⟨digits.1, decimal fraction digits.2⟩
    · cases value
  · cases value

/-- Whatever is a number looks numeric. -/
theorem isNumeric_of_number? {s : List Char} {x : Float} (value : number? s = some x) :
    isNumeric s = true := by
  unfold number? at value
  split at value
  · obtain ⟨y, unsigned, -⟩ := Option.map_eq_some_iff.1 value
    exact isUnsignedNumeric_of_value unsigned
  · rename_i unsigned
    unfold isNumeric
    split
    · exact absurd rfl (unsigned _)
    · exact isUnsignedNumeric_of_value value

theorem isNumeric_dice (d : Dice) (s : List Char) : isNumeric (d.text.toList ++ s) = false := by
  obtain ⟨c, s', text, digit⟩ := Dice.Reader.exists_head d
  have unsigned := isUnsignedNumeric_other (Dice.Reader.isDigit_toDigits d.count) (d := 'd')
    (by decide) (by decide) (Nat.toDigits 10 d.sides ++ (Modifier.textAll d.modifiers).toList ++ s)
  rw [← List.cons_append, ← List.append_assoc, ← Dice.Reader.toList_text] at unsigned
  rw [text, List.cons_append] at unsigned ⊢
  rw [isNumeric_of_head digit, unsigned]

end Fragment

end DiceFormula
