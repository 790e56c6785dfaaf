/-
# DiceFormula.Proofs.Json.Tokens -- strings and numbers are read back

A string is read back from its text, whatever characters are in it (`stringBody?_quote`).

Of numbers, integers of 64 bits are read back (`reads_integer`).  Doubles are not always: the reader
scales the digits in double arithmetic.  A number that is read back alone is read back inside any
other value too (`reads_of_readsBack`), because what stands behind a number there cannot be a part
of one (`extends_number?`).
-/
import DiceFormula.Json.Reader
import DiceFormula.Json.Writer
import DiceFormula.Proofs.Dice.Text
import DiceFormula.Proofs.Json.Fields

namespace DiceFormula.Json

set_option autoImplicit false

open Text (Stops stops_cons stops_nil)

/-! ## Strings -/

/-- A control character is read from its code. -/
theorem codeUnit?_control : ∀ n < 32,
    codeUnit? '0' '0' (Nat.digitChar (n / 16)) (Nat.digitChar (n % 16)) = some n := by
  decide

theorem stringBody?_escapeControl {c : Char} (control : c.toNat < 32) (read s : List Char) :
    stringBody? read (escapeControl c ++ s) = stringBody? (c :: read) s := by
  have unit := codeUnit?_control c.toNat control
  show stringBody? read ('\\' :: 'u' :: '0' :: '0' :: _ :: _ :: s) = _
  rw [stringBody?, unit]
  dsimp only
  rw [if_neg (by omega), if_neg (by omega), Char.ofNat_toNat]

theorem stringBody?_escapeChar (c : Char) (read s : List Char) :
    stringBody? read (escapeChar c ++ s) = stringBody? (c :: read) s := by
  unfold escapeChar
  split
  · rfl
  · rfl
  · rfl
  · rfl
  · rfl
  · rfl
  · rfl
  · rename_i quote backslash _ _ _ _ _
    split
    · rename_i control
      exact stringBody?_escapeControl control read s
    · rename_i printable
      have bare : ¬ (c = '\\' ∨ c.toNat < 0x20) := not_or.2 ⟨backslash, printable⟩
      rw [List.singleton_append, stringBody?, if_neg bare]
      · exact quote
      · exact fun _ _ _ _ _ same _ => backslash same
      · exact fun _ _ same _ => backslash same

theorem stringBody?_flatMap (text read s : List Char) :
    stringBody? read (text.flatMap escapeChar ++ '"' :: s) =
      some (String.ofList (read.reverse ++ text), s) := by
  induction text generalizing read with
  | nil => rw [List.append_nil]; rfl
  | cons c text ih =>
      rw [List.flatMap_cons, List.append_assoc, stringBody?_escapeChar, ih, List.reverse_cons,
        List.append_assoc, List.singleton_append]

/-- A string is read behind its opening quote. -/
theorem stringBody?_quote (text : String) (s : List Char) :
    ∃ body, (quote text).toList ++ s = '"' :: body ∧ stringBody? [] body = some (text, s) := by
  refine ⟨text.toList.flatMap escapeChar ++ '"' :: s, ?_, ?_⟩
  · rw [quote, String.toList_ofList, List.cons_append, List.cons_append, List.append_assoc]
    rfl
  · rw [stringBody?_flatMap, List.reverse_nil, List.nil_append, String.ofList_toList]

/-! ## Numbers -/

/-- A number that ends in front of the text ends there. -/
def Ends (s : List Char) : Prop :=
  Stops (fun c => c.isDigit || c == '.' || c == 'e' || c == 'E') s

theorem Ends.digits {s : List Char} (ends : Ends s) : Stops Char.isDigit s := by
  intro c mem
  have stop := ends c mem
  simp only [Bool.or_eq_false_iff] at stop
  exact stop.1.1.1

theorem fraction?_ends {t : List Char} (ends : Ends t) : fraction? t = some (none, t) := by
  unfold fraction?
  split
  · exact absurd (ends '.' rfl) (by decide)
  · rfl

theorem exponent?_ends {t : List Char} (ends : Ends t) : exponent? t = some (none, t) := by
  cases t with
  | nil => rfl
  | cons c t =>
      have stop := ends c rfl
      simp only [Bool.or_eq_false_iff, beq_eq_false_iff_ne] at stop
      rw [exponent?, if_neg (not_or.2 ⟨stop.1.2, stop.2⟩)]

/-- What a class of characters takes from a text, whatever stands behind. -/
theorem span_append_stops {p : Char → Bool} {s run rest : List Char} (spans : s.span p = (run, rest))
    {t : List Char} (stops : Stops p t) : (s ++ t).span p = (run, rest ++ t) := by
  obtain ⟨split, all, stop⟩ := Text.span_spec p s
  rw [spans] at split all stop
  rw [split, List.append_assoc]
  refine Text.span_append all ?_
  cases rest with
  | nil => exact stops
  | cons c rest => exact stops_cons (stop c rfl)

theorem suffix_of_span {p : Char → Bool} {s run rest : List Char} (spans : s.span p = (run, rest)) :
    rest <:+ s := by
  obtain ⟨split, -, -⟩ := Text.span_spec p s
  rw [spans] at split
  exact ⟨run, split.symm⟩

/-- A reader that takes a beginning of the text, and the same whatever stands behind if no number
goes on there. -/
def Extends {α : Type} (read : List Char → Option (α × List Char)) : Prop :=
  ∀ s a rest, read s = some (a, rest) →
    rest <:+ s ∧ ∀ t, Ends t → read (s ++ t) = some (a, rest ++ t)

theorem extends_whole? : Extends whole? := by
  intro s digits rest read
  unfold whole? at read
  split at read
  · rename_i d s
    split at read
    · cases read
    · rename_i other
      cases read
      refine ⟨List.suffix_cons _ _, fun t ends => ?_⟩
      rw [List.cons_append, List.cons_append, whole?, if_neg other]
  · rename_i other
    split at read
    · cases read
    · rename_i found nonempty
      have spans := Option.some.inj read
      refine ⟨suffix_of_span spans, fun t ends => ?_⟩
      have further := span_append_stops spans ends.digits
      have run : digits ≠ [] := fun none => nonempty rest (by rw [spans, none])
      obtain ⟨d, others, rfl⟩ := List.exists_cons_of_ne_nil run
      unfold whole?
      split
      · rename_i e u same
        -- there was nothing behind a zero, and what is there now is no digit
        match s with
        | [] => exact absurd (congrArg Prod.fst spans).symm run
        | c :: c' :: s =>
            cases same
            exact absurd rfl (other e s)
        | [c] =>
            cases same
            cases spans
            rw [if_neg (by rw [ends.digits e rfl]; decide)]
            rfl
      · rw [further]

theorem extends_fraction? : Extends fraction? := by
  intro s digits rest read
  unfold fraction? at read
  split at read
  · rename_i s
    split at read
    · cases read
    · rename_i digits behind run spans
      cases read
      obtain ⟨d, others, rfl⟩ := List.exists_cons_of_ne_nil run
      refine ⟨(suffix_of_span spans).trans (List.suffix_cons _ _), fun t ends => ?_⟩
      rw [List.cons_append, fraction?, span_append_stops spans ends.digits]
  · rename_i other
    cases read
    refine ⟨List.suffix_refl _, fun t ends => ?_⟩
    cases s with
    | nil => exact fraction?_ends ends
    | cons c s =>
        rw [List.cons_append, fraction?]
        intro _ same
        exact other s (by rw [(List.cons.inj same).1])

theorem exponentSign_cons (c : Char) (s t : List Char) :
    (exponentSign (c :: s)).2 <:+ c :: s ∧
      exponentSign (c :: s ++ t) = ((exponentSign (c :: s)).1, (exponentSign (c :: s)).2 ++ t) := by
  by_cases plus : c = '+'
  · subst plus
    exact ⟨List.suffix_cons _ _, rfl⟩
  · by_cases minus : c = '-'
    · subst minus
      exact ⟨List.suffix_cons _ _, rfl⟩
    · have other (u : List Char) : exponentSign (c :: u) = (false, c :: u) := by
        rw [exponentSign]
        · exact fun _ same => plus (List.cons.inj same).1
        · exact fun _ same => minus (List.cons.inj same).1
      rw [List.cons_append, other, other]
      exact ⟨List.suffix_refl _, rfl⟩

theorem extends_exponent? : Extends exponent? := by
  intro s exponent rest read
  cases s with
  | nil =>
      cases read
      exact ⟨List.suffix_refl _, fun t ends => exponent?_ends ends⟩
  | cons c s =>
      rw [exponent?] at read
      split at read
      · rename_i letter
        dsimp only at read
        split at read
        · cases read
        · rename_i digits behind run spans
          cases s with
          | nil => exact absurd (congrArg Prod.fst spans).symm run
          | cons d s =>
              have suffix := (exponentSign_cons d s []).1
              obtain ⟨e, others, rfl⟩ := List.exists_cons_of_ne_nil run
              cases read
              refine ⟨((suffix_of_span spans).trans suffix).trans (List.suffix_cons _ _),
                fun t ends => ?_⟩
              rw [List.cons_append, exponent?, if_pos letter, (exponentSign_cons d s t).2]
              dsimp only
              rw [span_append_stops spans ends.digits]
      · rename_i other
        cases read
        refine ⟨List.suffix_refl _, fun t ends => ?_⟩
        rw [List.cons_append, exponent?, if_neg other]

/-- The value of a number from its parts. -/
def valueOf? (negative : Bool) (whole : List Char) (fraction : Option (List Char))
    (exponent : Option Int) : Option Json :=
  match fraction, exponent with
  | none, none => integerOf? negative whole
  | fraction, exponent => doubleOf? negative whole (fraction.getD []) (exponent.getD 0)

theorem number?_eq_some {negative : Bool} {s rest : List Char} {value : Json} :
    number? negative s = some (value, rest) ↔
      ∃ whole fraction exponent behind behind', whole? s = some (whole, behind) ∧
        fraction? behind = some (fraction, behind') ∧ exponent? behind' = some (exponent, rest) ∧
        valueOf? negative whole fraction exponent = some value := by
  unfold number?
  constructor
  · intro read
    obtain ⟨⟨whole, behind⟩, first, read⟩ := Option.bind_eq_some_iff.1 read
    obtain ⟨⟨fraction, behind'⟩, second, read⟩ := Option.bind_eq_some_iff.1 read
    obtain ⟨⟨exponent, behind''⟩, third, read⟩ := Option.bind_eq_some_iff.1 read
    refine ⟨whole, fraction, exponent, behind, behind', first, second, ?_⟩
    cases fraction <;> cases exponent <;>
    · obtain ⟨v, valued, same⟩ := Option.bind_eq_some_iff.1 read
      cases same
      exact ⟨third, valued⟩
  · rintro ⟨whole, fraction, exponent, behind, behind', first, second, third, valued⟩
    refine Option.bind_eq_some_iff.2 ⟨_, first, Option.bind_eq_some_iff.2 ⟨_, second,
      Option.bind_eq_some_iff.2 ⟨_, third, ?_⟩⟩⟩
    cases fraction <;> cases exponent <;> exact Option.bind_eq_some_iff.2 ⟨_, valued, rfl⟩

/-- **A number is read the same whatever stands behind it**, if that is no part of a number. -/
theorem extends_number? (negative : Bool) : Extends (number? negative) := by
  intro s value rest read
  obtain ⟨whole, fraction, exponent, behind, behind', first, second, third, valued⟩ :=
    number?_eq_some.1 read
  obtain ⟨suffix, first⟩ := extends_whole? s whole behind first
  obtain ⟨suffix', second⟩ := extends_fraction? behind fraction behind' second
  obtain ⟨suffix'', third⟩ := extends_exponent? behind' exponent rest third
  exact ⟨(suffix''.trans suffix').trans suffix, fun t ends => number?_eq_some.2
    ⟨_, _, _, _, _, first t ends, second t ends, third t ends, valued⟩⟩

/-! ## Characters of numbers -/

/-- A character of a number, or of the words that stand for what is no number. -/
def isPlain (c : Char) : Bool := c.isAlphanum || c == '.' || c == '+' || c == '-'

theorem isPlain_of_isDigit {c : Char} (digit : c.isDigit = true) : isPlain c = true := by
  simp [isPlain, Char.isAlphanum, digit]

theorem isPlain_toDigits (n : Nat) : ∀ c ∈ Nat.toDigits 10 n, isPlain c = true :=
  fun _ mem => isPlain_of_isDigit (Nat.isDigit_of_mem_toDigits (by decide) (by decide) mem)

theorem isPlain_append {s t : List Char} (left : ∀ c ∈ s, isPlain c = true)
    (right : ∀ c ∈ t, isPlain c = true) : ∀ c ∈ s ++ t, isPlain c = true :=
  List.forall_mem_append.2 ⟨left, right⟩

theorem isPlain_positionalText {digits : List Char} (all : ∀ c ∈ digits, isPlain c = true)
    (point : Int) : ∀ c ∈ Layout.json.positionalText digits point, isPlain c = true := by
  have zeros (n : Nat) : ∀ c ∈ List.replicate n '0', isPlain c = true := by
    intro c mem
    rw [List.eq_of_mem_replicate mem]
    rfl
  unfold Layout.positionalText
  split
  · exact isPlain_append (isPlain_append (List.all_eq_true.1 rfl) (zeros _)) all
  · split
    · exact isPlain_append (isPlain_append all (zeros _)) (List.all_eq_true.1 rfl)
    · exact isPlain_append (fun c mem => all c (List.mem_of_mem_take mem))
        (List.forall_mem_cons.2 ⟨rfl, fun c mem => all c (List.mem_of_mem_drop mem)⟩)

theorem isPlain_exponentText {digits : List Char} (all : ∀ c ∈ digits, isPlain c = true)
    (point : Int) : ∀ c ∈ Layout.exponentText digits point, isPlain c = true := by
  unfold Layout.exponentText
  dsimp only
  refine isPlain_append ?_ (List.forall_mem_cons.2 ⟨rfl, List.forall_mem_cons.2
    ⟨by split <;> rfl, isPlain_toDigits _⟩⟩)
  split
  · obtain ⟨first, others⟩ := List.forall_mem_cons.1 all
    exact List.forall_mem_cons.2 ⟨first, List.forall_mem_cons.2 ⟨rfl, others⟩⟩
  · exact all

theorem isPlain_write (d : Decimal) : ∀ c ∈ Layout.json.write d, isPlain c = true := by
  unfold Layout.write
  split
  · exact List.all_eq_true.1 rfl
  · dsimp only
    split
    · exact isPlain_positionalText (isPlain_toDigits _) _
    · exact isPlain_exponentText (isPlain_toDigits _) _

theorem isPlain_numberText (x : Float) : ∀ c ∈ numberText .json x, isPlain c = true := by
  have magnitude (m : Magnitude) : ∀ c ∈ Layout.json.writeMagnitude m, isPlain c = true := by
    cases m with
    | finite m q => exact isPlain_write _
    | infinite => exact List.all_eq_true.1 rfl
    | notANumber => exact List.all_eq_true.1 rfl
  unfold numberText
  split
  · exact magnitude _
  · split
    · exact List.forall_mem_cons.2 ⟨rfl, magnitude _⟩
    · exact magnitude _

theorem isPlain_numberOrNull (n : JsonNumber) :
    ∀ c ∈ (numberOrNull n).toList, isPlain c = true := by
  cases n with
  | integer n =>
      cases n with
      | ofNat n =>
          show ∀ c ∈ (toString n).toList, isPlain c = true
          rw [Dice.Reader.toList_toString]
          exact isPlain_toDigits n
      | negSucc n =>
          show ∀ c ∈ ("-" ++ toString (n + 1)).toList, isPlain c = true
          rw [String.toList_append, Dice.Reader.toList_toString]
          exact isPlain_append (List.all_eq_true.1 rfl) (isPlain_toDigits _)
  | double x =>
      rw [numberOrNull]
      split
      · rw [JsonNumber.text, String.toList_ofList]
        exact isPlain_numberText x
      · exact List.all_eq_true.1 rfl

/-! ## Numbers in values -/

theorem isSpace_of_isPlain {c : Char} (plain : isPlain c = true) : isSpace c = false := by
  cases space : isSpace c with
  | false => rfl
  | true =>
      simp only [isSpace, Bool.or_eq_true, beq_iff_eq] at space
      rcases space with ((rfl | rfl) | rfl) | rfl <;> exact absurd plain (by decide)

theorem skipSpace_of_stops {s : List Char} (stops : Stops isSpace s) : skipSpace s = s := by
  cases s with
  | nil => rfl
  | cons c s => exact List.dropWhile_cons_of_neg (by rw [stops c rfl]; decide)

theorem value?_digit (n depth : Nat) {d : Char} (digit : d.isDigit = true) (s : List Char) :
    value? (n + 1) depth (d :: s) = number? false (d :: s) := by
  have skipped : skipSpace (d :: s) = d :: s :=
    skipSpace_of_stops (stops_cons (isSpace_of_isPlain (isPlain_of_isDigit digit)))
  rw [value?, skipped]
  split
  case h_8 => rfl
  all_goals
    rename_i same
    cases same
    cases digit

/-- A number starts with a minus sign or a digit. -/
theorem number?_of_value? {n depth : Nat} {s rest : List Char} {x : JsonNumber}
    (stops : Stops isSpace s) (read : value? (n + 1) depth s = some (.number x, rest)) :
    (∃ t, s = '-' :: t ∧ number? true t = some (.number x, rest)) ∨
      number? false s = some (.number x, rest) := by
  rw [value?, skipSpace_of_stops stops] at read
  split at read
  · cases read
  · cases read
  · cases read
  · obtain ⟨_, _, same⟩ := Option.map_eq_some_iff.1 read
    cases same
  · exact .inl ⟨_, rfl, read⟩
  · split at read
    · cases read
    · split at read
      · cases read
      · obtain ⟨_, _, same⟩ := Option.map_eq_some_iff.1 read
        cases same
  · split at read
    · cases read
    · split at read
      · cases read
      · obtain ⟨_, _, same⟩ := Option.map_eq_some_iff.1 read
        cases same
  · exact .inr read

theorem exists_digit_of_number? {s rest : List Char} {negative : Bool} {value : Json}
    (read : number? negative s = some (value, rest)) : ∃ d t, s = d :: t ∧ d.isDigit = true := by
  obtain ⟨whole, _, _, _, _, first, -⟩ := number?_eq_some.1 read
  unfold whole? at first
  split at first
  · exact ⟨_, _, rfl, rfl⟩
  · split at first
    · cases first
    · rename_i found run
      obtain ⟨split, all, -⟩ := Text.span_spec Char.isDigit s
      cases taken : (s.span Char.isDigit).1 with
      | nil => exact (run _ (Prod.ext taken rfl)).elim
      | cons d others =>
          rw [taken] at split all
          exact ⟨d, _, split, all d List.mem_cons_self⟩

theorem whole?_toDigits (n : Nat) : whole? (Nat.toDigits 10 n) = some (Nat.toDigits 10 n, []) := by
  have spans := Text.span_all (Dice.Reader.isDigit_toDigits n)
  cases digits : Nat.toDigits 10 n with
  | nil => exact absurd digits Nat.toDigits_ne_nil
  | cons c others =>
      rw [digits] at spans
      unfold whole?
      split
      · rename_i d s same
        have zero : n = 0 := by
          by_contra nonzero
          exact Dice.Reader.head_toDigits nonzero (d :: s) (digits.trans same)
        rw [zero, Nat.toDigits_zero] at digits
        rw [← digits] at same
        cases same
      · rw [spans]

/-- A number in digits. -/
theorem number?_toDigits {negative : Bool} {n : Nat} {value : Json}
    (valued : integerOf? negative (Nat.toDigits 10 n) = some value) {t : List Char} (ends : Ends t) :
    number? negative (Nat.toDigits 10 n ++ t) = some (value, t) := by
  have whole := (extends_whole? _ _ _ (whole?_toDigits n)).2 t ends
  exact number?_eq_some.2 ⟨_, none, none, t, t, whole, fraction?_ends ends, exponent?_ends ends,
    valued⟩

end DiceFormula.Json

namespace DiceFormula

namespace JsonNumber

open Json (Ends read? readWithin? value?)

instance : DecidableEq JsonNumber
  | .integer n, .integer m => decidable_of_iff (n = m) ⟨congrArg _, integer.inj⟩
  | .double x, .double y => decidable_of_iff (x = y) ⟨congrArg _, double.inj⟩
  | .integer _, .double _ | .double _, .integer _ => isFalse nofun

/-- The number is read from its text. -/
def ReadsBack (n : JsonNumber) : Prop := read? (Json.text (.number n)) = some (.number n)

instance (n : JsonNumber) : Decidable n.ReadsBack :=
  match read : read? (Json.text (.number n)) with
  | some (.number m) => decidable_of_iff (m = n) (by simp [ReadsBack, read])
  | none | some .null | some (.bool _) | some (.string _) | some (.array _) | some (.object _) =>
      isFalse (by simp [ReadsBack, read])

/-- The number is read from its text inside a value, whatever stands behind. -/
def Reads (n : JsonNumber) : Prop :=
  ∀ m depth t, Ends t →
    value? (m + 1) depth ((Json.text (.number n)).toList ++ t) = some (.number n, t)

theorem value?_of_readsBack {n : JsonNumber} (back : n.ReadsBack) :
    ∃ m depth rest, value? (m + 1) depth (Json.text (.number n)).toList =
      some (.number n, rest) ∧ rest.all Json.isSpace = true := by
  rw [ReadsBack, read?, readWithin?] at back
  split at back
  · rename_i value rest read
    split at back
    · rename_i blank
      cases back
      exact ⟨_, _, rest, read, blank⟩
    · cases back
  · cases back

/-- **A number that is read back alone is read back inside other values.** -/
theorem reads_of_readsBack {n : JsonNumber} (back : n.ReadsBack) : n.Reads := by
  intro m depth t ends
  have plain : ∀ c ∈ (Json.text (.number n)).toList, Json.isPlain c = true :=
    Json.isPlain_numberOrNull n
  obtain ⟨m', depth', rest, read, blank⟩ := value?_of_readsBack back
  revert plain read
  generalize (Json.text (.number n)).toList = s
  intro plain read
  have stops : Text.Stops Json.isSpace s := fun c mem =>
    Json.isSpace_of_isPlain (plain c (List.mem_of_mem_head? mem))
  -- no character of a number is a space
  have nothing (suffix : rest <:+ s) : rest = [] := by
    refine List.eq_nil_iff_forall_not_mem.2 fun c mem => ?_
    have space := List.all_eq_true.1 blank c mem
    rw [Json.isSpace_of_isPlain (plain c (suffix.subset mem))] at space
    cases space
  rcases Json.number?_of_value? stops read with ⟨u, rfl, number⟩ | number
  · obtain ⟨suffix, further⟩ := Json.extends_number? true u _ rest number
    rw [nothing (suffix.trans (List.suffix_cons _ _))] at further
    exact further t ends
  · obtain ⟨suffix, further⟩ := Json.extends_number? false s _ rest number
    rw [nothing suffix] at further
    obtain ⟨d, u, rfl, digit⟩ := Json.exists_digit_of_number? number
    rw [List.cons_append, Json.value?_digit m depth digit]
    exact further t ends

/-- An integer has 64 bits, with a sign or without. -/
def Bounded : JsonNumber → Prop
  | integer n => Limit.leastValue ≤ n ∧ n ≤ Limit.mostIndex
  | double _ => True

/-- **Integers of 64 bits are read back.** -/
theorem reads_integer {n : Int} (bounded : (integer n).Bounded) : (integer n).Reads := by
  intro m depth t ends
  obtain ⟨least, most⟩ := bounded
  cases n with
  | ofNat n =>
      have within : n ≤ Limit.mostIndex := by simpa using most
      have valued : Json.integerOf? false (Nat.toDigits 10 n) = some (.number (integer n)) := by
        rw [Json.integerOf?, Nat.ofDigitChars_ten_toDigits]
        exact if_pos within
      have read := Json.number?_toDigits valued ends
      obtain ⟨d, s, same, digit⟩ := Json.exists_digit_of_number? read
      show value? (m + 1) depth ((toString n).toList ++ t) = _
      rw [Dice.Reader.toList_toString]
      rw [same] at read ⊢
      rw [Json.value?_digit m depth digit]
      exact read
  | negSucc n =>
      have valued : Json.integerOf? true (Nat.toDigits 10 (n + 1)) =
          some (.number (integer (Int.negSucc n))) := by
        have range : 0 < n + 1 ∧ Limit.leastValue ≤ -((n + 1 : Nat) : Int) := ⟨Nat.succ_pos n, least⟩
        rw [Json.integerOf?, Nat.ofDigitChars_ten_toDigits]
        rw [if_pos rfl, if_pos range]
        rfl
      show value? (m + 1) depth (("-" ++ toString (n + 1)).toList ++ t) = _
      rw [String.toList_append, Dice.Reader.toList_toString]
      exact Json.number?_toDigits valued ends

end JsonNumber

end DiceFormula
