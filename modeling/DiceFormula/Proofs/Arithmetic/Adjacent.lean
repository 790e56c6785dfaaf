/-
# DiceFormula.Proofs.Arithmetic.Adjacent -- values without an operator between them

The grammar has an operator between any two operands: a mark that ends one is never followed
by a mark that begins another (`sided_of_reads`).  So where values stand next to each other in
a sequence that has a total, the cut between their texts lies inside of a mark (`cut_inside`),
and the only marks that values can share are numbers.  Such values `Fuse`: neither is written
in parentheses, and their digits run together (`fuse_of_total`).
-/
import DiceFormula.Proofs.Arithmetic.Items

namespace DiceFormula.Arithmetic

set_option autoImplicit false

/-! ## Operands in a text -/

/-- A character that an operand can start with. -/
def isFront (c : Char) : Bool := c.isDigit || c == '.' || c == '('

/-- A character that an operand can end with. -/
def isBack (c : Char) : Bool := c.isDigit || c == '.' || c == ')'

/-- No operand starts or ends with white space. -/
theorem isBlank_of_edge {bracket c : Char} (visible : Text.isBlank bracket = false)
    (edge : (c.isDigit || c == '.' || c == bracket) = true) : Text.isBlank c = false := by
  rw [Bool.or_eq_true, Bool.or_eq_true, beq_iff_eq, beq_iff_eq] at edge
  rcases edge with (digit | rfl) | rfl
  · exact Text.isBlank_of_isDigit digit
  · rfl
  · exact visible

theorem isFront_of_isBlank {c : Char} (blank : Text.isBlank c = true) : isFront c = false := by
  by_contra front
  rw [isBlank_of_edge rfl (eq_true_of_ne_false front)] at blank
  cases blank

theorem isBack_of_isBlank {c : Char} (blank : Text.isBlank c = true) : isBack c = false := by
  by_contra back
  rw [isBlank_of_edge rfl (eq_true_of_ne_false back)] at blank
  cases blank

namespace Mark

/-- Whether an operand begins with the mark. -/
def begins : Mark → Bool
  | number _ | call _ | opening => true
  | _ => false

/-- Whether an operand ends with the mark. -/
def ends : Mark → Bool
  | number _ | closing => true
  | _ => false

theorem stops_of_not_begins {m : Mark} (other : m.begins = false) (rest : List Char) :
    Text.Stops isFront (m.text ++ rest) := by
  cases m with
  | number | call | opening => cases other
  | closing => exact Text.stops_cons (by decide)
  | comma => exact Text.stops_cons (by decide)
  | operator op => cases op <;> exact Text.stops_cons (by decide)

theorem stops_of_not_ends {m : Mark} (other : m.ends = false) (front : List Char) :
    Text.Stops isBack (front ++ m.text).reverse := by
  rw [List.reverse_append]
  cases m with
  | number | closing => cases other
  | call f =>
      rw [text, List.reverse_append]
      exact Text.stops_cons (by decide)
  | opening => exact Text.stops_cons (by decide)
  | comma => exact Text.stops_cons (by decide)
  | operator op => cases op <;> exact Text.stops_cons (by decide)

end Mark

namespace Spaced

/-- What ends an operand does not stand in front of what begins one. -/
def Sided (ms : List Spaced) : Prop :=
  ms.IsChain fun a b => a.mark.ends = true → b.mark.begins = false

theorem sided_link {m : Spaced} (ms : List Spaced) {ms' : List Spaced} (left : Sided ms)
    (right : Sided ms') (first : ms = [] ∨ m.mark.begins = false)
    (last : ms' = [] ∨ m.mark.ends = false) : Sided (ms ++ m :: ms') := by
  refine left.append (List.isChain_cons.2 ⟨fun b mem ending => ?_, right⟩) fun a mem b mem' _ => ?_
  · rcases last with rfl | other
    · cases mem
    · rw [other] at ending
      cases ending
  · rcases first with rfl | other
    · cases mem
    · cases mem'
      exact other

variable {front back : List Spaced} {m : Spaced} (sided : Sided (front ++ m :: back))
include sided

/-- Nothing in front of an operand ends another. -/
theorem stops_before (begins : m.mark.begins = true) :
    Text.Stops isBack (textAll front ++ m.gap).reverse := by
  rcases List.eq_nil_or_concat m.gap with none | ⟨gap, c, some_⟩
  · rcases List.eq_nil_or_concat front with rfl | ⟨others, a, rfl⟩
    · rw [none]
      exact Text.stops_nil _
    · have other : a.mark.ends = false := by
        by_contra ending
        rw [Bool.not_eq_false] at ending
        rw [List.concat_eq_append, List.append_assoc] at sided
        have joint := (List.isChain_append.1 sided).2.1
        rw [(List.isChain_cons_cons.1 joint).1 ending] at begins
        cases begins
      rw [none, List.append_nil, List.concat_eq_append, textAll_append]
      have last := Mark.stops_of_not_ends other (textAll others ++ a.gap)
      simpa [textAll, text] using last
  · have blank : Text.isBlank c = true := by
      refine List.all_eq_true.1 m.blank c ?_
      rw [some_]
      simp
    rw [some_, List.concat_eq_append, ← List.append_assoc, List.reverse_append]
    exact Text.stops_cons (isBack_of_isBlank blank)

/-- Nothing behind an operand begins another. -/
theorem stops_behind (ends : m.mark.ends = true) {gap : List Char}
    (blank : Text.allBlank gap = true) : Text.Stops isFront (textAll back ++ gap) := by
  have blanks {gap : List Char} (blank : Text.allBlank gap = true) {rest : List Char}
      (stops : Text.Stops isFront rest) : Text.Stops isFront (gap ++ rest) := by
    cases gap with
    | nil => exact stops
    | cons c gap =>
        exact Text.stops_cons (isFront_of_isBlank (List.all_eq_true.1 blank c List.mem_cons_self))
  cases back with
  | nil =>
      have nothing := blanks blank (Text.stops_nil isFront)
      rwa [List.append_nil] at nothing
  | cons b back =>
      have joint := (List.isChain_append.1 sided).2.1
      have other := (List.isChain_cons_cons.1 joint).1 ends
      have first := blanks b.blank (Mark.stops_of_not_begins other (textAll back ++ gap))
      simpa [textAll, text] using first

end Spaced

/-- **No two operands of an expression stand next to each other.** -/
theorem sided_of_reads {part : Part} {ms : List Spaced} {es : List Expr}
    (reads : Reads part ms es) : Spaced.Sided ms := by
  have nothing : Spaced.Sided [] := List.IsChain.nil
  induction reads with
  | number _ => exact List.isChain_singleton _
  | call name closes _ ih =>
      have front := Spaced.sided_link [] nothing ih (.inl rfl) (.inr (by rw [name]; rfl))
      exact Spaced.sided_link _ front nothing (.inr (by rw [closes]; rfl)) (.inl rfl)
  | group opens closes _ ih =>
      have front := Spaced.sided_link [] nothing ih (.inl rfl) (.inr (by rw [opens]; rfl))
      exact Spaced.sided_link _ front nothing (.inr (by rw [closes]; rfl)) (.inl rfl)
  | unsigned _ ih => exact ih
  | plus sign _ ih | minus sign _ ih =>
      exact Spaced.sided_link [] nothing ih (.inl rfl) (.inr (by rw [sign]; rfl))
  | factor _ ih => exact ih
  | product between _ _ _ ihLeft ihRight =>
      exact Spaced.sided_link _ ihLeft ihRight (.inr (by rw [between]; rfl))
        (.inr (by rw [between]; rfl))
  | summand _ ih => exact ih
  | sum between _ _ _ ihLeft ihRight =>
      exact Spaced.sided_link _ ihLeft ihRight (.inr (by rw [between]; rfl))
        (.inr (by rw [between]; rfl))
  | argument _ ih => exact ih
  | arguments between _ _ ihFirst ihOthers =>
      exact Spaced.sided_link _ ihFirst ihOthers (.inr (by rw [between]; rfl))
        (.inr (by rw [between]; rfl))

/-! ## Cuts -/

/-- What stands behind white space. -/
theorem exists_behind_gap {gap s front behind : List Char} {c : Char}
    (blank : Text.allBlank gap = true) (visible : Text.isBlank c = false)
    (text : gap ++ s = front ++ c :: behind) :
    ∃ front', front = gap ++ front' ∧ s = front' ++ c :: behind := by
  rcases List.append_eq_append_iff.1 text with ⟨front', whole, rest⟩ | ⟨u, whole, rest⟩
  · exact ⟨front', whole, rest⟩
  · cases u with
    | nil =>
        rw [List.append_nil] at whole
        exact ⟨[], by rw [whole, List.append_nil], rest.symm⟩
    | cons c' u =>
        obtain ⟨rfl, -⟩ := List.cons.inj rest
        have white := List.all_eq_true.1 blank c (by rw [whole]; simp)
        rw [visible] at white
        cases white

/-- A cut between what could end an operand and what could begin one lies inside of a mark. -/
theorem cut_inside {ms : List Spaced} (sided : Spaced.Sided ms) {gap : List Char}
    (blank : Text.allBlank gap = true) {front behind : List Char} {c d : Char}
    (back : isBack c = true) (begins : isFront d = true)
    (text : Spaced.textAll ms ++ gap = front ++ c :: d :: behind) :
    ∃ before m rest p q, ms = before ++ m :: rest ∧ m.mark.text = p ++ c :: d :: q ∧
      front = Spaced.textAll before ++ m.gap ++ p ∧
      behind = q ++ (Spaced.textAll rest ++ gap) := by
  have visible : Text.isBlank c = false := by
    by_contra white
    rw [isBack_of_isBlank (by simpa using white)] at back
    cases back
  induction ms generalizing front with
  | nil =>
      have whole : gap = front ++ c :: d :: behind := text
      have white := List.all_eq_true.1 blank c (by rw [whole]; simp)
      rw [visible] at white
      cases white
  | cons m ms ih =>
      have others : Spaced.Sided ms := (List.isChain_cons.1 sided).2
      -- the cut is found further on
      have later (u : List Char) (same : front = m.gap ++ m.mark.text ++ u)
          (left : Spaced.textAll ms ++ gap = u ++ c :: d :: behind) :
          ∃ before m' rest p q, m :: ms = before ++ m' :: rest ∧ m'.mark.text = p ++ c :: d :: q ∧
            front = Spaced.textAll before ++ m'.gap ++ p ∧
            behind = q ++ (Spaced.textAll rest ++ gap) := by
        obtain ⟨before, m', rest, p, q, rfl, inside, start, stop⟩ := ih others left
        refine ⟨m :: before, m', rest, p, q, rfl, inside, ?_, stop⟩
        rw [same, start, Spaced.textAll_cons]
        simp
      rw [Spaced.textAll_cons, List.append_assoc, List.append_assoc] at text
      obtain ⟨front', rfl, behindGap⟩ := exists_behind_gap m.blank visible text
      rcases List.append_eq_append_iff.1 behindGap with ⟨u, rfl, left⟩ | ⟨u, inside, rest⟩
      · exact later u (List.append_assoc _ _ _).symm left
      · cases u with
        | nil =>
            rw [List.append_nil] at inside
            exact later [] (by rw [inside, List.append_nil]) rest.symm
        | cons c' u =>
            obtain ⟨rfl, next⟩ := List.cons.inj rest
            cases u with
            | nil =>
                -- the cut would lie between two marks
                cases ends : m.mark.ends with
                | true =>
                    have whole : Spaced.Sided ([] ++ m :: ms) := sided
                    have stops := Spaced.stops_behind whole ends blank
                    have left : d :: behind = Spaced.textAll ms ++ gap := next
                    rw [← left] at stops
                    rw [stops d rfl] at begins
                    cases begins
                | false =>
                    have stops := Mark.stops_of_not_ends ends []
                    rw [inside, List.nil_append, List.reverse_append] at stops
                    rw [stops c rfl] at back
                    cases back
            | cons d' q =>
                obtain ⟨rfl, left⟩ := List.cons.inj next
                exact ⟨[], m, ms, front', q, rfl, inside, rfl, left⟩

/-! ## Letters -/

/-- A letter that no value is written with. -/
def isForeign (c : Char) : Bool :=
  c.isLower && c != 'i' && c != 'n' && c != 'f' && c != 'a'

/-- The name of every function has such a letter. -/
theorem any_foreign (f : MathFunction) : f.name.toList.any isForeign = true := by
  cases f <;> rfl

theorem isForeign_of_isDigit {c : Char} (digit : c.isDigit = true) : isForeign c = false := by
  have bounds : 48 ≤ c.toNat ∧ c.toNat ≤ 57 := Char.isDigit_iff_toNat.1 digit
  have value : c.val.toNat = c.toNat := rfl
  by_contra strange
  simp only [Bool.not_eq_false, isForeign, Bool.and_eq_true, Char.isLower, decide_eq_true_eq,
    UInt32.le_iff_toNat_le, ge_iff_le, value, Char.reduceVal, UInt32.reduceToNat] at strange
  obtain ⟨⟨⟨⟨⟨low, -⟩, -⟩, -⟩, -⟩, -⟩ := strange
  omega

/-- The characters of marks. -/
theorem chars_mark {m : Mark} (other : ∀ f, m ≠ .call f) {c : Char} (mem : c ∈ m.text) :
    c.isDigit = true ∨ c ∈ ['.', '(', ')', ',', '+', '-', '*', '/'] := by
  cases m with
  | call f => exact absurd rfl (other f)
  | number n =>
      rcases n.chars_text mem with digit | rfl
      · exact .inl digit
      · exact .inr (by decide)
  | opening | closing | comma =>
      rw [List.mem_singleton.1 mem]
      exact .inr (by decide)
  | operator op =>
      rw [List.mem_singleton.1 mem]
      cases op <;> exact .inr (by decide)

theorem isForeign_of_mem_written {item : Item} {c : Char} (mem : c ∈ written item) :
    isForeign c = false := by
  have symbols : ∀ c ∈ ['-', '.', 'i', 'n', 'f', 'N', 'a', '(', ')', ' ', '+', '*', '/'],
      isForeign c = false := by
    have all : ['-', '.', 'i', 'n', 'f', 'N', 'a', '(', ')', ' ', '+', '*', '/'].all
        (fun c => !isForeign c) = true := rfl
    intro c mem
    simpa using List.all_eq_true.1 all c mem
  have number (x : Float) (mem : c ∈ (formulaNumber x).toList) : isForeign c = false := by
    rcases Numeral.chars_formulaNumber mem with digit | word
    · exact isForeign_of_isDigit digit
    · exact symbols c (List.mem_append_left ['(', ')', ' ', '+', '*', '/'] word)
  cases item with
  | operator op =>
      simp only [written, List.mem_cons, List.not_mem_nil, or_false] at mem
      rcases mem with rfl | rfl | rfl
      · rfl
      · cases op <;> rfl
      · rfl
  | value x =>
      unfold written at mem
      dsimp only at mem
      split at mem
      · rcases List.mem_append.1 mem with mem | mem
        · rcases List.mem_cons.1 mem with rfl | mem
          · rfl
          · exact number x mem
        · rw [List.mem_singleton.1 mem]
          rfl
      · exact number x mem
  | unresolved term => cases mem

/-! ## Values next to each other -/

/-- Values that are written without anything between their digits, as one number. -/
structure Fuse (a b : Float) : Prop where
  finite : a.isFinite = true ∧ b.isFinite = true
  nonneg : ¬ a < 0 ∧ ¬ b < 0
  /-- a number has one point at most -/
  pointless : '.' ∉ (formulaNumber a).toList ∨ '.' ∉ (formulaNumber b).toList

/-- The text of items with a total is that of an expression, and no functions are in it. -/
theorem reads_of_total {items : List Item} {x : Float} (ok : Item.total items = .ok x) :
    (∀ item ∈ items, isResolved item = true) ∧
      ∃ ms gap e, Reads .sum ms [e] ∧ Text.allBlank gap = true ∧
        items.flatMap written = Spaced.textAll ms ++ gap ∧ ∀ m ∈ ms, ∀ f, m.mark ≠ .call f := by
  have resolved := resolved_of_total ok
  refine ⟨resolved, ?_⟩
  rw [total_eq_evaluate resolved, evaluate, String.toList_ofList] at ok
  cases read : Expr.read? (items.flatMap written) with
  | none => rw [read] at ok; cases ok
  | some e =>
      obtain ⟨ms, gap, reads, blank, text⟩ := (read?_iff _ e).1 read
      refine ⟨ms, gap, e, reads, blank, text, fun m mem f call => ?_⟩
      obtain ⟨c, letter, strange⟩ := List.any_eq_true.1 (any_foreign f)
      have here : c ∈ items.flatMap written := by
        rw [text]
        refine List.mem_append_left _ (List.mem_flatMap.2 ⟨m, mem, ?_⟩)
        rw [Spaced.text, call]
        exact List.mem_append_right _ (List.mem_append_left _ letter)
      obtain ⟨item, -, mem'⟩ := List.mem_flatMap.1 here
      rw [isForeign_of_mem_written mem'] at strange
      cases strange

/-- A value is written without letters if an expression can have it. -/
theorem finite_of_chars {x : Float} (plain : ∀ c ∈ (formulaNumber x).toList, c ≠ 'n' ∧ c ≠ 'N') :
    x.isFinite = true := by
  by_contra infinite
  have words := Numeral.formulaNumber_of_nonfinite (by simpa using infinite)
  revert words plain
  generalize (formulaNumber x).toList = word
  intro plain words
  simp only [List.mem_cons, List.not_mem_nil, or_false] at words
  rcases words with rfl | rfl | rfl
  · exact (plain 'n' (by decide)).1 rfl
  · exact (plain 'n' (by decide)).1 rfl
  · exact (plain 'N' (by decide)).2 rfl

/-- The characters of expressions without functions. -/
theorem chars_textAll {ms : List Spaced} (simple : ∀ m ∈ ms, ∀ f, m.mark ≠ .call f)
    {gap : List Char} (blank : Text.allBlank gap = true) {c : Char}
    (mem : c ∈ Spaced.textAll ms ++ gap) :
    Text.isBlank c = true ∨ c.isDigit = true ∨ c ∈ ['.', '(', ')', ',', '+', '-', '*', '/'] := by
  rcases List.mem_append.1 mem with mem | mem
  · obtain ⟨m, member, mem⟩ := List.mem_flatMap.1 mem
    rcases List.mem_append.1 mem with mem | mem
    · exact .inl (List.all_eq_true.1 m.blank c mem)
    · exact .inr (chars_mark (simple m member) mem)
  · exact .inl (List.all_eq_true.1 blank c mem)

/-- All values are finite where there is a total. -/
theorem finite_of_total {items : List Item} {x y : Float} (ok : Item.total items = .ok x)
    (mem : .value y ∈ items) : y.isFinite = true := by
  obtain ⟨-, ms, gap, e, -, blank, text, simple⟩ := reads_of_total ok
  have among {c : Char} (char : c ∈ (formulaNumber y).toList) : c ∈ Spaced.textAll ms ++ gap := by
    rw [← text]
    refine List.mem_flatMap.2 ⟨_, mem, ?_⟩
    unfold written
    dsimp only
    split
    · exact List.mem_append_left _ (List.mem_cons_of_mem _ char)
    · exact char
  refine finite_of_chars fun c char => ?_
  have plain := chars_textAll simple blank (among char)
  constructor
  · rintro rfl
    exact absurd plain (by decide)
  · rintro rfl
    exact absurd plain (by decide)

/-- How a finite value is written where it ends an operand. -/
theorem exists_back {x : Float} (finite : x.isFinite = true) :
    ∃ s c, written (.value x) = s ++ [c] ∧ isBack c = true ∧ (x < 0 → c = ')') := by
  unfold written
  dsimp only
  split
  · exact ⟨_, ')', rfl, rfl, fun _ => rfl⟩
  · rename_i nonneg
    obtain ⟨n, text, -⟩ := Numeral.formulaNumber_of_nonneg finite nonneg
    obtain ⟨s, c, last, digit⟩ := n.exists_last
    refine ⟨s, c, text.trans last, ?_, fun negative => absurd negative nonneg⟩
    rw [isBack, digit]
    rfl

/-- How a finite value is written where it begins an operand. -/
theorem exists_front {x : Float} (finite : x.isFinite = true) :
    ∃ c s, written (.value x) = c :: s ∧ isFront c = true ∧ (x < 0 → c = '(') := by
  unfold written
  dsimp only
  split
  · exact ⟨'(', _, rfl, rfl, fun _ => rfl⟩
  · rename_i nonneg
    obtain ⟨n, text, -⟩ := Numeral.formulaNumber_of_nonneg finite nonneg
    obtain ⟨c, s, first, digit⟩ := n.exists_head
    refine ⟨c, s, text.trans first, ?_, fun negative => absurd negative nonneg⟩
    rw [isFront, digit]
    rfl

/-- Numerals around a cut inside of a number are part of that number. -/
theorem pointless_of_cut {before rest : List Spaced} {m : Spaced}
    (sided : Spaced.Sided (before ++ m :: rest)) {gap : List Char}
    (blank : Text.allBlank gap = true) {n a b : Numeral} (number : m.mark = .number n)
    {p q front behind : List Char} (inside : n.text = p ++ q)
    (left : Spaced.textAll before ++ m.gap ++ p = front ++ a.text)
    (right : q ++ (Spaced.textAll rest ++ gap) = b.text ++ behind) :
    '.' ∉ a.text ∨ '.' ∉ b.text := by
  have leftStops := Spaced.stops_before sided (by rw [number]; rfl)
  have rightStops := Spaced.stops_behind sided (by rw [number]; rfl) blank
  have numeral (n : Numeral) {c : Char} (mem : c ∈ n.text) : isFront c = true ∧ isBack c = true := by
    rw [isFront, isBack, n.digit_or_point c mem]
    exact ⟨rfl, rfl⟩
  have leftPart : a.text.count '.' ≤ p.count '.' := by
    rcases List.append_eq_append_iff.1 left with ⟨u, -, part⟩ | ⟨u, whole, part⟩
    · rw [part, List.count_append]
      exact Nat.le_add_left _ _
    · rcases List.eq_nil_or_concat u with rfl | ⟨u, c, rfl⟩
      · rw [part, List.nil_append]
      · rw [whole, List.concat_eq_append, ← List.append_assoc, List.reverse_append] at leftStops
        have back := (numeral a (c := c) (by rw [part]; simp)).2
        rw [leftStops c rfl] at back
        cases back
  have rightPart : b.text.count '.' ≤ q.count '.' := by
    rcases List.append_eq_append_iff.1 right with ⟨u, part, whole⟩ | ⟨u, part, -⟩
    · cases u with
      | nil => rw [part, List.append_nil]
      | cons c u =>
          rw [whole] at rightStops
          have front := (numeral b (c := c) (by rw [part]; simp)).1
          rw [rightStops c rfl] at front
          cases front
    · rw [part, List.count_append]
      exact Nat.le_add_right _ _
  have one := n.count_point
  rw [inside, List.count_append] at one
  by_contra both
  rw [not_or, not_not, not_not] at both
  have := List.count_pos_iff.2 both.1
  have := List.count_pos_iff.2 both.2
  omega

/-- Of all marks but functions only numbers are longer than a character. -/
theorem number_of_inside {m : Mark} (other : ∀ f, m ≠ .call f) {p q : List Char} {c d : Char}
    (inside : m.text = p ++ c :: d :: q) : ∃ n, m = .number n := by
  have long (k : Char) : [k] ≠ p ++ c :: d :: q := fun same => by
    have := congrArg List.length same
    simp only [List.length_append, List.length_cons, List.length_nil] at this
    omega
  cases m with
  | number n => exact ⟨n, rfl⟩
  | call f => exact absurd rfl (other f)
  | opening | closing | comma | operator => exact absurd inside (long _)

/-- **Values next to each other have a total only if they fuse.** -/
theorem fuse_of_total {front behind : List Item} {a b x : Float}
    (ok : Item.total (front ++ .value a :: .value b :: behind) = .ok x) : Fuse a b := by
  obtain ⟨-, ms, gap, e, reads, blank, text, simple⟩ := reads_of_total ok
  have sided := sided_of_reads reads
  have finiteLeft := finite_of_total ok (y := a) (by simp)
  have finiteRight := finite_of_total ok (y := b) (by simp)
  obtain ⟨s, c, left, back, closes⟩ := exists_back finiteLeft
  obtain ⟨d, t, right, begins, opens⟩ := exists_front finiteRight
  have laid : Spaced.textAll ms ++ gap =
      front.flatMap written ++ s ++ c :: d :: (t ++ behind.flatMap written) := by
    rw [← text]
    simp [left, right]
  obtain ⟨before, m, rest, p, q, rfl, inside, start, stop⟩ :=
    cut_inside sided blank back begins laid
  -- parentheses are marks of their own, and no part of a number
  obtain ⟨n, number⟩ := number_of_inside (simple m (by simp)) inside
  rw [number] at inside
  have chars {k : Char} (mem : k ∈ p ++ c :: d :: q) : k.isDigit = true ∨ k = '.' :=
    n.chars_text (by rw [← inside] at mem; exact mem)
  have nonnegLeft : ¬ a < 0 := by
    intro negative
    have := chars (k := c) (by simp)
    rw [closes negative] at this
    revert this
    decide
  have nonnegRight : ¬ b < 0 := by
    intro negative
    have := chars (k := d) (by simp)
    rw [opens negative] at this
    revert this
    decide
  obtain ⟨na, textLeft, -⟩ := Numeral.formulaNumber_of_nonneg finiteLeft nonnegLeft
  obtain ⟨nb, textRight, -⟩ := Numeral.formulaNumber_of_nonneg finiteRight nonnegRight
  refine ⟨⟨finiteLeft, finiteRight⟩, ⟨nonnegLeft, nonnegRight⟩, ?_⟩
  simp only [written, nonnegLeft, nonnegRight, if_false, textLeft, textRight] at left right
  rw [textLeft, textRight]
  have leftText : Spaced.textAll before ++ m.gap ++ (p ++ [c]) =
      front.flatMap written ++ na.text := by
    rw [left, ← List.append_assoc, ← List.append_assoc, start]
  have rightText : d :: q ++ (Spaced.textAll rest ++ gap) = nb.text ++ behind.flatMap written := by
    rw [right, List.cons_append, List.cons_append, stop]
  have shared : n.text = (p ++ [c]) ++ d :: q := by
    rw [List.append_assoc]
    exact inside
  exact pointless_of_cut sided blank number shared leftText rightText

end DiceFormula.Arithmetic
