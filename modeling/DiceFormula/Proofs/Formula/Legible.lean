/-
# DiceFormula.Proofs.Formula.Legible -- formulas that are read from their own text

The terms of a formula are `Legible` if neighbours are joined, signs are bound to no number that
they do not belong to, fragments wait for what is beside them, and each term is `Faithful`: its text by
itself says all there is to it.  Numbers are finite, counts are not zero, flavors hold no bracket
that would end them, nothing is rolled yet, and a fragment is one piece of text that is no number.

If that holds at every level, the text of the formula is read as equal terms (`read_legible`).  The
induction is on the depth of groups: `exists_shown_faithful` reads a term beside others, and what is in
its groups is read with less depth (`exists_reproduces`).
-/
import DiceFormula.Proofs.Formula.Shown

namespace DiceFormula

set_option autoImplicit false

/-! ## Texts of fragments -/

/-- Whether the lexeme can stand in the text of an operand. -/
def Lexeme.isInner : Lexeme → Bool
  | .char c => !isBracket c && (Operator.ofSymbol? c).isNone && c != ','
  | .flavor _ => true
  | .unclosedFlavor _ => false

/-- Nothing in the text divides it: outside of its flavor there are no brackets, no operators and no
commas. -/
def Fragment.Undivided (text : String) : Prop :=
  ∀ l ∈ Lexeme.scan text.toList, l.isInner = true

instance (text : String) : Decidable (Fragment.Undivided text) :=
  List.decidableBAll _ _

/-- Lexemes of an operand, as a tree. -/
theorem Matched.exists_of_inner {ls : List Lexeme} (closed : ∀ l ∈ ls, l.Closed)
    (inner : ∀ l ∈ ls, l.isInner = true) :
    ∃ m : Matched, m.lexemes = ls ∧ m.Bare ∧ m.Guarded ∧ ∀ l ∈ ls, Cut.operator? l = none := by
  induction ls with
  | nil => exact ⟨nil, rfl, trivial, trivial, List.forall_mem_nil _⟩
  | cons l ls ih =>
      obtain ⟨closedFirst, closedOthers⟩ := List.forall_mem_cons.1 closed
      obtain ⟨first, others⟩ := List.forall_mem_cons.1 inner
      obtain ⟨m, lexemes, bare, guarded, other⟩ := ih closedOthers others
      cases l with
      | char c =>
          simp only [Lexeme.isInner, Bool.and_eq_true, Bool.not_eq_true', Option.isNone_iff_eq_none,
            bne_iff_ne] at first
          obtain ⟨⟨plain, operand⟩, comma⟩ := first
          exact ⟨char c plain m, congrArg (Lexeme.char c :: ·) lexemes, bare, ⟨comma, guarded⟩,
            List.forall_mem_cons.2 ⟨operand, other⟩⟩
      | flavor text =>
          exact ⟨flavor text closedFirst m, congrArg (Lexeme.flavor text :: ·) lexemes, bare, guarded,
            List.forall_mem_cons.2 ⟨rfl, other⟩⟩
      | unclosedFlavor rest => cases first

/-- A text that nothing divides, as a tree. -/
theorem Matched.exists_of_undivided {text : String} (undivided : Fragment.Undivided text) :
    ∃ m : Matched, m.text = text.toList ∧ m.Bare ∧ m.Guarded ∧
      ∀ l ∈ m.lexemes, Cut.operator? l = none := by
  have closed : ∀ l ∈ Lexeme.scan text.toList, l.Closed := by
    intro l mem
    rcases Lexeme.closed_scan text.toList l mem with closed | ⟨rest, rfl⟩
    · exact closed
    · cases undivided _ mem
  obtain ⟨m, lexemes, bare, guarded, other⟩ := exists_of_inner closed undivided
  refine ⟨m, ?_, bare, guarded, lexemes ▸ other⟩
  rw [← textAll_lexemes, lexemes, Lexeme.textAll_scan]

namespace Term

/-! ## Legible terms -/

/-- A flavor that does not end early. -/
abbrev Closed (flavor : Option String) : Prop := ∀ f, flavor = some f → ']' ∉ f.toList

/-- A flavor that is cut off where it starts. -/
abbrev Opened (flavor : Option String) : Prop := ∀ f, flavor = some f → '[' ∉ f.toList

/-- The text of the term says all there is to it, if that of what is in it does. -/
def Faithful : Term → Prop
  | number x flavor => x.isFinite = true ∧ (x < 0 → flavor = none) ∧ Opened flavor ∧ Closed flavor
  | operator _ => True
  | dice rolled evaluated flavor =>
      rolled.rolls = [] ∧ evaluated = false ∧ rolled.dice.Writable ∧ Opened flavor ∧ Closed flavor
  | pool members modifiers results evaluated flavor =>
      (members ≠ [] ∧ [] ∉ members) ∧ (∀ m ∈ modifiers, m.isSelective = true ∧ m.Writable) ∧
        results = [] ∧ evaluated = false ∧ Closed flavor
  | call _ args flavor => (args ≠ [] ∧ [] ∉ args) ∧ Closed flavor
  | group inner flavor => inner ≠ [] ∧ Closed flavor
  | fragment text =>
      Text.Trimmed text.toList ∧ Fragment.Undivided text ∧
        Fragment.number? (Fragment.splitFlavor text.toList).1 = none ∧
          Fragment.isNumeric text.toList = false

/-- The terms of one level of a formula that is read from its own text. -/
structure Legible (ts : List Term) : Prop where
  joined : ts.IsChain Joined
  signs : SignsBound true ts
  waiting : FragmentsFrom Fragment.Waits none ts
  faithful : ∀ t ∈ ts, t.Faithful

/-! ## Lengths -/

theorem length_text_le {ts : List Term} {t : Term} (mem : t ∈ ts) (operand : t.isOperator = false)
    (afterOperand : Bool) :
    t.text.toList.length ≤ (textFrom afterOperand ts).toList.length := by
  induction ts generalizing afterOperand with
  | nil => cases mem
  | cons u ts ih =>
      rcases List.mem_cons.1 mem with rfl | member
      · rw [textFrom_operand _ operand, String.toList_append, List.length_append]
        omega
      · by_cases first : u.isOperator = false
        · have := ih member true
          rw [textFrom_operand _ first, String.toList_append, List.length_append]
          omega
        · obtain ⟨op, rfl⟩ : ∃ op, u = .operator op := by
            cases u <;> first | exact ⟨_, rfl⟩ | exact absurd rfl first
          have := ih member false
          rw [textFrom, String.toList_append, List.length_append]
          omega

theorem textLists_eq (lists : List (List Term)) : textLists lists = lists.map formulaText := by
  induction lists with
  | nil => rfl
  | cons ts lists ih => rw [textLists, ih, List.map_cons, formulaText]

theorem length_formulaText_le {lists : List (List Term)} {ts : List Term} (mem : ts ∈ lists) :
    (formulaText ts).toList.length ≤ (", ".intercalate (textLists lists)).toList.length := by
  rw [String.toList_intercalate]
  refine Text.length_le_intercalate (List.mem_map_of_mem ?_)
  rw [textLists_eq]
  exact List.mem_map_of_mem mem

/-- What is in a term is shorter than its text by the brackets around it. -/
theorem length_inner {t : Term} {us : List Term} (mem : us ∈ t.inner) :
    (formulaText us).toList.length + 2 ≤ t.text.toList.length := by
  have opening : ("(" : String).toList.length = 1 := rfl
  have closing : (")" : String).toList.length = 1 := rfl
  have opening' : ("\x7b" : String).toList.length = 1 := rfl
  have closing' : ("\x7d" : String).toList.length = 1 := rfl
  cases t with
  | pool members modifiers results evaluated flavor =>
      have shorter : _ ≤ (", ".intercalate (textLists members)).toList.length :=
        length_formulaText_le mem
      rw [Term.text, poolText]
      simp only [String.toList_append, List.length_append]
      omega
  | call f args flavor =>
      have shorter : _ ≤ (", ".intercalate (textLists args)).toList.length :=
        length_formulaText_le mem
      rw [Term.text, callText]
      simp only [String.toList_append, List.length_append]
      omega
  | group inner flavor =>
      obtain rfl := List.mem_singleton.1 mem
      rw [Term.text, ← formulaText]
      simp only [String.toList_append, List.length_append]
      omega
  | _ => cases mem

/-! ## Numbers, dice and fragments -/

section Alone

variable (read : SubReader)

/-- A text without groups has the links that it is cut into, alone and in front of a group. -/
theorem shown_leaf {t t' : Term} {m : Matched} {ls : List Link} (bare : m.Bare)
    (leaf : t.isGroup = false) (text : m.text = t.text.toList) (guarded : m.Guarded)
    (visible : Text.allBlank m.text = false) (cut : Link.ofText m.text = ls) (shows : Shows t ls t')
    (same : beq t' t = true) : Shown read t m ls t' where
  text := text
  guarded := guarded
  visible := visible
  links := cut ▸ Formula.links?_bare read bare
  joins u s meets _ := by
    have group := meets.nested.resolve_left (by simp [leaf])
    have nested := isNested_of_isGroup group
    rw [← cut]
    exact Formula.links?_bare_append read bare
      (text ▸ parts_of_leavesName nested meets.name s) (opens_of_isNested nested s)
  shows := shows
  same := same

theorem shown_number {x : Float} {flavor : Option String} (finite : x.isFinite = true)
    (nonneg : ¬ x < 0) (opened : Opened flavor) (closed : Closed flavor) :
    ∃ m ls t', Shown read (.number x flavor) m ls t' := by
  obtain ⟨n, text, alike⟩ := Numeral.formulaNumber_of_nonneg finite nonneg
  have body := isBody_numeral n
  refine ⟨bodyMatched body flavor closed, _, _, shown_leaf read (bare_bodyMatched body flavor closed)
    rfl ?_ (guarded_bodyMatched body flavor closed) ?_ ?_ (.number n nonneg opened) ?_⟩
  · rw [text_bodyMatched, Term.text, String.toList_append, text, flavorChars]
  · rw [text_bodyMatched, visible_body body n.text_ne_nil]
  · rw [text_bodyMatched, ofText_body body n.text_ne_nil flavor closed]
  · have equal : (n.value == x) = true :=
      (Double.beq_iff_alike (alike.isFinite.trans finite) x).2 alike
    simp [beq, equal]

theorem shown_negative {x : Float} (finite : x.isFinite = true) (negative : x < 0) :
    ∃ m ls t', Shown read (.number x none) m ls t' := by
  obtain ⟨n, text, value⟩ := Numeral.formulaNumber_of_neg finite negative
  have body := isBody_numeral n
  have text' : ((symbol .subtract).append (bodyMatched body none forall_none)).text = '-' :: n.text := by
    rw [Matched.text_append, text_bodyMatched, append_flavorChars_none]
    rfl
  have bare : ((symbol .subtract).append (bodyMatched body none forall_none)).Bare :=
    Matched.bare_append trivial (bare_bodyMatched body none forall_none)
  refine ⟨_, _, _, shown_leaf read bare rfl ?_
    ⟨by decide, guarded_bodyMatched body none forall_none⟩ ?_ ?_ (.negative n negative) ?_⟩
  · rw [text', Term.text, flavorText, String.append_empty, text]
  · rw [text']
    rfl
  · have cut := ofText_body body n.text_ne_nil none forall_none
    rw [append_flavorChars_none] at cut
    rw [text']
    have signed : Link.ofText ([] ++ Operator.symbol .subtract :: n.text) =
        Link.ofText [] ++ .operator .subtract :: Link.ofText n.text := Strand.ofText_join .nil n.text
    have nothing : Link.ofText [] = [] := Link.ofText_blank rfl
    rw [cut, nothing] at signed
    exact signed
  · rw [value, Double.neg_neg]
    simp [beq, Double.beq_self_of_finite finite]

theorem shown_dice {d : Dice} {flavor : Option String} (writable : d.Writable)
    (opened : Opened flavor) (closed : Closed flavor) :
    ∃ m ls t', Shown read (.ofDice d flavor) m ls t' := by
  have body := isBody_dice writable.modifiers
  have nonempty := Dice.Reader.text_ne_nil d
  refine ⟨bodyMatched body flavor closed, _, _, shown_leaf read (bare_bodyMatched body flavor closed)
    rfl ?_ (guarded_bodyMatched body flavor closed) ?_ ?_ (.dice writable opened) ?_⟩
  · rw [text_bodyMatched, ofDice, Term.text, String.toList_append, flavorChars, Rolled.unrolled]
  · rw [text_bodyMatched, visible_body body nonempty]
  · rw [text_bodyMatched, ofText_body body nonempty flavor closed]
  · simp [ofDice, beq]

theorem shown_fragment {text : String} (trimmed : Text.Trimmed text.toList)
    (undivided : Fragment.Undivided text)
    (number : Fragment.number? (Fragment.splitFlavor text.toList).1 = none)
    (numeric : Fragment.isNumeric text.toList = false) :
    ∃ m ls t', Shown read (.fragment text) m ls t' := by
  obtain ⟨m, whole, bare, guarded, other⟩ := Matched.exists_of_undivided undivided
  have visible : Text.allBlank m.text = false := by rw [whole, trimmed.allBlank_eq]
  refine ⟨m, _, _, shown_leaf read bare rfl whole guarded visible ?_ (.fragment number numeric) ?_⟩
  · rw [Formula.ofText_operand other visible, whole, trimmed.trim_eq]
  · simp [beq]

end Alone

/-! ## Groups, calls and pools -/

/-- The text of the terms of one level is read as equal terms. -/
structure Reproduces (depth : Nat) (ts : List Term) (m : Matched) (ts' : List Term) : Prop where
  text : m.text = (formulaText ts).toList
  guarded : m.Guarded
  visible : Text.allBlank m.text = false
  reads : Formula.reads? depth m.text = some ts'
  same : beqAll ts' ts = true

theorem exists_reproduces_shown {depth : Nat} {ts : List Term} (legible : Legible ts)
    (nonempty : ts ≠ [])
    (each : ∀ t ∈ ts, t.isOperator = false → ∃ m ls t', Shown (Formula.reader depth) t m ls t') :
    ∃ m ts', Reproduces (depth + 1) ts m ts' := by
  obtain ⟨m, ls, ts', shown⟩ := exists_shown legible.joined each false
  refine ⟨m, ts', shown.text, shown.guarded, shown.visible nonempty, ?_, shown.same⟩
  rw [Formula.reads?_succ, shown.links, Option.bind_some]
  exact settle?_shows shown.shows legible.joined legible.signs legible.waiting shown.same

theorem isModifierChar_of_isWritten {c : Char} (written : Dice.Reader.isWritten c = true) :
    Group.isModifierChar c = true := by
  simp only [Dice.Reader.isWritten, Bool.or_eq_true] at written
  simp only [Group.isModifierChar, Char.isAlphanum, Char.isAlpha, Bool.or_eq_true]
  tauto

theorem poolModifiers_textAll {modifiers : List Modifier}
    (selective : ∀ m ∈ modifiers, m.isSelective = true ∧ m.Writable) :
    (Group.poolModifiers 0 (Modifier.textAll modifiers).toList).toOption = some modifiers := by
  have writable : ∀ m ∈ modifiers, m.Writable := fun m mem => (selective m mem).2
  have lower : (Modifier.textAll modifiers).toList.map Text.lower =
      (Modifier.textAll modifiers).toList := by
    conv => rhs; rw [← List.map_id (Modifier.textAll modifiers).toList]
    exact List.map_congr_left fun c mem =>
      Dice.Reader.lower_of_isWritten (Dice.Reader.isWritten_textAll writable c mem)
  have none : modifiers.find? (fun m => !m.isSelective) = none := by
    rw [List.find?_eq_none]
    intro m mem
    rw [(selective m mem).1]
    decide
  rw [Group.poolModifiers, lower, Dice.Reader.modifiers?_textAll writable]
  dsimp only
  rw [none]
  rfl

section Nested

variable {depth : Nat}

/-- Arguments behind a comma are set apart by a blank. -/
theorem exists_spaced {lists : List (List Term)}
    (each : ∀ ts ∈ lists, ∃ m ts', Reproduces depth ts m ts') :
    ∃ args : List (Matched × List Term),
      args.map (·.1.text) = lists.map (fun ts => ' ' :: (formulaText ts).toList) ∧
      (∀ arg ∈ args, arg.1.Guarded ∧ Text.allBlank arg.1.text = false ∧
        Formula.reads? depth arg.1.text = some arg.2) ∧
      beqLists (args.map Prod.snd) lists = true := by
  induction lists with
  | nil => exact ⟨[], rfl, List.forall_mem_nil _, rfl⟩
  | cons ts lists ih =>
      obtain ⟨m, ts', first⟩ := each ts List.mem_cons_self
      obtain ⟨args, texts, good, same⟩ := ih fun us mem => each us (List.mem_cons_of_mem ts mem)
      have text : (blank.append m).text = ' ' :: m.text := rfl
      refine ⟨(blank.append m, ts') :: args, ?_, fun arg mem => ?_, ?_⟩
      · rw [List.map_cons, List.map_cons, texts, text, first.text]
      · rcases List.mem_cons.1 mem with rfl | member
        · refine ⟨⟨by decide, first.guarded⟩, ?_, ?_⟩
          · rw [text, Text.allBlank, List.all_cons, ← Text.allBlank, first.visible, Bool.and_false]
          · cases depth with
            | zero => cases first.reads
            | succ depth =>
                have reads := first.reads
                rw [Formula.reads?_succ] at reads ⊢
                rw [text]
                show (Formula.links? _ ([' '] ++ m.text)).bind _ = _
                rw [Formula.links?_blank_append _ allBlank_blank]
                exact reads
        · exact good arg member
      · rw [List.map_cons, beqLists, first.same, same]
        rfl

theorem intercalate_spaced (first : List Char) (others : List (List Char)) :
    [','].intercalate (first :: others.map (' ' :: ·)) =
      [',', ' '].intercalate (first :: others) := by
  induction others generalizing first with
  | nil => rfl
  | cons next others ih =>
      have behind := ih next
      rw [List.map_cons, List.intercalate_cons_cons, List.intercalate_cons_cons, ← behind]
      cases others with
      | nil => simp
      | cons other others =>
          rw [List.map_cons, List.intercalate_cons_cons, List.intercalate_cons_cons]
          simp

/-- The arguments of a call and the members of a pool are read as they are written. -/
theorem exists_arguments {lists : List (List Term)} (nonempty : lists ≠ [])
    (each : ∀ ts ∈ lists, ∃ m ts', Reproduces depth ts m ts') :
    ∃ (m : Matched) (args : List (List Term)),
      m.text = (", ".intercalate (textLists lists)).toList ∧ Text.allBlank m.text = false ∧
      (Group.arguments (Formula.reader depth) 0 m.text).toOption = some args ∧
      beqLists args lists = true := by
  cases lists with
  | nil => exact absurd rfl nonempty
  | cons ts lists =>
      obtain ⟨m, ts', first⟩ := each ts List.mem_cons_self
      obtain ⟨args, texts, good, same⟩ :=
        exists_spaced fun us mem => each us (List.mem_cons_of_mem ts mem)
      have good' : ∀ arg ∈ (m, ts') :: args, arg.1.Guarded ∧ Text.allBlank arg.1.text = false ∧
          Formula.reads? depth arg.1.text = some arg.2 := by
        intro arg mem
        rcases List.mem_cons.1 mem with rfl | member
        · exact ⟨first.guarded, first.visible, first.reads⟩
        · exact good arg member
      obtain ⟨whole, joined, visible, reads⟩ :=
        Group.exists_arguments 0 (List.cons_ne_nil (m, ts') args) good'
      refine ⟨whole, ts' :: args.map Prod.snd, ?_, visible, reads, ?_⟩
      · have spaced := intercalate_spaced (formulaText ts).toList
          (lists.map fun us => (formulaText us).toList)
        rw [List.map_map] at spaced
        rw [joined, List.map_cons, texts, first.text, String.toList_intercalate, textLists_eq,
          List.map_map, List.map_cons]
        exact spaced
      · rw [beqLists, first.same, same]
        rfl

variable {flavor : Option String} (closed : Closed flavor)
include closed

theorem shown_group {inner inner' : List Term} {m : Matched}
    (reproduces : Reproduces depth inner m inner') :
    ∃ m ls t', Shown (Formula.reader depth) (.group inner flavor) m ls t' := by
  have found : Group.roundTerm (Formula.reader depth) [] 0 m.text =
      .ok ([], .group inner' none) := by
    show (Formula.reader depth 0 m.text).map _ = _
    rw [eq_ok_of_toOption reproduces.reads]
    rfl
  have links := Formula.links?_round (Formula.reader depth) reproduces.visible flavor closed
    (List.forall_mem_nil _) rfl found
  have text : (Matched.group .round m (.ofFlavor flavor closed)).text =
      '(' :: m.text ++ ')' :: (flavorText flavor).toList := by
    rw [Matched.text, Matched.text_ofFlavor]
    rfl
  refine ⟨.group .round m (.ofFlavor flavor closed), _, .group inner' flavor, ?_,
    guarded_ofFlavor flavor closed, ?_, text ▸ links, fun u s meets visible => ?_, .nested rfl rfl, ?_⟩
  · rw [text, reproduces.text, Term.text, String.toList_append, String.toList_append,
      String.toList_append, ← formulaText]
    simp
  · rw [text, List.cons_append, Text.allBlank, List.all_cons]
    rfl
  · rw [text]
    refine Formula.links?_round_append (Formula.reader depth) reproduces.visible flavor closed
      (List.forall_mem_nil _) rfl found fun none => head_of_leavesText visible ?_
    subst none
    exact meets.text
  · simp [beq, reproduces.same]

theorem shown_call (f : MathFunction) {args : List (List Term)} (nonempty : args ≠ [])
    (each : ∀ ts ∈ args, ∃ m ts', Reproduces depth ts m ts') :
    ∃ m ls t', Shown (Formula.reader depth) (.call f args flavor) m ls t' := by
  obtain ⟨m, args', text, visible, reads, same⟩ := exists_arguments nonempty each
  have plain := f.isBracket_name
  have found := f.roundTerm_name reads
  have links := Formula.links?_round (Formula.reader depth) visible flavor closed plain rfl found
  have text' : ((Matched.ofPlain f.name.toList plain).append
      (.group .round m (.ofFlavor flavor closed))).text =
      f.name.toList ++ '(' :: m.text ++ ')' :: (flavorText flavor).toList := by
    rw [Matched.text_append, Matched.text_ofPlain, Matched.text, Matched.text_ofFlavor]
    simp [Bracket.opening, Bracket.closing]
  have guarded := Matched.guarded_append (Matched.guarded_ofPlain plain f.comma_not_mem_name)
    (show (Matched.group .round m (.ofFlavor flavor closed)).Guarded from
      guarded_ofFlavor flavor closed)
  refine ⟨_, _, .call f args' flavor, ?_, guarded, ?_, text' ▸ links, fun u s meets seen => ?_,
    .nested rfl rfl, ?_⟩
  · rw [text', text, Term.text, callText, String.toList_append, String.toList_append,
      String.toList_append, String.toList_append]
    simp
  · rw [text', List.append_assoc, Text.allBlank_append, List.cons_append, Text.allBlank,
      Text.allBlank, List.all_cons]
    exact Bool.and_false _
  · rw [text']
    refine Formula.links?_round_append (Formula.reader depth) visible flavor closed plain rfl found
      fun none => head_of_leavesText seen ?_
    subst none
    exact meets.text
  · simp [beq, same]

theorem shown_pool {members : List (List Term)} (nonempty : members ≠ [])
    (each : ∀ ts ∈ members, ∃ m ts', Reproduces depth ts m ts') {modifiers : List Modifier}
    (selective : ∀ m ∈ modifiers, m.isSelective = true ∧ m.Writable) :
    ∃ m ls t', Shown (Formula.reader depth) (.pool members modifiers [] false flavor) m ls t' := by
  obtain ⟨m, members', text, visible, reads, same⟩ := exists_arguments nonempty each
  have writable : ∀ m ∈ modifiers, m.Writable := fun m mem => (selective m mem).2
  have written := Dice.Reader.isWritten_textAll writable
  have body : ∀ c ∈ (Modifier.textAll modifiers).toList, isBody c = true := fun c mem => by
    rw [isBody, written c mem]
    rfl
  have plain : ∀ c ∈ (Modifier.textAll modifiers).toList, isBracket c = false :=
    fun c mem => isBracket_of_isBody (body c mem)
  have belongs : ∀ c ∈ (Modifier.textAll modifiers).toList, Group.isModifierChar c = true :=
    fun c mem => isModifierChar_of_isWritten (written c mem)
  have links := Formula.links?_pool (Formula.reader depth) visible flavor closed plain belongs reads
    (poolModifiers_textAll selective)
  have text' : (Matched.group .curly m ((Matched.ofPlain _ plain).append
      (.ofFlavor flavor closed))).text =
      '\x7b' :: m.text ++ '\x7d' :: (Modifier.textAll modifiers).toList ++
        (flavorText flavor).toList := by
    rw [Matched.text, Matched.text_append, Matched.text_ofPlain, Matched.text_ofFlavor]
    simp [Bracket.opening, Bracket.closing]
  have commas : ',' ∉ (Modifier.textAll modifiers).toList := fun mem => by
    cases body ',' mem
  have guarded := Matched.guarded_append (Matched.guarded_ofPlain plain commas)
    (guarded_ofFlavor flavor closed)
  have whole : '\x7b' :: m.text ++ '\x7d' :: (Modifier.textAll modifiers).toList ++
      (flavorText flavor).toList = (Term.pool members modifiers [] false flavor).text.toList := by
    rw [text, Term.text, poolText, String.toList_append, String.toList_append,
      String.toList_append, String.toList_append]
    simp
  refine ⟨.group .curly m _, _, .pool members' modifiers [] false flavor, text'.trans whole, guarded,
    ?_, text' ▸ links, fun u s meets seen => ?_, .nested rfl rfl, ?_⟩
  · rw [text', List.cons_append, List.cons_append, Text.allBlank, List.all_cons]
    rfl
  · have parts := meets.parts seen s
    rw [← whole] at parts
    rw [text']
    refine Formula.links?_pool_append (Formula.reader depth) visible flavor closed plain belongs reads
      (poolModifiers_textAll selective) parts fun none => ?_
    subst none
    exact meets.free seen s
  · simp [beq, same]

end Nested

/-! ## The round trip -/

/-- A term is read as it is written, if what is in its groups is. -/
theorem exists_shown_faithful {depth : Nat} {t : Term} (operand : t.isOperator = false)
    (faithful : t.Faithful) (inner : ∀ us ∈ t.inner, us ≠ [] → ∃ m ts', Reproduces depth us m ts') :
    ∃ m ls t', Shown (Formula.reader depth) t m ls t' := by
  cases t with
  | number x flavor =>
      obtain ⟨finite, unflavored, opened, closed⟩ := faithful
      by_cases negative : x < 0
      · obtain rfl := unflavored negative
        exact shown_negative _ finite negative
      · exact shown_number _ finite negative opened closed
  | operator op => cases operand
  | dice rolled evaluated flavor =>
      obtain ⟨rolls, dice⟩ := rolled
      obtain ⟨rfl, rfl, writable, opened, closed⟩ := faithful
      exact shown_dice _ writable opened closed
  | pool members modifiers results evaluated flavor =>
      obtain ⟨⟨nonempty, filled⟩, selective, rfl, rfl, closed⟩ := faithful
      exact shown_pool closed nonempty
        (fun us mem => inner us mem fun nothing => filled (nothing ▸ mem)) selective
  | call f args flavor =>
      obtain ⟨⟨nonempty, filled⟩, closed⟩ := faithful
      exact shown_call closed f nonempty fun us mem => inner us mem fun nothing => filled (nothing ▸ mem)
  | group us flavor =>
      obtain ⟨filled, closed⟩ := faithful
      obtain ⟨m, ts', reproduces⟩ := inner us List.mem_cons_self filled
      exact shown_group closed reproduces
  | fragment text =>
      obtain ⟨trimmed, undivided, number, numeric⟩ := faithful
      exact shown_fragment _ trimmed undivided number numeric

/-- What is nested less deep than a bound is read as it is written. -/
theorem exists_reproduces {depth : Nat} {ts : List Term} (legible : Everywhere Legible ts)
    (nonempty : ts ≠ []) (within : (formulaText ts).toList.length < depth) :
    ∃ m ts', Reproduces depth ts m ts' := by
  induction depth generalizing ts with
  | zero => omega
  | succ depth ih =>
      obtain ⟨here, inside⟩ := everywhere_iff.1 legible
      refine exists_reproduces_shown here nonempty fun t mem operand => ?_
      have shorter := length_text_le mem operand false
      rw [← formulaText] at shorter
      refine exists_shown_faithful operand (here.faithful t mem) fun us member filled => ?_
      have within' := length_inner member
      exact ih (inside t mem us member) filled (by omega)

end Term

/-- **A formula that is legible at every level is read from its own text.** -/
theorem Formula.read_legible {ts : List Term} (legible : Term.Everywhere Term.Legible ts) :
    ∃ ts', Formula.read (Term.formulaText ts) = .ok ts' ∧ Term.beqAll ts' ts = true := by
  by_cases nothing : ts = []
  · subst nothing
    exact ⟨[], rfl, rfl⟩
  · have within := Nat.lt_succ_self (Term.formulaText ts).toList.length
    obtain ⟨m, ts', reproduces⟩ := Term.exists_reproduces legible nothing within
    have reads := reproduces.reads
    rw [reproduces.text] at reads
    exact ⟨ts', Formula.read_of_reads? reads, reproduces.same⟩

end DiceFormula
