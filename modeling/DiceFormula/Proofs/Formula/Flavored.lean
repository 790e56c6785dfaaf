/-
# DiceFormula.Proofs.Formula.Flavored -- flavor behind a formula

Flavor that is put behind a formula without an operator outside of brackets goes to the last link:
an operand keeps it in its text, and a term takes it unless it has some of its own
(`Strand.flavored`).  It makes no difference to the links in front, whatever it says
(`links?_flavored`), because no scan looks into it.
-/
import DiceFormula.Proofs.Formula.Balanced
import DiceFormula.Proofs.Formula.Blocks
import DiceFormula.Proofs.Formula.Everywhere
import DiceFormula.Proofs.Formula.Single

namespace DiceFormula

set_option autoImplicit false

/-! ## Groups -/

namespace Group

variable (s : List Char)

/-- What a group comes to with flavor behind the text: it takes the flavor if it reaches to the
end of the text and has none of its own. -/
def Found.flavored (lead : List Lexeme) (found : Found) : Found :=
  if found.used = lead.length ∧ found.term.flavor? = none then
    { found with term := found.term.withFlavor (some (String.ofList s)), used := found.used + 1 }
  else found

theorem withFlavorBehind_flavored (front : List Char) {t : Term}
    (nested : Strand.isNested t = true) (bare : t.flavor? = none) {used : Nat} {lead : List Lexeme}
    (enough : used ≤ lead.length) :
    withFlavorBehind front t used (lead ++ [.flavor s]) =
      (withFlavorBehind front t used lead).flavored s lead := by
  unfold withFlavorBehind
  rw [List.drop_append_of_le_length enough]
  cases behind : lead.drop used with
  | nil =>
      have whole : used = lead.length := Nat.le_antisymm enough (List.drop_eq_nil_iff.1 behind)
      exact (if_pos ⟨whole, bare⟩).symm
  | cons l rest =>
      have short : used ≠ lead.length := by
        rintro rfl
        rw [List.drop_length] at behind
        cases behind
      cases l with
      | flavor text =>
          refine (if_neg ?_).symm
          rintro ⟨-, unflavored⟩
          cases t <;> first | cases nested; done | cases unflavored
      | char c => exact (if_neg fun taken => short taken.1).symm
      | unclosedFlavor rest => exact (if_neg fun taken => short taken.1).symm

theorem modifierText_flavored (lead : List Lexeme) :
    modifierText (lead ++ [.flavor s]) = modifierText lead := by
  induction lead with
  | nil => rfl
  | cons l lead ih =>
      cases l with
      | char c => rw [List.cons_append, modifierText, modifierText, ih]
      | flavor text => rfl
      | unclosedFlavor text => rfl

variable {read : SubReader}

theorem bare_roundTerm {before : List Char} {offset : Nat} {inner : List Char}
    {found : List Char × Term} (ok : roundTerm read before offset inner = .ok found) :
    found.2.flavor? = none := by
  unfold roundTerm at ok
  dsimp only at ok
  split at ok
  · cases args : arguments read offset inner with
    | error e => rw [args] at ok; cases ok
    | ok args' => rw [args] at ok; cases ok; rfl
  · cases terms : read offset inner with
    | error e => rw [terms] at ok; cases ok
    | ok us => rw [terms] at ok; cases ok; rfl

theorem bare_curlyTerm {offset : Nat} {inner : List Char} {modifiersAt : Nat} {text : List Char}
    {t : Term} (ok : curlyTerm read offset inner modifiersAt text = .ok t) : t.flavor? = none := by
  unfold curlyTerm at ok
  split at ok
  · cases ok
  · cases mods : poolModifiers modifiersAt text with
    | error e => rw [mods] at ok; cases ok
    | ok modifiers => rw [mods] at ok; cases ok; rfl

/-- What a group is with flavor behind the text that follows it. -/
theorem find_flavored (b : Bracket) (before : List Char) (offset : Nat) (inner : List Char)
    (lead : List Lexeme) :
    find b read before offset inner (lead ++ [.flavor s]) =
      (find b read before offset inner lead).map (Found.flavored s lead) := by
  cases b with
  | round =>
      unfold find
      dsimp only
      cases round : roundTerm read before offset inner with
      | error e => rfl
      | ok pair =>
          have nested := (roundTerm_sound (E := fun _ => True) (fun _ _ _ _ => trivial) round).nested
          exact congrArg Except.ok (withFlavorBehind_flavored s pair.1 nested
            (bare_roundTerm round) (Nat.zero_le _))
  | curly =>
      unfold find
      dsimp only
      rw [modifierText_flavored]
      cases curly : curlyTerm read offset inner (offset + Text.byteLength inner + 1)
          (modifierText lead) with
      | error e => rfl
      | ok t =>
          have nested := (curlyTerm_sound (E := fun _ => True) (fun _ _ _ _ => trivial) curly).nested
          exact congrArg Except.ok (withFlavorBehind_flavored s before nested
            (bare_curlyTerm curly) (length_modifierText lead))

end Group

/-! ## Strands -/

namespace Strand

variable (s : List Char)

/-- Whether there is nothing in the strand. -/
def isEmpty : Strand → Bool
  | plain text => text.isEmpty
  | term _ _ _ => false

/-- A strand with flavor behind it. -/
def flavored : Strand → Strand
  | plain text => plain (text ++ (Lexeme.flavor s).text)
  | term before t rest =>
      if rest.isEmpty = true ∧ t.flavor? = none then
        term before (t.withFlavor (some (String.ofList s))) rest
      else term before t rest.flavored

theorem flavored_term (before : List Char) (t : Term) {rest : Strand} (more : rest.isEmpty = false) :
    (term before t rest).flavored s = term before t (rest.flavored s) := by
  rw [flavored, more, if_neg fun whole => Bool.false_ne_true whole.1]

theorem flavored_link (x : Strand) (t : Term) (rest : Strand) :
    (x.link t rest).flavored s = if rest.isEmpty = true ∧ t.flavor? = none then
      x.link (t.withFlavor (some (String.ofList s))) rest else x.link t (rest.flavored s) := by
  induction x with
  | plain text => rfl
  | term before t' x ih =>
      have other : (x.link t rest).isEmpty = false := by cases x <;> rfl
      rw [link, flavored_term s before t' other, ih, apply_ite (term before t')]
      rfl

section Read

variable (b : Bracket) (read : SubReader)

theorem textAll_eq_nil {ls : List Lexeme} : Lexeme.textAll ls = [] ↔ ls = [] := by
  cases ls with
  | nil => exact iff_of_true rfl rfl
  | cons l ls =>
      refine iff_of_false ?_ (List.cons_ne_nil l ls)
      cases l <;> simp [Lexeme.textAll, Lexeme.text]

theorem textAll_flavored {used : Nat} {lead : List Lexeme} (enough : used ≤ lead.length) :
    Lexeme.textAll ((lead ++ [Lexeme.flavor s]).drop used) =
      Lexeme.textAll (lead.drop used) ++ (Lexeme.flavor s).text := by
  rw [List.drop_append_of_le_length enough, Lexeme.textAll_append]
  simp [Lexeme.textAll]

/-- A group and the text behind it, with flavor behind that. -/
theorem found_flavored {found : Group.Found} {lead : List Lexeme}
    (enough : found.used ≤ lead.length) :
    term (found.flavored s lead).front (found.flavored s lead).term
        (plain (Lexeme.textAll ((lead ++ [Lexeme.flavor s]).drop (found.flavored s lead).used))) =
      (term found.front found.term (plain (Lexeme.textAll (lead.drop found.used)))).flavored s := by
  have empty : (plain (Lexeme.textAll (lead.drop found.used))).isEmpty = true ↔
      found.used = lead.length := by
    rw [isEmpty, List.isEmpty_iff, textAll_eq_nil, List.drop_eq_nil_iff]
    exact ⟨Nat.le_antisymm enough, fun whole => whole.ge⟩
  unfold Group.Found.flavored
  split
  · rename_i takes
    have reached : lead.length ≤ found.used := takes.1.ge
    rw [flavored, if_pos ⟨empty.2 takes.1, takes.2⟩]
    dsimp only
    rw [List.drop_eq_nil_of_le reached, List.drop_eq_nil_of_le (by simpa using reached)]
  · rename_i leaves
    rw [flavored, if_neg fun takes => leaves ⟨empty.1 takes.1, takes.2⟩, textAll_flavored s enough]
    rfl

theorem isEmpty_group {b : Bracket} {read : SubReader} {used : Nat} {before inner : List Lexeme}
    {rest : Outline} {x : Strand}
    (found : ofOutline? b read used (.group before inner rest) = some x) : x.isEmpty = false := by
  unfold ofOutline? at found
  split at found
  · cases found
  · obtain ⟨f, -, found⟩ := Option.bind_eq_some_iff.1 found
    obtain ⟨rest', -, rfl⟩ := Option.map_eq_some_iff.1 found
    rfl

/-- The groups of a kind, with flavor behind the text. -/
theorem ofOutline?_flavored {used : Nat} {o : Outline} (enough : used ≤ o.lead.length) :
    ofOutline? b read used (o.append (.plain [.flavor s])) =
      (ofOutline? b read used o).map (flavored s) := by
  induction o generalizing used with
  | plain text => exact congrArg (fun text => some (plain text)) (textAll_flavored s enough)
  | broken text e => rfl
  | group before inner rest ih =>
      rw [Outline.append, ofOutline?, ofOutline?]
      split
      · rfl
      · have behind {found : Group.Found} (ok : Group.find b read (Lexeme.textAll (before.drop used))
            0 (Lexeme.textAll inner) rest.lead = .ok found) := ih (Group.loose_used ok).1
        -- only the last group sees the flavor; the others see the text up to the next group
        cases rest with
        | plain text =>
            show ((Group.find b read _ 0 _ (text ++ [.flavor s])).toOption.bind _) =
              Option.map _ ((Group.find b read _ 0 _ text).toOption.bind _)
            rw [Group.find_flavored s b]
            cases ok : Group.find b read (Lexeme.textAll (before.drop used)) 0
                (Lexeme.textAll inner) text with
            | error e => rfl
            | ok found => exact congrArg some (found_flavored s (Group.loose_used ok).1)
        | broken text e =>
            show Option.bind (Group.find b read _ 0 _ text).toOption _ =
              Option.map _ (Option.bind (Group.find b read _ 0 _ text).toOption _)
            cases (Group.find b read (Lexeme.textAll (before.drop used)) 0
              (Lexeme.textAll inner) text).toOption <;> rfl
        | group before' inner' rest' =>
            show Option.bind (Group.find b read _ 0 _ before').toOption _ =
              Option.map _ (Option.bind (Group.find b read _ 0 _ before').toOption _)
            cases ok : Group.find b read (Lexeme.textAll (before.drop used)) 0
                (Lexeme.textAll inner) before' with
            | error e => rfl
            | ok found =>
                show (ofOutline? b read found.used _).map _ = Option.map _ (Option.map _ _)
                rw [behind ok]
                cases found' : ofOutline? b read found.used (.group before' inner' rest') with
                | none => rfl
                | some x => exact congrArg some (flavored_term s _ _ (isEmpty_group found')).symm

theorem eq_nothing {x : Strand} (empty : x.isEmpty = true) : x = plain [] := by
  cases x with
  | plain text => rw [List.isEmpty_iff.1 empty]
  | term before t rest => cases empty

/-- Where there is nothing left, there was nothing before. -/
theorem isEmpty_of_expand {read : SubReader} {x y : Strand}
    (expands : x.expand (read? .curly read) = some y) (empty : y.isEmpty = true) :
    x.isEmpty = true := by
  cases x with
  | plain text =>
      have found : read? .curly read text = some y := expands
      have whole := textAll_of_read found
      rw [read?] at found
      cases outline : Outline.of .curly 0 text with
      | plain ls =>
          rw [outline] at found whole
          cases found
          exact whole ▸ empty
      | broken ls e => rw [outline] at found; cases found
      | group before inner rest =>
          rw [outline] at found
          rw [isEmpty_group found] at empty
          cases empty
  | term before t rest =>
      obtain ⟨front, -, expands⟩ := Option.bind_eq_some_iff.1 expands
      obtain ⟨others, -, rfl⟩ := Option.map_eq_some_iff.1 expands
      cases front <;> cases empty

variable (closes : ']' ∉ s)
include closes

theorem read?_flavored (m : Matched) :
    read? b read (m.text ++ (Lexeme.flavor s).text) = (read? b read m.text).map (flavored s) := by
  have lexemes : Lexeme.scan (Lexeme.flavor s).text = [.flavor s] := by
    rw [Lexeme.text, List.cons_append, Lexeme.scan, if_pos rfl, Matched.scanFlavor_closed closes]
    rfl
  rw [read?, Matched.of_text_append, lexemes, Outline.scan_flavor, Outline.scan]
  refine (ofOutline?_flavored s b read (Nat.zero_le _)).trans ?_
  rw [read?, Matched.outline_text]

/-- More groups in the text of a strand, with flavor behind it. -/
theorem expand_flavored {x : Strand} (last : ∃ m : Matched, m.Flat ∧ m.text = x.last) :
    (x.flavored s).expand (read? .curly read) =
      (x.expand (read? .curly read)).map (flavored s) := by
  induction x with
  | plain text =>
      obtain ⟨m, -, rfl⟩ := last
      exact read?_flavored s .curly read closes m
  | term before t rest ih =>
      unfold flavored
      split
      · rename_i takes
        have nothing : rest = plain [] := eq_nothing takes.1
        subst nothing
        show Option.bind _ (fun x : Strand => (read? .curly read []).map (x.link _)) =
          Option.map _ (Option.bind _ fun x : Strand => (read? .curly read []).map (x.link t))
        rw [read?_blank .curly read (show Text.allBlank [] = true from rfl)]
        cases read? .curly read before with
        | none => rfl
        | some x => exact congrArg some ((flavored_link s x t _).trans (if_pos takes)).symm
      · rename_i leaves
        show Option.bind _ (fun x : Strand => Option.map _ ((rest.flavored s).expand _)) =
          Option.map _ (Option.bind _ fun x : Strand => Option.map _ (rest.expand _))
        rw [ih last]
        cases read? .curly read before with
        | none => rfl
        | some x =>
            cases behind : rest.expand (read? .curly read) with
            | none => rfl
            | some y =>
                refine congrArg some ((flavored_link s x t y).trans (if_neg fun takes => ?_)).symm
                exact leaves ⟨isEmpty_of_expand behind takes.1, takes.2⟩

end Read

/-! ## The text at the end -/

/-- The text behind the last term is what the text that was read ends with. -/
theorem last_ofOutline? {b : Bracket} {read : SubReader} {used : Nat} {o : Outline} {x : Strand}
    (found : ofOutline? b read used o = some x) : x.last <:+ Lexeme.textAll (o.lexemes b) := by
  induction o generalizing used x with
  | plain text =>
      cases found
      refine ⟨Lexeme.textAll (text.take used), ?_⟩
      rw [last, ← Lexeme.textAll_append, List.take_append_drop]
      rfl
  | broken text e => cases found
  | group before inner rest ih =>
      unfold ofOutline? at found
      split at found
      · cases found
      · obtain ⟨f, -, found⟩ := Option.bind_eq_some_iff.1 found
        obtain ⟨rest', behind, rfl⟩ := Option.map_eq_some_iff.1 found
        refine (ih behind).trans ⟨Lexeme.textAll (before ++ .char b.opening :: (inner ++
          [.char b.closing])), ?_⟩
        rw [← Lexeme.textAll_append, Outline.lexemes]
        simp

theorem last_read? {b : Bracket} {read : SubReader} {text : List Char} {x : Strand}
    (found : read? b read text = some x) : x.last <:+ text := by
  have suffix := last_ofOutline? found
  rwa [textAll_of_read found] at suffix

theorem last_expand {read : SubReader} {x y : Strand}
    (expands : x.expand (read? .curly read) = some y) : y.last <:+ x.last := by
  induction x generalizing y with
  | plain text => exact last_read? expands
  | term before t rest ih =>
      obtain ⟨front, -, expands⟩ := Option.bind_eq_some_iff.1 expands
      obtain ⟨others, behind, rfl⟩ := Option.map_eq_some_iff.1 expands
      rw [last_link]
      exact ih behind

end Strand

/-! ## Links -/

namespace Link

/-- A link with flavor behind it. -/
def flavored (s : List Char) : Link → Link
  | operator op => operator op
  | operand text => operand (text ++ (Lexeme.flavor s).text)
  | term t => term (t.withFlavor (some (String.ofList s)))

theorem operator?_of_scan {read ls : List Lexeme}
    (without : ∀ l ∈ scan read ls, l.isOperator = false) : ∀ l ∈ ls, Cut.operator? l = none := by
  induction ls generalizing read with
  | nil => exact List.forall_mem_nil _
  | cons l ls ih =>
      cases cut : Cut.operator? l with
      | none =>
          rw [scan_other _ _ cut] at without
          exact List.forall_mem_cons.2 ⟨cut, ih without⟩
      | some op =>
          rw [scan_operator _ _ cut] at without
          cases without (.operator op) (List.mem_append_right _ List.mem_cons_self)

/-- A text without operators is one operand or none. -/
theorem ofText_single {text : List Char} (without : ∀ l ∈ ofText text, l.isOperator = false) :
    ofText text = operand? text := by
  have whole := scan_operand [] (Lexeme.scan text) (operator?_of_scan without)
  rwa [List.reverse_nil, List.nil_append, Lexeme.textAll_scan] at whole

end Link

namespace Text

/-- What stands behind a text that ends visibly is not trimmed. -/
theorem trim_append {s behind : List Char} (visible : allBlank s = false)
    (ends : Stops isBlank s.reverse) (trimmed : Trimmed behind) :
    trim (s ++ behind) = trim s ++ behind := by
  obtain ⟨gap, blank, split⟩ := exists_gap s
  have some_ : trimStart s ≠ [] := by
    intro nothing
    rw [nothing, List.append_nil] at split
    rw [split, blank] at visible
    cases visible
  have start : Trimmed (trimStart s) := by
    refine ⟨some_, stops_trimStart s, fun c mem => ends c ?_⟩
    rw [split, List.reverse_append, List.head?_append_of_ne_nil _ (List.reverse_ne_nil_iff.2 some_)]
    exact mem
  have front : trim s = trimStart s := by
    rw [split, trim_blank_append blank, start.trim_eq, ← split]
  rw [front, split, List.append_assoc, trim_blank_append blank, ← split,
    (start.append trimmed).trim_eq]

end Text

namespace Strand

open Text

variable {s : List Char}

theorem trimmed_flavor (s : List Char) : Trimmed (Lexeme.flavor s).text := by
  have opening : Trimmed ['['] := trimmed_singleton rfl
  exact opening.join s (trimmed_singleton rfl)

/-- A text that ends visibly is blank only if there is nothing in it. -/
theorem visible_of_ends {text : List Char} (some_ : text ≠ []) (ends : Stops isBlank text.reverse) :
    allBlank text = false := by
  obtain ⟨c, others, reversed⟩ :=
    List.exists_cons_of_ne_nil (List.reverse_ne_nil_iff.2 some_)
  rw [allBlank, ← List.all_reverse, reversed, List.all_cons, ends c (by rw [reversed]; rfl),
    Bool.false_and]

theorem isEmpty_of_links {x : Strand} (ends : Stops isBlank x.last.reverse)
    (without : x.links = []) : x.isEmpty = true := by
  cases x with
  | plain text =>
      have without : Link.ofText text = [] := without
      have single : Link.ofText text = Link.operand? text :=
        Link.ofText_single (by rw [without]; exact List.forall_mem_nil _)
      by_contra some_
      have visible := visible_of_ends (fun nothing => some_ (List.isEmpty_iff.2 nothing)) ends
      have operand : Link.operand? text = [] := single.symm.trans without
      rw [Link.operand?, visible] at operand
      cases operand
  | term before t rest => exact absurd without (by simp [links])

/-- **Flavor behind a strand without operators belongs to the last link.** -/
theorem links_flavored (closes : ']' ∉ s) {x : Strand}
    (last : ∃ m : Matched, m.Flat ∧ m.text = x.last) (ends : Stops isBlank x.last.reverse)
    (single : ∀ l ∈ x.links, l.isOperator = false) {front : List Link} {z : Link}
    (whole : x.links = front ++ [z]) (bare : ∀ t, z = .term t → t.flavor? = none) :
    (x.flavored s).links = front ++ [z.flavored s] := by
  induction x generalizing front with
  | plain text =>
      obtain ⟨m, -, rfl⟩ := last
      have operand : Link.ofText m.text = front ++ [z] := whole
      have other := Link.operator?_of_scan single
      rw [Link.ofText_single single, Link.operand?] at operand
      split at operand
      · exact absurd operand.symm (List.append_ne_nil_of_right_ne_nil _ (List.cons_ne_nil _ _))
      · rename_i visible
        rw [Bool.not_eq_true] at visible
        obtain ⟨rfl, rfl⟩ : front = [] ∧ z = .operand (trim m.text) := by
          cases front with
          | nil => exact ⟨rfl, (List.cons.inj operand).1.symm⟩
          | cons l front => simp at operand
        have text : (m.append (.flavor s closes .nil)).text = m.text ++ (Lexeme.flavor s).text :=
          Matched.text_append _ _
        have behind := Formula.ofText_operand (m := m.append (.flavor s closes .nil))
          (fun l mem => ?_) ?_
        · rw [text, trim_append visible ends (trimmed_flavor s)] at behind
          exact behind
        · rw [Matched.lexemes_append, List.mem_append] at mem
          rcases mem with mem | mem
          · rw [Matched.scan_text_self] at other
            exact other l mem
          · rw [List.mem_singleton.1 mem]
            rfl
        · rw [text, allBlank_append, visible, Bool.false_and]
  | term before t rest ih =>
      have whole : Link.ofText before ++ .term t :: rest.links = front ++ [z] := whole
      rcases List.eq_nil_or_concat rest.links with without | ⟨front', z', behind⟩
      · -- nothing stands behind the term, which takes the flavor
        rw [without] at whole
        obtain ⟨rfl, same⟩ := List.append_inj' whole rfl
        cases same
        have empty : rest.isEmpty = true := isEmpty_of_links ends without
        rw [flavored, if_pos ⟨empty, bare t rfl⟩, links, without]
        rfl
      · rw [List.concat_eq_append] at behind
        have more : rest.isEmpty = false := by
          rw [Bool.eq_false_iff]
          intro empty
          rw [eq_nothing empty] at behind
          exact absurd behind.symm (List.append_ne_nil_of_right_ne_nil _ (List.cons_ne_nil _ _))
        have split : (Link.ofText before ++ .term t :: front') ++ [z'] = front ++ [z] := by
          rw [← whole, behind]
          simp
        obtain ⟨rfl, same⟩ := List.append_inj' split rfl
        cases same
        have inside : ∀ l ∈ rest.links, l.isOperator = false := fun l mem =>
          single l (List.mem_append_right _ (List.mem_cons_of_mem _ mem))
        rw [flavored_term s before t more, links, ih last ends inside behind]
        simp

end Strand

namespace Formula

open Text

/-- **Flavor behind a formula without operators belongs to the last link.** -/
theorem links?_flavored {read : SubReader} {s : List Char} (closes : ']' ∉ s) {m : Matched}
    (ends : Stops isBlank m.text.reverse) {front : List Link} {z : Link}
    (found : links? read m.text = some (front ++ [z]))
    (single : ∀ l ∈ front ++ [z], l.isOperator = false)
    (bare : ∀ t, z = .term t → t.flavor? = none) :
    links? read (m.text ++ (Lexeme.flavor s).text) = some (front ++ [z.flavored s]) := by
  obtain ⟨x, round, expands⟩ := Option.bind_eq_some_iff.1 found
  obtain ⟨y, curly, whole⟩ := Option.map_eq_some_iff.1 expands
  have last := Strand.exists_last_read (b := .round) (by simp) round
  have suffix := (Strand.last_expand curly).trans (Strand.last_read? round)
  have visible : Stops isBlank y.last.reverse := by
    obtain ⟨before, split⟩ := suffix
    intro c mem
    refine ends c ?_
    rw [← split, List.reverse_append]
    exact List.mem_head?_append_of_mem_head? mem
  rw [links?, Strand.read?_flavored s .round read closes, round]
  show ((x.flavored s).expand _).map _ = _
  rw [Strand.expand_flavored s read closes last, curly]
  rw [← whole] at single
  exact congrArg some (Strand.links_flavored closes (Strand.exists_last_expand last curly) visible
    single whole bare)

end Formula

end DiceFormula
