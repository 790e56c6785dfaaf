/-
# DiceFormula.Proofs.Formula.Beside -- groups directly beside other text

Where no operator stands between a group and the text beside it, either could take something from
the other.  A group takes the flavor directly behind it, a pool takes modifiers, and round brackets
take the name of a function in front of them.

If nothing of this happens, the text is read as its two parts are, one behind the other: a group or
a call and any text (`links?_round_append`), a pool and any text (`links?_pool_append`), and text
without groups with a group behind it (`links?_bare_append`).  Alone, groups and pools are one term
(`links?_round`, `links?_pool`).
-/
import DiceFormula.Proofs.Formula.Arguments
import DiceFormula.Proofs.Formula.Blocks

namespace DiceFormula

set_option autoImplicit false

/-! ## Outlines -/

namespace Outline

theorem lead_prepend (ls : List Lexeme) (o : Outline) : (o.prepend ls).lead = ls ++ o.lead := by
  cases o <;> rfl

theorem erase_prepend (ls : List Lexeme) (o : Outline) : (o.prepend ls).erase = o.erase.prepend ls := by
  cases o <;> rfl

theorem erase_append (o o' : Outline) : (o.append o').erase = o.erase.append o'.erase := by
  induction o with
  | plain text => exact erase_prepend text o'
  | broken text e => rfl
  | group before inner rest ih => exact congrArg (group before inner) ih

variable (b : Bracket) (stop : Nat)

/-- A group that is open is found, or the brackets do not match. -/
theorem scan_open (before : List Lexeme) (g : Open) (p : Option Passed) (pos : Nat)
    (ls : List Lexeme) :
    (∃ e, scan b stop ⟨before, some g, p⟩ pos ls = .broken before.reverse e) ∨
      ∃ inner rest, scan b stop ⟨before, some g, p⟩ pos ls = .group before.reverse inner rest := by
  induction ls generalizing g p pos with
  | nil => cases p <;> exact .inl ⟨_, rfl⟩
  | cons l ls ih =>
      cases l with
      | unclosedFlavor rest => exact .inl ⟨_, rfl⟩
      | flavor inner => exact ih (g.takes [.flavor inner]) p _
      | char c =>
          rw [scan]
          cases p with
          | some p => exact ih (g.takes [.char c]) (p.step c) _
          | none =>
              dsimp only
              split
              · exact ih (g.takes [.char c]) (some ⟨pos, 0⟩) _
              · split
                · exact ih _ none _
                · split
                  · split
                    · exact .inr ⟨_, _, rfl⟩
                    · exact ih _ none _
                  · exact ih (g.takes [.char c]) none _

/-- A bracket that opens at the start of a text. -/
theorem of_opening (offset : Nat) (s : List Char) :
    (∃ e, Outline.of b offset (b.opening :: s) = .broken [] e) ∨
      ∃ inner rest, Outline.of b offset (b.opening :: s) = .group [] inner rest := by
  rw [Outline.of, Matched.scan_char (Matched.opening_ne b), scan]
  dsimp only [State.initial]
  rw [if_neg (by cases b <;> decide), if_pos rfl]
  exact scan_open b _ [] _ none _ _

theorem of_closing (offset : Nat) (s : List Char) :
    ∃ e, Outline.of b offset (b.closing :: s) = .broken [] e := by
  rw [Outline.of, Matched.scan_char (Matched.closing_ne b), scan]
  dsimp only [State.initial]
  rw [if_neg (by cases b <;> decide), if_neg (by cases b <;> decide), if_pos rfl]
  exact ⟨_, rfl⟩

/-- Any other character stands in front of the groups. -/
theorem of_char {c : Char} (unflavored : c ≠ '[') (opening : c ≠ b.opening)
    (closing : c ≠ b.closing) (offset : Nat) (s : List Char) :
    ∃ o : Outline, Outline.of b offset (c :: s) = o.prepend [.char c] := by
  rw [Outline.of, Matched.scan_char unflavored, scan]
  dsimp only [State.initial]
  split
  · exact ⟨_, scan_before b _ [.char c] none _ _ _⟩
  · exact ⟨_, scan_before b _ [.char c] none none _ _⟩

/-- The text in front of the first group starts as the whole text does. -/
theorem lead_of (offset : Nat) {s : List Char} (unflavored : s.head? ≠ some '[') :
    (Outline.of b offset s).lead = [] ∨
      ∃ c ls, s.head? = some c ∧ (Outline.of b offset s).lead = .char c :: ls := by
  cases s with
  | nil => exact .inl rfl
  | cons c s =>
      by_cases opening : c = b.opening
      · subst opening
        rcases of_opening b offset s with ⟨e, broken⟩ | ⟨inner, rest, group⟩
        · exact .inl (by rw [broken]; rfl)
        · exact .inl (by rw [group]; rfl)
      · by_cases closing : c = b.closing
        · subst closing
          obtain ⟨e, broken⟩ := of_closing b offset s
          exact .inl (by rw [broken]; rfl)
        · obtain ⟨o, char⟩ := of_char b (fun same => unflavored (congrArg some same)) opening closing
            offset s
          exact .inr ⟨c, o.lead, rfl, by rw [char, lead_prepend]; rfl⟩

end Outline

namespace Matched

/-- While round groups are looked for, a text without them is as it is. -/
theorem outline_flat {m : Matched} (flat : m.Flat) : m.outline .round = .plain m.lexemes := by
  induction m with
  | nil => rfl
  | char c plain rest ih =>
      rw [outline, ih flat]
      rfl
  | flavor inner closes rest ih =>
      rw [outline, ih flat]
      rfl
  | group b inner rest _ ih =>
      obtain ⟨rfl, flat⟩ := flat
      rw [outline, if_neg (by simp), if_pos rfl, ih flat]
      simp [Outline.prepend, lexemes]

theorem flat_of_bare {m : Matched} (bare : m.Bare) : m.Flat := by
  induction m with
  | nil => trivial
  | char c plain rest ih => exact ih bare
  | flavor inner closes rest ih => exact ih bare
  | group b inner rest _ ih => cases bare

end Matched

/-! ## Text in front of a group -/

namespace Group

variable {read : SubReader}

/-- The name of a function that stands in front of round brackets is the same with a text in front
of it: the text does not end in a word, or what is behind it does not start with one, or it starts
with the brackets, and the text does not end in such a name. -/
inductive Parts (text : List Char) : List Char → Prop
  | ends (last : ∀ c ∈ text.getLast?, Text.isWordChar c = false) (s : List Char) : Parts text s
  | starts {c : Char} (noWord : Text.isWordChar c = false) (unflavored : c ≠ '[')
      (opening : c ≠ '(') (s : List Char) : Parts text (c :: s)
  | brackets (noName : MathFunction.ofName? (cutWord text).2 = none) (s : List Char) :
      Parts text ('(' :: s)
  | nothing : Parts text []

/-- What a group comes to with more text in front of it. -/
def Found.prepend (text : List Char) (found : Found) : Found :=
  { found with front := text ++ found.front }

theorem prepend_withFlavorBehind (text front : List Char) (t : Term) (used : Nat)
    (lead : List Lexeme) :
    withFlavorBehind (text ++ front) t used lead =
      (withFlavorBehind front t used lead).prepend text := by
  unfold withFlavorBehind
  split <;> rfl

theorem find_behind_text {text : List Char} (last : ∀ c ∈ text.getLast?, Text.isWordChar c = false)
    (b : Bracket) (before : List Char) (offset : Nat) (inner : List Char) (lead : List Lexeme) :
    find b read (text ++ before) offset inner lead =
      (find b read before offset inner lead).map (Found.prepend text) := by
  rcases List.eq_nil_or_concat text with rfl | ⟨front, c, rfl⟩
  · rw [List.nil_append]
    cases find b read before offset inner lead <;> rfl
  · rw [List.concat_eq_append] at last ⊢
    have stop := last c List.getLast?_concat
    have found := find_before b read front before stop offset inner lead
    rw [List.append_assoc, List.singleton_append, found]
    congr 1
    funext f
    simp [Found.prepend]

theorem front_withFlavorBehind (front : List Char) (t : Term) (used : Nat) (lead : List Lexeme) :
    (withFlavorBehind front t used lead).front = front := by
  unfold withFlavorBehind
  split <;> rfl

/-- Nothing in front of curly brackets belongs to a pool. -/
theorem find_curly (text before : List Char) (offset : Nat) (inner : List Char)
    (lead : List Lexeme) :
    find .curly read (text ++ before) offset inner lead =
      (find .curly read before offset inner lead).map (Found.prepend text) := by
  unfold find
  dsimp only
  cases curlyTerm read offset inner (offset + Text.byteLength inner + 1) (modifierText lead) with
  | error e => rfl
  | ok t => exact congrArg Except.ok (prepend_withFlavorBehind text before t _ lead)

/-- Brackets with no function in front of them are a group, whatever else is there. -/
theorem find_brackets {text : List Char} (noName : MathFunction.ofName? (cutWord text).2 = none)
    (offset : Nat) (inner : List Char) (lead : List Lexeme) :
    find .round read text offset inner lead =
      (find .round read [] offset inner lead).map (Found.prepend text) := by
  have alone : MathFunction.ofName? (cutWord []).2 = none := rfl
  unfold find roundTerm
  dsimp only
  rw [noName, alone]
  dsimp only
  cases read offset inner with
  | error e => rfl
  | ok ts =>
      have front := prepend_withFlavorBehind text [] (.group ts none) 0 lead
      rw [List.append_nil] at front
      exact congrArg Except.ok front

/-- The first round group of a text with more text in front of it. -/
theorem find_parts {text s : List Char} (parts : Parts text s) {before inner : List Lexeme}
    {rest : Outline} (outlined : Outline.of .round 0 s = .group before inner rest) :
    find .round read (text ++ Lexeme.textAll before) 0 (Lexeme.textAll inner) rest.lead =
      (find .round read (Lexeme.textAll before) 0 (Lexeme.textAll inner) rest.lead).map
        (Found.prepend text) := by
  cases parts with
  | ends last s => exact find_behind_text last .round _ _ _ _
  | @starts c noWord unflavored opening s =>
      by_cases closing : c = ')'
      · subst closing
        obtain ⟨e, broken⟩ := Outline.of_closing .round 0 s
        cases broken.symm.trans outlined
      · obtain ⟨o, char⟩ := Outline.of_char .round unflavored opening closing 0 s
        have split : ∃ ls, before = .char c :: ls := by
          rw [char] at outlined
          cases o <;> cases outlined
          exact ⟨_, rfl⟩
        obtain ⟨ls, rfl⟩ := split
        have outer := find_before .round read text (Lexeme.textAll ls) noWord 0
          (Lexeme.textAll inner) rest.lead
        have own := find_before .round read [] (Lexeme.textAll ls) noWord 0
          (Lexeme.textAll inner) rest.lead
        have chars : Lexeme.textAll (.char c :: ls) = c :: Lexeme.textAll ls := rfl
        rw [List.nil_append] at own
        rw [chars, outer, own]
        cases find .round read (Lexeme.textAll ls) 0 (Lexeme.textAll inner) rest.lead <;> rfl
  | brackets noName s =>
      have front : before = [] := by
        rcases Outline.of_opening .round 0 s with ⟨e, broken⟩ | ⟨inner', rest', group⟩
        · cases broken.symm.trans outlined
        · cases group.symm.trans outlined
          rfl
      rw [front]
      show find .round read (text ++ []) _ _ _ = _
      rw [List.append_nil]
      exact find_brackets noName _ _ _
  | nothing => cases outlined

end Group

namespace Strand

variable {b : Bracket} {read : SubReader}

/-! ## Text behind a matched text -/

/-- A text is read by the outline of its start and that of its rest. -/
theorem read?_append (m : Matched) (s : List Char) :
    read? b read (m.text ++ s) = ofOutline? b read 0 ((m.outline b).append (Outline.of b 0 s)) := by
  have behind (stop pos : Nat) : (Outline.scan b stop .initial pos (Lexeme.scan s)).erase =
      (Outline.of b 0 s).erase := Outline.erase_scan b _ _ (.neither []) _ _ _
  rw [read?, ← ofOutline?_erase, Matched.of_text_append, Outline.erase_append, behind,
    ← Outline.erase_append, ofOutline?_erase]

theorem ofOutline?_drop (ls : List Lexeme) (o : Outline) :
    ofOutline? b read ls.length (o.prepend ls) = ofOutline? b read 0 o := by
  cases o with
  | plain text => rw [Outline.prepend, ofOutline?, ofOutline?, List.drop_left, List.drop_zero]
  | broken text e => rfl
  | group before inner rest =>
      rw [Outline.prepend, ofOutline?, ofOutline?, List.drop_left, List.drop_zero]

/-- A group that takes nothing from the text behind it, and that text. -/
theorem read?_block {before inner behind : Matched} (bare : before.Bare)
    (visible : Text.allBlank inner.text = false) (bare' : behind.Bare) {s : List Char} {t : Term}
    (finds : Group.find b read before.text 0 inner.text (behind.lexemes ++ (Outline.of b 0 s).lead) =
      .ok ⟨[], t, behind.lexemes.length⟩) :
    read? b read ((before.append (.group b inner behind)).text ++ s) =
      (read? b read s).map (.term [] t) := by
  have outlined : ((before.append (.group b inner behind)).outline b).append (Outline.of b 0 s) =
      .group before.lexemes inner.lexemes ((Outline.of b 0 s).prepend behind.lexemes) := by
    rw [Matched.outline_bare_append b bare, Matched.outline, if_pos rfl,
      Matched.outline_bare b bare', Outline.prepend, List.append_nil]
    rfl
  rw [read?_append, outlined, ofOutline?, List.drop_zero, Matched.textAll_lexemes,
    Matched.textAll_lexemes, visible, Outline.lead_prepend, finds]
  show (ofOutline? b read behind.lexemes.length _).map _ = _
  rw [ofOutline?_drop]
  rfl

/-- Text in front of the groups of another one stays in front of them. -/
theorem read?_front {m : Matched} (plain : m.outline b = .plain m.lexemes) {s : List Char}
    (finds : ∀ before inner rest, Outline.of b 0 s = .group before inner rest →
      Group.find b read (m.text ++ Lexeme.textAll before) 0 (Lexeme.textAll inner) rest.lead =
        (Group.find b read (Lexeme.textAll before) 0 (Lexeme.textAll inner) rest.lead).map
          (Group.Found.prepend m.text)) :
    read? b read (m.text ++ s) = (read? b read s).map (prepend m.text) := by
  rw [read?_append, plain, read?]
  cases outlined : Outline.of b 0 s with
  | plain text =>
      simp only [Outline.append, Outline.prepend, ofOutline?, List.drop_zero, Lexeme.textAll,
        List.flatMap_append]
      rw [← Lexeme.textAll, Matched.textAll_lexemes]
      rfl
  | broken text e => rfl
  | group before inner rest =>
      have front : Lexeme.textAll (m.lexemes ++ before) = m.text ++ Lexeme.textAll before := by
        rw [Lexeme.textAll, List.flatMap_append, ← Lexeme.textAll, Matched.textAll_lexemes]
        rfl
      rw [Outline.append, Outline.prepend, ofOutline?, ofOutline?, List.drop_zero, List.drop_zero,
        front, finds _ _ _ outlined, toOption_map]
      split
      · rfl
      · cases (Group.find b read (Lexeme.textAll before) 0 (Lexeme.textAll inner)
            rest.lead).toOption with
        | none => rfl
        | some found =>
            show (ofOutline? b read found.used rest).map _ =
              Option.map _ ((ofOutline? b read found.used rest).map _)
            rw [Option.map_map]
            rfl

/-- More groups in a strand with text in front of it. -/
theorem expand_prepend {f : List Char → Option Strand} {text : List Char} {s : Strand}
    {g : Strand → Strand} (front : f (text ++ s.first) = (f s.first).map g)
    (links : ∀ s t s', (g s).link t s' = g (s.link t s')) :
    (s.prepend text).expand f = (s.expand f).map g := by
  cases s with
  | plain text' => exact front
  | term before t rest =>
      have first : f (text ++ before) = (f before).map g := front
      show (f (text ++ before)).bind _ = Option.map g ((f before).bind _)
      rw [first]
      cases f before with
      | none => rfl
      | some s =>
          cases rest.expand f with
          | none => rfl
          | some s' => exact congrArg some (links s t s')

/-! ## The start of a text -/

/-- A text that starts with a group, a call or a pool. -/
inductive Opens : List Char → Prop
  | round (s : List Char) : Opens ('(' :: s)
  | call (f : MathFunction) (s : List Char) : Opens (f.name.toList ++ '(' :: s)
  | curly (s : List Char) : Opens ('\x7b' :: s)

/-- A text that starts with nothing that belongs to a pool in front of it. -/
inductive Free : List Char → Prop
  | nothing : Free []
  | opens {s : List Char} (opens : Opens s) : Free s
  | char {c : Char} (noWord : Text.isWordChar c = false)
      (noModifier : Group.isModifierChar c = false) (plain : isBracket c = false) (s : List Char) :
      Free (c :: s)

theorem first_of_opening {word : List Char} (plain : ∀ c ∈ word, isBracket c = false)
    {s : List Char} {found : Strand}
    (fronts : ∀ inner lead f, Group.find b read word 0 inner lead = .ok f → f.front = [])
    (reads : read? b read (word ++ b.opening :: s) = some found) :
    ∃ t rest, found = .term [] t rest := by
  have whole : some found = ofOutline? b read 0
      (((Matched.ofPlain word plain).outline b).append (Outline.of b 0 (b.opening :: s))) := by
    rw [← read?_append, Matched.text_ofPlain, reads]
  rw [Matched.outline_ofPlain] at whole
  rcases Outline.of_opening b 0 s with ⟨e, broken⟩ | ⟨inner, rest, group⟩
  · rw [broken] at whole
    cases whole
  · rw [group, Outline.append, Outline.prepend, List.append_nil, ofOutline?, List.drop_zero] at whole
    have chars : Lexeme.textAll (word.map .char) = word := by
      simp [Lexeme.textAll, List.flatMap_map, Lexeme.text]
    rw [chars] at whole
    split at whole
    · cases whole
    · obtain ⟨f, ok, behind⟩ := Option.bind_eq_some_iff.1 whole.symm
      obtain ⟨others, -, rfl⟩ := Option.map_eq_some_iff.1 behind
      exact ⟨f.term, others, by rw [fronts _ _ _ (eq_ok_of_toOption ok)]⟩

/-- Brackets without anything in front of them, or with the name of a function, are the first term. -/
theorem first_of_round {word : List Char}
    (name : word = [] ∨ ∃ f : MathFunction, word = f.name.toList) {s : List Char} {found : Strand}
    (reads : read? .round read (word ++ '(' :: s) = some found) :
    ∃ t rest, found = .term [] t rest := by
  refine first_of_opening ?_ (fun inner lead f ok => ?_) reads
  · rcases name with rfl | ⟨f, rfl⟩
    · exact List.forall_mem_nil _
    · exact f.isBracket_name
  · obtain ⟨pair, round, rfl⟩ := ok_of_map ok
    rw [Group.front_withFlavorBehind]
    unfold Group.roundTerm at round
    dsimp only at round
    split at round
    · rename_i g function
      obtain ⟨args, -, rfl⟩ := ok_of_map round
      rcases name with rfl | ⟨f, rfl⟩
      · rfl
      · rw [f.cutWord_name]
    · rename_i noName
      obtain ⟨ts, -, rfl⟩ := ok_of_map round
      rcases name with rfl | ⟨f, rfl⟩
      · rfl
      · rw [f.cutWord_name, f.ofName?_name] at noName
        cases noName

theorem first_of_curly {s : List Char} {found : Strand}
    (reads : read? .curly read ('\x7b' :: s) = some found) : ∃ t rest, found = .term [] t rest := by
  refine @first_of_opening .curly read [] (List.forall_mem_nil _) s found
    (fun inner lead f ok => ?_) reads
  obtain ⟨t, -, rfl⟩ := ok_of_map ok
  exact Group.front_withFlavorBehind _ _ _ _

/-- A character that belongs to nothing stays at the start. -/
theorem first_of_char {c : Char} (noWord : Text.isWordChar c = false) (unflavored : c ≠ '[')
    (opening : c ≠ '(') (closing : c ≠ ')') {s : List Char} {found : Strand}
    (reads : read? .round read (c :: s) = some found) : ∃ behind, found.first = c :: behind := by
  obtain ⟨o, char⟩ := Outline.of_char .round unflavored opening closing 0 s
  rw [read?, char] at reads
  cases o with
  | plain text =>
      cases reads
      exact ⟨_, rfl⟩
  | broken text e => cases reads
  | group before inner rest =>
      have front : Lexeme.textAll ([.char c] ++ before) = [] ++ c :: Lexeme.textAll before := rfl
      rw [Outline.prepend, ofOutline?, List.drop_zero, front,
        Group.find_before .round read [] _ noWord] at reads
      split at reads
      · cases reads
      · obtain ⟨f, ok, behind⟩ := Option.bind_eq_some_iff.1 reads
        obtain ⟨others, -, rfl⟩ := Option.map_eq_some_iff.1 behind
        obtain ⟨f', -, rfl⟩ := ok_of_map (eq_ok_of_toOption ok)
        exact ⟨_, rfl⟩

/-- What is in front of the first round group belongs to no pool in front of that. -/
theorem first_of_free {s : List Char} (free : Free s) {found : Strand}
    (reads : read? .round read s = some found) :
    Group.modifierText (Outline.of .curly 0 found.first).lead = [] ∧
      Group.leadingFlavor (Outline.of .curly 0 found.first).lead = none := by
  have belongs {c : Char} {behind : List Char} (first : found.first = c :: behind)
      (noModifier : Group.isModifierChar c = false) (unflavored : c ≠ '[') :
      Group.modifierText (Outline.of .curly 0 found.first).lead = [] ∧
        Group.leadingFlavor (Outline.of .curly 0 found.first).lead = none := by
    rcases Outline.lead_of .curly 0 (s := found.first) (by simpa [first] using unflavored) with
      nothing | ⟨d, ls, head, lead⟩
    · rw [nothing]
      exact ⟨rfl, rfl⟩
    · rw [first] at head
      cases head
      rw [lead, Group.modifierText, if_neg (by rw [noModifier]; decide)]
      exact ⟨rfl, rfl⟩
  have term {word s : List Char} (name : word = [] ∨ ∃ f : MathFunction, word = f.name.toList)
      (reads : read? .round read (word ++ '(' :: s) = some found) :
      Group.modifierText (Outline.of .curly 0 found.first).lead = [] ∧
        Group.leadingFlavor (Outline.of .curly 0 found.first).lead = none := by
    obtain ⟨t, rest, rfl⟩ := first_of_round name reads
    exact ⟨rfl, rfl⟩
  cases free with
  | nothing =>
      cases reads
      exact ⟨rfl, rfl⟩
  | opens opens =>
      cases opens with
      | round s => exact term (.inl rfl) reads
      | call f s => exact term (.inr ⟨f, rfl⟩) reads
      | curly s =>
          obtain ⟨behind, first⟩ := first_of_char (by decide) (by decide) (by decide) (by decide) reads
          exact belongs first (by decide) (by decide)
  | @char c noWord noModifier plain s =>
      have ne {d : Char} (bracket : isBracket d = true) : c ≠ d := by
        rintro rfl
        rw [plain] at bracket
        cases bracket
      obtain ⟨behind, first⟩ := first_of_char noWord (ne rfl) (ne rfl) (ne rfl) reads
      exact belongs first noModifier (ne rfl)

end Strand

namespace Formula

open Matched

variable (read : SubReader)

/-- The strand of a text once its groups of both kinds are read. -/
def groups? (text : List Char) : Option Strand :=
  (Strand.read? .round read text).bind fun s => s.expand (Strand.read? .curly read)

theorem links?_eq (text : List Char) : links? read text = (groups? read text).map Strand.links := by
  unfold links? groups?
  cases Strand.read? .round read text <;> rfl

theorem links_term (t : Term) (s : Strand) : (Strand.term [] t s).links = .term t :: s.links := by
  rw [Strand.links, Link.ofText_blank rfl]
  rfl

theorem links?_of_groups? {text s : List Char} {t : Term}
    (groups : groups? read (text ++ s) = (groups? read s).map (.term [] t)) :
    links? read (text ++ s) = (links? read s).map (.term t :: ·) := by
  rw [links?_eq, links?_eq, groups, Option.map_map, Option.map_map]
  exact congrArg (Option.map · _) (funext (links_term t))

/-- What a text starts with is its first term. -/
theorem exists_term_of_opens {read : SubReader} {s : List Char} (opens : Strand.Opens s)
    {found : Strand} (reads : groups? read s = some found) : ∃ t rest, found = .term [] t rest := by
  obtain ⟨first, round, expands⟩ := Option.bind_eq_some_iff.1 reads
  have known {word s : List Char} (name : word = [] ∨ ∃ f : MathFunction, word = f.name.toList)
      (round : Strand.read? .round read (word ++ '(' :: s) = some first) :
      ∃ t rest, found = .term [] t rest := by
    obtain ⟨t, rest, rfl⟩ := Strand.first_of_round name round
    rw [Strand.expand, Strand.read?_blank .curly read rfl] at expands
    obtain ⟨others, -, rfl⟩ := Option.map_eq_some_iff.1 expands
    exact ⟨t, others, rfl⟩
  cases opens with
  | round s => exact known (.inl rfl) round
  | call f s => exact known (.inr ⟨f, rfl⟩) round
  | curly s =>
      obtain ⟨behind, front⟩ :=
        Strand.first_of_char (by decide) (by decide) (by decide) (by decide) round
      cases first with
      | plain text =>
          obtain rfl : text = _ := front
          exact Strand.first_of_curly expands
      | term before t rest =>
          obtain rfl : before = _ := front
          obtain ⟨s', curly, expands⟩ := Option.bind_eq_some_iff.1 expands
          obtain ⟨t', rest', rfl⟩ := Strand.first_of_curly curly
          obtain ⟨others, -, rfl⟩ := Option.map_eq_some_iff.1 expands
          exact ⟨t', _, rfl⟩

/-! ## Two texts -/

section Operand

variable {inner : Matched} (visible : Text.allBlank inner.text = false) (flavor : Option String)
  (closes : ∀ f, flavor = some f → ']' ∉ f.toList) {s : List Char}
include visible closes

/-- A group or a call is one term, with any text behind it that does not start with flavor. -/
theorem links?_round_append {word : List Char} (plain : ∀ c ∈ word, isBracket c = false) {t : Term}
    (unflavored : t.withFlavor none = t)
    (found : Group.roundTerm read word 0 inner.text = .ok ([], t))
    (behind : flavor = none → s.head? ≠ some '[') :
    links? read (word ++ '(' :: inner.text ++ ')' :: (Term.flavorText flavor).toList ++ s) =
      (links? read s).map (.term (t.withFlavor flavor) :: ·) := by
  have text : word ++ '(' :: inner.text ++ ')' :: (Term.flavorText flavor).toList =
      ((ofPlain word plain).append (.group .round inner (ofFlavor flavor closes))).text := by
    simp [Matched.text, text_ofFlavor, Bracket.opening, Bracket.closing]
  have other : flavor = none → Group.leadingFlavor (Outline.of .round 0 s).lead = none := by
    intro none
    rcases Outline.lead_of .round 0 (behind none) with nothing | ⟨c, ls, -, lead⟩
    · rw [nothing]
      rfl
    · rw [lead]
      rfl
  rw [text]
  have round : Strand.read? .round read (((ofPlain word plain).append
      (.group .round inner (ofFlavor flavor closes))).text ++ s) =
      (Strand.read? .round read s).map (.term [] (t.withFlavor flavor)) := by
    refine Strand.read?_block (bare_ofPlain word plain) visible (bare_ofFlavor flavor closes) ?_
    unfold Group.find
    dsimp only
    rw [text_ofPlain, found]
    exact congrArg Except.ok (withFlavorBehind_ofFlavor flavor closes [] unflavored [] other)
  refine links?_of_groups? read ?_
  unfold groups?
  rw [round]
  cases Strand.read? .round read s with
  | none => rfl
  | some s' =>
      rw [Option.map_some, Option.bind_some, Strand.expand, Strand.read?_blank .curly read rfl]
      rfl

/-- A group or a call is one term. -/
theorem links?_round {word : List Char} (plain : ∀ c ∈ word, isBracket c = false) {t : Term}
    (unflavored : t.withFlavor none = t)
    (found : Group.roundTerm read word 0 inner.text = .ok ([], t)) :
    links? read (word ++ '(' :: inner.text ++ ')' :: (Term.flavorText flavor).toList) =
      some [.term (t.withFlavor flavor)] := by
  have links := links?_round_append read visible flavor closes plain unflavored found (s := [])
    fun _ => by simp
  rwa [List.append_nil, links?_nothing] at links

variable {members : List (List Term)} {text : List Char} {modifiers : List Modifier}
  (plain : ∀ c ∈ text, isBracket c = false) (belongs : ∀ c ∈ text, Group.isModifierChar c = true)
  (reads : (Group.arguments read 0 inner.text).toOption = some members)
  (modifies : (Group.poolModifiers 0 text).toOption = some modifiers)
include plain belongs reads modifies

/-- A pool with its modifiers is one term, with any text behind it that belongs to no pool and
leaves the names in it as they are. -/
theorem links?_pool_append
    (parts : Group.Parts ('\x7b' :: inner.text ++ '\x7d' :: text ++ (Term.flavorText flavor).toList) s)
    (free : flavor = none → Strand.Free s) :
    links? read ('\x7b' :: inner.text ++ '\x7d' :: text ++ (Term.flavorText flavor).toList ++ s) =
      (links? read s).map (.term (.pool members modifiers [] false flavor) :: ·) := by
  let behind := (ofPlain text plain).append (ofFlavor flavor closes)
  have bare : behind.Bare := bare_append (bare_ofPlain text plain) (bare_ofFlavor flavor closes)
  have lexemes : behind.lexemes = text.map .char ++ (ofFlavor flavor closes).lexemes := by
    rw [lexemes_append, lexemes_ofPlain]
  have whole : '\x7b' :: inner.text ++ '\x7d' :: text ++ (Term.flavorText flavor).toList =
      (Matched.nil.append (.group .curly inner behind)).text := by
    simp [behind, Matched.text, Matched.append, text_ofFlavor, Bracket.opening, Bracket.closing]
  have pool : Group.curlyTerm read 0 inner.text (0 + Text.byteLength inner.text + 1) text =
      .ok (.pool members modifiers [] false none) := by
    unfold Group.curlyTerm
    rw [eq_ok_of_toOption reads]
    dsimp only
    rw [eq_ok_of_toOption ((Group.poolModifiers_steady _ 0 text).trans modifies)]
    rfl
  rw [whole] at parts ⊢
  have flat : (Matched.nil.append (.group .curly inner behind)).Flat := ⟨rfl, flat_of_bare bare⟩
  have round := @Strand.read?_front .round read _ (outline_flat flat) s
    fun _ _ _ => Group.find_parts parts
  refine links?_of_groups? read ?_
  unfold groups?
  rw [round]
  cases first : Strand.read? .round read s with
  | none => rfl
  | some s' =>
      refine Strand.expand_prepend (g := .term [] (.pool members modifiers [] false flavor)) ?_
        fun _ _ _ => rfl
      have nothing : Matched.nil.Bare := trivial
      refine Strand.read?_block nothing visible bare ?_
      have other (none : flavor = none) := Strand.first_of_free (free none) first
      have characters := modifierText_ofFlavor flavor closes belongs fun none => (other none).1
      have flavored := withFlavorBehind_ofFlavor flavor closes []
        (t := .pool members modifiers [] false none) rfl (text.map .char) fun none => (other none).2
      unfold Group.find
      dsimp only
      rw [lexemes, List.append_assoc, characters]
      show (Group.curlyTerm read 0 inner.text _ text).map _ = _
      rw [pool]
      rw [List.length_map] at flavored
      exact congrArg Except.ok flavored

/-- A pool with its modifiers is one term. -/
theorem links?_pool :
    links? read ('\x7b' :: inner.text ++ '\x7d' :: text ++ (Term.flavorText flavor).toList) =
      some [.term (.pool members modifiers [] false flavor)] := by
  have links := links?_pool_append read visible flavor closes plain belongs reads modifies
    (s := []) .nothing fun _ => .nothing
  rwa [List.append_nil, links?_nothing] at links

end Operand

/-- Text without groups, with a group, a call or a pool behind it that takes nothing of it. -/
theorem links?_bare_append {m : Matched} (bare : m.Bare) {s : List Char}
    (parts : Group.Parts m.text s) (opens : Strand.Opens s) :
    links? read (m.text ++ s) = (links? read s).map (Link.ofText m.text ++ ·) := by
  have round := @Strand.read?_front .round read m (outline_flat (flat_of_bare bare)) s
    fun _ _ _ => Group.find_parts parts
  have groups : groups? read (m.text ++ s) = (groups? read s).map (Strand.prepend m.text) := by
    unfold groups?
    rw [round]
    cases Strand.read? .round read s with
    | none => rfl
    | some s' =>
        refine Strand.expand_prepend ?_ fun s _ _ => by cases s <;> rfl
        exact Strand.read?_front (outline_bare .curly bare) fun _ _ _ _ => Group.find_curly _ _ _ _ _
  rw [links?_eq, links?_eq, groups]
  cases found : groups? read s with
  | none => rfl
  | some s' =>
      obtain ⟨t, rest, rfl⟩ := exists_term_of_opens opens found
      show some (Strand.links (.term (m.text ++ []) t rest)) = some (_ ++ Strand.links (.term [] t rest))
      rw [links_term, Strand.links, List.append_nil]

end Formula

end DiceFormula
