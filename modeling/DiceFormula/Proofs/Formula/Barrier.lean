/-
# DiceFormula.Proofs.Formula.Barrier -- operators as barriers

No group, call or pool reaches past an operator outside of all brackets: neither
the name of a function, nor modifiers, nor flavor.  So a text with such an operator
in it is read as what stands in front of it and what stands behind it
(`links?_operator`).
-/
import DiceFormula.Proofs.Formula.Links

namespace DiceFormula

set_option autoImplicit false

/-! ## Strands one after the other -/

namespace Strand

/-- The strand with more text in front of it. -/
def prepend (text : List Char) : Strand → Strand
  | plain text' => plain (text ++ text')
  | term before t rest => term (text ++ before) t rest

/-- A strand with another one behind it. -/
def append : Strand → Strand → Strand
  | plain text, s => s.prepend text
  | term before t rest, s => term before t (rest.append s)

/-- Two strands with a character between them. -/
def join (s : Strand) (c : Char) (s' : Strand) : Strand := s.append (s'.prepend [c])

theorem link_append (s s' s'' : Strand) (t : Term) :
    (s.append s').link t s'' = s.append (s'.link t s'') := by
  induction s with
  | plain text => cases s' <;> rfl
  | term before t' rest ih => exact congrArg (term before t') ih

theorem link_join (s s' s'' : Strand) (c : Char) (t : Term) :
    (s.join c s').link t s'' = s.join c (s'.link t s'') := by
  rw [join, link_append]
  cases s' <;> rfl

theorem join_link (s s' s'' : Strand) (c : Char) (t : Term) :
    (s.link t s').join c s'' = s.link t (s'.join c s'') := by
  induction s with
  | plain text => rfl
  | term before t' rest ih => exact congrArg (term before t') ih

/-- The text in front of the first term. -/
def first : Strand → List Char
  | plain text => text
  | term before _ _ => before

/-- The text behind the last term. -/
def last : Strand → List Char
  | plain text => text
  | term _ _ rest => rest.last

end Strand

/-! ## Groups beside an operator -/

namespace Group

theorem span_stop {α : Type} {p : α → Bool} {a : α} (stop : p a = false) (as bs : List α) :
    (as ++ a :: bs).span p = ((as.span p).1, (as.span p).2 ++ a :: bs) := by
  rw [List.span_eq_takeWhile_dropWhile, List.span_eq_takeWhile_dropWhile]
  induction as with
  | nil => simp [stop]
  | cons b as ih =>
      rw [Prod.mk.injEq] at ih
      by_cases takes : p b = true
      · simp [takes, ih.1, ih.2]
      · simp [takes]

theorem cutWord_append (before behind : List Char) {c : Char} (stop : Text.isWordChar c = false) :
    cutWord (before ++ c :: behind) =
      (before ++ c :: (cutWord behind).1, (cutWord behind).2) := by
  have reversed : (before ++ c :: behind).reverse = behind.reverse ++ c :: before.reverse := by simp
  unfold cutWord
  rw [reversed, span_stop stop]
  simp

/-- Text in front of what belongs to a group stays in front. -/
theorem find_before (b : Bracket) (read : SubReader) (text before : List Char) {c : Char}
    (stop : Text.isWordChar c = false) (offset : Nat) (inner : List Char) (lead : List Lexeme) :
    find b read (text ++ c :: before) offset inner lead =
      (find b read before offset inner lead).map fun found =>
        { found with front := text ++ c :: found.front } := by
  have flavored (front : List Char) (t : Term) (used : Nat) :
      withFlavorBehind (text ++ c :: front) t used lead =
        { withFlavorBehind front t used lead with
          front := text ++ c :: (withFlavorBehind front t used lead).front } := by
    unfold withFlavorBehind
    split <;> rfl
  cases b with
  | round =>
      unfold find roundTerm
      dsimp only
      rw [cutWord_append _ _ stop]
      dsimp only
      split
      · cases arguments read offset inner with
        | error e => rfl
        | ok args => exact congrArg Except.ok (flavored _ _ _)
      · cases read offset inner with
        | error e => rfl
        | ok terms => exact congrArg Except.ok (flavored _ _ _)
  | curly =>
      unfold find
      dsimp only
      cases curlyTerm read offset inner (offset + Text.byteLength inner + 1) (modifierText lead) with
      | error e => rfl
      | ok t => exact congrArg Except.ok (flavored _ _ _)

theorem length_modifierText (lead : List Lexeme) : (modifierText lead).length ≤ lead.length := by
  fun_induction modifierText lead with
  | case1 c rest modifier ih => exact Nat.succ_le_succ ih
  | case2 c rest other => exact Nat.zero_le _
  | case3 lead other => exact Nat.zero_le _

theorem modifierText_append (lead more : List Lexeme) {c : Char} (stop : isModifierChar c = false) :
    modifierText (lead ++ .char c :: more) = modifierText lead := by
  induction lead with
  | nil => simp [modifierText, stop]
  | cons l lead ih =>
      cases l with
      | char d =>
          rw [List.cons_append, modifierText, modifierText, ih]
      | flavor text => rfl
      | unclosedFlavor text => rfl

theorem withFlavorBehind_append (front : List Char) (t : Term) (used : Nat)
    (lead more : List Lexeme) (c : Char) (enough : used ≤ lead.length) :
    withFlavorBehind front t used (lead ++ .char c :: more) = withFlavorBehind front t used lead := by
  unfold withFlavorBehind
  rw [List.drop_append_of_le_length enough]
  cases lead.drop used with
  | nil => rfl
  | cons l rest => cases l <;> rfl

/-- What stands behind an operator does not belong to a group in front of it. -/
theorem find_behind (b : Bracket) (read : SubReader) (before : List Char) (offset : Nat)
    (inner : List Char) (lead more : List Lexeme) {c : Char} (stop : isModifierChar c = false) :
    find b read before offset inner (lead ++ .char c :: more) =
      find b read before offset inner lead := by
  cases b with
  | round =>
      unfold find
      dsimp only
      congr 1
      funext pair
      exact withFlavorBehind_append _ _ 0 _ _ _ (Nat.zero_le _)
  | curly =>
      unfold find
      dsimp only
      rw [modifierText_append _ _ stop]
      congr 1
      funext t
      exact withFlavorBehind_append _ _ _ _ _ _ (length_modifierText lead)

/-- What may belong to a group in front of it: flavor, and characters that are no
brackets. -/
def Loose : Lexeme → Prop
  | .flavor _ => True
  | .char c => isBracket c = false
  | .unclosedFlavor _ => False

theorem loose_of_isModifierChar {c : Char} (modifier : isModifierChar c = true) :
    Loose (.char c) := by
  by_contra bracket
  rw [Loose, Bool.not_eq_false] at bracket
  simp only [isBracket, Bool.or_eq_true, beq_iff_eq] at bracket
  rcases bracket with (((rfl | rfl) | rfl) | rfl) | rfl <;> cases modifier

theorem loose_modifierText (lead : List Lexeme) :
    ∀ l ∈ lead.take (modifierText lead).length, Loose l := by
  fun_induction modifierText lead with
  | case1 c rest modifier ih =>
      intro l mem
      rw [List.length_cons, List.take_succ_cons] at mem
      rcases List.mem_cons.1 mem with rfl | mem
      · exact loose_of_isModifierChar modifier
      · exact ih l mem
  | case2 c rest other => simp
  | case3 lead other => simp

theorem loose_withFlavorBehind (front : List Char) (t : Term) {used : Nat} {lead : List Lexeme}
    (enough : used ≤ lead.length) (loose : ∀ l ∈ lead.take used, Loose l) :
    (withFlavorBehind front t used lead).used ≤ lead.length ∧
      ∀ l ∈ lead.take (withFlavorBehind front t used lead).used, Loose l := by
  unfold withFlavorBehind
  split
  · rename_i flavor behind
    cases rest : lead.drop used with
    | nil => rw [rest] at behind; cases behind
    | cons l others =>
        have within : used < lead.length := by
          by_contra beyond
          rw [List.drop_eq_nil_of_le (Nat.le_of_not_lt beyond)] at rest
          cases rest
        have first : lead[used] = l := by
          have := List.drop_eq_getElem_cons within
          rw [rest] at this
          exact (List.cons.inj this).1.symm
        refine ⟨within, fun l' mem => ?_⟩
        rw [List.take_succ_eq_append_getElem within, List.mem_append, List.mem_singleton, first]
          at mem
        rcases mem with mem | rfl
        · exact loose l' mem
        · rw [rest] at behind
          cases l' with
          | flavor text => trivial
          | char c => cases behind
          | unclosedFlavor text => cases behind
  · exact ⟨enough, loose⟩

/-- What belongs to a group behind it is loose. -/
theorem loose_used {b : Bracket} {read : SubReader} {before : List Char} {offset : Nat}
    {inner : List Char} {lead : List Lexeme} {found : Found}
    (ok : find b read before offset inner lead = .ok found) :
    found.used ≤ lead.length ∧ ∀ l ∈ lead.take found.used, Loose l := by
  cases b with
  | round =>
      unfold find at ok
      dsimp only at ok
      cases round : roundTerm read before offset inner with
      | error e => rw [round] at ok; cases ok
      | ok pair =>
          rw [round] at ok
          cases ok
          exact loose_withFlavorBehind _ _ (Nat.zero_le _) (by simp)
  | curly =>
      unfold find at ok
      dsimp only at ok
      cases curly : curlyTerm read offset inner (offset + Text.byteLength inner + 1)
          (modifierText lead) with
      | error e => rw [curly] at ok; cases ok
      | ok t =>
          rw [curly] at ok
          cases ok
          exact loose_withFlavorBehind _ _ (length_modifierText lead) (loose_modifierText lead)

end Group

/-! ## The text behind the last group -/

namespace Matched

/-- The text has no round group outside of curly ones. -/
def Flat : Matched → Prop
  | nil => True
  | char _ _ rest => rest.Flat
  | flavor _ _ rest => rest.Flat
  | group b _ rest => b = .curly ∧ rest.Flat

/-- What is left of a matched text without a loose start is matched. -/
theorem exists_drop (m : Matched) (flat : m.Flat) (used : Nat)
    (loose : ∀ l ∈ m.lexemes.take used, Group.Loose l) :
    ∃ m' : Matched, m'.Flat ∧ m'.lexemes = m.lexemes.drop used := by
  induction used generalizing m with
  | zero => exact ⟨m, flat, rfl⟩
  | succ used ih =>
      cases m with
      | nil => exact ⟨nil, trivial, rfl⟩
      | char c plain rest => exact ih rest flat fun l mem => loose l (List.mem_cons_of_mem _ mem)
      | flavor inner closes rest =>
          exact ih rest flat fun l mem => loose l (List.mem_cons_of_mem _ mem)
      | group b inner rest =>
          have bracket : isBracket b.opening = false := loose _ List.mem_cons_self
          cases b <;> cases bracket

end Matched

namespace Outline

/-- The text behind the last group. -/
def lastText : Outline → List Lexeme
  | plain text => text
  | broken text _ => text
  | group _ _ rest => rest.lastText

end Outline

namespace Matched

theorem flat_append {m m' : Matched} (flat : m.Flat) (flat' : m'.Flat) : (m.append m').Flat := by
  induction m with
  | nil => exact flat'
  | char c plain rest ih => exact ih flat
  | flavor inner closes rest ih => exact ih flat
  | group b inner rest _ ih => exact ⟨flat.1, ih flat.2⟩

theorem exists_lastText_prepend {m : Matched} (flat : m.Flat) {o : Outline}
    (last : ∃ m' : Matched, m'.Flat ∧ m'.lexemes = o.lastText) :
    ∃ m' : Matched, m'.Flat ∧ m'.lexemes = (o.prepend m.lexemes).lastText := by
  obtain ⟨m', flat', lexemes⟩ := last
  cases o with
  | plain text => exact ⟨m.append m', flat_append flat flat', by rw [lexemes_append, lexemes]; rfl⟩
  | broken text e =>
      exact ⟨m.append m', flat_append flat flat', by rw [lexemes_append, lexemes]; rfl⟩
  | group before inner rest => exact ⟨m', flat', lexemes⟩

/-- The text behind the last group of a kind is matched.  While curly groups are
looked for there must be no round ones. -/
theorem exists_lastText (b : Bracket) (m : Matched) (flat : b = .curly → m.Flat) :
    ∃ m' : Matched, m'.Flat ∧ m'.lexemes = (m.outline b).lastText := by
  induction m with
  | nil => exact ⟨nil, trivial, rfl⟩
  | char c plain rest ih =>
      exact exists_lastText_prepend (m := char c plain nil) trivial (ih flat)
  | flavor inner closes rest ih =>
      exact exists_lastText_prepend (m := flavor inner closes nil) trivial (ih flat)
  | group b' inner rest _ ih =>
      have behind := ih fun curly => (flat curly).2
      rw [outline]
      split
      · exact behind
      · rename_i other
        split
        · have curly : b' = .curly := by
            rename_i round
            cases b' with
            | round => exact absurd round.symm other
            | curly => rfl
          have whole := exists_lastText_prepend (m := group .curly inner nil) ⟨rfl, trivial⟩ behind
          rw [curly]
          simpa [lexemes] using whole
        · rename_i round
          have curly : b = .curly := by
            cases b with
            | round => exact absurd rfl round
            | curly => rfl
          exact absurd ((flat curly).1.trans curly.symm) other

end Matched

/-! ## Reading beside an operator -/

namespace Strand

/-- The text behind the last term is matched. -/
theorem exists_last {b : Bracket} {read : SubReader} {o : Outline} {used : Nat} {s : Strand}
    (loose : ∀ l ∈ o.lead.take used, Group.Loose l)
    (last : ∃ m : Matched, m.Flat ∧ m.lexemes = o.lastText)
    (found : ofOutline? b read used o = some s) : ∃ m : Matched, m.Flat ∧ m.text = s.last := by
  induction o generalizing used s with
  | plain text =>
      cases found
      obtain ⟨m, flat, lexemes⟩ := last
      obtain ⟨m', flat', rest⟩ := m.exists_drop flat used (by rw [lexemes]; exact loose)
      refine ⟨m', flat', ?_⟩
      rw [← Matched.textAll_lexemes, rest, lexemes]
      rfl
  | broken text e => cases found
  | group before inner rest ih =>
      unfold ofOutline? at found
      split at found
      · cases found
      · obtain ⟨f, ok, found⟩ := Option.bind_eq_some_iff.1 found
        obtain ⟨s', behind, rfl⟩ := Option.map_eq_some_iff.1 found
        have := ih (Group.loose_used (eq_ok_of_toOption ok)).2 last behind
        exact this

section Operator

variable (b : Bracket) (read : SubReader) {c : Char} (noWord : Text.isWordChar c = false)
  (noModifier : Group.isModifierChar c = false)
include noWord

theorem ofOutline?_prepend {used : Nat} {text : List Lexeme} (enough : used ≤ text.length)
    (o : Outline) :
    ofOutline? b read used (o.prepend (text ++ [.char c])) =
      (ofOutline? b read 0 o).map fun s =>
        (s.prepend [c]).prepend (Lexeme.textAll (text.drop used)) := by
  have front (ls : List Lexeme) : Lexeme.textAll ((text ++ [Lexeme.char c] ++ ls).drop used) =
      Lexeme.textAll (text.drop used) ++ c :: Lexeme.textAll ls := by
    rw [List.append_assoc, List.drop_append_of_le_length enough]
    simp [Lexeme.textAll, Lexeme.text]
  cases o with
  | plain text' =>
      rw [Outline.prepend, ofOutline?, front]
      rfl
  | broken text' e => rfl
  | group before inner rest =>
      rw [Outline.prepend, ofOutline?, ofOutline?, front, List.drop_zero]
      split
      · rfl
      · rw [Group.find_before b read _ _ noWord, toOption_map]
        cases (Group.find b read (Lexeme.textAll before) 0 (Lexeme.textAll inner)
            rest.lead).toOption with
        | none => rfl
        | some found =>
            show (ofOutline? b read found.used rest).map _ =
              Option.map _ ((ofOutline? b read found.used rest).map _)
            rw [Option.map_map]
            rfl

include noModifier

theorem ofOutline?_append {used : Nat} {o : Outline} (enough : used ≤ o.lead.length)
    (o' : Outline) :
    ofOutline? b read used (o.append (o'.prepend [.char c])) =
      (ofOutline? b read used o).bind fun s => (ofOutline? b read 0 o').map (s.join c) := by
  induction o generalizing used with
  | plain text =>
      have within : used ≤ text.length := enough
      rw [Outline.append, Outline.prepend_prepend, ofOutline?_prepend b read noWord within]
      rfl
  | broken text e => rfl
  | group before inner rest ih =>
      have lead : Group.find b read (Lexeme.textAll (before.drop used)) 0 (Lexeme.textAll inner)
          (rest.append (o'.prepend [.char c])).lead =
          Group.find b read (Lexeme.textAll (before.drop used)) 0 (Lexeme.textAll inner)
            rest.lead := by
        cases rest with
        | plain text =>
            have : (Outline.append (.plain text) (o'.prepend [.char c])).lead =
                text ++ .char c :: o'.lead := by
              cases o' <;> simp [Outline.append, Outline.prepend, Outline.lead]
            rw [this, Group.find_behind b read _ _ _ _ _ noModifier]
            rfl
        | broken text e => rfl
        | group before' inner' rest' => rfl
      rw [Outline.append, ofOutline?, ofOutline?, lead]
      split
      · rfl
      · cases found : Group.find b read (Lexeme.textAll (before.drop used)) 0
            (Lexeme.textAll inner) rest.lead with
        | error e => rfl
        | ok f =>
            show (ofOutline? b read f.used _).map _ = Option.bind (Option.map _ _) _
            rw [ih (Group.loose_used found).1]
            cases ofOutline? b read f.used rest with
            | none => rfl
            | some s =>
                cases ofOutline? b read 0 o' with
                | none => rfl
                | some s' => rfl

/-- The groups of one kind around a character that none of them reaches past. -/
theorem read?_join (plain : isBracket c = false) (m : Matched) (s : List Char) :
    read? b read (m.text ++ c :: s) =
      (read? b read m.text).bind fun front => (read? b read s).map (front.join c) := by
  have behind (stop pos : Nat) :
      ofOutline? b read 0 (Outline.scan b stop .initial pos (Lexeme.scan s)) = read? b read s := by
    have same : (Outline.scan b stop .initial pos (Lexeme.scan s)).erase =
        (Outline.of b 0 s).erase := Outline.erase_scan b _ _ (.neither []) _ _ _
    rw [read?, ← ofOutline?_erase, same, ofOutline?_erase]
  rw [read?, Matched.of_text_append, Matched.scan_char (Matched.ne_flavor_of_plain plain),
    Outline.scan_plain _ _ rfl _ plain]
  refine Eq.trans (congrArg (fun o => ofOutline? b read 0 (Outline.append _ o))
    (Outline.scan_before b _ [.char c] none none _ _)) ?_
  refine (ofOutline?_append b read noWord noModifier (Nat.zero_le _) _).trans ?_
  rw [← Matched.outline_text b m 0]
  exact congrArg _ (funext fun front => congrArg _ (behind _ _))

end Operator

theorem last_link (s s' : Strand) (t : Term) : (s.link t s').last = s'.last := by
  induction s with
  | plain text => rfl
  | term before t' rest ih => exact ih

theorem exists_last_read {b : Bracket} {read : SubReader} {m : Matched}
    (flat : b = .curly → m.Flat) {s : Strand} (found : read? b read m.text = some s) :
    ∃ m' : Matched, m'.Flat ∧ m'.text = s.last := by
  rw [read?, Matched.outline_text] at found
  exact exists_last (fun l mem => by cases mem) (m.exists_lastText b flat) found

theorem exists_last_expand {read : SubReader} {s s' : Strand}
    (last : ∃ m : Matched, m.Flat ∧ m.text = s.last)
    (expands : s.expand (read? .curly read) = some s') :
    ∃ m : Matched, m.Flat ∧ m.text = s'.last := by
  induction s generalizing s' with
  | plain text =>
      obtain ⟨m, flat, rfl⟩ := last
      exact exists_last_read (fun _ => flat) expands
  | term before t rest ih =>
      obtain ⟨first, -, expands⟩ := Option.bind_eq_some_iff.1 expands
      obtain ⟨others, behind, rfl⟩ := Option.map_eq_some_iff.1 expands
      rw [last_link]
      exact ih last behind

/-- More groups around a character that none of them reaches past. -/
theorem expand_join {f : List Char → Option Strand} {c : Char} {s : Strand}
    (joins : ∀ text, f (s.last ++ c :: text) =
      (f s.last).bind fun front => (f text).map (front.join c)) (s' : Strand) :
    (s.join c s').expand f = (s.expand f).bind fun front => (s'.expand f).map (front.join c) := by
  induction s with
  | plain text =>
      cases s' with
      | plain text' => exact joins text'
      | term before t rest =>
          have first := joins before
          show (f (text ++ c :: before)).bind _ = (f text).bind fun front =>
            ((f before).bind fun s => (rest.expand f).map (s.link t)).map (front.join c)
          rw [last] at first
          rw [first]
          cases f text with
          | none => rfl
          | some front =>
              cases f before with
              | none => rfl
              | some s =>
                  cases rest.expand f with
                  | none => rfl
                  | some s' => exact congrArg some (link_join front s s' c t)
  | term before t rest ih =>
      show (f before).bind (fun s => ((rest.join c s').expand f).map (s.link t)) =
        ((f before).bind fun s => (rest.expand f).map (s.link t)).bind fun front =>
          (s'.expand f).map (front.join c)
      rw [ih joins]
      cases f before with
      | none => rfl
      | some first =>
          cases rest.expand f with
          | none => rfl
          | some others =>
              cases s'.expand f with
              | none => rfl
              | some behind => exact congrArg some (join_link first others behind c t).symm

theorem ofText_join {op : Operator} (m : Matched) (text : List Char) :
    Link.ofText (m.text ++ op.symbol :: text) =
      Link.ofText m.text ++ .operator op :: Link.ofText text := by
  have symbol : op.symbol ≠ '[' := by cases op <;> decide
  have operator : Cut.operator? (.char op.symbol) = some op := by cases op <;> rfl
  rw [Link.ofText, Matched.scan_text, Matched.scan_char symbol, Link.scan_append _ _ _ operator,
    Link.ofText, Matched.scan_text_self]
  rfl

theorem links_join {op : Operator} {s : Strand} (last : ∃ m : Matched, m.Flat ∧ m.text = s.last)
    (s' : Strand) : (s.join op.symbol s').links = s.links ++ .operator op :: s'.links := by
  induction s with
  | plain text =>
      obtain ⟨m, -, rfl⟩ := last
      cases s' with
      | plain text' => exact ofText_join m text'
      | term before t rest =>
          refine (congrArg (· ++ _) (ofText_join m before)).trans ?_
          simp [links]
  | term before t rest ih =>
      refine (congrArg (fun ls => Link.ofText before ++ .term t :: ls) (ih last)).trans ?_
      simp [links]

end Strand

namespace Formula

/-- **An operator outside of all brackets is a barrier.** -/
theorem links?_operator (read : SubReader) (m : Matched) (op : Operator) (s : List Char) :
    links? read (m.text ++ op.symbol :: s) =
      (links? read m.text).bind fun front =>
        (links? read s).map fun behind => front ++ .operator op :: behind := by
  have plain : isBracket op.symbol = false := by cases op <;> rfl
  have noWord : Text.isWordChar op.symbol = false := by cases op <;> rfl
  have noModifier : Group.isModifierChar op.symbol = false := by cases op <;> rfl
  unfold links?
  rw [Strand.read?_join .round read noWord noModifier plain m]
  cases front : Strand.read? .round read m.text with
  | none => rfl
  | some s₁ =>
      obtain ⟨m', flat, text⟩ := Strand.exists_last_read (b := .round) (by simp) front
      have joins (text : List Char) :=
        Strand.read?_join .curly read noWord noModifier plain m' text
      rw [text] at joins
      cases behind : Strand.read? .round read s with
      | none =>
          show none = Option.bind (Option.map _ _) _
          cases s₁.expand (Strand.read? .curly read) <;> rfl
      | some s₂ =>
          show ((s₁.join op.symbol s₂).expand (Strand.read? .curly read)).map Strand.links =
            Option.bind ((s₁.expand (Strand.read? .curly read)).map Strand.links) _
          rw [Strand.expand_join joins]
          cases expanded : s₁.expand (Strand.read? .curly read) with
          | none => rfl
          | some s₁' =>
              have last' := Strand.exists_last_expand ⟨m', flat, text⟩ expanded
              show ((s₂.expand (Strand.read? .curly read)).map _).map Strand.links =
                Option.map _ ((s₂.expand (Strand.read? .curly read)).map Strand.links)
              rw [Option.map_map, Option.map_map]
              exact congrArg (fun f => Option.map f _) (funext (Strand.links_join last'))

/-! ## White space -/

theorem isModifierChar_of_isBlank {c : Char} (blank : Text.isBlank c = true) :
    Group.isModifierChar c = false := by
  have noWord := Text.isWordChar_of_isBlank blank
  rw [Text.isWordChar, Bool.or_eq_false_iff] at noWord
  have other (d : Char) (visible : Text.isBlank d = false) : (c == d) = false := by
    rw [beq_eq_false_iff_ne]
    rintro rfl
    rw [blank] at visible
    cases visible
  rw [Group.isModifierChar, noWord.1, other '<' rfl, other '>' rfl, other '=' rfl]
  rfl

theorem operand?_blank_append {gap : List Char} (blank : Text.allBlank gap = true)
    (s : List Char) : Link.operand? (gap ++ s) = Link.operand? s := by
  unfold Link.operand?
  rw [Text.allBlank_append, blank, Bool.true_and, Text.trim_blank_append blank]

theorem operand?_append_blank {gap : List Char} (blank : Text.allBlank gap = true)
    (s : List Char) : Link.operand? (s ++ gap) = Link.operand? s := by
  unfold Link.operand?
  rw [Text.allBlank_append, blank, Bool.and_true, Text.trim_append_blank blank]

theorem ofText_blank_cons {c : Char} (blank : Text.isBlank c = true) (s : List Char) :
    Link.ofText (c :: s) = Link.ofText s := by
  have single : Text.allBlank [c] = true := by simpa [Text.allBlank] using blank
  have behind (read ls : List Lexeme) :
      Link.scan (read ++ [.char c]) ls = Link.scan read ls := by
    induction ls generalizing read with
    | nil =>
        rw [Link.scan_nil, Link.scan_nil, List.reverse_append, Lexeme.textAll, List.flatMap_append]
        exact operand?_blank_append single _
    | cons l ls ih =>
        cases cut : Cut.operator? l with
        | none => exact (Link.scan_other _ _ cut).trans ((ih (l :: read)).trans
            (Link.scan_other _ _ cut).symm)
        | some op =>
            rw [Link.scan_operator _ _ cut, Link.scan_operator _ _ cut, List.reverse_append,
              Lexeme.textAll, List.flatMap_append]
            congr 1
            exact operand?_blank_append single _
  have start : c ≠ '[' := Matched.ne_flavor_of_plain (Matched.isBracket_of_isBlank blank)
  rw [Link.ofText, Matched.scan_char start, Link.scan_other _ _ (Link.operator?_of_isBlank blank)]
  exact behind [] _

theorem ofText_append_blank (m : Matched) {gap : List Char} (blank : Text.allBlank gap = true) :
    Link.ofText (m.text ++ gap) = Link.ofText m.text := by
  have before (read ls : List Lexeme) :
      Link.scan read (ls ++ gap.map .char) = Link.scan read ls := by
    induction ls generalizing read with
    | nil =>
        rw [List.nil_append, Link.scan_operand, Link.scan_nil, Lexeme.textAll,
          List.flatMap_append]
        · have chars : (gap.map Lexeme.char).flatMap Lexeme.text = gap := by
            simp [List.flatMap_map, Lexeme.text]
          rw [chars]
          exact operand?_append_blank blank _
        · intro l mem
          obtain ⟨c, member, rfl⟩ := List.mem_map.1 mem
          exact Link.operator?_of_isBlank (List.all_eq_true.1 blank c member)
    | cons l ls ih =>
        rw [List.cons_append]
        cases cut : Cut.operator? l with
        | none => rw [Link.scan_other _ _ cut, Link.scan_other _ _ cut, ih]
        | some op => rw [Link.scan_operator _ _ cut, Link.scan_operator _ _ cut, ih]
  have lexemes := (Matched.ofBlank gap blank).scan_text_self
  rw [Matched.ofBlank, Matched.text_ofPlain, Matched.lexemes_ofPlain] at lexemes
  rw [Link.ofText, Matched.scan_text, lexemes, before, Link.ofText, Matched.scan_text_self]

theorem links_blank_join {c : Char} (blank : Text.isBlank c = true) (s : Strand) :
    ((Strand.plain []).join c s).links = s.links := by
  cases s with
  | plain text => exact ofText_blank_cons blank text
  | term before t rest =>
      exact congrArg (· ++ Link.term t :: rest.links) (ofText_blank_cons blank before)

theorem links_join_blank {c : Char} {gap : List Char} (blank : Text.allBlank (c :: gap) = true)
    {s : Strand} (last : ∃ m : Matched, m.Flat ∧ m.text = s.last) :
    (s.join c (.plain gap)).links = s.links := by
  induction s with
  | plain text =>
      obtain ⟨m, -, rfl⟩ := last
      exact ofText_append_blank m blank
  | term before t rest ih =>
      exact congrArg (fun ls => Link.ofText before ++ Link.term t :: ls) (ih last)

/-- White space in front of a text makes no difference. -/
theorem links?_blank_append (read : SubReader) {gap : List Char}
    (blank : Text.allBlank gap = true) (s : List Char) :
    links? read (gap ++ s) = links? read s := by
  induction gap with
  | nil => rfl
  | cons c gap ih =>
      obtain ⟨first, others⟩ : Text.isBlank c = true ∧ Text.allBlank gap = true := by
        simpa [Text.allBlank] using blank
      have noWord := Text.isWordChar_of_isBlank first
      have noModifier := isModifierChar_of_isBlank first
      have plain := Matched.isBracket_of_isBlank first
      have joins (b : Bracket) (text : List Char) :=
        Strand.read?_join b read noWord noModifier plain .nil text
      rw [← ih others, List.cons_append]
      unfold links?
      refine (congrArg (fun s => Option.bind s _) (joins .round (gap ++ s))).trans ?_
      cases Strand.read? .round read (gap ++ s) with
      | none => rfl
      | some s' =>
          show Option.map Strand.links (((Strand.plain []).join c s').expand _) = _
          rw [Strand.expand_join (s := .plain []) (joins .curly)]
          show Option.map Strand.links (Option.map _ _) = _
          rw [Option.map_map]
          exact congrArg (fun f => Option.map f _) (funext (links_blank_join first))

/-- White space behind a text makes no difference. -/
theorem links?_append_blank (read : SubReader) (m : Matched) {gap : List Char}
    (blank : Text.allBlank gap = true) :
    links? read (m.text ++ gap) = links? read m.text := by
  cases gap with
  | nil => rw [List.append_nil]
  | cons c gap =>
      obtain ⟨first, others⟩ : Text.isBlank c = true ∧ Text.allBlank gap = true := by
        simpa [Text.allBlank] using blank
      have noWord := Text.isWordChar_of_isBlank first
      have noModifier := isModifierChar_of_isBlank first
      have plain := Matched.isBracket_of_isBlank first
      unfold links?
      rw [Strand.read?_join .round read noWord noModifier plain m,
        Strand.read?_blank .round read others]
      cases front : Strand.read? .round read m.text with
      | none => rfl
      | some s =>
          obtain ⟨m', flat, text⟩ := Strand.exists_last_read (b := .round) (by simp) front
          have joins (text : List Char) :=
            Strand.read?_join .curly read noWord noModifier plain m' text
          rw [text] at joins
          show Option.map Strand.links ((s.join c (.plain gap)).expand _) = _
          rw [Strand.expand_join joins, Strand.expand, Strand.read?_blank .curly read others]
          cases expanded : s.expand (Strand.read? .curly read) with
          | none =>
              show _ = Option.map _ (s.expand (Strand.read? .curly read))
              rw [expanded]
              rfl
          | some s' =>
              show _ = Option.map _ (s.expand (Strand.read? .curly read))
              rw [expanded]
              have last := Strand.exists_last_expand ⟨m', flat, text⟩ expanded
              exact congrArg some (links_join_blank blank last)

end Formula

end DiceFormula
