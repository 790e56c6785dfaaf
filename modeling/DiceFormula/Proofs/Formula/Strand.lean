/-
# DiceFormula.Proofs.Formula.Strand -- reading without places

What a formula is read as does not depend on where it stands, although the errors
do: readers of sub-formulas are `Steady`.  So reading can be described without
byte offsets.

A `Strand` is what is left of a text once the groups of a kind are read: text with
terms in it.  `Strand.ofOutline?` reads the groups of one kind, and `expand` those
of the other kind in the text that is left.  `toOption_splitGroups` relates both to
the pieces that the reader makes.
-/
import DiceFormula.Formula.Group
import DiceFormula.Proofs.Computation
import DiceFormula.Proofs.Formula.Matched

namespace DiceFormula

set_option autoImplicit false

/-! ## Steady readers -/

/-- Where a text stands makes no difference to what is read. -/
def Steady (read : SubReader) : Prop :=
  ∀ (offset offset' : Nat) (text : List Char),
    (read offset text).toOption = (read offset' text).toOption

namespace Group

variable {read : SubReader} (steady : Steady read)
include steady

theorem argumentsFrom_steady (whole : List Char) (offset offset' : Nat) (text : List Char)
    (pieces : List (List Char)) :
    (argumentsFrom read whole offset text pieces).toOption =
      (argumentsFrom read whole offset' text pieces).toOption := by
  induction pieces generalizing offset offset' text with
  | nil => rfl
  | cons piece rest ih =>
      have same := steady offset offset' (text ++ piece)
      unfold argumentsFrom
      dsimp only
      split
      · rfl
      · cases first : read offset (text ++ piece) with
        | ok terms =>
            rw [first] at same
            rw [eq_ok_of_toOption same.symm]
            dsimp only
            rw [toOption_map, toOption_map, ih]
        | error e =>
            rw [first] at same
            cases second : read offset' (text ++ piece) with
            | ok terms =>
                rw [second] at same
                cases same
            | error e' =>
                dsimp only
                split
                · rfl
                · exact ih _ _ _

theorem arguments_steady (offset offset' : Nat) (inner : List Char) :
    (arguments read offset inner).toOption = (arguments read offset' inner).toOption :=
  argumentsFrom_steady steady inner offset offset' [] _

theorem roundTerm_steady (before : List Char) (offset offset' : Nat) (inner : List Char) :
    (roundTerm read before offset inner).toOption =
      (roundTerm read before offset' inner).toOption := by
  unfold roundTerm
  dsimp only
  split
  · rw [toOption_map, toOption_map, arguments_steady steady]
  · rw [toOption_map, toOption_map, steady]

omit steady in
theorem poolModifiers_steady (offset offset' : Nat) (text : List Char) :
    (poolModifiers offset text).toOption = (poolModifiers offset' text).toOption := by
  unfold poolModifiers
  dsimp only
  split
  · rfl
  · split <;> rfl

theorem curlyTerm_steady (offset offset' : Nat) (inner : List Char) (modifiersAt modifiersAt' : Nat)
    (modifiers : List Char) :
    (curlyTerm read offset inner modifiersAt modifiers).toOption =
      (curlyTerm read offset' inner modifiersAt' modifiers).toOption := by
  have same := arguments_steady steady offset offset' inner
  unfold curlyTerm
  cases first : arguments read offset inner with
  | ok members =>
      rw [first] at same
      rw [eq_ok_of_toOption same.symm]
      dsimp only
      rw [toOption_map, toOption_map, poolModifiers_steady]
  | error e =>
      rw [first] at same
      cases second : arguments read offset' inner with
      | ok members =>
          rw [second] at same
          cases same
      | error e' => rfl

theorem find_steady (b : Bracket) (before : List Char) (offset offset' : Nat) (inner : List Char)
    (lead : List Lexeme) :
    (find b read before offset inner lead).toOption =
      (find b read before offset' inner lead).toOption := by
  cases b with
  | round =>
      unfold find
      dsimp only
      rw [toOption_map, toOption_map, roundTerm_steady steady]
  | curly =>
      unfold find
      dsimp only
      rw [toOption_map, toOption_map, curlyTerm_steady steady]

end Group

/-! ## Outlines without places -/

namespace Outline

/-- The outline without what its error says. -/
def erase : Outline → Outline
  | plain text => plain text
  | broken text _ => broken text .empty
  | group before inner rest => group before inner rest.erase

/-- States that differ at most in where their groups opened. -/
inductive State.Moved : State → State → Prop
  | neither (before : List Lexeme) : Moved ⟨before, none, none⟩ ⟨before, none, none⟩
  | group (before inner : List Lexeme) (depth start start' : Nat) :
      Moved ⟨before, some ⟨start, inner, depth⟩, none⟩ ⟨before, some ⟨start', inner, depth⟩, none⟩
  | passing {s s' : State} (moved : Moved s s') (depth start start' : Nat) :
      Moved (s.passing (some ⟨start, depth⟩)) (s'.passing (some ⟨start', depth⟩))

open State

theorem State.Moved.push {s s' : State} (moved : Moved s s') (l : Lexeme) :
    Moved (s.push l) (s'.push l) := by
  induction moved with
  | neither before => exact .neither _
  | group before inner depth start start' => exact .group _ _ _ _ _
  | passing moved depth start start' ih =>
      rw [push_passing, push_passing]
      exact .passing ih _ _ _

theorem State.Moved.before {s s' : State} (moved : Moved s s') : s.before = s'.before := by
  induction moved with
  | neither before => rfl
  | group before inner depth start start' => rfl
  | passing moved depth start start' ih => exact ih

theorem State.Moved.passingNone {s s' : State} (moved : Moved s s') :
    Moved (s.passing none) (s'.passing none) := by
  induction moved with
  | neither before => exact .neither _
  | group before inner depth start start' => exact .group _ _ _ _ _
  | passing moved depth start start' ih => exact ih

/-- What is found does not depend on where the text stands. -/
theorem erase_scan (b : Bracket) (stop stop' : Nat) {s s' : State} (moved : Moved s s')
    (pos pos' : Nat) (ls : List Lexeme) :
    (scan b stop s pos ls).erase = (scan b stop' s' pos' ls).erase := by
  induction ls generalizing s s' pos pos' with
  | nil =>
      rw [scan, scan]
      cases moved with
      | neither before => rfl
      | group before inner depth start start' => rfl
      | passing moved depth start start' =>
          simp [unclosed?, State.passing, erase, moved.before]
  | cons l ls ih =>
      cases l with
      | unclosedFlavor rest =>
          simp only [scan, erase, moved.before]
      | flavor inner =>
          rw [scan_flavor, scan_flavor]
          exact ih (moved.push _) _ _
      | char c =>
          cases moved with
          | passing moved depth start start' =>
              rw [scan_passing, scan_passing, Passed.step, Passed.step]
              split
              · exact ih (.passing (moved.push _) _ _ _) _ _
              · split
                · dsimp only
                  split
                  · exact ih (moved.push _).passingNone _ _
                  · exact ih (.passing (moved.push _) _ _ _) _ _
                · exact ih (.passing (moved.push _) _ _ _) _ _
          | neither before =>
              rw [scan, scan]
              dsimp only
              split
              · exact ih (.passing (.neither _) _ _ _) _ _
              · split
                · exact ih (.group _ _ _ _ _) _ _
                · split
                  · rfl
                  · exact ih (.neither _) _ _
          | group before inner depth start start' =>
              rw [scan, scan]
              dsimp only
              split
              · exact ih (.passing (.group _ _ _ _ _) _ _ _) _ _
              · split
                · exact ih (.group _ _ _ _ _) _ _
                · split
                  · split
                    · exact congrArg (Outline.group _ _) (ih (.neither _) _ _)
                    · exact ih (.group _ _ _ _ _) _ _
                  · exact ih (.group _ _ _ _ _) _ _

end Outline

/-! ## Strands -/

/-- Text with terms in it. -/
inductive Strand where
  | plain (text : List Char)
  | term (before : List Char) (t : Term) (rest : Strand)

namespace Strand

/-- A text as a fragment, if there is more than white space in it. -/
def fragments (text : List Char) : List Term :=
  if Text.allBlank text then [] else [.fragment (String.ofList text)]

/-- The terms of a strand with fragments for its text. -/
def terms : Strand → List Term
  | plain text => fragments text
  | term before t rest => fragments before ++ t :: rest.terms

/-- A strand with a term and another strand behind it. -/
def link : Strand → Term → Strand → Strand
  | plain text, t, s => term text t s
  | term before t' rest, t, s => term before t' (rest.link t s)

theorem terms_link (s : Strand) (t : Term) (s' : Strand) :
    (s.link t s').terms = s.terms ++ t :: s'.terms := by
  induction s with
  | plain text => rfl
  | term before t' rest ih => simp [link, terms, ih]

/-- Reads the groups of one kind in a text.  So many lexemes at its start belong to
the group in front of it. -/
def ofOutline? (b : Bracket) (read : SubReader) (used : Nat) : Outline → Option Strand
  | .plain text => some (.plain (Lexeme.textAll (text.drop used)))
  | .broken _ _ => none
  | .group before inner rest =>
      if Text.allBlank (Lexeme.textAll inner) then none
      else
        (Group.find b read (Lexeme.textAll (before.drop used)) 0 (Lexeme.textAll inner)
            rest.lead).toOption.bind fun found =>
          (ofOutline? b read found.used rest).map (.term found.front found.term)

theorem terms_ofText? (offset : Nat) (text : List Char) :
    Piece.terms (Piece.ofText? offset text) = fragments text := by
  unfold Piece.ofText? fragments
  split <;> rfl

theorem terms_found (offset : Nat) (front : List Char) (piece : Piece) (others : List Piece) :
    Piece.terms (Piece.ofText? offset front ++ piece :: others) =
      fragments front ++ piece.term :: Piece.terms others := by
  rw [← terms_ofText? offset, Piece.terms, List.map_append]
  rfl

/-- The pieces of a text are those of its strand. -/
theorem toOption_pieces {read : SubReader} (steady : Steady read) (b : Bracket) (start used : Nat)
    (o : Outline) :
    ((Group.pieces b read start used o).map Piece.terms).toOption =
      (ofOutline? b read used o).map terms := by
  induction o generalizing start used with
  | plain text => exact congrArg some (terms_ofText? _ _)
  | broken text e => rfl
  | group before inner rest ih =>
      unfold Group.pieces ofOutline?
      dsimp only
      split
      · rfl
      · have same := Group.find_steady steady b (Lexeme.textAll (before.drop used))
          (start + Text.byteLength (Lexeme.textAll (before.take used)) +
            Text.byteLength (Lexeme.textAll (before.drop used)) + 1) 0 (Lexeme.textAll inner)
          rest.lead
        rw [← same]
        split
        · rename_i e failed
          rw [failed]
          rfl
        · rename_i found ok
          have behind (start : Nat) := ih start found.used
          simp only [toOption_map] at behind
          rw [ok, toOption_map, toOption_map, Option.map_map]
          have right : ((ofOutline? b read found.used rest).map (term found.front found.term)).map
              terms = ((ofOutline? b read found.used rest).map terms).map
                fun others => fragments found.front ++ found.term :: others := by
            rw [Option.map_map, Option.map_map]
            rfl
          refine Eq.trans ?_ right.symm
          rw [← behind, Option.map_map]
          congr 1
          funext others
          exact terms_found _ _ _ _

theorem ofOutline?_erase (b : Bracket) (read : SubReader) (used : Nat) (o : Outline) :
    ofOutline? b read used o.erase = ofOutline? b read used o := by
  induction o generalizing used with
  | plain text => rfl
  | broken text e => rfl
  | group before inner rest ih =>
      have lead : rest.erase.lead = rest.lead := by cases rest <;> rfl
      simp only [Outline.erase, ofOutline?, lead, ih]

/-- Reads the groups of one kind in a text. -/
def read? (b : Bracket) (read : SubReader) (text : List Char) : Option Strand :=
  ofOutline? b read 0 (Outline.of b 0 text)

theorem read?_eq (b : Bracket) (read : SubReader) (offset : Nat) (text : List Char) :
    ofOutline? b read 0 (Outline.of b offset text) = read? b read text := by
  have same : (Outline.of b offset text).erase = (Outline.of b 0 text).erase :=
    Outline.erase_scan b _ _ (.neither []) _ _ _
  rw [read?, ← ofOutline?_erase, same, ofOutline?_erase]

/-! ## Both kinds of groups -/

/-- Reads more groups in the text of a strand. -/
def expand (read? : List Char → Option Strand) : Strand → Option Strand
  | plain text => read? text
  | term before t rest => (read? before).bind fun s => (rest.expand read?).map (s.link t)

/-- Whether a term is what a group was read as. -/
def isNested : Term → Bool
  | .pool _ _ _ _ _ | .call _ _ _ | .group _ _ => true
  | _ => false

theorem isFragment_of_isNested {t : Term} (nested : isNested t = true) : t.isFragment = false := by
  cases t <;> first | rfl | cases nested

theorem isOperator_of_isNested {t : Term} (nested : isNested t = true) : t.isOperator = false := by
  cases t <;> first | rfl | cases nested

/-- Every term is what a group was read as. -/
def Settled : Strand → Prop
  | plain _ => True
  | term _ t rest => isNested t = true ∧ rest.Settled

theorem settled_find {b : Bracket} {read : SubReader} {before : List Char} {offset : Nat}
    {inner : List Char} {lead : List Lexeme} {found : Group.Found}
    (ok : Group.find b read before offset inner lead = .ok found) :
    isNested found.term = true := by
  have flavored (front : List Char) (t : Term) (used : Nat) (nested : isNested t = true) :
      isNested (Group.withFlavorBehind front t used lead).term = true := by
    unfold Group.withFlavorBehind
    split
    · cases t <;> exact nested
    · exact nested
  cases b with
  | round =>
      unfold Group.find at ok
      dsimp only at ok
      cases round : Group.roundTerm read before offset inner with
      | error e => rw [round] at ok; cases ok
      | ok pair =>
          rw [round] at ok
          cases ok
          refine flavored _ _ _ ?_
          unfold Group.roundTerm at round
          dsimp only at round
          split at round
          · cases args : Group.arguments read offset inner with
            | error e => rw [args] at round; cases round
            | ok args' => rw [args] at round; cases round; rfl
          · cases terms : read offset inner with
            | error e => rw [terms] at round; cases round
            | ok terms' => rw [terms] at round; cases round; rfl
  | curly =>
      unfold Group.find at ok
      dsimp only at ok
      cases curly : Group.curlyTerm read offset inner
          (offset + Text.byteLength inner + 1) (Group.modifierText lead) with
      | error e => rw [curly] at ok; cases ok
      | ok t =>
          rw [curly] at ok
          cases ok
          refine flavored _ _ _ ?_
          unfold Group.curlyTerm at curly
          split at curly
          · cases curly
          · cases mods : Group.poolModifiers (offset + Text.byteLength inner + 1)
                (Group.modifierText lead) with
            | error e => rw [mods] at curly; cases curly
            | ok mods' => rw [mods] at curly; cases curly; rfl

theorem settled_ofOutline? {b : Bracket} {read : SubReader} {used : Nat} {o : Outline} {s : Strand}
    (found : ofOutline? b read used o = some s) : s.Settled := by
  induction o generalizing used s with
  | plain text =>
      cases found
      trivial
  | broken text e => cases found
  | group before inner rest ih =>
      unfold ofOutline? at found
      split at found
      · cases found
      · obtain ⟨f, ok, found⟩ := Option.bind_eq_some_iff.1 found
        obtain ⟨s', behind, rfl⟩ := Option.map_eq_some_iff.1 found
        exact ⟨settled_find (eq_ok_of_toOption ok), ih behind⟩

theorem read?_blank (b : Bracket) (read : SubReader) {text : List Char}
    (blank : Text.allBlank text = true) : read? b read text = some (.plain text) := by
  have outline := Matched.outline_text b (Matched.ofBlank text blank) 0
  rw [Matched.ofBlank, Matched.text_ofPlain, Matched.outline_ofPlain] at outline
  rw [read?, outline, ofOutline?, List.drop_zero, Lexeme.textAll, List.flatMap_map]
  simp [Lexeme.text]

/-- What the pieces come to once the groups in them are read. -/
def split? (b : Bracket) (read : SubReader) (pieces : List Piece) : Option (List Term) :=
  ((Piece.splitGroups b read pieces).map Piece.terms).toOption

section Split

variable {b : Bracket} {read : SubReader}

theorem split?_nil : split? b read [] = some [] := rfl

theorem split?_cons (p : Piece) (ps : List Piece) :
    split? b read (p :: ps) = ((p.splitGroup b read).map Piece.terms).toOption.bind fun ts =>
      (split? b read ps).map (ts ++ ·) := by
  unfold split? Piece.splitGroups
  rw [List.mapM_cons]
  cases first : p.splitGroup b read with
  | error e => rfl
  | ok found =>
      cases others : ps.mapM (Piece.splitGroup b read) with
      | error e => rfl
      | ok rest =>
          show some (Piece.terms (found :: rest).flatten) = _
          simp [Piece.terms, Except.map, Except.toOption]

theorem split?_settled {p : Piece} (settled : p.term.isFragment = false) (ps : List Piece) :
    split? b read (p :: ps) = (split? b read ps).map (p.term :: ·) := by
  have kept : p.splitGroup b read = .ok [p] := by
    unfold Piece.splitGroup
    split
    · rename_i text fragment
      rw [fragment] at settled
      cases settled
    · rfl
  rw [split?_cons, kept]
  rfl

theorem split?_fragment (steady : Steady read) {p : Piece} {text : List Char}
    (fragment : p.term = .fragment (String.ofList text)) (ps : List Piece) :
    split? b read (p :: ps) =
      (read? b read text).bind fun s => (split? b read ps).map (s.terms ++ ·) := by
  have pieces : p.splitGroup b read = Group.pieces b read p.start 0 (Outline.of b p.start text) := by
    unfold Piece.splitGroup
    rw [fragment]
    dsimp only
    rw [String.toList_ofList]
  rw [split?_cons, pieces, toOption_pieces steady, read?_eq, Option.bind_map]
  rfl

/-- Pieces that start with a text. -/
theorem split?_text (steady : Steady read) {text : List Char} {ts : List Term} {ps : List Piece}
    (terms : Piece.terms ps = fragments text ++ ts) :
    ∃ ps', Piece.terms ps' = ts ∧ split? b read ps =
      (read? b read text).bind fun s => (split? b read ps').map (s.terms ++ ·) := by
  unfold fragments at terms
  split at terms
  · rename_i blank
    refine ⟨ps, terms, ?_⟩
    rw [read?_blank b read blank]
    simp [Strand.terms, fragments, blank]
  · cases ps with
    | nil => cases terms
    | cons p ps =>
        obtain ⟨fragment, rfl⟩ := List.cons.inj terms
        exact ⟨ps, rfl, split?_fragment steady fragment ps⟩

/-- **Reading the groups in the text of a strand.** -/
theorem split?_strand (steady : Steady read) {s : Strand} (settled : s.Settled) {ps : List Piece}
    (terms : Piece.terms ps = s.terms) :
    split? b read ps = (s.expand (read? b read)).map Strand.terms := by
  induction s generalizing ps with
  | plain text =>
      obtain ⟨ps', none, split⟩ := split?_text (b := b) steady (terms.trans (List.append_nil _).symm)
      have nothing : ps' = [] := List.map_eq_nil_iff.1 none
      rw [split, nothing, split?_nil, expand]
      cases read? b read text with
      | none => rfl
      | some s => exact congrArg some (List.append_nil _)
  | term before t rest ih =>
      obtain ⟨ps', behind, split⟩ := split?_text (b := b) steady terms
      cases ps' with
      | nil => cases behind
      | cons p ps' =>
          obtain ⟨rfl, others⟩ := List.cons.inj behind
          rw [split, split?_settled (isFragment_of_isNested settled.1), ih settled.2 others, expand]
          cases read? b read before with
          | none => rfl
          | some s =>
              cases rest.expand (read? b read) with
              | none => rfl
              | some s' => exact congrArg some (terms_link s p.term s').symm

end Split

end Strand

end DiceFormula
