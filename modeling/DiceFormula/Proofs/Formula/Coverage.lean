/-
# DiceFormula.Proofs.Formula.Coverage -- every character is read or reported

While a formula is read, its pieces always cover its text (`Piece.Cover`): each piece was read
from a part of the text, the parts stand one behind the other, and between them is only white
space.  A formula starts as one piece.  Groups are cut out of pieces, with the word in front of
them and what belongs to them behind (`cover_pieces`), the text between them is cut at its
operators (`cover_splitOperators`), and pieces that stand beside each other are joined
(`cover_merge`).  So nothing of a formula is left out of its pieces but white space
(`pieces_cover`).

A stage that fails points into the part that its piece was read from, and therefore into the
formula: every error of a formula tells a place, and what it says stands there (`points_read`).
-/
import DiceFormula.Proofs.Formula.Places

namespace DiceFormula

set_option autoImplicit false

open Text (byteLength byteLength_append)

/-! ## Places one behind the other -/

/-- The place has a byte in it. -/
def Span.Holds (span : Span) (pos : Nat) : Prop :=
  span.start ≤ pos ∧ pos < span.stop

/-- Places of parts of a text that starts at a byte offset: none is empty, they stand one behind
the other, and a character that starts in none of them is white space. -/
structure Span.Tile (offset : Nat) (text : List Char) (spans : List Span) : Prop where
  parts : ∀ span ∈ spans, span.start < span.stop ∧ ∃ part, span.IsAt offset text part
  ordered : spans.Pairwise fun a b => a.start < b.start ∧ a.stop ≤ b.start
  blank : ∀ front c behind, text = front ++ c :: behind →
    (∀ span ∈ spans, ¬ span.Holds (offset + byteLength front)) → Text.isBlank c = true

/-- A character of two texts one behind the other stands in one of them. -/
theorem Text.append_eq_append_cons {s t front behind : List Char} {c : Char}
    (split : s ++ t = front ++ c :: behind) :
    (∃ behind', s = front ++ c :: behind') ∨ ∃ front', front = s ++ front' ∧ t = front' ++ c :: behind := by
  rcases List.append_eq_append_iff.1 split with ⟨front', rfl, rfl⟩ | ⟨behind', rfl, other⟩
  · exact .inr ⟨front', rfl, rfl⟩
  · cases behind' with
    | nil => exact .inr ⟨[], by simp, other.symm⟩
    | cons d behind' =>
        cases other
        exact .inl ⟨behind', rfl⟩

theorem Text.byteLength_pos {text : List Char} (some_ : text ≠ []) : 0 < byteLength text := by
  cases text with
  | nil => exact absurd rfl some_
  | cons c text => exact Nat.lt_of_lt_of_le c.utf8Size_pos (Nat.le_add_right _ _)

/-! ## Pieces that cover a text -/

namespace Piece

/-- The pieces stand in a text that starts at a byte offset, one behind the other and with nothing
but white space around them.  Each has its place, and was read from a part of the text that fits
its term. -/
inductive Cover (Fits : Term → List Char → Prop) : Nat → List Char → List Piece → Prop
  | gap {offset : Nat} {text : List Char} (blank : Text.allBlank text = true) :
      Cover Fits offset text []
  | piece {offset : Nat} {gap part behind : List Char} {t : Term} {ps : List Piece}
      (blank : Text.allBlank gap = true) (visible : part ≠ []) (fits : Fits t part)
      (rest : Cover Fits (offset + byteLength gap + byteLength part) behind ps) :
      Cover Fits offset (gap ++ (part ++ behind))
        (⟨t, some (Span.ofText (offset + byteLength gap) part)⟩ :: ps)

/-- Fragments are written as they stand in the text. -/
def Verbatim (t : Term) (part : List Char) : Prop :=
  ∀ text, t = .fragment text → text.toList = part

/-- Any term fits any text. -/
def Anyhow (_ : Term) (_ : List Char) : Prop := True

namespace Cover

variable {Fits : Term → List Char → Prop} {offset : Nat} {text text' gap : List Char}
  {ps ps' : List Piece}

theorem indent (blank : Text.allBlank gap = true)
    (cover : Cover Fits (offset + byteLength gap) text ps) : Cover Fits offset (gap ++ text) ps := by
  generalize start : offset + byteLength gap = pos at cover
  cases cover with
  | gap blank' => exact .gap (by rw [Text.allBlank_append, blank, blank']; rfl)
  | @piece _ gap' part behind t ps blank' visible fits rest =>
      have blanks : Text.allBlank (gap ++ gap') = true := by
        rw [Text.allBlank_append, blank, blank']
        rfl
      have place : offset + byteLength (gap ++ gap') = pos + byteLength gap' := by
        rw [byteLength_append, ← Nat.add_assoc, start]
      rw [← place] at rest ⊢
      rw [← List.append_assoc]
      exact .piece blanks visible fits rest

theorem append (cover : Cover Fits offset text ps)
    (cover' : Cover Fits (offset + byteLength text) text' ps') :
    Cover Fits offset (text ++ text') (ps ++ ps') := by
  induction cover with
  | gap blank => exact cover'.indent blank
  | piece blank visible fits rest ih =>
      rw [List.append_assoc, List.append_assoc]
      refine .piece blank visible fits (ih ?_)
      rwa [byteLength_append, byteLength_append, ← Nat.add_assoc, ← Nat.add_assoc] at cover'

/-- Only the places of the pieces matter where any term fits. -/
theorem of_spans (cover : Cover Fits offset text ps) (same : ps'.map span = ps.map span) :
    Cover Anyhow offset text ps' := by
  induction cover generalizing ps' with
  | gap blank =>
      rw [List.map_eq_nil_iff.1 same]
      exact .gap blank
  | piece blank visible fits rest ih =>
      obtain ⟨⟨t, span⟩, others, rfl, first, behind⟩ := List.map_eq_cons_iff.1 same
      cases first
      exact .piece blank visible trivial (ih behind)

/-- Each piece stands at its place in the text. -/
theorem mem (cover : Cover Fits offset text ps) {p : Piece} (member : p ∈ ps) :
    ∃ front part behind, text = front ++ part ++ behind ∧
      p.span = some (Span.ofText (offset + byteLength front) part) ∧ Fits p.term part := by
  induction cover with
  | gap blank => cases member
  | @piece offset gap part behind t ps blank visible fits rest ih =>
      rcases List.mem_cons.1 member with rfl | member
      · exact ⟨gap, part, behind, (List.append_assoc _ _ _).symm, rfl, fits⟩
      · obtain ⟨front, part', behind', rfl, place, fits'⟩ := ih member
        refine ⟨gap ++ part ++ front, part', behind', by simp, ?_, fits'⟩
        rw [place, byteLength_append, byteLength_append, ← Nat.add_assoc, ← Nat.add_assoc]

/-- The places of pieces that cover a text. -/
theorem tile (cover : Cover Fits offset text ps) :
    ∃ spans, ps.map Piece.span = spans.map some ∧ Span.Tile offset text spans := by
  induction cover with
  | gap blank =>
      refine ⟨[], rfl, List.forall_mem_nil _, .nil, fun front c behind split _ => ?_⟩
      exact List.all_eq_true.1 blank c (by simp [split])
  | @piece offset gap part behind t ps blank visible fits rest ih =>
      obtain ⟨spans, places, parts, ordered, blanks⟩ := ih
      have some_ := Text.byteLength_pos visible
      have here : (Span.ofText (offset + byteLength gap) part).IsAt offset
          (gap ++ (part ++ behind)) part :=
        ⟨gap, behind, by simp, rfl⟩
      refine ⟨Span.ofText (offset + byteLength gap) part :: spans, congrArg _ places, ?_, ?_, ?_⟩
      · refine List.forall_mem_cons.2 ⟨⟨Nat.lt_add_of_pos_right some_, part, here⟩,
          fun span mem => ?_⟩
        obtain ⟨something, part', isAt⟩ := parts span mem
        rw [Nat.add_assoc, ← byteLength_append] at isAt
        have within := isAt.within []
        rw [List.append_nil, List.append_assoc] at within
        exact ⟨something, part', within⟩
      · refine List.pairwise_cons.2 ⟨fun span mem => ?_, ordered⟩
        obtain ⟨-, part', isAt⟩ := parts span mem
        have behind : offset + byteLength gap + byteLength part ≤ span.start := isAt.le
        exact ⟨Nat.lt_of_lt_of_le (Nat.lt_add_of_pos_right some_) behind, behind⟩
      · intro front c behind' split outside
        obtain ⟨first, others⟩ := List.forall_mem_cons.1 outside
        rcases Text.append_eq_append_cons split with ⟨more, inGap⟩ | ⟨front', rfl, inBehind⟩
        · exact List.all_eq_true.1 blank c (by simp [inGap])
        rw [byteLength_append, ← Nat.add_assoc] at first others
        rcases Text.append_eq_append_cons inBehind with ⟨more, rfl⟩ | ⟨front'', rfl, inRest⟩
        · refine absurd ⟨Nat.le_add_right _ _, ?_⟩ first
          have size : 0 < byteLength (c :: more) := Text.byteLength_pos (List.cons_ne_nil c more)
          rw [Span.ofText, byteLength_append]
          dsimp only
          omega
        · rw [byteLength_append, ← Nat.add_assoc] at others
          exact blanks front'' c behind' inRest others

/-- A single piece. -/
theorem ofPart {t : Term} {part : List Char} (visible : part ≠ []) (fits : Fits t part) :
    Cover Fits offset part [⟨t, some (Span.ofText offset part)⟩] := by
  have whole : Cover Fits offset ([] ++ (part ++ [])) [⟨t, some (Span.ofText offset part)⟩] :=
    .piece rfl visible fits (.gap rfl)
  rwa [List.nil_append, List.append_nil] at whole

end Cover

theorem verbatim_ofList (part : List Char) : Verbatim (.fragment (String.ofList part)) part := by
  intro text same
  cases same
  exact String.toList_ofList

theorem cover_ofText? (offset : Nat) (text : List Char) :
    Cover Verbatim offset text (ofText? offset text) := by
  unfold ofText?
  split
  · rename_i blank
    exact .gap blank
  · rename_i visible
    refine .ofPart (fun nothing => visible ?_) (verbatim_ofList text)
    rw [nothing]
    rfl

end Piece

/-! ## Groups -/

namespace Group

open Piece Lexeme

/-- The text in front of a bracket, cut behind what belongs to the group before. -/
theorem byteLength_cut (start used : Nat) (before : List Lexeme) :
    start + byteLength (textAll before) =
      start + byteLength (textAll (before.take used)) + byteLength (textAll (before.drop used)) := by
  rw [Nat.add_assoc, ← byteLength_append, ← textAll_append, List.take_append_drop]

theorem byteLength_brackets (b : Bracket) (word inner behind : List Char) :
    byteLength (word ++ b.opening :: (inner ++ b.closing :: behind)) =
      byteLength word + byteLength inner + 2 + byteLength behind := by
  simp only [byteLength_append, byteLength, Outline.utf8Size_opening, Outline.utf8Size_closing]
  omega

/-- **What a group comes to**: the text in front of it that is no part of it, a piece from the word
in front of its bracket up to what belongs to it behind, and the pieces of the text behind that. -/
theorem pieces_group {b : Bracket} {read : SubReader} {start used : Nat}
    {before inner : List Lexeme} {rest : Outline} {ps : List Piece}
    (ok : pieces b read start used (.group before inner rest) = .ok ps) :
    ∃ front word t used' others, textAll (before.drop used) = front ++ word ∧
      t.isFragment = false ∧
      pieces b read (start + byteLength (textAll before) + byteLength (textAll inner) + 2) used' rest =
        .ok others ∧
      ps = ofText? (start + byteLength (textAll (before.take used))) front ++
        ⟨t, some (Span.ofText
          (start + byteLength (textAll (before.take used)) + byteLength front)
          (word ++ b.opening :: (textAll inner ++ b.closing :: textAll (rest.lead.take used'))))⟩ ::
          others := by
  rw [byteLength_cut start used before]
  unfold pieces at ok
  dsimp only at ok
  split at ok
  · cases ok
  split at ok
  · cases ok
  rename_i found inside
  obtain ⟨others, behind, rfl⟩ := ok_of_map ok
  obtain ⟨word, split, -⟩ := front_find inside
  refine ⟨found.front, word, found.term, found.used, others, split,
    Strand.isFragment_of_isNested (Strand.settled_find inside), behind, ?_⟩
  have stop : start + byteLength (textAll (before.take used)) + byteLength (textAll (before.drop used)) +
      byteLength (textAll inner) + 2 + byteLength (textAll (rest.lead.take found.used)) =
      start + byteLength (textAll (before.take used)) + byteLength found.front + byteLength
        (word ++ b.opening :: (textAll inner ++ b.closing :: textAll (rest.lead.take found.used))) := by
    rw [split, byteLength_append, byteLength_brackets]
    omega
  rw [stop]
  rfl

/-- The pieces of an outline cover its text, but for what belongs to the group in front of it. -/
theorem cover_pieces {b : Bracket} {read : SubReader} {start used : Nat} {text : List Char}
    {o : Outline} (located : Outline.Located b start text o) {ps : List Piece}
    (ok : pieces b read start used o = .ok ps) :
    ∃ tail, text = textAll (o.lead.take used) ++ tail ∧
      Cover Verbatim (start + byteLength (textAll (o.lead.take used))) tail ps := by
  induction located generalizing used ps with
  | plain text =>
      cases ok
      refine ⟨textAll (text.drop used), ?_, cover_ofText? _ _⟩
      rw [Outline.lead, ← textAll_append, List.take_append_drop]
  | broken points => cases ok
  | @group start before inner text rest behind ih =>
      obtain ⟨front, word, t, used', others, split, settled, rests, rfl⟩ := pieces_group ok
      obtain ⟨tail, rfl, cover⟩ := ih rests
      have cut : textAll before = textAll (before.take used) ++ (front ++ word) := by
        rw [← split, ← textAll_append, List.take_append_drop]
      refine ⟨front ++ ((word ++ b.opening :: (textAll inner ++ b.closing ::
        textAll (rest.lead.take used'))) ++ tail), by simp [Outline.lead, cut], ?_⟩
      have place : start + byteLength (textAll before) + byteLength (textAll inner) + 2 +
          byteLength (textAll (rest.lead.take used')) =
          start + byteLength (textAll (before.take used)) + byteLength front +
            byteLength (word ++ b.opening :: (textAll inner ++ b.closing ::
              textAll (rest.lead.take used'))) := by
        rw [cut, byteLength_append, byteLength_append, byteLength_brackets]
        omega
      refine (cover_ofText? _ front).append ((Cover.ofPart (by simp) ?_).append (place ▸ cover))
      rintro text rfl
      cases settled

/-! ### Errors -/

section Errors

/-- The errors of a reader point into texts that are shorter than a bound. -/
def Pointed (bound : Nat) (read : SubReader) : Prop :=
  ∀ offset text e, text.length < bound → read offset text = .error e → e.Points offset text

variable {bound : Nat} {read : SubReader} (pointed : Pointed bound read)
include pointed

/-- An error in the arguments points into what stands between two commas, or into the text up to
a later one. -/
theorem points_argumentsFrom (whole : List Char) {offset : Nat} {text piece : List Char}
    {rest : List (List Char)} {e : FormatError}
    (short : (text ++ [','].intercalate (piece :: rest)).length < bound)
    (failed : argumentsFrom read whole offset text (piece :: rest) = .error e) :
    e.Points offset (text ++ [','].intercalate (piece :: rest)) := by
  induction rest generalizing offset text piece with
  | nil =>
      have only : text ++ [','].intercalate [piece] = text ++ piece := by simp [List.intercalate]
      rw [only] at short ⊢
      unfold argumentsFrom at failed
      dsimp only at failed
      split at failed
      · rename_i blank
        cases failed
        exact FormatError.points_whole rfl blank
      · split at failed
        · cases failed
        · rename_i e' reads
          cases failed
          exact pointed _ _ _ short reads
  | cons next rest ih =>
      rw [append_intercalate] at short ⊢
      unfold argumentsFrom at failed
      dsimp only at failed
      split at failed
      · rename_i blank
        cases failed
        rw [List.append_assoc _ [',']]
        refine FormatError.Points.before ?_ _
        exact FormatError.points_whole rfl blank
      · split at failed
        · have comma : offset + byteLength (text ++ piece) + 1 =
              offset + byteLength (text ++ piece ++ [',']) := by
            rw [byteLength_append _ [','], Nat.add_assoc]
            rfl
          rw [comma] at failed
          refine FormatError.Points.behind (ih ?_ (error_of_map failed))
          rw [List.length_append] at short
          exact Nat.lt_of_le_of_lt (Nat.le_add_left _ _) short
        · exact ih short failed

theorem points_arguments {offset : Nat} {inner : List Char} {e : FormatError}
    (short : inner.length < bound) (failed : arguments read offset inner = .error e) :
    e.Points offset inner := by
  obtain ⟨piece, rest, pieces, whole⟩ := exists_splitOn inner
  rw [arguments, pieces] at failed
  have short' : ([] ++ [','].intercalate (piece :: rest)).length < bound := by rwa [whole]
  have points := points_argumentsFrom pointed inner short' failed
  rwa [whole] at points

omit pointed in
theorem points_poolModifiers {offset : Nat} {text : List Char} {e : FormatError}
    (failed : poolModifiers offset text = .error e) : e.Points offset text := by
  unfold poolModifiers at failed
  dsimp only at failed
  split at failed
  · cases failed
    exact FormatError.points_whole rfl String.toList_ofList.symm
  · split at failed
    · cases failed
      exact FormatError.points_whole rfl String.toList_ofList.symm
    · cases failed

omit pointed in
/-- The modifiers of a pool stand directly behind it. -/
theorem textAll_modifierText (lead : List Lexeme) :
    ∃ behind, textAll lead = modifierText lead ++ behind := by
  fun_induction modifierText lead with
  | case1 c rest modifier ih =>
      obtain ⟨behind, split⟩ := ih
      exact ⟨behind, congrArg (c :: ·) split⟩
  | case2 c rest other => exact ⟨_, rfl⟩
  | case3 lead other => exact ⟨_, rfl⟩

/-- An error in a group points into the group, or at the modifiers behind it. -/
theorem points_find {b : Bracket} {before inner : List Char} {offset : Nat} {lead : List Lexeme}
    {e : FormatError} (short : inner.length < bound)
    (failed : find b read before offset inner lead = .error e) (behind : List Char) :
    e.Points offset (inner ++ b.closing :: (textAll lead ++ behind)) := by
  cases b with
  | round =>
      refine FormatError.Points.before ?_ _
      have failed := error_of_map failed
      unfold roundTerm at failed
      dsimp only at failed
      split at failed
      · exact points_arguments pointed short (error_of_map failed)
      · exact pointed _ _ _ short (error_of_map failed)
  | curly =>
      have failed := error_of_map failed
      unfold curlyTerm at failed
      split at failed
      · rename_i e' arguments
        cases failed
        exact (points_arguments pointed short arguments).before _
      · have modifiers := points_poolModifiers (error_of_map failed)
        obtain ⟨rest, split⟩ := textAll_modifierText lead
        have closed : offset + byteLength inner + 1 =
            offset + byteLength (inner ++ [Bracket.curly.closing]) := by
          rw [byteLength_append, Nat.add_assoc]
          rfl
        rw [closed] at modifiers
        rw [split, List.append_assoc, ← List.singleton_append, ← List.append_assoc,
          ← List.append_assoc]
        exact modifiers.within _

/-- **An error in a text with a known outline points into the text.** -/
theorem points_pieces {b : Bracket} {start used : Nat} {text : List Char} {o : Outline}
    (located : Outline.Located b start text o) (short : text.length ≤ bound) {e : FormatError}
    (failed : pieces b read start used o = .error e) : e.Points start text := by
  induction located generalizing used with
  | plain text => cases failed
  | broken points =>
      cases failed
      exact points
  | @group start before inner text rest behind ih =>
      have group : textAll before ++ b.opening :: (textAll inner ++ [b.closing]) ++ text =
          textAll before ++ b.opening :: (textAll inner ++ b.closing :: text) := by simp
      have size : byteLength (b.opening :: (textAll inner ++ [b.closing])) =
          byteLength (textAll inner) + 2 := by
        have size := byteLength_brackets b [] (textAll inner) []
        rwa [List.nil_append, byteLength, Nat.zero_add] at size
      rw [List.length_append, List.length_cons, List.length_append, List.length_cons] at short
      unfold pieces at failed
      dsimp only at failed
      rw [← byteLength_cut start used before] at failed
      split at failed
      · cases failed
        refine group ▸ FormatError.Points.within (FormatError.points_whole ?_ ?_) text
        · rw [Span.ofText, size]
          rfl
        · exact String.toList_ofList.symm
      · split at failed
        · rename_i e' found
          cases failed
          obtain ⟨tail, lead⟩ := behind.lead
          have open_ : start + byteLength (textAll before) + 1 =
              start + byteLength (textAll before ++ [b.opening]) := by
            rw [byteLength_append, Nat.add_assoc, byteLength, Outline.utf8Size_opening]
            rfl
          rw [open_] at found
          have points := points_find pointed (by omega) found tail
          rw [← lead] at points
          have whole := points.behind
          rwa [List.append_assoc] at whole
        · have others := ih (by omega) (error_of_map failed)
          have closed : start + byteLength (textAll before) + byteLength (textAll inner) + 2 =
              start + byteLength (textAll before ++ b.opening :: (textAll inner ++ [b.closing])) := by
            rw [byteLength_append, size]
            omega
          rw [closed] at others
          exact group ▸ others.behind

end Errors

end Group

namespace Piece

variable {b : Bracket} {read : SubReader} {offset : Nat} {text : List Char} {ps qs : List Piece}

theorem splitGroup_fragment (b : Bracket) (read : SubReader) {t : Term} {part : List Char}
    (verbatim : Verbatim t part) (fragment : t.isFragment = true) (offset : Nat) :
    splitGroup b read ⟨t, some (Span.ofText offset part)⟩ =
      Group.pieces b read offset 0 (Outline.of b offset part) := by
  cases t with
  | fragment text => rw [← verbatim text rfl]; rfl
  | _ => cases fragment

/-- A piece whose groups are read is covered by what comes of it. -/
theorem cover_splitGroup {t : Term} {part : List Char} (visible : part ≠ [])
    (verbatim : Verbatim t part)
    (ok : splitGroup b read ⟨t, some (Span.ofText offset part)⟩ = .ok qs) :
    Cover Verbatim offset part qs := by
  cases fragment : t.isFragment with
  | true =>
      rw [splitGroup_fragment b read verbatim fragment] at ok
      obtain ⟨tail, rfl, cover⟩ := Group.cover_pieces (Outline.located_of b offset part) ok
      exact cover
  | false =>
      have same : qs = [⟨t, some (Span.ofText offset part)⟩] := by
        cases t with
        | fragment text => cases fragment
        | _ => cases ok; rfl
      rw [same]
      exact .ofPart visible verbatim

theorem cover_splitGroups (cover : Cover Verbatim offset text ps)
    (ok : splitGroups b read ps = .ok qs) : Cover Verbatim offset text qs := by
  obtain ⟨found, each, rfl⟩ := ok_of_map ok
  clear ok
  replace each := mapM_ok_iff.1 each
  induction cover generalizing found with
  | gap blank =>
      cases each
      exact .gap blank
  | piece blank visible fits rest ih =>
      cases each with
      | cons first others =>
          exact ((cover_splitGroup visible fits first).append (ih _ others)).indent blank

/-- An error in a piece points into the part of the text that the piece was read from. -/
theorem points_splitGroups {bound : Nat} (pointed : Group.Pointed bound read)
    (cover : Cover Verbatim offset text ps) (short : text.length ≤ bound) {e : FormatError}
    (failed : splitGroups b read ps = .error e) : e.Points offset text := by
  obtain ⟨⟨t, span⟩, member, error⟩ := error_of_mapM (error_of_map failed)
  obtain ⟨front, part, behind, rfl, place, verbatim⟩ := cover.mem member
  cases place
  refine FormatError.Points.within ?_ behind
  rw [List.length_append, List.length_append] at short
  cases fragment : t.isFragment with
  | true =>
      rw [splitGroup_fragment b read verbatim fragment] at error
      exact Group.points_pieces pointed (Outline.located_of b _ part) (by omega) error
  | false =>
      cases t with
      | fragment text => cases fragment
      | _ => cases error

end Piece

/-! ## Operators -/

namespace Cut

open Lexeme Piece

/-- The piece of a cut by itself. -/
def piece : Cut → Piece
  | operator start op => ⟨.operator op, some ⟨start, start + 1⟩⟩
  | operand start text => .ofText start text

theorem cover_operand? (start : Nat) (text : List Char) :
    Cover Anyhow start text ((operand? start text).map piece) := by
  unfold operand?
  split
  · rename_i blank
    exact .gap blank
  · rename_i visible
    rw [Bool.not_eq_true] at visible
    obtain ⟨gap, blank, behind⟩ := Text.exists_gap_behind text
    have front : Text.allBlank (text.takeWhile Text.isBlank) = true :=
      List.all_eq_true.2 fun c mem => List.mem_takeWhile_imp mem
    have whole : text = text.takeWhile Text.isBlank ++ (Text.trim text ++ gap) := by
      rw [← behind]
      exact List.takeWhile_append_dropWhile.symm
    have trimmed : Cover Anyhow (start + byteLength (text.takeWhile Text.isBlank)) (Text.trim text)
        [.ofText (start + byteLength (text.takeWhile Text.isBlank)) (Text.trim text)] :=
      .ofPart (Text.trimmed_trim visible).visible trivial
    have cover := (trimmed.append (.gap blank)).indent front
    rwa [← whole] at cover

theorem utf8Size_of_ofSymbol? {c : Char} {op : Operator} (operator : Operator.ofSymbol? c = some op) :
    c.utf8Size = 1 := by
  unfold Operator.ofSymbol? at operator
  split at operator <;> first | rfl | cases operator

/-- The cuts of lexemes cover their text. -/
theorem cover_scan (start : Nat) (read ls : List Lexeme) :
    Cover Anyhow start (textAll read.reverse ++ textAll ls) ((scan start read ls).map piece) := by
  induction ls generalizing start read with
  | nil =>
      have nothing : textAll [] = [] := rfl
      rw [nothing, List.append_nil]
      exact cover_operand? start _
  | cons l ls ih =>
      rw [scan]
      split
      · rename_i op operator
        obtain ⟨c, char, symbol⟩ := Option.bind_eq_some_iff.1 operator
        cases l with
        | char d =>
            cases char
            have size : byteLength [c] = 1 := utf8Size_of_ofSymbol? symbol
            rw [List.map_append, List.map_cons]
            refine (cover_operand? start _).append ?_
            have place : piece (.operator (start + byteLength (textAll read.reverse)) op) =
                ⟨.operator op, some (Span.ofText (start + byteLength (textAll read.reverse)) [c])⟩ := by
              rw [Span.ofText, size]
              rfl
            rw [place]
            refine (Cover.ofPart (List.cons_ne_nil c []) trivial).append ?_
            rw [size]
            exact ih _ []
        | flavor inner => cases char
        | unclosedFlavor rest => cases char
      · have more := ih start (l :: read)
        rwa [List.reverse_cons, textAll_append, List.append_assoc, ← textAll_append] at more

theorem cover_of (start : Nat) (text : List Char) :
    Cover Anyhow start text ((Cut.of start text).map piece) := by
  have cover := cover_scan start [] (Lexeme.scan text)
  rwa [textAll_scan] at cover

end Cut

namespace Piece

variable {Fits : Term → List Char → Prop} {offset : Nat} {text : List Char} {p q : Piece}
  {ps qs : List Piece}

/-- Two pieces beside each other, with the white space between them. -/
theorem Cover.join (cover : Cover Fits offset text (p :: q :: ps)) :
    ∃ a b, p.span = some a ∧ q.span = some b ∧ a.cover b = ⟨a.start, b.stop⟩ ∧
      ∀ t, Cover Anyhow offset text (⟨t, some ⟨a.start, b.stop⟩⟩ :: ps) := by
  cases cover with
  | @piece _ gap part behind t ps blank visible fits rest =>
      generalize start : offset + byteLength gap + byteLength part = pos at rest
      cases rest with
      | @piece _ gap' part' behind' t' ps blank' visible' fits' rest' =>
          refine ⟨_, _, rfl, rfl, ?_, fun t => ?_⟩
          · simp only [Span.cover, Span.ofText, Span.mk.injEq]
            omega
          · have place : offset + byteLength gap + byteLength (part ++ gap' ++ part') =
                pos + byteLength gap' + byteLength part' := by
              rw [byteLength_append, byteLength_append, ← start]
              omega
            rw [← List.append_assoc part, ← List.append_assoc (part ++ gap')]
            show Cover Anyhow offset _
              (⟨t, some ⟨offset + byteLength gap, pos + byteLength gap' + byteLength part'⟩⟩ :: ps)
            rw [← place] at rest' ⊢
            exact .piece blank (by simp [visible]) trivial (rest'.of_spans rfl)

theorem Cover.tail (cover : Cover Fits offset text (p :: ps)) (keeps : ∀ offset behind,
    Cover Fits offset behind ps → Cover Anyhow offset behind qs) :
    ∀ t, Cover Anyhow offset text (⟨t, p.span⟩ :: qs) := by
  intro t
  cases cover with
  | piece blank visible fits rest => exact .piece blank visible trivial (keeps _ _ rest)

end Piece

namespace Cut

open Piece

/-- Cuts cover their text also with the signs among them as parts of numbers. -/
theorem cover_pieces (expecting : Bool) {cuts : List Cut} {offset : Nat} {text : List Char}
    (cover : Cover Anyhow offset text (cuts.map piece)) :
    Cover Anyhow offset text (pieces expecting cuts).1 := by
  fun_induction pieces expecting cuts generalizing offset text with
  | case1 expecting => exact cover
  | case2 expecting start next operand rest folds span others last eq =>
      -- the sign and the number behind it become one piece
      rename_i ih
      rw [eq] at ih
      obtain ⟨a, b, sign, number, -, joined⟩ := cover.join
      cases sign
      cases number
      exact (joined (.operator .subtract)).tail (fun _ _ => ih) _
  | case3 expecting start next operand rest single others last eq ih =>
      rw [eq] at ih
      exact cover.tail (fun _ _ behind => behind.tail (fun _ _ => ih) _) _
  | case4 expecting start op rest single others last eq ih
  | case5 expecting start operand rest others last eq ih =>
      rw [eq] at ih
      exact cover.tail (fun _ _ => ih) _

end Cut

namespace Piece

variable {Fits : Term → List Char → Prop} {offset : Nat} {text : List Char} {ps qs : List Piece}

theorem cover_splitOperators (expecting : Bool) (cover : Cover Verbatim offset text ps) :
    Cover Anyhow offset text (splitOperatorsFrom expecting ps) := by
  induction cover generalizing expecting with
  | gap blank => exact .gap blank
  | @piece offset gap part behind t ps blank visible verbatim rest ih =>
      refine Cover.indent blank ?_
      cases t with
      | fragment text =>
          have same : text.toList = part := verbatim text rfl
          have cut := Cut.cover_pieces expecting (Cut.cover_of (offset + byteLength gap) part)
          rw [← same] at cut ⊢
          exact cut.append (same ▸ ih _)
      | _ => exact (Cover.ofPart visible trivial).append (ih _)

/-! ## Fragments and values -/

/-- A pass that keeps the places of pieces keeps what they cover. -/
theorem cover_mapNeighbours {f : Option Term → Piece → Option Term → Piece}
    (keeps : ∀ prior p next, (f prior p next).span = p.span) (cover : Cover Fits offset text ps) :
    Cover Anyhow offset text (mapNeighbours f ps) := by
  have spans (prior : Option Term) : (mapNeighboursFrom f prior ps).map span = ps.map span := by
    clear cover
    induction ps generalizing prior with
    | nil => rfl
    | cons p ps ih => exact congrArg₂ List.cons (keeps _ _ _) (ih _)
  exact cover.of_spans (spans none)

theorem cover_classifyEarly (cover : Cover Fits offset text ps) :
    Cover Anyhow offset text (classifyEarly ps) := by
  refine cover_mapNeighbours (fun prior p next => ?_) cover
  split <;> rfl

theorem cover_foldConstants (cover : Cover Fits offset text ps) :
    Cover Anyhow offset text (foldConstants ps) := by
  refine cover_mapNeighbours (fun prior p next => ?_) cover
  split
  · split <;> rfl
  · rfl

theorem cover_mergeFrom {last : Piece} (cover : Cover Fits offset text (last :: ps)) :
    Cover Anyhow offset text (mergeFrom last ps) := by
  induction ps generalizing offset text Fits last with
  | nil => exact cover.of_spans rfl
  | cons p ps ih =>
      rw [mergeFrom]
      split
      · rename_i joined merges
        obtain ⟨a, b, first, second, both, covers⟩ := cover.join
        rw [first, second, Span.cover?, both]
        exact ih (covers _)
      · exact cover.tail (fun _ _ => ih) _

theorem cover_merge (cover : Cover Fits offset text ps) : Cover Anyhow offset text (merge ps) := by
  cases ps with
  | nil => exact cover.of_spans rfl
  | cons p ps => exact cover_mergeFrom cover

theorem span_settleEarly {prior next : Option Term} {p q : Piece}
    (ok : settleEarly prior p next = .ok q) : q.span = p.span := by
  unfold settleEarly at ok
  split at ok
  · split at ok
    · split at ok <;> cases ok
      rfl
    · split at ok <;> cases ok
      rfl
  · cases ok
    rfl

theorem cover_simplifyEarly (cover : Cover Fits offset text ps) (ok : simplifyEarly ps = .ok qs) :
    Cover Anyhow offset text qs := by
  have settled {prior : Option Term} {ps qs : List Piece}
      (each : mapNeighboursFrom settleEarly prior ps = qs.map .ok) : qs.map span = ps.map span := by
    induction ps generalizing prior qs with
    | nil => rw [List.map_eq_nil_iff.1 each.symm]
    | cons p ps ih =>
        obtain ⟨q, qs, rfl, first, others⟩ := List.map_eq_cons_iff.1 each.symm
        exact congrArg₂ List.cons (span_settleEarly first.symm) (ih others.symm)
  exact (cover_merge (cover_foldConstants cover)).of_spans (settled (eq_of_collect ok))

end Piece

/-! ## Errors of fragments -/

namespace FormatError

/-- The errors of a fragment, which does not know where it stands. -/
inductive OfFragment : FormatError → Prop
  | malformedDice (term : String) : OfFragment (malformedDice term none)
  | unresolved (term : String) : OfFragment (unresolved term none)

theorem OfFragment.points {e : FormatError} (fragment : OfFragment e) {span : Span} {offset : Nat}
    {text part : List Char} (isAt : span.IsAt offset text part) :
    (e.locate (some span)).Points offset text := by
  cases fragment with
  | malformedDice term | unresolved term => exact ⟨span, part, rfl, isAt, trivial⟩

end FormatError

namespace Fragment

theorem ofFragment_classify {text : String} {e : FormatError} (failed : classify text = .error e) :
    e.OfFragment := by
  unfold classify at failed
  dsimp only at failed
  split at failed
  · cases failed
  split at failed
  · cases failed
  split at failed
  · cases failed
    exact .malformedDice _
  · cases failed
    exact .unresolved _

theorem ofFragment_checkPending {text : String} {prior next : Option Term} {e : FormatError}
    (failed : checkPending text prior next = .error e) : e.OfFragment := by
  unfold checkPending at failed
  dsimp only at failed
  split at failed
  · cases failed
  · rename_i malformed
    cases failed
    cases ofFragment_classify malformed
    exact .malformedDice _
  · rename_i unresolved
    cases failed
    cases ofFragment_classify unresolved
    exact .unresolved _
  · rename_i other
    cases failed
    exact ofFragment_classify other

end Fragment

namespace Piece

theorem points_simplifyEarly {Fits : Term → List Char → Prop} {offset : Nat} {text : List Char}
    {ps : List Piece} {e : FormatError} (cover : Cover Fits offset text ps)
    (failed : simplifyEarly ps = .error e) : e.Points offset text := by
  obtain ⟨result, mem, failed⟩ := error_of_mapM failed
  obtain ⟨prior, next, p, member, settles⟩ := mem_mapNeighboursFrom mem
  obtain ⟨front, part, behind, rfl, place, -⟩ := (cover_merge (cover_foldConstants cover)).mem member
  have isAt : (Span.ofText (offset + byteLength front) part).IsAt offset (front ++ part ++ behind)
      part := ⟨front, behind, rfl, rfl⟩
  rw [id, ← settles] at failed
  unfold settleEarly at failed
  rw [place] at failed
  split at failed
  · split at failed
    · split at failed
      · cases failed
      · rename_i e' checked
        cases failed
        exact (Fragment.ofFragment_checkPending checked).points isAt
    · split at failed
      · cases failed
      · rename_i e' classified
        cases failed
        exact (Fragment.ofFragment_classify classified).points isAt
  · cases failed

end Piece

/-! ## Formulas -/

namespace Formula

open Piece

/-- A formula starts as one piece. -/
theorem splitGroups_ofText (b : Bracket) (read : SubReader) (offset : Nat) (text : List Char) :
    splitGroups b read [ofText offset text] =
      Group.pieces b read offset 0 (Outline.of b offset text) := by
  have first : splitGroup b read (ofText offset text) =
      Group.pieces b read offset 0 (Outline.of b offset text) :=
    splitGroup_fragment b read (verbatim_ofList text) rfl offset
  unfold splitGroups
  rw [List.mapM_cons, first]
  cases Group.pieces b read offset 0 (Outline.of b offset text) with
  | error e => rfl
  | ok ps => exact congrArg Except.ok (List.append_nil ps)

theorem cover_round {read : SubReader} {offset : Nat} {text : List Char} {ps : List Piece}
    (ok : splitGroups .round read [ofText offset text] = .ok ps) :
    Cover Verbatim offset text ps := by
  rw [splitGroups_ofText] at ok
  obtain ⟨tail, rfl, cover⟩ := Group.cover_pieces (Outline.located_of .round offset text) ok
  exact cover

theorem cover_piecesWith {read : SubReader} {offset : Nat} {text : List Char} {ps : List Piece}
    (ok : piecesWith read offset text = .ok ps) : Cover Anyhow offset text ps := by
  unfold piecesWith at ok
  split at ok
  · cases ok
  rename_i round
  split at ok
  · cases ok
  rename_i curly
  have cover := cover_splitGroups (cover_round round) curly
  exact cover_simplifyEarly (cover_classifyEarly (cover_splitOperators true cover)) ok

theorem points_piecesWith {bound : Nat} {read : SubReader} (pointed : Group.Pointed bound read)
    {offset : Nat} {text : List Char} (short : text.length ≤ bound) {e : FormatError}
    (failed : piecesWith read offset text = .error e) : e.Points offset text := by
  unfold piecesWith at failed
  split at failed
  · rename_i e' round
    cases failed
    rw [splitGroups_ofText] at round
    exact Group.points_pieces pointed (Outline.located_of .round offset text) short round
  rename_i round
  split at failed
  · rename_i e' curly
    cases failed
    exact points_splitGroups pointed (cover_round round) short curly
  rename_i curly
  have cover := cover_splitGroups (cover_round round) curly
  exact points_simplifyEarly (cover_classifyEarly (cover_splitOperators true cover)) failed

/-- A reader of formulas that are nested less deep than a bound, on texts that are shorter. -/
theorem points_piecesWithin {depth offset : Nat} {text : List Char} {e : FormatError}
    (short : text.length < depth) (failed : piecesWithin depth offset text = .error e) :
    e.Points offset text := by
  induction depth generalizing offset text e with
  | zero => exact absurd short (Nat.not_lt_zero _)
  | succ depth ih =>
      refine points_piecesWith (fun offset text e short failed => ?_) (Nat.le_of_lt_succ short) failed
      exact ih short (error_of_map failed)

/-- **Every error of a formula tells a place in it, and what it says stands there**: the bracket
that is not closed or that closes nothing, the empty group, the modifiers of a pool, or nothing
but white space for an argument. -/
theorem points_read {formula : String} {e : FormatError} (failed : read formula = .error e) :
    e.Points 0 formula.toList :=
  points_piecesWithin (Nat.lt_succ_self _) (error_of_map failed)

/-- The modifiers of a pool in a call, behind characters of more than one byte. -/
theorem points_read_nested :
    read "2[ü] + max(1, (3 - \x7b1d6, 4[€]\x7dro))" =
        .error (.poolModifiers "ro" none (some ⟨33, 35⟩)) ∧
      (FormatError.poolModifiers "ro" none (some ⟨33, 35⟩)).Points 0
        "2[ü] + max(1, (3 - \x7b1d6, 4[€]\x7dro))".toList := by
  have rejected : (read "2[ü] + max(1, (3 - \x7b1d6, 4[€]\x7dro))").map (fun _ => ()) =
      .error (.poolModifiers "ro" none (some ⟨33, 35⟩)) := by
    decide +kernel
  exact ⟨error_of_map rejected, points_read (error_of_map rejected)⟩

/-- **Nothing of a formula is left out of its pieces but white space**: all of them have places,
none of which is empty, and the places stand one behind the other. -/
theorem pieces_cover {offset : Nat} {text : List Char} {ps : List Piece}
    (ok : pieces offset text = .ok ps) :
    ∃ spans, ps.map Piece.span = spans.map some ∧ Span.Tile offset text spans :=
  (cover_piecesWith ok).tile

/-- Signs and a count that belong to pieces, groups with what belongs to them, and white space. -/
theorem pieces_cover_nested :
    ∃ ps, pieces 0 " -3[ü] + (1 + 2)d6[a] * \x7b1d4, 2 \x7dk1[€] ".toList = .ok ps ∧
      ∃ spans, ps.map Piece.span = spans.map some ∧
        Span.Tile 0 " -3[ü] + (1 + 2)d6[a] * \x7b1d4, 2 \x7dk1[€] ".toList spans := by
  have accepted : (pieces 0
      " -3[ü] + (1 + 2)d6[a] * \x7b1d4, 2 \x7dk1[€] ".toList).toOption.isSome = true := by
    decide +kernel
  obtain ⟨ps, reads⟩ := exists_ok accepted
  exact ⟨ps, reads, pieces_cover reads⟩

end Formula

end DiceFormula
