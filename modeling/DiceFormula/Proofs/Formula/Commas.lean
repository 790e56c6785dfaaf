/-
# DiceFormula.Proofs.Formula.Commas -- arguments are what stands between the outer commas

The reader of arguments does not count brackets: it cuts at every comma, and joins what it cut
until it can be read.  That this finds the commas outside of all brackets (`Matched.cutCommas`)
needs two facts.  Up to a comma in a bracket nothing can be read, since the bracket is not closed;
and nothing with a comma outside of all brackets can be read, so no argument is taken with its
neighbour.

The second needs care, because a `]` at the end of a fragment makes flavor of all that stands
behind the last `[`, commas and brackets included.  A text is `Opened` if each `]` stands behind a
`[`; behind a comma outside of brackets it stays so while the text is cut, trimmed, merged and
tried (`Comma`).  A fragment with such a comma is neither a number nor dice, so no text with one is
read (`reads?_comma`).

Hence arguments are read if and only if the pieces between the outer commas are, each by itself,
and then they are what these pieces are read as (`arguments_iff`).
-/
import DiceFormula.Proofs.Formula.Nesting
import DiceFormula.Proofs.Formula.Waiting

namespace DiceFormula

set_option autoImplicit false

/-! ## Closing brackets of flavor -/

namespace Text

/-- Each closing square bracket stands behind an opening one. -/
def Opened (s : List Char) : Prop :=
  ∀ front behind, s = front ++ ']' :: behind → '[' ∈ front

theorem opened_of_not_mem {s : List Char} (closes : ']' ∉ s) : Opened s := by
  rintro front behind rfl
  exact absurd (by simp) closes

theorem opened_flavor (s : List Char) : Opened ('[' :: s) := by
  intro front behind split
  cases front with
  | nil => cases split
  | cons c front =>
      obtain ⟨rfl, -⟩ := List.cons.inj split
      exact List.mem_cons_self

theorem Opened.front {s t : List Char} (opened : Opened (s ++ t)) : Opened s := by
  rintro front behind rfl
  exact opened front (behind ++ t) (by simp)

theorem Opened.append {s t : List Char} (first : Opened s) (second : Opened t) : Opened (s ++ t) := by
  intro front behind split
  rcases append_eq_append_cons split with ⟨more, inside⟩ | ⟨front', rfl, inside⟩
  · exact first front more inside
  · exact List.mem_append_right s (second front' behind inside)

theorem opened_intercalate {pieces : List (List Char)} (opened : ∀ s ∈ pieces, Opened s) :
    Opened ([','].intercalate pieces) := by
  induction pieces with
  | nil => exact opened_of_not_mem (List.not_mem_nil)
  | cons s rest ih =>
      obtain ⟨first, others⟩ := List.forall_mem_cons.1 opened
      cases rest with
      | nil => simpa using first
      | cons t rest =>
          rw [List.intercalate_cons_cons]
          exact (first.append (opened_of_not_mem (by decide))).append (ih others)

/-- Lexemes close their own flavor. -/
theorem opened_textAll {ls : List Lexeme} (closes : .char ']' ∉ ls) : Opened (Lexeme.textAll ls) := by
  induction ls with
  | nil => exact opened_of_not_mem (List.not_mem_nil)
  | cons l ls ih =>
      rw [List.mem_cons, not_or] at closes
      rw [Lexeme.textAll_cons]
      refine Opened.append ?_ (ih closes.2)
      cases l with
      | char c =>
          refine opened_of_not_mem fun mem => closes.1 ?_
          rw [List.mem_singleton.1 mem]
      | flavor text => exact opened_flavor _
      | unclosedFlavor rest => exact opened_flavor rest

/-- The text has a comma behind which each closing bracket belongs to flavor. -/
def Comma (s : List Char) : Prop :=
  ∃ front behind, s = front ++ ',' :: behind ∧ Opened behind

namespace Comma

variable {s t : List Char}

theorem mem (comma : Comma s) : ',' ∈ s := by
  obtain ⟨front, behind, rfl, -⟩ := comma
  simp

theorem prepend (t : List Char) (comma : Comma s) : Comma (t ++ s) := by
  obtain ⟨front, behind, rfl, opened⟩ := comma
  exact ⟨t ++ front, behind, (List.append_assoc _ _ _).symm, opened⟩

theorem append (comma : Comma s) (opened : Opened t) : Comma (s ++ t) := by
  obtain ⟨front, behind, rfl, opened'⟩ := comma
  exact ⟨front, behind ++ t, by simp, opened'.append opened⟩

theorem trimStart (comma : Comma s) : Comma (trimStart s) := by
  obtain ⟨front, behind, rfl, opened⟩ := comma
  refine ⟨Text.trimStart front, behind, ?_, opened⟩
  have stop := Group.span_stop (p := isBlank) (a := ',') rfl front behind
  rw [List.span_eq_takeWhile_dropWhile, List.span_eq_takeWhile_dropWhile] at stop
  exact congrArg Prod.snd stop

theorem trimEnd (comma : Comma s) : Comma (trimEnd s) := by
  obtain ⟨front, behind, rfl, opened⟩ := comma
  obtain ⟨gap, -, split⟩ := exists_gap behind.reverse
  have whole : behind = Text.trimEnd behind ++ gap.reverse := by
    have reversed := congrArg List.reverse split
    rwa [List.reverse_reverse, List.reverse_append] at reversed
  refine ⟨front, Text.trimEnd behind, ?_, Opened.front (whole ▸ opened)⟩
  have stop := Group.span_stop (p := isBlank) (a := ',') rfl behind.reverse front.reverse
  rw [List.span_eq_takeWhile_dropWhile, List.span_eq_takeWhile_dropWhile] at stop
  have kept := congrArg Prod.snd stop
  dsimp only at kept
  rw [Text.trimEnd, Text.trimEnd, List.reverse_append, List.reverse_cons, List.append_assoc,
    List.singleton_append, kept]
  simp

theorem trim (comma : Comma s) : Comma (trim s) := comma.trimStart.trimEnd

theorem visible (comma : Comma s) : allBlank s = false := by
  by_contra blank
  rw [Bool.not_eq_false] at blank
  cases List.all_eq_true.1 blank ',' comma.mem

end Comma

end Text

/-! ## Fragments with commas -/

namespace Fragment

open Text (Comma Opened)

/-- Neither numbers nor dice have commas. -/
theorem comma_not_mem {body : List Char} (readable : Readable body) : ',' ∉ body :=
  not_mem_of_readable readable (by decide) rfl

theorem splitFlavor_trim {text : List Char} (visible : Text.allBlank text = false) :
    splitFlavor (Text.trim text) = splitFlavor text := by
  unfold splitFlavor
  rw [(Text.trimmed_trim visible).trim_eq]

/-- Flavor is behind the comma, if there is any. -/
theorem comma_splitFlavor {text : List Char} (comma : Comma text) : Comma (splitFlavor text).1 := by
  rw [← splitFlavor_trim comma.visible]
  rcases splitFlavor_cases (Text.trimmed_trim comma.visible) with split | ⟨front, flavor, whole, opens, split⟩
  · rw [split]
    exact comma.trim
  · rw [split]
    refine Comma.trimEnd ?_
    obtain ⟨before, behind, cut, opened⟩ := comma.trim
    rw [whole, List.append_assoc] at cut
    rcases Text.append_eq_append_cons cut with ⟨more, rfl⟩ | ⟨before', rfl, inFlavor⟩
    · have rest : more ++ ('[' :: flavor ++ [']']) = behind := by simpa using cut
      exact ⟨before, more, rfl, Opened.front (rest ▸ opened)⟩
    · -- what stands behind a comma in the flavor has no opening bracket, but ends with a closing one
      rcases List.eq_nil_or_concat behind with rfl | ⟨behind', c, rfl⟩
      · cases (List.append_inj' inFlavor rfl).2
      · rw [List.concat_eq_append] at inFlavor opened
        rw [← List.cons_append, ← List.append_assoc] at inFlavor
        obtain ⟨inside, last⟩ := List.append_inj' inFlavor rfl
        cases last
        have opening := opened behind' [] rfl
        cases before' with
        | nil => cases inside
        | cons d before' =>
            obtain ⟨-, rfl⟩ := List.cons.inj inside
            exact absurd (by simp [opening]) opens

/-- A fragment with a comma is nothing. -/
theorem not_classify_of_comma {text : List Char} (comma : Comma text) (t : Term) :
    classify (String.ofList text) ≠ .ok t := by
  intro ok
  have readable := (classify_iff text).1 ⟨t, ok⟩
  exact comma_not_mem readable (comma_splitFlavor comma).mem

theorem classifyEarly_of_comma {text : String} (comma : Comma text.toList)
    (prior next : Option Term) : classifyEarly text prior next = .fragment text := by
  have unreadable : ¬ Readable (splitFlavor text.toList).1 := fun readable =>
    comma_not_mem readable (comma_splitFlavor comma).mem
  rw [Readable, not_or, Bool.not_eq_true, Bool.not_eq_true, Option.isSome_eq_false_iff,
    Option.isSome_eq_false_iff, Option.isNone_iff_eq_none, Option.isNone_iff_eq_none] at unreadable
  unfold classifyEarly
  dsimp only
  rw [unreadable.1, unreadable.2]

/-- A fragment with a comma does not wait for a group either. -/
theorem checkPending_of_comma {text : String} (comma : Comma text.toList)
    (prior next : Option Term) : checkPending text prior next ≠ .ok () := by
  intro checked
  have trimmed := Text.trimmed_trim comma.visible
  have tried : checkPending (String.ofList (Text.trim text.toList)) prior next = .ok () := by
    unfold checkPending at checked ⊢
    rwa [String.toList_ofList, trimmed.trim_eq]
  have readable := readable_trial (by rwa [String.toList_ofList]) tried
  rw [String.toList_ofList] at readable
  have opened (neighbour : Option Term) : Opened (placeholder neighbour) := by
    unfold placeholder
    split <;> exact Text.opened_of_not_mem (by decide)
  refine comma_not_mem readable (comma_splitFlavor (Comma.append ?_ ?_)).mem
  · exact ((comma_splitFlavor comma.trim).prepend _).append (opened next)
  · cases (splitFlavor (Text.trim text.toList)).2 with
    | none => exact Text.opened_of_not_mem (List.not_mem_nil)
    | some flavor => exact Text.opened_flavor _

end Fragment

/-! ## Merging -/

namespace Term

open Text (Comma)

theorem opened_formulaNumber (x : Float) : Text.Opened (formulaNumber x).toList := by
  refine Text.opened_of_not_mem fun mem => ?_
  rcases Numeral.chars_formulaNumber mem with digit | symbol
  · cases digit
  · exact absurd symbol (by decide)

theorem opened_mergedFlavor (flavor : Option String) (fragment : String) :
    Text.Opened (mergedFlavor flavor fragment).toList := by
  unfold mergedFlavor
  split
  · exact Text.opened_of_not_mem (by decide)
  · cases flavor with
    | none => exact Text.opened_of_not_mem (by decide)
    | some f =>
        rw [flavorText, String.toList_append, String.toList_append]
        exact Text.opened_flavor _

/-- A comma in a fragment. -/
def HasComma (t : Term) : Prop :=
  ∃ text, t = .fragment text ∧ Comma text.toList

theorem comma_merged? {a b : Term} {text : String} (merges : merged? a b = some text)
    (comma : a.HasComma ∨ b.HasComma) : Comma text.toList := by
  have value_of_total {t : Term} {x : Float} (total : t.total? = some x) : ¬ t.HasComma := by
    rintro ⟨text, rfl, -⟩
    cases total
  unfold merged? at merges
  split at merges
  · obtain ⟨x, total, rfl⟩ := Option.map_eq_some_iff.1 merges
    obtain ⟨s, same, inside⟩ := comma.resolve_right (value_of_total total)
    cases same
    rw [String.toList_append, String.toList_append]
    exact (inside.append (opened_formulaNumber x)).append (opened_mergedFlavor _ _)
  · obtain ⟨x, total, rfl⟩ := Option.map_eq_some_iff.1 merges
    obtain ⟨s, same, inside⟩ := comma.resolve_left (value_of_total total)
    cases same
    dsimp only
    rw [String.toList_append, String.toList_append]
    exact (inside.prepend _).append (opened_mergedFlavor _ _)
  · cases merges

end Term

/-! ## Settling -/

namespace Piece

variable {ps : List Piece}

/-- Some piece is a fragment with a comma. -/
def HasComma (ps : List Piece) : Prop := ∃ p ∈ ps, p.term.HasComma

theorem HasComma.classifyEarly (comma : HasComma ps) : HasComma (classifyEarly ps) := by
  obtain ⟨p, mem, text, fragment, inside⟩ := comma
  obtain ⟨prior, next, member⟩ := exists_mapNeighboursFrom _ none mem
  refine ⟨_, member, text, ?_, inside⟩
  simp only [fragment, Fragment.classifyEarly_of_comma inside]

theorem HasComma.foldConstants (comma : HasComma ps) : HasComma (foldConstants ps) := by
  obtain ⟨p, mem, text, fragment, inside⟩ := comma
  obtain ⟨prior, next, member⟩ := exists_mapNeighboursFrom _ none mem
  refine ⟨_, member, text, ?_, inside⟩
  have other : p.term.isFoldable = false := by rw [fragment]; rfl
  rw [other, Bool.false_and, if_neg Bool.false_ne_true, fragment]

theorem hasComma_mergeFrom {last : Piece} (comma : HasComma (last :: ps)) :
    HasComma (mergeFrom last ps) := by
  induction ps generalizing last with
  | nil => exact comma
  | cons p ps ih =>
      obtain ⟨q, mem, has⟩ := comma
      rw [mergeFrom]
      split
      · rename_i text merges
        refine ih ?_
        rcases List.mem_cons.1 mem with rfl | mem
        · exact ⟨_, List.mem_cons_self, text, rfl, Term.comma_merged? merges (.inl has)⟩
        · rcases List.mem_cons.1 mem with rfl | mem
          · exact ⟨_, List.mem_cons_self, text, rfl, Term.comma_merged? merges (.inr has)⟩
          · exact ⟨q, List.mem_cons_of_mem _ mem, has⟩
      · rcases List.mem_cons.1 mem with rfl | mem
        · exact ⟨q, List.mem_cons_self, has⟩
        · obtain ⟨q', member, has'⟩ := ih ⟨q, mem, has⟩
          exact ⟨q', List.mem_cons_of_mem _ member, has'⟩

theorem HasComma.merge (comma : HasComma ps) : HasComma (merge ps) := by
  cases ps with
  | nil => exact comma
  | cons p ps => exact hasComma_mergeFrom comma

theorem not_settleEarly_of_comma {p : Piece} (comma : p.term.HasComma) (prior next : Option Term)
    (q : Piece) : settleEarly prior p next ≠ .ok q := by
  obtain ⟨text, fragment, inside⟩ := comma
  intro settled
  unfold settleEarly at settled
  rw [fragment] at settled
  dsimp only at settled
  split at settled
  · split at settled
    · rename_i checked
      exact Fragment.checkPending_of_comma inside prior next checked
    · cases settled
  · split at settled
    · rename_i t classified
      rw [← text.ofList_toList] at classified
      exact Fragment.not_classify_of_comma inside t classified
    · cases settled

/-- A fragment with a comma is never settled. -/
theorem settle?_of_comma {ts : List Term} (comma : ∃ t ∈ ts, t.HasComma) : settle? ts = none := by
  cases settles : settle? ts with
  | none => rfl
  | some ts' =>
      obtain ⟨t, mem, has⟩ := comma
      have start : HasComma (ofTerms ts) := ⟨⟨t, none⟩, List.mem_map_of_mem mem, has⟩
      obtain ⟨p, member, has'⟩ := start.classifyEarly.foldConstants.merge
      obtain ⟨qs, ok, -⟩ := ok_of_settle? settles
      obtain ⟨prior, next, settled⟩ := exists_mapNeighboursFrom settleEarly none member
      rw [← mapNeighbours, eq_of_collect ok] at settled
      obtain ⟨q, -, settled⟩ := List.mem_map.1 settled
      exact absurd settled.symm (not_settleEarly_of_comma has' prior next q)

end Piece

/-! ## Links -/

namespace Link

open Lexeme
open Text (Comma Opened)

/-- Lexemes behind a comma are part of an operand with it, up to the next operator. -/
theorem scan_comma {read ls : List Lexeme} (comma : ∃ front behind,
      textAll read.reverse = front ++ ',' :: behind ∧ Opened (behind ++ textAll ls)) :
    ∃ text, .operand text ∈ scan read ls ∧ Comma text := by
  have operand (read : List Lexeme) (comma : Comma (textAll read.reverse)) :
      ∃ text, .operand text ∈ operand? (textAll read.reverse) ∧ Comma text := by
    refine ⟨_, ?_, comma.trim⟩
    rw [operand?, comma.visible]
    exact List.mem_singleton_self _
  induction ls generalizing read with
  | nil =>
      obtain ⟨front, behind, split, opened⟩ := comma
      rw [scan_nil]
      exact operand read ⟨front, behind, split, opened.front⟩
  | cons l ls ih =>
      obtain ⟨front, behind, split, opened⟩ := comma
      cases cut : Cut.operator? l with
      | some op =>
          obtain ⟨text, mem, inside⟩ := operand read ⟨front, behind, split, opened.front⟩
          rw [scan_operator _ _ cut]
          exact ⟨text, List.mem_append_left _ mem, inside⟩
      | none =>
          rw [scan_other _ _ cut]
          refine ih ⟨front, behind ++ l.text, ?_, ?_⟩
          · rw [List.reverse_cons, textAll_append, split]
            simp [textAll]
          · rwa [List.append_assoc, ← textAll_cons]

/-- A comma outside of all brackets. -/
theorem ofText_comma (m : Matched) {s : List Char} (opened : Opened s) :
    ∃ text, .operand text ∈ ofText (m.text ++ ',' :: s) ∧ Comma text := by
  rw [ofText, m.scan_text, Matched.scan_char (by decide)]
  have behind (read ls : List Lexeme) :
      ∃ text, .operand text ∈ scan read (ls ++ .char ',' :: Lexeme.scan s) ∧ Comma text := by
    induction ls generalizing read with
    | nil =>
        rw [List.nil_append, scan_other _ _ rfl]
        refine scan_comma ⟨textAll read.reverse, [], ?_, ?_⟩
        · rw [List.reverse_cons, textAll_append]
          rfl
        · rwa [List.nil_append, textAll_scan]
    | cons l ls ih =>
        rw [List.cons_append]
        cases cut : Cut.operator? l with
        | some op =>
            obtain ⟨text, mem, inside⟩ := ih []
            rw [scan_operator _ _ cut]
            exact ⟨text, List.mem_append_right _ (List.mem_cons_of_mem _ mem), inside⟩
        | none =>
            rw [scan_other _ _ cut]
            exact ih _
  exact behind [] m.lexemes

/-- Operands become fragments, perhaps with a sign. -/
theorem exists_terms_of_comma {expecting : Bool} {links : List Link} {text : List Char}
    (mem : .operand text ∈ links) (comma : Comma text) : ∃ t ∈ terms expecting links, t.HasComma := by
  have fragment {s : List Char} (inside : Comma s) : (Term.fragment (String.ofList s)).HasComma :=
    ⟨_, rfl, by rwa [String.toList_ofList]⟩
  have behind {t : Term} {ts : List Term} (found : ∃ t' ∈ ts, t'.HasComma) :
      ∃ t' ∈ t :: ts, t'.HasComma := by
    obtain ⟨t', member, has⟩ := found
    exact ⟨t', List.mem_cons_of_mem t member, has⟩
  fun_induction terms expecting links with
  | case1 => cases mem
  | case2 expecting text' rest numeric ih =>
      rcases List.mem_cons.1 mem with same | mem
      · cases same
      rcases List.mem_cons.1 mem with same | mem
      · cases same
        exact ⟨_, List.mem_cons_self, fragment (comma.prepend ['-'])⟩
      · exact behind (ih mem)
  | case3 expecting text' rest other ih =>
      rcases List.mem_cons.1 mem with same | mem
      · cases same
      rcases List.mem_cons.1 mem with same | mem
      · cases same
        exact behind ⟨_, List.mem_cons_self, fragment comma⟩
      · exact behind (behind (ih mem))
  | case5 expecting text' rest ih =>
      rcases List.mem_cons.1 mem with same | mem
      · cases same
        exact ⟨_, List.mem_cons_self, fragment comma⟩
      · exact behind (ih mem)
  | case4 expecting op rest other ih | case6 expecting t' rest ih =>
      rcases List.mem_cons.1 mem with same | mem
      · cases same
      · exact behind (ih mem)

end Link

namespace Strand

/-- What stands around a character between two strands is cut at its operators. -/
theorem mem_links_join {c : Char} {s s' : Strand} {l : Link}
    (mem : l ∈ Link.ofText (s.last ++ c :: s'.first)) : l ∈ (s.join c s').links := by
  induction s with
  | plain text =>
      cases s' with
      | plain text' => exact mem
      | term before t rest => exact List.mem_append_left _ mem
  | term before t rest ih =>
      exact List.mem_append_right _ (List.mem_cons_of_mem _ (ih mem))

end Strand

namespace Formula

open Text (Comma Opened)

/-- A comma outside of all brackets stands in an operand. -/
theorem exists_links?_comma {read : SubReader} (m : Matched) {s : List Char} (opened : Opened s)
    {links : List Link} (found : links? read (m.text ++ ',' :: s) = some links) :
    ∃ text, .operand text ∈ links ∧ Comma text := by
  unfold links? at found
  rw [Strand.read?_join .round read rfl rfl rfl m] at found
  obtain ⟨joined, round, curly⟩ := Option.bind_eq_some_iff.1 found
  obtain ⟨front, first, round⟩ := Option.bind_eq_some_iff.1 round
  obtain ⟨behind, second, rfl⟩ := Option.map_eq_some_iff.1 round
  obtain ⟨m', flat, text⟩ := Strand.exists_last_read (b := .round) (by simp) first
  have joins (s : List Char) := Strand.read?_join .curly read (c := ',') rfl rfl rfl m' s
  rw [text] at joins
  rw [Strand.expand_join joins] at curly
  obtain ⟨expanded, both, rfl⟩ := Option.map_eq_some_iff.1 curly
  obtain ⟨front', first', others⟩ := Option.bind_eq_some_iff.1 both
  obtain ⟨behind', second', rfl⟩ := Option.map_eq_some_iff.1 others
  obtain ⟨m'', -, text'⟩ := Strand.exists_last_expand ⟨m', flat, text⟩ first'
  obtain ⟨rest, split⟩ := Strand.first_read? second
  obtain ⟨rest', split'⟩ := Strand.first_expand second'
  have opened' : Opened behind'.first := (split' ▸ (split ▸ opened).front : Opened _).front
  obtain ⟨operand, mem, comma⟩ := Link.ofText_comma m'' opened'
  rw [text'] at mem
  exact ⟨operand, Strand.mem_links_join mem, comma⟩

/-- **A text with a comma outside of all brackets is no formula**, if no closing bracket behind it
makes flavor of it. -/
theorem reads?_comma (depth : Nat) (m : Matched) {s : List Char} (opened : Opened s) :
    reads? depth (m.text ++ ',' :: s) = none := by
  cases depth with
  | zero => rfl
  | succ depth =>
      rw [reads?_succ]
      cases found : links? (reader depth) (m.text ++ ',' :: s) with
      | none => rfl
      | some links =>
          obtain ⟨text, mem, comma⟩ := exists_links?_comma m opened found
          exact Piece.settle?_of_comma (Link.exists_terms_of_comma mem comma)

end Formula

/-! ## Arguments -/

namespace Matched

/-- The first text with more in front of it. -/
def prependFirst (m : Matched) : List Matched → List Matched
  | [] => [m]
  | piece :: rest => m.append piece :: rest

/-- What stands between the commas outside of all brackets. -/
def cutCommas : Matched → List Matched
  | nil => [nil]
  | char c plain rest =>
      if c = ',' then nil :: rest.cutCommas else (char c plain nil).prependFirst rest.cutCommas
  | flavor inner closes rest => (flavor inner closes nil).prependFirst rest.cutCommas
  | group b inner rest => (group b inner nil).prependFirst rest.cutCommas

theorem cutCommas_ne_nil (m : Matched) : m.cutCommas ≠ [] := by
  have prepended (m : Matched) (pieces : List Matched) : m.prependFirst pieces ≠ [] := by
    cases pieces <;> exact List.cons_ne_nil _ _
  cases m with
  | nil => exact List.cons_ne_nil _ _
  | char c plain rest =>
      unfold cutCommas
      split
      · exact List.cons_ne_nil _ _
      · exact prepended _ _
  | flavor inner closes rest | group b inner rest => exact prepended _ _

theorem text_prependFirst (m : Matched) {pieces : List Matched} (present : pieces ≠ []) :
    [','].intercalate ((m.prependFirst pieces).map text) =
      m.text ++ [','].intercalate (pieces.map text) := by
  obtain ⟨piece, rest, rfl⟩ := List.exists_cons_of_ne_nil present
  cases rest with
  | nil => simp [prependFirst]
  | cons next rest => simp [prependFirst, List.intercalate_cons_cons]

/-- Nothing is lost at the commas. -/
theorem text_cutCommas (m : Matched) : [','].intercalate (m.cutCommas.map text) = m.text := by
  induction m with
  | nil => rfl
  | char c plain rest ih =>
      rw [cutCommas]
      split
      · rename_i comma
        obtain ⟨piece, others, pieces⟩ := List.exists_cons_of_ne_nil rest.cutCommas_ne_nil
        rw [pieces] at ih ⊢
        subst comma
        rw [List.map_cons, List.map_cons, List.intercalate_cons_cons, ← List.map_cons, ih]
        rfl
      · rw [text_prependFirst _ rest.cutCommas_ne_nil, ih]
        rfl
  | flavor inner closes rest ih | group b inner rest _ ih =>
      rw [cutCommas, text_prependFirst _ rest.cutCommas_ne_nil, ih]
      simp [text]

theorem forall_prependFirst {P : Matched → Prop} (appends : ∀ m m', P m → P m' → P (m.append m'))
    {m : Matched} (first : P m) {pieces : List Matched} (all : ∀ piece ∈ pieces, P piece) :
    ∀ piece ∈ m.prependFirst pieces, P piece := by
  cases pieces with
  | nil => exact List.forall_mem_singleton.2 first
  | cons piece rest =>
      obtain ⟨next, others⟩ := List.forall_mem_cons.1 all
      exact List.forall_mem_cons.2 ⟨appends m piece first next, others⟩

/-- No comma outside of brackets is left. -/
theorem guarded_cutCommas (m : Matched) : ∀ piece ∈ m.cutCommas, piece.Guarded := by
  have appends (m m' : Matched) : m.Guarded → m'.Guarded → (m.append m').Guarded := guarded_append
  induction m with
  | nil => exact List.forall_mem_singleton.2 trivial
  | char c plain rest ih =>
      rw [cutCommas]
      split
      · exact List.forall_mem_cons.2 ⟨trivial, ih⟩
      · rename_i other
        have single : (char c plain nil).Guarded := ⟨other, trivial⟩
        exact forall_prependFirst appends single ih
  | flavor inner closes rest ih =>
      have single : (flavor inner closes nil).Guarded := trivial
      exact forall_prependFirst appends single ih
  | group b inner rest _ ih =>
      have single : (group b inner nil).Guarded := trivial
      exact forall_prependFirst appends single ih

/-- The pieces close no more brackets than their flavor has. -/
theorem opened_cutCommas {m : Matched} (closes : .char ']' ∉ m.lexemes) :
    ∀ piece ∈ m.cutCommas, Text.Opened piece.text := by
  have appends (m m' : Matched) (first : Text.Opened m.text) (second : Text.Opened m'.text) :
      Text.Opened (m.append m').text := by
    rw [text_append]
    exact first.append second
  have opened {m : Matched} (closes : .char ']' ∉ m.lexemes) : Text.Opened m.text := by
    rw [← textAll_lexemes]
    exact Text.opened_textAll closes
  have nothing : Text.Opened nil.text := opened (List.not_mem_nil)
  induction m with
  | nil => exact List.forall_mem_singleton.2 nothing
  | char c plain rest ih =>
      rw [lexemes, List.mem_cons, not_or] at closes
      rw [cutCommas]
      split
      · exact List.forall_mem_cons.2 ⟨nothing, ih closes.2⟩
      · have single : Text.Opened (char c plain nil).text := opened (by simpa [lexemes] using closes.1)
        exact forall_prependFirst appends single (ih closes.2)
  | flavor inner closed rest ih =>
      rw [lexemes, List.mem_cons, not_or] at closes
      have single : Text.Opened (flavor inner closed nil).text := opened (by simp [lexemes])
      exact forall_prependFirst appends single (ih closes.2)
  | group b inner rest _ ih =>
      have whole : (group b inner rest).lexemes = (group b inner nil).lexemes ++ rest.lexemes := by
        simp [lexemes]
      rw [whole, List.mem_append, not_or] at closes
      exact forall_prependFirst appends (opened closes.1) (ih closes.2)

end Matched

namespace Group

open Formula
open Text (Opened)

/-- Nothing is read while no text up to a comma can be, and not all of the text. -/
theorem argumentsFrom_stuck {read : SubReader} (whole : List Char) (offset : Nat)
    {front behind : List Char} (fails : ∀ as bs, behind = as ++ bs →
      (bs = [] ∨ ∃ bs', bs = ',' :: bs') → (read offset (front ++ as)).toOption = none) :
    (argumentsFrom read whole offset front (behind.splitOn ',')).toOption = none := by
  by_cases comma : ',' ∈ behind
  · obtain ⟨as, bs, rfl, first⟩ := List.eq_append_cons_of_mem comma
    have failed := fails as (',' :: bs) rfl (.inr ⟨bs, rfl⟩)
    rw [List.splitOn_append_cons_self, List.splitOn_eq_singleton first, List.singleton_append,
      argumentsFrom]
    split
    · rfl
    · cases result : read offset (front ++ as) with
      | ok ts => rw [result] at failed; cases failed
      | error e =>
          have more : (bs.splitOn ',').isEmpty = false := by simp [List.splitOn_ne_nil]
          dsimp only
          rw [more]
          refine argumentsFrom_stuck whole offset fun as' bs' split ends => ?_
          have longer := fails (as ++ ',' :: as') bs' (by rw [split]; simp) ends
          simpa using longer
  · have failed := fails behind [] (List.append_nil _).symm (.inl rfl)
    rw [List.splitOn_eq_singleton comma, argumentsFrom]
    split
    · rfl
    · cases result : read offset (front ++ behind) with
      | ok ts => rw [result] at failed; cases failed
      | error e => rfl
termination_by behind.length

/-- Once a piece cannot be read, no text that starts with it can, up to any comma. -/
theorem reads?_beyond {depth : Nat} {m : Matched} (guarded : m.Guarded)
    (failed : reads? depth m.text = none) {behind as bs : List Char}
    (outer : behind = [] ∨ ∃ rest, behind = ',' :: rest ∧ Opened rest)
    (split : m.text ++ behind = as ++ bs) (ends : bs = [] ∨ ∃ bs', bs = ',' :: bs') :
    reads? depth as = none := by
  rcases List.append_eq_append_iff.1 split with ⟨more, rfl, inside⟩ | ⟨more, cut, rest⟩
  · cases more with
    | nil => rwa [List.append_nil]
    | cons c more =>
        rw [inside] at outer
        rcases outer with nothing | ⟨rest, starts, opened⟩
        · cases nothing
        · obtain ⟨rfl, rfl⟩ := List.cons.inj starts
          exact reads?_comma depth m opened.front
  · cases more with
    | nil => rwa [cut, List.append_nil] at failed
    | cons c more =>
        obtain rfl | ⟨bs', rfl⟩ := ends
        · cases rest
        · obtain ⟨rfl, -⟩ := List.cons.inj rest
          exact reads?_unclosed depth (Matched.unclosed_of_guarded guarded cut)

/-- What becomes of the first piece between commas. -/
theorem argumentsFrom_first {depth : Nat} (whole : List Char) (offset : Nat) {m : Matched}
    (guarded : m.Guarded) {behind : List Char} {others : List (List Char)}
    (outer : (behind = [] ∧ others = []) ∨
      ∃ rest, behind = ',' :: rest ∧ Opened rest ∧ others = rest.splitOn ',') :
    (argumentsFrom (reader depth) whole offset [] ((m.text ++ behind).splitOn ',')).toOption =
      if Text.allBlank m.text then none
      else (reads? depth m.text).bind fun ts =>
        (argumentsFrom (reader depth) whole 0 [] others).toOption.map (ts :: ·) := by
  have cut : (m.text ++ behind).splitOn ',' = m.text.splitOn ',' ++ others := by
    rcases outer with ⟨rfl, rfl⟩ | ⟨rest, rfl, -, rfl⟩
    · rw [List.append_nil, List.append_nil]
    · rw [List.splitOn_append_cons_self]
  split
  · rename_i blank
    have single : ',' ∉ m.text := fun mem => by cases List.all_eq_true.1 blank ',' mem
    rw [cut, List.splitOn_eq_singleton single, List.singleton_append, argumentsFrom,
      List.nil_append, if_pos blank]
    rfl
  · rename_i visible
    rw [Bool.not_eq_true] at visible
    cases reads : reads? depth m.text with
    | some ts =>
        rw [cut]
        exact argumentsFrom_guarded guarded visible reads whole offset (List.nil_append _).symm others
    | none =>
        have outer' : behind = [] ∨ ∃ rest, behind = ',' :: rest ∧ Opened rest := by
          rcases outer with ⟨rfl, -⟩ | ⟨rest, rfl, opened, -⟩
          · exact .inl rfl
          · exact .inr ⟨rest, rfl, opened⟩
        refine argumentsFrom_stuck whole offset fun as bs split ends => ?_
        exact (steady_reader depth offset 0 as).trans (reads?_beyond guarded reads outer' split ends)

/-- **Arguments are read piece by piece.** -/
theorem argumentsFrom_pieces {depth : Nat} (whole : List Char) (offset : Nat) {pieces : List Matched}
    (present : pieces ≠ []) (guarded : ∀ piece ∈ pieces, piece.Guarded)
    (opened : ∀ piece ∈ pieces, Opened piece.text)
    (short : ∀ piece ∈ pieces, piece.text.length < depth) (args : List (List Term)) :
    (argumentsFrom (reader depth) whole offset []
        (([','].intercalate (pieces.map Matched.text)).splitOn ',')).toOption = some args ↔
      List.Forall₂ (fun piece ts => Text.allBlank piece.text = false ∧
        read (String.ofList piece.text) = .ok ts) pieces args := by
  induction pieces generalizing offset args with
  | nil => exact absurd rfl present
  | cons m rest ih =>
      obtain ⟨first, others⟩ := List.forall_mem_cons.1 guarded
      obtain ⟨-, opened'⟩ := List.forall_mem_cons.1 opened
      obtain ⟨shortFirst, shortOthers⟩ := List.forall_mem_cons.1 short
      have rest_cases : ∃ behind others',
          [','].intercalate ((m :: rest).map Matched.text) = m.text ++ behind ∧
          ((behind = [] ∧ others' = []) ∨
            ∃ rest, behind = ',' :: rest ∧ Opened rest ∧ others' = rest.splitOn ',') ∧
          ∀ args, (argumentsFrom (reader depth) whole 0 [] others').toOption = some args ↔
            List.Forall₂ (fun piece ts => Text.allBlank piece.text = false ∧
              read (String.ofList piece.text) = .ok ts) rest args := by
        cases rest with
        | nil =>
            refine ⟨[], [], by simp, .inl ⟨rfl, rfl⟩, fun args => ?_⟩
            rw [List.forall₂_nil_left_iff, argumentsFrom]
            exact ⟨fun same => (Option.some.inj same).symm, fun same => congrArg some same.symm⟩
        | cons next rest =>
            refine ⟨',' :: [','].intercalate ((next :: rest).map Matched.text), _, ?_,
              .inr ⟨_, rfl, ?_, rfl⟩, ih 0 (List.cons_ne_nil _ _) others opened' shortOthers⟩
            · rw [List.map_cons, List.map_cons, List.intercalate_cons_cons, List.append_assoc]
              rfl
            · exact Text.opened_intercalate (by simpa using opened')
      obtain ⟨behind, others', joined, outer, behind_iff⟩ := rest_cases
      rw [joined, argumentsFrom_first whole offset first outer]
      constructor
      · intro reads
        split at reads
        · cases reads
        · rename_i visible
          obtain ⟨ts, here, reads⟩ := Option.bind_eq_some_iff.1 reads
          obtain ⟨args', there, rfl⟩ := Option.map_eq_some_iff.1 reads
          exact .cons ⟨by simpa using visible, (reads?_iff shortFirst).1 here⟩
            ((behind_iff args').1 there)
      · intro each
        cases each with
        | cons here there =>
            rw [here.1, if_neg Bool.false_ne_true, (reads?_iff shortFirst).2 here.2,
              Option.bind_some, (behind_iff _).2 there]
            rfl

/-- **Arguments are what stands between the commas outside of all brackets and flavor**, if the
brackets match and flavor alone closes square brackets: they are read if and only if each such
piece is visible and a formula by itself, and then they are these formulas in order; else there is
an error. -/
theorem arguments_iff {depth offset : Nat} {m : Matched} (deep : m.text.length < depth)
    (closes : .char ']' ∉ m.lexemes) :
    (∀ args, arguments (reader depth) offset m.text = .ok args ↔
      List.Forall₂ (fun piece ts => Text.allBlank piece.text = false ∧
        read (String.ofList piece.text) = .ok ts) m.cutCommas args) ∧
    ((∃ e, arguments (reader depth) offset m.text = .error e) ↔
      ∃ piece ∈ m.cutCommas, Text.allBlank piece.text = true ∨
        ∃ e, read (String.ofList piece.text) = .error e) := by
  have short : ∀ piece ∈ m.cutCommas, piece.text.length < depth := by
    intro piece mem
    have shorter : piece.text.length ≤ m.text.length := by
      rw [← m.text_cutCommas]
      exact Text.length_le_intercalate (List.mem_map_of_mem mem)
    omega
  have each (args : List (List Term)) : arguments (reader depth) offset m.text = .ok args ↔
      List.Forall₂ (fun piece ts => Text.allBlank piece.text = false ∧
        read (String.ofList piece.text) = .ok ts) m.cutCommas args := by
    rw [← argumentsFrom_pieces m.text offset m.cutCommas_ne_nil m.guarded_cutCommas
      (Matched.opened_cutCommas closes) short args, m.text_cutCommas]
    exact ⟨fun ok => congrArg Except.toOption ok, eq_ok_of_toOption⟩
  refine ⟨each, ?_, ?_⟩
  · rintro ⟨e, failed⟩
    by_contra good
    have all : ∀ piece ∈ m.cutCommas, ∃ ts, Text.allBlank piece.text = false ∧
        read (String.ofList piece.text) = .ok ts := by
      intro piece mem
      cases visible : Text.allBlank piece.text with
      | true => exact absurd ⟨piece, mem, .inl visible⟩ good
      | false =>
          cases result : read (String.ofList piece.text) with
          | error e => exact absurd ⟨piece, mem, .inr ⟨e, result⟩⟩ good
          | ok ts => exact ⟨ts, rfl, rfl⟩
    obtain ⟨args, related⟩ := exists_forall₂ all
    rw [(each args).2 related] at failed
    cases failed
  · rintro ⟨piece, mem, bad⟩
    cases result : arguments (reader depth) offset m.text with
    | error e => exact ⟨e, rfl⟩
    | ok args =>
        obtain ⟨ts, -, visible, ok⟩ := forall₂_mem_right ((each args).1 result).flip mem
        rcases bad with blank | ⟨e, failed⟩
        · rw [visible] at blank
          cases blank
        · rw [ok] at failed
          cases failed

theorem arguments_iff_nested : ∃ m : Matched, m.text = "max(1, 2)[a, b], {3, 4}".toList ∧
    m.text.length < 30 ∧ .char ']' ∉ m.lexemes ∧
    m.cutCommas.map Matched.text = ["max(1, 2)[a, b]".toList, " {3, 4}".toList] ∧
    ∃ args, arguments (reader 30) 0 m.text = .ok args ∧
      List.Forall₂ (fun piece ts => Text.allBlank piece.text = false ∧
        read (String.ofList piece.text) = .ok ts) m.cutCommas args ∧
      ∀ piece ∈ m.cutCommas, ∀ e, read (String.ofList piece.text) ≠ .error e := by
  let plain (s : List Char) (all : ∀ c ∈ s, isBracket c = false) := Matched.ofPlain s all
  let name := plain ['m', 'a', 'x'] (by simp [isBracket])
  let numbers := plain ['1', ',', ' ', '2'] (by simp [isBracket])
  let pool := plain ['3', ',', ' ', '4'] (by simp [isBracket])
  let others := (plain [',', ' '] (by simp [isBracket])).append (.group .curly pool .nil)
  let m := name.append (.group .round numbers (.flavor ['a', ',', ' ', 'b'] (by decide) others))
  have short : m.text.length < 30 := by decide +kernel
  have closes : .char ']' ∉ m.lexemes := by decide +kernel
  obtain ⟨args, ok⟩ : ∃ args, arguments (reader 30) 0 m.text = .ok args :=
    exists_ok (by decide +kernel)
  have settled := @arguments_iff 30 0 m short closes
  refine ⟨m, by decide +kernel, short, closes, by decide +kernel, args, ok, (settled.1 args).1 ok,
    fun piece mem e failed => ?_⟩
  obtain ⟨e', failed'⟩ := settled.2.2 ⟨piece, mem, .inr ⟨e, failed⟩⟩
  rw [ok] at failed'
  cases failed'

end Group

end DiceFormula
