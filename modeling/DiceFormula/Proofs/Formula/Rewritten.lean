/-
# DiceFormula.Proofs.Formula.Rewritten -- formulas that are read, written and read again

The text of terms does not keep what stood between them.  It writes no blank between two operands,
no sign of its own in front of a number, no count of zero and no flavor that it could not end.  A
formula is `Clear` if none of this is lost: operands that stand side by side are joined and take
nothing from each other, signs are not bound to numbers that they do not belong to, and each term is
`Told` by its text.

All else that a text needs to be read again holds of whatever was read: groups and arguments have
something in them and flavor that ends where it closes (`framed_read`), numbers of dice are in range,
pools are only selected and scored, and nothing is evaluated yet (`fresh_read`).  No bracket opens in
the flavor of numbers and dice (`cutOff_read`), and fragments wait for what is beside them
(`waits_read`).  So a formula that was read and is clear, at every level, is legible
(`legible_of_clear`), and it is read again from its own text (`read_rewritten`).
-/
import DiceFormula.Proofs.Formula.Coverage
import DiceFormula.Proofs.Formula.Leaves
import DiceFormula.Proofs.Formula.Legible

namespace DiceFormula

set_option autoImplicit false

open Term

/-! ## Groups -/

namespace Term

/-- A term with formulas in it, none of them empty, and flavor that ends where it closes. -/
structure Framed (t : Term) : Prop where
  holds : t.inner ≠ []
  filled : [] ∉ t.inner
  closed : Closed t.flavor?

/-- Terms whose groups are framed. -/
def FramedAll (ts : List Term) : Prop := ∀ t ∈ ts, Strand.isNested t = true → t.Framed

end Term

/-- A reader that makes something of all but white space. -/
def Attentive (read : SubReader) : Prop :=
  ∀ offset text, read offset text = .ok [] → Text.allBlank text = true

namespace Group

variable {read : SubReader} (attentive : Attentive read)
include attentive

theorem argumentsFrom_filled {whole : List Char} {offset : Nat} {text : List Char}
    {pieces : List (List Char)} {args : List (List Term)}
    (ok : argumentsFrom read whole offset text pieces = .ok args) :
    (pieces ≠ [] → args ≠ []) ∧ [] ∉ args := by
  induction pieces generalizing offset text args with
  | nil =>
      cases ok
      exact ⟨fun some_ => absurd rfl some_, List.not_mem_nil⟩
  | cons piece rest ih =>
      unfold argumentsFrom at ok
      dsimp only at ok
      split at ok
      · cases ok
      · rename_i visible
        split at ok
        · rename_i us first
          obtain ⟨args', others, rfl⟩ := ok_of_map ok
          refine ⟨fun _ => List.cons_ne_nil us args', fun mem => ?_⟩
          rcases List.mem_cons.1 mem with rfl | mem
          · exact visible (attentive _ _ first)
          · exact (ih others).2 mem
        · split at ok
          · cases ok
          · rename_i more
            obtain ⟨nonempty, filled⟩ := ih ok
            exact ⟨fun _ => nonempty (by simpa using more), filled⟩

theorem arguments_filled {offset : Nat} {inner : List Char} {args : List (List Term)}
    (ok : arguments read offset inner = .ok args) : args ≠ [] ∧ [] ∉ args := by
  obtain ⟨piece, rest, pieces, -⟩ := exists_splitOn inner
  rw [arguments, pieces] at ok
  obtain ⟨nonempty, filled⟩ := argumentsFrom_filled attentive ok
  exact ⟨nonempty (List.cons_ne_nil piece rest), filled⟩

theorem framed_roundTerm {before : List Char} {offset : Nat} {inner : List Char}
    (visible : Text.allBlank inner = false) {found : List Char × Term}
    (ok : roundTerm read before offset inner = .ok found) : found.2.Framed := by
  unfold roundTerm at ok
  dsimp only at ok
  split at ok
  · obtain ⟨args, reads, rfl⟩ := ok_of_map ok
    obtain ⟨nonempty, filled⟩ := arguments_filled attentive reads
    exact ⟨nonempty, filled, forall_none⟩
  · obtain ⟨us, reads, rfl⟩ := ok_of_map ok
    refine ⟨List.cons_ne_nil us [], fun mem => ?_, forall_none⟩
    rw [← List.mem_singleton.1 mem] at reads
    rw [attentive _ _ reads] at visible
    cases visible

theorem framed_curlyTerm {offset : Nat} {inner : List Char} {modifiersAt : Nat}
    {text : List Char} {t : Term} (ok : curlyTerm read offset inner modifiersAt text = .ok t) :
    t.Framed := by
  unfold curlyTerm at ok
  split at ok
  · cases ok
  · rename_i members reads
    obtain ⟨modifiers, -, rfl⟩ := ok_of_map ok
    obtain ⟨nonempty, filled⟩ := arguments_filled attentive reads
    exact ⟨nonempty, filled, forall_none⟩

omit attentive in
theorem framed_withFlavorBehind (front : List Char) {t : Term} (used : Nat) {lead : List Lexeme}
    (closed : ∀ l ∈ lead, l.Closed) (framed : t.Framed) :
    (withFlavorBehind front t used lead).term.Framed := by
  unfold withFlavorBehind
  split
  · rename_i f leading
    unfold leadingFlavor at leading
    split at leading
    · rename_i text rest cut
      cases leading
      have mem : Lexeme.flavor text ∈ lead := List.mem_of_mem_drop (cut ▸ List.mem_cons_self)
      have closes : Closed (some (String.ofList text)) := by
        intro f same
        cases same
        rw [String.toList_ofList]
        exact closed _ mem
      obtain ⟨holds, filled, -⟩ := framed
      cases t with
      | pool | call | group => exact ⟨holds, filled, closes⟩
      | _ => exact absurd rfl holds
    · cases leading
  · exact framed

/-- What is found in brackets with something in them. -/
theorem framed_find {b : Bracket} {before : List Char} {offset : Nat} {inner : List Char}
    (visible : Text.allBlank inner = false) {lead : List Lexeme} (closed : ∀ l ∈ lead, l.Closed)
    {found : Found} (ok : find b read before offset inner lead = .ok found) :
    found.term.Framed := by
  unfold find at ok
  cases b with
  | round =>
      obtain ⟨pair, round, rfl⟩ := ok_of_map ok
      exact framed_withFlavorBehind _ _ closed (framed_roundTerm attentive visible round)
  | curly =>
      obtain ⟨t, curly, rfl⟩ := ok_of_map ok
      exact framed_withFlavorBehind _ _ closed (framed_curlyTerm attentive curly)

end Group

namespace Strand

theorem term_not_mem_scan (t : Term) (read ls : List Lexeme) : .term t ∉ Link.scan read ls := by
  intro mem
  obtain ⟨c, -, same⟩ := List.mem_map.1 mem
  cases c <;> cases same

/-- The terms among the links of a strand are its terms. -/
theorem All.of_links {P : Term → Prop} {s : Strand} (all : s.All P) {t : Term}
    (mem : .term t ∈ s.links) : P t := by
  induction s with
  | plain text => exact absurd mem (term_not_mem_scan t _ _)
  | term before t' rest ih =>
      rcases List.mem_append.1 mem with mem | mem
      · exact absurd mem (term_not_mem_scan t _ _)
      · rcases List.mem_cons.1 mem with same | mem
        · cases same
          exact all.1
        · exact ih all.2 mem

variable {read : SubReader} (attentive : Attentive read)
include attentive

theorem framed_ofOutline? {b : Bracket} {used : Nat} {o : Outline} {s : Strand}
    (closed : ∀ l ∈ o.lexemes b, l.Closed) (found : ofOutline? b read used o = some s) :
    s.All Framed := by
  induction o generalizing used s with
  | plain text =>
      cases found
      trivial
  | broken text e => cases found
  | group before inner rest ih =>
      have behind : ∀ l ∈ rest.lexemes b, l.Closed := fun l mem =>
        closed l (by rw [Outline.lexemes]; simp [mem])
      have lead : ∀ l ∈ rest.lead, l.Closed := by
        intro l mem
        refine behind l ?_
        cases rest with
        | plain text | broken text e => exact mem
        | group before inner rest => exact List.mem_append_left _ mem
      unfold ofOutline? at found
      split at found
      · cases found
      · rename_i visible
        obtain ⟨f, ok, found⟩ := Option.bind_eq_some_iff.1 found
        obtain ⟨others, reads, rfl⟩ := Option.map_eq_some_iff.1 found
        exact ⟨Group.framed_find attentive (Bool.eq_false_iff.2 visible) lead (eq_ok_of_toOption ok),
          ih behind reads⟩

theorem framed_read? {b : Bracket} {text : List Char} {s : Strand}
    (found : read? b read text = some s) : s.All Framed := by
  have scans := scans_of_read found
  refine framed_ofOutline? attentive (fun l mem => ?_) found
  rw [scans.lexemes] at mem
  exact scans.closed (Lexeme.closed_scan text) l mem

end Strand

namespace Formula

theorem framed_links? {read : SubReader} (attentive : Attentive read) {text : List Char}
    {links : List Link} (found : links? read text = some links) {t : Term}
    (mem : .term t ∈ links) : t.Framed := by
  obtain ⟨s, round, found⟩ := Option.bind_eq_some_iff.1 found
  obtain ⟨s', curly, rfl⟩ := Option.map_eq_some_iff.1 found
  refine Strand.All.of_links (Strand.all_expand (fun text s reads => ?_) ?_ curly) mem
  · exact Strand.framed_read? attentive reads
  · exact Strand.framed_read? attentive round

/-- Only white space is read as nothing. -/
theorem attentive_reader (depth : Nat) : Attentive (reader depth) := by
  intro offset text ok
  obtain ⟨ps, pieces, none⟩ := ok_of_map ok
  obtain rfl : ps = [] := List.map_eq_nil_iff.1 none
  cases depth with
  | zero => cases pieces
  | succ depth =>
      cases cover_piecesWith pieces with
      | gap blank => exact blank

/-- **Groups, calls and pools that were read have something in them**, at every level of a formula,
and no bracket in their flavor closes it. -/
theorem framed_read {formula : String} {ts : List Term} (ok : read formula = .ok ts) :
    Everywhere FramedAll ts := by
  have reads : reads? (formula.toList.length + 1) formula.toList = some ts :=
    congrArg Except.toOption ok
  refine everywhere_reads? (fun depth text links us found _ settles t mem nested => ?_) reads
  have term := Link.mem_of_terms (Piece.mem_of_settle? settles mem nested) nested
  exact framed_links? (attentive_reader depth) found term

end Formula

/-! ## Terms that were read -/

namespace Term

/-- Nothing of the term itself is evaluated.  The numbers of dice are in range, and pools can only be
selected and scored. -/
def Fresh : Term → Prop
  | dice rolled evaluated _ => rolled.rolls = [] ∧ evaluated = false ∧ rolled.dice.Admitted
  | pool _ modifiers results evaluated _ =>
      results = [] ∧ evaluated = false ∧ ∀ m ∈ modifiers, m.isSelective = true ∧ m.Admitted
  | _ => True

/-- What is known of the terms of one level once they were read. -/
structure Parsed (ts : List Term) : Prop where
  framed : FramedAll ts
  fresh : ∀ t ∈ ts, t.Fresh
  cutOff : ∀ t ∈ ts, t.CutOff
  waiting : FragmentsFrom (fun text prior next =>
    Text.Trimmed text.toList ∧ Fragment.Waits text prior next) none ts

end Term

namespace Formula

theorem fresh_read {formula : String} {ts : List Term} (ok : read formula = .ok ts) :
    Everywhere (fun us => ∀ t ∈ us, t.Fresh) ts := by
  refine all_read ⟨fun leaf => ?_, fun _ _ _ => trivial⟩ (fun _ => trivial) (fun _ => trivial) ?_ ok
  · cases leaf with
    | number value flavor => trivial
    | dice admitted flavor => exact ⟨rfl, rfl, admitted⟩
  · intro E t bracketed
    cases bracketed with
    | pool inside selective admitted => exact ⟨rfl, rfl, fun m mem => ⟨selective m mem, admitted m mem⟩⟩
    | call inside | group inside => trivial

/-- Fragments wait for what is beside them. -/
theorem waits_read {formula : String} {ts : List Term} (ok : read formula = .ok ts) :
    Everywhere (FragmentsFrom (fun text prior next =>
      Text.Trimmed text.toList ∧ Fragment.Waits text prior next) none) ts :=
  everywhere_read (fun _ _ sound settles => Piece.waits_settle? sound settles) ok

theorem parsed_read {formula : String} {ts : List Term} (ok : read formula = .ok ts) :
    Everywhere Parsed ts := by
  have all := ((framed_read ok).and (fresh_read ok)).and ((cutOff_read ok).and (waits_read ok))
  exact all.mono fun us ⟨⟨framed, fresh⟩, cutOff, waiting⟩ => ⟨framed, fresh, cutOff, waiting⟩

end Formula

/-! ## Clear formulas -/

namespace Term

/-- The text of the term itself leaves nothing out.  A count of zero is not written, flavor ends at
the first bracket that closes it, and a fragment is read again if nothing divides it and it is no
number by itself. -/
def Told : Term → Prop
  | number x flavor => x.isFinite = true ∧ (x < 0 → flavor = none) ∧ Closed flavor
  | dice rolled _ flavor => (∀ m ∈ rolled.dice.modifiers, m.countsNone = false) ∧ Closed flavor
  | pool _ modifiers _ _ _ => ∀ m ∈ modifiers, m.countsNone = false
  | fragment text =>
      Fragment.Undivided text ∧ Fragment.number? (Fragment.splitFlavor text.toList).1 = none ∧
        Fragment.isNumeric text.toList = false
  | _ => True

/-- Nothing is lost if the terms of one level are written one behind the other. -/
structure Clear (ts : List Term) : Prop where
  joined : ts.IsChain Joined
  signs : SignsBound true ts
  told : ∀ t ∈ ts, t.Told

/-- **Terms that were read are legible if they are clear.** -/
theorem legible_of_clear {ts : List Term} (clear : Clear ts) (parsed : Parsed ts) : Legible ts := by
  refine ⟨clear.joined, clear.signs, parsed.waiting.imp fun _ _ _ waits => waits.2, fun t mem => ?_⟩
  have told := clear.told t mem
  have fresh := parsed.fresh t mem
  cases t with
  | number x flavor => exact ⟨told.1, told.2.1, parsed.cutOff _ mem rfl, told.2.2⟩
  | operator op => trivial
  | dice rolled evaluated flavor =>
      obtain ⟨rolls, unrolled, admitted⟩ := fresh
      have writable : rolled.dice.Writable := by
        rw [← rolled.dice.reread_eq_iff.2 told.1]
        exact rolled.dice.writable_reread admitted
      exact ⟨rolls, unrolled, writable, parsed.cutOff _ mem rfl, told.2⟩
  | pool members modifiers results evaluated flavor =>
      obtain ⟨holds, filled, closed⟩ := parsed.framed _ mem rfl
      obtain ⟨none, unscored, selective⟩ := fresh
      refine ⟨⟨holds, filled⟩, fun m member => ?_, none, unscored, closed⟩
      obtain ⟨selects, admitted⟩ := selective m member
      exact ⟨selects, Modifier.writable_of_admitted admitted (told m member)⟩
  | call f args flavor =>
      obtain ⟨holds, filled, closed⟩ := parsed.framed _ mem rfl
      exact ⟨⟨holds, filled⟩, closed⟩
  | group inner flavor =>
      obtain ⟨-, filled, closed⟩ := parsed.framed _ mem rfl
      exact ⟨fun nothing => filled (nothing ▸ List.mem_cons_self), closed⟩
  | fragment text =>
      obtain ⟨prior, next, trimmed, -⟩ := parsed.waiting.mem mem
      exact ⟨trimmed, told⟩

/-! ## Deciding -/

instance (flavor : Option String) : Decidable (Closed flavor) :=
  inferInstanceAs (Decidable (∀ f ∈ flavor, ']' ∉ f.toList))

instance : (t : Term) → Decidable t.Told
  | .number _ _ | .dice _ _ _ => instDecidableAnd
  | .pool _ modifiers _ _ _ => List.decidableBAll _ modifiers
  | .fragment _ => instDecidableAnd
  | .operator _ | .call _ _ _ | .group _ _ => isTrue trivial

/-- The value of a number without flavor. -/
def bare? : Term → Option Float
  | number x none => some x
  | _ => none

theorem bare?_eq_some {t : Term} {x : Float} : t.bare? = some x ↔ t = .number x none := by
  cases t with
  | number y flavor => cases flavor <;> simp [bare?]
  | _ => simp [bare?]

theorem forall_bare {head : Option Term} :
    (∀ x ∈ head.bind bare?, x < 0) ↔ ∀ x, head = some (.number x none) → x < 0 := by
  cases head with
  | none => simp
  | some t => simp [bare?_eq_some]

instance decidableSignsBound :
    (expecting : Bool) → (ts : List Term) → Decidable (SignsBound expecting ts)
  | _, [] => isTrue trivial
  | expecting, .operator op :: rest =>
      have := decidableSignsBound true rest
      decidable_of_iff ((op = .subtract → expecting = true →
        ∀ x ∈ rest.head?.bind bare?, x < 0) ∧ SignsBound true rest) (by
          rw [SignsBound, forall_bare])
  | _, .number _ _ :: rest | _, .dice _ _ _ :: rest | _, .pool _ _ _ _ _ :: rest
  | _, .call _ _ _ :: rest | _, .group _ _ :: rest | _, .fragment _ :: rest =>
      decidableSignsBound false rest

instance : DecidablePred Clear := fun ts =>
  decidable_of_iff (ts.IsChain Joined ∧ SignsBound true ts ∧ ∀ t ∈ ts, t.Told)
    ⟨fun ⟨joined, signs, told⟩ => ⟨joined, signs, told⟩,
      fun ⟨joined, signs, told⟩ => ⟨joined, signs, told⟩⟩

end Term

namespace Formula

/-- **What was read can be written and is read again**: a formula that is clear at every level is
read from its own text as equal terms. -/
theorem read_rewritten {formula : String} {ts : List Term} (ok : read formula = .ok ts)
    (clear : Everywhere Clear ts) :
    ∃ ts', read (formulaText ts) = .ok ts' ∧ beqAll ts' ts = true :=
  read_legible ((clear.and (parsed_read ok)).mono fun _ ⟨clear, parsed⟩ =>
    legible_of_clear clear parsed)

/-- Blanks, capitals, a long keyword and a count that is left out are written another way, and come
to the same terms.  A fragment keeps waiting for the group in front of it. -/
theorem read_rewritten_nested :
    ∃ ts, read "-( 2 D6K1+1d4 )[fire]*max( 1d8,3) - -2.50 -\x7b1d6 , 2\x7dkl1[a[b] + ( 1D4 ) D6" =
        .ok ts ∧
      formulaText ts =
          "-(2d6kh + 1d4)[fire] * max(1d8, 3) - -2.5 - \x7b1d6, 2\x7dkl[a[b] + (1d4)D6" ∧
        ∃ ts', read (formulaText ts) = .ok ts' ∧ beqAll ts' ts = true := by
  have reads : ∃ ts ∈ (read
      "-( 2 D6K1+1d4 )[fire]*max( 1d8,3) - -2.50 -\x7b1d6 , 2\x7dkl1[a[b] + ( 1D4 ) D6").toOption,
      formulaText ts =
          "-(2d6kh + 1d4)[fire] * max(1d8, 3) - -2.5 - \x7b1d6, 2\x7dkl[a[b] + (1d4)D6" ∧
        Everywhere Clear ts := by
    decide +kernel
  obtain ⟨ts, found, text, clear⟩ := reads
  have accepted := eq_ok_of_toOption (Option.mem_def.1 found)
  exact ⟨ts, accepted, text, read_rewritten accepted clear⟩

end Formula

end DiceFormula
