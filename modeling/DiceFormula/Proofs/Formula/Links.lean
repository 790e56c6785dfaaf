/-
# DiceFormula.Proofs.Formula.Links -- formulas as chains of links

Once the groups of a formula are read and its text is cut at the operators, it is
a chain of operators, operands and terms, its `links?`.  What the formula is read
as depends on the links only (`toOption_piecesWith`).

An operator outside of all brackets is a barrier: the links of a text are those of
what stands on either side with the operator between them (`links?_append`).
-/
import DiceFormula.Formula.Reader
import DiceFormula.Proofs.Formula.Strand

namespace DiceFormula

set_option autoImplicit false

/-- An operator, an operand or a term of a formula. -/
inductive Link where
  | operator (op : Operator)
  | operand (text : List Char)
  | term (t : Term)

namespace Link

/-! ## Cutting text -/

def ofCut : Cut → Link
  | .operator _ op => .operator op
  | .operand _ text => .operand text

/-- The links of lexemes, behind other lexemes in reverse. -/
def scan (read ls : List Lexeme) : List Link := (Cut.scan 0 read ls).map ofCut

/-- The links of a text without groups. -/
def ofText (text : List Char) : List Link := scan [] (Lexeme.scan text)

/-- The operand that a text is, if there is more than white space in it. -/
def operand? (text : List Char) : List Link :=
  if Text.allBlank text then [] else [.operand (Text.trim text)]

theorem ofCut_operand? (start : Nat) (text : List Char) :
    (Cut.operand? start text).map ofCut = operand? text := by
  unfold Cut.operand? operand?
  split <;> rfl

theorem ofCut_scan (start start' : Nat) (read ls : List Lexeme) :
    (Cut.scan start read ls).map ofCut = (Cut.scan start' read ls).map ofCut := by
  induction ls generalizing start start' read with
  | nil => rw [Cut.scan, Cut.scan, ofCut_operand?, ofCut_operand?]
  | cons l ls ih =>
      rw [Cut.scan, Cut.scan]
      split
      · rw [List.map_append, List.map_append, ofCut_operand?, ofCut_operand?, List.map_cons,
          List.map_cons, ih]
        rfl
      · exact ih _ _ _

theorem scan_nil (read : List Lexeme) : scan read [] = operand? (Lexeme.textAll read.reverse) :=
  ofCut_operand? _ _

theorem scan_operator (read ls : List Lexeme) {l : Lexeme} {op : Operator}
    (operator : Cut.operator? l = some op) :
    scan read (l :: ls) = operand? (Lexeme.textAll read.reverse) ++ .operator op :: scan [] ls := by
  unfold scan
  rw [Cut.scan, operator, List.map_append, ofCut_operand?, List.map_cons]
  congr 2
  exact ofCut_scan _ _ _ _

theorem scan_other (read ls : List Lexeme) {l : Lexeme} (other : Cut.operator? l = none) :
    scan read (l :: ls) = scan (l :: read) ls := by
  unfold scan
  rw [Cut.scan, other]

theorem scan_append (read ls ls' : List Lexeme) {l : Lexeme} {op : Operator}
    (operator : Cut.operator? l = some op) :
    scan read (ls ++ l :: ls') = scan read ls ++ .operator op :: scan [] ls' := by
  induction ls generalizing read with
  | nil => rw [List.nil_append, scan_operator _ _ operator, scan_nil]
  | cons l' ls ih =>
      rw [List.cons_append]
      cases cut : Cut.operator? l' with
      | none => rw [scan_other _ _ cut, scan_other _ _ cut, ih]
      | some op' =>
          rw [scan_operator _ _ cut, scan_operator _ _ cut, ih, List.append_assoc,
            List.cons_append]

theorem operator?_of_isBlank {c : Char} (blank : Text.isBlank c = true) :
    Cut.operator? (.char c) = none := by
  show Operator.ofSymbol? c = none
  unfold Operator.ofSymbol?
  split
  · cases blank
  · cases blank
  · cases blank
  · cases blank
  · rfl

/-- Lexemes that are no operators are an operand. -/
theorem scan_operand (read ls : List Lexeme) (other : ∀ l ∈ ls, Cut.operator? l = none) :
    scan read ls = operand? (Lexeme.textAll (read.reverse ++ ls)) := by
  induction ls generalizing read with
  | nil => rw [scan_nil, List.append_nil]
  | cons l ls ih =>
      rw [scan_other _ _ (other l List.mem_cons_self),
        ih (l :: read) fun l' mem => other l' (List.mem_cons_of_mem l mem)]
      simp

theorem ofText_blank {text : List Char} (blank : Text.allBlank text = true) : ofText text = [] := by
  have lexemes := (Matched.ofBlank text blank).scan_text_self
  rw [Matched.ofBlank, Matched.text_ofPlain, Matched.lexemes_ofPlain] at lexemes
  rw [ofText, lexemes, scan_operand]
  · simp [Lexeme.textAll, List.flatMap_map, Lexeme.text, operand?, blank]
  · intro l mem
    obtain ⟨c, member, rfl⟩ := List.mem_map.1 mem
    exact operator?_of_isBlank (List.all_eq_true.1 blank c member)

/-! ## Terms -/

/-- The terms of links.  A minus sign where an operand is expected belongs to the
number behind it. -/
def terms (expecting : Bool) : List Link → List Term
  | [] => []
  | .operator .subtract :: .operand text :: rest =>
      if expecting && Fragment.isNumeric text then
        .fragment (String.ofList ('-' :: text)) :: terms false rest
      else .operator .subtract :: .fragment (String.ofList text) :: terms false rest
  | .operator op :: rest => .operator op :: terms true rest
  | .operand text :: rest => .fragment (String.ofList text) :: terms false rest
  | .term t :: rest => t :: terms false rest

/-- Links that start with no operand. -/
def Detached (links : List Link) : Prop := ∀ text rest, links ≠ .operand text :: rest

theorem detached_nil : Detached [] := by
  intro text rest same
  cases same

theorem detached_operator (op : Operator) (links : List Link) :
    Detached (.operator op :: links) := by
  intro text rest same
  cases same

theorem detached_term (t : Term) (links : List Link) : Detached (.term t :: links) := by
  intro text rest same
  cases same

theorem terms_operator (expecting : Bool) (op : Operator) {links : List Link}
    (detached : op = .subtract → Detached links) :
    terms expecting (.operator op :: links) = .operator op :: terms true links := by
  rw [terms]
  exact fun text rest starts subtracts => detached subtracts text rest starts

/-- The pieces of cuts are the terms of their links. -/
theorem terms_cuts (expecting : Bool) (cuts : List Cut) {links : List Link}
    (detached : Detached links) :
    terms expecting (cuts.map ofCut ++ links) = Piece.terms (Cut.pieces expecting cuts).1 ++
      terms (Cut.pieces expecting cuts).2 links := by
  fun_induction Cut.pieces expecting cuts with
  | case1 expecting => rfl
  | case2 start next text rest expecting numeric span others last found ih =>
      rw [found] at ih
      rw [List.map_cons, List.map_cons, List.cons_append, List.cons_append, ofCut, ofCut, terms,
        if_pos numeric, ih]
      rfl
  | case3 start next text rest expecting numeric others last found ih =>
      rw [found] at ih
      rw [List.map_cons, List.map_cons, List.cons_append, List.cons_append, ofCut, ofCut, terms,
        if_neg numeric, ih]
      rfl
  | case4 expecting start op rest other others last found ih =>
      rw [found] at ih
      rw [List.map_cons, List.cons_append, ofCut, terms_operator, ih]
      · rfl
      · rintro rfl text behind starts
        cases rest with
        | nil => exact detached text behind starts
        | cons cut rest =>
            cases cut with
            | operator start op => cases starts
            | operand start text' => exact other start text' rest rfl rfl
  | case5 expecting start text rest others last found ih =>
      rw [found] at ih
      rw [List.map_cons, List.cons_append, ofCut, terms, ih]
      rfl

end Link

namespace Strand

/-- The links of a strand. -/
def links : Strand → List Link
  | plain text => Link.ofText text
  | term before t rest => Link.ofText before ++ .term t :: rest.links

theorem terms_of_nested (expecting : Bool) {t : Term} (links : List Link) :
    Link.terms expecting (.term t :: links) = t :: Link.terms false links := by
  rw [Link.terms]

/-- The pieces of a fragment, and of what is behind it. -/
theorem splitOperators_text (expecting : Bool) {text : List Char} {ts : List Term}
    {ps : List Piece} (terms : Piece.terms ps = fragments text ++ ts) :
    ∃ ps' expecting', Piece.terms ps' = ts ∧ ∀ links, Link.Detached links →
      Link.terms expecting' links = Piece.terms (Piece.splitOperatorsFrom expecting' ps') →
        Link.terms expecting (Link.ofText text ++ links) =
          Piece.terms (Piece.splitOperatorsFrom expecting ps) := by
  unfold fragments at terms
  split at terms
  · rename_i blank
    refine ⟨ps, expecting, terms, fun links _ same => ?_⟩
    rw [Link.ofText_blank blank, List.nil_append, same]
  · cases ps with
    | nil => cases terms
    | cons p ps =>
        obtain ⟨fragment, rfl⟩ := List.cons.inj terms
        refine ⟨ps, (Cut.pieces expecting (Cut.of p.start text)).2, rfl, fun links detached same => ?_⟩
        have cuts : Link.ofText text = (Cut.of p.start text).map Link.ofCut :=
          Link.ofCut_scan _ _ _ _
        rw [cuts, Link.terms_cuts _ _ detached, same, Piece.splitOperatorsFrom, fragment]
        dsimp only
        rw [String.toList_ofList]
        simp [Piece.terms]

/-- **The pieces of a strand that is cut at its operators are the terms of its links.** -/
theorem splitOperators_strand {s : Strand} (settled : s.Settled) (expecting : Bool)
    {ps : List Piece} (terms : Piece.terms ps = s.terms) :
    Link.terms expecting s.links = Piece.terms (Piece.splitOperatorsFrom expecting ps) := by
  induction s generalizing expecting ps with
  | plain text =>
      obtain ⟨ps', expecting', none, split⟩ :=
        splitOperators_text expecting (terms.trans (List.append_nil _).symm)
      have nothing : ps' = [] := List.map_eq_nil_iff.1 none
      have := split [] Link.detached_nil (by rw [nothing]; rfl)
      rwa [List.append_nil] at this
  | term before t rest ih =>
      obtain ⟨ps', expecting', behind, split⟩ := splitOperators_text expecting terms
      refine split _ (Link.detached_term t rest.links) ?_
      cases ps' with
      | nil => cases behind
      | cons p ps' =>
          obtain ⟨rfl, others⟩ := List.cons.inj behind
          have last := isOperator_of_isNested settled.1
          rw [terms_of_nested, ih settled.2 false others, Piece.splitOperatorsFrom]
          split
          · rename_i text fragment
            rw [fragment] at settled
            cases settled.1
          · rw [last]
            rfl

end Strand

/-! ## Settling fragments -/

namespace Piece

/-- What becomes of terms once the fragments among them are settled. -/
def settle? (ts : List Term) : Option (List Term) :=
  ((simplifyEarly (classifyEarly (ofTerms ts))).map terms).toOption

/-- A function of pieces that makes terms from terms. -/
def Steady (f : Option Term → Piece → Option Term → Piece) : Prop :=
  ∀ prior next p p', p.term = p'.term → (f prior p next).term = (f prior p' next).term

theorem head_terms {ps ps' : List Piece} (same : terms ps = terms ps') :
    ps.head?.map term = ps'.head?.map term := by
  rw [← List.head?_map, ← List.head?_map]
  exact congrArg _ same

theorem terms_mapNeighboursFrom {f : Option Term → Piece → Option Term → Piece} (steady : Steady f)
    (prior : Option Term) {ps ps' : List Piece} (same : terms ps = terms ps') :
    terms (mapNeighboursFrom f prior ps) = terms (mapNeighboursFrom f prior ps') := by
  induction ps generalizing prior ps' with
  | nil =>
      have nothing : ps' = [] := List.map_eq_nil_iff.1 same.symm
      rw [nothing]
  | cons p ps ih =>
      cases ps' with
      | nil => cases same
      | cons p' ps' =>
          obtain ⟨first, others⟩ := List.cons.inj same
          rw [mapNeighboursFrom, mapNeighboursFrom, terms, terms, List.map_cons, List.map_cons,
            head_terms others, steady prior _ p p' first, first]
          exact congrArg _ (ih (some p'.term) others)

theorem terms_mergeFrom {last last' : Piece} (first : last.term = last'.term) {ps ps' : List Piece}
    (same : terms ps = terms ps') :
    terms (mergeFrom last ps) = terms (mergeFrom last' ps') := by
  induction ps generalizing last last' ps' with
  | nil =>
      have nothing : ps' = [] := List.map_eq_nil_iff.1 same.symm
      rw [nothing]
      exact congrArg (· :: []) first
  | cons p ps ih =>
      cases ps' with
      | nil => cases same
      | cons p' ps' =>
          obtain ⟨next, others⟩ := List.cons.inj same
          rw [mergeFrom, mergeFrom, first, next]
          split
          · refine ih ?_ others
            rfl
          · exact congrArg₂ List.cons first (ih next others)

theorem terms_merge {ps ps' : List Piece} (same : terms ps = terms ps') :
    terms (merge ps) = terms (merge ps') := by
  cases ps with
  | nil =>
      have nothing : ps' = [] := List.map_eq_nil_iff.1 same.symm
      rw [nothing]
  | cons p ps =>
      cases ps' with
      | nil => cases same
      | cons p' ps' =>
          obtain ⟨first, others⟩ := List.cons.inj same
          exact terms_mergeFrom first others

theorem terms_classifyEarly {ps ps' : List Piece} (same : terms ps = terms ps') :
    terms (classifyEarly ps) = terms (classifyEarly ps') := by
  refine terms_mapNeighboursFrom (fun prior next p p' first => ?_) none same
  rw [← first]
  split
  · rfl
  · exact first

theorem terms_foldConstants {ps ps' : List Piece} (same : terms ps = terms ps') :
    terms (foldConstants ps) = terms (foldConstants ps') := by
  refine terms_mapNeighboursFrom (fun prior next p p' first => ?_) none same
  rw [← first]
  split
  · split
    · rfl
    · exact first
  · exact first

theorem term_settleEarly (prior next : Option Term) {p p' : Piece} (first : p.term = p'.term) :
    ((settleEarly prior p next).map term).toOption =
      ((settleEarly prior p' next).map term).toOption := by
  unfold settleEarly
  rw [← first]
  split
  · split
    · split
      · rename_i fragment _ _ _
        exact congrArg some first
      · rfl
    · split <;> rfl
  · exact congrArg some first

/-- The terms of pieces that could be made one by one. -/
theorem toOption_collect (p : Except FormatError Piece) (ps : List (Except FormatError Piece)) :
    (((p :: ps).mapM id).map terms).toOption = (p.map term).toOption.bind fun t =>
      ((ps.mapM id).map terms).toOption.map (t :: ·) := by
  rw [List.mapM_cons]
  cases p with
  | error e => rfl
  | ok p =>
      cases others : ps.mapM id with
      | error e => rfl
      | ok ps' => rfl

theorem terms_settleEarly (prior : Option Term) {ps ps' : List Piece} (same : terms ps = terms ps') :
    (((mapNeighboursFrom settleEarly prior ps).mapM id).map terms).toOption =
      (((mapNeighboursFrom settleEarly prior ps').mapM id).map terms).toOption := by
  induction ps generalizing prior ps' with
  | nil =>
      have nothing : ps' = [] := List.map_eq_nil_iff.1 same.symm
      rw [nothing]
  | cons p ps ih =>
      cases ps' with
      | nil => cases same
      | cons p' ps' =>
          obtain ⟨first, others⟩ := List.cons.inj same
          rw [mapNeighboursFrom, mapNeighboursFrom, head_terms others, toOption_collect,
            toOption_collect, term_settleEarly prior (ps'.head?.map term) first, first,
            ih (some p'.term) others]

/-- What is settled depends on the terms only. -/
theorem toOption_simplifyEarly (ps : List Piece) :
    ((simplifyEarly (classifyEarly ps)).map terms).toOption = settle? (terms ps) := by
  have same : terms ps = terms (ofTerms (terms ps)) := by
    simp [terms, ofTerms, Function.comp_def]
  exact terms_settleEarly none
    (terms_merge (terms_foldConstants (terms_classifyEarly same)))

end Piece

/-! ## Reading -/

namespace Formula

open Strand

/-- The links of a text, with a reader for what is in its groups. -/
def links? (read : SubReader) (text : List Char) : Option (List Link) :=
  (Strand.read? .round read text).bind fun s =>
    (s.expand (Strand.read? .curly read)).map Strand.links

theorem settled_link {s : Strand} (settled : s.Settled) {t : Term} (nested : isNested t = true)
    {s' : Strand} (settled' : s'.Settled) : (s.link t s').Settled := by
  induction s with
  | plain text => exact ⟨nested, settled'⟩
  | term before t' rest ih => exact ⟨settled.1, ih settled.2⟩

theorem settled_expand {f : List Char → Option Strand}
    (found : ∀ text s, f text = some s → s.Settled) {s s' : Strand} (settled : s.Settled)
    (expands : s.expand f = some s') : s'.Settled := by
  induction s generalizing s' with
  | plain text => exact found text s' expands
  | term before t rest ih =>
      obtain ⟨first, read, expands⟩ := Option.bind_eq_some_iff.1 expands
      obtain ⟨others, behind, rfl⟩ := Option.map_eq_some_iff.1 expands
      exact settled_link (found before first read) settled.1 (ih settled.2 behind)

/-- **What a formula is read as depends only on its links.** -/
theorem toOption_piecesWith {read : SubReader} (steady : Steady read) (offset : Nat)
    (text : List Char) :
    ((piecesWith read offset text).map Piece.terms).toOption =
      (links? read text).bind fun links => Piece.settle? (Link.terms true links) := by
  have round : split? .round read [Piece.ofText offset text] =
      (Strand.read? .round read text).map Strand.terms := by
    rw [split?_fragment steady rfl, split?_nil]
    cases Strand.read? .round read text with
    | none => rfl
    | some s => exact congrArg some (List.append_nil _)
  unfold piecesWith links?
  cases rounds : Piece.splitGroups .round read [Piece.ofText offset text] with
  | error e =>
      rw [split?, rounds] at round
      cases found : Strand.read? .round read text with
      | none => rfl
      | some s => rw [found] at round; cases round
  | ok ps =>
      rw [split?, rounds] at round
      cases found : Strand.read? .round read text with
      | none => rw [found] at round; cases round
      | some s =>
          rw [found] at round
          have settled := settled_ofOutline? found
          have curly := split?_strand (b := .curly) steady settled (Option.some.inj round)
          dsimp only
          rw [Option.bind_some]
          cases curlies : Piece.splitGroups .curly read ps with
          | error e =>
              rw [split?, curlies] at curly
              cases expanded : s.expand (Strand.read? .curly read) with
              | none => rfl
              | some s' => rw [expanded] at curly; cases curly
          | ok ps' =>
              rw [split?, curlies] at curly
              cases expanded : s.expand (Strand.read? .curly read) with
              | none => rw [expanded] at curly; cases curly
              | some s' =>
                  rw [expanded] at curly
                  have settled' := settled_expand (fun _ _ => settled_ofOutline?) settled expanded
                  have cut := splitOperators_strand settled' true (Option.some.inj curly)
                  dsimp only
                  rw [Piece.toOption_simplifyEarly, Piece.splitOperators, ← cut]
                  rfl

/-- The reader of what is in groups nested less deep than a bound. -/
def reader (depth : Nat) : SubReader := fun offset text =>
  (piecesWithin depth offset text).map Piece.terms

theorem steady_reader (depth : Nat) : Steady (reader depth) := by
  induction depth with
  | zero => exact fun offset offset' text => rfl
  | succ depth ih =>
      intro offset offset' text
      exact (toOption_piecesWith ih offset text).trans (toOption_piecesWith ih offset' text).symm

/-- What a text is read as with groups nested less deep than a bound. -/
def reads? (depth : Nat) (text : List Char) : Option (List Term) := (reader depth 0 text).toOption

theorem reads?_succ (depth : Nat) (text : List Char) :
    reads? (depth + 1) text =
      (links? (reader depth) text).bind fun links => Piece.settle? (Link.terms true links) :=
  toOption_piecesWith (steady_reader depth) 0 text

theorem read_of_reads? {text : String} {ts : List Term}
    (reads : reads? (text.toList.length + 1) text.toList = some ts) : read text = .ok ts :=
  eq_ok_of_toOption reads

end Formula

end DiceFormula
