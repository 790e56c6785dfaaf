/-
# DiceFormula.Proofs.Roll.Operands -- operands without dice

What stands between two binary operators of an arithmetic formula is an operand:
signs and a number, or signs and a group or call.  `Reading` says of one how it is
cut out of the text, what it is settled as, and which value it has when the formula
is evaluated.  A minus sign directly in front of a number is part of the number;
`Reading.negative` makes the two one term.

Operands with operators between them are evaluated without rolling dice, to what
direct calculation makes of their values (`evaluate_terms`).
-/
import DiceFormula.Proofs.Formula.Shown
import DiceFormula.Proofs.Formula.Total
import DiceFormula.Roll.Basic

namespace DiceFormula

set_option autoImplicit false

open Arithmetic

namespace Evaluation

/-- Only groups, calls and pools are resolved. -/
theorem resolve_alone {t : Term} (alone : Strand.isNested t = false) : resolve t = pure t := by
  cases t with
  | pool _ _ _ _ _ | call _ _ _ | group _ _ => cases alone
  | _ => rw [resolve] <;> simp

/-- Where there are no dice, none are rolled. -/
theorem rollAll_alone {ts : List Term} (each : ∀ t ∈ ts, rollDice t = pure t) :
    rollAll ts = pure ts := by
  induction ts with
  | nil => rfl
  | cons t ts ih =>
      rw [rollAll, each t List.mem_cons_self, pure_bind,
        ih fun u mem => each u (List.mem_cons_of_mem t mem), pure_bind]

end Evaluation

/-- An operand of a formula, from its text to its value. -/
structure Reading where
  links : List Link
  /-- the signs that stay operators, and the value behind them -/
  operand : Operand
  /-- what stands behind the signs once the formula is cut -/
  cut : Term
  /-- what that is settled as -/
  settled : Term
  cuts : ∀ ls, Link.terms true (links ++ ls) =
    operand.signs.map .operator ++ cut :: Link.terms false ls
  settles : Term.Settles cut settled
  resolves : Evaluation.resolve settled = pure (.number operand.value none)

namespace Reading

/-- A number. -/
def number (n : Numeral) (finite : n.value.isFinite = true) : Reading where
  links := [.operand n.text]
  operand := ⟨[], List.forall_mem_nil _, n.value, finite⟩
  cut := .fragment (String.ofList n.text)
  settled := .number n.value none
  cuts ls := by rw [List.singleton_append, Link.terms]; rfl
  settles := .fragment rfl fun prior next _ => by
    have opens : ∀ f, (none : Option String) = some f → '[' ∉ f.toList := forall_none
    have classified := Fragment.classifyEarly_numeral n opens prior next
    rwa [flavorChars, Term.flavorText, String.toList_empty, List.append_nil] at classified
  resolves := Evaluation.resolve_alone rfl

/-- A number with the minus sign in front of it. -/
def negative (n : Numeral) (finite : n.value.isFinite = true) : Reading where
  links := [.operator .subtract, .operand n.text]
  operand := ⟨[], List.forall_mem_nil _, -n.value, by rw [Double.isFinite_neg, finite]⟩
  cut := .fragment (String.ofList ('-' :: n.text))
  settled := .number (-n.value) none
  cuts ls := by
    rw [List.cons_append, List.singleton_append, Link.terms, Fragment.isNumeric_numeral]
    rfl
  settles := .fragment rfl fun prior next _ => Fragment.classifyEarly_negative n prior next
  resolves := Evaluation.resolve_alone rfl

/-- A group or a call that comes to a value. -/
def nested (t : Term) (x : Float) (finite : x.isFinite = true) (read : Strand.isNested t = true)
    (resolves : Evaluation.resolve t = pure (.number x none)) : Reading where
  links := [.term t]
  operand := ⟨[], List.forall_mem_nil _, x, finite⟩
  cut := t
  settled := t
  cuts ls := by rw [List.singleton_append, Link.terms]; rfl
  settles := .known (Strand.isFragment_of_isNested read)
  resolves := resolves

/-- An operand behind a sign that is not part of a number. -/
def signed (op : Operator) (additive : op.isAdditive = true) (r : Reading)
    (detached : op = .subtract → Link.Detached r.links) : Reading where
  links := .operator op :: r.links
  operand := ⟨op :: r.operand.signs, List.forall_mem_cons.2 ⟨additive, r.operand.additive⟩,
    r.operand.value, r.operand.finite⟩
  cut := r.cut
  settled := r.settled
  cuts ls := by
    rw [List.cons_append, Link.terms_kept true op, r.cuts]
    · rfl
    · rintro rfl - text rest starts
      cases links : r.links with
      | nil =>
          have cuts := r.cuts []
          rw [links, List.append_nil, Link.terms] at cuts
          exact absurd cuts.symm (List.append_ne_nil_of_right_ne_nil _ (List.cons_ne_nil _ _))
      | cons l ls' =>
          rw [links, List.cons_append] at starts
          obtain ⟨rfl, -⟩ := List.cons.inj starts
          exact absurd links (detached rfl text ls')
  settles := r.settles
  resolves := r.resolves

/-! ## Operands with operators between them -/

/-- The signs of an operand and what is made of the rest. -/
def parts (r : Reading) : List (Operator ⊕ Reading) := r.operand.signs.map .inl ++ [.inr r]

/-- The signs, operators and operands of a formula. -/
def partsAll (first : Reading) (rest : List (Operator × Reading)) : List (Operator ⊕ Reading) :=
  first.parts ++ rest.flatMap fun (op, r) => .inl op :: r.parts

/-- The terms of a formula, with a term for each operand. -/
def terms (f : Reading → Term) (ps : List (Operator ⊕ Reading)) : List Term :=
  ps.map (Sum.elim .operator f)

/-- The operand's value as a term. -/
def valueTerm (r : Reading) : Term := .number r.operand.value none

def linksAll (first : Reading) (rest : List (Operator × Reading)) : List Link :=
  first.links ++ rest.flatMap fun (op, r) => .operator op :: r.links

/-- The operators and the totals of operands. -/
def totals (rest : List (Operator × Reading)) : List (Operator × Float) :=
  rest.map fun (op, r) => (op, r.operand.total)

theorem cuts_parts (r : Reading) (ls : List Link) :
    Link.terms true (r.links ++ ls) = terms cut r.parts ++ Link.terms false ls := by
  rw [r.cuts, terms, parts, List.map_append, List.map_map]
  simp

/-- The links of a formula are cut into its operators and operands. -/
theorem cuts_partsAll (first : Reading) (rest : List (Operator × Reading)) :
    Link.terms true (first.linksAll rest) = terms cut (first.partsAll rest) := by
  have behind : Link.terms false (rest.flatMap fun (op, r) => .operator op :: r.links) =
      terms cut (rest.flatMap fun (op, r) => .inl op :: r.parts) := by
    induction rest with
    | nil => rfl
    | cons link rest ih =>
        obtain ⟨op, r⟩ := link
        rw [List.flatMap_cons, List.flatMap_cons, List.cons_append, Link.terms_kept false op (by simp),
          cuts_parts, ih, terms, terms, terms, List.cons_append, List.map_cons, List.map_append]
        rfl
  rw [linksAll, cuts_parts, behind, partsAll, terms, terms, terms, List.map_append]

theorem apart_signs (signs : List Operator) {ts : List Term} (apart : Term.Apart ts) :
    Term.Apart (signs.map .operator ++ ts) := by
  induction signs with
  | nil => exact apart
  | cons op signs ih => exact List.isChain_cons.2 ⟨fun _ _ => Or.inl rfl, ih⟩

/-- Operands with operators between them stand apart. -/
theorem apart_terms (f : Reading → Term) (first : Reading) (rest : List (Operator × Reading)) :
    Term.Apart (terms f (first.partsAll rest)) := by
  have split (r : Reading) (ps : List (Operator ⊕ Reading)) :
      terms f (r.parts ++ ps) = r.operand.signs.map .operator ++ f r :: terms f ps := by
    rw [terms, parts, List.map_append, List.map_append, List.map_map, List.append_assoc]
    rfl
  have behind : Term.Apart (terms f (rest.flatMap fun (op, r) => .inl op :: r.parts)) ∧
      ∀ t ∈ (terms f (rest.flatMap fun (op, r) => .inl op :: r.parts)).head?,
        t.isOperator = true := by
    induction rest with
    | nil => exact ⟨List.IsChain.nil, by simp [terms]⟩
    | cons link rest ih =>
        obtain ⟨op, r⟩ := link
        obtain ⟨apart, head⟩ := ih
        rw [List.flatMap_cons, List.cons_append]
        show Term.Apart (.operator op :: terms f (r.parts ++ _)) ∧ _
        rw [split]
        refine ⟨List.isChain_cons.2 ⟨fun _ _ => Or.inl rfl, apart_signs _ ?_⟩, ?_⟩
        · exact List.isChain_cons.2 ⟨fun t mem => Or.inr (head t mem), apart⟩
        · intro t mem
          cases mem
          rfl
  rw [partsAll, split]
  exact apart_signs _ (List.isChain_cons.2 ⟨fun t mem => Or.inr (behind.2 t mem), behind.1⟩)

/-- The terms of operands are settled one by one. -/
theorem settle?_partsAll (first : Reading) (rest : List (Operator × Reading)) :
    Piece.settle? (Link.terms true (first.linksAll rest)) =
      some (terms settled (first.partsAll rest)) := by
  rw [cuts_partsAll]
  refine Term.settle?_apart (apart_terms cut first rest) ?_
  rw [terms, terms, List.forall₂_map_left_iff, List.forall₂_map_right_iff, List.forall₂_same]
  rintro (op | r) -
  · exact .known rfl
  · exact r.settles

/-! ## Values -/

theorem resolveAll_terms (ps : List (Operator ⊕ Reading)) :
    Evaluation.resolveAll (terms settled ps) = pure (terms valueTerm ps) := by
  induction ps with
  | nil => rfl
  | cons p ps ih =>
      have first : Evaluation.resolve (Sum.elim .operator settled p) =
          pure (Sum.elim .operator valueTerm p) := by
        cases p with
        | inl op => exact Evaluation.resolve_alone rfl
        | inr r => exact r.resolves
      rw [terms, List.map_cons, Evaluation.resolveAll, first, pure_bind, ← terms, ih, pure_bind]
      rfl

/-- The operand with its value as a term. -/
def signedTerm (r : Reading) : SignedTerm :=
  ⟨r.operand.signs, r.operand.additive, r.valueTerm, rfl, r.operand.value, rfl, r.operand.finite⟩

theorem terms_partsAll (first : Reading) (rest : List (Operator × Reading)) :
    terms valueTerm (first.partsAll rest) =
      first.signedTerm.termsAll (rest.map fun (op, r) => (op, r.signedTerm)) := by
  have single (r : Reading) : terms valueTerm r.parts = r.signedTerm.terms := by
    rw [terms, parts, List.map_append, List.map_map]
    rfl
  rw [partsAll, terms, List.map_append, ← terms, single, SignedTerm.termsAll]
  congr 1
  induction rest with
  | nil => rfl
  | cons link rest ih =>
      obtain ⟨op, r⟩ := link
      rw [List.flatMap_cons, List.map_append, List.map_cons, ← terms, single, ih, List.map_cons,
        List.flatMap_cons]
      rfl

end Reading

namespace SignedTerm

/-- Whether a sign changes nothing. -/
def isPlain (op : Operator) : Bool := op != .subtract

/-- The operand without the plus signs in front of all other signs. -/
def strip (o : SignedTerm) : SignedTerm :=
  { o with
    signs := o.signs.dropWhile isPlain
    additive := fun op mem => o.additive op ((List.dropWhile_sublist _).subset mem) }

theorem total_strip (o : SignedTerm) : o.strip.total = o.total := by
  have signs (x : Float) (ops : List Operator) :
      (ops.dropWhile isPlain).foldr Operand.sign x = ops.foldr Operand.sign x := by
    induction ops with
    | nil => rfl
    | cons op ops ih =>
        by_cases plus : isPlain op = true
        · rw [List.dropWhile_cons_of_pos plus, ih, List.foldr_cons, Operand.sign,
            if_neg (bne_iff_ne.1 plus)]
        · rw [List.dropWhile_cons_of_neg plus]
  exact signs o.value o.signs

/-- The last term is an operand. -/
theorem exists_last (first : SignedTerm) (rest : List (Operator × SignedTerm)) :
    ∃ ts t, first.termsAll rest = ts ++ [t] ∧ t.isOperator = false := by
  rcases List.eq_nil_or_concat rest with rfl | ⟨rest, ⟨op, o⟩, rfl⟩
  · refine ⟨first.signs.map .operator, first.term, ?_, first.operand⟩
    rw [termsAll, List.flatMap_nil, List.append_nil, terms]
  · refine ⟨first.termsAll rest ++ .operator op :: o.signs.map .operator, o.term, ?_, o.operand⟩
    rw [termsAll, List.concat_eq_append, List.flatMap_append, List.flatMap_singleton]
    simp [termsAll, terms]

theorem mem_termsAll {first : SignedTerm} {rest : List (Operator × SignedTerm)} {t : Term}
    (mem : t ∈ first.termsAll rest) :
    (∃ op, t = .operator op) ∨ ∃ o ∈ first :: rest.map Prod.snd, t = o.term := by
  have operand {o : SignedTerm} (mem : t ∈ o.terms) : (∃ op, t = .operator op) ∨ t = o.term := by
    rcases List.mem_append.1 mem with sign | term
    · obtain ⟨op, -, same⟩ := List.mem_map.1 sign
      exact Or.inl ⟨op, same.symm⟩
    · exact Or.inr (List.mem_singleton.1 term)
  rcases List.mem_append.1 mem with mem | mem
  · rcases operand mem with sign | same
    · exact Or.inl sign
    · exact Or.inr ⟨first, List.mem_cons_self, same⟩
  · obtain ⟨⟨op, o⟩, link, mem⟩ := List.mem_flatMap.1 mem
    rcases List.mem_cons.1 mem with same | mem
    · exact Or.inl ⟨op, same⟩
    · rcases operand mem with sign | same
      · exact Or.inl sign
      · exact Or.inr ⟨o, List.mem_cons_of_mem _ (List.mem_map_of_mem link), same⟩

/-- Only plus signs at the start stand for nothing. -/
theorem stripStray_termsAll (first : SignedTerm) (rest : List (Operator × SignedTerm)) :
    Piece.stripStray (Piece.ofTerms (first.termsAll rest)) =
      Piece.ofTerms (first.strip.termsAll rest) := by
  have back : ((Piece.ofTerms (first.termsAll rest)).reverse.dropWhile
      fun p => p.term.isOperator).reverse = Piece.ofTerms (first.termsAll rest) := by
    obtain ⟨ts, t, split, operand⟩ := exists_last first rest
    rw [split, Piece.ofTerms, List.map_append, List.map_singleton, List.reverse_append,
      List.reverse_singleton, List.singleton_append, List.dropWhile_cons_of_neg, List.reverse_cons,
      List.reverse_reverse]
    rw [operand]
    exact Bool.false_ne_true
  have front (signs : List Operator) (ts : List Term) :
      (Piece.ofTerms (signs.map .operator ++ first.term :: ts)).dropWhile Piece.isStrayAtStart =
        Piece.ofTerms ((signs.dropWhile isPlain).map .operator ++ first.term :: ts) := by
    induction signs with
    | nil =>
        have operand : Piece.isStrayAtStart ⟨first.term, none⟩ = false := by
          have := first.operand
          unfold Piece.isStrayAtStart
          split
          · rename_i op same
            have same : first.term = .operator op := same
            rw [same] at this
            cases this
          · rfl
        exact List.dropWhile_cons_of_neg (by rw [operand]; exact Bool.false_ne_true)
    | cons op signs ih =>
        by_cases plus : isPlain op = true
        · rw [List.dropWhile_cons_of_pos plus, ← ih]
          exact List.dropWhile_cons_of_pos plus
        · rw [List.dropWhile_cons_of_neg plus]
          exact List.dropWhile_cons_of_neg plus
  obtain ⟨behind, whole⟩ : ∃ ts, ∀ o : SignedTerm,
      o.termsAll rest = o.signs.map .operator ++ o.term :: ts := by
    refine ⟨(first.termsAll rest).drop first.terms.length, fun o => ?_⟩
    rw [termsAll, termsAll, List.drop_left, terms, List.append_assoc]
    rfl
  unfold Piece.stripStray
  dsimp only
  rw [back, whole, whole, front]
  rfl

end SignedTerm

namespace Reading

/-- Values are totalled by direct calculation. -/
theorem finish_terms (first : Reading) (rest : List (Operator × Reading)) {x : Float}
    (comes : direct none first.operand.total (totals rest) = some x) :
    ∃ ts w, Evaluation.finish (terms valueTerm (first.partsAll rest)) = pure (ts, w) ∧
      w.isFinite = true ∧ Double.Alike w x := by
  have settled : Piece.Settled (Piece.ofTerms (terms valueTerm (first.partsAll rest))) := by
    intro p mem
    obtain ⟨t, member, rfl⟩ := List.mem_map.1 mem
    obtain ⟨part, -, rfl⟩ := List.mem_map.1 member
    cases part <;> rfl
  let others := rest.map fun (op, r) => (op, r.signedTerm)
  have stripped : Piece.simplifyLate (Piece.ofTerms (terms valueTerm (first.partsAll rest))) =
      .ok (Piece.ofTerms (first.signedTerm.strip.termsAll others)) := by
    rw [Piece.simplifyLate_settled settled, terms_partsAll, SignedTerm.stripStray_termsAll]
  have known (ts : List Term) : Piece.terms (Piece.ofTerms ts) = ts := by
    simp [Piece.terms, Piece.ofTerms, Function.comp_def]
  have rolled : Evaluation.rollAll (first.signedTerm.strip.termsAll others) =
      pure (first.signedTerm.strip.termsAll others) := by
    refine Evaluation.rollAll_alone fun t mem => ?_
    rcases SignedTerm.mem_termsAll mem with ⟨op, rfl⟩ | ⟨o, member, rfl⟩
    · rfl
    · rcases List.mem_cons.1 member with rfl | member
      · rfl
      · simp only [others, List.map_map] at member
        obtain ⟨link, -, rfl⟩ := List.mem_map.1 member
        rfl
  have totalled := total_agrees first.signedTerm.strip.valued (SignedTerm.valuedAll others)
  rw [SignedTerm.totals_valued, ← SignedTerm.totalAll_termsAll] at totalled
  have links : SignedTerm.totals others = totals rest := by
    rw [SignedTerm.totals, List.map_map]
    rfl
  rw [← SignedTerm.total, SignedTerm.total_strip, links] at totalled
  rw [show first.signedTerm.total = first.operand.total from rfl, comes] at totalled
  rcases totalled.cases with ⟨w, y, total, same, finite, alike⟩ | ⟨written, -, none⟩
  · cases same
    refine ⟨first.signedTerm.strip.termsAll others, w, ?_, finite, alike⟩
    rw [Evaluation.finish, stripped]
    show Evaluation.rollAll (Piece.terms _) >>= _ = _
    rw [known, rolled, pure_bind, total]
    rfl
  · cases none

/-- **Operands are evaluated without dice, to what direct calculation makes of them.** -/
theorem evaluate_terms (first : Reading) (rest : List (Operator × Reading)) {x : Float}
    (comes : direct none first.operand.total (totals rest) = some x) :
    ∃ ts w, Evaluation.evaluate (terms settled (first.partsAll rest)) = pure (ts, w) ∧
      w.isFinite = true ∧ Double.Alike w x := by
  obtain ⟨ts, w, finished, finite, alike⟩ := finish_terms first rest comes
  refine ⟨ts, w, ?_, finite, alike⟩
  rw [Evaluation.evaluate, resolveAll_terms, pure_bind, finished]

end Reading

end DiceFormula
