/-
# DiceFormula.Proofs.Formula.Opaque -- flavor behind a term

The flavor behind a formula that is read as one operand becomes the flavor of the operand, whatever
it says (`read_flavored_iff`).  While a formula is settled, flavor behind the last term stays behind
the last term and changes nothing else: each stage hands it on (`classifyEarly_flavored`,
`foldConstants_flavored`, `merge_flavored`, `settleEarly_flavored`).

Numbers and dice are an exception, because a fragment is cut where the last bracket opens
(`cutOff_read`).  So a term only `Bears` a flavor with an opening bracket if it is what a group
was read as.
-/
import DiceFormula.Proofs.Formula.Flavored
import DiceFormula.Proofs.Formula.Leaves
import DiceFormula.Proofs.Formula.Nesting

namespace DiceFormula

set_option autoImplicit false

/-! ## Terms with flavor behind them -/

namespace Term

/-- A term with flavor behind it. -/
def flavored (s : String) : Term → Term
  | fragment text => fragment (text ++ flavorText (some s))
  | t => t.withFlavor (some s)

/-- The term has no flavor, and a fragment no bracket of flavor. -/
def Unflavored : Term → Prop
  | fragment text => '[' ∉ text.toList ∧ ']' ∉ text.toList
  | t => t.flavor? = none

/-- Flavor behind the term can become its flavor: it has none, and what becomes of a fragment is
cut where the last bracket opens. -/
structure Bears (s : String) (t : Term) : Prop where
  unflavored : t.Unflavored
  opens : Strand.isNested t = true ∨ '[' ∉ s.toList

variable {s : String} {t : Term}

theorem flavored_of_settled (settled : t.isFragment = false) :
    t.flavored s = t.withFlavor (some s) := by
  cases t <;> first | rfl | cases settled

theorem unflavored_of_settled (settled : t.isFragment = false) :
    t.Unflavored ↔ t.flavor? = none := by
  cases t <;> first | rfl | cases settled

@[simp] theorem isFragment_flavored : (t.flavored s).isFragment = t.isFragment := by
  cases t <;> rfl

@[simp] theorem isIntermediate_flavored : (t.flavored s).isIntermediate = t.isIntermediate := by
  cases t <;> rfl

@[simp] theorem isFoldable_flavored : (t.flavored s).isFoldable = t.isFoldable := by
  cases t <;> rfl

@[simp] theorem total?_flavored : (t.flavored s).total? = t.total? := by
  cases t with
  | dice rolled evaluated flavor => cases evaluated <;> rfl
  | pool members modifiers results evaluated flavor => cases evaluated <;> rfl
  | _ => rfl

@[simp] theorem constant?_flavored : (t.flavored s).constant? = t.constant? := by
  cases t <;> simp [flavored, withFlavor, constant?]

end Term

/-! ## Classification -/

namespace Fragment

open Term

variable {s text : String}

theorem toList_flavored : (text ++ flavorText (some s)).toList =
    text.toList ++ [] ++ '[' :: s.toList ++ [']'] := by
  rw [flavorText, String.toList_append, String.toList_append, String.toList_append]
  simp

/-- A text that is something without flavor has no bracket of flavor. -/
theorem unflavored_of_readable (trimmed : Text.Trimmed text.toList)
    (readable : Readable (splitFlavor text.toList).1)
    (bare : (splitFlavor text.toList).2.map String.ofList = none) :
    (fragment text).Unflavored := by
  rcases splitFlavor_cases trimmed with split | ⟨front, flavor, -, -, split⟩
  · rw [split] at readable
    exact ⟨not_mem_of_readable readable (by decide) rfl,
      not_mem_of_readable readable (by decide) rfl⟩
  · rw [split] at bare
    cases bare

theorem bears_classifyEarly (trimmed : Text.Trimmed text.toList) {prior next : Option Term}
    (bears : (classifyEarly text prior next).Bears s) : (fragment text).Bears s := by
  rcases classifyEarly_cases text prior next with same | leaf
  · rwa [same] at bears
  · refine ⟨?_, .inr (bears.opens.resolve_left (by rw [leaf.isNested]; exact Bool.false_ne_true))⟩
    have bare := (unflavored_of_settled leaf.isFragment).1 bears.unflavored
    rcases flavor?_classifyEarly text prior next with same | ⟨readable, flavor⟩
    · rw [same] at leaf
      cases leaf
    · exact unflavored_of_readable trimmed readable (flavor.symm.trans bare)

theorem bears_classify (trimmed : Text.Trimmed text.toList) {t : Term}
    (ok : classify text = .ok t) (bears : t.Bears s) : (fragment text).Bears s := by
  have leaf := leaf_classify ok
  have bare := (unflavored_of_settled leaf.isFragment).1 bears.unflavored
  have readable : Readable (splitFlavor text.toList).1 := by
    rw [← classify_iff, String.ofList_toList]
    exact ⟨t, ok⟩
  exact ⟨unflavored_of_readable trimmed readable ((flavor?_classify ok).symm.trans bare),
    .inr (bears.opens.resolve_left (by rw [leaf.isNested]; exact Bool.false_ne_true))⟩

section Bears

variable (trimmed : Text.Trimmed text.toList) (bears : (fragment text).Bears s)
include trimmed bears

theorem splitFlavor_bears : splitFlavor text.toList = (text.toList, none) :=
  splitFlavor_plain trimmed fun last => bears.unflavored.2 (List.mem_of_getLast? last)

theorem splitFlavor_flavored :
    splitFlavor (text ++ flavorText (some s)).toList = (text.toList, some s.toList) := by
  have opens := bears.opens.resolve_left Bool.false_ne_true
  rw [toList_flavored, splitFlavor_behind trimmed [] opens]
  simp [Text.trimEnd]

/-- What is certain of a text, with flavor behind it. -/
theorem classifyEarly_flavored (prior next : Option Term) :
    classifyEarly (text ++ flavorText (some s)) prior next =
      (classifyEarly text prior next).flavored s := by
  unfold classifyEarly
  rw [splitFlavor_bears trimmed bears, splitFlavor_flavored trimmed bears]
  dsimp only
  rw [Option.map_some, String.ofList_toList]
  split
  · rfl
  · split
    · split <;> rfl
    · rfl

/-- What a text is, with flavor behind it. -/
theorem classify_flavored {t : Term} (ok : classify text = .ok t) :
    classify (text ++ flavorText (some s)) = .ok (t.flavored s) := by
  unfold classify at ok ⊢
  rw [splitFlavor_bears trimmed bears] at ok
  rw [splitFlavor_flavored trimmed bears]
  dsimp only at ok ⊢
  rw [Option.map_some, String.ofList_toList]
  cases number : number? text.toList with
  | some x =>
      rw [number] at ok
      cases ok
      rfl
  | none =>
      rw [number] at ok
      dsimp only at ok ⊢
      cases dice : Dice.read? text.toList with
      | some d =>
          rw [dice] at ok
          cases ok
          rfl
      | none =>
          rw [dice] at ok
          dsimp only at ok
          split at ok <;> cases ok

end Bears

end Fragment

/-! ## Merging -/

namespace Term

variable {s : String} {a b : Term}

theorem endsWithFlavor_eq_false {fragment : String} (closes : ']' ∉ fragment.toList) :
    endsWithFlavor fragment = false := by
  refine decide_eq_false fun last => closes ?_
  have mem := List.mem_of_getLast? last
  rw [Text.trimEnd, List.mem_reverse] at mem
  exact List.mem_reverse.1 ((List.dropWhile_sublist _).mem mem)

theorem mergedFlavor_eq (flavor : Option String) {fragment : String}
    (closes : ']' ∉ fragment.toList) : mergedFlavor flavor fragment = flavorText flavor := by
  rw [mergedFlavor, endsWithFlavor_eq_false closes]
  rfl

theorem eq_none_of_flavorText {flavor : Option String}
    (opens : '[' ∉ (flavorText flavor).toList) : flavor = none := by
  cases flavor with
  | none => rfl
  | some f =>
      rw [flavorText, String.toList_append, String.toList_append] at opens
      exact absurd (by simp) opens

/-- A value that was merged to a text without flavor has none. -/
theorem bare_of_merged {flavor : Option String} {text fragment : String}
    (unflavored : (Term.fragment (text ++ mergedFlavor flavor fragment)).Unflavored)
    (inside : fragment.toList ⊆ text.toList) : flavor = none := by
  obtain ⟨opens, closes⟩ := unflavored
  rw [String.toList_append, List.mem_append, not_or] at opens closes
  rw [mergedFlavor_eq _ fun mem => closes.1 (inside mem)] at opens
  exact eq_none_of_flavorText opens.2

theorem bears_merged? {text : String} (merges : merged? a b = some text)
    (bears : (fragment text).Bears s) : b.Bears s := by
  refine ⟨?_, .inr (bears.opens.resolve_left Bool.false_ne_true)⟩
  unfold merged? at merges
  split at merges
  · obtain ⟨x, total, rfl⟩ := Option.map_eq_some_iff.1 merges
    have settled : b.isFragment = false := by
      cases b <;> first | rfl | cases total
    refine (unflavored_of_settled settled).2 (bare_of_merged bears.unflavored ?_)
    rw [String.toList_append]
    exact List.subset_append_left _ _
  · obtain ⟨x, -, rfl⟩ := Option.map_eq_some_iff.1 merges
    obtain ⟨opens, closes⟩ := bears.unflavored
    dsimp only at opens closes
    simp only [String.toList_append, List.mem_append, not_or] at opens closes
    exact ⟨opens.1.2, closes.1.2⟩
  · cases merges

/-- What two terms are merged to, with flavor behind the second. -/
theorem merged?_flavored
    (bears : ∀ text, merged? a b = some text → (fragment text).Bears s) :
    merged? a (b.flavored s) = (merged? a b).map (· ++ flavorText (some s)) := by
  cases behind : b.isFragment with
  | true =>
      -- a value in front of the fragment has no flavor, or its flavor would be in the merged text
      obtain ⟨text, rfl⟩ : ∃ text, b = fragment text := by
        cases b <;> first | exact ⟨_, rfl⟩ | cases behind
      rw [merged?_fragment] at bears
      rw [flavored, merged?_fragment, merged?_fragment]
      cases total : a.total? with
      | none => rfl
      | some x =>
          rw [total] at bears
          have bare := bare_of_merged (bears _ rfl).unflavored (List.Subset.refl _)
          simp [bare, mergedFlavor_none, String.append_assoc]
  | false =>
      cases front : a.isFragment with
      | true =>
          obtain ⟨text, rfl⟩ : ∃ text, a = fragment text := by
            cases a <;> first | exact ⟨_, rfl⟩ | cases front
          rw [merged?] at bears
          rw [merged?, merged?, total?_flavored]
          cases total : b.total? with
          | none => rfl
          | some x =>
              rw [total] at bears
              have unflavored := (bears _ rfl).unflavored
              have bare := bare_of_merged unflavored (by simp)
              have closes : ']' ∉ text.toList := fun mem => unflavored.2 (by simp [mem])
              have flavor : (b.flavored s).flavor? = some s := by
                cases b <;> first | rfl | cases total
              simp [flavor, bare, mergedFlavor_eq _ closes, flavorText]
      | false =>
          rw [Term.merged?_settled front behind, Term.merged?_settled front (by simp [behind])]
          rfl

end Term

namespace Piece

variable {s : String}

/-- A piece with flavor behind it. -/
def flavored (s : String) (p : Piece) : Piece :=
  { p with term := p.term.flavored s }

/-- Pieces with flavor behind the last. -/
def flavorLast (s : String) : List Piece → List Piece
  | [] => []
  | [p] => [p.flavored s]
  | p :: q :: rest => p :: flavorLast s (q :: rest)

/-- The last piece can take the flavor behind it. -/
def LastBears (s : String) (ps : List Piece) : Prop := ∀ p ∈ ps.getLast?, p.term.Bears s

theorem flavorLast_concat (ps : List Piece) (p : Piece) :
    flavorLast s (ps ++ [p]) = ps ++ [p.flavored s] := by
  induction ps with
  | nil => rfl
  | cons q ps ih =>
    cases ps with
    | nil => rfl
    | cons r ps => exact congrArg (q :: ·) ih

theorem lastBears_singleton {p : Piece} : LastBears s [p] ↔ p.term.Bears s :=
  ⟨fun bears => bears p rfl, fun bears q mem => by cases mem; exact bears⟩

theorem lastBears_cons {p : Piece} {ps : List Piece} (more : ps ≠ []) :
    LastBears s (p :: ps) ↔ LastBears s ps := by
  obtain ⟨q, rest, rfl⟩ := List.exists_cons_of_ne_nil more
  rw [LastBears, List.getLast?_cons_cons]
  rfl

theorem flavorLast_cons {p : Piece} {ps : List Piece} (more : ps ≠ []) :
    flavorLast s (p :: ps) = p :: flavorLast s ps := by
  obtain ⟨q, rest, rfl⟩ := List.exists_cons_of_ne_nil more
  rfl

/-- A stage that looks at the kind of what follows a piece, and hands on the flavor behind the
last piece, hands on flavor. -/
theorem mapNeighboursFrom_flavored {f : Option Term → Piece → Option Term → Piece}
    (blind : ∀ prior p t, f prior p (some (t.flavored s)) = f prior p (some t)) {ps : List Piece}
    (last : ∀ prior, ∀ p ∈ ps.getLast?, (f prior p none).term.Bears s →
      p.term.Bears s ∧ f prior (p.flavored s) none = (f prior p none).flavored s)
    (prior : Option Term) (bears : LastBears s (mapNeighboursFrom f prior ps)) :
    LastBears s ps ∧ mapNeighboursFrom f prior (flavorLast s ps) =
      flavorLast s (mapNeighboursFrom f prior ps) := by
  induction ps generalizing prior with
  | nil => exact ⟨bears, rfl⟩
  | cons p ps ih =>
      cases ps with
      | nil =>
          obtain ⟨bears, hands⟩ := last prior p rfl (lastBears_singleton.1 bears)
          exact ⟨lastBears_singleton.2 bears, congrArg (· :: []) hands⟩
      | cons q rest =>
          have more : mapNeighboursFrom f (some p.term) (q :: rest) ≠ [] := List.cons_ne_nil _ _
          rw [mapNeighboursFrom, lastBears_cons more] at bears
          obtain ⟨bears, behind⟩ := ih (fun prior r mem => last prior r (by
            rwa [List.getLast?_cons_cons])) _ bears
          refine ⟨(lastBears_cons (List.cons_ne_nil _ _)).2 bears, ?_⟩
          rw [flavorLast, mapNeighboursFrom, mapNeighboursFrom, flavorLast_cons more, behind]
          congr 1
          cases rest with
          | nil => exact blind _ _ _
          | cons r rest => rfl

/-- What is certain of the fragments, with flavor behind the last piece. -/
theorem classifyEarly_flavored {ps : List Piece} (trimmed : ∀ p ∈ ps.getLast?, p.term.Trimmed)
    (bears : LastBears s (classifyEarly ps)) :
    LastBears s ps ∧ classifyEarly (flavorLast s ps) = flavorLast s (classifyEarly ps) := by
  refine mapNeighboursFrom_flavored (fun prior p t => ?_) (fun prior p mem bears => ?_) none bears
  · have pending : Fragment.isPending prior (some (t.flavored s)) =
        Fragment.isPending prior (some t) := by
      simp [Fragment.isPending]
    simp only [Fragment.classifyEarly]
    rw [pending]
  · obtain ⟨t, span⟩ := p
    cases t with
    | fragment text =>
        have trimmed := trimmed _ mem text rfl
        have bears : (Term.fragment text).Bears s := Fragment.bears_classifyEarly trimmed bears
        refine ⟨bears, ?_⟩
        exact congrArg (Piece.mk · span) (Fragment.classifyEarly_flavored trimmed bears prior none)
    | _ => exact ⟨bears, rfl⟩

/-- Constant groups beside fragments, with flavor behind the last piece. -/
theorem foldConstants_flavored {ps : List Piece} (bears : LastBears s (foldConstants ps)) :
    LastBears s ps ∧ foldConstants (flavorLast s ps) = flavorLast s (foldConstants ps) := by
  refine mapNeighboursFrom_flavored (fun prior p t => ?_) (fun prior p mem bears => ?_) none bears
  · simp only [Option.any_some, Term.isFragment_flavored]
  · obtain ⟨t, span⟩ := p
    simp only [flavored, Term.isFoldable_flavored, Term.constant?_flavored] at bears ⊢
    by_cases folds : (t.isFoldable && (prior.any Term.isFragment || false)) = true
    · simp only [Option.any_none, if_pos folds] at bears ⊢
      cases value : t.constant? with
      | none =>
          rw [value] at bears
          exact ⟨bears, rfl⟩
      | some x =>
          rw [value] at bears
          have bare : t.flavor? = none := bears.unflavored
          have plain : '[' ∉ s.toList := bears.opens.resolve_left Bool.false_ne_true
          cases t with
          | group inner flavor | call f args flavor => exact ⟨⟨bare, .inr plain⟩, rfl⟩
          | _ => cases folds
    · simp only [Option.any_none, if_neg folds] at bears ⊢
      exact ⟨bears, trivial⟩

theorem merge_ne_nil (p : Piece) (ps : List Piece) : merge (p :: ps) ≠ [] := by
  induction ps generalizing p with
  | nil => exact List.cons_ne_nil _ _
  | cons q ps ih =>
      cases merges : Term.merged? p.term q.term with
      | none =>
          rw [merge_apart fun r mem => by cases mem; exact merges]
          exact List.cons_ne_nil _ _
      | some text =>
          rw [merge_merged merges]
          exact ih _

theorem merge_cons_flavored {p : Piece} {ps : List Piece} (bears : LastBears s (merge (p :: ps))) :
    LastBears s (p :: ps) ∧ merge (flavorLast s (p :: ps)) = flavorLast s (merge (p :: ps)) := by
  induction ps generalizing p with
  | nil => exact ⟨bears, rfl⟩
  | cons q ps ih =>
      cases merges : Term.merged? p.term q.term with
      | none =>
          rw [merge_apart fun r mem => by cases mem; exact merges] at bears ⊢
          have more := merge_ne_nil q ps
          obtain ⟨bears, behind⟩ := ih ((lastBears_cons more).1 bears)
          refine ⟨(lastBears_cons (List.cons_ne_nil _ _)).2 bears, ?_⟩
          rw [flavorLast_cons more, ← behind, flavorLast]
          refine merge_apart fun r mem => ?_
          cases ps with
          | nil =>
              cases mem
              rw [flavored, Term.merged?_flavored (by simp [merges]), merges]
              rfl
          | cons q' ps =>
              cases mem
              exact merges
      | some text =>
          rw [merge_merged merges] at bears ⊢
          obtain ⟨bears, behind⟩ := ih bears
          rw [← behind]
          cases ps with
          | nil =>
              have bears : (Term.fragment text).Bears s := lastBears_singleton.1 bears
              have joined : Term.merged? p.term (q.flavored s).term =
                  some (text ++ Term.flavorText (some s)) := by
                rw [flavored, Term.merged?_flavored (by simpa [merges] using bears), merges]
                rfl
              refine ⟨?_, merge_merged joined⟩
              rw [lastBears_cons (List.cons_ne_nil _ _), lastBears_singleton]
              exact Term.bears_merged? merges bears
          | cons q' ps =>
              rw [lastBears_cons (List.cons_ne_nil _ _)] at bears ⊢
              exact ⟨(lastBears_cons (List.cons_ne_nil _ _)).2 bears, merge_merged merges⟩

/-- Fragments joined with the values beside them, with flavor behind the last piece. -/
theorem merge_flavored {ps : List Piece} (bears : LastBears s (merge ps)) :
    LastBears s ps ∧ merge (flavorLast s ps) = flavorLast s (merge ps) := by
  cases ps with
  | nil => exact ⟨bears, rfl⟩
  | cons p ps => exact merge_cons_flavored bears

/-- A fragment by itself, with flavor behind it. -/
theorem settleEarly_flavored {p q : Piece} (trimmed : p.term.Trimmed)
    (settles : settleEarly none p none = .ok q) (bears : q.term.Bears s) :
    p.term.Bears s ∧ settleEarly none (p.flavored s) none = .ok (q.flavored s) := by
  obtain ⟨t, span⟩ := p
  cases t with
  | fragment text =>
      obtain ⟨t, ok, rfl⟩ := settleEarly_alone.1 settles
      have trimmed := trimmed text rfl
      have carries := Fragment.bears_classify trimmed ok bears
      exact ⟨carries, settleEarly_alone.2 ⟨_, Fragment.classify_flavored trimmed carries ok, rfl⟩⟩
  | _ =>
      cases settles
      exact ⟨bears, rfl⟩

/-- Pieces that are about to be settled, with flavor behind the last. -/
theorem simplified_flavored {ts : List Term} {z : Term} (trimmed : z.Trimmed)
    (bears : LastBears s (merge (foldConstants (classifyEarly (ofTerms (ts ++ [z])))))) :
    z.Bears s ∧ merge (foldConstants (classifyEarly (ofTerms (ts ++ [z.flavored s])))) =
      flavorLast s (merge (foldConstants (classifyEarly (ofTerms (ts ++ [z]))))) := by
  have pieces (u : Term) : ofTerms (ts ++ [u]) = ofTerms ts ++ [⟨u, none⟩] := List.map_append
  have last : ∀ p ∈ (ofTerms (ts ++ [z])).getLast?, p.term = z := by
    intro p mem
    rw [pieces, List.getLast?_concat] at mem
    cases mem
    rfl
  have flavored : ofTerms (ts ++ [z.flavored s]) = flavorLast s (ofTerms (ts ++ [z])) := by
    rw [pieces, pieces, flavorLast_concat]
    rfl
  obtain ⟨bears, merged⟩ := merge_flavored bears
  obtain ⟨bears, folded⟩ := foldConstants_flavored bears
  obtain ⟨bears, classified⟩ := classifyEarly_flavored
    (fun p mem => by rwa [last p mem]) bears
  refine ⟨?_, by rw [flavored, classified, folded, merged]⟩
  rw [pieces] at bears
  exact bears ⟨z, none⟩ List.getLast?_concat

/-- **Flavor behind a formula of one term becomes the flavor of the term.** -/
theorem settle?_flavored {ts : List Term} {z t : Term} (trimmed : ∀ u ∈ ts ++ [z], u.Trimmed)
    (settles : settle? (ts ++ [z]) = some [t]) (bears : t.Bears s) :
    z.Bears s ∧ settle? (ts ++ [z.flavored s]) = some [t.flavored s] := by
  obtain ⟨p, q, merged, whole, last, rfl⟩ := single_of_settle? trimmed settles
  obtain ⟨bears, settled⟩ := settleEarly_flavored whole last bears
  obtain ⟨bears, flavored⟩ := simplified_flavored (trimmed z (by simp))
    (by rw [merged]; exact lastBears_singleton.2 bears)
  refine ⟨bears, ?_⟩
  rw [settle?, simplifyEarly, flavored, merged]
  show (((mapNeighbours settleEarly [p.flavored s]).mapM id).map terms).toOption = _
  rw [mapNeighbours, mapNeighboursFrom, mapNeighboursFrom]
  show ((([settleEarly none (p.flavored s) none]).mapM id).map terms).toOption = _
  rw [settled]
  rfl

end Piece

/-! ## Reading -/

namespace Link

/-- The term of a link that is no sign. -/
def plainTerm : Link → Term
  | operator op => .operator op
  | operand text => .fragment (String.ofList text)
  | term t => t

/-- Without operators, links are terms one by one. -/
theorem terms_plain {expecting : Bool} {links : List Link}
    (plain : ∀ l ∈ links, l.isOperator = false) : terms expecting links = links.map plainTerm := by
  induction links generalizing expecting with
  | nil => rfl
  | cons l links ih =>
      obtain ⟨first, others⟩ := List.forall_mem_cons.1 plain
      cases l with
      | operator op => cases first
      | operand text | term t => rw [terms, ih others, List.map_cons, plainTerm]

variable {s : String}

theorem plainTerm_flavored {E : List Term → Prop} {l : Link} (sound : l.Sound E) :
    (l.flavored s.toList).plainTerm = l.plainTerm.flavored s := by
  cases l with
  | operator op => rfl
  | operand text =>
      refine congrArg Term.fragment (String.toList_inj.1 ?_)
      rw [String.toList_ofList, Fragment.toList_flavored, String.toList_ofList, Lexeme.text]
      simp
  | term t =>
      have settled := Strand.isFragment_of_isNested (Term.Bracketed.nested sound)
      rw [plainTerm, Term.flavored_of_settled settled, flavored, plainTerm, String.ofList_toList]

theorem isOperator_flavored {l : Link} (plain : l.isOperator = false) :
    (l.flavored s.toList).isOperator = false := by
  cases l <;> first | rfl | cases plain

end Link

namespace Formula

/-- What stands in brackets behind a formula of one operand becomes the flavor of the operand. -/
theorem flavored_read {f s : String} {t : Term} (trimmed : Text.Trimmed f.toList)
    (accepted : read f = .ok [t]) (operand : t.isOperator = false) (bare : t.flavor? = none)
    (closes : ']' ∉ s.toList)
    (behind : Strand.isNested t = true ∨ f.toList.head? ≠ some '-' ∧ '[' ∉ s.toList) :
    read (f ++ "[" ++ s ++ "]") = .ok [t.withFlavor (some s)] := by
  have settled := settled_of_read accepted
  have bears : t.Bears s :=
    ⟨(Term.unflavored_of_settled settled).2 bare, behind.imp_right And.right⟩
  have chars : (f ++ "[" ++ s ++ "]").toList = f.toList ++ (Lexeme.flavor s.toList).text := by
    simp [String.toList_append, Lexeme.text]
  -- the longer text is read with a larger bound, and so must the shorter one be
  have short : f.toList.length < (f ++ "[" ++ s ++ "]").toList.length + 1 := by
    rw [chars, List.length_append]
    omega
  have reads : reads? ((f ++ "[" ++ s ++ "]").toList.length + 1) f.toList = some [t] :=
    (reads?_iff short).2 (by rwa [String.ofList_toList])
  obtain ⟨m, text⟩ := matched_reads? reads
  obtain ⟨links, found, sound, settles⟩ := exists_links_of_reads? reads
  have starts : links.head? ≠ some (.operator .subtract) := by
    intro same
    obtain ⟨rest, rfl⟩ := List.head?_eq_some_iff.1 same
    have minus : f.toList.head? = some '-' := head?_of_links? trimmed found
    obtain ⟨x, rfl⟩ := number_of_read accepted operand minus
    rcases behind with nested | ⟨other, -⟩
    · cases nested
    · exact other minus
  have plain := Link.isOperator_eq_false operand starts settles
  rcases List.eq_nil_or_concat links with rfl | ⟨front, z, rfl⟩
  · cases settles
  · rw [List.concat_eq_append] at found settles sound plain
    have trimmedTerms : ∀ u ∈ Link.terms true (front ++ [z]), u.Trimmed := Link.trimmed_terms sound
    rw [Link.terms_plain plain, List.map_append, List.map_singleton] at settles trimmedTerms
    obtain ⟨bears, flavored⟩ := Piece.settle?_flavored trimmedTerms settles bears
    rw [← text] at found
    have whole := links?_flavored closes (text ▸ trimmed.last) found plain fun u same => ?_
    · have plain' : ∀ l ∈ front ++ [z.flavored s.toList], l.isOperator = false := by
        intro l mem
        rcases List.mem_append.1 mem with mem | mem
        · exact plain l (List.mem_append_left _ mem)
        · rw [List.mem_singleton.1 mem, Link.isOperator_flavored (plain z (by simp))]
      refine read_of_reads? ?_
      rw [chars, ← text] at whole
      rw [reads?_succ, chars, ← text, whole, Option.bind_some, Link.terms_plain plain',
        List.map_append, List.map_singleton, Link.plainTerm_flavored (sound z (by simp)), flavored,
        Term.flavored_of_settled settled]
    · rw [same] at bears sound
      have nested := Term.Bracketed.nested (sound (.term u) (by simp))
      have settled := Strand.isFragment_of_isNested nested
      exact (Term.unflavored_of_settled settled).1 bears.unflavored

/-- The flavor of numbers and dice has no opening bracket. -/
theorem opens_of_read {f s : String} {t : Term} (accepted : read f = .ok [t])
    (leaf : Strand.isNested t = false) (flavor : t.flavor? = some s) : '[' ∉ s.toList :=
  (cutOff_read accepted).here t List.mem_cons_self leaf s flavor

/-- **Flavor is opaque**: what stands in brackets behind a formula that is read as one operand
without flavor becomes the flavor of that operand, whatever it says up to the closing bracket.

Groups take any flavor.  Numbers and dice are cut from theirs at the last opening bracket, so it
must not have one; and a minus sign is that of the number behind it only if no flavor follows. -/
theorem read_flavored_iff {f s : String} {t : Term} (trimmed : Text.Trimmed f.toList)
    (accepted : read f = .ok [t]) (operand : t.isOperator = false) (bare : t.flavor? = none)
    (closes : ']' ∉ s.toList) :
    read (f ++ "[" ++ s ++ "]") = .ok [t.withFlavor (some s)] ↔
      Strand.isNested t = true ∨ f.toList.head? ≠ some '-' ∧ '[' ∉ s.toList := by
  have settled := settled_of_read accepted
  have flavor : (t.withFlavor (some s)).flavor? = some s := by
    cases t <;> first | rfl | (cases operand; done) | cases settled
  refine ⟨fun flavored => ?_, flavored_read trimmed accepted operand bare closes⟩
  rcases Bool.eq_false_or_eq_true (Strand.isNested t) with nested | leaf
  · exact .inl nested
  · refine .inr ⟨fun minus => ?_, opens_of_read flavored ?_ flavor⟩
    · have starts : (f ++ "[" ++ s ++ "]").toList.head? = some '-' := by
        obtain ⟨rest, text⟩ := List.head?_eq_some_iff.1 minus
        simp [String.toList_append, text]
      obtain ⟨x, same⟩ := number_of_read flavored (by cases t <;> exact operand) starts
      rw [same] at flavor
      cases flavor
    · cases t <;> exact leaf

/-- Flavor with brackets and operators in it behind a pool. -/
theorem read_flavored_pool :
    ∃ t, read "\x7b1d6,(2+3)\x7dkh" = .ok [t] ∧ Strand.isNested t = true ∧
      read ("\x7b1d6,(2+3)\x7dkh" ++ "[" ++ "a[\x7d), 1 +" ++ "]") =
        .ok [t.withFlavor (some "a[\x7d), 1 +")] := by
  have reads : ∃ ts ∈ (read "\x7b1d6,(2+3)\x7dkh").toOption, ts.length = 1 ∧
      ∀ t ∈ ts, Strand.isNested t = true ∧ t.isOperator = false ∧ t.flavor? = none := by
    decide +kernel
  obtain ⟨ts, found, single, holds⟩ := reads
  obtain ⟨t, rfl⟩ := List.length_eq_one_iff.1 single
  obtain ⟨nested, operand, bare⟩ := holds t List.mem_cons_self
  have accepted := eq_ok_of_toOption (Option.mem_def.1 found)
  have trimmed : Text.Trimmed "\x7b1d6,(2+3)\x7dkh".toList :=
    Text.trimmed_of_printable (by simp) (by simp)
  refine ⟨t, accepted, nested, ?_⟩
  exact (read_flavored_iff trimmed accepted operand bare (by decide)).2 (.inl nested)

/-- Flavor behind dice is cut where the last bracket opens, and then the dice are none. -/
theorem read_flavored_cut :
    ∃ t, Text.Trimmed "1d6".toList ∧ read "1d6" = .ok [t] ∧ t.isOperator = false ∧
      t.flavor? = none ∧ ']' ∉ "a[b".toList ∧
        ∃ e, read ("1d6" ++ "[" ++ "a[b" ++ "]") = .error e := by
  have reads : ∃ ts ∈ (read "1d6").toOption, ts.length = 1 ∧
      ∀ t ∈ ts, t.isOperator = false ∧ t.flavor? = none := by decide +kernel
  have refused : (read ("1d6" ++ "[" ++ "a[b" ++ "]")).toOption.isNone = true := by decide +kernel
  obtain ⟨ts, found, single, holds⟩ := reads
  obtain ⟨t, rfl⟩ := List.length_eq_one_iff.1 single
  obtain ⟨operand, bare⟩ := holds t List.mem_cons_self
  refine ⟨t, Text.trimmed_of_printable (by simp) (by simp),
    eq_ok_of_toOption (Option.mem_def.1 found), operand, bare, by decide, ?_⟩
  cases read : read ("1d6" ++ "[" ++ "a[b" ++ "]") with
  | error e => exact ⟨e, rfl⟩
  | ok ts => rw [read] at refused; cases refused

end Formula

end DiceFormula
