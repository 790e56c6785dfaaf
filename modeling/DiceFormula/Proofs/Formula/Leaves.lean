/-
# DiceFormula.Proofs.Formula.Leaves -- the flavor of numbers and dice

The flavor of a number or of dice is what stands behind the last `[` of a fragment, so no bracket
opens in it (`opens_splitFlavor`).  That of a group may have brackets that open, and a group whose
value is known becomes a number with its flavor, but only beside a fragment
(`besideFrom_foldConstants`).  There it is merged (`all_mergeFrom_beside`).  So what is left of
numbers and dice when a formula is read has a flavor that is `CutOff`, at every level of the formula
(`cutOff_read`).
-/
import DiceFormula.Proofs.Formula.Waiting

namespace DiceFormula

set_option autoImplicit false

/-! ## Fragments -/

namespace Fragment

variable {text : String}

/-- Flavor starts behind the last bracket that opens. -/
theorem opens_splitFlavor {text flavor : List Char} (cut : (splitFlavor text).2 = some flavor) :
    '[' ∉ flavor := by
  unfold splitFlavor at cut
  dsimp only at cut
  split at cut
  · split at cut
    · rename_i parts found
      cases cut
      exact fun mem => (cutAtLastOpening_sound found).2 (List.mem_of_mem_dropLast mem)
    · cases cut
  · cases cut

/-- The flavor of what a text is certainly. -/
theorem flavor?_classifyEarly (text : String) (prior next : Option Term) :
    classifyEarly text prior next = .fragment text ∨
      Readable (splitFlavor text.toList).1 ∧ (classifyEarly text prior next).flavor? =
        (splitFlavor text.toList).2.map String.ofList := by
  unfold classifyEarly Readable
  dsimp only
  split
  · rename_i number
    exact .inr ⟨.inl (by rw [number]; rfl), rfl⟩
  · split
    · rename_i dice
      split
      · exact .inl rfl
      · exact .inr ⟨.inr (by rw [dice]; rfl), rfl⟩
    · exact .inl rfl

/-- The flavor of what a text is. -/
theorem flavor?_classify {t : Term} (ok : classify text = .ok t) :
    t.flavor? = (splitFlavor text.toList).2.map String.ofList := by
  unfold classify at ok
  dsimp only at ok
  split at ok
  · cases ok
    rfl
  · split at ok
    · cases ok
      rfl
    · split at ok <;> cases ok

end Fragment

namespace Term

/-- Unless the term is a group, no bracket opens in its flavor. -/
def CutOff (t : Term) : Prop :=
  Strand.isNested t = false → ∀ f, t.flavor? = some f → '[' ∉ f.toList

theorem cutOff_fragment (text : String) : CutOff (.fragment text) := by
  intro _ f flavor
  cases flavor

theorem cutOff_operator (op : Operator) : CutOff (.operator op) := by
  intro _ f flavor
  cases flavor

theorem cutOff_of_isNested {t : Term} (nested : Strand.isNested t = true) : t.CutOff := by
  intro leaf
  rw [leaf] at nested
  cases nested

/-- Flavor that was split off a text is cut. -/
theorem cutOff_of_splitFlavor {t : Term} {text : List Char}
    (flavor : t.flavor? = (Fragment.splitFlavor text).2.map String.ofList) : t.CutOff := by
  intro _ f found
  obtain ⟨chars, split, rfl⟩ := Option.map_eq_some_iff.1 (flavor.symm.trans found)
  rw [String.toList_ofList]
  exact Fragment.opens_splitFlavor split

theorem cutOff_classifyEarly (text : String) (prior next : Option Term) :
    (Fragment.classifyEarly text prior next).CutOff := by
  rcases Fragment.flavor?_classifyEarly text prior next with same | ⟨-, flavor⟩
  · rw [same]
    exact cutOff_fragment text
  · exact cutOff_of_splitFlavor flavor

/-! ## Merging -/

/-- A fragment is merged with a value behind it. -/
theorem isSome_merged?_front {a b : Term} (fragment : a.isFragment = true)
    (value : b.total?.isSome = true) : (merged? a b).isSome = true := by
  cases a with
  | fragment text =>
      rw [merged?, Option.isSome_map]
      exact value
  | _ => cases fragment

theorem merged?_fragment (a : Term) (text : String) :
    merged? a (fragment text) = a.total?.map fun x =>
      formulaNumber x ++ text ++ mergedFlavor a.flavor? (formulaNumber x ++ text) := by
  cases a <;> rfl

/-- A fragment is merged with a value in front of it. -/
theorem isSome_merged?_behind {a b : Term} (value : a.total?.isSome = true)
    (fragment : b.isFragment = true) : (merged? a b).isSome = true := by
  cases b with
  | fragment text =>
      rw [merged?_fragment, Option.isSome_map]
      exact value
  | _ => cases fragment

end Term

namespace Piece

open Term

section Beside

variable {P : Term → Prop}

/-- Every term has a property, or it is a value beside a fragment.  The first one may have a
fragment in front of all pieces. -/
def BesideFrom (P : Term → Prop) (prior : Option Term) : List Piece → Prop
  | [] => True
  | p :: rest =>
      (P p.term ∨ p.term.total?.isSome = true ∧
        (prior.any isFragment = true ∨ (rest.head?.map term).any isFragment = true)) ∧
          BesideFrom P (some p.term) rest

theorem BesideFrom.imp {prior prior' : Option Term} {ps : List Piece}
    (beside : BesideFrom P prior ps)
    (fragment : prior.any isFragment = true → prior'.any isFragment = true) :
    BesideFrom P prior' ps := by
  cases ps with
  | nil => trivial
  | cons p ps =>
      obtain ⟨here, others⟩ := beside
      refine ⟨here.imp_right ?_, others⟩
      rintro ⟨value, neighbour⟩
      exact ⟨value, neighbour.imp_left fragment⟩

/-- **Merging leaves no value beside a fragment.** -/
theorem all_mergeFrom_beside (fragment : ∀ text, P (.fragment text)) {last : Piece}
    {ps : List Piece} (beside : BesideFrom P (some last.term) ps)
    (first : P last.term ∨ last.term.total?.isSome = true ∧
      (ps.head?.map term).any isFragment = true) : All P (mergeFrom last ps) := by
  induction ps generalizing last with
  | nil =>
      refine List.forall_mem_singleton.2 (first.resolve_right ?_)
      rintro ⟨-, next⟩
      cases next
  | cons p ps ih =>
      obtain ⟨here, others⟩ := beside
      rw [mergeFrom]
      split
      · exact ih (others.imp fun _ => rfl) (.inl (fragment _))
      · rename_i apart
        -- two terms that are not merged are no fragment and a value
        have unmerged : (merged? last.term p.term).isSome = false := by rw [apart]; rfl
        refine List.forall_mem_cons.2 ⟨first.resolve_right ?_, ih others (here.imp_right ?_)⟩
        · rintro ⟨value, next⟩
          rw [isSome_merged?_behind value next] at unmerged
          cases unmerged
        · rintro ⟨value, neighbour⟩
          refine ⟨value, neighbour.resolve_left fun front => ?_⟩
          rw [isSome_merged?_front front value] at unmerged
          cases unmerged

theorem all_merge_beside (fragment : ∀ text, P (.fragment text)) {ps : List Piece}
    (beside : BesideFrom P none ps) : All P (merge ps) := by
  cases ps with
  | nil => exact List.forall_mem_nil _
  | cons p ps =>
      obtain ⟨here, others⟩ := beside
      refine all_mergeFrom_beside fragment others (here.imp_right ?_)
      rintro ⟨value, neighbour⟩
      exact ⟨value, neighbour.resolve_left Bool.false_ne_true⟩

/-- A step that keeps fragments, and gives up the property only for values beside them. -/
theorem besideFrom_mapNeighbours {f : Option Term → Piece → Option Term → Piece}
    (kept : ∀ prior p next, (f prior p next).term.isFragment = p.term.isFragment)
    (step : ∀ prior p next, P p.term → P (f prior p next).term ∨
      (f prior p next).term.total?.isSome = true ∧
        (prior.any isFragment = true ∨ next.any isFragment = true))
    {prior prior' : Option Term} (front : prior'.any isFragment = prior.any isFragment)
    {ps : List Piece} (all : All P ps) : BesideFrom P prior' (mapNeighboursFrom f prior ps) := by
  induction ps generalizing prior prior' with
  | nil => trivial
  | cons p ps ih =>
      obtain ⟨first, others⟩ := List.forall_mem_cons.1 all
      have behind (prior : Option Term) :
          ((mapNeighboursFrom f prior ps).head?.map term).any isFragment =
            (ps.head?.map term).any isFragment := by
        cases ps with
        | nil => rfl
        | cons q ps => exact kept _ _ _
      refine ⟨?_, ih (kept _ _ _) others⟩
      rw [front, behind]
      exact step prior p (ps.head?.map term) first

/-- Constant groups become values only beside fragments. -/
theorem besideFrom_foldConstants {ps : List Piece} (all : All P ps) :
    BesideFrom P none (foldConstants ps) := by
  refine besideFrom_mapNeighbours (fun prior p next => ?_) (fun prior p next holds => ?_) rfl all
  · split
    · rename_i folds
      split
      · have foldable := (Bool.and_eq_true_iff.1 folds).1
        cases kind : p.term with
        | fragment text => rw [kind] at foldable; cases foldable
        | _ => rfl
      · rfl
    · rfl
  · split
    · rename_i folds
      split
      · exact .inr ⟨rfl, Bool.or_eq_true_iff.1 (Bool.and_eq_true_iff.1 folds).2⟩
      · exact .inl holds
    · exact .inl holds

end Beside

/-! ## Settling -/

/-- The flavor of numbers and dice is cut once terms are settled. -/
theorem cutOff_settle? {ts ts' : List Term} (all : ∀ t ∈ ts, t.CutOff) (settles : settle? ts = some ts') :
    ∀ t ∈ ts', t.CutOff := by
  have certain : All CutOff (classifyEarly (ofTerms ts)) := by
    refine all_mapNeighbours (all_ofTerms all) fun prior p next holds => ?_
    split
    · exact cutOff_classifyEarly _ _ _
    · exact holds
  have merged := all_merge_beside cutOff_fragment (besideFrom_foldConstants certain)
  obtain ⟨qs, ok, rfl⟩ := ok_of_settle? settles
  intro t mem
  obtain ⟨q, member, rfl⟩ := List.mem_map.1 mem
  have collected : Except.ok q ∈ mapNeighbours settleEarly
      (merge (foldConstants (classifyEarly (ofTerms ts)))) := by
    rw [eq_of_collect ok]
    exact List.mem_map_of_mem member
  obtain ⟨prior, next, p, origin, settled⟩ := mem_mapNeighboursFrom collected
  have holds : p.term.CutOff := merged p origin
  unfold settleEarly at settled
  split at settled
  · split at settled
    · split at settled
      · cases settled
        exact holds
      · cases settled
    · split at settled
      · rename_i classified
        cases settled
        exact cutOff_of_splitFlavor (Fragment.flavor?_classify classified)
      · cases settled
  · cases settled
    exact holds

end Piece

/-! ## Reading -/

namespace Formula

/-- **No bracket opens in the flavor of a number or of dice** that were read, at every level of a
formula. -/
theorem cutOff_read {formula : String} {ts : List Term} (ok : read formula = .ok ts) :
    Term.Everywhere (fun us => ∀ t ∈ us, t.CutOff) ts := by
  refine everywhere_read (fun links us sound settles => ?_) ok
  refine Piece.cutOff_settle? (Link.all_terms Term.cutOff_fragment Term.cutOff_operator fun t mem => ?_) settles
  exact Term.cutOff_of_isNested (Term.Bracketed.nested (sound _ mem))

end Formula

end DiceFormula
