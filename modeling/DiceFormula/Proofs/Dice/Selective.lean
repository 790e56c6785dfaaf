/-
# DiceFormula.Proofs.Dice.Selective -- modifiers that only select and score

A selective modifier may drop dice and score them.  It adds none, takes none away and leaves their
values alone: each die is `Marked`, where it stands (`marked_apply`).

It can be applied to any dice at all (`exists_apply`): what it drops are dice that are still kept.
-/
import DiceFormula.Proofs.Dice.Drawn

namespace DiceFormula

set_option autoImplicit false

namespace Die

/-- The same die, but for whether it was dropped and how it scored. -/
structure Marked (d d' : Die) : Prop where
  value : d'.value = d.value
  added : d'.addedBy = d.addedBy
  changes : d'.changes = d.changes

theorem Marked.refl (d : Die) : Marked d d := ⟨rfl, rfl, rfl⟩

theorem Marked.trans {d d' d'' : Die} (first : Marked d d') (second : Marked d' d'') :
    Marked d d'' :=
  ⟨second.value.trans first.value, second.added.trans first.added,
    second.changes.trans first.changes⟩

theorem marked_all_trans {dice dice' dice'' : List Die} (first : List.Forall₂ Marked dice dice')
    (second : List.Forall₂ Marked dice' dice'') : List.Forall₂ Marked dice dice'' := by
  induction first generalizing dice'' with
  | nil => exact second
  | cons marked others ih =>
      cases second with
      | cons marked' others' => exact .cons (marked.trans marked') (ih others')

theorem marked_drop {m : Modifier} {d d' : Die} (dropped : d.drop m = .ok d') : Marked d d' := by
  unfold drop at dropped
  split at dropped
  · cases dropped
  · cases dropped
    exact ⟨rfl, rfl, rfl⟩

theorem marked_score (success : Bool) (d : Die) : Marked d (d.score success) := ⟨rfl, rfl, rfl⟩

theorem marked_map {f : Die → Die} (marks : ∀ d, Marked d (f d)) (dice : List Die) :
    List.Forall₂ Marked dice (dice.map f) := by
  rw [List.forall₂_map_right_iff, List.forall₂_same]
  exact fun d _ => marks d

/-- Dropping dice at some positions makes of each die what dropping it makes, or leaves it. -/
theorem forall₂_dropAt {R : Die → Die → Prop} {m : Modifier} (same : ∀ d, R d d)
    (drops : ∀ d d', d.drop m = .ok d' → R d d') {positions : List Nat} {dice dice' : List Die}
    (ok : dropAt m positions dice = .ok dice') : List.Forall₂ R dice dice' := by
  have each := mapM_ok_iff.mp ok
  have related : List.Forall₂ (fun p d' => R p.1 d') dice.zipIdx dice' := by
    refine each.imp ?_
    rintro ⟨d, i⟩ d' marked
    dsimp only at marked
    split at marked
    · exact drops d d' marked
    · cases marked
      exact same d
  rw [← List.zipIdx_map_fst 0 dice, List.forall₂_map_left_iff]
  exact related

theorem marked_dropAt {m : Modifier} {positions : List Nat} {dice dice' : List Die}
    (ok : dropAt m positions dice = .ok dice') : List.Forall₂ Marked dice dice' :=
  forall₂_dropAt Marked.refl (fun _ _ => marked_drop) ok

theorem marked_scoreAll (condition : Condition) (dice : List Die) :
    List.Forall₂ Marked dice (scoreAll condition dice) := by
  refine marked_map (fun d => ?_) dice
  split
  · exact marked_score _ d
  · exact Marked.refl d

theorem marked_failAll (condition : Condition) (dice : List Die) :
    List.Forall₂ Marked dice (failAll condition dice) := by
  refine marked_map (fun d => ?_) dice
  split
  · exact marked_score _ d
  · exact Marked.refl d

end Die

namespace Modifier

/-- **Modifiers that select or score mark the dice where they stand.** -/
theorem marked_apply {m : Modifier} (selective : m.isSelective = true) {sides : Nat}
    {dice dice' : List Die} {r : Roller} (ok : ((m.apply sides dice).run.run r).1 = .ok dice') :
    List.Forall₂ Die.Marked dice dice' := by
  have dropped {positions : List Nat}
      (ok : ((Rolling.ofFault (Die.dropAt m positions dice)).run.run r).1 = .ok dice') :
      List.Forall₂ Die.Marked dice dice' :=
    Die.marked_dropAt (Rolling.ok_of_run_ofFault ok)
  cases m with
  | keepHigh n | keepLow n | dropHigh n | dropLow n => exact dropped ok
  | countSuccess condition =>
      cases ok
      exact Die.marked_scoreAll condition dice
  | countFailure condition =>
      cases ok
      exact Die.marked_failAll condition dice
  | reroll | explode | raise | cap => cases selective

end Modifier

/-! ## Ranks -/

namespace Die

theorem kept_of_mem_keptAt {dice : List Die} {i : Nat} {value : Int}
    (mem : (i, value) ∈ keptAt dice) : ∃ d, dice[i]? = some d ∧ d.isKept = true := by
  obtain ⟨⟨d, j⟩, selected, same⟩ := List.mem_map.1 mem
  obtain ⟨here, kept⟩ := List.mem_filter.1 selected
  cases same
  exact ⟨d, List.mem_zipIdx_iff_getElem?.1 here, kept⟩

/-- Only dice that are kept have a rank. -/
theorem kept_of_mem_ranked {highestFirst : Bool} {dice : List Die} {i : Nat}
    (mem : i ∈ ranked highestFirst dice) : ∃ d, dice[i]? = some d ∧ d.isKept = true := by
  have ascends : i ∈ ascending dice := by
    unfold ranked at mem
    split at mem
    · exact List.mem_reverse.1 mem
    · exact mem
  obtain ⟨⟨j, value⟩, sorted, rfl⟩ := List.mem_map.1 ascends
  exact kept_of_mem_keptAt (List.mem_mergeSort.1 sorted)

/-- The dice with those at some positions dropped by a modifier. -/
def discardAt (m : Modifier) (positions : List Nat) (dice : List Die) : List Die :=
  dice.zipIdx.map fun (die, i) => if i ∈ positions then { die with droppedBy := some m } else die

/-- Kept dice can be dropped. -/
theorem dropAt_kept (m : Modifier) {positions : List Nat} {dice : List Die}
    (kept : ∀ i ∈ positions, ∃ d, dice[i]? = some d ∧ d.isKept = true) :
    dropAt m positions dice = .ok (discardAt m positions dice) := by
  unfold dropAt discardAt
  rw [mapM_ok_iff, List.forall₂_map_right_iff, List.forall₂_same]
  rintro ⟨die, i⟩ mem
  dsimp only
  split
  · rename_i dropped
    obtain ⟨d, here, isKept⟩ := kept i dropped
    obtain rfl : die = d := Option.some.inj ((List.mem_zipIdx_iff_getElem?.1 mem).symm.trans here)
    exact drop_kept isKept m
  · rfl

end Die

namespace Modifier

/-- **Modifiers that select or score can be applied to any dice.** -/
theorem exists_apply {m : Modifier} (selective : m.isSelective = true) (sides : Nat)
    (dice : List Die) : ∃ dice', m.apply sides dice = pure dice' := by
  have dropped {positions : List Nat} (ranks : ∃ highestFirst,
      ∀ i ∈ positions, i ∈ Die.ranked highestFirst dice) :
      ∃ dice', Rolling.ofFault (Die.dropAt m positions dice) = pure dice' := by
    obtain ⟨highestFirst, ranks⟩ := ranks
    exact ⟨_, by rw [Die.dropAt_kept m fun i mem => Die.kept_of_mem_ranked (ranks i mem)]; rfl⟩
  cases m with
  | keepHigh n => exact dropped ⟨true, fun i mem => List.mem_of_mem_drop mem⟩
  | keepLow n => exact dropped ⟨false, fun i mem => List.mem_of_mem_drop mem⟩
  | dropHigh n => exact dropped ⟨true, fun i mem => List.mem_of_mem_take mem⟩
  | dropLow n => exact dropped ⟨false, fun i mem => List.mem_of_mem_take mem⟩
  | countSuccess condition => exact ⟨_, rfl⟩
  | countFailure condition => exact ⟨_, rfl⟩
  | reroll | explode | raise | cap => cases selective

end Modifier

end DiceFormula
