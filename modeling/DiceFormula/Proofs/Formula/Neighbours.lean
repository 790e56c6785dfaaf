/-
# DiceFormula.Proofs.Formula.Neighbours -- what fragments wait for

A fragment that is left when a formula is read waits for a term beside it.  The term is a
group, a call or a pool, whose value is still to come, or it is another fragment
(`flanked_settle?`).  So where no two fragments stand next to each other, each of them has a
group beside it, at every level of a formula (`flanked_read`).

Fragments next to each other wait for each other, with nothing to come that would resolve
them.  That happens to two fragments around a group whose value is known: the value is merged
with the first one, and the second takes the place of the group (`fragments_unflanked`).
-/
import DiceFormula.Proofs.Formula.Waiting

namespace DiceFormula

set_option autoImplicit false

namespace Term

/-! ## Terms beside fragments -/

/-- Every fragment has a term of a kind directly beside it.  The first one may have it in
front of all terms. -/
def FlankedFrom (kind : Term → Bool) (prior : Option Term) : List Term → Prop
  | [] => True
  | t :: rest =>
      (t.isFragment = true → (prior.any kind || rest.head?.any kind) = true) ∧
        FlankedFrom kind (some t) rest

/-- Every fragment has a term of a kind directly beside it. -/
def Flanked (kind : Term → Bool) (ts : List Term) : Prop := FlankedFrom kind none ts

instance decidableFlankedFrom (kind : Term → Bool) :
    (prior : Option Term) → (ts : List Term) → Decidable (FlankedFrom kind prior ts)
  | _, [] => isTrue trivial
  | _, t :: rest =>
      have := decidableFlankedFrom kind (some t) rest
      instDecidableAnd

instance (kind : Term → Bool) (ts : List Term) : Decidable (Flanked kind ts) :=
  decidableFlankedFrom kind none ts

/-- No two fragments stand next to each other. -/
def Spread (ts : List Term) : Prop :=
  ts.IsChain fun a b => a.isFragment = true → b.isFragment = false

theorem flankedFrom_of_fragmentsFrom {kind : Term → Bool} {prior : Option Term} {ts : List Term}
    (fragments : FragmentsFrom (fun _ prior next => (prior.any kind || next.any kind) = true)
      prior ts) : FlankedFrom kind prior ts := by
  induction ts generalizing prior with
  | nil => trivial
  | cons t rest ih =>
      obtain ⟨first, others⟩ := fragments
      refine ⟨fun fragment => ?_, ih others⟩
      cases t with
      | fragment text => exact first text rfl
      | _ => cases fragment

/-- A neighbour that is waited for is a group, unless it is a fragment. -/
theorem any_isGroup {neighbour : Option Term} (pending : neighbour.any isIntermediate = true)
    (settled : neighbour.any isFragment = false) : neighbour.any isGroup = true := by
  cases neighbour with
  | none => cases pending
  | some t =>
      rw [Option.any_some] at pending settled ⊢
      rw [isGroup, pending, settled]
      rfl

/-- Fragments that are apart have groups beside them. -/
theorem flankedFrom_isGroup {prior : Option Term} {ts : List Term}
    (apart : ∀ t ∈ ts.head?, t.isFragment = true → prior.any isFragment = false)
    (spread : Spread ts) (flanked : FlankedFrom isIntermediate prior ts) :
    FlankedFrom isGroup prior ts := by
  induction ts generalizing prior with
  | nil => trivial
  | cons t rest ih =>
      obtain ⟨first, others⟩ := flanked
      obtain ⟨next, spreadRest⟩ := List.isChain_cons.1 spread
      refine ⟨fun fragment => ?_, ih (fun u head fragment => ?_) spreadRest others⟩
      · have settled : rest.head?.any isFragment = false := by
          cases rest with
          | nil => rfl
          | cons u rest => exact next u rfl fragment
        rcases Bool.or_eq_true_iff.1 (first fragment) with front | behind
        · rw [any_isGroup front (apart t rfl fragment), Bool.true_or]
        · rw [any_isGroup behind settled, Bool.or_true]
      · cases other : t.isFragment with
        | false => exact other
        | true =>
            rw [next u head other] at fragment
            cases fragment

end Term

namespace Formula

open Term

/-! ## Formulas that were read -/

/-- A fragment that is left among settled terms has a group or another fragment beside it. -/
theorem flanked_settle? {ts ts' : List Term} (settles : Piece.settle? ts = some ts') :
    Flanked isIntermediate ts' := by
  obtain ⟨ps, ok, rfl⟩ := Piece.ok_of_settle? settles
  exact flankedFrom_of_fragmentsFrom
    (Piece.fragments_settled (fun _ _ _ _ _ _ pending _ => pending) (Piece.eq_of_collect ok)
      fun _ _ _ => rfl)

/-- **Every fragment that is left when a formula is read has a group, a call, a pool or another
fragment beside it**, at every level of the formula.  Where no two fragments stand next to each
other, it has one of the first three. -/
theorem flanked_read {formula : String} {ts : List Term} (accepted : read formula = .ok ts) :
    Everywhere (fun us => Flanked isIntermediate us ∧ (Spread us → Flanked isGroup us)) ts := by
  refine everywhere_read (fun links us _ settles => ?_) accepted
  have flanked := flanked_settle? settles
  exact ⟨flanked, fun spread => flankedFrom_isGroup (fun _ _ _ => rfl) spread flanked⟩

/-- A fragment waits for the dice in the group in front of it, inside another group. -/
theorem flanked_read_nested :
    ∃ ts, read "2*((1d4)d6)" = .ok ts ∧
      Everywhere (fun us => Flanked isIntermediate us ∧ (Spread us → Flanked isGroup us)) ts := by
  have accepted : (read "2*((1d4)d6)").toOption.isSome = true := by decide +kernel
  obtain ⟨ts, reads⟩ := exists_ok accepted
  exact ⟨ts, reads, flanked_read reads⟩

/-- Two fragments around a constant group wait for each other, without a group beside them. -/
theorem fragments_unflanked :
    ∃ ts, read "d6(2)d6" = .ok ts ∧ ¬ Everywhere (Flanked isGroup) ts := by
  have reads : ∃ ts ∈ (read "d6(2)d6").toOption, ¬ Everywhere (Flanked isGroup) ts := by
    decide +kernel
  obtain ⟨ts, accepted, unflanked⟩ := reads
  exact ⟨ts, eq_ok_of_toOption accepted, unflanked⟩

end Formula

end DiceFormula
