/-
# DiceFormula.Proofs.Dice.Stored -- dice that are rolled can be stored

If the faces that a roller shows fit in 64 bits, then so do all numbers that are kept of the dice:
every value that a die has or had, and the numbers of the modifiers that added, dropped or changed
it, which are those that were read (`yields_roll`).

Each computation with dice `Yields` what fits, and leaves a roller whose faces fit.
-/
import DiceFormula.Proofs.Dice.Drawn
import DiceFormula.Proofs.Dice.Json
import DiceFormula.Proofs.Dice.Reread

namespace DiceFormula

set_option autoImplicit false

/-! ## Numbers that were read -/

theorem Condition.Writable.fits {c : Condition} (writable : c.Writable) : c.Fits :=
  ⟨Int.le_trans (by decide) writable.1, writable.2⟩

theorem Modifier.Admitted.fits {m : Modifier} (admitted : m.Admitted) : m.Fits := by
  cases m with
  | reroll condition again => exact Condition.Writable.fits admitted
  | explode condition again => exact fun c same => (admitted c same).fits
  | keepHigh n | keepLow n | dropHigh n | dropLow n => exact admitted
  | raise bound | cap bound => exact ⟨Int.le_trans (by decide) admitted.1, admitted.2⟩
  | countSuccess condition | countFailure condition => exact Condition.Writable.fits admitted

theorem Dice.Admitted.fits {d : Dice} (admitted : d.Admitted) : d.Fits :=
  ⟨Nat.le_trans admitted.count (by decide), admitted.sides.2,
    fun m mem => (admitted.modifiers m mem).fits⟩

/-! ## Dice -/

namespace Die

variable {d d' : Die} {m : Modifier}

/-- All dice can be stored. -/
def AllFit (dice : List Die) : Prop := ∀ d ∈ dice, d.Fits

theorem fits_fresh {value : Int} (fits : FitsValue value) : (fresh value).Fits :=
  ⟨fits, nofun, nofun, List.forall_mem_nil _⟩

theorem fits_add (modifier : m.Fits) (die : d.Fits) (added : d.add m = .ok d') : d'.Fits := by
  unfold add at added
  split at added
  · cases added
  · cases added
    exact ⟨die.value, fun _ same => Option.some.inj same ▸ modifier, die.droppedBy, die.changes⟩

theorem fits_drop (modifier : m.Fits) (die : d.Fits) (dropped : d.drop m = .ok d') : d'.Fits := by
  unfold drop at dropped
  split at dropped
  · cases dropped
  · cases dropped
    exact ⟨die.value, die.addedBy, fun _ same => Option.some.inj same ▸ modifier, die.changes⟩

theorem fits_change (modifier : m.Fits) {value : Int} (fits : FitsValue value) (die : d.Fits) :
    (d.change m value).Fits :=
  ⟨fits, die.addedBy, die.droppedBy, List.forall_mem_append.2
    ⟨die.changes, List.forall_mem_singleton.2 ⟨die.value, fits, modifier⟩⟩⟩

theorem fits_score (success : Bool) (die : d.Fits) : (d.score success).Fits :=
  ⟨die.value, die.addedBy, die.droppedBy, die.changes⟩

theorem allFit_map {f : Die → Die} (keeps : ∀ d : Die, d.Fits → (f d).Fits) {dice : List Die}
    (all : AllFit dice) : AllFit (dice.map f) := by
  intro d' mem
  obtain ⟨d, member, rfl⟩ := List.mem_map.1 mem
  exact keeps d (all d member)

theorem allFit_mapM {α : Type} {f : α → Except Fault Die} {as : List α}
    (keeps : ∀ a ∈ as, ∀ d', f a = .ok d' → d'.Fits) {dice' : List Die}
    (ok : as.mapM f = .ok dice') : AllFit dice' := by
  intro d' mem
  obtain ⟨a, member, marked⟩ := forall₂_mem_right (mapM_ok_iff.1 ok) mem
  exact keeps a member d' marked

end Die

/-! ## Computations -/

/-- All faces fit in 64 bits, of dice whose number of sides can be stored. -/
def Roller.Fits (r : Roller) : Prop :=
  ∀ n sides, sides ≤ Limit.mostCount → FitsValue (r.face n sides)

namespace Rolling

theorem yields_ofFault {α : Type} {Q : α → Prop} {x : Except Fault α}
    (holds : ∀ a, x = .ok a → Q a) : Yields Roller.Fits Q (ofFault x) := by
  cases x with
  | error f => exact yields_throw _
  | ok a => exact yields_pure (holds a rfl)

section Draw

variable {sides : Nat} (small : sides ≤ Limit.mostCount)
include small

theorem yields_draw : Yields Roller.Fits Die.Fits (draw sides) := by
  intro r fits
  cases left : r.supply with
  | zero =>
      rw [run_draw_spent left]
      exact ⟨fits, fun _ ok => by cases ok⟩
  | succ n =>
      rw [run_draw (by omega)]
      refine ⟨fits, fun d ok => ?_⟩
      cases ok
      exact Die.fits_fresh (fits _ _ small)

theorem yields_drawMany (n : Nat) : Yields Roller.Fits Die.AllFit (drawMany sides n) := by
  induction n with
  | zero => exact yields_pure (List.forall_mem_nil _)
  | succ n ih =>
      exact yields_bind (yields_draw small) fun d die => yields_bind ih fun ds dice =>
        yields_pure (List.forall_mem_cons.2 ⟨die, dice⟩)

theorem yields_drawAdded {m : Modifier} (modifier : m.Fits) (n : Nat) :
    Yields Roller.Fits Die.AllFit (drawAdded m sides n) := by
  induction n with
  | zero => exact yields_pure (List.forall_mem_nil _)
  | succ n ih =>
      exact yields_bind (yields_draw small) fun d die =>
        yields_bind (yields_ofFault fun d' added => Die.fits_add modifier die added) fun d' die' =>
          yields_bind ih fun ds dice => yields_pure (List.forall_mem_cons.2 ⟨die', dice⟩)

end Draw

end Rolling

/-! ## Modifiers -/

namespace Modifier

open Rolling Die

variable {m : Modifier} (modifier : m.Fits) {dice : List Die} (all : AllFit dice) {sides : Nat}
  (small : sides ≤ Limit.mostCount)
include modifier all

theorem allFit_dropAt {positions : List Nat} {dice' : List Die}
    (ok : dropAt m positions dice = .ok dice') : AllFit dice' := by
  refine allFit_mapM (fun (d, i) mem d' marked => ?_) ok
  have die : d.Fits := all d (List.fst_mem_of_mem_zipIdx mem)
  dsimp only at marked
  split at marked
  · exact fits_drop modifier die marked
  · cases marked
    exact die

include small

theorem yields_rerollOnce (condition : Condition) :
    Yields Roller.Fits AllFit (rerollOnce m condition sides dice) := by
  refine yields_bind (yields_drawAdded small modifier _) fun added new =>
    yields_bind (yields_ofFault fun old marked => ?_) fun old rest =>
      yields_pure (List.forall_mem_append.2 ⟨rest, new⟩)
  refine allFit_mapM (fun d mem d' ok => ?_) marked
  split at ok
  · exact fits_drop modifier (all d mem) ok
  · cases ok
    exact all d mem

theorem yields_rerollRounds (condition : Condition) (rounds : Nat) :
    Yields Roller.Fits AllFit (rerollRounds m condition sides rounds dice) := by
  induction rounds generalizing dice with
  | zero => exact yields_throw _
  | succ rounds ih =>
      unfold rerollRounds
      split
      · exact yields_bind (yields_rerollOnce modifier all small condition) fun _ next => ih next
      · exact yields_pure all

theorem yields_applyReroll (condition : Condition) (again : Bool) :
    Yields Roller.Fits AllFit (applyReroll m condition again sides dice) := by
  unfold applyReroll
  split
  · split
    · exact yields_throw _
    · exact yields_get fun r => yields_rerollRounds modifier all small condition _
  · exact yields_rerollOnce modifier all small condition

omit all in
theorem yields_explodeRounds (condition : Option Condition) (rounds n : Nat) :
    Yields Roller.Fits AllFit (explodeRounds m condition sides rounds n) := by
  induction rounds generalizing n with
  | zero => exact yields_throw _
  | succ rounds ih =>
      unfold explodeRounds
      split
      · exact yields_pure (List.forall_mem_nil _)
      · exact yields_bind (yields_drawAdded small modifier n) fun added new =>
          yields_bind (ih _) fun rest others =>
            yields_pure (List.forall_mem_append.2 ⟨new, others⟩)

theorem yields_applyExplode (condition : Option Condition) (again : Bool) :
    Yields Roller.Fits AllFit (applyExplode m condition again sides dice) := by
  unfold applyExplode
  dsimp only
  split
  · split
    · exact yields_throw _
    · exact yields_get fun r =>
        yields_bind (yields_explodeRounds modifier small condition _ _) fun added new =>
          yields_pure (List.forall_mem_append.2 ⟨all, new⟩)
  · exact yields_bind (yields_drawAdded small modifier _) fun added new =>
      yields_pure (List.forall_mem_append.2 ⟨all, new⟩)

/-- **No modifier leaves anything that cannot be stored.** -/
theorem yields_apply : Yields Roller.Fits AllFit (m.apply sides dice) := by
  cases m with
  | reroll condition again => exact yields_applyReroll modifier all small condition again
  | explode condition again => exact yields_applyExplode modifier all small condition again
  | keepHigh n | keepLow n | dropHigh n | dropLow n =>
      exact yields_ofFault fun dice' ok => allFit_dropAt modifier all ok
  | raise bound | cap bound =>
      refine yields_pure (allFit_map (fun d die => ?_) all)
      split
      · exact fits_change modifier modifier die
      · exact die
  | countSuccess condition | countFailure condition =>
      refine yields_pure (allFit_map (fun d die => ?_) all)
      split
      · exact fits_score _ die
      · exact die

omit modifier in
theorem yields_applyAll {modifiers : List Modifier} (fits : ∀ m ∈ modifiers, m.Fits) :
    Yields Roller.Fits AllFit (applyAll sides modifiers dice) := by
  induction modifiers generalizing dice with
  | nil => exact yields_pure all
  | cons m rest ih =>
      obtain ⟨first, others⟩ := List.forall_mem_cons.1 fits
      exact yields_bind (yields_apply first all small) fun _ next => ih next others

end Modifier

/-- **What is rolled can be stored.** -/
theorem Dice.yields_roll {d : Dice} (fits : d.Fits) (modified : Bool) :
    Yields Roller.Fits Rolled.Fits (d.roll modified) := by
  rw [roll_eq]
  split
  · exact yields_throw _
  · refine yields_bind (Rolling.yields_drawMany fits.sides d.count) fun rolls all => ?_
    have applied : Yields Roller.Fits Die.AllFit
        (if modified then Modifier.applyAll d.sides d.modifiers rolls else pure rolls) := by
      split
      · exact Modifier.yields_applyAll all fits.sides fits.modifiers
      · exact yields_pure all
    exact yields_bind applied fun rolls all => yields_pure ⟨all, fits⟩

end DiceFormula
