/-
# DiceFormula.Proofs.Dice.Refused -- what a roll of dice fails for

There is one reason only for which dice are refused, once there are not too many of them: a
repeated modifier that every face meets, and which would never stop.  And there is one fault only
that a roll comes to, a want of dice when none are left (`Dice.fails_roll`).

So no die is marked twice as added or as dropped, whatever marks the dice have at first.  Modifiers
drop only kept dice, and what they mark as added was just drawn (`Modifier.run_apply`).
-/
import DiceFormula.Proofs.Dice.History

namespace DiceFormula

set_option autoImplicit false

/-- The failure is one of some errors, or a want of dice with none left. -/
def RollFailure.Among (allowed : DiceError → Prop) (r : Roller) : RollFailure → Prop
  | error e => allowed e
  | fault f => f = .diceSpent ∧ r.supply = 0

namespace Rolling

/-- The computation fails for no errors but some, and comes to no fault but a want of dice. -/
def FailsFor {α : Type} (allowed : DiceError → Prop) (x : Rolling α) : Prop :=
  Leads (fun _ => True) (fun _ _ => True) (fun failure r => failure.Among allowed r) x

variable {α β : Type} {allowed allowed' : DiceError → Prop}

section Fails

variable {x : Rolling α} (fails : FailsFor allowed x) {r r' : Roller}
include fails

theorem FailsFor.mono (wider : ∀ e, allowed e → allowed' e) : FailsFor allowed' x := by
  refine Leads.mono fails (fun _ _ => id) fun failure r among => ?_
  cases failure with
  | error e => exact wider e among
  | fault f => exact among

theorem FailsFor.fault {f : Fault} (failed : x.run.run r = (.error (.fault f), r')) :
    f = .diceSpent ∧ r'.supply = 0 :=
  Leads.error fails trivial failed

/-- No fault is a die that is marked twice. -/
theorem FailsFor.ne_marked {f : Fault} (marked : f ∈ [Fault.addedTwice, .droppedTwice]) :
    (x.run.run r).1 ≠ .error (.fault f) := by
  intro failed
  obtain ⟨rfl, -⟩ := fails.fault (Prod.ext failed rfl)
  simp at marked

end Fails

theorem fails_pure (a : α) : FailsFor allowed (pure a) := leads_pure fun _ _ => trivial

theorem fails_fail {e : DiceError} (holds : allowed e) :
    FailsFor allowed (Rolling.fail e : Rolling α) :=
  leads_throw fun _ _ => holds

theorem fails_bind {x : Rolling α} {k : α → Rolling β} (first : FailsFor allowed x)
    (rest : ∀ a, FailsFor allowed (k a)) : FailsFor allowed (x >>= k) :=
  leads_bind first rest

/-! ## Drawing -/

theorem fails_draw (sides : Nat) : FailsFor allowed (draw sides) := by
  intro r _
  rcases Nat.eq_zero_or_pos r.supply with empty | supplied
  · rw [run_draw_spent empty]
    exact ⟨rfl, empty⟩
  · rw [run_draw supplied]
    trivial

theorem fails_drawMany (sides n : Nat) : FailsFor allowed (drawMany sides n) := by
  induction n with
  | zero => exact fails_pure _
  | succ n ih =>
      exact fails_bind (fails_draw sides) fun _ => fails_bind ih fun _ => fails_pure _

end Rolling

/-! ## Modifiers -/

namespace Modifier

open Rolling

/-- The modifier would never stop on dice with so many sides. -/
inductive Forever (sides : Nat) (m : Modifier) : DiceError → Prop
  | intro (endless : m.IsEndless sides) : Forever sides m (.infiniteRolls m sides)

variable {sides : Nat}

/-- A modifier is refused only if it would never stop, and marks no die twice. -/
theorem fails_apply (m : Modifier) (dice : List Die) :
    FailsFor (m.Forever sides) (m.apply sides dice) := by
  intro r _
  have comes := run_apply m sides dice r
  generalize (m.apply sides dice).run.run r = outcome at comes
  cases comes with
  | applied => trivial
  | spent => exact ⟨rfl, Nat.sub_self r.supply⟩
  | refused always => exact .intro always

/-- Many modifiers are like each of them, since each takes dice with any marks. -/
theorem fails_applyAll (modifiers : List Modifier) (dice : List Die) :
    FailsFor (fun e => ∃ m ∈ modifiers, m.Forever sides e) (applyAll sides modifiers dice) := by
  induction modifiers generalizing dice with
  | nil => exact fails_pure _
  | cons m rest ih =>
      refine fails_bind ((fails_apply m dice).mono fun e forever => ?_) fun dice' =>
        (ih dice').mono fun e refused => ?_
      · exact ⟨m, List.mem_cons_self, forever⟩
      · obtain ⟨m', mem, forever⟩ := refused
        exact ⟨m', List.mem_cons_of_mem m mem, forever⟩

end Modifier

/-! ## Rolls -/

/-- **Dice are refused only if there are too many, or for a modifier that would never stop**, and
their roll comes to no fault but a want of dice. -/
theorem Dice.fails_roll (d : Dice) (modified : Bool) :
    Rolling.FailsFor (fun e => maxCount < d.count ∧ e = .tooManyDice d.count ∨
      ∃ m ∈ d.modifiers, m.Forever d.sides e) (d.roll modified) := by
  rw [roll_eq]
  split
  · rename_i many
    exact Rolling.fails_fail (.inl ⟨many, rfl⟩)
  · refine Rolling.fails_bind (Rolling.fails_drawMany _ _) fun rolls => ?_
    refine Rolling.fails_bind ?_ fun _ => Rolling.fails_pure _
    split
    · exact (Modifier.fails_applyAll d.modifiers rolls).mono fun e => .inr
    · exact Rolling.fails_pure _

end DiceFormula
