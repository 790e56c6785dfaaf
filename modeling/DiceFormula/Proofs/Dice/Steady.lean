/-
# DiceFormula.Proofs.Dice.Steady -- dice that show the same face again and again

A steady roller shows every die of a kind with the same face, as the lowest and the highest do.
With such a roller a computation either `Ends` after a number of dice, whatever the supply beyond
them, or it `Spends` all dice, however many there are: then it would go on for ever.

Modifiers that go on until no die meets their condition are refused if every face meets it.  That
says nothing of the one face that is shown: a modifier `isStuck` if it is not refused, and the face
meets its condition.  A modifier spends all dice if it is stuck and picks a die, and ends otherwise
(`course_apply`); and so do the modifiers of dice that are rolled (`course_roll`, `spends_roll`).
-/
import DiceFormula.Proofs.Dice.Repeated

namespace DiceFormula

set_option autoImplicit false

namespace Roller

/-- A roller that shows a face by the number of sides, after so many dice and with so many left. -/
def steady (face : Nat → Int) (drawn supply : Nat) : Roller :=
  ⟨fun _ sides => face sides, drawn, supply⟩

@[simp] theorem supply_steady (face : Nat → Int) (drawn supply : Nat) :
    (steady face drawn supply).supply = supply := rfl

theorem after_steady (face : Nat → Int) (drawn supply n : Nat) :
    (steady face drawn supply).after n = steady face (drawn + n) (supply - n) := rfl

theorem upcoming_steady (face : Nat → Int) (drawn supply n sides : Nat) :
    (steady face drawn supply).upcoming (.replicate n sides) = .replicate n (face sides) := by
  induction n generalizing drawn supply with
  | zero => rfl
  | succ n ih => rw [List.replicate_succ, upcoming, after_steady, ih, List.replicate_succ]; rfl

/-- All dice that are left show the same face. -/
theorem ahead_steady (face : Nat → Int) (drawn supply sides : Nat) :
    (steady face drawn supply).ahead sides = .replicate supply (face sides) :=
  upcoming_steady face drawn supply supply sides

/-- The lowest face of a die. -/
def low (sides : Nat) : Int := (min sides 1 : Nat)

/-- The highest face of a die. -/
def high (sides : Nat) : Int := sides

theorem lowest_eq (supply : Nat) : lowest supply = steady low 0 supply := rfl

theorem highest_eq (supply : Nat) : highest supply = steady high 0 supply := rfl

end Roller

/-! ## Computations that end -/

namespace Rolling

variable {α β : Type} {face : Nat → Int}

/-- With a steady roller, the computation comes to a result after so many dice, and wants for dice
if there are fewer. -/
structure Ends (face : Nat → Int) (x : Rolling α) (result : Except RollFailure α) (draws : Nat) :
    Prop where
  unspent : result ≠ .error (.fault .diceSpent)
  enough : ∀ drawn supply, x.run.run (.steady face drawn (draws + supply)) =
    (result, .steady face (drawn + draws) supply)
  short : ∀ drawn supply, supply < draws → x.run.run (.steady face drawn supply) =
    (.error (.fault .diceSpent), .steady face (drawn + supply) 0)

/-- With a steady roller, the computation wants for dice however many there are. -/
def Spends (face : Nat → Int) (x : Rolling α) : Prop :=
  ∀ drawn supply, x.run.run (.steady face drawn supply) =
    (.error (.fault .diceSpent), .steady face (drawn + supply) 0)

/-- The computation ends, or it spends all dice for a reason. -/
inductive Course (face : Nat → Int) (x : Rolling α) (reason : Prop) : Prop
  | ends {result : Except RollFailure α} {draws : Nat} (ends : Ends face x result draws) :
      Course face x reason
  | spends (spends : Spends face x) (holds : reason) : Course face x reason

theorem Course.mono {x : Rolling α} {reason reason' : Prop} (course : Course face x reason)
    (implies : reason → reason') : Course face x reason' := by
  cases course with
  | ends ends => exact .ends ends
  | spends spends holds => exact .spends spends (implies holds)

theorem ends_still {x : Rolling α} {result : Except RollFailure α}
    (unspent : result ≠ .error (.fault .diceSpent)) (still : ∀ r, x.run.run r = (result, r)) :
    Ends face x result 0 := by
  refine ⟨unspent, fun drawn supply => ?_, fun drawn supply fewer => absurd fewer (by simp)⟩
  rw [still, Nat.zero_add, Nat.add_zero]

theorem ends_pure (a : α) : Ends face (pure a) (.ok a) 0 :=
  ends_still (by simp) fun _ => rfl

theorem ends_fail (e : DiceError) : Ends face (fail e : Rolling α) (.error (.error e)) 0 :=
  ends_still (by simp) fun _ => rfl

/-- Dice are missing at first, or in what comes after. -/
theorem run_bind_short {x : Rolling α} {k : α → Rolling β} {a : α} {n drawn supply : Nat}
    (first : Ends face x (.ok a) n)
    (rest : ∀ supply', supply = n + supply' → (k a).run.run (.steady face (drawn + n) supply') =
      (.error (.fault .diceSpent), .steady face (drawn + n + supply') 0)) :
    (x >>= k).run.run (.steady face drawn supply) =
      (.error (.fault .diceSpent), .steady face (drawn + supply) 0) := by
  by_cases few : supply < n
  · rw [run_bind, first.short drawn supply few]
  · obtain ⟨supply', rfl⟩ : ∃ supply', supply = n + supply' := ⟨supply - n, by omega⟩
    rw [run_bind, first.enough]
    dsimp only
    rw [rest supply' rfl, Nat.add_assoc]

theorem ends_bind {x : Rolling α} {k : α → Rolling β} {a : α} {result : Except RollFailure β}
    {n m : Nat} (first : Ends face x (.ok a) n) (rest : Ends face (k a) result m) :
    Ends face (x >>= k) result (n + m) := by
  refine ⟨rest.unspent, fun drawn supply => ?_, fun drawn supply fewer => ?_⟩
  · rw [run_bind, Nat.add_assoc, first.enough]
    dsimp only
    rw [rest.enough, Nat.add_assoc]
  · refine run_bind_short first ?_
    rintro supply' rfl
    exact rest.short _ _ (by omega)

theorem ends_first {x : Rolling α} {k : α → Rolling β} {a : α} {result : Except RollFailure β}
    {n : Nat} (first : Ends face x (.ok a) 0) (rest : Ends face (k a) result n) :
    Ends face (x >>= k) result n := by
  have both := ends_bind first rest
  rwa [Nat.zero_add] at both

theorem ends_last {x : Rolling α} {k : α → Rolling β} {a : α} {result : Except RollFailure β}
    {n : Nat} (first : Ends face x (.ok a) n) (rest : Ends face (k a) result 0) :
    Ends face (x >>= k) result n :=
  ends_bind first rest

theorem ends_bind_error {x : Rolling α} {k : α → Rolling β} {e : RollFailure} {n : Nat}
    (first : Ends face x (.error e) n) : Ends face (x >>= k) (.error e) n := by
  refine ⟨fun spent => first.unspent ?_, fun drawn supply => ?_, fun drawn supply fewer => ?_⟩
  · cases spent
    rfl
  · rw [run_bind, first.enough]
  · rw [run_bind, first.short drawn supply fewer]

theorem spends_first {x : Rolling α} {k : α → Rolling β} (first : Spends face x) :
    Spends face (x >>= k) := by
  intro drawn supply
  rw [run_bind, first drawn supply]

theorem spends_bind {x : Rolling α} {k : α → Rolling β} {a : α} {n : Nat}
    (first : Ends face x (.ok a) n) (rest : Spends face (k a)) : Spends face (x >>= k) :=
  fun _ _ => run_bind_short first fun supply' _ => rest _ supply'

theorem course_bind {x : Rolling α} {k : α → Rolling β} {reason : Prop}
    (first : Course face x reason) (rest : ∀ a, Course face (k a) reason) :
    Course face (x >>= k) reason := by
  cases first with
  | spends spends holds => exact .spends (spends_first spends) holds
  | @ends result n ends =>
      cases result with
      | error e => exact .ends (ends_bind_error ends)
      | ok a =>
          cases rest a with
          | ends ends' => exact .ends (ends_bind ends ends')
          | spends spends holds => exact .spends (spends_bind ends spends) holds

/-! ## Drawing -/

theorem ends_draw (sides : Nat) : Ends face (draw sides) (.ok (.fresh (face sides))) 1 := by
  refine ⟨by simp, fun drawn supply => ?_, fun drawn supply fewer => ?_⟩
  · rw [Nat.add_comm 1, draw, run_get]
    rfl
  · obtain rfl : supply = 0 := by omega
    rw [draw, run_get]
    rfl

theorem ends_drawMany (sides n : Nat) :
    Ends face (drawMany sides n) (.ok (.replicate n (.fresh (face sides)))) n := by
  induction n with
  | zero => exact ends_pure []
  | succ n ih =>
      rw [drawMany, List.replicate_succ, Nat.add_comm]
      exact ends_bind (ends_draw sides) (ends_last ih (ends_pure _))

theorem ends_drawAdded (face : Nat → Int) (m : Modifier) (sides n : Nat) :
    Ends face (drawAdded m sides n) (.ok (.replicate n (.extra m (face sides)))) n := by
  induction n with
  | zero => exact ends_pure []
  | succ n ih =>
      have add : Ends face (ofFault ((Die.fresh (face sides)).add m))
          (.ok (.extra m (face sides))) 0 := ends_pure _
      rw [drawAdded, List.replicate_succ, Nat.add_comm]
      exact ends_bind (ends_draw sides) (ends_first add (ends_last ih (ends_pure _)))

/-- Dropping a die twice is a fault, but not that dice are missing. -/
theorem ends_dropAt (face : Nat → Int) (m : Modifier) (positions : List Nat) (dice : List Die) :
    ∃ result, Ends face (ofFault (Die.dropAt m positions dice)) result 0 := by
  cases dropped : Die.dropAt m positions dice with
  | ok dice' => exact ⟨_, ends_pure dice'⟩
  | error f =>
      refine ⟨.error (.fault f), ends_still ?_ fun _ => rfl⟩
      rintro ⟨⟩
      obtain ⟨⟨die, i⟩, -, failed⟩ := error_of_mapM dropped
      dsimp only at failed
      split at failed
      · unfold Die.drop at failed
        split at failed <;> cases failed
      · cases failed

end Rolling

/-! ## Modifiers -/

namespace Modifier

open Rolling

/-- The modifier goes on as long as the face is shown, though it is not refused. -/
def isStuck (face : Int) (sides : Nat) : Modifier → Bool
  | reroll condition true => !condition.alwaysMet sides && condition.check face
  | explode condition true => !endless condition sides && explodes condition sides face
  | _ => false

variable {face : Nat → Int} {m : Modifier} {sides : Nat} {dice : List Die}

theorem isStuck_iff {value : Int} : m.isStuck value sides = true ↔
    m.isRepeated = true ∧ ¬ m.IsEndless sides ∧ m.meets sides value = true := by
  cases m with
  | reroll condition again | explode condition again =>
      cases again <;> simp [isStuck, isRepeated, IsEndless, meets]
  | _ => simp [isStuck, isRepeated]

/-- A stuck modifier that picks a die never ends. -/
theorem spends_apply (stuck : m.isStuck (face sides) sides = true)
    (picked : 0 < dice.countP (m.picks sides)) : Spends face (m.apply sides dice) := by
  obtain ⟨repeated, passes, meets⟩ := isStuck_iff.1 stuck
  intro drawn supply
  have supplies := supplies_apply repeated passes dice (.steady face drawn supply)
  generalize (m.apply sides dice).run.run (.steady face drawn supply) = outcome at supplies
  cases supplies with
  | enough reaches =>
      -- all faces meet the condition, so none of them can be one that misses it
      rw [Roller.ahead_steady] at reaches
      have few := reaches.front.sublist.countP_le (p := m.misses sides)
      rw [reaches.count, List.countP_replicate, misses, meets] at few
      exact absurd picked (Nat.not_lt.2 few)
  | short few => rw [Roller.supply_steady, Roller.after_steady, Nat.sub_self]

/-- Where the face that is shown misses the condition, one round is enough. -/
theorem ends_repeated (repeated : m.isRepeated = true) (passes : ¬ m.IsEndless sides) {n : Nat}
    (picked : dice.countP (m.picks sides) = n) (free : m.misses sides (face sides) = false → n = 0) :
    Ends face (m.apply sides dice) (.ok (m.settled dice (.replicate n (face sides)))) n := by
  have supplies (drawn supply : Nat) :=
    supplies_apply repeated passes dice (.steady face drawn supply)
  simp only [picked] at supplies
  refine ⟨by simp, fun drawn supply => ?_, fun drawn supply fewer => ?_⟩
  · have supplies := supplies drawn (n + supply)
    generalize (m.apply sides dice).run.run (.steady face drawn (n + supply)) = outcome at supplies
    cases supplies with
    | enough reaches =>
        rw [Roller.ahead_steady] at reaches
        rw [reaches.eq_replicate free, List.length_replicate, Roller.after_steady,
          Nat.add_sub_cancel_left]
    | short few =>
        rw [Roller.ahead_steady, List.countP_replicate] at few
        split at few
        · omega
        · rename_i missed
          have none := free (Bool.eq_false_of_not_eq_true missed)
          omega
  · have supplies := supplies drawn supply
    generalize (m.apply sides dice).run.run (.steady face drawn supply) = outcome at supplies
    cases supplies with
    | enough reaches =>
        have few := reaches.count_le
        rw [Roller.length_ahead, Roller.supply_steady] at few
        omega
    | short few => rw [Roller.supply_steady, Roller.after_steady, Nat.sub_self]

/-- Other modifiers end. -/
theorem ends_apply (free : m.isStuck (face sides) sides = true → dice.countP (m.picks sides) = 0) :
    ∃ result draws, Ends face (m.apply sides dice) result draws := by
  by_cases always : m.IsEndless sides
  · exact ⟨_, _, ends_still (by simp) (run_apply_endless always dice)⟩
  by_cases repeated : m.isRepeated = true
  · refine ⟨_, _, ends_repeated repeated always rfl fun meets => free ?_⟩
    exact isStuck_iff.2 ⟨repeated, always, by simpa [misses] using meets⟩
  cases m with
  | reroll condition again =>
      obtain rfl : again = false := Bool.eq_false_of_not_eq_true repeated
      show ∃ result draws, Ends face (rerollOnce _ condition sides dice) result draws
      rw [rerollOnce_eq]
      exact ⟨_, _, ends_last (ends_drawAdded face _ sides _) (ends_pure _)⟩
  | explode condition again =>
      obtain rfl : again = false := Bool.eq_false_of_not_eq_true repeated
      exact ⟨_, _, ends_last (ends_drawAdded face _ sides _) (ends_pure _)⟩
  | keepHigh n | keepLow n | dropHigh n | dropLow n =>
      obtain ⟨result, ends⟩ := ends_dropAt face _ _ dice
      exact ⟨result, 0, ends⟩
  | raise | cap | countSuccess | countFailure => exact ⟨_, _, ends_pure _⟩

/-- **Applying a modifier ends, unless it is stuck and picks a die.** -/
theorem course_apply (m : Modifier) (sides : Nat) (dice : List Die) :
    Course face (m.apply sides dice) (m.isStuck (face sides) sides = true) := by
  by_cases picked : m.isStuck (face sides) sides = true ∧ 0 < dice.countP (m.picks sides)
  · exact .spends (spends_apply picked.1 picked.2) picked.1
  · have free : m.isStuck (face sides) sides = true → dice.countP (m.picks sides) = 0 :=
      fun stuck => Nat.eq_zero_of_not_pos fun some => picked ⟨stuck, some⟩
    obtain ⟨result, draws, ends⟩ := ends_apply free
    exact .ends ends

theorem course_applyAll (sides : Nat) (modifiers : List Modifier) (dice : List Die) :
    Course face (applyAll sides modifiers dice)
      (∃ m ∈ modifiers, m.isStuck (face sides) sides = true) := by
  induction modifiers generalizing dice with
  | nil => exact .ends (ends_pure dice)
  | cons m rest ih =>
      rw [applyAll]
      refine course_bind ?_ fun dice' => (ih dice').mono ?_
      · exact (course_apply m sides dice).mono fun stuck => ⟨m, List.mem_cons_self, stuck⟩
      · rintro ⟨m', mem, stuck⟩
        exact ⟨m', List.mem_cons_of_mem m mem, stuck⟩

end Modifier

/-! ## Dice -/

namespace Dice

open Rolling

variable {face : Nat → Int}

/-- No modifier of the dice is stuck. -/
def IsCalm (face : Nat → Int) (d : Dice) : Prop :=
  ∀ m ∈ d.modifiers, m.isStuck (face d.sides) d.sides = false

instance (face : Nat → Int) (d : Dice) : Decidable (d.IsCalm face) :=
  inferInstanceAs (Decidable (∀ m ∈ d.modifiers, m.isStuck (face d.sides) d.sides = false))

/-- **Rolling dice ends, unless a modifier is stuck.** -/
theorem course_roll (d : Dice) : Course face (d.roll true) (¬ d.IsCalm face) := by
  unfold roll
  split
  · exact .ends (ends_fail _)
  · refine course_bind (.ends (ends_drawMany d.sides d.count)) fun rolls => ?_
    refine course_bind ?_ fun rolls' => .ends (ends_pure _)
    refine (Modifier.course_applyAll d.sides d.modifiers rolls).mono ?_
    rintro ⟨m, mem, stuck⟩ calm
    rw [calm m mem] at stuck
    cases stuck

/-- **Dice whose first modifier is stuck are rolled for ever**, as each of them is picked. -/
theorem spends_roll {d : Dice} {m : Modifier} {rest : List Modifier}
    (first : d.modifiers = m :: rest) (stuck : m.isStuck (face d.sides) d.sides = true)
    (some : 0 < d.count) (few : d.count ≤ maxCount) : Spends face (d.roll true) := by
  have picks : m.picks d.sides (.fresh (face d.sides)) = true := by
    obtain ⟨-, -, meets⟩ := Modifier.isStuck_iff.1 stuck
    simpa [Modifier.picks_eq, Die.isKept, Die.fresh] using meets
  have picked : 0 < (List.replicate d.count (Die.fresh (face d.sides))).countP (m.picks d.sides) := by
    rw [List.countP_replicate, if_pos picks]
    exact some
  rw [roll, if_neg (Nat.not_lt.2 few), first]
  refine spends_bind (ends_drawMany d.sides d.count) (spends_first ?_)
  exact spends_first (Modifier.spends_apply stuck picked)

end Dice

end DiceFormula
