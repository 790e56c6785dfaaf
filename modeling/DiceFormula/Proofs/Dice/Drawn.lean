/-
# DiceFormula.Proofs.Dice.Drawn -- the dice that a roll draws

Modifiers mark dice and change their values, but `Die.drawn` is the face that a die fell
with, whatever became of it.  A roll that succeeds tells of every die that it drew, in the
order in which they fell (`tells_roll`): rerolled dice stay where they are, and dice that are
added stand behind the others.

A roll that fails tells of none.  All that is known then is that its dice had the same sides.
-/
import DiceFormula.Dice.Rolled
import DiceFormula.Proofs.Computation

namespace DiceFormula

set_option autoImplicit false

/-! ## Faces -/

namespace Die

/-- The face that the die fell with, before any change. -/
def drawn (d : Die) : Int := (d.changes.head?.map Change.before).getD d.value

@[simp] theorem drawn_score (success : Bool) (d : Die) : (d.score success).drawn = d.drawn := rfl

@[simp] theorem drawn_change (m : Modifier) (value : Int) (d : Die) :
    (d.change m value).drawn = d.drawn := by
  unfold drawn change
  cases d.changes <;> rfl

theorem drawn_add {m : Modifier} {d d' : Die} (added : d.add m = .ok d') : d'.drawn = d.drawn := by
  unfold add at added
  split at added
  · cases added
  · cases added
    rfl

theorem drawn_drop {m : Modifier} {d d' : Die} (dropped : d.drop m = .ok d') :
    d'.drawn = d.drawn := by
  unfold drop at dropped
  split at dropped
  · cases dropped
  · cases dropped
    rfl

theorem isDropped_eq (d : Die) : d.isDropped = !d.isKept := by
  rw [isDropped, isKept, Option.not_isNone]

/-- A kept die can be dropped. -/
theorem drop_kept {d : Die} (kept : d.isKept = true) (m : Modifier) :
    d.drop m = .ok { d with droppedBy := some m } := by
  rw [drop, isDropped_eq, kept]
  rfl

/-- A die that a modifier added. -/
def extra (m : Modifier) (value : Int) : Die := { fresh value with addedBy := some m }

/-- The faces that dice fell with. -/
def drawnAll (dice : List Die) : List Int := dice.map drawn

@[simp] theorem drawnAll_append (dice added : List Die) :
    drawnAll (dice ++ added) = drawnAll dice ++ drawnAll added := List.map_append

/-- Marks do not touch the faces. -/
theorem drawnAll_mapM {α : Type} {f : α → Except Fault Die} {g : α → Die}
    (keeps : ∀ a d, f a = .ok d → d.drawn = (g a).drawn) {as : List α} {dice : List Die}
    (ok : as.mapM f = .ok dice) : drawnAll dice = drawnAll (as.map g) := by
  have each := mapM_ok_iff.mp ok
  clear ok
  induction each with
  | nil => rfl
  | @cons a d _ _ marked _ ih =>
      rw [drawnAll, List.map_cons, List.map_cons, drawnAll, List.map_cons, keeps a d marked]
      exact congrArg _ ih

theorem drawnAll_map {f : Die → Die} (keeps : ∀ d, (f d).drawn = d.drawn) (dice : List Die) :
    drawnAll (dice.map f) = drawnAll dice := by
  rw [drawnAll, List.map_map]
  exact List.map_congr_left fun d _ => keeps d

theorem drawnAll_mapKept (test : Int → Bool) {f : Die → Die} (keeps : ∀ d, (f d).drawn = d.drawn)
    (dice : List Die) : drawnAll (mapKept test f dice) = drawnAll dice := by
  refine drawnAll_map (fun d => ?_) dice
  split
  · exact keeps d
  · rfl

theorem drawnAll_scoreAll (condition : Condition) (dice : List Die) :
    drawnAll (scoreAll condition dice) = drawnAll dice := by
  refine drawnAll_map (fun d => ?_) dice
  split <;> rfl

theorem drawnAll_dropAt {m : Modifier} {positions : List Nat} {dice dice' : List Die}
    (ok : dropAt m positions dice = .ok dice') : drawnAll dice' = drawnAll dice := by
  have marks : ∀ (p : Die × Nat) (d' : Die),
      (if p.2 ∈ positions then p.1.drop m else .ok p.1) = .ok d' → d'.drawn = p.1.drawn := by
    intro p d' marked
    split at marked
    · exact drawn_drop marked
    · cases marked
      rfl
  rw [drawnAll_mapM marks ok, List.zipIdx_map_fst]

end Die

/-! ## Drawing from a roller -/

/-- A die that was drawn. -/
structure Throw where
  sides : Nat
  face : Int
deriving DecidableEq, Repr

namespace Roller

/-- The roller once it showed a number of dice more. -/
def after (r : Roller) (n : Nat) : Roller :=
  { r with drawn := r.drawn + n, supply := r.supply - n }

theorem after_zero (r : Roller) : r.after 0 = r := rfl

theorem after_after (r : Roller) (n m : Nat) : (r.after n).after m = r.after (n + m) := by
  simp [after, Nat.add_assoc, Nat.sub_sub]

/-- The faces of the next dice, by their numbers of sides. -/
def upcoming (r : Roller) : List Nat → List Int
  | [] => []
  | sides :: rest => r.face r.drawn sides :: (r.after 1).upcoming rest

theorem length_upcoming (r : Roller) (sides : List Nat) :
    (r.upcoming sides).length = sides.length := by
  induction sides generalizing r with
  | nil => rfl
  | cons s rest ih => rw [upcoming, List.length_cons, List.length_cons, ih]

theorem upcoming_append (r : Roller) (first rest : List Nat) :
    r.upcoming (first ++ rest) = r.upcoming first ++ (r.after first.length).upcoming rest := by
  induction first generalizing r with
  | nil => rfl
  | cons sides first ih =>
      rw [List.cons_append, upcoming, upcoming, ih, List.cons_append, after_after,
        List.length_cons, Nat.add_comm 1]

/-- A tape shows its faces in order. -/
theorem upcoming_tape {faces : List Int} {sides : List Nat} (enough : sides.length ≤ faces.length) :
    (tape faces).upcoming sides = faces.take sides.length := by
  have from_ (n : Nat) (within : n + sides.length ≤ faces.length) :
      ((tape faces).after n).upcoming sides = (faces.drop n).take sides.length := by
    clear enough
    induction sides generalizing n with
    | nil => rfl
    | cons s rest ih =>
        rw [List.length_cons] at within
        have inside : n < faces.length := by omega
        have shown : ((tape faces).after n).face ((tape faces).after n).drawn s = faces[n] := by
          simp [tape, after, Array.getD, inside]
        rw [upcoming, shown, after_after, ih (n + 1) (by omega), List.length_cons,
          List.drop_eq_getElem_cons inside, List.take_succ_cons]
  have whole := from_ 0 (by omega)
  rwa [after_zero, List.drop_zero] at whole

/-- The dice `throws` were drawn one after the other. -/
structure Draws (r : Roller) (throws : List Throw) (r' : Roller) : Prop where
  supplied : throws.length ≤ r.supply
  faces : throws.map Throw.face = r.upcoming (throws.map Throw.sides)
  behind : r' = r.after throws.length

theorem Draws.nothing (r : Roller) : r.Draws [] r := ⟨Nat.zero_le _, rfl, rfl⟩

theorem Draws.one {r : Roller} (supplied : 0 < r.supply) (sides : Nat) :
    r.Draws [⟨sides, r.face r.drawn sides⟩] (r.after 1) := ⟨supplied, rfl, rfl⟩

theorem Draws.trans {r r' r'' : Roller} {first rest : List Throw} (draws : r.Draws first r')
    (draws' : r'.Draws rest r'') : r.Draws (first ++ rest) r'' := by
  obtain ⟨supplied, faces, rfl⟩ := draws
  obtain ⟨supplied', faces', rfl⟩ := draws'
  refine ⟨?_, ?_, ?_⟩
  · rw [after] at supplied'
    rw [List.length_append]
    dsimp only at supplied'
    omega
  · rw [List.map_append, List.map_append, upcoming_append, faces, faces', List.length_map]
  · rw [after_after, List.length_append]

end Roller

/-! ## Computations -/

namespace Rolling

/-- Whatever comes of the computation, the dice that it draws have so many sides; and its
result tells of what was told before it and then of the faces that it drew. -/
def Tells {α : Type} (sides : Nat) (before : List Int) (told : α → List Int) (x : Rolling α) :
    Prop :=
  ∀ r : Roller, ∃ faces : List Int, r.Draws (faces.map (Throw.mk sides)) (x.run.run r).2 ∧
    ∀ a, (x.run.run r).1 = .ok a → told a = before ++ faces

section Tells

variable {α β : Type} {sides : Nat} {before : List Int} {told : α → List Int}

theorem tells_pure {a : α} (same : told a = before) : Tells sides before told (pure a) := by
  refine fun r => ⟨[], .nothing r, fun b ok => ?_⟩
  cases ok
  rw [same, List.append_nil]

theorem tells_throw (e : RollFailure) : Tells sides before told (throw e) :=
  fun r => ⟨[], .nothing r, fun _ ok => by cases ok⟩

theorem tells_ofFault {x : Except Fault α} (same : ∀ a, x = .ok a → told a = before) :
    Tells sides before told (ofFault x) := by
  cases x with
  | error f => exact tells_throw (.fault f)
  | ok a => exact tells_pure (same a rfl)

theorem ok_of_run_ofFault {x : Except Fault α} {a : α} {r : Roller}
    (ok : ((ofFault x).run.run r).1 = .ok a) : x = .ok a := by
  cases x with
  | error f => cases ok
  | ok b =>
      cases ok
      rfl

theorem tells_bind {told' : β → List Int} {x : Rolling α} {k : α → Rolling β}
    (first : Tells sides before told x) (rest : ∀ a, Tells sides (told a) told' (k a)) :
    Tells sides before told' (x >>= k) := by
  intro r
  obtain ⟨faces, draws, tells⟩ := first r
  rw [run_bind]
  revert draws tells
  rcases x.run.run r with ⟨result, r'⟩
  intro draws tells
  cases result with
  | error e => exact ⟨faces, draws, fun _ ok => by cases ok⟩
  | ok a =>
      obtain ⟨faces', draws', tells'⟩ := rest a r'
      refine ⟨faces ++ faces', ?_, fun b ok => ?_⟩
      · rw [List.map_append]
        exact draws.trans draws'
      · rw [tells' b ok, tells a rfl, List.append_assoc]

end Tells

/-! ## Drawing -/

theorem run_draw {r : Roller} (supplied : 0 < r.supply) (sides : Nat) :
    (draw sides).run.run r = (.ok (.fresh (r.face r.drawn sides)), r.after 1) := by
  obtain ⟨n, left⟩ : ∃ n, r.supply = n + 1 := ⟨r.supply - 1, by omega⟩
  rw [draw, run_get, Roller.after, left]
  rfl

theorem run_draw_spent {r : Roller} (empty : r.supply = 0) (sides : Nat) :
    (draw sides).run.run r = (.error (.fault .diceSpent), r) := by
  rw [draw, run_get, empty]
  rfl

/-- Dice are drawn as long as there are enough. -/
theorem run_drawMany {r : Roller} {n : Nat} (supplied : n ≤ r.supply) (sides : Nat) :
    (drawMany sides n).run.run r =
      (.ok ((r.upcoming (.replicate n sides)).map Die.fresh), r.after n) := by
  induction n generalizing r with
  | zero => rfl
  | succ n ih =>
      have others : n ≤ (r.after 1).supply := Nat.le_sub_of_add_le supplied
      rw [drawMany, run_bind, run_draw (Nat.lt_of_lt_of_le n.succ_pos supplied)]
      dsimp only
      rw [run_bind, ih others, List.replicate_succ, Roller.upcoming, List.map_cons,
        Roller.after_after, Nat.add_comm 1]
      rfl

theorem run_drawMany_short {r : Roller} {n : Nat} (few : r.supply < n) (sides : Nat) :
    (drawMany sides n).run.run r = (.error (.fault .diceSpent), r.after r.supply) := by
  induction n generalizing r with
  | zero => omega
  | succ n ih =>
      rw [drawMany, run_bind]
      rcases Nat.eq_zero_or_pos r.supply with empty | supplied
      · rw [run_draw_spent empty, empty, Roller.after_zero]
      · have others : (r.after 1).supply < n := by simp [Roller.after]; omega
        have all : 1 + (r.after 1).supply = r.supply := by simp [Roller.after]; omega
        rw [run_draw supplied]
        dsimp only
        rw [run_bind, ih others, Roller.after_after, all]

variable (sides : Nat) (before : List Int)

theorem tells_draw : Tells sides before (fun die => before ++ [die.drawn]) (draw sides) := by
  intro r
  rcases Nat.eq_zero_or_pos r.supply with empty | supplied
  · rw [run_draw_spent empty]
    exact ⟨[], .nothing r, fun _ ok => by cases ok⟩
  · rw [run_draw supplied]
    refine ⟨[r.face r.drawn sides], .one supplied sides, fun die ok => ?_⟩
    cases ok
    rfl

theorem tells_drawMany (n : Nat) :
    Tells sides before (fun dice => before ++ Die.drawnAll dice) (drawMany sides n) := by
  induction n generalizing before with
  | zero => exact tells_pure (List.append_nil before)
  | succ n ih =>
      refine tells_bind (tells_draw sides before) fun die => ?_
      refine tells_bind (ih _) fun rest => tells_pure ?_
      rw [Die.drawnAll, Die.drawnAll, List.map_cons, List.append_assoc, List.singleton_append]

theorem tells_drawAdded (m : Modifier) (n : Nat) :
    Tells sides before (fun added => before ++ Die.drawnAll added) (drawAdded m sides n) := by
  induction n generalizing before with
  | zero => exact tells_pure (List.append_nil before)
  | succ n ih =>
      refine tells_bind (tells_draw sides before) fun die => ?_
      have keeps (die' : Die) (added : die.add m = .ok die') :
          before ++ [die'.drawn] = before ++ [die.drawn] := by rw [Die.drawn_add added]
      refine tells_bind (tells_ofFault keeps) fun die' => ?_
      refine tells_bind (ih _) fun rest => tells_pure ?_
      rw [Die.drawnAll, Die.drawnAll, List.map_cons, List.append_assoc, List.singleton_append]

/-- What is drawn from depends on the supply, which tells of no dice. -/
theorem tells_get {β : Type} {told : β → List Int} {k : Roller → Rolling β}
    (rest : ∀ r, Tells sides before told (k r)) : Tells sides before told (get >>= k) := by
  have seen : Tells sides before (fun _ => before) (get : Rolling Roller) :=
    fun r => ⟨[], .nothing r, fun _ _ => (List.append_nil before).symm⟩
  exact tells_bind seen rest

end Rolling

/-! ## Rerolled dice -/

namespace Condition

/-- The die as it is left when those that meet the condition are rerolled. -/
def retire (c : Condition) (m : Modifier) (die : Die) : Die :=
  if c.selects die then { die with droppedBy := some m } else die

variable (c : Condition) (m : Modifier)

theorem drawn_retire (die : Die) : (c.retire m die).drawn = die.drawn := by
  unfold retire
  split <;> rfl

theorem retire_of_not_selects {die : Die} (left : c.selects die = false) : c.retire m die = die := by
  simp [retire, left]

@[simp] theorem selects_retire (die : Die) : c.selects (c.retire m die) = false := by
  unfold retire
  split
  · simp [selects, Die.isKept]
  · rename_i left
    exact Bool.eq_false_of_not_eq_true left

@[simp] theorem retire_retire (die : Die) : c.retire m (c.retire m die) = c.retire m die :=
  c.retire_of_not_selects m (c.selects_retire m die)

theorem countP_retire (dice : List Die) : (dice.map (c.retire m)).countP c.selects = 0 := by
  simp [List.countP_eq_zero]

/-- Dice that meet the condition are kept, so each of them can be dropped. -/
theorem mapM_retire (dice : List Die) :
    (dice.mapM fun die => if c.selects die then die.drop m else .ok die) =
      .ok (dice.map (c.retire m)) := by
  rw [mapM_ok_iff, List.forall₂_map_right_iff, List.forall₂_same]
  intro die _
  unfold retire
  split
  · rename_i selected
    exact Die.drop_kept (Bool.and_eq_true_iff.1 selected).1 m
  · rfl

end Condition

/-! ## Modifiers -/

namespace Modifier

open Rolling

variable (m : Modifier) (sides : Nat)

theorem rerollOnce_eq (condition : Condition) (dice : List Die) :
    rerollOnce m condition sides dice =
      drawAdded m sides (dice.countP condition.selects) >>= fun added =>
        pure (dice.map (condition.retire m) ++ added) := by
  rw [rerollOnce, condition.mapM_retire m dice]
  rfl

theorem tells_rerollOnce (condition : Condition) (dice : List Die) :
    Tells sides (Die.drawnAll dice) Die.drawnAll (rerollOnce m condition sides dice) := by
  rw [rerollOnce_eq]
  refine tells_bind (tells_drawAdded sides _ m _) fun added => tells_pure ?_
  rw [Die.drawnAll_append, Die.drawnAll_map (condition.drawn_retire m)]

theorem tells_rerollRounds (condition : Condition) (rounds : Nat) (dice : List Die) :
    Tells sides (Die.drawnAll dice) Die.drawnAll
      (rerollRounds m condition sides rounds dice) := by
  induction rounds generalizing dice with
  | zero => exact tells_throw _
  | succ rounds ih =>
      unfold rerollRounds
      split
      · exact tells_bind (tells_rerollOnce m sides condition dice) ih
      · exact tells_pure rfl

theorem tells_applyReroll (condition : Condition) (again : Bool) (dice : List Die) :
    Tells sides (Die.drawnAll dice) Die.drawnAll
      (applyReroll m condition again sides dice) := by
  unfold applyReroll
  split
  · split
    · exact tells_throw _
    · exact tells_get sides _ fun r => tells_rerollRounds m sides condition _ dice
  · exact tells_rerollOnce m sides condition dice

theorem tells_explodeRounds (condition : Option Condition) (rounds n : Nat) (before : List Int) :
    Tells sides before (fun added => before ++ Die.drawnAll added)
      (explodeRounds m condition sides rounds n) := by
  induction rounds generalizing n before with
  | zero => exact tells_throw _
  | succ rounds ih =>
      unfold explodeRounds
      split
      · exact tells_pure (List.append_nil before)
      · refine tells_bind (tells_drawAdded sides before m n) fun added => ?_
        refine tells_bind (ih _ _) fun rest => tells_pure ?_
        rw [Die.drawnAll_append, List.append_assoc]

theorem tells_applyExplode (condition : Option Condition) (again : Bool) (dice : List Die) :
    Tells sides (Die.drawnAll dice) Die.drawnAll
      (applyExplode m condition again sides dice) := by
  unfold applyExplode
  split
  · split
    · exact tells_throw _
    · refine tells_get sides _ fun r => ?_
      exact tells_bind (tells_explodeRounds m sides condition _ _ _) fun added =>
        tells_pure (Die.drawnAll_append dice added)
  · exact tells_bind (tells_drawAdded sides _ m _) fun added =>
      tells_pure (Die.drawnAll_append dice added)

/-- Modifiers neither lose nor reorder dice, and those that they add stand at the end. -/
theorem tells_apply (dice : List Die) :
    Tells sides (Die.drawnAll dice) Die.drawnAll (m.apply sides dice) := by
  cases m with
  | reroll condition again => exact tells_applyReroll _ sides condition again dice
  | explode condition again => exact tells_applyExplode _ sides condition again dice
  | keepHigh n | keepLow n | dropHigh n | dropLow n =>
      exact tells_ofFault fun _ ok => Die.drawnAll_dropAt ok
  | raise least => exact tells_pure (Die.drawnAll_mapKept _ (Die.drawn_change _ least) dice)
  | cap most => exact tells_pure (Die.drawnAll_mapKept _ (Die.drawn_change _ most) dice)
  | countSuccess condition => exact tells_pure (Die.drawnAll_scoreAll condition dice)
  | countFailure condition => exact tells_pure (Die.drawnAll_mapKept _ (Die.drawn_score false) dice)

theorem tells_applyAll (modifiers : List Modifier) (dice : List Die) :
    Tells sides (Die.drawnAll dice) Die.drawnAll (applyAll sides modifiers dice) := by
  induction modifiers generalizing dice with
  | nil => exact tells_pure rfl
  | cons m rest ih => exact tells_bind (tells_apply m sides dice) ih

/-- Modifiers are applied one after the other. -/
theorem applyAll_append (first rest : List Modifier) (dice : List Die) :
    applyAll sides (first ++ rest) dice = applyAll sides first dice >>= applyAll sides rest := by
  induction first generalizing dice with
  | nil => rw [List.nil_append, applyAll, pure_bind]
  | cons m first ih =>
      rw [List.cons_append, applyAll, applyAll, bind_assoc]
      exact congrArg _ (funext ih)

/-- Modifiers that only select or score draw no dice. -/
theorem apply_selective {m : Modifier} (selective : m.isSelective) (dice : List Die) :
    ∃ x : Except Fault (List Die), m.apply sides dice = ofFault x := by
  cases m with
  | keepHigh | keepLow | dropHigh | dropLow => exact ⟨_, rfl⟩
  | countSuccess condition => exact ⟨.ok (Die.scoreAll condition dice), rfl⟩
  | countFailure condition => exact ⟨.ok (Die.failAll condition dice), rfl⟩
  | reroll | explode | raise | cap => cases selective

end Modifier

/-! ## Rolls -/

namespace Rolled

/-- The dice that were drawn for the roll, in order. -/
def throws (r : Rolled) : List Throw :=
  (Die.drawnAll r.rolls).map (Throw.mk r.dice.sides)

end Rolled

namespace Dice

open Rolling

/-- Rolling dice draws them and then applies the modifiers, if at all. -/
theorem roll_eq (d : Dice) (modified : Bool) :
    d.roll modified =
      if maxCount < d.count then Rolling.fail (.tooManyDice d.count)
      else drawMany d.sides d.count >>= fun rolls =>
        (if modified then Modifier.applyAll d.sides d.modifiers rolls else pure rolls) >>=
          fun rolls => pure ⟨rolls, d⟩ := by
  unfold roll
  cases modified <;> rfl

theorem tells_roll (d : Dice) (modified : Bool) :
    Tells d.sides [] (fun rolled => Die.drawnAll rolled.rolls) (d.roll modified) := by
  rw [roll_eq]
  split
  · exact tells_throw _
  · refine tells_bind (tells_drawMany d.sides [] d.count) fun rolls => ?_
    have applied : Tells d.sides (Die.drawnAll rolls) Die.drawnAll
        (if modified then Modifier.applyAll d.sides d.modifiers rolls else pure rolls) := by
      split
      · exact Modifier.tells_applyAll d.sides d.modifiers rolls
      · exact tells_pure rfl
    exact tells_bind applied fun rolls => tells_pure rfl

/-- Dice are rolled as those with the earlier modifiers, and then the later ones are applied. -/
theorem roll_append {d : Dice} {earlier later : List Modifier}
    (written : d.modifiers = earlier ++ later) :
    d.roll true = { d with modifiers := earlier }.roll true >>= fun rolled =>
      Modifier.applyAll d.sides later rolled.rolls >>= fun rolls => pure ⟨rolls, d⟩ := by
  rw [roll_eq, roll_eq, written]
  dsimp only
  split
  · rfl
  · simp only [if_true, Modifier.applyAll_append, bind_assoc, pure_bind]

/-- If there are enough dice, they are drawn one after the other, and then the modifiers are
applied. -/
theorem run_roll {d : Dice} {r : Roller} (within : d.count ≤ maxCount)
    (supplied : d.count ≤ r.supply) :
    (d.roll true).run.run r =
      (Modifier.applyAll d.sides d.modifiers
          ((r.upcoming (.replicate d.count d.sides)).map Die.fresh) >>=
        fun rolls => pure ⟨rolls, d⟩).run.run (r.after d.count) := by
  rw [roll_eq, if_neg (Nat.not_lt.2 within), run_bind, run_drawMany supplied]
  rfl

/-- A roll that succeeds had enough dice, and modified those that were drawn. -/
theorem ok_of_run_roll {d : Dice} {r r' : Roller} {rolled : Rolled}
    (ok : (d.roll true).run.run r = (.ok rolled, r')) :
    d.count ≤ maxCount ∧ d.count ≤ r.supply ∧ ∃ rolls, rolled = ⟨rolls, d⟩ ∧
      (Modifier.applyAll d.sides d.modifiers
        ((r.upcoming (.replicate d.count d.sides)).map Die.fresh)).run.run (r.after d.count) =
          (.ok rolls, r') := by
  by_cases within : d.count ≤ maxCount
  · by_cases supplied : d.count ≤ r.supply
    · rw [run_roll within supplied] at ok
      obtain ⟨rolls, r'', applied, ok⟩ := exists_of_run_bind ok
      cases ok
      exact ⟨within, supplied, rolls, rfl, applied⟩
    · rw [roll_eq, if_neg (Nat.not_lt.2 within), run_bind,
        run_drawMany_short (Nat.lt_of_not_le supplied)] at ok
      cases ok
  · rw [roll_eq, if_pos (Nat.lt_of_not_le within)] at ok
    cases ok

/-- A roll is one of the dice that were asked for. -/
theorem dice_of_roll {d : Dice} {modified : Bool} {r : Roller} {rolled : Rolled}
    (ok : ((d.roll modified).run.run r).1 = .ok rolled) : rolled.dice = d := by
  rw [roll_eq] at ok
  split at ok
  · cases ok
  · obtain ⟨rolls, r', -, ok⟩ := ok_of_run_bind ok
    obtain ⟨rolls', r'', -, ok⟩ := ok_of_run_bind ok
    cases ok
    rfl

/-- **Rolling dice tells of every die drawn, and draws no other dice.**  A roll that fails tells
of none. -/
theorem draws_roll (d : Dice) (modified : Bool) (r : Roller) :
    ∃ throws : List Throw, r.Draws throws ((d.roll modified).run.run r).2 ∧
      (∀ throw ∈ throws, throw.sides = d.sides) ∧
      ∀ rolled, ((d.roll modified).run.run r).1 = .ok rolled → rolled.throws = throws := by
  obtain ⟨faces, draws, tells⟩ := tells_roll d modified r
  refine ⟨faces.map (Throw.mk d.sides), draws, fun throw drawn => ?_, fun rolled ok => ?_⟩
  · obtain ⟨face, -, rfl⟩ := List.mem_map.mp drawn
    rfl
  · have faced : Die.drawnAll rolled.rolls = [] ++ faces := tells rolled ok
    rw [Rolled.throws, dice_of_roll ok, faced, List.nil_append]

end Dice

end DiceFormula
