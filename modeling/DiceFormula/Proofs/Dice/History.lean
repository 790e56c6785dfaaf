/-
# DiceFormula.Proofs.Dice.History -- what modifiers leave of the dice

Whatever a modifier does, it does to kept dice, and to each of them at most one thing: it drops it,
changes its value or scores it (`Die.Handled`).  The dice that it adds stand behind the others.
Applying it comes out in one of three ways, which tell everything that can go wrong as well
(`run_apply`).

So dice keep their places and their past: who added them, their earlier changes, and all of a die
that was dropped before (`apply_continues`).  It stays so however many modifiers are applied
(`applyAll_outlasts`).
-/
import DiceFormula.Proofs.Dice.Repeated
import DiceFormula.Proofs.Dice.Selective

namespace DiceFormula

set_option autoImplicit false

/-! ## One die -/

/-- How a modifier scores a die with a value, if it does. -/
def Modifier.mark? (m : Modifier) (value : Int) : Option Bool :=
  match m with
  | .countSuccess condition => some (condition.check value)
  | .countFailure condition => if condition.check value then some false else none
  | _ => none

namespace Die

/-- What may become of a die in the hands of a modifier.  Only kept dice are touched. -/
inductive Handled (m : Modifier) (d : Die) : Die → Prop
  | left : Handled m d d
  | dropped (kept : d.isKept = true) : Handled m d { d with droppedBy := some m }
  | changed (kept : d.isKept = true) (value : Int) : Handled m d (d.change m value)
  | scored (kept : d.isKept = true) {success : Bool} (marks : m.mark? d.value = some success) :
      Handled m d (d.score success)

variable {m : Modifier} {d d' : Die}

theorem handled_drop (ok : d.drop m = .ok d') : Handled m d d' := by
  unfold drop at ok
  split at ok
  · cases ok
  · rename_i kept
    cases ok
    exact .dropped (by simpa [isDropped_eq] using kept)

theorem handled_retire (c : Condition) (m : Modifier) (d : Die) : Handled m d (c.retire m d) := by
  unfold Condition.retire
  split
  · rename_i selected
    exact .dropped (Bool.and_eq_true_iff.1 selected).1
  · exact .left

theorem handled_settle (m : Modifier) (d : Die) : Handled m d (m.settle d) := by
  cases m with
  | reroll condition again => exact handled_retire condition _ d
  | _ => exact .left

theorem handled_map {f : Die → Die} (handles : ∀ d, Handled m d (f d)) (dice : List Die) :
    List.Forall₂ (Handled m) dice (dice.map f) := by
  rw [List.forall₂_map_right_iff, List.forall₂_same]
  exact fun d _ => handles d

theorem handled_mapKept (test : Int → Bool) {f : Die → Die}
    (handles : ∀ d, d.isKept = true → test d.value = true → Handled m d (f d)) (dice : List Die) :
    List.Forall₂ (Handled m) dice (mapKept test f dice) := by
  refine handled_map (fun d => ?_) dice
  split
  · rename_i selected
    obtain ⟨kept, passes⟩ := Bool.and_eq_true_iff.1 selected
    exact handles d kept passes
  · exact .left

theorem handled_scoreAll (condition : Condition) (dice : List Die) :
    List.Forall₂ (Handled (.countSuccess condition)) dice (scoreAll condition dice) := by
  refine handled_map (fun d => ?_) dice
  split
  · rename_i kept
    exact .scored kept rfl
  · exact .left

theorem handled_failAll (condition : Condition) (dice : List Die) :
    List.Forall₂ (Handled (.countFailure condition)) dice (failAll condition dice) := by
  refine handled_mapKept condition.check (fun d kept meets => ?_) dice
  exact .scored kept (if_pos meets)

/-- A die that a modifier added, and may have dropped again. -/
def Added (m : Modifier) (d : Die) : Prop := ∃ face, Handled m (extra m face) d

end Die

open Die

namespace Modifier

open Rolling

/-! ## All dice -/

/-- The modifier can add dice. -/
def isRolling : Modifier → Bool
  | reroll _ _ | explode _ _ => true
  | _ => false

theorem isRolling_of_isRepeated {m : Modifier} (repeated : m.isRepeated = true) :
    m.isRolling = true := by
  cases m <;> first | rfl | cases repeated

/-- The ways in which applying a modifier comes out. -/
inductive Comes (m : Modifier) (sides : Nat) (dice : List Die) (r : Roller) :
    Except RollFailure (List Die) × Roller → Prop
  | applied {old added : List Die} (handled : List.Forall₂ (Handled m) dice old)
      (named : ∀ d ∈ added, Added m d) (rolls : added = [] ∨ m.isRolling = true) :
      Comes m sides dice r (.ok (old ++ added), r.after added.length)
  | spent (rolls : m.isRolling = true) :
      Comes m sides dice r (.error (.fault .diceSpent), r.after r.supply)
  | refused (always : m.IsEndless sides) :
      Comes m sides dice r (.error (.error (.infiniteRolls m sides)), r)

variable {m : Modifier} {sides : Nat} {dice dice' : List Die} {r : Roller}

theorem comes_still (handled : List.Forall₂ (Handled m) dice dice') :
    m.Comes sides dice r (.ok dice', r) := by
  have all : m.Comes sides dice r (.ok (dice' ++ []), r.after 0) :=
    .applied handled (List.forall_mem_nil _) (.inl rfl)
  rwa [List.append_nil, Roller.after_zero] at all

/-- Some of the dice that are ranked are dropped. -/
theorem comes_dropAt {highestFirst : Bool} {positions : List Nat}
    (ranks : ∀ i ∈ positions, i ∈ ranked highestFirst dice) :
    m.Comes sides dice r ((ofFault (dropAt m positions dice)).run.run r) := by
  have ok := dropAt_kept m fun i mem => kept_of_mem_ranked (ranks i mem)
  rw [ok]
  exact comes_still (forall₂_dropAt (fun _ => .left) (fun _ _ => handled_drop) ok)

theorem added_map (m : Modifier) {f : Die → Die} (handles : ∀ d, Handled m d (f d))
    (faces : List Int) : ∀ d ∈ faces.map fun face => f (extra m face), Added m d := by
  intro d mem
  obtain ⟨face, -, rfl⟩ := List.mem_map.1 mem
  exact ⟨face, handles _⟩

/-- Some dice are added, and no more. -/
theorem comes_once (rolls : m.isRolling = true) (handled : List.Forall₂ (Handled m) dice dice')
    (n : Nat) :
    m.Comes sides dice r
      ((drawAdded m sides n >>= fun added => pure (dice' ++ added)).run.run r) := by
  rw [run_bind]
  by_cases within : n ≤ r.supply
  · rw [run_drawAdded m within]
    have named := added_map m (fun _ => .left) (r.upcoming (.replicate n sides))
    have all : m.Comes sides dice r _ := .applied handled named (.inr rolls)
    rwa [List.length_map, Roller.length_upcoming, List.length_replicate] at all
  · rw [run_drawAdded_short m (by omega)]
    exact .spent rolls

theorem comes_repeated (repeated : m.isRepeated = true) (sides : Nat) (dice : List Die)
    (r : Roller) : m.Comes sides dice r ((m.apply sides dice).run.run r) := by
  have rolls := isRolling_of_isRepeated repeated
  by_cases always : m.IsEndless sides
  · rw [run_apply_endless always]
    exact .refused always
  · have supplies := supplies_apply repeated always dice r
    generalize (m.apply sides dice).run.run r = outcome at supplies
    cases supplies with
    | @enough used reaches =>
        have named := added_map m (handled_settle m) used
        have all : m.Comes sides dice r _ :=
          .applied (handled_map (handled_settle m) dice) named (.inr rolls)
        rwa [List.length_map] at all
    | short few => exact .spent rolls

/-- **How applying a modifier comes out.** -/
theorem run_apply (m : Modifier) (sides : Nat) (dice : List Die) (r : Roller) :
    m.Comes sides dice r ((m.apply sides dice).run.run r) := by
  cases m with
  | reroll condition again =>
      cases again with
      | true => exact comes_repeated rfl sides dice r
      | false =>
          show Comes _ _ _ _ ((rerollOnce _ condition sides dice).run.run r)
          rw [rerollOnce_eq]
          exact comes_once rfl (handled_map (handled_retire condition _) dice) _
  | explode condition again =>
      cases again with
      | true => exact comes_repeated rfl sides dice r
      | false =>
          have handled := handled_map (m := explode condition false) (fun _ => .left) dice
          rw [List.map_id'] at handled
          exact comes_once rfl handled _
  | keepHigh n => exact comes_dropAt fun i mem => List.mem_of_mem_drop mem
  | keepLow n => exact comes_dropAt fun i mem => List.mem_of_mem_drop mem
  | dropHigh n => exact comes_dropAt fun i mem => List.mem_of_mem_take mem
  | dropLow n => exact comes_dropAt fun i mem => List.mem_of_mem_take mem
  | raise bound | cap bound =>
      exact comes_still (handled_mapKept _ (fun _ kept _ => .changed kept bound) dice)
  | countSuccess condition => exact comes_still (handled_scoreAll condition dice)
  | countFailure condition => exact comes_still (handled_failAll condition dice)

/-- If a modifier can be applied, it handled the dice from before, and the others were added. -/
theorem handled_apply (ok : ((m.apply sides dice).run.run r).1 = .ok dice') :
    ∃ old added, dice' = old ++ added ∧ List.Forall₂ (Handled m) dice old ∧
      (∀ d ∈ added, Added m d) ∧ (added = [] ∨ m.isRolling = true) := by
  have comes := run_apply m sides dice r
  generalize (m.apply sides dice).run.run r = outcome at comes ok
  cases comes with
  | applied handled named rolls =>
      cases ok
      exact ⟨_, _, rfl, handled, named, rolls⟩
  | spent | refused => cases ok

end Modifier

/-! ## What a modifier keeps -/

namespace Die

/-- The die goes on as it was, but for what a modifier may do to it as long as it is kept: drop it,
and change its value once. -/
structure Continues (m : Modifier) (d d' : Die) : Prop where
  origin : d'.addedBy = d.addedBy
  discarded : d.isKept = false → d' = d
  dropped : d.isKept = true → d'.isKept = true ∨ d'.droppedBy = some m
  changes : d'.changes = d.changes ∧ d'.value = d.value ∨
    d'.changes = d.changes ++ [⟨d.value, d'.value, m⟩]

variable {m : Modifier} {d d' : Die}

theorem continues_of_kept (kept : d.isKept = true) (origin : d'.addedBy = d.addedBy)
    (dropped : d'.isKept = true ∨ d'.droppedBy = some m)
    (changes : d'.changes = d.changes ∧ d'.value = d.value ∨
      d'.changes = d.changes ++ [⟨d.value, d'.value, m⟩]) : Continues m d d' := by
  refine ⟨origin, fun discarded => ?_, fun _ => dropped, changes⟩
  rw [kept] at discarded
  cases discarded

theorem Handled.continues (handled : Handled m d d') : Continues m d d' := by
  cases handled with
  | left => exact ⟨rfl, fun _ => rfl, .inl, .inl ⟨rfl, rfl⟩⟩
  | dropped kept => exact continues_of_kept kept rfl (.inr rfl) (.inl ⟨rfl, rfl⟩)
  | changed kept value => exact continues_of_kept kept rfl (.inl kept) (.inr rfl)
  | scored kept marks => exact continues_of_kept kept rfl (.inl kept) (.inl ⟨rfl, rfl⟩)

theorem Added.addedBy_eq (added : Added m d) : d.addedBy = some m := by
  obtain ⟨face, handled⟩ := added
  exact handled.continues.origin

end Die

namespace Modifier

variable {m : Modifier} {sides : Nat} {dice dice' : List Die} {r : Roller}

theorem continues_apply (ok : ((m.apply sides dice).run.run r).1 = .ok dice') :
    ∃ old added, dice' = old ++ added ∧ List.Forall₂ (Continues m) dice old ∧
      (∀ d ∈ added, d.addedBy = some m) ∧ (added = [] ∨ m.isRolling = true) := by
  obtain ⟨old, added, rfl, handled, named, rolls⟩ := handled_apply ok
  exact ⟨old, added, rfl, handled.imp fun _ _ => Handled.continues,
    fun d mem => (named d mem).addedBy_eq, rolls⟩

/-- **A modifier never rewrites the history of dice.**  The dice from before come first, in their
order, and go on as they were: one that was dropped is the same, and one that was kept can be dropped
by the modifier, and have its value changed by it, once.  All other dice were added by the modifier,
which then is a reroll or an explosion. -/
theorem apply_continues (ok : ((m.apply sides dice).run.run r).1 = .ok dice') :
    ∃ old added, dice' = old ++ added ∧ List.Forall₂ (Continues m) dice old ∧
      (∀ d ∈ added, d.addedBy = some m) ∧
      (added ≠ [] → ∃ again, (∃ condition, m = .reroll condition again) ∨
        ∃ condition, m = .explode condition again) := by
  obtain ⟨old, added, whole, each, named, rolls⟩ := continues_apply ok
  refine ⟨old, added, whole, each, named, fun some => ?_⟩
  have rolls := rolls.resolve_left some
  cases m with
  | reroll condition again => exact ⟨again, .inl ⟨condition, rfl⟩⟩
  | explode condition again => exact ⟨again, .inr ⟨condition, rfl⟩⟩
  | _ => cases rolls

/-- A reroll drops a die that was raised to three, and adds another one.  It passes over the three
that was dropped before. -/
theorem apply_continues_raised :
    ∃ (m : Modifier) (dice dice' : List Die),
      dice.map Die.text = ["3 (d)", "3 (m)", "5"] ∧
        ((m.apply 6 dice).run.run (.tape [4])).1 = .ok dice' ∧
        dice'.map Die.text = ["3 (d)", "3 (m) (d)", "5", "4"] ∧
        ∃ old added, dice' = old ++ added ∧ List.Forall₂ (Continues m) dice old ∧
          ∀ d ∈ added, d.addedBy = some m := by
  let m : Modifier := .reroll ⟨.equal, 3⟩ false
  let discarded : Die := { Die.fresh 3 with droppedBy := some (.keepHigh 2) }
  let dice : List Die := [discarded, (Die.fresh 1).change (.raise 3) 3, .fresh 5]
  have ends : ((m.apply 6 dice).run.run (.tape [4])).1.toOption.isSome = true := by decide +kernel
  have shown : ((m.apply 6 dice).run.run (.tape [4])).1.toOption.map (List.map Die.text) =
      some ["3 (d)", "3 (m) (d)", "5", "4"] := by decide +kernel
  obtain ⟨dice', ok⟩ := exists_ok ends
  obtain ⟨old, added, whole, each, named, -⟩ := apply_continues ok
  rw [ok] at shown
  exact ⟨m, dice, dice', by decide +kernel, ok, Option.some.inj shown, old, added, whole, each, named⟩

end Modifier

/-! ## What many modifiers keep -/

/-- The changes lead from a value to another, each from the value that the one before it left. -/
def Change.Lead : Int → List Change → Int → Prop
  | value, [], last => value = last
  | value, change :: later, last => change.before = value ∧ Change.Lead change.after later last

namespace Die

/-- The die goes on as it was, but for what some modifiers may do to it as long as it is kept. -/
structure Outlasts (modifiers : List Modifier) (d d' : Die) : Prop where
  origin : d'.addedBy = d.addedBy
  discarded : d.isKept = false → d' = d
  dropped : d.isKept = true → d'.isKept = true ∨ ∃ m ∈ modifiers, d'.droppedBy = some m
  changes : ∃ later, d'.changes = d.changes ++ later ∧ (later.map Change.cause).Sublist modifiers ∧
    Change.Lead d.value later d'.value

variable {m : Modifier} {modifiers : List Modifier} {d d' d'' : Die}

theorem Outlasts.refl (d : Die) : Outlasts [] d d :=
  ⟨rfl, fun _ => rfl, .inl, [], (List.append_nil _).symm, .slnil, rfl⟩

/-- One modifier, and then the others. -/
theorem Continues.outlasts (first : Continues m d d') (others : Outlasts modifiers d' d'') :
    Outlasts (m :: modifiers) d d'' := by
  refine ⟨others.origin.trans first.origin, fun discarded => ?_, fun kept => ?_, ?_⟩
  · obtain rfl := first.discarded discarded
    exact others.discarded discarded
  · rcases first.dropped kept with kept' | dropped
    · rcases others.dropped kept' with kept'' | ⟨m', mem, dropped⟩
      · exact .inl kept''
      · exact .inr ⟨m', List.mem_cons_of_mem m mem, dropped⟩
    · -- what the first modifier dropped stays so
      have discarded : d'.isKept = false := by simp [isKept, dropped]
      rw [others.discarded discarded]
      exact .inr ⟨m, List.mem_cons_self, dropped⟩
  · obtain ⟨later, changes, causes, lead⟩ := others.changes
    rcases first.changes with ⟨same, value⟩ | changed
    · rw [same] at changes
      rw [value] at lead
      exact ⟨later, changes, causes.cons m, lead⟩
    · rw [changed, List.append_assoc] at changes
      exact ⟨_, changes, causes.cons_cons m, rfl, lead⟩

/-- Dice that were there before the first modifier, and those that it added. -/
theorem outlasts_append {dice old added all : List Die}
    (first : List.Forall₂ (Continues m) dice old)
    (others : List.Forall₂ (Outlasts modifiers) (old ++ added) all) :
    ∃ old' added', all = old' ++ added' ∧ List.Forall₂ (Outlasts (m :: modifiers)) dice old' ∧
      List.Forall₂ (Outlasts modifiers) added added' := by
  induction first generalizing all with
  | nil => exact ⟨[], all, rfl, .nil, others⟩
  | cons continues _ ih =>
      cases others with
      | cons outlasts others =>
          obtain ⟨old', added', rfl, each, new⟩ := ih others
          exact ⟨_ :: old', added', rfl, .cons (continues.outlasts outlasts) each, new⟩

end Die

namespace Modifier

variable {sides : Nat} {dice dice' : List Die} {r : Roller}

/-- **However many modifiers are applied, dice keep their places and their past**: each die that
comes later was added by one of the modifiers, and each one from before goes on as it was, but for
what these may do to it as long as it is kept.  Its changes are in the order of the modifiers. -/
theorem applyAll_outlasts {modifiers : List Modifier}
    (ok : ((applyAll sides modifiers dice).run.run r).1 = .ok dice') :
    ∃ old added, dice' = old ++ added ∧ List.Forall₂ (Outlasts modifiers) dice old ∧
      ∀ d ∈ added, ∃ m ∈ modifiers, m.isRolling = true ∧ d.addedBy = some m := by
  induction modifiers generalizing dice r with
  | nil =>
      cases ok
      exact ⟨_, [], (List.append_nil _).symm, List.forall₂_same.2 fun d _ => Outlasts.refl d,
        List.forall_mem_nil _⟩
  | cons m rest ih =>
      obtain ⟨next, r', applied, ok⟩ := ok_of_run_bind ok
      obtain ⟨old, added, rfl, each, named, rolls⟩ := continues_apply (congrArg Prod.fst applied)
      obtain ⟨all, later, rfl, others, named'⟩ := ih ok
      obtain ⟨old', added', rfl, each', new⟩ := outlasts_append each others
      refine ⟨old', added' ++ later, List.append_assoc .., each', fun d mem => ?_⟩
      rcases List.mem_append.1 mem with mem | mem
      · obtain ⟨d₀, mem₀, outlasts⟩ := forall₂_mem_right new mem
        refine ⟨m, List.mem_cons_self, rolls.resolve_left ?_, ?_⟩
        · rintro rfl
          cases mem₀
        · rw [outlasts.origin, named d₀ mem₀]
      · obtain ⟨m', mem', rolls', name⟩ := named' d mem
        exact ⟨m', List.mem_cons_of_mem m mem', rolls', name⟩

end Modifier

end DiceFormula
