/-
# DiceFormula.Proofs.Dice.Repeated -- how many dice a repeated modifier draws

A repeated modifier draws a die for every one that it picks, then one for each of these that meets
its condition, and so on.  How the dice fall into rounds does not matter in the end: of the faces
that were drawn as many miss the condition as dice were picked at first, and the last one does.
These are the shortest front of the faces with so many that miss (`Reaches`).

* A face of a round misses, or asks for another one in the next round (`Reaches.append`).  So the
  rounds of an explosion end if and only if enough of the faces that are left miss, and want for
  dice otherwise (`supplies_explodeRounds`).
* Rerolling draws the dice that exploding would, and then drops those that meet the condition
  (`run_rerollRounds`).

What repeated modifiers do with a tape follows from both (`apply_repeated`).
-/
import DiceFormula.Proofs.Dice.Drawn

namespace DiceFormula

set_option autoImplicit false

/-! ## Fronts with enough faces that pass a test -/

/-- The shortest front of the faces that contains so many that pass the test. -/
structure Reaches (test : Int → Bool) (n : Nat) (faces used : List Int) : Prop where
  front : used <+: faces
  count : used.countP test = n
  shortest : ∀ other, other <+: faces → n ≤ other.countP test → used.length ≤ other.length

namespace Reaches

variable {test : Int → Bool} {n : Nat} {faces used : List Int}

theorem nothing (test : Int → Bool) (faces : List Int) : Reaches test 0 faces [] :=
  ⟨List.nil_prefix, rfl, fun _ _ _ => Nat.zero_le _⟩

theorem count_le (reaches : Reaches test n faces used) : n ≤ faces.length := by
  rw [← reaches.count]
  exact List.countP_le_length.trans reaches.front.length_le

/-- Where all faces are the same, they all pass, unless none is needed. -/
theorem eq_replicate {face : Int} {k : Nat} (reaches : Reaches test n (.replicate k face) used)
    (passes : test face = false → n = 0) : used = .replicate n face := by
  have same : ∀ other ∈ used, other = face := fun other mem =>
    List.eq_of_mem_replicate (reaches.front.subset mem)
  refine List.eq_replicate_iff.2 ⟨?_, same⟩
  cases passed : test face with
  | false =>
      have short := reaches.shortest [] List.nil_prefix (by simp [passes passed])
      rw [passes passed]
      exact Nat.eq_zero_of_le_zero short
  | true =>
      rw [← reaches.count, List.countP_eq_length.2]
      exact fun other mem => by rw [same other mem, passed]

/-- Each of the first faces passes the test itself, or asks for another one that does. -/
theorem append {first : List Int} (reaches : Reaches test n faces used)
    (asked : first.countP test + n = first.length) :
    Reaches test first.length (first ++ faces) (first ++ used) := by
  refine ⟨(List.prefix_append_right_inj first).2 reaches.front, ?_, fun other front enough => ?_⟩
  · rw [List.countP_append, reaches.count, asked]
  · -- so many faces pass only in a front that contains all of the first
    have long : first.length ≤ other.length := enough.trans List.countP_le_length
    obtain ⟨later, rfl⟩ : first <+: other :=
      List.prefix_of_prefix_length_le (List.prefix_append first faces) front long
    have inside : later <+: faces := (List.prefix_append_right_inj first).1 front
    rw [List.countP_append] at enough
    have short := reaches.shortest later inside (by omega)
    simp only [List.length_append]
    omega

end Reaches

/-! ## The faces that are left -/

namespace Roller

/-- The faces of all dice that are left, if they have so many sides. -/
def ahead (r : Roller) (sides : Nat) : List Int := r.upcoming (.replicate r.supply sides)

@[simp] theorem length_ahead (r : Roller) (sides : Nat) : (r.ahead sides).length = r.supply := by
  simp [ahead, length_upcoming]

theorem ahead_tape (faces : List Int) (sides : Nat) : (tape faces).ahead sides = faces := by
  rw [ahead, upcoming_tape (by simp [tape])]
  simp [tape]

/-- The next dice, and those behind them. -/
theorem ahead_eq_append {r : Roller} {n : Nat} (within : n ≤ r.supply) (sides : Nat) :
    r.ahead sides = r.upcoming (.replicate n sides) ++ (r.after n).ahead sides := by
  have split : r.supply = n + (r.after n).supply := by simp [after]; omega
  rw [ahead, split, List.replicate_add, upcoming_append, List.length_replicate, ahead]

/-- What comes of drawing dice until enough of their faces pass a test: a result made of the faces
that were drawn, or a want of dice. -/
inductive Supplies {α : Type} (test : Int → Bool) (sides n : Nat) (r : Roller)
    (made : List Int → α) : Except RollFailure α × Roller → Prop
  | enough {used : List Int} (reaches : Reaches test n (r.ahead sides) used) :
      Supplies test sides n r made (.ok (made used), r.after used.length)
  | short (few : (r.ahead sides).countP test < n) :
      Supplies test sides n r made (.error (.fault .diceSpent), r.after r.supply)

/-- The result may be made into another one. -/
theorem Supplies.bind_pure {α β : Type} {test : Int → Bool} {sides n : Nat} {r : Roller}
    {x : Rolling α} {made : List Int → α} {f : α → β} {made' : List Int → β}
    (supplies : r.Supplies test sides n made (x.run.run r))
    (same : ∀ used, f (made used) = made' used) :
    r.Supplies test sides n made' ((x >>= fun a => pure (f a)).run.run r) := by
  obtain rfl : made' = fun used => f (made used) := funext fun used => (same used).symm
  rw [run_bind]
  generalize x.run.run r = outcome at supplies
  cases supplies with
  | enough reaches => exact .enough reaches
  | short few => exact .short few

/-- The dice of a round are drawn, and then those that their faces ask for. -/
theorem Supplies.round {α : Type} {test : Int → Bool} {sides n k : Nat} {r : Roller}
    {x : Rolling α} {f : α → α} {made : List Int → α} (within : n ≤ r.supply)
    (asked : (r.upcoming (.replicate n sides)).countP test + k = n)
    (later : (r.after n).Supplies test sides k made (x.run.run (r.after n)))
    (same : ∀ used, f (made used) = made (r.upcoming (.replicate n sides) ++ used)) :
    r.Supplies test sides n made ((x >>= fun a => pure (f a)).run.run (r.after n)) := by
  have split := ahead_eq_append within sides
  have size : (r.upcoming (.replicate n sides)).length = n := by simp [length_upcoming]
  have left : r.supply = n + (r.after n).supply := by simp [after]; omega
  rw [run_bind]
  generalize x.run.run (r.after n) = outcome at later
  cases later with
  | @enough used reaches =>
      have all := reaches.append (asked.trans size.symm)
      rw [← split, size] at all
      have drawn : (r.upcoming (.replicate n sides) ++ used).length = n + used.length := by
        rw [List.length_append, size]
      rw [after_after, ← drawn]
      dsimp only
      rw [same used]
      exact .enough all
  | short few =>
      rw [after_after, ← left]
      refine .short ?_
      rw [split, List.countP_append]
      omega

end Roller

namespace Rolling

variable {r : Roller} {n : Nat}

theorem ofFault_add (m : Modifier) (value : Int) :
    ofFault ((Die.fresh value).add m) = pure (Die.extra m value) := rfl

/-- Dice are added as long as there are enough. -/
theorem run_drawAdded (m : Modifier) (within : n ≤ r.supply) (sides : Nat) :
    (drawAdded m sides n).run.run r =
      (.ok ((r.upcoming (.replicate n sides)).map (Die.extra m)), r.after n) := by
  induction n generalizing r with
  | zero => rfl
  | succ n ih =>
      have others : n ≤ (r.after 1).supply := by simp [Roller.after]; omega
      rw [drawAdded, run_bind, run_draw (by omega)]
      dsimp only
      rw [ofFault_add, pure_bind, run_bind, ih others, Roller.after_after, Nat.add_comm 1]
      rfl

theorem run_drawAdded_short (m : Modifier) (few : r.supply < n) (sides : Nat) :
    (drawAdded m sides n).run.run r = (.error (.fault .diceSpent), r.after r.supply) := by
  induction n generalizing r with
  | zero => omega
  | succ n ih =>
      rw [drawAdded, run_bind]
      rcases Nat.eq_zero_or_pos r.supply with empty | supplied
      · rw [run_draw_spent empty, empty, Roller.after_zero]
      · have others : (r.after 1).supply < n := by simp [Roller.after]; omega
        have all : 1 + (r.after 1).supply = r.supply := by simp [Roller.after]; omega
        rw [run_draw supplied]
        dsimp only
        rw [ofFault_add, pure_bind, run_bind, ih others, Roller.after_after, all]

end Rolling

namespace Modifier

open Rolling

variable (m : Modifier) {rounds : Nat} {r : Roller}

/-! ## Exploding -/

/-- The added dice that explode are those with such faces. -/
theorem countP_extras (condition : Option Condition) (sides : Nat) (faces : List Int) :
    (faces.map (Die.extra m)).countP (fun die => explodes condition sides die.value) =
      faces.countP (explodes condition sides) :=
  List.countP_map

/-- Every face makes a die explode, or not. -/
theorem countP_round (condition : Option Condition) (sides : Nat) (faces : List Int) :
    faces.countP (fun face => !explodes condition sides face) +
      faces.countP (explodes condition sides) = faces.length := by
  have both := List.length_eq_countP_add_countP (explodes condition sides) (l := faces)
  simp only [decide_not, Bool.decide_eq_true] at both
  omega

/-- The rounds of an explosion end as soon as so many faces miss as dice explode at first. -/
theorem supplies_explodeRounds (condition : Option Condition) (sides : Nat)
    (fuel : r.supply < rounds) (n : Nat) :
    r.Supplies (fun face => !explodes condition sides face) sides n (List.map (Die.extra m))
      ((explodeRounds m condition sides rounds n).run.run r) := by
  induction rounds generalizing r n with
  | zero => omega
  | succ rounds ih =>
      rw [explodeRounds]
      by_cases none : n = 0
      · subst none
        exact .enough (.nothing _ _)
      · rw [if_neg none, run_bind]
        by_cases within : n ≤ r.supply
        · -- each round draws a die, so the supply ends before the rounds
          have fewer : (r.after n).supply < rounds := by simp [Roller.after]; omega
          have asked := countP_round condition sides (r.upcoming (.replicate n sides))
          rw [Roller.length_upcoming, List.length_replicate] at asked
          rw [run_drawAdded m within]
          dsimp only
          rw [countP_extras]
          exact (ih fewer _).round within asked fun used => List.map_append.symm
        · have most := List.countP_le_length (p := fun face => !explodes condition sides face)
            (l := r.ahead sides)
          rw [Roller.length_ahead] at most
          rw [run_drawAdded_short m (by omega)]
          exact .short (by omega)

/-! ## Rerolling -/

variable (c : Condition) (sides : Nat)

theorem countP_retired (dice : List Die) (faces : List Int) :
    (dice.map (c.retire m) ++ faces.map (Die.extra m)).countP c.selects =
      faces.countP (explodes (some c) sides) := by
  rw [List.countP_append, c.countP_retire m, Nat.zero_add, List.countP_map]
  rfl

/-- **Rerolling draws as exploding does**, and drops all dice that meet the condition. -/
theorem run_rerollRounds (rounds : Nat) (dice : List Die) (r : Roller) :
    (rerollRounds m c sides rounds dice).run.run r =
      (explodeRounds m (some c) sides rounds (dice.countP c.selects) >>= fun added =>
        pure ((dice ++ added).map (c.retire m))).run.run r := by
  induction rounds generalizing dice r with
  | zero => rfl
  | succ rounds ih =>
      have retired (added rest : List Die) :
          (dice.map (c.retire m) ++ added ++ rest).map (c.retire m) =
            (dice ++ (added ++ rest)).map (c.retire m) := by
        simp [Function.comp_def]
      rw [rerollRounds, explodeRounds]
      by_cases none : dice.countP c.selects = 0
      · have left : ∀ die ∈ dice, c.retire m die = die := fun die mem =>
          c.retire_of_not_selects m (by simpa using List.countP_eq_zero.1 none die mem)
        have same : dice.map (c.retire m) = dice := (List.map_congr_left left).trans (List.map_id dice)
        have any : dice.any c.selects = false := by
          simpa using List.countP_eq_zero.1 none
        rw [any, if_neg Bool.false_ne_true, if_pos none, pure_bind, List.append_nil, same]
      · have any : dice.any c.selects = true := by
          rw [List.any_eq_true, ← List.countP_pos_iff]
          omega
        rw [any, if_pos rfl, if_neg none, rerollOnce_eq, bind_assoc, bind_assoc, run_bind, run_bind]
        by_cases within : dice.countP c.selects ≤ r.supply
        · rw [run_drawAdded m within]
          dsimp only
          rw [pure_bind, ih, countP_retired m c sides, countP_extras, bind_assoc]
          simp only [pure_bind, retired]
        · rw [run_drawAdded_short m (by omega)]

end Modifier

/-! ## Repeated modifiers -/

namespace Modifier

open Rolling

/-- The modifier goes on with the dice that it adds. -/
def isRepeated : Modifier → Bool
  | reroll _ again | explode _ again => again
  | _ => false

/-- The modifier is repeated as long as dice meet it, and every face does. -/
def IsEndless (sides : Nat) : Modifier → Prop
  | reroll condition again => again = true ∧ condition.alwaysMet sides = true
  | explode condition again => again = true ∧ endless condition sides = true
  | _ => False

/-- The modifier rolls a die on account of this one. -/
def picks (sides : Nat) : Modifier → Die → Bool
  | reroll condition _, die => condition.selects die
  | explode condition _, die => die.isKept && explodes condition sides die.value
  | _, _ => false

/-- The modifier rolls a die for a kept one with that value. -/
def meets (sides : Nat) : Modifier → Int → Bool
  | reroll condition _, value => condition.check value
  | explode condition _, value => explodes condition sides value
  | _, _ => false

/-- The modifier rolls no die for one with that value. -/
def misses (sides : Nat) (m : Modifier) (value : Int) : Bool := !m.meets sides value

/-- What a modifier leaves of a die that it is done with: dice that are rerolled are dropped. -/
def settle : Modifier → Die → Die
  | m@(reroll condition _) => condition.retire m
  | _ => id

variable {m : Modifier} {sides : Nat}

/-- An endless modifier is refused, and draws nothing. -/
theorem run_apply_endless (always : m.IsEndless sides) (dice : List Die) (r : Roller) :
    (m.apply sides dice).run.run r = (.error (.error (.infiniteRolls m sides)), r) := by
  cases m with
  | reroll condition again =>
      obtain ⟨rfl, always⟩ := always
      show (applyReroll _ condition true sides dice).run.run r = _
      rw [applyReroll, if_pos rfl, if_pos always]
      rfl
  | explode condition again =>
      obtain ⟨rfl, always⟩ := always
      show (applyExplode _ condition true sides dice).run.run r = _
      rw [applyExplode, if_pos rfl, if_pos always]
      rfl
  | _ => cases always

theorem picks_eq (sides : Nat) (m : Modifier) (die : Die) :
    m.picks sides die = (die.isKept && m.meets sides die.value) := by
  cases m <;> simp [picks, meets, Condition.selects]

/-- The dice after a repeated modifier that drew those faces. -/
def settled (m : Modifier) (dice : List Die) (used : List Int) : List Die :=
  dice.map m.settle ++ used.map fun face => m.settle (.extra m face)

/-- A repeated modifier draws dice until so many faces miss its condition as it picks dice. -/
theorem supplies_apply (repeated : m.isRepeated = true) (passes : ¬ m.IsEndless sides)
    (dice : List Die) (r : Roller) :
    r.Supplies (m.misses sides) sides (dice.countP (m.picks sides)) (m.settled dice)
      ((m.apply sides dice).run.run r) := by
  cases m with
  | reroll condition again =>
      obtain rfl : again = true := repeated
      have free : condition.alwaysMet sides = false := by simpa [IsEndless] using passes
      show r.Supplies _ _ _ _ ((applyReroll _ condition true sides dice).run.run r)
      rw [applyReroll, if_pos rfl, free, if_neg Bool.false_ne_true, run_get, run_rerollRounds]
      refine (supplies_explodeRounds _ (some condition) sides (Nat.lt_succ_self r.supply) _).bind_pure
        fun used => ?_
      rw [List.map_append, List.map_map]
      rfl
  | explode condition again =>
      obtain rfl : again = true := repeated
      have free : endless condition sides = false := by simpa [IsEndless] using passes
      show r.Supplies _ _ _ _ ((applyExplode _ condition true sides dice).run.run r)
      rw [applyExplode, if_pos rfl, free, if_neg Bool.false_ne_true, run_get]
      refine (supplies_explodeRounds _ condition sides (Nat.lt_succ_self r.supply) _).bind_pure
        fun used => ?_
      exact congrArg (· ++ _) (List.map_id dice).symm
  | _ => cases repeated

theorem check_of_mem_settled {condition : Condition} {again : Bool} {dice : List Die}
    {used : List Int} {d : Die} (mem : d ∈ (reroll condition again).settled dice used)
    (kept : d.isKept = true) : condition.check d.value = false := by
  have retired : condition.selects d = false := by
    rw [settled, List.mem_append, List.mem_map, List.mem_map] at mem
    rcases mem with ⟨die, -, rfl⟩ | ⟨face, -, rfl⟩ <;> exact condition.selects_retire _ _
  simpa [Condition.selects, kept] using retired

/-- **A repeated modifier draws exactly as many dice as it must.**  If it is not refused, it ends
with a tape if and only if as many faces of the tape miss its condition as dice are kept that meet
it at first.  It then has drawn the shortest front of the tape with so many, and every die that it
added stands behind the others, in the order drawn; after a reroll no kept die meets the condition.
If there are too few such faces, it uses up the tape and wants for dice. -/
theorem apply_repeated (repeated : m.isRepeated = true) (passes : ¬ m.IsEndless sides)
    {dice : List Die} {n : Nat} (met : dice.countP (fun d => d.isKept && m.meets sides d.value) = n)
    (faces : List Int) :
    ((∃ dice', ((m.apply sides dice).run.run (.tape faces)).1 = .ok dice') ↔
        n ≤ faces.countP (m.misses sides)) ∧
      (∀ dice' r', (m.apply sides dice).run.run (.tape faces) = (.ok dice', r') →
        ∃ used, Reaches (m.misses sides) n faces used ∧
          r' = (Roller.tape faces).after used.length ∧
          dice' = dice.map m.settle ++ used.map (fun face => m.settle (.extra m face)) ∧
          ∀ condition again, m = .reroll condition again →
            ∀ d ∈ dice', d.isKept = true → condition.check d.value = false) ∧
      (faces.countP (m.misses sides) < n →
        (m.apply sides dice).run.run (.tape faces) =
          (.error (.fault .diceSpent), (Roller.tape faces).after faces.length)) := by
  simp only [← picks_eq] at met
  have supplies := supplies_apply repeated passes dice (.tape faces)
  rw [met] at supplies
  generalize (m.apply sides dice).run.run (.tape faces) = outcome at supplies
  cases supplies with
  | @enough used reaches =>
      rw [Roller.ahead_tape] at reaches
      have enough : n ≤ faces.countP (m.misses sides) :=
        reaches.count.symm.trans_le reaches.front.sublist.countP_le
      refine ⟨⟨fun _ => enough, fun _ => ⟨_, rfl⟩⟩, fun dice' r' ok => ?_, fun few => ?_⟩
      · cases ok
        refine ⟨used, reaches, rfl, rfl, ?_⟩
        rintro condition again rfl d mem kept
        exact check_of_mem_settled mem kept
      · omega
  | short few =>
      rw [Roller.ahead_tape] at few
      refine ⟨⟨?_, fun enough => ?_⟩, ?_, fun _ => rfl⟩
      · rintro ⟨dice', ⟨⟩⟩
      · omega
      · rintro dice' r' ⟨⟩

/-- Two dice are rerolled, and for one of them a second and a third time; the last face of the tape
is not drawn. -/
theorem apply_repeated_thrice :
    ∃ (m : Modifier) (dice dice' : List Die) (r' : Roller) (used : List Int),
      m.isRepeated = true ∧ ¬ m.IsEndless 6 ∧
        dice.countP (fun d => d.isKept && m.meets 6 d.value) = 2 ∧
        (m.apply 6 dice).run.run (.tape [1, 4, 2, 6, 3]) = (.ok dice', r') ∧
        dice'.map Die.text = ["1 (d)", "5", "2 (d)", "2 (d)", "1 (d)", "4", "2 (d)", "6"] ∧
        Reaches (m.misses 6) 2 [1, 4, 2, 6, 3] used ∧ used = [1, 4, 2, 6] ∧
        r' = (Roller.tape [1, 4, 2, 6, 3]).after used.length := by
  let m : Modifier := .reroll ⟨.atMost, 2⟩ true
  let discarded : Die := { Die.fresh 2 with droppedBy := some (.keepHigh 3) }
  let dice : List Die := [.fresh 1, .fresh 5, discarded, .fresh 2]
  have passes : ¬ m.IsEndless 6 := fun endless => by cases endless.2
  have met : dice.countP (fun d => d.isKept && m.meets 6 d.value) = 2 := by decide
  obtain ⟨ends, draws, -⟩ := apply_repeated rfl passes met [1, 4, 2, 6, 3]
  obtain ⟨dice', ok⟩ := ends.2 (by decide)
  obtain ⟨used, reaches, behind, whole, -⟩ := draws dice' _ (Prod.ext ok rfl)
  have shown : ((m.apply 6 dice).run.run (.tape [1, 4, 2, 6, 3])).1.toOption.map (List.map Die.text) =
      some ["1 (d)", "5", "2 (d)", "2 (d)", "1 (d)", "4", "2 (d)", "6"] := by decide +kernel
  rw [ok] at shown
  have shown := Option.some.inj shown
  refine ⟨m, dice, dice', _, used, rfl, passes, met, Prod.ext ok rfl, shown, reaches, ?_, behind⟩
  have long : used.length = 4 := by
    have texts := congrArg List.length shown
    simp [whole, dice] at texts
    omega
  rw [List.prefix_iff_eq_take.1 reaches.front, long]
  rfl

end Modifier

end DiceFormula
