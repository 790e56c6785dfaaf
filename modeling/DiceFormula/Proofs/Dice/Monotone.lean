/-
# DiceFormula.Proofs.Dice.Monotone -- totals that grow with the faces

Of dice whose modifiers select by rank or bound values, only the `Die.levels` matter for the total:
the values of the kept dice, from the lowest up.  Which dice these are may change with the faces, but
what a modifier makes of the levels does not (`Modifier.onLevels`): it takes a front or an end of them,
or bounds each.  So higher levels stay higher, level by level (`forall₂_onLevels`).

Faces that are higher die by die are so level by level once they are sorted
(`forall₂_insertionSort`).  It follows that totals grow with the faces, and lie between those of the
lowest and the highest faces (`total_monotone`).
-/
import DiceFormula.Proofs.Dice.Ranked
import DiceFormula.Proofs.Dice.Steady

namespace DiceFormula

set_option autoImplicit false

/-! ## Sorted values -/

section Sorted

variable {as bs : List Int}

/-- Values between two ends are above the lower end and below the upper one, one by one. -/
theorem forall₂_replicate {low high : Int} (inside : ∀ a ∈ as, low ≤ a ∧ a ≤ high) :
    List.Forall₂ (· ≤ ·) (.replicate as.length low) as ∧
      List.Forall₂ (· ≤ ·) as (.replicate as.length high) := by
  rw [← List.map_const', ← List.map_const', List.forall₂_map_left_iff, List.forall₂_map_right_iff,
    List.forall₂_same, List.forall₂_same]
  exact ⟨fun a mem => (inside a mem).1, fun a mem => (inside a mem).2⟩

theorem orderedInsert_of_sorted {a : Int} (sorted : (a :: as).Pairwise (· ≤ ·)) :
    as.orderedInsert (· ≤ ·) a = a :: as := by
  cases as with
  | nil => rfl
  | cons b as => exact List.orderedInsert_cons_of_le _ _ (List.rel_of_pairwise_cons sorted List.mem_cons_self)

/-- Into lists of which one is above the other, values are inserted alike. -/
theorem forall₂_orderedInsert (below : List.Forall₂ (· ≤ ·) as bs) (sorted : as.Pairwise (· ≤ ·))
    (sorted' : bs.Pairwise (· ≤ ·)) {x y : Int} (le : x ≤ y) :
    List.Forall₂ (· ≤ ·) (as.orderedInsert (· ≤ ·) x) (bs.orderedInsert (· ≤ ·) y) := by
  induction below generalizing x y with
  | nil => exact .cons le .nil
  | @cons a b as bs first others ih =>
      have ih {x y : Int} (le : x ≤ y) := ih sorted.of_cons sorted'.of_cons le
      rw [List.orderedInsert_cons, List.orderedInsert_cons]
      split <;> split
      · exact .cons le (.cons first others)
      · -- the value that is inserted above goes further up than the one below
        rename_i before behind
        have rest := ih (x := a) (y := y) (by omega)
        rw [orderedInsert_of_sorted sorted] at rest
        exact .cons (by omega) rest
      · rename_i behind before
        have rest := ih (x := x) (y := b) (by omega)
        rw [orderedInsert_of_sorted sorted'] at rest
        exact .cons (by omega) rest
      · exact .cons first (ih le)

/-- **Values that are higher one by one are so as well when they are sorted.** -/
theorem forall₂_insertionSort (below : List.Forall₂ (· ≤ ·) as bs) :
    List.Forall₂ (· ≤ ·) (as.insertionSort (· ≤ ·)) (bs.insertionSort (· ≤ ·)) := by
  induction below with
  | nil => exact .nil
  | cons first _ ih =>
      exact forall₂_orderedInsert ih (List.pairwise_insertionSort _ _)
        (List.pairwise_insertionSort _ _) first

theorem insertionSort_eq (same : as.Perm bs) (sorted : bs.Pairwise (· ≤ ·)) :
    as.insertionSort (· ≤ ·) = bs :=
  ((List.perm_insertionSort _ as).trans same).eq_of_pairwise'
    (List.pairwise_insertionSort _ as) sorted

end Sorted

/-! ## Levels -/

namespace Die

/-- The values of the kept dice, from the lowest up. -/
def levels (dice : List Die) : List Int := (values dice).insertionSort (· ≤ ·)

theorem levels_perm (dice : List Die) : (levels dice).Perm (values dice) :=
  List.perm_insertionSort _ _

theorem levels_eq_of_perm {dice : List Die} {ranked : List (Nat × Int)}
    (same : (keptAt dice).Perm ranked) (sorted : ranked.Pairwise fun a b => a.2 ≤ b.2) :
    levels dice = ranked.map Prod.snd := by
  rw [levels, values_eq]
  exact insertionSort_eq (same.map Prod.snd) (List.pairwise_map.2 sorted)

theorem levels_eq_ranking (dice : List Die) : levels dice = (ranking dice).map Prod.snd :=
  levels_eq_of_perm (ranking_perm dice).symm (pairwise_ranking dice)

theorem length_levels (dice : List Die) : (levels dice).length = dice.countP isKept := by
  rw [(levels_perm dice).length_eq, length_values]

theorem levels_dropLowest (m : Modifier) (j : Nat) (dice : List Die) :
    levels (dropLowest m j dice) = (levels dice).drop j := by
  have rest := keptAt_discardAt_perm m (take_ranking_append j dice)
  rw [List.map_take] at rest
  rw [levels_eq_ranking dice, ← List.map_drop]
  exact levels_eq_of_perm rest ((pairwise_ranking dice).sublist (List.drop_sublist j _))

theorem levels_keepLowest (m : Modifier) (j : Nat) (dice : List Die) :
    levels (keepLowest m j dice) = (levels dice).take j := by
  have rest := keptAt_discardAt_perm m (drop_ranking_append j dice)
  rw [List.map_drop] at rest
  rw [levels_eq_ranking dice, ← List.map_take]
  exact levels_eq_of_perm rest ((pairwise_ranking dice).sublist (List.take_sublist j _))

/-- Where the values of kept dice change in a way that keeps their order, so do the levels. -/
theorem levels_map {f : Die → Die} {g : Int → Int} (keeps : ∀ d, (f d).isKept = d.isKept)
    (changes : ∀ d, d.isKept = true → (f d).value = g d.value) (monotone : Monotone g)
    (dice : List Die) : levels (dice.map f) = (levels dice).map g := by
  have changed : values (dice.map f) = (values dice).map g := by
    have kept : isKept ∘ f = isKept := funext keeps
    rw [values, List.filter_map, kept, values, List.map_map, List.map_map]
    exact List.map_congr_left fun d mem => changes d (List.mem_filter.1 mem).2
  rw [levels, changed]
  refine insertionSort_eq ((levels_perm dice).symm.map g) ?_
  rw [List.pairwise_map]
  exact (List.pairwise_insertionSort _ _).imp fun le => monotone le

theorem levels_raiseAll (m : Modifier) (least : Int) (dice : List Die) :
    levels (raiseAll m least dice) = (levels dice).map (max least) := by
  refine levels_map (fun d => by split <;> rfl) (fun d kept => ?_)
    (fun _ _ le => max_le_max_left least le) dice
  rw [kept, Bool.true_and]
  split
  · rename_i lower
    exact (max_eq_left (of_decide_eq_true lower).le).symm
  · rename_i high
    exact (max_eq_right (by simpa using high)).symm

theorem levels_capAll (m : Modifier) (most : Int) (dice : List Die) :
    levels (capAll m most dice) = (levels dice).map (min most) := by
  refine levels_map (fun d => by split <;> rfl) (fun d kept => ?_)
    (fun _ _ le => min_le_min_left most le) dice
  rw [kept, Bool.true_and]
  split
  · rename_i higher
    exact (min_eq_left (of_decide_eq_true higher).le).symm
  · rename_i low
    exact (min_eq_right (by simpa using low)).symm

end Die

/-! ## Modifiers that keep the order of the levels -/

namespace Modifier

open Die

/-- The modifier selects dice by rank, or bounds their values. -/
def isIsotone : Modifier → Bool
  | keepHigh _ | keepLow _ | dropHigh _ | dropLow _ | raise _ | cap _ => true
  | _ => false

theorem uncounted_of_isIsotone {m : Modifier} (isotone : m.isIsotone = true) :
    m.countsSuccesses = false ∧ m.countsFailures = false := by
  cases m with
  | reroll | explode | countSuccess | countFailure => cases isotone
  | _ => exact ⟨rfl, rfl⟩

/-- What such a modifier makes of the levels. -/
def onLevels (m : Modifier) (levels : List Int) : List Int :=
  match m with
  | keepHigh n => levels.drop (levels.length - n)
  | keepLow n => levels.take n
  | dropHigh n => levels.take (levels.length - n)
  | dropLow n => levels.drop n
  | raise least => levels.map (max least)
  | cap most => levels.map (min most)
  | _ => levels

/-- What modifiers make of the levels, one after the other. -/
def onLevelsAll (modifiers : List Modifier) (levels : List Int) : List Int :=
  modifiers.foldl (fun levels m => m.onLevels levels) levels

theorem exists_onLevels {m : Modifier} (isotone : m.isIsotone = true) (sides : Nat)
    (dice : List Die) :
    ∃ dice', m.apply sides dice = pure dice' ∧ levels dice' = m.onLevels (levels dice) := by
  cases m with
  | keepHigh n =>
      refine ⟨_, apply_keepHigh sides dice n, ?_⟩
      rw [levels_dropLowest, onLevels, length_levels]
  | keepLow n => exact ⟨_, apply_keepLow sides dice n, levels_keepLowest _ n dice⟩
  | dropHigh n =>
      refine ⟨_, apply_dropHigh sides dice n, ?_⟩
      rw [levels_keepLowest, onLevels, length_levels]
  | dropLow n => exact ⟨_, apply_dropLow sides dice n, levels_dropLowest _ n dice⟩
  | raise least => exact ⟨_, rfl, levels_raiseAll _ least dice⟩
  | cap most => exact ⟨_, rfl, levels_capAll _ most dice⟩
  | reroll | explode | countSuccess | countFailure => cases isotone

theorem exists_onLevelsAll {modifiers : List Modifier}
    (isotone : ∀ m ∈ modifiers, m.isIsotone = true) (sides : Nat) (dice : List Die) :
    ∃ dice', applyAll sides modifiers dice = pure dice' ∧
      levels dice' = onLevelsAll modifiers (levels dice) := by
  induction modifiers generalizing dice with
  | nil => exact ⟨dice, rfl, rfl⟩
  | cons m rest ih =>
      obtain ⟨first, others⟩ := List.forall_mem_cons.1 isotone
      obtain ⟨next, applied, leveled⟩ := exists_onLevels first sides dice
      obtain ⟨dice', ends, all⟩ := ih others next
      refine ⟨dice', ?_, ?_⟩
      · rw [applyAll, applied, pure_bind, ends]
      · rw [all, leveled]
        rfl

/-- **Higher levels stay higher.** -/
theorem forall₂_onLevels {vs ws : List Int} (m : Modifier) (below : List.Forall₂ (· ≤ ·) vs ws) :
    List.Forall₂ (· ≤ ·) (m.onLevels vs) (m.onLevels ws) := by
  have bounded {g : Int → Int} (monotone : Monotone g) :
      List.Forall₂ (· ≤ ·) (vs.map g) (ws.map g) := by
    rw [List.forall₂_map_left_iff, List.forall₂_map_right_iff]
    exact below.imp fun _ _ le => monotone le
  cases m with
  | keepHigh n =>
      rw [onLevels, onLevels, below.length_eq]
      exact List.forall₂_drop _ below
  | keepLow n => exact List.forall₂_take n below
  | dropHigh n =>
      rw [onLevels, onLevels, below.length_eq]
      exact List.forall₂_take _ below
  | dropLow n => exact List.forall₂_drop n below
  | raise least => exact bounded fun _ _ le => max_le_max_left least le
  | cap most => exact bounded fun _ _ le => min_le_min_left most le
  | reroll | explode | countSuccess | countFailure => exact below

theorem forall₂_onLevelsAll {vs ws : List Int} (modifiers : List Modifier)
    (below : List.Forall₂ (· ≤ ·) vs ws) :
    List.Forall₂ (· ≤ ·) (onLevelsAll modifiers vs) (onLevelsAll modifiers ws) := by
  induction modifiers generalizing vs ws with
  | nil => exact below
  | cons m rest ih => exact ih (forall₂_onLevels m below)

end Modifier

/-! ## Totals -/

namespace Die

theorem levels_fresh (faces : List Int) :
    levels (faces.map fresh) = faces.insertionSort (· ≤ ·) := by
  have kept : (faces.map fresh).filter isKept = faces.map fresh := by
    rw [List.filter_eq_self, List.forall_mem_map]
    exact fun _ _ => rfl
  have shown : value ∘ fresh = id := rfl
  rw [levels, values, kept, List.map_map, shown, List.map_id]

end Die

/-- Dice with such modifiers total their values. -/
theorem Rolled.total_eq {rolled : Rolled}
    (isotone : ∀ m ∈ rolled.dice.modifiers, m.isIsotone = true) :
    rolled.total = Die.sum rolled.rolls := by
  have successes : rolled.dice.modifiers.any Modifier.countsSuccesses = false :=
    List.any_eq_false.2 fun m mem => by simp [Modifier.uncounted_of_isIsotone (isotone m mem)]
  have failures : rolled.dice.modifiers.any Modifier.countsFailures = false :=
    List.any_eq_false.2 fun m mem => by simp [Modifier.uncounted_of_isIsotone (isotone m mem)]
  rw [Rolled.total, tally, successes, failures]
  rfl

namespace Dice

open Modifier

/-- The dice fell with those faces, and total what the modifiers make of them. -/
structure Totals (d : Dice) (faces : List Int) (rolled : Rolled) : Prop where
  few : d.count ≤ maxCount
  shown : faces.length = d.count
  total : rolled.total = Die.sum rolled.rolls
  levels : Die.levels rolled.rolls = onLevelsAll d.modifiers (faces.insertionSort (· ≤ ·))

variable {d : Dice} {faces faces' : List Int} {rolled rolled' : Rolled}

/-- Dice with such modifiers can be rolled whenever there are enough. -/
theorem exists_roll (isotone : ∀ m ∈ d.modifiers, m.isIsotone = true) {r : Roller}
    (few : d.count ≤ maxCount) (supplied : d.count ≤ r.supply) :
    ∃ rolled, (d.roll true).run.run r = (.ok rolled, r.after d.count) ∧
      d.Totals (r.upcoming (.replicate d.count d.sides)) rolled := by
  obtain ⟨rolls, applied, levels⟩ := exists_onLevelsAll isotone d.sides
    ((r.upcoming (.replicate d.count d.sides)).map Die.fresh)
  rw [Die.levels_fresh] at levels
  refine ⟨⟨rolls, d⟩, ?_, few, ?_, Rolled.total_eq isotone, levels⟩
  · rw [run_roll few supplied, applied, pure_bind]
    rfl
  · rw [Roller.length_upcoming, List.length_replicate]

theorem totals_of_roll (isotone : ∀ m ∈ d.modifiers, m.isIsotone = true) {r : Roller}
    (ok : ((d.roll true).run.run r).1 = .ok rolled) :
    d.Totals (r.upcoming (.replicate d.count d.sides)) rolled := by
  obtain ⟨few, supplied, -⟩ := ok_of_run_roll (Prod.ext ok rfl)
  obtain ⟨rolled', run, totals⟩ := exists_roll isotone few supplied
  rw [run] at ok
  cases ok
  exact totals

/-- **With faces that are higher one by one the total is higher.** -/
theorem Totals.le (totals : d.Totals faces rolled) (totals' : d.Totals faces' rolled')
    (below : List.Forall₂ (· ≤ ·) faces faces') {s t : Int} (least : rolled.total = .ok s)
    (most : rolled'.total = .ok t) : s ≤ t := by
  rw [totals.total] at least
  rw [totals'.total] at most
  rw [Die.sum_eq least, Die.sum_eq most, ← (Die.levels_perm _).sum_eq,
    ← (Die.levels_perm _).sum_eq, totals.levels, totals'.levels]
  exact (forall₂_onLevelsAll _ (forall₂_insertionSort below)).sum_le_sum

end Dice

/-! ## The lowest and the highest faces -/

namespace Modifier

/-- What a modifier makes of the value of a die that it leaves. -/
def onValue : Modifier → Int → Int
  | raise least, v => max least v
  | cap most, v => min most v
  | _, v => v

def onValueAll (modifiers : List Modifier) (v : Int) : Int :=
  modifiers.foldl (fun v m => m.onValue v) v

theorem mem_onLevels {m : Modifier} {v : Int} {vs : List Int} (mem : v ∈ m.onLevels vs) :
    ∃ u ∈ vs, m.onValue u = v := by
  cases m with
  | keepHigh | dropLow => exact ⟨v, List.mem_of_mem_drop mem, rfl⟩
  | keepLow | dropHigh => exact ⟨v, List.mem_of_mem_take mem, rfl⟩
  | raise | cap => exact List.mem_map.1 mem
  | reroll | explode | countSuccess | countFailure => exact ⟨v, mem, rfl⟩

theorem mem_onLevelsAll {modifiers : List Modifier} {v : Int} {vs : List Int}
    (mem : v ∈ onLevelsAll modifiers vs) : ∃ u ∈ vs, onValueAll modifiers u = v := by
  induction modifiers generalizing vs with
  | nil => exact ⟨v, mem, rfl⟩
  | cons m rest ih =>
      obtain ⟨w, later, rfl⟩ := ih mem
      obtain ⟨u, first, rfl⟩ := mem_onLevels later
      exact ⟨u, first, rfl⟩

theorem length_onLevels {vs ws : List Int} (m : Modifier) (same : vs.length = ws.length) :
    (m.onLevels vs).length = (m.onLevels ws).length ∧ (m.onLevels vs).length ≤ vs.length := by
  cases m <;> simp [onLevels, same]

theorem length_onLevelsAll {vs ws : List Int} (modifiers : List Modifier)
    (same : vs.length = ws.length) :
    (onLevelsAll modifiers vs).length = (onLevelsAll modifiers ws).length ∧
      (onLevelsAll modifiers vs).length ≤ vs.length := by
  induction modifiers generalizing vs ws with
  | nil => exact ⟨same, le_rfl⟩
  | cons m rest ih =>
      obtain ⟨first, fewer⟩ := length_onLevels m same
      obtain ⟨others, fewer'⟩ := ih first
      exact ⟨others, fewer'.trans fewer⟩

/-- Bounds leave values between two ends where they are, or make all of them the same. -/
theorem onValueAll_between (modifiers : List Modifier) (a b : Int) :
    (∀ u, a ≤ u → u ≤ b → a ≤ onValueAll modifiers u ∧ onValueAll modifiers u ≤ b) ∨
      ∃ c, ∀ u, a ≤ u → u ≤ b → onValueAll modifiers u = c := by
  induction modifiers with
  | nil => exact .inl fun u low high => ⟨low, high⟩
  | cons m rest ih =>
      -- either the first modifier leaves all values between the ends, or it makes them the same
      have first : (∀ u, a ≤ u → u ≤ b → a ≤ m.onValue u ∧ m.onValue u ≤ b) ∨
          ∃ c, ∀ u, a ≤ u → u ≤ b → m.onValue u = c := by
        cases m with
        | raise least =>
            by_cases above : b < least
            · exact .inr ⟨least, fun u _ high => max_eq_left (by omega)⟩
            · exact .inl fun u low high => by simp only [onValue]; omega
        | cap most =>
            by_cases below : most < a
            · exact .inr ⟨most, fun u low _ => min_eq_left (by omega)⟩
            · exact .inl fun u low high => by simp only [onValue]; omega
        | _ => exact .inl fun u low high => ⟨low, high⟩
      rcases first with between | ⟨c, same⟩
      · rcases ih with between' | ⟨c, same⟩
        · refine .inl fun u low high => ?_
          obtain ⟨low', high'⟩ := between u low high
          exact between' _ low' high'
        · refine .inr ⟨c, fun u low high => ?_⟩
          obtain ⟨low', high'⟩ := between u low high
          exact same _ low' high'
      · exact .inr ⟨onValueAll rest c, fun u low high => congrArg (onValueAll rest) (same u low high)⟩

end Modifier

namespace Dice

open Modifier

variable {d : Dice} {faces faces' : List Int} {rolled rolled' : Rolled}

/-- Every value is what the modifiers make of a face. -/
theorem Totals.exists_face (totals : d.Totals faces rolled) {v : Int}
    (mem : v ∈ Die.values rolled.rolls) : ∃ face ∈ faces, onValueAll d.modifiers face = v := by
  rw [← (Die.levels_perm _).mem_iff, totals.levels] at mem
  obtain ⟨face, shown, same⟩ := mem_onLevelsAll mem
  exact ⟨face, (List.mem_insertionSort _).1 shown, same⟩

theorem Totals.length_values (totals : d.Totals faces rolled) (totals' : d.Totals faces' rolled') :
    (Die.values rolled.rolls).length = (Die.values rolled'.rolls).length ∧
      (Die.values rolled.rolls).length ≤ d.count := by
  have shown : (faces.insertionSort (· ≤ ·)).length = (faces'.insertionSort (· ≤ ·)).length := by
    rw [List.length_insertionSort, List.length_insertionSort, totals.shown, totals'.shown]
  have lengths := length_onLevelsAll d.modifiers shown
  rwa [← totals.levels, ← totals'.levels, (Die.levels_perm _).length_eq,
    (Die.levels_perm _).length_eq, List.length_insertionSort, totals.shown] at lengths

/-- Of two rolls with faces between one and the number of sides, both totals fit or none does. -/
theorem Totals.fits (totals : d.Totals faces rolled) (totals' : d.Totals faces' rolled')
    (small : d.sides ≤ Limit.mostCount) (inside : ∀ face ∈ faces, 1 ≤ face ∧ face ≤ d.sides)
    (inside' : ∀ face ∈ faces', 1 ≤ face ∧ face ≤ d.sides) {t : Int} (total : rolled.total = .ok t) :
    ∃ t', rolled'.total = .ok t' := by
  rw [totals'.total]
  rcases onValueAll_between d.modifiers 1 d.sides with between | ⟨c, constant⟩
  · -- the values are such as faces have, and these are small
    have bounded : ∀ v ∈ Die.values rolled'.rolls, 0 ≤ v ∧ v ≤ d.sides := by
      intro v mem
      obtain ⟨face, shown, rfl⟩ := totals'.exists_face mem
      obtain ⟨low, high⟩ := inside' face shown
      have values := between face low high
      omega
    have few : (Die.values rolled'.rolls).length ≤ maxCount :=
      (totals'.length_values totals).2.trans totals.few
    have most : ((maxCount * Limit.mostCount : Nat) : Int) ≤ Limit.mostValue := by decide
    refine Die.exists_sum bounded ?_
    rw [← Nat.cast_mul]
    exact (Int.ofNat_le.2 (Nat.mul_le_mul few small)).trans most
  · -- the values are the same in both rolls
    have same {faces : List Int} {rolled : Rolled} (totals : d.Totals faces rolled)
        (inside : ∀ face ∈ faces, 1 ≤ face ∧ face ≤ d.sides) :
        Die.values rolled.rolls = .replicate (Die.values rolled.rolls).length c := by
      refine List.eq_replicate_iff.2 ⟨rfl, fun v mem => ?_⟩
      obtain ⟨face, shown, rfl⟩ := totals.exists_face mem
      exact constant face (inside face shown).1 (inside face shown).2
    have values : Die.values rolled'.rolls = Die.values rolled.rolls := by
      rw [same totals' inside', (totals'.length_values totals).1, ← same totals inside]
    rw [Die.sum_congr values, ← totals.total]
    exact ⟨t, total⟩

/-! ## Monotone totals -/

/-- With a tape, the faces are its first ones. -/
theorem totals_tape (isotone : ∀ m ∈ d.modifiers, m.isIsotone = true) {tape : List Int}
    (ok : ((d.roll true).run.run (.tape tape)).1 = .ok rolled) :
    d.Totals (tape.take d.count) rolled := by
  obtain ⟨-, supplied, -⟩ := ok_of_run_roll (Prod.ext ok rfl)
  have totals := totals_of_roll isotone ok
  rwa [Roller.upcoming_tape (by rwa [List.length_replicate]), List.length_replicate] at totals

/-- The lowest faces are all one, and the highest as many as there are sides. -/
theorem exists_extremes (isotone : ∀ m ∈ d.modifiers, m.isIsotone = true) (sided : 1 ≤ d.sides)
    (few : d.count ≤ maxCount) {supply : Nat} (enough : d.count ≤ supply) :
    ∃ low high, ((d.roll true).run.run (.lowest supply)).1 = .ok low ∧
      ((d.roll true).run.run (.highest supply)).1 = .ok high ∧
      d.Totals (.replicate d.count 1) low ∧ d.Totals (.replicate d.count d.sides) high := by
  obtain ⟨low, ranLow, totalsLow⟩ := exists_roll isotone (r := .lowest supply) few enough
  obtain ⟨high, ranHigh, totalsHigh⟩ := exists_roll isotone (r := .highest supply) few enough
  rw [Roller.lowest_eq, Roller.upcoming_steady, Roller.low, Nat.min_eq_right sided] at totalsLow
  rw [Roller.highest_eq, Roller.upcoming_steady] at totalsHigh
  exact ⟨low, high, congrArg Prod.fst ranLow, congrArg Prod.fst ranHigh, totalsLow, totalsHigh⟩

/-- The dice keep the faces that they fell with. -/
theorem drawnAll_of_roll {r : Roller} (ran : (d.roll true).run.run r = (.ok rolled, r.after d.count)) :
    Die.drawnAll rolled.rolls = r.upcoming (.replicate d.count d.sides) := by
  obtain ⟨faces, draws, tells⟩ := tells_roll d true r
  rw [ran] at draws tells
  have told : Die.drawnAll rolled.rolls = [] ++ faces := tells rolled rfl
  have many : faces.length = d.count := by
    have behind := congrArg Roller.drawn draws.behind
    rw [List.length_map] at behind
    exact (Nat.add_left_cancel behind).symm
  have shown : faces = r.upcoming (.replicate faces.length d.sides) := by
    simpa [Function.comp_def] using draws.faces
  rw [told, List.nil_append, ← many]
  exact shown

/-- **Totals are monotone in the faces.**  If all modifiers select dice by rank or bound their
values, then the total with one tape is at most that with another whose faces are at least as high,
one by one.  So whatever the faces, as long as they are those that the dice have, the total is
between those with the lowest and with the highest faces; and there are such totals. -/
theorem total_monotone (isotone : ∀ m ∈ d.modifiers, m.isIsotone = true) :
    (∀ a b : List Int, (∀ (i : Nat) (x y : Int), a[i]? = some x → b[i]? = some y → x ≤ y) →
      ∀ low high s t, ((d.roll true).run.run (.tape a)).1 = .ok low →
        ((d.roll true).run.run (.tape b)).1 = .ok high →
        low.total = .ok s → high.total = .ok t → s ≤ t) ∧
    (1 ≤ d.sides → ∀ r rolled t, ((d.roll true).run.run r).1 = .ok rolled →
      (∀ die ∈ rolled.rolls, 1 ≤ die.drawn ∧ die.drawn ≤ d.sides) → rolled.total = .ok t →
      ∀ supply, d.count ≤ supply → ∃ low high,
        ((d.roll true).run.run (.lowest supply)).1 = .ok low ∧
        ((d.roll true).run.run (.highest supply)).1 = .ok high ∧
        (∀ s, low.total = .ok s → s ≤ t) ∧ (∀ s, high.total = .ok s → t ≤ s) ∧
        (d.sides ≤ Limit.mostCount → (∃ s, low.total = .ok s) ∧ ∃ s, high.total = .ok s)) := by
  constructor
  · intro a b below low high s t first second least most
    have totals := totals_tape isotone first
    have totals' := totals_tape isotone second
    refine totals.le totals' (List.forall₂_iff_get.2 ⟨?_, fun i h h' => ?_⟩) least most
    · rw [totals.shown, totals'.shown]
    · rw [List.length_take] at h h'
      simp only [List.get_eq_getElem, List.getElem_take]
      exact below i _ _ (List.getElem?_eq_getElem _) (List.getElem?_eq_getElem _)
  · intro sided r rolled t ok inside total supply enough
    obtain ⟨few, supplied, -⟩ := ok_of_run_roll (Prod.ext ok rfl)
    obtain ⟨rolled', ran, totals⟩ := exists_roll isotone few supplied
    rw [ran] at ok
    cases ok
    obtain ⟨low, high, ranLow, ranHigh, totalsLow, totalsHigh⟩ := exists_extremes isotone sided few enough
    have faced : ∀ face ∈ r.upcoming (.replicate d.count d.sides), 1 ≤ face ∧ face ≤ d.sides := by
      rw [← drawnAll_of_roll ran, Die.drawnAll, List.forall_mem_map]
      exact inside
    obtain ⟨above, below⟩ := forall₂_replicate faced
    rw [totals.shown] at above below
    have one : (1 : Int) ≤ d.sides := by omega
    refine ⟨low, high, ranLow, ranHigh, fun s least => totalsLow.le totals above least total,
      fun s most => totals.le totalsHigh below total most, fun small => ⟨?_, ?_⟩⟩
    · refine totals.fits totalsLow small faced (fun face mem => ?_) total
      rw [List.eq_of_mem_replicate mem]
      exact ⟨le_rfl, one⟩
    · refine totals.fits totalsHigh small faced (fun face mem => ?_) total
      rw [List.eq_of_mem_replicate mem]
      exact ⟨one, le_rfl⟩

/-- Of four dice three are kept and another is dropped, and these are not the same with higher faces.
The totals are eleven and twelve, and eleven is between the totals of the extremes. -/
theorem total_monotone_selecting :
    ∃ (d : Dice) (low high least most : Rolled) (s t : Int),
      d = ⟨4, 6, [.keepHigh 3, .raise 2, .dropLow 1]⟩ ∧
      ((d.roll true).run.run (.tape [1, 5, 2, 6])).1 = .ok low ∧
      ((d.roll true).run.run (.tape [6, 5, 3, 6])).1 = .ok high ∧
      low.rolls.map Die.text = ["1 (d)", "5", "2 (d)", "6"] ∧
      high.rolls.map Die.text = ["6", "5 (d)", "3 (d)", "6"] ∧
      low.total = .ok 11 ∧ high.total = .ok 12 ∧ (11 : Int) ≤ 12 ∧
      ((d.roll true).run.run (.lowest 4)).1 = .ok least ∧ least.total = .ok s ∧ s ≤ 11 ∧
      ((d.roll true).run.run (.highest 4)).1 = .ok most ∧ most.total = .ok t ∧ 11 ≤ t := by
  let d : Dice := ⟨4, 6, [.keepHigh 3, .raise 2, .dropLow 1]⟩
  let view (rolled : Rolled) := (rolled.rolls.map Die.text, rolled.total.toOption)
  have lower : ((d.roll true).run.run (.tape [1, 5, 2, 6])).1.toOption.map view =
      some (["1 (d)", "5", "2 (d)", "6"], some 11) := by cbv
  have upper : ((d.roll true).run.run (.tape [6, 5, 3, 6])).1.toOption.map view =
      some (["6", "5 (d)", "3 (d)", "6"], some 12) := by cbv
  have faced : ((d.roll true).run.run (.tape [1, 5, 2, 6])).1.toOption.map
      (fun rolled => rolled.rolls.all fun die => 1 ≤ die.drawn && die.drawn ≤ 6) = some true := by cbv
  obtain ⟨low, ranLow, shownLow⟩ := Option.map_eq_some_iff.1 lower
  obtain ⟨high, ranHigh, shownHigh⟩ := Option.map_eq_some_iff.1 upper
  obtain ⟨textLow, totalLow⟩ := Prod.mk.inj shownLow
  obtain ⟨textHigh, totalHigh⟩ := Prod.mk.inj shownHigh
  have okLow := eq_ok_of_toOption ranLow
  have okHigh := eq_ok_of_toOption ranHigh
  obtain ⟨tapes, extremes⟩ := total_monotone (d := d) (by decide)
  have below : ∀ (i : Nat) (x y : Int), [1, 5, 2, 6][i]? = some x →
      [6, 5, 3, 6][i]? = some y → x ≤ y := by
    intro i x y first second
    rcases i with _ | _ | _ | _ | i <;> cases first <;> cases second <;> decide
  have inside : ∀ die ∈ low.rolls, 1 ≤ die.drawn ∧ die.drawn ≤ d.sides := by
    rw [ranLow] at faced
    simpa [d] using faced
  obtain ⟨least, most, ranLeast, ranMost, lowest, highest, total⟩ := extremes (by decide) _ low 11 okLow
    inside (eq_ok_of_toOption totalLow) 4 le_rfl
  obtain ⟨⟨s, totalLeast⟩, t, totalMost⟩ := total (by decide)
  exact ⟨d, low, high, least, most, s, t, rfl, okLow, okHigh, textLow, textHigh,
    eq_ok_of_toOption totalLow, eq_ok_of_toOption totalHigh,
    tapes _ _ below _ _ _ _ okLow okHigh (eq_ok_of_toOption totalLow) (eq_ok_of_toOption totalHigh),
    ranLeast, totalLeast, lowest s totalLeast, ranMost, totalMost, highest t totalMost⟩

end Dice

end DiceFormula
