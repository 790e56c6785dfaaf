/-
# DiceFormula.Proofs.Dice.Ranked -- dice that are kept and dropped by rank

Ranks order the kept dice by value (`Die.ranking`).  A modifier that keeps or drops dice cuts this
order in two and drops one part.  Keeping the highest and dropping the lowest are the same cut, made
from opposite ends, and drop the lower part (`Die.dropLowest`); keeping the lowest and dropping the
highest drop the upper one (`Die.keepLowest`).

Of both it is enough to know what is left, the dice of the other part (`keptAt_discardAt_perm`).
Every die of the upper part has a value at least that of every die of the lower part, so the right
dice are dropped (`apply_selects`).  The highest come in the reverse order of the ranks, in which
the later of two equal dice is first.  So both sides of a cut agree also on which of several equal
dice it drops (`apply_dual`).
-/
import DiceFormula.Proofs.Dice.Selective
import DiceFormula.Proofs.Dice.Totals

namespace DiceFormula

set_option autoImplicit false

namespace Die

variable (m : Modifier) {dice : List Die} {positions : List Nat}

/-! ## The ranking -/

/-- The positions and values of the kept dice, by value. -/
def ranking (dice : List Die) : List (Nat × Int) :=
  (keptAt dice).mergeSort fun a b => a.2 ≤ b.2

theorem ascending_eq (dice : List Die) : ascending dice = (ranking dice).map Prod.fst := rfl

theorem ranking_perm (dice : List Die) : (ranking dice).Perm (keptAt dice) :=
  List.mergeSort_perm _ _

theorem pairwise_ranking (dice : List Die) : (ranking dice).Pairwise fun a b => a.2 ≤ b.2 := by
  have sorted : (ranking dice).Pairwise fun a b => decide (a.2 ≤ b.2) = true :=
    List.pairwise_mergeSort (fun a b c => by simp only [decide_eq_true_eq]; omega)
      (fun a b => by simp only [Bool.or_eq_true, decide_eq_true_eq]; omega) (keptAt dice)
  exact sorted.imp of_decide_eq_true

theorem values_eq (dice : List Die) : values dice = (keptAt dice).map Prod.snd := by
  conv => lhs; rw [← List.zipIdx_map_fst 0 dice]
  rw [values, keptAt, List.filter_map, List.map_map, List.map_map]
  rfl

@[simp] theorem length_keptAt (dice : List Die) : (keptAt dice).length = dice.countP isKept := by
  rw [← length_values, values_eq, List.length_map]

@[simp] theorem length_ranking (dice : List Die) : (ranking dice).length = dice.countP isKept := by
  rw [(ranking_perm dice).length_eq, length_keptAt]

theorem mem_keptAt {i : Nat} {value : Int} :
    (i, value) ∈ keptAt dice ↔ ∃ d, dice[i]? = some d ∧ d.isKept = true ∧ d.value = value := by
  simp only [keptAt, List.mem_map, List.mem_filter, Prod.exists, List.mem_zipIdx_iff_getElem?]
  constructor
  · rintro ⟨d, j, ⟨here, kept⟩, same⟩
    cases same
    exact ⟨d, here, kept, rfl⟩
  · rintro ⟨d, here, kept, rfl⟩
    exact ⟨d, i, ⟨here, kept⟩, rfl⟩

theorem nodup_keptAt (dice : List Die) : ((keptAt dice).map Prod.fst).Nodup := by
  have sublist : ((keptAt dice).map Prod.fst).Sublist (dice.zipIdx.map Prod.snd) := by
    rw [keptAt, List.map_map]
    exact List.filter_sublist.map Prod.snd
  refine sublist.nodup ?_
  rw [List.zipIdx_map_snd]
  exact List.nodup_range'

/-! ## Dropping dice of the ranking -/

theorem getElem?_discardAt (positions : List Nat) (dice : List Die) (i : Nat) :
    (discardAt m positions dice)[i]? =
      dice[i]?.map fun d => if i ∈ positions then { d with droppedBy := some m } else d := by
  simp [discardAt, List.getElem?_zipIdx, Function.comp_def]

theorem keptAt_eq_filterMap (dice : List Die) :
    keptAt dice = dice.zipIdx.filterMap fun (d, i) => if d.isKept then some (i, d.value) else none := by
  rw [keptAt, ← List.filterMap_eq_map, List.filterMap_filter]
  rfl

/-- Dice that are dropped are kept no longer. -/
theorem keptAt_discardAt (positions : List Nat) (dice : List Die) :
    keptAt (discardAt m positions dice) = (keptAt dice).filter fun p => p.1 ∉ positions := by
  have marked : (discardAt m positions dice).zipIdx = dice.zipIdx.map fun (d, i) =>
      (if i ∈ positions then { d with droppedBy := some m } else d, i) := by
    apply List.ext_getElem?
    intro i
    simp [getElem?_discardAt, List.getElem?_zipIdx, Function.comp_def]
  rw [keptAt_eq_filterMap, marked, List.filterMap_map, keptAt_eq_filterMap, List.filter_filterMap]
  apply List.filterMap_congr
  rintro ⟨d, i⟩ -
  have retired : ({ d with droppedBy := some m } : Die).isKept = false := rfl
  cases kept : d.isKept <;> by_cases dropped : i ∈ positions <;>
    simp [kept, dropped, retired, Option.filter_some]

/-- Of ranked dice that are dropped in part, the others are left. -/
theorem keptAt_discardAt_perm {gone left : List (Nat × Int)}
    (split : (gone ++ left).Perm (keptAt dice)) :
    (keptAt (discardAt m (gone.map Prod.fst) dice)).Perm left := by
  have distinct := (split.map Prod.fst).nodup_iff.2 (nodup_keptAt dice)
  rw [List.map_append, List.nodup_append] at distinct
  obtain ⟨-, -, apart⟩ := distinct
  rw [keptAt_discardAt]
  refine (split.symm.filter _).trans ?_
  have none : gone.filter (fun p => p.1 ∉ gone.map Prod.fst) = [] := by
    rw [List.filter_eq_nil_iff]
    intro p mem
    simpa using ⟨p.2, mem⟩
  have all : left.filter (fun p => p.1 ∉ gone.map Prod.fst) = left := by
    rw [List.filter_eq_self]
    intro p mem
    rw [decide_eq_true_eq]
    exact fun other => apart _ other _ (List.mem_map_of_mem mem) rfl
  rw [List.filter_append, none, all, List.nil_append]

/-- The modifier drops the die or leaves it alone.  It drops only kept dice. -/
def Screened (m : Modifier) (d d' : Die) : Prop :=
  d' = d ∨ d.isKept = true ∧ d' = { d with droppedBy := some m }

/-- The number of kept dice that were dropped. -/
def newlyDropped (dice dice' : List Die) : Nat :=
  (dice.zip dice').countP fun (d, d') => d.isKept && d'.isDropped

/-- The modifier drops some of the kept dice and does nothing else: so many stay and so many go, and
every die that stays compares with every one that goes. -/
structure Selects (m : Modifier) (stay go : Nat) (compares : Int → Int → Prop)
    (dice dice' : List Die) : Prop where
  each : List.Forall₂ (Screened m) dice dice'
  kept : dice'.countP isKept = stay
  lost : newlyDropped dice dice' = go
  ranks : ∀ (i j : Nat) (d e e' : Die), dice'[i]? = some d → d.isKept = true →
    dice[j]? = some e → e.isKept = true → dice'[j]? = some e' → e'.isKept = false →
    compares d.value e.value

theorem countP_screened {dice dice' : List Die} (each : List.Forall₂ (Screened m) dice dice') :
    dice.countP isKept = dice'.countP isKept + newlyDropped dice dice' := by
  induction each with
  | nil => rfl
  | @cons d d' dice dice' screened _ ih =>
      have counted : newlyDropped (d :: dice) (d' :: dice') =
          newlyDropped dice dice' + if d.isKept && d'.isDropped then 1 else 0 := List.countP_cons
      rw [List.countP_cons, List.countP_cons, counted, ih, isDropped_eq]
      rcases screened with rfl | ⟨kept, rfl⟩
      · rw [Bool.and_not_self, if_neg Bool.false_ne_true]
        omega
      · have dropped : ({ d with droppedBy := some m } : Die).isKept = false := rfl
        simp [kept, dropped]
        omega

/-- Dice that are dropped by rank are the right ones, if the ranks are cut in two. -/
theorem selects_discardAt {gone left : List (Nat × Int)} {compares : Int → Int → Prop}
    (split : (gone ++ left).Perm (keptAt dice))
    (ranks : ∀ p ∈ left, ∀ q ∈ gone, compares p.2 q.2) :
    Selects m left.length gone.length compares dice (discardAt m (gone.map Prod.fst) dice) := by
  have kept : ∀ i ∈ gone.map Prod.fst, ∃ d, dice[i]? = some d ∧ d.isKept = true := by
    intro i mem
    obtain ⟨p, ranked, rfl⟩ := List.mem_map.1 mem
    obtain ⟨d, here, kept, -⟩ := mem_keptAt.1 (split.subset (List.mem_append_left left ranked))
    exact ⟨d, here, kept⟩
  have each : List.Forall₂ (Screened m) dice (discardAt m (gone.map Prod.fst) dice) := by
    refine forall₂_dropAt (fun _ => .inl rfl) (fun d d' ok => ?_) (dropAt_kept m kept)
    unfold drop at ok
    split at ok
    · cases ok
    · rename_i undropped
      cases ok
      exact .inr ⟨by simpa [isDropped_eq] using undropped, rfl⟩
  have rest := keptAt_discardAt_perm m split
  have remain : (discardAt m (gone.map Prod.fst) dice).countP isKept = left.length := by
    rw [← length_keptAt, rest.length_eq]
  refine ⟨each, remain, ?_, ?_⟩
  · have all := countP_screened m each
    rw [remain, ← length_keptAt, ← split.length_eq, List.length_append] at all
    omega
  · intro i j d e e' here keptHere there keptThere there' droppedThere
    have mem : (i, d.value) ∈ left := rest.subset (mem_keptAt.2 ⟨d, here, keptHere, rfl⟩)
    have ranked : (j, e.value) ∈ gone ++ left :=
      split.symm.subset (mem_keptAt.2 ⟨e, there, keptThere, rfl⟩)
    rcases List.mem_append.1 ranked with dropped | remains
    · exact ranks _ mem _ dropped
    · -- what remains is kept, but this die is not
      obtain ⟨e'', there'', keptThere'', -⟩ := mem_keptAt.1 (rest.symm.subset remains)
      rw [there'] at there''
      cases there''
      rw [droppedThere] at keptThere''
      cases keptThere''

/-! ## The two parts -/

/-- The dice without the `j` lowest of the kept ones. -/
def dropLowest (j : Nat) (dice : List Die) : List Die :=
  discardAt m ((ascending dice).take j) dice

/-- The dice with the `j` lowest of the kept ones, and no others. -/
def keepLowest (j : Nat) (dice : List Die) : List Die :=
  discardAt m ((ascending dice).drop j) dice

theorem take_ranking_append (j : Nat) (dice : List Die) :
    ((ranking dice).take j ++ (ranking dice).drop j).Perm (keptAt dice) := by
  rw [List.take_append_drop]
  exact ranking_perm dice

theorem drop_ranking_append (j : Nat) (dice : List Die) :
    ((ranking dice).drop j ++ (ranking dice).take j).Perm (keptAt dice) :=
  List.perm_append_comm.trans (take_ranking_append j dice)

/-- The lower part of the ranking is not above the upper one. -/
theorem le_of_mem_ranking {j : Nat} {p q : Nat × Int} (low : p ∈ (ranking dice).take j)
    (high : q ∈ (ranking dice).drop j) : p.2 ≤ q.2 := by
  have sorted := pairwise_ranking dice
  rw [← List.take_append_drop j (ranking dice), List.pairwise_append] at sorted
  exact sorted.2.2 p low q high

theorem selects_dropLowest (j : Nat) (dice : List Die) :
    Selects m (dice.countP isKept - j) (min j (dice.countP isKept)) (· ≥ ·) dice
      (dropLowest m j dice) := by
  have selects : Selects m _ _ (· ≥ ·) dice _ :=
    selects_discardAt m (take_ranking_append j dice) fun _ high _ low => le_of_mem_ranking low high
  rw [List.map_take, List.length_drop, List.length_take, length_ranking] at selects
  exact selects

theorem selects_keepLowest (j : Nat) (dice : List Die) :
    Selects m (min j (dice.countP isKept)) (dice.countP isKept - j) (· ≤ ·) dice
      (keepLowest m j dice) := by
  have selects : Selects m _ _ (· ≤ ·) dice _ :=
    selects_discardAt m (drop_ranking_append j dice) fun _ low _ high => le_of_mem_ranking low high
  rw [List.map_drop, List.length_drop, List.length_take, length_ranking] at selects
  exact selects

end Die

/-! ## Modifiers that go by rank -/

namespace Modifier

open Die

variable (sides : Nat) (dice : List Die)

theorem ofFault_dropAt (m : Modifier) {highestFirst : Bool} {positions others : List Nat}
    (ranks : ∀ i ∈ positions, i ∈ ranked highestFirst dice) (same : ∀ i, i ∈ positions ↔ i ∈ others) :
    Rolling.ofFault (dropAt m positions dice) = pure (discardAt m others dice) := by
  rw [dropAt_kept m fun i mem => kept_of_mem_ranked (ranks i mem)]
  simp only [discardAt, same]
  rfl

/-- Keeping the highest drops the lowest. -/
theorem apply_keepHigh (n : Nat) :
    (keepHigh n).apply sides dice =
      pure (dropLowest (keepHigh n) (dice.countP isKept - n) dice) := by
  refine ofFault_dropAt dice _ (fun _ => List.mem_of_mem_drop) fun i => ?_
  rw [ranked, if_pos rfl, List.drop_reverse, List.mem_reverse, ascending_eq, List.length_map,
    length_ranking]

theorem apply_keepLow (n : Nat) :
    (keepLow n).apply sides dice = pure (keepLowest (keepLow n) n dice) :=
  ofFault_dropAt dice _ (fun _ => List.mem_of_mem_drop) fun _ => Iff.rfl

/-- Dropping the highest keeps the lowest. -/
theorem apply_dropHigh (n : Nat) :
    (dropHigh n).apply sides dice =
      pure (keepLowest (dropHigh n) (dice.countP isKept - n) dice) := by
  refine ofFault_dropAt dice _ (fun _ => List.mem_of_mem_take) fun i => ?_
  rw [ranked, if_pos rfl, List.take_reverse, List.mem_reverse, ascending_eq, List.length_map,
    length_ranking]

theorem apply_dropLow (n : Nat) :
    (dropLow n).apply sides dice = pure (dropLowest (dropLow n) n dice) :=
  ofFault_dropAt dice _ (fun _ => List.mem_of_mem_take) fun _ => Iff.rfl

/-- **Keeping and dropping select the right dice.**  Keeping leaves `n` of the kept dice, or all of
them if they are fewer, and dropping drops so many; and the dice that are left have the values that
they should have against those that were dropped.  Nothing else becomes of the dice (`Screened`):
they stay in their order and have the same values, those that were dropped before are the same, and
each that is dropped records the modifier.  No die is drawn for that. -/
theorem apply_selects (n sides : Nat) (dice : List Die) (r : Roller) :
    (∃ dice', ((keepHigh n).apply sides dice).run.run r = (.ok dice', r) ∧
      Selects (keepHigh n) (min n (dice.countP isKept))
        (dice.countP isKept - min n (dice.countP isKept)) (· ≥ ·) dice dice') ∧
    (∃ dice', ((keepLow n).apply sides dice).run.run r = (.ok dice', r) ∧
      Selects (keepLow n) (min n (dice.countP isKept))
        (dice.countP isKept - min n (dice.countP isKept)) (· ≤ ·) dice dice') ∧
    (∃ dice', ((dropHigh n).apply sides dice).run.run r = (.ok dice', r) ∧
      Selects (dropHigh n) (dice.countP isKept - min n (dice.countP isKept))
        (min n (dice.countP isKept)) (· ≤ ·) dice dice') ∧
    ∃ dice', ((dropLow n).apply sides dice).run.run r = (.ok dice', r) ∧
      Selects (dropLow n) (dice.countP isKept - min n (dice.countP isKept))
        (min n (dice.countP isKept)) (· ≥ ·) dice dice' := by
  -- a cut leaves as many dice above it as there are, less those below
  have above : dice.countP isKept - (dice.countP isKept - n) = min n (dice.countP isKept) := by omega
  have below : min (dice.countP isKept - n) (dice.countP isKept) =
      dice.countP isKept - min n (dice.countP isKept) := by omega
  have rest : dice.countP isKept - n = dice.countP isKept - min n (dice.countP isKept) := by omega
  refine ⟨⟨_, by rw [apply_keepHigh]; rfl, ?_⟩, ⟨_, by rw [apply_keepLow]; rfl, ?_⟩,
    ⟨_, by rw [apply_dropHigh]; rfl, ?_⟩, ⟨_, by rw [apply_dropLow]; rfl, ?_⟩⟩
  · have selects := selects_dropLowest (keepHigh n) (dice.countP isKept - n) dice
    rwa [above, below] at selects
  · have selects := selects_keepLowest (keepLow n) n dice
    rwa [rest] at selects
  · have selects := selects_keepLowest (dropHigh n) (dice.countP isKept - n) dice
    rwa [above, below] at selects
  · have selects := selects_dropLowest (dropLow n) n dice
    rwa [rest] at selects

/-- Two modifiers drop the same of the kept dice and leave all others alone, so that only the
modifier that is recorded differs. -/
def DropAlike (m m' : Modifier) (dice first second : List Die) : Prop :=
  ∀ i : Nat, first[i]? = dice[i]? ∧ second[i]? = dice[i]? ∨
    ∃ d, dice[i]? = some d ∧ d.isKept = true ∧
      first[i]? = some { d with droppedBy := some m } ∧
      second[i]? = some { d with droppedBy := some m' }

theorem dropAlike_discardAt (m m' : Modifier) {dice : List Die} {positions : List Nat}
    (ranks : ∀ i ∈ positions, i ∈ ascending dice) :
    DropAlike m m' dice (discardAt m positions dice) (discardAt m' positions dice) := by
  intro i
  rw [getElem?_discardAt, getElem?_discardAt]
  by_cases dropped : i ∈ positions
  · have among : i ∈ ranked false dice := ranks i dropped
    obtain ⟨d, here, kept⟩ := kept_of_mem_ranked among
    exact .inr ⟨d, here, kept, by simp [here, dropped], by simp [here, dropped]⟩
  · exact .inl ⟨by simp [dropped], by simp [dropped]⟩

/-- **Keeping dice and dropping the others are the same, down to the tie.**  Of `k` kept dice, those
that are not among the `n` highest are the `k - n` lowest, and those that are not among the `n`
lowest are the `k - n` highest, also where dice are equal. -/
theorem apply_dual (n sides : Nat) (dice : List Die) (r : Roller) :
    (∃ kept dropped, ((keepHigh n).apply sides dice).run.run r = (.ok kept, r) ∧
      ((dropLow (dice.countP isKept - n)).apply sides dice).run.run r = (.ok dropped, r) ∧
      DropAlike (keepHigh n) (dropLow (dice.countP isKept - n)) dice kept dropped) ∧
    ∃ kept dropped, ((keepLow n).apply sides dice).run.run r = (.ok kept, r) ∧
      ((dropHigh (dice.countP isKept - n)).apply sides dice).run.run r = (.ok dropped, r) ∧
      DropAlike (keepLow n) (dropHigh (dice.countP isKept - n)) dice kept dropped := by
  have cut : (ascending dice).drop (dice.countP isKept - (dice.countP isKept - n)) =
      (ascending dice).drop n := by
    rcases Nat.le_total n (dice.countP isKept) with few | many
    · rw [Nat.sub_sub_self few]
    · rw [Nat.sub_eq_zero_of_le many, Nat.sub_zero, List.drop_of_length_le, List.drop_of_length_le]
      · simpa [ascending_eq] using many
      · simp [ascending_eq]
  refine ⟨⟨_, _, by rw [apply_keepHigh]; rfl, by rw [apply_dropLow]; rfl, ?_⟩,
    ⟨_, _, by rw [apply_keepLow]; rfl, by rw [apply_dropHigh]; rfl, ?_⟩⟩
  · exact dropAlike_discardAt _ _ fun _ => List.mem_of_mem_take
  · rw [keepLowest, keepLowest, cut]
    exact dropAlike_discardAt _ _ fun _ => List.mem_of_mem_drop

end Modifier

end DiceFormula
