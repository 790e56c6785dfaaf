/-
# DiceFormula.Proofs.Formula.Json -- terms are restored from JSON

A term is restored as it was if its own numbers `Fit` and the formulas in it are restored
(`ofJsonWithin?_toJson`).  The numbers of terms are doubles, which have to be finite: JSON has no
others.  By induction a formula is restored if this is so everywhere in it (`asList?_toJson`),
however deep its groups are nested: the reader goes as deep as the value that it reads.
-/
import DiceFormula.Formula.Json
import DiceFormula.Proofs.Dice.Json
import DiceFormula.Proofs.Formula.Everywhere

namespace DiceFormula

set_option autoImplicit false

namespace Term

open Json

/-! ## What can be stored -/

/-- The numbers of the term itself can be stored. -/
def Fits : Term → Prop
  | number value _ => value.isFinite = true
  | dice rolled _ _ => rolled.Fits
  | pool _ modifiers results _ _ => (∀ m ∈ modifiers, m.Fits) ∧ ∀ d ∈ results, d.Fits
  | operator _ | call _ _ _ | group _ _ | fragment _ => True

/-- The numbers of the terms themselves can be stored. -/
def Fitting (ts : List Term) : Prop := ∀ t ∈ ts, t.Fits

/-! ## Lists -/

theorem allToJson_eq (ts : List Term) : .array (allToJson ts) = ofList toJson ts := by
  rw [ofList]
  congr 1
  induction ts with
  | nil => rfl
  | cons t rest ih => rw [allToJson, ih, List.map_cons]

theorem listsToJson_eq (lists : List (List Term)) :
    .array (listsToJson lists) = ofList (ofList toJson) lists := by
  rw [ofList]
  congr 1
  induction lists with
  | nil => rfl
  | cons ts rest ih => rw [listsToJson, ih, allToJson_eq, List.map_cons]

/-- The formula is restored from its JSON, by a reader that goes deep enough. -/
def Restored (ts : List Term) : Prop :=
  ∀ n, (ofList toJson ts).sorted.depth ≤ n + 1 →
    asList? (ofJsonWithin? n) (ofList toJson ts).sorted = some ts

theorem asList?_restored {lists : List (List Term)} (restored : ∀ ts ∈ lists, Restored ts) {n : Nat}
    (deep : (ofList (ofList toJson) lists).sorted.depth ≤ n + 1) :
    asList? (asList? (ofJsonWithin? n)) (ofList (ofList toJson) lists).sorted = some lists := by
  refine asList?_sorted fun ts mem => restored ts mem n ?_
  rw [sorted_ofList, depth] at deep
  have within := depth_le_of_mem (List.mem_map_of_mem (f := fun a => (ofList toJson a).sorted) mem)
  omega

/-! ## Flavor -/

theorem flavorOfJson?_flavorMember (flavor : Option String) :
    flavorOfJson? ((find? "flavor" (flavorMember flavor)).map sorted) = some flavor := by
  cases flavor with
  | none => rfl
  | some text => exact congrArg _ (asString?_string text)

/-! ## Terms -/

section Data

variable {terms? : Json → Option (List Term)} (flavor : Option String)

theorem numberOfJson?_sorted {x : Float} (finite : x.isFinite = true) :
    numberOfJson? (object (("val", ofFloat x) :: flavorMember flavor)).sorted =
      some (.number x flavor) := by
  have value := asFloat?_ofFloat finite
  have behind := flavorOfJson?_flavorMember flavor
  rw [numberOfJson?, fields?_sorted (by cases flavor <;> simp [flavorMember])]
  simp [find?, required?_some, value, behind]

theorem diceOfJson?_sorted {rolled : Rolled} (fits : rolled.Fits) (evaluated : Bool) :
    diceOfJson? (object (("rolled", rolled.toJson) :: ("evaluated", .bool evaluated) ::
        flavorMember flavor)).sorted =
      some (.dice rolled evaluated flavor) := by
  have rolls := Rolled.ofJson?_toJson fits
  have behind := flavorOfJson?_flavorMember flavor
  rw [diceOfJson?, fields?_sorted (by cases flavor <;> simp [flavorMember])]
  simp [find?, required?_some, rolls, asBool?_bool, behind]

theorem poolOfJson?_sorted {members : List (List Term)} {modifiers : List Modifier}
    {results : List Die} (evaluated : Bool)
    (inside : asList? terms? (ofList (ofList toJson) members).sorted = some members)
    (modified : ∀ m ∈ modifiers, m.Fits) (scored : ∀ d ∈ results, d.Fits) :
    poolOfJson? terms? (object (("members", ofList (ofList toJson) members) ::
        ("modifiers", ofList Modifier.toJson modifiers) ::
        ("results", ofList Die.toJson results) :: ("evaluated", .bool evaluated) ::
        flavorMember flavor)).sorted =
      some (.pool members modifiers results evaluated flavor) := by
  have modifiersRead := Modifier.asList?_toJson modified
  have resultsRead := Die.asList?_toJson scored
  have behind := flavorOfJson?_flavorMember flavor
  rw [poolOfJson?, fields?_sorted (by cases flavor <;> simp [flavorMember])]
  simp [find?, required?_some, inside, modifiersRead, resultsRead, asBool?_bool, behind]

theorem oneOf?_name (f : MathFunction) :
    oneOf? MathFunction.name MathFunction.all (Json.string f.name).sorted = some f := by
  cases f <;> rfl

theorem callOfJson?_sorted (f : MathFunction) {args : List (List Term)}
    (inside : asList? terms? (ofList (ofList toJson) args).sorted = some args) :
    callOfJson? terms? (object (("func", .string f.name) ::
        ("args", ofList (ofList toJson) args) :: flavorMember flavor)).sorted =
      some (.call f args flavor) := by
  have function := oneOf?_name f
  have behind := flavorOfJson?_flavorMember flavor
  rw [callOfJson?, fields?_sorted (by cases flavor <;> simp [flavorMember])]
  simp [find?, required?_some, function, inside, behind]

theorem groupOfJson?_sorted {inner : List Term}
    (inside : terms? (ofList toJson inner).sorted = some inner) :
    groupOfJson? terms? (object (("inner", ofList toJson inner) :: flavorMember flavor)).sorted =
      some (.group inner flavor) := by
  have behind := flavorOfJson?_flavorMember flavor
  rw [groupOfJson?, fields?_sorted (by cases flavor <;> simp [flavorMember])]
  simp [find?, required?_some, inside, behind]

end Data

/-- A term of a class is read by the reader of its data, which is nested less deep. -/
theorem ofJsonWithin?_classed (name : String) (data : Json) {n : Nat}
    (deep : (classed name data).sorted.depth ≤ n) :
    ∃ m, data.sorted.depth ≤ m ∧ ofJsonWithin? n (classed name data).sorted =
      dataOfJson? (asList? (ofJsonWithin? m)) name data.sorted := by
  have less : data.sorted.depth < n :=
    depth_lt_of_object deep (by simp) "data" (by simp [find?])
  cases n with
  | zero => cases less
  | succ n =>
      refine ⟨n, Nat.le_of_lt_succ less, ?_⟩
      rw [ofJsonWithin?, classed, fields?_sorted (by simp)]
      simp [find?, required?_some, asString?_string]

/-- A term is restored if the formulas in it are. -/
theorem ofJsonWithin?_toJson {t : Term} (fits : t.Fits) (inside : ∀ us ∈ t.inner, Restored us)
    {n : Nat} (deep : t.toJson.sorted.depth ≤ n) : ofJsonWithin? n t.toJson.sorted = some t := by
  cases t with
  | number value flavor =>
      obtain ⟨m, -, read⟩ := ofJsonWithin?_classed _ _ deep
      exact read.trans (numberOfJson?_sorted flavor fits)
  | operator op =>
      obtain ⟨m, -, read⟩ := ofJsonWithin?_classed _ _ deep
      refine read.trans ?_
      cases op <;> rfl
  | dice rolled evaluated flavor =>
      obtain ⟨m, -, read⟩ := ofJsonWithin?_classed _ _ deep
      exact read.trans (diceOfJson?_sorted flavor fits evaluated)
  | pool members modifiers results evaluated flavor =>
      rw [toJson, listsToJson_eq] at deep ⊢
      obtain ⟨m, less, read⟩ := ofJsonWithin?_classed _ _ deep
      have first : (ofList (ofList toJson) members).sorted.depth < m :=
        depth_lt_of_object less (by cases flavor <;> simp [flavorMember]) "members" (by simp [find?])
      have lists := asList?_restored inside (Nat.le_succ_of_le (Nat.le_of_lt first))
      exact read.trans (poolOfJson?_sorted flavor evaluated lists fits.1 fits.2)
  | call f args flavor =>
      rw [toJson, listsToJson_eq] at deep ⊢
      obtain ⟨m, less, read⟩ := ofJsonWithin?_classed _ _ deep
      have second : (ofList (ofList toJson) args).sorted.depth < m :=
        depth_lt_of_object less (by cases flavor <;> simp [flavorMember]) "args" (by simp [find?])
      have lists := asList?_restored inside (Nat.le_succ_of_le (Nat.le_of_lt second))
      exact read.trans (callOfJson?_sorted flavor f lists)
  | group us flavor =>
      rw [toJson, allToJson_eq] at deep ⊢
      obtain ⟨m, less, read⟩ := ofJsonWithin?_classed _ _ deep
      have first : (ofList toJson us).sorted.depth < m :=
        depth_lt_of_object less (by cases flavor <;> simp [flavorMember]) "inner" (by simp [find?])
      have terms := inside us List.mem_cons_self m (Nat.le_succ_of_le (Nat.le_of_lt first))
      exact read.trans (groupOfJson?_sorted flavor terms)
  | fragment text =>
      obtain ⟨m, -, read⟩ := ofJsonWithin?_classed _ _ deep
      refine read.trans ?_
      rfl

/-- **A formula is restored with all that is in it.** -/
theorem restored_of_everywhere {ts : List Term} (everywhere : Everywhere Fitting ts) :
    Restored ts := by
  induction everywhere with
  | @intro ts here inside ih =>
      intro n deep
      refine asList?_sorted fun t mem => ofJsonWithin?_toJson (here t mem) (ih t mem) ?_
      rw [sorted_ofList, depth] at deep
      have within := depth_le_of_mem (List.mem_map_of_mem (f := fun a => (toJson a).sorted) mem)
      omega

theorem asList?_toJson {ts : List Term} (everywhere : Everywhere Fitting ts) :
    asList? ofJson? (ofList toJson ts).sorted = some ts := by
  cases everywhere with
  | intro here inside =>
      refine asList?_sorted fun t mem => ofJsonWithin?_toJson (here t mem) (fun us member => ?_) ?_
      · exact restored_of_everywhere (inside t mem us member)
      · exact Nat.le_refl _

/-! ## Integers -/

theorem bounded_toJson {t : Term} (fits : t.Fits)
    (inside : ∀ us ∈ t.inner, (ofList toJson us).Bounded) : t.toJson.Bounded := by
  cases t with
  | number value flavor => cases flavor <;> simp [toJson, classed, flavorMember]
  | operator op | fragment text => simp [toJson, classed]
  | dice rolled evaluated flavor =>
      cases flavor <;> simp [toJson, classed, flavorMember, Rolled.Fits.bounded fits]
  | pool members modifiers results evaluated flavor =>
      have modified := fun m mem => (fits.1 m mem).bounded
      have scored := fun d mem => (fits.2 d mem).bounded
      have lists : (ofList (ofList toJson) members).Bounded := bounded_ofList.2 inside
      rw [toJson, listsToJson_eq]
      cases flavor <;> simpa [classed, flavorMember, lists] using ⟨modified, scored⟩
  | call f args flavor =>
      have lists : (ofList (ofList toJson) args).Bounded := bounded_ofList.2 inside
      rw [toJson, listsToJson_eq]
      cases flavor <;> simp [classed, flavorMember, lists]
  | group us flavor =>
      have terms : (ofList toJson us).Bounded := inside us List.mem_cons_self
      rw [toJson, allToJson_eq]
      cases flavor <;> simp [classed, flavorMember, terms]

theorem bounded_of_everywhere {ts : List Term} (everywhere : Everywhere Fitting ts) :
    (ofList toJson ts).Bounded := by
  induction everywhere with
  | intro here inside ih =>
      exact bounded_ofList.2 fun t mem => bounded_toJson (here t mem) (ih t mem)

end Term

end DiceFormula
