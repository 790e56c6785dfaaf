/-
# DiceFormula.Proofs.Dice.Json -- dice are restored from JSON

What is stored of dice are integers with 32 or 64 bits.  Dice whose numbers `Fit` are restored as
they were, with their modifiers, and so is all that a roll tells of each die.
-/
import DiceFormula.Dice.Json
import DiceFormula.Proofs.Json.Text

namespace DiceFormula

set_option autoImplicit false

open Json

/-! ## What can be stored -/

/-- The number is a signed integer of 64 bits. -/
def FitsValue (n : Int) : Prop := Limit.leastValue ≤ n ∧ n ≤ Limit.mostValue

instance (n : Int) : Decidable (FitsValue n) := inferInstanceAs (Decidable (_ ∧ _))

/-- The bound is an integer of 64 bits. -/
def Condition.Fits (c : Condition) : Prop := FitsValue c.bound

/-- All numbers can be stored. -/
def Modifier.Fits : Modifier → Prop
  | reroll condition _ => condition.Fits
  | explode condition _ => ∀ c, condition = some c → c.Fits
  | keepHigh n | keepLow n | dropHigh n | dropLow n => n ≤ Limit.mostCount
  | raise bound | cap bound => FitsValue bound
  | countSuccess condition | countFailure condition => condition.Fits

/-- All numbers can be stored. -/
structure Dice.Fits (d : Dice) : Prop where
  count : d.count ≤ Limit.mostCount
  sides : d.sides ≤ Limit.mostCount
  modifiers : ∀ m ∈ d.modifiers, m.Fits

/-- All numbers can be stored. -/
structure Change.Fits (c : Change) : Prop where
  before : FitsValue c.before
  after : FitsValue c.after
  cause : c.cause.Fits

/-- All numbers can be stored. -/
structure Die.Fits (d : Die) : Prop where
  value : FitsValue d.value
  addedBy : ∀ m, d.addedBy = some m → m.Fits
  droppedBy : ∀ m, d.droppedBy = some m → m.Fits
  changes : ∀ c ∈ d.changes, c.Fits

/-- All numbers can be stored. -/
structure Rolled.Fits (r : Rolled) : Prop where
  rolls : ∀ d ∈ r.rolls, d.Fits
  dice : r.dice.Fits

/-! ## Integers -/

theorem FitsValue.bounded {n : Int} (fits : FitsValue n) : (ofInt n).Bounded :=
  bounded_ofInt.2 ⟨fits.1, Int.le_trans fits.2 (by decide)⟩

theorem bounded_count {n : Nat} (most : n ≤ Limit.mostCount) : (ofNat n).Bounded :=
  bounded_ofNat.2 (Nat.le_trans most (by decide))

theorem Condition.Fits.bounded {c : Condition} (fits : c.Fits) : c.toJson.Bounded := by
  simp [toJson, FitsValue.bounded fits]

theorem Modifier.Fits.bounded {m : Modifier} (fits : m.Fits) : m.toJson.Bounded := by
  cases m with
  | reroll condition again | countSuccess condition | countFailure condition =>
      simp [toJson, Condition.Fits.bounded fits]
  | explode condition again => simpa [toJson] using fun c same => (fits c same).bounded
  | keepHigh n | keepLow n | dropHigh n | dropLow n => simp [toJson, bounded_count fits]
  | raise bound | cap bound => simp [toJson, FitsValue.bounded fits]

theorem Dice.Fits.bounded {d : Dice} (fits : d.Fits) : d.toJson.Bounded := by
  simpa [toJson, bounded_count fits.count, bounded_count fits.sides] using
    fun m mem => (fits.modifiers m mem).bounded

theorem Change.Fits.bounded {c : Change} (fits : c.Fits) : c.toJson.Bounded := by
  simp [toJson, fits.before.bounded, fits.after.bounded, fits.cause.bounded]

theorem Die.Fits.bounded {d : Die} (fits : d.Fits) : d.toJson.Bounded := by
  have added := fun m same => (fits.addedBy m same).bounded
  have dropped := fun m same => (fits.droppedBy m same).bounded
  have changes := fun c mem => (fits.changes c mem).bounded
  simpa [toJson, fits.value.bounded] using ⟨added, dropped, changes⟩

theorem Rolled.Fits.bounded {r : Rolled} (fits : r.Fits) : r.toJson.Bounded := by
  simpa [toJson, fits.dice.bounded] using fun d mem => (fits.rolls d mem).bounded

/-! ## Conditions -/

theorem Condition.ofJson?_toJson {c : Condition} (fits : c.Fits) :
    ofJson? c.toJson.sorted = some c := by
  have bound := asInt?_ofInt fits.1 fits.2
  obtain ⟨comparison, b⟩ := c
  rw [toJson, ofJson?, alternative?_sorted]
  cases comparison <;> simp [Comparison.all, Comparison.jsonName, required?_some, bound]

/-! ## Modifiers -/

theorem Modifier.ofJson?_toJson {m : Modifier} (fits : m.Fits) : ofJson? m.toJson.sorted = some m := by
  cases m with
  | reroll condition again =>
      have read := Condition.ofJson?_toJson fits
      rw [toJson, ofJson?, alternative?_sorted]
      simp [rerollOfJson?, named?_sorted, find?, required?_some, read, asBool?_bool]
  | explode condition again =>
      have read : optional? Condition.ofJson? (some (ofOption Condition.toJson condition).sorted) =
          some condition :=
        optional?_sorted rfl fun c same => Condition.ofJson?_toJson (fits c same)
      rw [toJson, ofJson?, alternative?_sorted]
      simp [explodeOfJson?, named?_sorted, find?, required?_some, read, asBool?_bool]
  | keepHigh n | keepLow n | dropHigh n | dropLow n =>
      have read := asCount?_ofNat fits
      rw [toJson, ofJson?, alternative?_sorted]
      simp [read]
  | raise bound | cap bound =>
      have read := asInt?_ofInt fits.1 fits.2
      rw [toJson, ofJson?, alternative?_sorted]
      simp [read]
  | countSuccess condition | countFailure condition =>
      have read := Condition.ofJson?_toJson fits
      rw [toJson, ofJson?, alternative?_sorted]
      simp [read]

theorem Modifier.optional?_toJson {m : Option Modifier} (fits : ∀ n, m = some n → n.Fits) :
    optional? ofJson? (some (ofOption toJson m).sorted) = some m :=
  optional?_sorted rfl fun n same => ofJson?_toJson (fits n same)

theorem Modifier.asList?_toJson {ms : List Modifier} (fits : ∀ m ∈ ms, m.Fits) :
    asList? ofJson? (ofList toJson ms).sorted = some ms :=
  asList?_sorted fun m mem => ofJson?_toJson (fits m mem)

/-! ## Dice and rolls -/

theorem Dice.ofJson?_toJson {d : Dice} (fits : d.Fits) : ofJson? d.toJson.sorted = some d := by
  have count := asCount?_ofNat fits.count
  have sides := asCount?_ofNat fits.sides
  have modifiers := Modifier.asList?_toJson fits.modifiers
  rw [toJson, ofJson?, fields?_sorted (by simp)]
  simp [find?, required?_some, count, sides, modifiers]

theorem Change.ofJson?_toJson {c : Change} (fits : c.Fits) : ofJson? c.toJson.sorted = some c := by
  have before := asInt?_ofInt fits.before.1 fits.before.2
  have after := asInt?_ofInt fits.after.1 fits.after.2
  have cause := Modifier.ofJson?_toJson fits.cause
  rw [toJson, ofJson?, fields?_sorted (by simp)]
  simp [find?, required?_some, before, after, cause]

theorem Die.ofJson?_toJson {d : Die} (fits : d.Fits) : ofJson? d.toJson.sorted = some d := by
  have value := asInt?_ofInt fits.value.1 fits.value.2
  have added := Modifier.optional?_toJson fits.addedBy
  have dropped := Modifier.optional?_toJson fits.droppedBy
  have changes : asList? Change.ofJson? (ofList Change.toJson d.changes).sorted = some d.changes :=
    asList?_sorted fun c mem => Change.ofJson?_toJson (fits.changes c mem)
  have success : optional? asBool? (some (ofOption Json.bool d.success).sorted) = some d.success :=
    optional?_sorted rfl fun _ _ => rfl
  rw [toJson, ofJson?, fields?_sorted (by simp)]
  simp [find?, required?_some, value, added, dropped, changes, success]

theorem Die.asList?_toJson {ds : List Die} (fits : ∀ d ∈ ds, d.Fits) :
    asList? ofJson? (ofList toJson ds).sorted = some ds :=
  asList?_sorted fun d mem => ofJson?_toJson (fits d mem)

/-- **Dice are restored with all that became of them.** -/
theorem Rolled.ofJson?_toJson {r : Rolled} (fits : r.Fits) : ofJson? r.toJson.sorted = some r := by
  have rolls := Die.asList?_toJson fits.rolls
  have dice := Dice.ofJson?_toJson fits.dice
  rw [toJson, ofJson?, fields?_sorted (by simp)]
  simp [find?, required?_some, rolls, dice]

end DiceFormula
