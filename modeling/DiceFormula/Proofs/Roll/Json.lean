/-
# DiceFormula.Proofs.Roll.Json -- rolls are restored from JSON

A roll that was evaluated is restored from its JSON as it was: with its formula and data, the terms
and dice with all that became of them, the total, and the data that was missing
(`restored_evaluate`).

What is read has its objects sorted, so it is the sorted JSON that a roll is restored from.  The roll
is restored from its text as well, if the doubles in it are read back (`restored_text`).
-/
import DiceFormula.Proofs.Roll.Stored
import DiceFormula.Roll.Json

namespace DiceFormula

set_option autoImplicit false

open Json

/-! ## Data -/

theorem Missing.ofJson?_toJson (m : Missing) : ofJson? m.toJson.sorted = some m := by
  have path := asString?_string m.path
  have substituted : optional? asString? (some (ofOption string m.substituted).sorted) =
      some m.substituted :=
    optional?_sorted rfl fun s _ => asString?_string s
  rw [toJson, ofJson?, fields?_sorted (by simp)]
  simp [find?, required?_some, path, substituted]

theorem Missing.bounded_toJson (m : Missing) : m.toJson.Bounded := by
  simp [toJson]

namespace Roll

/-! ## Rolls -/

theorem ofJson?_toJson {r : Roll} (fits : r.Fits) (data : r.data.value.sorted = r.data.value) :
    ofJson? r.toJson.sorted = some r := by
  have formula := asString?_string r.formula
  have terms := Term.asList?_toJson fits.terms
  have dice : asList? Rolled.ofJson? (ofList Rolled.toJson r.dice).sorted = some r.dice :=
    asList?_sorted fun rolled mem => Rolled.ofJson?_toJson (fits.dice rolled mem)
  have total : optional? asFloat? (some (ofOption ofFloat r.total).sorted) = some r.total :=
    optional?_sorted rfl fun x same => asFloat?_ofFloat (fits.total x same)
  have missing : asList? Missing.ofJson? (ofList Missing.toJson r.missing).sorted =
      some r.missing :=
    asList?_sorted fun m _ => Missing.ofJson?_toJson m
  rw [toJson, ofJson?]
  -- the field is left out if nothing is missing
  split
  · rename_i empty
    have nothing : [] = r.missing := (List.isEmpty_iff.1 empty).symm
    rw [fields?_sorted (by simp)]
    simp [find?, required?_some, formula, data, terms, dice, total, asBool?_bool, defaulted?,
      nothing]
  · rw [fields?_sorted (by simp)]
    simp [find?, required?_some, formula, data, terms, dice, total, asBool?_bool, defaulted?,
      missing]

theorem bounded_toJson {r : Roll} (fits : r.Fits) (data : r.data.value.Bounded) :
    r.toJson.Bounded := by
  have terms := Term.bounded_of_everywhere fits.terms
  have dice := fun rolled mem => (fits.dice rolled mem).bounded
  rw [toJson, bounded_object, List.forall_mem_append]
  constructor
  · simpa [data, terms] using dice
  · split
    · exact List.forall_mem_nil _
    · exact List.forall_mem_singleton.2 (bounded_ofList.2 fun m _ => m.bounded_toJson)

section Evaluated

variable {options : RollOptions} {data : Context} {formula : String} {roll roll' : Roll}
variable {roller roller' : Roller} {total : Float}

/-- What is written of an evaluated roll can be read, and its data is what was given. -/
theorem fits_ofFormula (faces : roller.Fits) (made : ofFormula options data formula = .ok roll)
    (ok : roll.evaluate roller = (.ok total, roll', roller')) : roll'.Fits ∧ roll'.data = data := by
  obtain ⟨read, rfl⟩ := ofFormula_ok made
  have fits := fits_evaluate read ok faces
  obtain ⟨ts, s, -, rfl, -⟩ := evaluate_ok ok
  exact ⟨fits, rfl⟩

/-- **A roll that was evaluated is restored from its JSON as it was.** -/
theorem restored_evaluate (sorted : data.value.sorted = data.value) (faces : roller.Fits)
    (made : ofFormula options data formula = .ok roll)
    (ok : roll.evaluate roller = (.ok total, roll', roller')) :
    ofJson? roll'.toJson.sorted = some roll' := by
  obtain ⟨fits, rfl⟩ := fits_ofFormula faces made ok
  exact ofJson?_toJson fits sorted

/-- A pool in a pool whose dice explode and are raised, with data, missing data and flavor. -/
theorem restored_evaluate_nested :
    ∃ (roll roll' : Roll) (roller' : Roller) (total : Float),
      ofFormula .default ⟨.object [("a", .number (.integer 3))]⟩
          "\x7b2d6x>5min2, \x7b1d4, 2.5\x7dcf<2\x7dcs>2[pool] + @a * @b" = .ok roll ∧
        roll.evaluate (.tape [6, 1, 4, 2]) = (.ok total, roll', roller') ∧
          ofJson? roll'.toJson.sorted = some roll' := by
  have comes : ∃ roll ∈ (ofFormula .default ⟨.object [("a", .number (.integer 3))]⟩
        "\x7b2d6x>5min2, \x7b1d4, 2.5\x7dcf<2\x7dcs>2[pool] + @a * @b").toOption,
      (roll.evaluate (.tape [6, 1, 4, 2])).1.toOption.isSome = true := by decide +kernel
  obtain ⟨roll, made, ends⟩ := comes
  have made := eq_ok_of_toOption made
  obtain ⟨total, outcome⟩ := ok_of_isSome ends
  exact ⟨roll, _, _, total, made, outcome,
    restored_evaluate rfl (Roller.fits_tape (by decide)) made outcome⟩

/-- **It is restored from the text of that as well**, if the doubles in it are read back. -/
theorem restored_text (sorted : data.value.sorted = data.value) (bounded : data.value.Bounded)
    (faces : roller.Fits) (made : ofFormula options data formula = .ok roll)
    (ok : roll.evaluate roller = (.ok total, roll', roller'))
    (doubles : ∀ x, .double x ∈ roll'.toJson.numbers → (JsonNumber.double x).ReadsBack) :
    (Json.read? roll'.toJson.text).bind ofJson? = some roll' := by
  obtain ⟨fits, rfl⟩ := fits_ofFormula faces made ok
  rw [Json.read?_text (reads_of_bounded (bounded_toJson fits bounded) doubles)]
  exact ofJson?_toJson fits sorted

end Evaluated

end Roll

end DiceFormula
