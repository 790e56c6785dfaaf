/-
# DiceFormula.Proofs.Json.Paths -- setting parts of a value and getting them back

Setting a part walks down a path and makes objects of all that it meets, and getting a part walks
down a path too.  Of a value that is no array both see its members and nothing else
(`part?_eq_find?`), so one step of the second walk undoes one step of the first
(`part?_set`).

Hence what was set at a path is found at its end, whatever stood in its way, and what is found at a
path that parts from it is as before (`get?_set`).  An array on the way is the exception: it is
replaced as a whole, with all its items.
-/
import DiceFormula.Context
import DiceFormula.Proofs.Json.Fields

namespace DiceFormula

set_option autoImplicit false

namespace Json

variable {j value : Json}

/-! ## One step -/

/-- The value is an array. -/
def IsArray (j : Json) : Prop := ∃ items, j = .array items

theorem not_isArray_null : ¬ IsArray .null := by
  rintro ⟨items, same⟩
  cases same

/-- Of what is no array the parts are its members. -/
theorem part?_eq_find? (plain : ¬ j.IsArray) (key : String) : j.part? key = find? key j.members := by
  cases j with
  | array items => exact absurd ⟨items, rfl⟩ plain
  | _ => rfl

/-- The part that is set is there, and the others are those of the members. -/
theorem part?_set (key other : String) (path : List String) :
    (set value (key :: path) j).part? other =
      if key = other then some (set value path ((find? key j.members).getD .null))
      else find? other j.members :=
  find?_insert other key _ j.members

/-! ## Paths -/

theorem get?_null {path : List String} (some_ : path ≠ []) : get? path .null = none := by
  cases path with
  | nil => exact absurd rfl some_
  | cons key path => rfl

/-- What was set is there. -/
theorem get?_set_self (value : Json) (path : List String) (j : Json) :
    get? path (set value path j) = some value := by
  induction path generalizing j with
  | nil => rfl
  | cons key path ih =>
      rw [get?, part?_set, if_pos rfl, Option.bind_some, ih]

/-- No value on the way to the end of a path is an array. -/
def Clears (path : List String) (j : Json) : Prop :=
  ∀ front, front <+: path → front ≠ path → ∀ found, get? front j = some found → ¬ found.IsArray

theorem Clears.root {key : String} {path : List String} (clears : Clears (key :: path) j) :
    ¬ j.IsArray :=
  clears [] List.nil_prefix (List.cons_ne_nil key path).symm j rfl

/-- The way is clear below as well, also if there is nothing yet. -/
theorem Clears.child {key : String} {path : List String} (clears : Clears (key :: path) j) :
    Clears path ((j.part? key).getD .null) := by
  intro front isFront proper found here
  cases part : j.part? key with
  | some child =>
      rw [part, Option.getD_some] at here
      refine clears (key :: front) (List.prefix_cons_inj key |>.2 isFront)
        (fun same => proper (List.cons.inj same).2) found ?_
      rw [get?, part, Option.bind_some, here]
  | none =>
      rw [part, Option.getD_none] at here
      cases front with
      | nil =>
          cases here
          exact not_isArray_null
      | cons key front => cases here

/-- What is set does not show on paths that part from its own. -/
theorem get?_set_apart {path other : List String} (clears : Clears path j)
    (before : ¬ path <+: other) (behind : ¬ other <+: path) :
    get? other (set value path j) = get? other j := by
  induction path generalizing j other with
  | nil => exact absurd List.nil_prefix before
  | cons key path ih =>
      cases other with
      | nil => exact absurd List.nil_prefix behind
      | cons key' other =>
          have child := clears.child
          rw [part?_eq_find? clears.root] at child
          rw [get?, get?, part?_set, part?_eq_find? clears.root]
          split
          · rename_i same
            subst same
            rw [List.prefix_cons_inj] at before behind
            rw [Option.bind_some, ih child before behind]
            cases find? key j.members with
            | some child => rfl
            | none =>
                refine get?_null fun nothing => behind ?_
                rw [nothing]
                exact List.nil_prefix
          · rfl

end Json

/-! ## Contexts -/

namespace Context

open Json

/-- **What is set at a path is found there, and elsewhere nothing changes.**  Two paths are elsewhere
if neither is a front of the other, name by name.  Only an array on the way, at the root or at a
proper front of the path, would be lost with its items. -/
theorem get?_set (c : Context) (path : String) (value : Json) :
    (c.set path value).get? path = some value ∧
      ((∀ front, front <+: keys path → front ≠ keys path →
          ∀ items, c.value.get? front ≠ some (.array items)) →
        ∀ other : String, ¬ keys path <+: keys other → ¬ keys other <+: keys path →
          (c.set path value).get? other = c.get? other) := by
  refine ⟨get?_set_self value (keys path) c.value, fun plain other before behind => ?_⟩
  refine get?_set_apart (fun front isFront proper found here => ?_) before behind
  rintro ⟨items, rfl⟩
  exact plain front isFront proper items here

/-- A number in the way becomes an object, and the items beside it stay. -/
theorem get?_set_beside :
    let c : Context := ⟨.object [("hero", .object [("items", .array [.ofInt 4, .ofInt 7]),
      ("level", .ofInt 3)])]⟩
    (c.set "hero.level.base" (.ofInt 5)).get? "hero.level.base" = some (.ofInt 5) ∧
      (c.set "hero.level.base" (.ofInt 5)).get? "hero.items.1" = c.get? "hero.items.1" ∧
      c.get? "hero.items.1" = some (.ofInt 7) := by
  intro c
  obtain ⟨self, others⟩ := c.get?_set "hero.level.base" (.ofInt 5)
  have path : keys "hero.level.base" = ["hero", "level", "base"] := by decide +kernel
  have other : keys "hero.items.1" = ["hero", "items", "1"] := by decide +kernel
  refine ⟨self, others (fun front isFront proper items => ?_) "hero.items.1" ?_ ?_, ?_⟩
  · rw [path] at isFront proper
    have fronts : front = [] ∨ front = ["hero"] ∨ front = ["hero", "level"] := by
      rw [← List.mem_inits] at isFront
      simpa [proper] using isFront
    rcases fronts with rfl | rfl | rfl <;> exact fun found => by cases found
  · rw [path, other]
    decide
  · rw [path, other]
    decide
  · rw [Context.get?, other]
    rfl

end Context

end DiceFormula
