/-
# DiceFormula.Proofs.Json.Fields -- records are read from what they are written as

A record is written with its members in an order of its own, and read with its members sorted by
name.  `sorted` is what a value has become by then, at every depth.  It leaves each member what it
was (`find?_sorted`), so a record finds its fields again (`fields?_sorted`).

For every type of field there is a lemma that reads it from what it was written as: integers in
range, finite doubles, options of what is not written as `null`, and lists.
-/
import DiceFormula.Json.Fields
import Mathlib

namespace DiceFormula.Json

set_option autoImplicit false

/-! ## Sorted objects -/

theorem sortedItems_eq (items : List Json) : sortedItems items = items.map sorted := by
  induction items with
  | nil => rfl
  | cons item rest ih => rw [sortedItems, ih, List.map_cons]

theorem sorted_ofList {α : Type} (write : α → Json) (items : List α) :
    (ofList write items).sorted = .array (items.map fun a => (write a).sorted) := by
  rw [ofList, sorted, sortedItems_eq, List.map_map]
  rfl

/-! ## Members -/

theorem find?_insert (name key : String) (value : Json) (members : List (String × Json)) :
    find? name (insert key value members) =
      if key = name then some value else find? name members := by
  induction members with
  | nil => rfl
  | cons first rest ih =>
      obtain ⟨k, v⟩ := first
      rw [insert]
      split
      · rename_i same
        subst same
        rw [find?, find?]
        split <;> rfl
      · rename_i other
        split
        · rw [find?]
        · rw [find?, find?, ih]
          split
          · rename_i here
            subst here
            rw [if_neg (Ne.symm other)]
          · rfl

theorem find?_sortedMembers (name : String) (members : List (String × Json)) :
    find? name (sortedMembers members) = (find? name members).map sorted := by
  induction members with
  | nil => rfl
  | cons first rest ih =>
      obtain ⟨k, v⟩ := first
      rw [sortedMembers, find?, find?, ih]
      split <;> rfl

theorem find?_eq_none {name : String} {members : List (String × Json)}
    (missing : name ∉ members.map Prod.fst) : find? name members = none := by
  induction members with
  | nil => rfl
  | cons first rest ih =>
      obtain ⟨other, others⟩ := not_or.1 (List.mem_cons.not.1 missing)
      rw [find?, if_neg (Ne.symm other), ih others]

theorem find?_foldl_insert (name : String) {members : List (String × Json)}
    (distinct : (members.map Prod.fst).Nodup) (before : List (String × Json)) :
    find? name (members.foldl (fun sorted (k, v) => insert k v sorted) before) =
      (find? name members).or (find? name before) := by
  induction members generalizing before with
  | nil => rfl
  | cons first rest ih =>
      obtain ⟨k, v⟩ := first
      obtain ⟨new, others⟩ := List.nodup_cons.1 distinct
      rw [List.foldl_cons, ih others, find?_insert, find?]
      split
      · rename_i here
        subst here
        rw [find?_eq_none new, Option.none_or, Option.some_or]
      · rfl

theorem map_fst_sortedMembers (members : List (String × Json)) :
    (sortedMembers members).map Prod.fst = members.map Prod.fst := by
  induction members with
  | nil => rfl
  | cons first rest ih => exact congrArg (first.1 :: ·) ih

/-- The members of an object, sorted. -/
def sortedObject (members : List (String × Json)) : List (String × Json) :=
  (sortedMembers members).foldl (fun sorted (k, v) => insert k v sorted) []

theorem sorted_object (members : List (String × Json)) :
    (object members).sorted = .object (sortedObject members) := by
  rw [sorted]
  rfl

/-- **Sorting moves the members of an object and leaves none out.** -/
theorem find?_sorted (name : String) {members : List (String × Json)}
    (distinct : (members.map Prod.fst).Nodup) :
    find? name (sortedObject members) = (find? name members).map sorted := by
  rw [sortedObject, find?_foldl_insert name (by rwa [map_fst_sortedMembers]),
    find?_sortedMembers, find?, Option.or_none]

/-! ## Records -/

section Records

variable {members : List (String × Json)} (distinct : (members.map Prod.fst).Nodup)
  (names : List String)

include distinct

theorem named?_sorted : named? names (object members).sorted =
    some (names.map fun name => (find? name members).map sorted) := by
  rw [sorted_object, named?]
  exact congrArg some (List.map_congr_left fun name _ => find?_sorted name distinct)

/-- **A record finds its fields.** -/
theorem fields?_sorted (spare : Nat) : fields? names spare (object members).sorted =
    some (names.map fun name => (find? name members).map sorted) := by
  rw [← named?_sorted distinct, sorted_object]
  rfl

end Records

theorem alternative?_sorted (name : String) (content : Json) :
    alternative? (object [(name, content)]).sorted = some (name, some content.sorted) := by
  rw [sorted_object]
  rfl

/-! ## Fields -/

section Fields

variable {α : Type} {read : Json → Option α} {write : α → Json}

theorem required?_some (j : Json) : required? read (some j) = read j := rfl

theorem optional?_some {j : Json} (solid : j ≠ .null) :
    optional? read (some j) = (read j).map some := by
  cases j with
  | null => exact absurd rfl solid
  | _ => rfl

theorem optional?_sorted {a : Option α} (refuses : read .null = none)
    (each : ∀ b, a = some b → read (write b).sorted = some b) :
    optional? read (some (ofOption write a).sorted) = some a := by
  cases a with
  | none => rfl
  | some b =>
      have again := each b rfl
      have solid : (write b).sorted ≠ .null := by
        intro null
        rw [null, refuses] at again
        cases again
      rw [ofOption, optional?_some solid, again]
      rfl

theorem asList?_sorted {items : List α} (each : ∀ a ∈ items, read (write a).sorted = some a) :
    asList? read (ofList write items).sorted = some items := by
  rw [sorted_ofList, asList?]
  induction items with
  | nil => rfl
  | cons a rest ih =>
      obtain ⟨first, others⟩ := List.forall_mem_cons.1 each
      rw [List.map_cons, List.mapM_cons, first, ih others]
      rfl

end Fields

/-! ## Values -/

theorem asBool?_bool (b : Bool) : asBool? (bool b).sorted = some b := by
  rw [sorted, asBool?] <;> simp

theorem asString?_string (s : String) : asString? (string s).sorted = some s := by
  rw [sorted, asString?] <;> simp

theorem asInt?_ofInt {n : Int} (least : Limit.leastValue ≤ n) (most : n ≤ Limit.mostValue) :
    asInt? (ofInt n).sorted = some n :=
  if_pos ⟨least, most⟩

theorem asCount?_ofNat {n : Nat} (most : n ≤ Limit.mostCount) :
    asCount? (ofNat n).sorted = some n := by
  have range : (0 : Int) ≤ n ∧ (n : Int) ≤ Limit.mostCount := by omega
  show (if (0 : Int) ≤ n ∧ (n : Int) ≤ Limit.mostCount then some (n : Int) else none).map Int.toNat =
    some n
  rw [if_pos range]
  rfl

theorem asFloat?_ofFloat {x : Float} (finite : x.isFinite = true) :
    asFloat? (ofFloat x).sorted = some x := by
  rw [ofFloat, if_pos finite]
  rfl

/-! ## Nesting -/

theorem depth_le_of_find? {name : String} {members : List (String × Json)} {value : Json}
    (found : find? name members = some value) : value.depth ≤ depthMembers members := by
  induction members with
  | nil => cases found
  | cons first rest ih =>
      obtain ⟨k, v⟩ := first
      rw [find?] at found
      rw [depthMembers]
      split at found
      · cases found
        exact Nat.le_max_left _ _
      · exact Nat.le_trans (ih found) (Nat.le_max_right _ _)

theorem depth_le_of_mem {items : List Json} {item : Json} (mem : item ∈ items) :
    item.depth ≤ depthItems items := by
  induction items with
  | nil => cases mem
  | cons first rest ih =>
      rw [depthItems]
      rcases List.mem_cons.1 mem with rfl | mem
      · exact Nat.le_max_left _ _
      · exact Nat.le_trans (ih mem) (Nat.le_max_right _ _)

theorem depth_lt_of_object {members : List (String × Json)} {n : Nat}
    (deep : (object members).sorted.depth ≤ n) (distinct : (members.map Prod.fst).Nodup)
    (name : String) {value : Json} (found : find? name members = some value) :
    value.sorted.depth < n := by
  have sortedFound : find? name (sortedObject members) = some value.sorted := by
    rw [find?_sorted name distinct, found]
    rfl
  rw [sorted_object, depth] at deep
  exact Nat.lt_of_le_of_lt (depth_le_of_find? sortedFound) deep

end DiceFormula.Json
