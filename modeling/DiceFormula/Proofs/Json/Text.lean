/-
# DiceFormula.Proofs.Json.Text -- JSON text is read back

A value whose numbers are read back is read back from its text as a whole, with its objects sorted
(`read?_text`).  A reader that goes only so many levels deep reads it unless it is nested deeper, and
then it does not read the text at all (`readWithin?_text`).

The induction is on the value, with whatever may stand behind its text; items and members are read
one after the other, each with the rest of the text behind it (`value?_text`).

If all integers have 64 bits, it takes no more than that the doubles are read back
(`reads_of_bounded`).
-/
import DiceFormula.Proofs.Json.Tokens

namespace DiceFormula.Json

set_option autoImplicit false

open JsonNumber (Reads)
open Text (Stops stops_cons stops_nil)

/-- A property that arrays have if their items do, and objects if the values of their members do. -/
theorem induction {P : Json → Prop} (null : P .null) (bool : ∀ b, P (.bool b))
    (number : ∀ n, P (.number n)) (string : ∀ s, P (.string s))
    (array : ∀ items, (∀ item ∈ items, P item) → P (.array items))
    (object : ∀ members, (∀ member ∈ members, P member.2) → P (.object members)) (j : Json) : P j :=
  @Json.rec P (fun items => ∀ item ∈ items, P item) (fun members => ∀ member ∈ members, P member.2)
    (fun member => P member.2) null bool number string array object (List.forall_mem_nil _)
    (fun _ _ first others => List.forall_mem_cons.2 ⟨first, others⟩) (List.forall_mem_nil _)
    (fun _ _ first others => List.forall_mem_cons.2 ⟨first, others⟩) (fun _ _ value => value) j

/-! ## What is in a value -/

mutual

/-- The numbers of a value. -/
def numbers : Json → List JsonNumber
  | .number n => [n]
  | .array items => numbersItems items
  | .object members => numbersMembers members
  | _ => []

def numbersItems : List Json → List JsonNumber
  | [] => []
  | item :: rest => numbers item ++ numbersItems rest

def numbersMembers : List (String × Json) → List JsonNumber
  | [] => []
  | (_, value) :: rest => numbers value ++ numbersMembers rest

end

mutual

/-- How many arrays and objects are nested in one another. -/
def levels : Json → Nat
  | .array items => levelsItems items + 1
  | .object members => levelsMembers members + 1
  | _ => 0

def levelsItems : List Json → Nat
  | [] => 0
  | item :: rest => max (levels item) (levelsItems rest)

def levelsMembers : List (String × Json) → Nat
  | [] => 0
  | (_, value) :: rest => max (levels value) (levelsMembers rest)

end

/-! ## Texts with commas between them -/

/-- Texts with commas between them. -/
def joined (texts : List String) : List Char := (",".intercalate texts).toList

theorem joined_singleton (text : String) : joined [text] = text.toList := by
  rw [joined, String.intercalate_singleton]

theorem joined_cons (text text' : String) (texts : List String) :
    joined (text :: text' :: texts) = text.toList ++ ',' :: joined (text' :: texts) := by
  rw [joined, String.intercalate_cons_cons, String.toList_append, String.toList_append,
    List.append_assoc]
  rfl

theorem toList_array (items : List Json) :
    (array items).text.toList = '[' :: (joined (texts items) ++ [']']) := by
  rw [text, String.toList_append, String.toList_append]
  rfl

theorem toList_object (members : List (String × Json)) :
    (object members).text.toList = '\x7b' :: (joined (memberTexts members) ++ ['\x7d']) := by
  rw [text, String.toList_append, String.toList_append]
  rfl

/-! ## Reading -/

/-- The text of a value starts with something else than a space or a closing bracket. -/
theorem head_text {j : Json} (reads : ∀ n ∈ j.numbers, n.Reads) :
    ∃ c s, j.text.toList = c :: s ∧ isSpace c = false ∧ c ≠ ']' := by
  cases j with
  | null => exact ⟨'n', _, rfl, rfl, by decide⟩
  | bool b => cases b <;> exact ⟨_, _, rfl, rfl, by decide⟩
  | number n =>
      have plain : ∀ c ∈ (text (.number n)).toList, isPlain c = true := isPlain_numberOrNull n
      have read := reads n List.mem_cons_self 0 0 [] (stops_nil _)
      cases same : (text (.number n)).toList with
      | nil =>
          rw [same] at read
          cases read
      | cons c s =>
          rw [same] at plain
          have first := plain c List.mem_cons_self
          refine ⟨c, s, rfl, isSpace_of_isPlain first, ?_⟩
          rintro rfl
          exact absurd first (by decide)
  | string s =>
      obtain ⟨body, quoted, -⟩ := stringBody?_quote s []
      exact ⟨'"', body, by rw [← quoted, List.append_nil]; rfl, rfl, by decide⟩
  | array items => exact ⟨'[', _, toList_array items, rfl, by decide⟩
  | object members => exact ⟨'\x7b', _, toList_object members, rfl, by decide⟩

section Steps

variable {n depth : Nat} {s s' : List Char} {value : Json}

/-- An array that does not close at once has items. -/
theorem value?_array (n depth : Nat) {c : Char} (visible : isSpace c = false) (other : c ≠ ']')
    (s : List Char) : value? (n + 1) (depth + 1) ('[' :: c :: s) =
      (items? n depth (c :: s)).map fun (items, s) => (array items, s) := by
  have skipped : skipSpace (c :: s) = c :: s := skipSpace_of_stops (stops_cons visible)
  have opens : skipSpace ('[' :: c :: s) = '[' :: c :: s := rfl
  rw [value?, opens]
  split
  case h_6 behind same =>
    obtain ⟨-, rfl⟩ := List.cons.inj same
    dsimp only
    rw [skipped]
    split
    · rename_i closes
      exact absurd (List.cons.inj closes).1 other
    · rfl
  case h_8 array _ => exact absurd rfl (array _)
  all_goals
    rename_i same
    exact absurd (List.cons.inj same).1 (by decide)

/-- An object that starts with a name has members. -/
theorem value?_object (n depth : Nat) (body : List Char) :
    value? (n + 1) (depth + 1) ('\x7b' :: '"' :: body) =
      (members? n depth ('"' :: body)).map fun (members, s) => (ofMembers members, s) := rfl

theorem items?_none (read : value? n depth s = none) : items? (n + 1) depth s = none := by
  rw [items?, read]

theorem items?_last (read : value? n depth s = some (value, ']' :: s')) :
    items? (n + 1) depth s = some ([value], s') := by
  rw [items?, read]
  rfl

theorem items?_more (read : value? n depth s = some (value, ',' :: s')) :
    items? (n + 1) depth s = (items? n depth s').map fun (items, s) => (value :: items, s) := by
  rw [items?, read]
  rfl

variable {name : String} {body : List Char} (named : stringBody? [] body = some (name, ':' :: s))
include named

theorem members?_none (read : value? n depth s = none) :
    members? (n + 1) depth ('"' :: body) = none := by
  simp [members?, skipSpace, isSpace, named, read]

theorem members?_last (read : value? n depth s = some (value, '\x7d' :: s')) :
    members? (n + 1) depth ('"' :: body) = some ([(name, value)], s') := by
  simp [members?, skipSpace, isSpace, named, read]

theorem members?_more (read : value? n depth s = some (value, ',' :: s')) :
    members? (n + 1) depth ('"' :: body) =
      (members? n depth s').map fun (members, s) => ((name, value) :: members, s) := by
  simp [members?, skipSpace, isSpace, named, read]

end Steps

/-! ## Values -/

theorem joined_texts (item item' : Json) (rest : List Json) :
    joined (texts (item :: item' :: rest)) =
      item.text.toList ++ ',' :: joined (texts (item' :: rest)) := joined_cons _ _ _

theorem head_joined {item : Json} (reads : ∀ n ∈ item.numbers, n.Reads) (rest : List Json) :
    ∃ c s, joined (texts (item :: rest)) = c :: s ∧ isSpace c = false ∧ c ≠ ']' := by
  obtain ⟨c, s, first, visible, other⟩ := head_text reads
  cases rest with
  | nil => exact ⟨c, s, by rw [texts, texts, joined_singleton, first], visible, other⟩
  | cons item' rest => exact ⟨c, _, by rw [joined_texts, first]; rfl, visible, other⟩

theorem head_memberTexts (member : String × Json) (rest : List (String × Json)) :
    ∃ body, joined (memberTexts (member :: rest)) = '"' :: body := by
  obtain ⟨name, value⟩ := member
  obtain ⟨body, quoted, -⟩ := stringBody?_quote name []
  rw [List.append_nil] at quoted
  cases rest with
  | nil =>
      rw [memberTexts, memberTexts, joined_singleton, String.toList_append, String.toList_append,
        quoted]
      exact ⟨_, rfl⟩
  | cons member rest =>
      rw [memberTexts, memberTexts, joined_cons, String.toList_append, String.toList_append, quoted]
      exact ⟨_, rfl⟩

theorem joined_memberTexts (name : String) (value : Json) (member : String × Json)
    (rest : List (String × Json)) :
    joined (memberTexts ((name, value) :: member :: rest)) =
      (quote name ++ ":" ++ value.text).toList ++ ',' :: joined (memberTexts (member :: rest)) :=
  joined_cons _ _ _

theorem length_member (name : String) (value : Json) :
    value.text.toList.length ≤ (quote name ++ ":" ++ value.text).toList.length := by
  rw [String.toList_append, List.length_append]
  exact Nat.le_add_left _ _

/-- The text of a member, in front of anything. -/
theorem toList_member (name : String) (value : Json) (s : List Char) :
    ∃ body, (quote name ++ ":" ++ value.text).toList ++ s = '"' :: body ∧
      stringBody? [] body = some (name, ':' :: (value.text.toList ++ s)) := by
  obtain ⟨body, quoted, read⟩ := stringBody?_quote name (':' :: (value.text.toList ++ s))
  refine ⟨body, ?_, read⟩
  rw [← quoted, String.toList_append, String.toList_append, List.append_assoc, List.append_assoc]
  rfl

/-- What is nested one level deeper is read if there is a level left. -/
theorem map_ite_succ {α β : Type} (f : α → β) (levels depth : Nat) (found : α) :
    (if levels ≤ depth then some found else none).map f =
      if levels + 1 ≤ depth + 1 then some (f found) else none := by
  rw [apply_ite (Option.map f)]
  exact if_congr Nat.succ_le_succ_iff.symm rfl rfl

/-- What comes behind other text is read if both are nested no deeper than they may be. -/
theorem map_ite_max {α β : Type} (f : α → β) {levels depth : Nat} (within : levels ≤ depth)
    (behind : Nat) (found : α) :
    (if behind ≤ depth then some found else none).map f =
      if max levels behind ≤ depth then some (f found) else none := by
  rw [apply_ite (Option.map f)]
  exact if_congr ⟨fun less => Nat.max_le.2 ⟨within, less⟩, fun both => (Nat.max_le.1 both).2⟩ rfl rfl

/-- The value is read from its text, whatever stands behind, if it is nested no deeper than it may
be. -/
def ReadAt (j : Json) : Prop :=
  (∀ n ∈ j.numbers, n.Reads) → ∀ (n depth : Nat) (s : List Char), Ends s →
    2 * j.text.toList.length ≤ n → value? (n + 1) depth (j.text.toList ++ s) =
      if j.levels ≤ depth then some (j.sorted, s) else none

theorem items?_texts {items : List Json} (nonempty : items ≠ [])
    (each : ∀ item ∈ items, ReadAt item) (reads : ∀ n ∈ numbersItems items, n.Reads)
    {n : Nat} (depth : Nat) (s : List Char)
    (enough : 2 * (joined (texts items)).length + 1 ≤ n) :
    items? (n + 1) depth (joined (texts items) ++ ']' :: s) =
      if levelsItems items ≤ depth then some (sortedItems items, s) else none := by
  induction items generalizing n with
  | nil => exact absurd rfl nonempty
  | cons item rest ih =>
      obtain ⟨readItem, readRest⟩ := List.forall_mem_cons.1 each
      obtain ⟨n, rfl⟩ := Nat.exists_eq_add_of_le' (by omega : 1 ≤ n)
      have numbersItem : ∀ n ∈ item.numbers, n.Reads :=
        fun n mem => reads n (List.mem_append_left _ mem)
      cases rest with
      | nil =>
          have alone : levelsItems [item] = item.levels := Nat.max_zero _
          rw [texts, texts, joined_singleton] at enough ⊢
          have first := readItem numbersItem n depth (']' :: s) (stops_cons rfl) (by omega)
          rw [alone]
          split at first
          · rename_i within
            rw [items?_last first, if_pos within]
            rfl
          · rename_i deep
            rw [items?_none first, if_neg deep]
      | cons item' rest =>
          rw [joined_texts, List.length_append, List.length_cons] at enough
          rw [joined_texts, List.append_assoc, List.cons_append, levelsItems]
          have first := readItem numbersItem n depth
            (',' :: (joined (texts (item' :: rest)) ++ ']' :: s)) (stops_cons rfl) (by omega)
          have others := ih (List.cons_ne_nil _ _) readRest
            (fun n mem => reads n (List.mem_append_right _ mem)) (n := n) (by omega)
          split at first
          · rename_i within
            rw [items?_more first, others, map_ite_max _ within]
            rfl
          · rename_i deep
            rw [items?_none first, if_neg fun both => deep (Nat.max_le.1 both).1]

theorem members?_texts {members : List (String × Json)} (nonempty : members ≠ [])
    (each : ∀ member ∈ members, ReadAt member.2) (reads : ∀ n ∈ numbersMembers members, n.Reads)
    {n : Nat} (depth : Nat) (s : List Char)
    (enough : 2 * (joined (memberTexts members)).length + 1 ≤ n) :
    members? (n + 1) depth (joined (memberTexts members) ++ '\x7d' :: s) =
      if levelsMembers members ≤ depth then some (sortedMembers members, s) else none := by
  induction members generalizing n with
  | nil => exact absurd rfl nonempty
  | cons member rest ih =>
      obtain ⟨name, value⟩ := member
      obtain ⟨readValue, readRest⟩ := List.forall_mem_cons.1 each
      have readValue : ReadAt value := readValue
      obtain ⟨n, rfl⟩ := Nat.exists_eq_add_of_le' (by omega : 1 ≤ n)
      have numbersValue : ∀ n ∈ value.numbers, n.Reads :=
        fun n mem => reads n (List.mem_append_left _ mem)
      have length := length_member name value
      cases rest with
      | nil =>
          have alone : levelsMembers [(name, value)] = value.levels := Nat.max_zero _
          obtain ⟨body, written, named⟩ := toList_member name value ('\x7d' :: s)
          rw [memberTexts, memberTexts, joined_singleton] at enough ⊢
          have first := readValue numbersValue n depth ('\x7d' :: s) (stops_cons rfl) (by omega)
          rw [alone, written]
          split at first
          · rename_i within
            rw [members?_last named first, if_pos within]
            rfl
          · rename_i deep
            rw [members?_none named first, if_neg deep]
      | cons member' rest =>
          obtain ⟨body, written, named⟩ := toList_member name value
            (',' :: (joined (memberTexts (member' :: rest)) ++ '\x7d' :: s))
          rw [joined_memberTexts, List.length_append, List.length_cons] at enough
          rw [joined_memberTexts, List.append_assoc, List.cons_append, written, levelsMembers]
          have first := readValue numbersValue n depth
            (',' :: (joined (memberTexts (member' :: rest)) ++ '\x7d' :: s)) (stops_cons rfl)
            (by omega)
          have others := ih (List.cons_ne_nil _ _) readRest
            (fun n mem => reads n (List.mem_append_right _ mem)) (n := n) (by omega)
          split at first
          · rename_i within
            rw [members?_more named first, others, map_ite_max _ within]
            rfl
          · rename_i deep
            rw [members?_none named first, if_neg fun both => deep (Nat.max_le.1 both).1]

theorem readAt_array {items : List Json} (each : ∀ item ∈ items, ReadAt item) :
    ReadAt (array items) := by
  intro reads n depth s ends enough
  rw [toList_array, List.length_cons, List.length_append, List.length_singleton] at enough
  obtain ⟨n, rfl⟩ := Nat.exists_eq_add_of_le' (by omega : 1 ≤ n)
  rw [toList_array, List.cons_append, List.append_assoc]
  cases items with
  | nil => cases depth <;> rfl
  | cons item rest =>
      cases depth with
      | zero => rfl
      | succ depth =>
          have read := items?_texts (List.cons_ne_nil _ _) each reads (n := n) depth s (by omega)
          obtain ⟨c, u, first, visible, other⟩ :=
            head_joined (fun n mem => reads n (List.mem_append_left _ mem)) rest
          rw [first, List.cons_append] at read ⊢
          rw [value?_array (n + 1) depth visible other, List.singleton_append, read, map_ite_succ]
          rfl

theorem readAt_object {members : List (String × Json)}
    (each : ∀ member ∈ members, ReadAt member.2) : ReadAt (object members) := by
  intro reads n depth s ends enough
  rw [toList_object, List.length_cons, List.length_append, List.length_singleton] at enough
  obtain ⟨n, rfl⟩ := Nat.exists_eq_add_of_le' (by omega : 1 ≤ n)
  rw [toList_object, List.cons_append, List.append_assoc]
  cases members with
  | nil => cases depth <;> rfl
  | cons member rest =>
      cases depth with
      | zero => rfl
      | succ depth =>
          have read := members?_texts (List.cons_ne_nil _ _) each reads (n := n) depth s (by omega)
          obtain ⟨body, first⟩ := head_memberTexts member rest
          rw [first, List.cons_append] at read ⊢
          rw [value?_object (n + 1) depth, List.singleton_append, read, map_ite_succ]
          rfl

theorem readAt_string (text : String) : ReadAt (string text) := by
  intro _ n depth s _ _
  obtain ⟨body, quoted, read⟩ := stringBody?_quote text s
  refine Eq.trans ?_ (if_pos (Nat.zero_le depth)).symm
  show value? (n + 1) depth ((quote text).toList ++ s) = _
  rw [quoted]
  show (stringBody? [] body).map _ = _
  rw [read]
  rfl

/-- **Values are read from their text**, whatever stands behind it. -/
theorem value?_text (j : Json) : ReadAt j := by
  induction j using induction with
  | null => exact fun _ _ depth _ _ _ => (if_pos (Nat.zero_le depth)).symm
  | bool b => exact fun _ _ depth _ _ _ => by cases b <;> exact (if_pos (Nat.zero_le depth)).symm
  | number m =>
      exact fun reads n depth s ends _ =>
        (reads m List.mem_cons_self n depth s ends).trans (if_pos (Nat.zero_le depth)).symm
  | string text => exact readAt_string text
  | array items each => exact readAt_array each
  | object members each => exact readAt_object each

/-- **A value is read back from its text if it is nested no deeper than asked for**, with its objects
sorted.  Otherwise its text is not read at all. -/
theorem readWithin?_text {j : Json} (reads : ∀ n ∈ j.numbers, n.Reads) (depth : Nat) :
    readWithin? depth j.text = if j.levels ≤ depth then some j.sorted else none := by
  have read := value?_text j reads (2 * j.text.toList.length + 1) depth [] (stops_nil _) (by omega)
  rw [List.append_nil] at read
  rw [readWithin?, read]
  by_cases shallow : j.levels ≤ depth
  · rw [if_pos shallow, if_pos shallow]
    rfl
  · rw [if_neg shallow, if_neg shallow]

theorem levelsItems_le {items : List Json}
    (each : ∀ item ∈ items, item.levels ≤ item.text.toList.length) :
    levelsItems items ≤ (joined (texts items)).length := by
  induction items with
  | nil => exact Nat.zero_le _
  | cons item rest ih =>
      obtain ⟨first, others⟩ := List.forall_mem_cons.1 each
      have behind := ih others
      rw [levelsItems]
      cases rest with
      | nil =>
          rw [texts, texts, joined_singleton]
          exact Nat.max_le.2 ⟨first, Nat.zero_le _⟩
      | cons item' rest =>
          rw [joined_texts, List.length_append, List.length_cons]
          omega

theorem levelsMembers_le {members : List (String × Json)}
    (each : ∀ member ∈ members, member.2.levels ≤ member.2.text.toList.length) :
    levelsMembers members ≤ (joined (memberTexts members)).length := by
  induction members with
  | nil => exact Nat.zero_le _
  | cons member rest ih =>
      obtain ⟨name, value⟩ := member
      obtain ⟨first, others⟩ := List.forall_mem_cons.1 each
      have behind := ih others
      have shorter : value.levels ≤ _ := first.trans (length_member name value)
      rw [levelsMembers]
      cases rest with
      | nil =>
          rw [memberTexts, memberTexts, joined_singleton]
          exact Nat.max_le.2 ⟨shorter, Nat.zero_le _⟩
      | cons member rest =>
          rw [joined_memberTexts, List.length_append, List.length_cons]
          omega

/-- Every level takes a bracket of the text. -/
theorem levels_le_length (j : Json) : j.levels ≤ j.text.toList.length := by
  induction j using induction with
  | null | bool | number | string => exact Nat.zero_le _
  | array items each =>
      have within := levelsItems_le each
      rw [levels, toList_array, List.length_cons, List.length_append]
      omega
  | object members each =>
      have within := levelsMembers_le each
      rw [levels, toList_object, List.length_cons, List.length_append]
      omega

/-- **A value is read back from its text**, with its objects sorted. -/
theorem read?_text {j : Json} (reads : ∀ n ∈ j.numbers, n.Reads) : read? j.text = some j.sorted := by
  rw [read?, readWithin?_text reads, if_pos j.levels_le_length]

/-! ## Integers -/

/-- All integers in the value have 64 bits. -/
def Bounded (j : Json) : Prop := ∀ n ∈ j.numbers, n.Bounded

theorem reads_of_bounded {j : Json} (bounded : j.Bounded)
    (doubles : ∀ x, .double x ∈ j.numbers → (JsonNumber.double x).ReadsBack) :
    ∀ n ∈ j.numbers, n.Reads := by
  intro n mem
  cases n with
  | integer n => exact JsonNumber.reads_integer (bounded _ mem)
  | double x => exact JsonNumber.reads_of_readsBack (doubles x mem)

@[simp] theorem bounded_array {items : List Json} :
    (array items).Bounded ↔ ∀ item ∈ items, item.Bounded := by
  unfold Bounded
  rw [numbers]
  induction items with
  | nil => simp [numbersItems]
  | cons item rest ih => rw [numbersItems, List.forall_mem_append, ih, List.forall_mem_cons]

@[simp] theorem bounded_object {members : List (String × Json)} :
    (object members).Bounded ↔ ∀ member ∈ members, member.2.Bounded := by
  unfold Bounded
  rw [numbers]
  induction members with
  | nil => simp [numbersMembers]
  | cons member rest ih => rw [numbersMembers, List.forall_mem_append, ih, List.forall_mem_cons]

@[simp] theorem bounded_bool (b : Bool) : (bool b).Bounded := List.forall_mem_nil _

@[simp] theorem bounded_string (s : String) : (string s).Bounded := List.forall_mem_nil _

theorem bounded_ofInt {n : Int} :
    (ofInt n).Bounded ↔ Limit.leastValue ≤ n ∧ n ≤ Limit.mostIndex :=
  List.forall_mem_singleton

theorem bounded_ofNat {n : Nat} : (ofNat n).Bounded ↔ n ≤ Limit.mostIndex := by
  have positive : Limit.leastValue ≤ (n : Int) := by
    have least : Limit.leastValue ≤ 0 := by decide
    omega
  rw [ofNat, bounded_ofInt, and_iff_right positive, Int.ofNat_le]

@[simp] theorem bounded_ofFloat (x : Float) : (ofFloat x).Bounded := by
  unfold ofFloat
  split
  · exact List.forall_mem_singleton.2 trivial
  · exact List.forall_mem_nil _

@[simp] theorem bounded_ofOption {α : Type} {write : α → Json} {a : Option α} :
    (ofOption write a).Bounded ↔ ∀ b, a = some b → (write b).Bounded := by
  cases a with
  | none => simp [ofOption, Bounded, numbers]
  | some a => simp [ofOption]

@[simp] theorem bounded_ofList {α : Type} {write : α → Json} {items : List α} :
    (ofList write items).Bounded ↔ ∀ a ∈ items, (write a).Bounded := by
  rw [ofList, bounded_array, List.forall_mem_map]

end DiceFormula.Json
