/-
# DiceFormula.Proofs.Dice.Listing -- listings of dice

A listing has its items in brackets, with a comma and a space between them.  No item is empty, and
none has a comma of its own (`IsListing`), so the items can be told from the text
(`isListing_bracketed_iff`).

Dice are listed one by one, up to a limit, and behind them stands how many are left out
(`Die.items`).  That number brings its own comma along, which belongs behind a die.  With a limit
of zero no die is shown, and the comma is behind an empty item (`Die.listText_eq`); such a text is
no listing of any items.  All other texts are listings of just these items
(`Die.isListing_listText_iff`).
-/
import DiceFormula.Dice.Die
import DiceFormula.Proofs.Dice.Text

namespace DiceFormula

set_option autoImplicit false

/-! ## Items with separators between them -/

namespace Text

/-- What stands behind the first of several items. -/
def behindFirst (separator : List Char) : List (List Char) → List Char
  | [] => []
  | item :: items => separator ++ separator.intercalate (item :: items)

theorem intercalate_cons (separator item : List Char) (items : List (List Char)) :
    separator.intercalate (item :: items) = item ++ behindFirst separator items := by
  cases items with
  | nil => rw [List.intercalate_singleton, behindFirst, List.append_nil]
  | cons next items => rw [List.intercalate_cons_cons, behindFirst, List.append_assoc]

/-- The first item reaches to the first separator. -/
theorem span_intercalate {mark : Char} {gap item : List Char} (plain : mark ∉ item)
    (items : List (List Char)) :
    ((mark :: gap).intercalate (item :: items)).span (· != mark) =
      (item, behindFirst (mark :: gap) items) := by
  have stops : Stops (· != mark) (behindFirst (mark :: gap) items) := by
    cases items with
    | nil => exact stops_nil _
    | cons next items => exact stops_cons (by simp)
  rw [intercalate_cons]
  exact span_append (fun c mem => bne_iff_ne.2 fun same => plain (same ▸ mem)) stops

/-- Items without the mark of their separators are told from the text that they make up.  Only an
empty text may be that of no item or of an empty one. -/
theorem intercalate_injective {mark : Char} {gap : List Char} {items items' : List (List Char)}
    (some_ : items ≠ []) (some' : items' ≠ []) (plain : ∀ item ∈ items, mark ∉ item)
    (plain' : ∀ item ∈ items', mark ∉ item)
    (same : (mark :: gap).intercalate items = (mark :: gap).intercalate items') :
    items = items' := by
  -- Both texts have the same first item and the same behind it; what is behind tells whether there
  -- are more items, and the induction goes on with these.
  induction items generalizing items' with
  | nil => exact absurd rfl some_
  | cons item items ih =>
      obtain ⟨item', items', rfl⟩ := List.exists_cons_of_ne_nil some'
      obtain ⟨plain, others⟩ := List.forall_mem_cons.1 plain
      obtain ⟨plain', others'⟩ := List.forall_mem_cons.1 plain'
      have split := congrArg (List.span (· != mark)) same
      rw [span_intercalate plain, span_intercalate plain'] at split
      obtain ⟨rfl, behind⟩ := Prod.mk.inj split
      cases items with
      | nil =>
          cases items' with
          | nil => rfl
          | cons next' items' => cases behind
      | cons next items =>
          cases items' with
          | nil => cases behind
          | cons next' items' =>
              rw [ih (List.cons_ne_nil _ _) (List.cons_ne_nil _ _) others others'
                (List.append_cancel_left behind)]

end Text

/-! ## Listings -/

/-- Items in brackets, with a comma and a space between them. -/
def bracketed (items : List String) : String :=
  "[" ++ ", ".intercalate items ++ "]"

/-- The item has no comma of its own. -/
def IsPlain (item : String) : Prop := ',' ∉ item.toList

/-- The text is a listing of the items. -/
structure IsListing (items : List String) (text : String) : Prop where
  text_eq : text = bracketed items
  visible : ∀ item ∈ items, item ≠ ""
  plain : ∀ item ∈ items, IsPlain item

theorem inside_eq_of_bracketed {items items' : List String} (same : bracketed items = bracketed items') :
    ", ".intercalate items = ", ".intercalate items' :=
  (String.append_right_inj "[").1 ((String.append_left_inj "]").1 same)

theorem bracketed_injective {items items' : List String} (some_ : items ≠ []) (some' : items' ≠ [])
    (plain : ∀ item ∈ items, IsPlain item) (plain' : ∀ item ∈ items', IsPlain item)
    (same : bracketed items = bracketed items') : items = items' := by
  have letters := congrArg String.toList (inside_eq_of_bracketed same)
  rw [String.toList_intercalate, String.toList_intercalate] at letters
  refine List.map_injective_iff.2 (fun _ _ => String.toList_inj.1) ?_
  exact Text.intercalate_injective (by simpa using some_) (by simpa using some')
    (List.forall_mem_map.2 plain) (List.forall_mem_map.2 plain') letters

/-- There is nothing in the brackets if there is no item, or an empty one only. -/
theorem bracketed_eq_nil_iff (items : List String) :
    bracketed items = bracketed [] ↔ items = [] ∨ items = [""] := by
  constructor
  · intro same
    have inside := inside_eq_of_bracketed same
    rcases items with _ | ⟨item, _ | ⟨next, items⟩⟩
    · exact .inl rfl
    · rw [String.intercalate_singleton, String.intercalate_nil] at inside
      exact .inr (by rw [inside])
    · simp at inside
  · rintro (rfl | rfl) <;> rfl

/-- Of plain items a text is a listing if none is empty, and of no others. -/
theorem isListing_bracketed_iff {items items' : List String} (plain' : ∀ item ∈ items', IsPlain item)
    (other : items' ≠ [""]) :
    IsListing items (bracketed items') ↔ items = items' ∧ "" ∉ items' := by
  constructor
  · rintro ⟨text, visible, plain⟩
    have same : items = items' := by
      by_cases none_ : items = []
      · rw [none_] at text
        rw [none_, ((bracketed_eq_nil_iff items').1 text).resolve_right other]
      · by_cases none' : items' = []
        · rw [none'] at text
          have only := ((bracketed_eq_nil_iff items).1 text.symm).resolve_left none_
          exact absurd rfl (visible "" (by rw [only]; exact List.mem_singleton_self _))
        · exact bracketed_injective none_ none' plain plain' text.symm
    subst same
    exact ⟨rfl, fun mem => visible "" mem rfl⟩
  · rintro ⟨rfl, visible⟩
    exact ⟨rfl, fun item mem empty => visible (empty ▸ mem), plain'⟩

namespace Die

/-! ## Items for dice -/

/-- How many dice are left out. -/
def moreText (n : Nat) : String := toString n ++ " more..."

/-- The texts of the dice, up to the limit, and how many are left out, if any are. -/
def items (dice : List Die) : Option Nat → List String
  | none => dice.map text
  | some limit =>
      (dice.take limit).map text ++
        if limit < dice.length then [moreText (dice.length - limit)] else []

/-! ## How items are written -/

/-- The characters that dice are written in. -/
def isWritten (c : Char) : Bool := c.isDigit || "- (msfd)".toList.contains c

/-- An integer is written in digits, with a minus sign in front if it is negative. -/
theorem toList_toString_int (value : Int) :
    ∃ n, (toString value).toList = Nat.toDigits 10 n ∨
      (toString value).toList = '-' :: Nat.toDigits 10 n := by
  cases value with
  | ofNat n => exact ⟨n, .inl (Dice.Reader.toList_toString n)⟩
  | negSucc n =>
      refine ⟨n + 1, .inr ?_⟩
      show ("-" ++ toString (n + 1)).toList = _
      rw [String.toList_append, Dice.Reader.toList_toString]
      rfl

theorem isWritten_toString (value : Int) : ∀ c ∈ (toString value).toList, isWritten c = true := by
  obtain ⟨n, text⟩ := toList_toString_int value
  have digits : ∀ c ∈ Nat.toDigits 10 n, isWritten c = true := by
    intro c mem
    rw [isWritten, Dice.Reader.isDigit_toDigits n c mem, Bool.true_or]
  rcases text with text | text
  · rwa [text]
  · rw [text]
    exact List.forall_mem_cons.2 ⟨rfl, digits⟩

theorem toString_ne_nil (value : Int) : (toString value).toList ≠ [] := by
  obtain ⟨n, text | text⟩ := toList_toString_int value
  · rw [text]
    exact Nat.toDigits_ne_nil
  · rw [text]
    exact List.cons_ne_nil _ _

theorem isWritten_text (d : Die) : ∀ c ∈ d.text.toList, isWritten c = true := by
  unfold text
  simp only [String.toList_append, List.forall_mem_append]
  refine ⟨⟨⟨isWritten_toString d.value, ?_⟩, ?_⟩, ?_⟩
  · split <;> exact List.all_eq_true.1 rfl
  · split <;> exact List.all_eq_true.1 rfl
  · split <;> exact List.all_eq_true.1 rfl

theorem text_ne_empty (d : Die) : d.text ≠ "" := by
  intro empty
  have letters := congrArg String.toList empty
  unfold text at letters
  simp only [String.toList_append, String.toList_empty, List.append_eq_nil_iff] at letters
  exact toString_ne_nil d.value letters.1.1.1

theorem not_mem_text (d : Die) {c : Char} (foreign : isWritten c = false) : c ∉ d.text.toList := by
  intro mem
  have written := isWritten_text d c mem
  rw [foreign] at written
  cases written

theorem toList_moreText (n : Nat) :
    (moreText n).toList = Nat.toDigits 10 n ++ " more...".toList := by
  rw [moreText, String.toList_append, Dice.Reader.toList_toString]

theorem moreText_ne_empty (n : Nat) : moreText n ≠ "" := by
  intro empty
  have letters := congrArg String.toList empty
  rw [toList_moreText] at letters
  exact absurd (List.append_eq_nil_iff.1 letters).1 Nat.toDigits_ne_nil

theorem isPlain_moreText (n : Nat) : IsPlain (moreText n) := by
  rw [IsPlain, toList_moreText, List.mem_append]
  rintro (digit | word)
  · cases Dice.Reader.isDigit_toDigits n ',' digit
  · revert word
    decide

/-- The number of dice that are left out is told from its text. -/
theorem moreText_injective {n n' : Nat} (same : moreText n = moreText n') : n = n' := by
  have letters := congrArg String.toList same
  rw [toList_moreText, toList_moreText] at letters
  have digits := congrArg (Nat.ofDigitChars 10 · 0) (List.append_cancel_right letters)
  simpa [Nat.ofDigitChars_ten_toDigits] using digits

/-- No die is written as a number of dice that are left out. -/
theorem text_ne_moreText (d : Die) (n : Nat) : d.text ≠ moreText n := by
  intro same
  refine not_mem_text d (c := '.') rfl ?_
  rw [same, toList_moreText]
  exact List.mem_append_right _ (by decide)

/-! ## What the items tell -/

variable (dice : List Die) (limit : Option Nat)

/-- An item is a die, or it tells how many are left out. -/
theorem of_mem_items {item : String} (mem : item ∈ items dice limit) :
    (∃ d : Die, item = d.text) ∨ ∃ n, item = moreText n := by
  have of_text {shown : List Die} (mem : item ∈ shown.map text) : ∃ d : Die, item = d.text := by
    obtain ⟨d, -, rfl⟩ := List.mem_map.1 mem
    exact ⟨d, rfl⟩
  cases limit with
  | none => exact .inl (of_text mem)
  | some most =>
      rcases List.mem_append.1 mem with shown | more
      · exact .inl (of_text shown)
      · split at more
        · exact .inr ⟨_, List.mem_singleton.1 more⟩
        · cases more

theorem items_visible : "" ∉ items dice limit := by
  intro mem
  rcases of_mem_items dice limit mem with ⟨d, empty⟩ | ⟨n, empty⟩
  · exact text_ne_empty d empty.symm
  · exact moreText_ne_empty n empty.symm

theorem items_plain : ∀ item ∈ items dice limit, IsPlain item := by
  intro item mem
  rcases of_mem_items dice limit mem with ⟨d, rfl⟩ | ⟨n, rfl⟩
  · exact not_mem_text d rfl
  · exact isPlain_moreText n

/-- A number of dice is told exactly if it is that of the dice beyond the limit, and not zero. -/
theorem moreText_mem_items_iff (n : Nat) :
    moreText n ∈ items dice limit ↔ 0 < n ∧ ∃ most, limit = some most ∧ most + n = dice.length := by
  have not_shown (shown : List Die) : moreText n ∉ shown.map text := by
    intro mem
    obtain ⟨d, -, same⟩ := List.mem_map.1 mem
    exact text_ne_moreText d n same
  cases limit with
  | none =>
      rw [items, iff_false_left (not_shown dice)]
      rintro ⟨-, most, same, -⟩
      cases same
  | some most =>
      rw [items, List.mem_append, or_iff_right (not_shown _)]
      split
      · rename_i fewer
        constructor
        · intro mem
          have left := moreText_injective (List.mem_singleton.1 mem)
          exact ⟨by omega, most, rfl, by omega⟩
        · rintro ⟨-, most', same, total⟩
          cases same
          rw [← total, Nat.add_sub_cancel_left]
          exact List.mem_singleton_self _
      · rename_i enough
        constructor
        · intro mem
          cases mem
        · rintro ⟨some_, most', same, total⟩
          cases same
          omega

/-! ## The text of a listing -/

/-- What brings a comma along is an item behind others, and behind an empty one if there are none. -/
theorem intercalate_more (shown : List String) (more : String) :
    ", ".intercalate shown ++ (", " ++ more) =
      ", ".intercalate ((if shown = [] then [""] else []) ++ (shown ++ [more])) := by
  by_cases nothing : shown = []
  · subst nothing
    simp
  · rw [if_neg nothing, List.nil_append,
      String.intercalate_append_of_ne_nil nothing (List.cons_ne_nil more []),
      String.intercalate_singleton, String.append_assoc]

/-- An empty item stands in front if there are dice and none is to be shown. -/
def leading : List String :=
  if limit = some 0 ∧ dice ≠ [] then [""] else []

theorem leading_of_lt {most : Nat} (fewer : most < dice.length) :
    leading dice (some most) = if (dice.take most).map text = [] then [""] else [] := by
  have some_ : dice ≠ [] := List.ne_nil_of_length_pos (Nat.zero_lt_of_lt fewer)
  simp [leading, some_]

theorem leading_of_le {most : Nat} (enough : dice.length ≤ most) : leading dice (some most) = [] := by
  refine if_neg ?_
  rintro ⟨zero, some_⟩
  cases zero
  exact some_ (List.length_eq_zero_iff.1 (Nat.le_zero.1 enough))

/-- The listing has the items for the dice, behind an empty one with a limit of zero. -/
theorem listText_eq : listText dice limit = bracketed (leading dice limit ++ items dice limit) := by
  cases limit with
  | none => simp [listText, leading, items, bracketed]
  | some most =>
      by_cases fewer : most < dice.length
      · -- The number of the other dice comes with its comma, whatever is in front of it.
        have hidden : 0 < dice.length - most := by omega
        rw [leading_of_lt dice fewer, items, if_pos fewer, bracketed, ← intercalate_more]
        simp only [listText, Option.getD_some, if_pos hidden, moreText, String.append_assoc]
      · have hidden : ¬ 0 < dice.length - most := by omega
        rw [leading_of_le dice (Nat.le_of_not_lt fewer), items, if_neg fewer, bracketed]
        simp only [listText, Option.getD_some, if_neg hidden, List.nil_append, List.append_nil,
          String.append_assoc, String.empty_append]

/-- A dropped die is shown, and the die behind it is left out. -/
example : listText [.fresh 6, ⟨2, none, some (.keepHigh 1), [], none⟩, .fresh 5] (some 2) =
    "[6, 2 (d), 1 more...]" := by decide +kernel

theorem items_zero {dice : List Die} (some_ : dice ≠ []) :
    items dice (some 0) = [moreText dice.length] := by
  have fewer : 0 < dice.length := List.length_pos_iff.2 some_
  rw [items, if_pos fewer]
  rfl

theorem leading_plain : ∀ item ∈ leading dice limit, IsPlain item := by
  intro item mem
  unfold leading at mem
  split at mem
  · rw [List.mem_singleton.1 mem]
    exact List.not_mem_nil
  · cases mem

theorem empty_mem_leading_iff : "" ∈ leading dice limit ↔ limit = some 0 ∧ dice ≠ [] := by
  unfold leading
  split <;> simp [*]

/-- There are more items behind an empty one. -/
theorem leading_append_items_ne : leading dice limit ++ items dice limit ≠ [""] := by
  intro single
  unfold leading at single
  split at single
  · rename_i zero
    obtain ⟨rfl, some_⟩ := zero
    rw [items_zero some_] at single
    cases single
  · rw [List.nil_append] at single
    exact items_visible dice limit (single ▸ List.mem_singleton_self _)

/-- **Dice are listed as the first of them, up to the limit, and the number of those that are left
out, unless the limit is zero and there are dice.**  The number is there exactly if some are left
out, and together with the limit it makes up all dice.  A limit of zero puts an empty item in front,
and such a text is no listing of any items. -/
theorem isListing_listText_iff :
    (∀ found, IsListing found (listText dice limit) ↔
      found = items dice limit ∧ ¬ (limit = some 0 ∧ dice ≠ [])) ∧
    (∀ n, moreText n ∈ items dice limit ↔
      0 < n ∧ ∃ most, limit = some most ∧ most + n = dice.length) ∧
    listText dice limit = bracketed (leading dice limit ++ items dice limit) := by
  refine ⟨fun found => ?_, moreText_mem_items_iff dice limit, listText_eq dice limit⟩
  have plain := List.forall_mem_append.2 ⟨leading_plain dice limit, items_plain dice limit⟩
  rw [listText_eq, isListing_bracketed_iff plain (leading_append_items_ne dice limit),
    List.mem_append, or_iff_left (items_visible dice limit), empty_mem_leading_iff]
  refine and_congr_left fun calm => ?_
  rw [leading, if_neg calm, List.nil_append]

/-- With a limit of zero there is a comma behind nothing. -/
theorem listText_none_shown :
    bracketed (items [.fresh 3, .fresh 5] (some 0)) = "[2 more...]" ∧
      listText [.fresh 3, .fresh 5] (some 0) = "[, 2 more...]" ∧
      ∀ found, ¬ IsListing found (listText [.fresh 3, .fresh 5] (some 0)) := by
  have text : listText [.fresh 3, .fresh 5] (some 0) = bracketed ["", "2 more..."] := by
    decide +kernel
  refine ⟨by decide +kernel, text, fun found listing => ?_⟩
  rw [text, isListing_bracketed_iff (by simp [IsPlain]) (by simp)] at listing
  exact listing.2 List.mem_cons_self

end Die

end DiceFormula
