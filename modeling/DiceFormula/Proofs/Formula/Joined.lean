/-
# DiceFormula.Proofs.Formula.Joined -- operands that are written side by side

A formula is written with nothing between operands that have no operator between them.  Such
neighbours are `Joined` if they are read again as they are: round brackets take no name of a function
from the text in front of them, and a group takes no flavor and a pool no modifiers from the text
behind it.  And a group beside a fragment must hold something that is not known before it is
evaluated, for otherwise its value becomes a part of the fragment.

Terms that equal such terms stay as they are when a formula is read: no two of them are merged
(`isChain_separate_of_joined`), and each fragment waits as it did (`waits_of_beqAll`).
-/
import DiceFormula.Proofs.Arithmetic.Items
import DiceFormula.Proofs.Formula.Balanced
import DiceFormula.Proofs.Formula.Beside
import DiceFormula.Proofs.Formula.Waiting

namespace DiceFormula

set_option autoImplicit false

namespace Term

open Arithmetic (isResolved resolved_of_total)
open Strand (isNested)

/-! ## Values that are known -/

/-- The term has a value before any die is rolled if everything in it has one. -/
def isFixed : Term → Bool
  | number _ _ | operator _ | call _ _ _ | group _ _ => true
  | _ => false

/-- There are only numbers, operators, groups and calls. -/
abbrev Fixed (ts : List Term) : Prop := ∀ t ∈ ts, t.isFixed = true

/-- Something in the term is dice, a pool or a fragment, at whatever depth. -/
def Varies (t : Term) : Prop := ¬ ∀ us ∈ t.inner, Everywhere Fixed us

instance (t : Term) : Decidable (Varies t) :=
  have := decidableInside Fixed t
  instDecidableNot

theorem constantItems_operand {t : Term} (operand : t.isOperator = false) (rest : List Term) :
    constantItems (t :: rest) = (match t.constant? with
      | some x => .value x
      | none => .unresolved t.text) :: constantItems rest := by
  cases t with
  | operator op => cases operand
  | _ => rfl

mutual

theorem fixed_of_constant : ∀ (t : Term) {x : Float}, t.constant? = some x →
    t.isFixed = true ∧ ∀ us ∈ t.inner, Everywhere Fixed us
  | .number _ _, _, _ => ⟨rfl, List.forall_mem_nil _⟩
  | .group us flavor, x, constant =>
      ⟨rfl, List.forall_mem_singleton.2
        (fixed_of_resolved us (resolved_of_total (eq_ok_of_toOption constant)))⟩
  | .call f args flavor, x, constant => by
      rw [constant?] at constant
      obtain ⟨xs, totals, -⟩ := Option.bind_eq_some_iff.1 constant
      exact ⟨rfl, fixed_of_totals args totals⟩
  | .operator _, _, constant => by cases constant
  | .dice _ _ _, _, constant => by cases constant
  | .pool _ _ _ _ _, _, constant => by cases constant
  | .fragment _, _, constant => by cases constant

theorem fixed_of_resolved : ∀ (ts : List Term),
    (∀ item ∈ constantItems ts, isResolved item = true) → Everywhere Fixed ts
  | [], _ => .intro (List.forall_mem_nil _) (List.forall_mem_nil _)
  | t :: rest, resolved => by
      have both : (t.isFixed = true ∧ ∀ us ∈ t.inner, Everywhere Fixed us) ∧
          Everywhere Fixed rest := by
        cases kind : t.isOperator with
        | true =>
            cases t with
            | operator op =>
                obtain ⟨-, others⟩ := List.forall_mem_cons.1 resolved
                exact ⟨⟨rfl, List.forall_mem_nil _⟩, fixed_of_resolved rest others⟩
            | _ => cases kind
        | false =>
            rw [constantItems_operand kind] at resolved
            obtain ⟨first, others⟩ := List.forall_mem_cons.1 resolved
            refine ⟨?_, fixed_of_resolved rest others⟩
            cases constant : t.constant? with
            | none =>
                rw [constant] at first
                cases first
            | some x => exact fixed_of_constant t constant
      obtain ⟨⟨fixed, inner⟩, others⟩ := both
      obtain ⟨here, inside⟩ := everywhere_iff.1 others
      exact .intro (List.forall_mem_cons.2 ⟨fixed, here⟩) (List.forall_mem_cons.2 ⟨inner, inside⟩)

theorem fixed_of_totals : ∀ (lists : List (List Term)) {xs : List Float},
    constantTotals? lists = some xs → ∀ us ∈ lists, Everywhere Fixed us
  | [], _, _ => List.forall_mem_nil _
  | ts :: rest, xs, totals => by
      rw [constantTotals?] at totals
      split at totals
      · cases totals
      · rename_i x total
        obtain ⟨ys, others, -⟩ := Option.map_eq_some_iff.1 totals
        exact List.forall_mem_cons.2
          ⟨fixed_of_resolved ts (resolved_of_total (eq_ok_of_toOption total)),
            fixed_of_totals rest others⟩

end

/-- What varies has no value that is known. -/
theorem constant?_of_varies {t : Term} (varies : t.Varies) : t.constant? = none := by
  cases constant : t.constant? with
  | none => rfl
  | some x => exact absurd (fixed_of_constant t constant).2 varies

/-! ## Equal terms -/

theorem forall₂_of_beqAll : ∀ {ts ts' : List Term}, beqAll ts ts' = true →
    List.Forall₂ (fun t t' => beq t t' = true) ts ts'
  | [], [], _ => .nil
  | _ :: _, _ :: _, same =>
      have both := Bool.and_eq_true_iff.1 same
      .cons both.1 (forall₂_of_beqAll both.2)
  | [], _ :: _, same | _ :: _, [], same => by cases same

theorem forall₂_of_beqLists : ∀ {lists lists' : List (List Term)}, beqLists lists lists' = true →
    List.Forall₂ (fun us us' => beqAll us us' = true) lists lists'
  | [], [], _ => .nil
  | _ :: _, _ :: _, same =>
      have both := Bool.and_eq_true_iff.1 same
      .cons both.1 (forall₂_of_beqLists both.2)
  | [], _ :: _, same | _ :: _, [], same => by cases same

/-- What two terms have in common if they differ only in the signs of zeros. -/
structure Resembles (t t' : Term) : Prop where
  operator : t.isOperator = t'.isOperator
  pending : t.isIntermediate = t'.isIntermediate
  foldable : t.isFoldable = t'.isFoldable
  fixed : t.isFixed = t'.isFixed
  fragment : ∀ text, t = .fragment text ↔ t' = .fragment text
  inner : List.Forall₂ (fun us us' => beqAll us us' = true) t.inner t'.inner

theorem resembles_of_beq {t t' : Term} (same : beq t t' = true) : Resembles t t' := by
  cases t <;> cases t' <;>
    simp only [beq, Bool.and_eq_true, beq_iff_eq, Bool.false_eq_true] at same
  case number.number x flavor x' flavor' =>
    exact ⟨rfl, rfl, rfl, rfl, fun text => by simp, .nil⟩
  case operator.operator op op' =>
    exact ⟨rfl, rfl, rfl, rfl, fun text => by simp, .nil⟩
  case dice.dice rolled evaluated flavor rolled' evaluated' flavor' =>
    exact ⟨rfl, rfl, rfl, rfl, fun text => by simp, .nil⟩
  case pool.pool members modifiers results evaluated flavor members' modifiers' results' evaluated'
      flavor' =>
    obtain ⟨⟨⟨⟨members, -⟩, -⟩, rfl⟩, -⟩ := same
    exact ⟨rfl, rfl, rfl, rfl, fun text => by simp, forall₂_of_beqLists members⟩
  case call.call f args flavor f' args' flavor' =>
    exact ⟨rfl, rfl, rfl, rfl, fun text => by simp, forall₂_of_beqLists same.1.2⟩
  case group.group inner flavor inner' flavor' =>
    exact ⟨rfl, rfl, rfl, rfl, fun text => by simp, .cons same.1 .nil⟩
  case fragment.fragment text text' =>
    subst same
    exact ⟨rfl, rfl, rfl, rfl, fun text => Iff.rfl, .nil⟩

theorem Resembles.isFragment {t t' : Term} (resembles : Resembles t t') :
    t.isFragment = t'.isFragment := by
  have fragment {u : Term} : u.isFragment = true ↔ ∃ text, u = .fragment text := by
    cases u <;> simp [Term.isFragment]
  rw [Bool.eq_iff_iff, fragment, fragment]
  exact exists_congr resembles.fragment

theorem Resembles.isGroup {t t' : Term} (resembles : Resembles t t') : t.isGroup = t'.isGroup := by
  rw [Term.isGroup, Term.isGroup, resembles.pending, resembles.isFragment]

/-- Equal terms are known together. -/
theorem everywhere_fixed {ts ts' : List Term} (same : beqAll ts ts' = true)
    (fixed : Everywhere Fixed ts) : Everywhere Fixed ts' := by
  induction fixed generalizing ts' with
  | @intro ts here inside ih =>
      have equal := forall₂_of_beqAll same
      refine .intro (fun t' mem => ?_) fun t' mem us' member => ?_
      · obtain ⟨t, found, beq⟩ := forall₂_mem_right equal mem
        exact (resembles_of_beq beq).fixed ▸ here t found
      · obtain ⟨t, found, beq⟩ := forall₂_mem_right equal mem
        obtain ⟨us, inner, equal'⟩ := forall₂_mem_right (resembles_of_beq beq).inner member
        exact ih t found us inner equal'

theorem Resembles.varies {t t' : Term} (resembles : Resembles t t') (varies : t'.Varies) :
    t.Varies := by
  refine fun fixed => varies fun us' mem => ?_
  obtain ⟨us, inner, equal⟩ := forall₂_mem_right resembles.inner mem
  exact everywhere_fixed equal (fixed us inner)

/-! ## Neighbours -/

/-- Whether the term can have an operand directly behind it.  Dice could wait for it. -/
def leads : Term → Bool
  | number _ _ | fragment _ | pool _ _ _ _ _ | call _ _ _ | group _ _ => true
  | operator _ | dice _ _ _ => false

/-- Whether the term can have an operand directly in front of it.  A sign would be an operator. -/
def follows : Term → Bool
  | number x _ => !decide (x < 0)
  | t => t.leads

/-- The brackets of a term take no name of a function from the text in front of them. -/
def LeavesName (text : List Char) : Term → Prop
  | call _ _ _ => ∀ c ∈ text.getLast?, Text.isWordChar c = false
  | group _ _ => MathFunction.ofName? (Group.cutWord text).2 = none
  | _ => True

/-- A group takes no flavor from the term behind it, and a pool no modifiers. -/
def LeavesText : Term → Term → Prop
  | pool _ _ _ _ none, t => isNested t = true ∨ ∀ c ∈ t.text.toList.head?,
      isBracket c = false ∧ Group.isModifierChar c = false ∧ Text.isWordChar c = false
  | call _ _ none, t | group _ none, t => t.text.toList.head? ≠ some '['
  | _, _ => True

/-- Two operands, one of which is a group, can be written one directly behind the other. -/
structure Meets (a b : Term) : Prop where
  leads : a.leads = true
  follows : b.follows = true
  nested : a.isGroup = true ∨ b.isGroup = true
  name : LeavesName a.text.toList b
  text : LeavesText a b
  front : b.isFragment = true → a.isFoldable = true → a.Varies
  behind : a.isFragment = true → b.isFoldable = true → b.Varies

/-- Terms that can be written one behind the other. -/
def Joined (a b : Term) : Prop := a.isOperator = true ∨ b.isOperator = true ∨ Meets a b

theorem joined_of_apart {ts : List Term} (apart : Apart ts) : ts.IsChain Joined :=
  List.IsChain.imp (fun _ _ either => either.imp_right .inl) apart

/-! ## Deciding -/

instance (text : List Char) : (t : Term) → Decidable (LeavesName text t)
  | call _ _ _ => inferInstanceAs (Decidable (∀ c ∈ text.getLast?, Text.isWordChar c = false))
  | group _ _ => inferInstanceAs (Decidable (MathFunction.ofName? (Group.cutWord text).2 = none))
  | number _ _ | operator _ | dice _ _ _ | pool _ _ _ _ _ | fragment _ => isTrue trivial

instance : (t t' : Term) → Decidable (LeavesText t t')
  | pool _ _ _ _ none, t' => inferInstanceAs (Decidable (isNested t' = true ∨
      ∀ c ∈ t'.text.toList.head?,
        isBracket c = false ∧ Group.isModifierChar c = false ∧ Text.isWordChar c = false))
  | call _ _ none, t' | group _ none, t' =>
      inferInstanceAs (Decidable (t'.text.toList.head? ≠ some '['))
  | number _ _, _ | operator _, _ | dice _ _ _, _ | pool _ _ _ _ (some _), _
  | call _ _ (some _), _ | group _ (some _), _ | fragment _, _ => isTrue trivial

instance (a b : Term) : Decidable (Meets a b) :=
  decidable_of_iff (a.leads = true ∧ b.follows = true ∧ (a.isGroup = true ∨ b.isGroup = true) ∧
      LeavesName a.text.toList b ∧ LeavesText a b ∧
        (b.isFragment = true → a.isFoldable = true → a.Varies) ∧
          (a.isFragment = true → b.isFoldable = true → b.Varies))
    ⟨fun ⟨leads, follows, nested, name, text, front, behind⟩ =>
        ⟨leads, follows, nested, name, text, front, behind⟩,
      fun ⟨leads, follows, nested, name, text, front, behind⟩ =>
        ⟨leads, follows, nested, name, text, front, behind⟩⟩

instance (a b : Term) : Decidable (Joined a b) :=
  inferInstanceAs (Decidable (_ ∨ _ ∨ _))

/-! ## Texts side by side -/

theorem isNested_of_isGroup {t : Term} (group : t.isGroup = true) : isNested t = true := by
  cases t <;> first | rfl | cases group

/-- A group, a call or a pool starts with its brackets. -/
theorem opens_of_isNested {t : Term} (nested : isNested t = true) (s : List Char) :
    Strand.Opens (t.text.toList ++ s) := by
  cases t with
  | pool members modifiers results evaluated flavor =>
      simp only [Term.text, poolText, String.toList_append, List.append_assoc]
      exact .curly _
  | call f args flavor =>
      simp only [Term.text, callText, String.toList_append, List.append_assoc]
      exact .call f _
  | group inner flavor =>
      simp only [Term.text, String.toList_append, List.append_assoc]
      exact .round _
  | _ => cases nested

/-- Brackets take no name from the text in front of them. -/
theorem parts_of_leavesName {text : List Char} {t : Term} (nested : isNested t = true)
    (name : LeavesName text t) (s : List Char) : Group.Parts text (t.text.toList ++ s) := by
  cases t with
  | pool members modifiers results evaluated flavor =>
      simp only [Term.text, poolText, String.toList_append, List.append_assoc]
      exact .starts (by decide) (by decide) (by decide) _
  | call f args flavor => exact .ends name _
  | group inner flavor =>
      simp only [Term.text, String.toList_append, List.append_assoc]
      exact .brackets name _
  | _ => cases nested

/-- Behind a group or a call without flavor there is none either. -/
theorem head_of_leavesText {t : Term} (visible : t.text.toList ≠ []) {s : List Char}
    (leaves : t.text.toList.head? ≠ some '[') : (t.text.toList ++ s).head? ≠ some '[' := by
  rwa [List.head?_append_of_ne_nil _ visible]

section Pool

variable {members : List (List Term)} {modifiers : List Modifier} {results : List Die}
  {evaluated : Bool} {flavor : Option String} {t : Term}

/-- What is behind a pool without flavor does not belong to it. -/
theorem Meets.free (meets : Meets (.pool members modifiers results evaluated none) t)
    (visible : t.text.toList ≠ []) (s : List Char) : Strand.Free (t.text.toList ++ s) := by
  rcases meets.text with nested | starts
  · exact .opens (opens_of_isNested nested s)
  · obtain ⟨c, cs, text⟩ := List.exists_cons_of_ne_nil visible
    rw [text] at starts ⊢
    obtain ⟨plain, noModifier, noWord⟩ := starts c rfl
    exact .char noWord noModifier plain _

/-- A pool is no part of a name that is behind it. -/
theorem Meets.parts (meets : Meets (.pool members modifiers results evaluated flavor) t)
    (visible : t.text.toList ≠ []) (s : List Char) :
    Group.Parts (Term.pool members modifiers results evaluated flavor).text.toList
      (t.text.toList ++ s) := by
  by_cases nested : isNested t = true
  · exact parts_of_leavesName nested meets.name s
  · cases flavor with
    | some f =>
        have text : (Term.pool members modifiers results evaluated (some f)).text.toList =
            (poolText (textLists members) modifiers ++ "[" ++ f).toList ++ [']'] := by
          simp [Term.text, flavorText]
        refine .ends (fun c last => ?_) _
        rw [text, List.getLast?_concat] at last
        cases last
        rfl
    | none =>
        obtain ⟨c, cs, text⟩ := List.exists_cons_of_ne_nil visible
        obtain ⟨plain, -, noWord⟩ := (meets.text.resolve_left nested) c (by rw [text]; rfl)
        have other {d : Char} (bracket : isBracket d = true) : c ≠ d := by
          rintro rfl
          rw [plain] at bracket
          cases bracket
        rw [text]
        exact .starts noWord (other rfl) (other rfl) _

end Pool

/-! ## Terms that stay -/

theorem total?_of_isGroup {t : Term} (group : t.isGroup = true) : t.total? = none := by
  cases t with
  | pool members modifiers results evaluated flavor =>
      cases evaluated with
      | false => rfl
      | true => cases group
  | call | group | fragment => rfl
  | number | operator | dice => cases group

/-- A group whose value is still to come is merged with nothing. -/
theorem merged?_group {a b : Term} (group : a.isGroup = true ∨ b.isGroup = true) :
    merged? a b = none := by
  unfold merged?
  split
  · rename_i text
    rcases group with group | group
    · cases group
    · rw [total?_of_isGroup group]
      rfl
  · rename_i text other
    rcases group with group | group
    · rw [total?_of_isGroup group]
      rfl
    · cases group
  · rfl

theorem separate_operator {a b : Term} (operator : a.isOperator = true ∨ b.isOperator = true) :
    Separate a b := by
  rcases operator with operator | operator
  · cases a with
    | operator op =>
        refine ⟨(merged?_inert rfl).2, fun fragment => ?_, fun _ foldable => ?_⟩
        · cases fragment
        · cases foldable
    | _ => cases operator
  · cases b with
    | operator op =>
        refine ⟨(merged?_inert rfl).1, fun _ foldable => ?_, fun fragment => ?_⟩
        · cases foldable
        · cases fragment
    | _ => cases operator

/-- Two neighbours that equal joined ones. -/
theorem separate_of_joined {a b a' b' : Term} (joined : Joined a b) (front : Resembles a' a)
    (behind : Resembles b' b) : Separate a' b' := by
  rcases joined with operator | operator | meets
  · exact separate_operator (.inl (front.operator.trans operator))
  · exact separate_operator (.inr (behind.operator.trans operator))
  · refine ⟨merged?_group ?_, fun fragment foldable => ?_, fun fragment foldable => ?_⟩
    · rw [front.isGroup, behind.isGroup]
      exact meets.nested
    · rw [front.isFragment] at fragment
      rw [behind.foldable] at foldable
      exact constant?_of_varies (behind.varies (meets.behind fragment foldable))
    · rw [behind.isFragment] at fragment
      rw [front.foldable] at foldable
      exact constant?_of_varies (front.varies (meets.front fragment foldable))

/-- **Terms that equal joined terms do not change each other.** -/
theorem isChain_separate_of_joined {ts ts' : List Term} (joined : ts.IsChain Joined)
    (same : beqAll ts' ts = true) : ts'.IsChain Separate := by
  have equal := forall₂_of_beqAll same
  clear same
  induction equal with
  | nil => exact .nil
  | @cons t' t ts' ts first others ih =>
      obtain ⟨next, rest⟩ := List.isChain_cons.1 joined
      refine List.isChain_cons.2 ⟨fun u' head => ?_, ih rest⟩
      cases others with
      | nil => cases head
      | @cons u' u us' us second others =>
          cases head
          exact separate_of_joined (next u rfl) (resembles_of_beq first) (resembles_of_beq second)

/-- **Fragments wait beside equal terms** as they do beside the terms themselves. -/
theorem waits_of_beqAll {prior prior' : Option Term} {ts ts' : List Term}
    (front : prior'.any isIntermediate = prior.any isIntermediate) (same : beqAll ts' ts = true)
    (waiting : FragmentsFrom Fragment.Waits prior ts) : FragmentsFrom Fragment.Waits prior' ts' := by
  have equal := forall₂_of_beqAll same
  clear same
  induction equal generalizing prior prior' with
  | nil => trivial
  | @cons t' t ts' ts first others ih =>
      obtain ⟨here, rest⟩ := waiting
      have resembles := resembles_of_beq first
      have next : ts'.head?.any isIntermediate = ts.head?.any isIntermediate := by
        cases others with
        | nil => rfl
        | cons second others => exact (resembles_of_beq second).pending
      have kept : (some t').any isIntermediate = (some t).any isIntermediate := resembles.pending
      refine ⟨fun text fragment => ?_, ih kept rest⟩
      obtain ⟨pending, checked⟩ := here text ((resembles.fragment text).1 fragment)
      refine ⟨?_, ?_⟩
      · rw [Fragment.isPending, front, next]
        exact pending
      · unfold Fragment.checkPending Fragment.placeholder at checked ⊢
        rw [front, next]
        exact checked

end Term

end DiceFormula
