/-
# DiceFormula.Proofs.Formula.Blocks -- text without groups, and flavor

A text without groups is `Bare`.  It is only cut at its operators (`links?_bare`).
The flavor behind a group belongs to it (`withFlavorBehind_ofFlavor`), and so do
the modifiers behind a pool (`modifierText_ofFlavor`).
-/
import DiceFormula.Proofs.Formula.Barrier

namespace DiceFormula

set_option autoImplicit false

/-- A flavor that is absent is as it has to be. -/
theorem forall_none {p : String → Prop} : ∀ f, (none : Option String) = some f → p f := by
  intro f flavored
  cases flavored

namespace Matched

/-- The text has no groups. -/
def Bare : Matched → Prop
  | nil => True
  | char _ _ rest => rest.Bare
  | flavor _ _ rest => rest.Bare
  | group _ _ _ => False

theorem outline_bare (b : Bracket) {m : Matched} (bare : m.Bare) :
    m.outline b = .plain m.lexemes := by
  induction m with
  | nil => rfl
  | char c plain rest ih =>
      rw [outline, ih bare]
      rfl
  | flavor inner closes rest ih =>
      rw [outline, ih bare]
      rfl
  | group b' inner rest _ ih => cases bare

theorem bare_append {m m' : Matched} (bare : m.Bare) (bare' : m'.Bare) : (m.append m').Bare := by
  induction m with
  | nil => exact bare'
  | char c plain rest ih => exact ih bare
  | flavor inner closes rest ih => exact ih bare
  | group b inner rest _ ih => cases bare

theorem bare_ofPlain (s : List Char) (plain : ∀ c ∈ s, isBracket c = false) :
    (ofPlain s plain).Bare := by
  induction s with
  | nil => trivial
  | cons c s ih => exact ih fun d mem => plain d (List.mem_cons_of_mem c mem)

theorem outline_bare_append (b : Bracket) {m : Matched} (bare : m.Bare) (m' : Matched) :
    (m.append m').outline b = (m'.outline b).prepend m.lexemes := by
  induction m with
  | nil => exact (Outline.prepend_nil _).symm
  | char c plain rest ih =>
      rw [append, outline, ih bare, Outline.prepend_prepend]
      rfl
  | flavor inner closes rest ih =>
      rw [append, outline, ih bare, Outline.prepend_prepend]
      rfl
  | group b' inner rest _ ih => cases bare

/-- The flavor of a term in brackets. -/
def ofFlavor : (flavor : Option String) → (∀ f, flavor = some f → ']' ∉ f.toList) → Matched
  | none, _ => nil
  | some f, closes => flavor f.toList (closes f rfl) nil

section Flavor

variable (flavor : Option String) (closes : ∀ f, flavor = some f → ']' ∉ f.toList)

theorem text_ofFlavor : (ofFlavor flavor closes).text = (Term.flavorText flavor).toList := by
  cases flavor with
  | none => rfl
  | some f =>
      rw [ofFlavor, Term.flavorText, String.toList_append, String.toList_append]
      rfl

theorem bare_ofFlavor : (ofFlavor flavor closes).Bare := by
  cases flavor <;> exact trivial

/-- The flavor behind a term is found, and nothing else. -/
theorem withFlavorBehind_ofFlavor (front : List Char) {t : Term} (unflavored : t.withFlavor none = t)
    (used : List Lexeme) {lead : List Lexeme}
    (other : flavor = none → Group.leadingFlavor lead = none) :
    Group.withFlavorBehind front t used.length (used ++ ((ofFlavor flavor closes).lexemes ++ lead)) =
      ⟨front, t.withFlavor flavor, (used ++ (ofFlavor flavor closes).lexemes).length⟩ := by
  unfold Group.withFlavorBehind
  rw [List.drop_left]
  cases flavor with
  | none => simp [ofFlavor, lexemes, other rfl, unflavored]
  | some f => simp [ofFlavor, lexemes, Group.leadingFlavor]

/-- The modifiers behind a pool reach up to its flavor, or up to what is no modifier. -/
theorem modifierText_ofFlavor {text : List Char}
    (belongs : ∀ c ∈ text, Group.isModifierChar c = true) {lead : List Lexeme}
    (other : flavor = none → Group.modifierText lead = []) :
    Group.modifierText (text.map .char ++ ((ofFlavor flavor closes).lexemes ++ lead)) = text := by
  induction text with
  | nil =>
      cases flavor with
      | none => exact other rfl
      | some f => rfl
  | cons c text ih =>
      rw [List.map_cons, List.cons_append, Group.modifierText,
        if_pos (belongs c List.mem_cons_self),
        ih fun d mem => belongs d (List.mem_cons_of_mem c mem)]

end Flavor

end Matched

namespace Formula

open Matched

variable (read : SubReader)

/-- A text without operators outside of brackets is one operand. -/
theorem ofText_operand {m : Matched} (other : ∀ l ∈ m.lexemes, Cut.operator? l = none)
    (visible : Text.allBlank m.text = false) :
    Link.ofText m.text = [.operand (Text.trim m.text)] := by
  rw [Link.ofText, scan_text_self, Link.scan_operand _ _ other, List.reverse_nil, List.nil_append,
    textAll_lexemes, Link.operand?, visible]
  rfl

theorem read?_bare {m : Matched} (bare : m.Bare) (b : Bracket) :
    Strand.read? b read m.text = some (.plain m.text) := by
  rw [Strand.read?, outline_text, outline_bare b bare, Strand.ofOutline?, List.drop_zero,
    textAll_lexemes]

/-- A text without groups is cut at its operators. -/
theorem links?_bare {m : Matched} (bare : m.Bare) :
    links? read m.text = some (Link.ofText m.text) := by
  unfold links?
  rw [read?_bare read bare, Option.bind_some, Strand.expand, read?_bare read bare]
  rfl

theorem links?_nothing : links? read [] = some [] := links?_bare read (m := .nil) trivial

/-- A minus sign at the start is a link of its own. -/
theorem links?_sign (s : List Char) :
    links? read ('-' :: s) = (links? read s).map (.operator .subtract :: ·) := by
  have split := links?_operator read .nil .subtract s
  rw [Matched.text, links?_nothing, Option.bind_some] at split
  exact split

end Formula

end DiceFormula
