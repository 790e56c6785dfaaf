/-
# DiceFormula.Proofs.Formula.Canonical -- formulas that read as they are written

A list of terms is canonical if its text says all there is to it: operands stand
apart, signs are bound to no number that they do not belong to, numbers are finite,
counts are not zero, flavors hold no bracket that would end them, and nothing is
rolled yet.  The same holds inside groups, of the arguments of calls and of the
members of pools.

Such terms are legible at every level (`Level.legible`), so `read_formulaText` is the
round trip.
-/
import DiceFormula.Proofs.Formula.Legible

namespace DiceFormula

set_option autoImplicit false

namespace Term

/-! ## Canonical terms -/

/-- The terms of one level of a formula. -/
structure Level (ts : List Term) : Prop where
  nonempty : ts ≠ []
  apart : Apart ts
  signs : SignsBound true ts

mutual

/-- The text of the term says all there is to it. -/
def Canonical : Term → Prop
  | .number x flavor =>
      x.isFinite = true ∧ (x < 0 → flavor = none) ∧ Opened flavor ∧ Closed flavor
  | .operator _ => True
  | .dice rolled evaluated flavor =>
      rolled.rolls = [] ∧ evaluated = false ∧ rolled.dice.Writable ∧ Opened flavor ∧ Closed flavor
  | .pool members modifiers results evaluated flavor =>
      members ≠ [] ∧ CanonicalLists members ∧
        (∀ m ∈ modifiers, m.isSelective = true ∧ m.Writable) ∧
          results = [] ∧ evaluated = false ∧ Closed flavor
  | .call _ args flavor => args ≠ [] ∧ CanonicalLists args ∧ Closed flavor
  | .group inner flavor => Level inner ∧ CanonicalAll inner ∧ Closed flavor
  | .fragment _ => False

def CanonicalAll : List Term → Prop
  | [] => True
  | t :: ts => Canonical t ∧ CanonicalAll ts

def CanonicalLists : List (List Term) → Prop
  | [] => True
  | ts :: rest => (Level ts ∧ CanonicalAll ts) ∧ CanonicalLists rest

end

theorem CanonicalAll.mem {ts : List Term} (all : CanonicalAll ts) :
    ∀ t ∈ ts, Canonical t := by
  induction ts with
  | nil => simp
  | cons u ts ih =>
      intro t mem
      rcases List.mem_cons.1 mem with rfl | mem
      · exact all.1
      · exact ih all.2 t mem

theorem CanonicalLists.mem {lists : List (List Term)} (all : CanonicalLists lists) :
    ∀ ts ∈ lists, Level ts ∧ CanonicalAll ts := by
  induction lists with
  | nil => simp
  | cons us lists ih =>
      intro ts mem
      rcases List.mem_cons.1 mem with rfl | mem
      · exact all.1
      · exact ih all.2 ts mem

/-! ## The round trip -/

theorem Canonical.settled {t : Term} (canonical : Canonical t) : t.isFragment = false := by
  cases t with
  | fragment text => cases canonical
  | _ => rfl

/-- What is in a canonical term is canonical. -/
theorem Canonical.inside {t : Term} (canonical : Canonical t) :
    ∀ us ∈ t.inner, Level us ∧ CanonicalAll us := by
  cases t with
  | pool members modifiers results evaluated flavor => exact canonical.2.1.mem
  | call f args flavor => exact canonical.2.1.mem
  | group us flavor => exact List.forall_mem_singleton.2 ⟨canonical.1, canonical.2.1⟩
  | _ => exact List.forall_mem_nil _

theorem Canonical.faithful {t : Term} (canonical : Canonical t) : t.Faithful := by
  have filled : [] ∉ t.inner := fun mem => (canonical.inside [] mem).1.nonempty rfl
  cases t with
  | number | operator | dice => exact canonical
  | pool members modifiers results evaluated flavor =>
      obtain ⟨nonempty, -, others⟩ := canonical
      exact ⟨⟨nonempty, filled⟩, others⟩
  | call f args flavor => exact ⟨⟨canonical.1, filled⟩, canonical.2.2⟩
  | group us flavor => exact ⟨canonical.1.nonempty, canonical.2.2⟩
  | fragment text => cases canonical

/-- **Canonical terms are legible**, at every level. -/
theorem Level.legible {ts : List Term} (level : Level ts) (canonical : CanonicalAll ts) :
    Everywhere Legible ts :=
  .intro
    { joined := joined_of_apart level.apart
      signs := level.signs
      waiting := fragmentsFrom_settled fun t mem => (canonical.mem t mem).settled
      faithful := fun t mem => (canonical.mem t mem).faithful }
    fun t mem us member =>
      have := (sizeOf_inner member).trans (List.sizeOf_lt_of_mem mem)
      have inside := (canonical.mem t mem).inside us member
      inside.1.legible inside.2
termination_by sizeOf ts

end Term

/-- **A canonical formula is read as it is written.** -/
theorem Formula.read_formulaText {ts : List Term} (level : Term.Level ts)
    (canonical : Term.CanonicalAll ts) :
    ∃ ts', Formula.read (Term.formulaText ts) = .ok ts' ∧ Term.beqAll ts' ts = true :=
  read_legible (level.legible canonical)

/-- A group with flavor, a call and a pool are read as they are written. -/
theorem Formula.read_formulaText_nested :
    ∃ ts, Term.formulaText ts = "(--2)[debt, owed] * max(4d6kh3[fire], 0.5) - \x7b1, 1d4\x7dkl" ∧
      Term.Level ts ∧ Term.CanonicalAll ts ∧
        ∃ ts', Formula.read (Term.formulaText ts) = .ok ts' ∧ Term.beqAll ts' ts = true := by
  have single {t : Term} (operand : t.isOperator = false) : Term.Level [t] := by
    refine ⟨List.cons_ne_nil t [], List.isChain_singleton t, ?_⟩
    cases t <;> first | exact trivial | cases operand
  have number {x : Float} (finite : x.isFinite = true) : Term.Canonical (.number x none) :=
    ⟨finite, fun _ => rfl, forall_none, forall_none⟩
  have inner : Term.Level [.operator .subtract, .number (-2) none] := by
    refine ⟨List.cons_ne_nil _ _, by simp [Term.Apart, Term.isOperator], fun _ _ x head => ?_, trivial⟩
    cases head
    decide +kernel
  have group : Term.Canonical (.group [.operator .subtract, .number (-2) none] (some "debt, owed")) := by
    refine ⟨inner, ⟨trivial, number (by decide +kernel), trivial⟩, fun f same => ?_⟩
    cases same
    decide
  have dice : Term.Canonical (.ofDice ⟨4, 6, [.keepHigh 3]⟩ (some "fire")) := by
    refine ⟨rfl, rfl, ⟨by decide, by decide, ?_⟩, fun f same => ?_, fun f same => ?_⟩
    · simp [Rolled.unrolled, Modifier.Writable, Limit.mostCount]
    · cases same
      decide
    · cases same
      decide
  have die : Term.Canonical (.ofDice ⟨1, 4, []⟩ none) :=
    ⟨rfl, rfl, ⟨by decide, by decide, List.forall_mem_nil _⟩, forall_none, forall_none⟩
  have call : Term.Canonical (.call .maximum
      [[.ofDice ⟨4, 6, [.keepHigh 3]⟩ (some "fire")], [.number 0.5 none]] none) :=
    ⟨List.cons_ne_nil _ _, ⟨⟨single rfl, dice, trivial⟩, ⟨single rfl, number (by decide +kernel), trivial⟩,
      trivial⟩, forall_none⟩
  have pool : Term.Canonical (.pool [[.number 1 none], [.ofDice ⟨1, 4, []⟩ none]] [.keepLow 1] []
      false none) := by
    refine ⟨List.cons_ne_nil _ _, ⟨⟨single rfl, number (by decide +kernel), trivial⟩,
      ⟨single rfl, die, trivial⟩, trivial⟩, ?_, rfl, rfl, forall_none⟩
    simp [Modifier.isSelective, Modifier.Writable, Limit.mostCount]
  let ts : List Term := [.group [.operator .subtract, .number (-2) none] (some "debt, owed"),
    .operator .multiply,
    .call .maximum [[.ofDice ⟨4, 6, [.keepHigh 3]⟩ (some "fire")], [.number 0.5 none]] none,
    .operator .subtract,
    .pool [[.number 1 none], [.ofDice ⟨1, 4, []⟩ none]] [.keepLow 1] [] false none]
  have level : Term.Level ts :=
    ⟨List.cons_ne_nil _ _, by simp [ts, Term.Apart, Term.isOperator], by simp [ts, Term.SignsBound]⟩
  have canonical : Term.CanonicalAll ts := ⟨group, trivial, call, trivial, pool, trivial⟩
  exact ⟨ts, by decide +kernel, level, canonical, Formula.read_formulaText level canonical⟩

/-- Terms that do not stand apart are not canonical: without the blank in front of it, the
pool takes the number for its modifiers. -/
theorem Formula.formulaText_unreadable :
    ∃ ts, Formula.read "\x7b1d4\x7d 5" = .ok ts ∧
      ∀ ts', Formula.read (Term.formulaText ts) ≠ .ok ts' := by
  have accepted : (Formula.read "\x7b1d4\x7d 5").toOption.map Term.formulaText =
      some "\x7b1d4\x7d5" := by decide +kernel
  have refused : (Formula.read "\x7b1d4\x7d5").toOption.isNone = true := by decide +kernel
  obtain ⟨ts, read, text⟩ := Option.map_eq_some_iff.1 accepted
  refine ⟨ts, eq_ok_of_toOption read, fun ts' reread => ?_⟩
  rw [text] at reread
  rw [reread] at refused
  cases refused

end DiceFormula
