/-
# DiceFormula.Proofs.Arithmetic.Direct -- calculating from left to right

`direct` calculates operands with operators between them in one pass from left to
right.  It holds the sum so far, with the operator behind it, and the product so
far; a product is added to the sum once a weak operator or the end follows.

`Calculates` says of a part of an expression that it has a value, up to the sign
of a zero, or that it fails because some value is not finite.  Each rule of the
grammar has a lemma for it, and `Standing`, what is known of the marks before the
next operator, is kept by each step of `direct` (`Standing.times`,
`Standing.plus`).
-/
import DiceFormula.Proofs.Arithmetic.Grammar

namespace DiceFormula.Arithmetic

open Double

set_option autoImplicit false

/-! ## Direct calculation -/

/-- A double, if it is finite. -/
def finite? (x : Float) : Option Float :=
  if x.isFinite then some x else none

/-- Adds the product so far to the sum that is held. -/
def settle (held : Option (Float × Operator)) (x : Float) : Option Float :=
  match held with
  | none => some x
  | some (sum, op) => finite? (op.apply sum x)

/-- Multiplies and divides from left to right, then adds and subtracts from left
to right, and fails as soon as a result is not finite. -/
def direct (held : Option (Float × Operator)) (x : Float) :
    List (Operator × Float) → Option Float
  | [] => settle held x
  | (op, y) :: rest =>
      if op.isMultiplicative then
        match finite? (op.apply x y) with
        | some product => direct held product rest
        | none => none
      else
        match settle held x with
        | some sum => direct (some (sum, op)) y rest
        | none => none

/-- Behind a weak operator the sum so far is held. -/
theorem direct_weak (held : Option (Float × Operator)) (x : Float) (links : List (Operator × Float))
    {op : Operator} (weak : op.isAdditive = true) (y : Float) (links' : List (Operator × Float)) :
    direct held x (links ++ (op, y) :: links') =
      (direct held x links).bind fun sum => direct (some (sum, op)) y links' := by
  have notStrong : op.isMultiplicative ≠ true := by
    rw [Operator.isMultiplicative, weak]
    decide
  induction links generalizing held x with
  | nil =>
      simp only [List.nil_append, direct, if_neg notStrong]
      cases settle held x <;> rfl
  | cons link links ih =>
      obtain ⟨op', y'⟩ := link
      rw [List.cons_append, direct, direct]
      split
      · cases finite? (op'.apply x y') with
        | none => rfl
        | some product => exact ih held product
      · cases settle held x with
        | none => rfl
        | some sum => exact ih (some (sum, op')) y'

/-- A product is added to the sum that is held. -/
theorem direct_held (sum : Float) (op : Operator) (x : Float) {links : List (Operator × Float)}
    (strong : ∀ link ∈ links, link.1.isMultiplicative = true) :
    direct (some (sum, op)) x links =
      (direct none x links).bind fun product => finite? (op.apply sum product) := by
  induction links generalizing x with
  | nil => rfl
  | cons link links ih =>
      obtain ⟨op', y⟩ := link
      have first : op'.isMultiplicative = true := strong (op', y) List.mem_cons_self
      rw [direct, direct, if_pos first, if_pos first]
      cases finite? (op'.apply x y) with
      | none => rfl
      | some product => exact ih product fun link mem => strong link (List.mem_cons_of_mem _ mem)

/-- A product is calculated from left to right. -/
theorem direct_strong (x : Float) {links : List (Operator × Float)}
    (strong : ∀ link ∈ links, link.1.isMultiplicative = true) {op : Operator}
    (last : op.isMultiplicative = true) (y : Float) :
    direct none x (links ++ [(op, y)]) =
      (direct none x links).bind fun product => finite? (op.apply product y) := by
  induction links generalizing x with
  | nil =>
      simp only [List.nil_append, direct, if_pos last, settle, Option.bind_some]
      cases finite? (op.apply x y) <;> rfl
  | cons link links ih =>
      obtain ⟨op', y'⟩ := link
      have first : op'.isMultiplicative = true := strong (op', y') List.mem_cons_self
      rw [List.cons_append, direct, direct, if_pos first, if_pos first]
      cases finite? (op'.apply x y') with
      | none => rfl
      | some product => exact ih product fun link mem => strong link (List.mem_cons_of_mem _ mem)

/-- The calculation has the value that is expected, up to the sign of a zero, or
fails for a value that is not finite if none is expected. -/
def Agrees (calculated : Except CalcError Float) (expected : Option Float) : Prop :=
  match calculated, expected with
  | .ok v, some x => v.isFinite = true ∧ (v == x) = true
  | .error (.nonFinite _), none => True
  | _, _ => False

example : direct none 2 [(.add, 3), (.multiply, 4), (.subtract, 1)] = some 13 := by
  decide +kernel

theorem agrees_ok {v x : Float} (finite : v.isFinite = true) (alike : Alike v x) :
    Agrees (.ok v) (some x) :=
  ⟨finite, (beq_iff_alike finite x).2 alike⟩

/-- What agrees with a value is a value, and what agrees with none fails. -/
theorem Agrees.cases {calculated : Except CalcError Float} {expected : Option Float}
    (agrees : Agrees calculated expected) :
    (∃ v x, calculated = .ok v ∧ expected = some x ∧ v.isFinite = true ∧ Alike v x) ∨
      (∃ written, calculated = .error (.nonFinite written) ∧ expected = none) := by
  unfold Agrees at agrees
  split at agrees
  · obtain ⟨finite, eq⟩ := agrees
    exact Or.inl ⟨_, _, rfl, rfl, finite, (beq_iff_alike finite _).1 eq⟩
  · exact Or.inr ⟨_, rfl, rfl⟩
  · exact absurd agrees id

theorem agrees_finite {x y : Float} (matching : Matching x y) (written : String) :
    Agrees (finite x written) (finite? y) := by
  have same := matching.isFinite
  unfold DiceFormula.finite finite?
  by_cases h : x.isFinite = true
  · rw [if_pos h, if_pos (same ▸ h)]
    exact agrees_ok h (matching.alike h)
  · rw [if_neg h, if_neg (same ▸ h)]
    trivial

/-! ## Operations -/

/-- Both values and an operator between them, unless one of them is missing. -/
def combine (op : Operator) (x y : Option Float) : Option Float :=
  x.bind fun x => y.bind fun y => finite? (op.apply x y)

theorem Agrees.binary {a b : Expr} {x y : Option Float} (op : Operator)
    (left : Agrees a.calculate x) (right : Agrees b.calculate y) :
    Agrees (Expr.binary op a b).calculate (combine op x y) := by
  rw [Expr.calculate]
  rcases left.cases with ⟨v, x, hv, rfl, finiteV, alikeV⟩ | ⟨w, hw, rfl⟩
  · rcases right.cases with ⟨u, y, hu, rfl, finiteU, alikeU⟩ | ⟨w, hw, rfl⟩
    · rw [hv, hu]
      exact agrees_finite (Matching.apply op alikeV alikeU finiteV finiteU) _
    · rw [hv, hw]
      trivial
  · rw [hw]
    trivial

theorem Agrees.negate {e : Expr} {x : Option Float} (agrees : Agrees e.calculate x) :
    Agrees (Expr.negate e).calculate (x.map Neg.neg) := by
  rw [Expr.calculate]
  rcases agrees.cases with ⟨v, x, hv, rfl, finite, alike⟩ | ⟨w, hw, rfl⟩
  · rw [hv]
    have finite : (-v).isFinite = true := by rw [isFinite_neg, finite]
    show Agrees (DiceFormula.finite (-v) _) (some (-x))
    rw [DiceFormula.finite, if_pos finite]
    exact agrees_ok finite alike.neg
  · rw [hw]
    trivial

theorem Agrees.number {x : Float} (finite : x.isFinite = true) {y : Float} (alike : Alike x y) :
    Agrees (Expr.number x).calculate (some y) := by
  rw [Expr.calculate, DiceFormula.finite, if_pos finite]
  exact agrees_ok finite alike

/-! ## Parts of expressions -/

/-- The marks are a part of an expression that comes to a value, or to none. -/
def Calculates (part : Part) (ms : List Spaced) (x : Option Float) : Prop :=
  ∃ e, Reads part ms [e] ∧ Agrees e.calculate x

namespace Calculates

variable {m : Spaced} {ms ms' : List Spaced} {x y : Option Float}

theorem group (m close : Spaced) (opens : m.mark = .opening) (closes : close.mark = .closing)
    (inner : Calculates .sum ms x) : Calculates .atom (m :: ms ++ [close]) x := by
  obtain ⟨e, reads, agrees⟩ := inner
  exact ⟨e, .group opens closes reads, agrees⟩

theorem unsigned (atom : Calculates .atom ms x) : Calculates .signed ms x := by
  obtain ⟨e, reads, agrees⟩ := atom
  exact ⟨e, .unsigned reads, agrees⟩

theorem plus (m : Spaced) (sign : m.mark = .operator .add) (signed : Calculates .signed ms x) :
    Calculates .signed (m :: ms) x := by
  obtain ⟨e, reads, agrees⟩ := signed
  exact ⟨e, .plus sign reads, agrees⟩

theorem minus (m : Spaced) (sign : m.mark = .operator .subtract) (signed : Calculates .signed ms x) :
    Calculates .signed (m :: ms) (x.map Neg.neg) := by
  obtain ⟨e, reads, agrees⟩ := signed
  exact ⟨.negate e, .minus sign reads, agrees.negate⟩

theorem factor (signed : Calculates .signed ms x) : Calculates .product ms x := by
  obtain ⟨e, reads, agrees⟩ := signed
  exact ⟨e, .factor reads, agrees⟩

theorem product {op : Operator} (between : m.mark = .operator op)
    (belongs : op.isMultiplicative = true) (left : Calculates .product ms x)
    (right : Calculates .signed ms' y) : Calculates .product (ms ++ m :: ms') (combine op x y) := by
  obtain ⟨a, readsA, agreesA⟩ := left
  obtain ⟨b, readsB, agreesB⟩ := right
  exact ⟨.binary op a b, .product between belongs readsA readsB, agreesA.binary op agreesB⟩

theorem summand (product : Calculates .product ms x) : Calculates .sum ms x := by
  obtain ⟨e, reads, agrees⟩ := product
  exact ⟨e, .summand reads, agrees⟩

theorem sum {op : Operator} (between : m.mark = .operator op) (belongs : op.isAdditive = true)
    (left : Calculates .sum ms x) (right : Calculates .product ms' y) :
    Calculates .sum (ms ++ m :: ms') (combine op x y) := by
  obtain ⟨a, readsA, agreesA⟩ := left
  obtain ⟨b, readsB, agreesB⟩ := right
  exact ⟨.binary op a b, .sum between belongs readsA readsB, agreesA.binary op agreesB⟩

end Calculates

/-! ## One step after the other -/

/-- What the held sum and the product so far come to, unless one is missing. -/
def settleAll (held : Option (Option Float × Operator)) (x : Option Float) : Option Float :=
  match held with
  | none => x
  | some (sum, op) => combine op sum x

/-- The marks so far are a product, or a sum, a weak operator and a product. -/
def Standing (ms : List Spaced) (held : Option (Option Float × Operator)) (x : Option Float) :
    Prop :=
  match held with
  | none => Calculates .product ms x
  | some (sum, op) => ∃ front m back, ms = front ++ m :: back ∧ m.mark = .operator op ∧
      op.isAdditive = true ∧ Calculates .sum front sum ∧ Calculates .product back x

namespace Standing

variable {ms ms' : List Spaced} {held : Option (Option Float × Operator)}
  {x y : Option Float} {op : Operator}

theorem settles (standing : Standing ms held x) : Calculates .sum ms (settleAll held x) := by
  cases held with
  | none => exact standing.summand
  | some held =>
      obtain ⟨front, m, back, rfl, between, belongs, left, right⟩ := standing
      exact left.sum between belongs right

theorem times (m : Spaced) (standing : Standing ms held x) (between : m.mark = .operator op)
    (belongs : op.isMultiplicative = true) (operand : Calculates .signed ms' y) :
    Standing (ms ++ m :: ms') held (combine op x y) := by
  cases held with
  | none => exact Calculates.product between belongs standing operand
  | some held =>
      obtain ⟨front, weak, back, rfl, hWeak, additive, left, right⟩ := standing
      exact ⟨front, weak, back ++ m :: ms', by simp, hWeak, additive, left,
        right.product between belongs operand⟩

theorem plus (m : Spaced) (standing : Standing ms held x) (between : m.mark = .operator op)
    (belongs : op.isAdditive = true) (operand : Calculates .signed ms' y) :
    Standing (ms ++ m :: ms') (some (settleAll held x, op)) y :=
  ⟨ms, m, ms', rfl, between, belongs, standing.settles, operand.factor⟩

end Standing

end DiceFormula.Arithmetic
