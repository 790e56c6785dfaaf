/-
# DiceFormula.Proofs.Roll.Order -- the order in which dice are rolled

The dice in the groups of a formula are rolled before its own, and either from left to right.
`Term.order` lists the dice of a formula so, and knows nothing of faces or rollers.

A computation `Rolls` dice if these are what it adds to the log; one that fails may add the first
of them only.  Evaluating a formula without fragments rolls its `order` (`rolls_evaluate`,
`evaluate_order`).  A fragment is read together with the values beside it, so it depends on them
which dice it turns out to be.
-/
import DiceFormula.Proofs.Roll.Waiting

namespace DiceFormula

set_option autoImplicit false

/-! ## The order -/

namespace Term

/-- The dice that a term is. -/
def own : Term → List Dice
  | dice rolled _ _ => [rolled.dice]
  | _ => []

/-- Whether the term is dice that were rolled. -/
def isRolled : Term → Bool
  | dice _ evaluated _ => evaluated
  | _ => false

/-- The dice among terms. -/
def ownDice (ts : List Term) : List Dice := ts.flatMap own

mutual

/-- The dice of the formulas in a term. -/
def inside : Term → List Dice
  | pool members _ _ _ _ => orderLists members
  | call _ args _ => orderLists args
  | group inner _ => insideAll inner ++ ownDice inner
  | _ => []

def insideAll : List Term → List Dice
  | [] => []
  | t :: rest => inside t ++ insideAll rest

def orderLists : List (List Term) → List Dice
  | [] => []
  | ts :: rest => insideAll ts ++ ownDice ts ++ orderLists rest

end

/-- The dice of a formula: first those in its groups, then its own. -/
def order (ts : List Term) : List Dice := insideAll ts ++ ownDice ts

theorem orderLists_eq (lists : List (List Term)) : orderLists lists = lists.flatMap order := by
  induction lists with
  | nil => rfl
  | cons ts rest ih =>
      rw [orderLists, ih]
      rfl

theorem inside_eq (t : Term) : t.inside = t.inner.flatMap order := by
  cases t with
  | pool members => exact orderLists_eq members
  | call f args => exact orderLists_eq args
  | group us =>
      rw [inside, inner, List.flatMap_singleton]
      rfl
  | _ => rfl

/-- The order of a formula from those of the formulas in it. -/
theorem order_eq (ts : List Term) :
    order ts = (ts.flatMap fun t => t.inner.flatMap order) ++ ts.flatMap own := by
  have all : insideAll ts = ts.flatMap fun t => t.inner.flatMap order := by
    induction ts with
    | nil => rfl
    | cons t rest ih => rw [insideAll, List.flatMap_cons, inside_eq, ih]
  rw [order, all]
  rfl

/-- Operators are no dice. -/
theorem ownDice_operators {ps : List Piece} (operators : ∀ p ∈ ps, p.term.isOperator = true) :
    ownDice (Piece.terms ps) = [] := by
  rw [ownDice, Piece.terms, List.flatMap_map, List.flatMap_eq_nil_iff]
  intro p mem
  have operator := operators p mem
  cases kind : p.term with
  | operator => rfl
  | _ => rw [kind] at operator; cases operator

theorem ownDice_stripStray (ts : List Term) :
    ownDice (Piece.terms (Piece.stripStray (Piece.ofTerms ts))) = ownDice ts := by
  obtain ⟨front, behind, whole, stray⟩ := Piece.exists_stray (Piece.ofTerms ts)
  obtain ⟨strayFront, strayBehind⟩ := List.forall_mem_append.1 stray
  have split := congrArg (fun ps => ownDice (Piece.terms ps)) whole
  have append (ps qs : List Piece) : ownDice (Piece.terms (ps ++ qs)) =
      ownDice (Piece.terms ps) ++ ownDice (Piece.terms qs) := by
    simp [ownDice, Piece.terms]
  rw [append, append, ownDice_operators strayFront, ownDice_operators strayBehind,
    Piece.terms_ofTerms] at split
  simpa using split.symm

end Term

/-! ## Rolling in order -/

namespace Evaluation

open Term

/-- What the computation adds to the log are rolls of these dice; if it fails, of the first of
them. -/
def Rolls {α : Type} (dice : List Dice) (x : Evaluation α) (s : Session) : Prop :=
  ∃ rolled, (x.run.run s).2.log = s.log ++ rolled ∧ rolled.map Rolled.dice <+: dice ∧
    ∀ a, (x.run.run s).1 = .ok a → rolled.map Rolled.dice = dice

variable {s : Session}

section Rolls

variable {α β : Type}

theorem rolls_nothing {x : Evaluation α} (same : (x.run.run s).2.log = s.log) : Rolls [] x s :=
  ⟨[], by rw [same, List.append_nil], List.prefix_rfl, fun _ _ => rfl⟩

theorem rolls_pure (a : α) : Rolls [] (pure a) s := rolls_nothing rfl

theorem rolls_ofCalc (x : Except CalcError α) : Rolls [] (ofCalc x) s := by
  cases x <;> exact rolls_nothing rfl

theorem rolls_rolling (term : String) (x : Rolling α) : Rolls [] (rolling term x) s := by
  refine rolls_nothing ?_
  rw [run_rolling]

theorem rolls_bind {dice dice' : List Dice} {x : Evaluation α} {k : α → Evaluation β}
    (first : Rolls dice x s)
    (rest : ∀ a s', x.run.run s = (.ok a, s') → Rolls dice' (k a) s') :
    Rolls (dice ++ dice') (x >>= k) s := by
  obtain ⟨rolled, logged, some, all⟩ := first
  rcases outcome : x.run.run s with ⟨e | a, s'⟩
  · refine ⟨rolled, ?_, some.trans (List.prefix_append _ _), fun b ok => ?_⟩
    · rw [run_bind, outcome, ← logged, outcome]
    · rw [run_bind, outcome] at ok
      cases ok
  · obtain ⟨rolled', logged', some', all'⟩ := rest a s' outcome
    have whole := all a (by rw [outcome])
    rw [outcome] at logged
    refine ⟨rolled ++ rolled', ?_, ?_, fun b ok => ?_⟩
    · rw [run_bind, outcome]
      dsimp only
      rw [logged', logged, List.append_assoc]
    · rw [List.map_append, whole]
      exact (List.prefix_append_right_inj dice).2 some'
    · rw [run_bind, outcome] at ok
      rw [List.map_append, whole, all' b ok]

theorem rolls_first {dice : List Dice} {x : Evaluation α} {k : α → Evaluation β}
    (first : Rolls [] x s) (rest : ∀ a s', x.run.run s = (.ok a, s') → Rolls dice (k a) s') :
    Rolls dice (x >>= k) s :=
  rolls_bind first rest

theorem rolls_last {dice : List Dice} {x : Evaluation α} {k : α → Evaluation β}
    (first : Rolls dice x s) (rest : ∀ a s', Rolls [] (k a) s') : Rolls dice (x >>= k) s := by
  have whole := rolls_bind first fun a s' _ => rest a s'
  rwa [List.append_nil] at whole

end Rolls

/-! ## Dice -/

theorem rolls_rollDice {t : Term} (fresh : t.isRolled = false) : Rolls t.own (rollDice t) s := by
  unfold rollDice
  split
  · rename_i unrolled flavor
    refine rolls_first (rolls_rolling _ _) fun rolled s' outcome => ?_
    have same : rolled.dice = unrolled.dice := by
      rw [run_rolling] at outcome
      have ok := congrArg Prod.fst outcome
      dsimp only at ok
      split at ok
      · rename_i rolled' result
        cases ok
        exact Dice.dice_of_roll result
      · cases ok
      · cases ok
    have one : [rolled].map Rolled.dice = (Term.dice unrolled false flavor).own := by
      rw [List.map_singleton, same, own]
    exact ⟨[rolled], rfl, by rw [one], fun _ _ => one⟩
  · rename_i other
    have none : t.own = [] := by
      cases t with
      | dice rolled evaluated flavor =>
          cases evaluated with
          | false => exact absurd rfl (other rolled flavor)
          | true => cases fresh
      | _ => rfl
    rw [none]
    exact rolls_pure t

theorem rolls_rollAll {ts : List Term} (fresh : ∀ t ∈ ts, t.isRolled = false) :
    Rolls (ownDice ts) (rollAll ts) s := by
  induction ts generalizing s with
  | nil => exact rolls_pure []
  | cons t rest ih =>
      obtain ⟨first, others⟩ := List.forall_mem_cons.1 fresh
      exact rolls_bind (rolls_rollDice first) fun _ s' _ =>
        rolls_last (ih others) fun _ s'' => rolls_pure _

/-- Where there are no fragments, the dice are there before the formula is simplified. -/
theorem rolls_finish {ts : List Term} (settled : Settled ts)
    (fresh : ∀ t ∈ ts, t.isRolled = false) : Rolls (ownDice ts) (finish ts) s := by
  have kept : ∀ t ∈ Piece.terms (Piece.stripStray (Piece.ofTerms ts)), t.isRolled = false := by
    intro t mem
    obtain ⟨p, member, rfl⟩ := List.mem_map.1 mem
    exact Piece.all_ofTerms fresh p (Piece.mem_of_stripStray member)
  rw [finish, Piece.simplifyLate_settled (Piece.all_ofTerms settled)]
  refine rolls_first (rolls_pure _) fun ps s' same => ?_
  cases same
  rw [← ownDice_stripStray ts]
  exact rolls_last (rolls_rollAll kept) fun _ s'' =>
    rolls_last (rolls_ofCalc _) fun _ _ => rolls_pure _

/-! ## Groups -/

/-- Formulas whose dice are known before they are rolled. -/
def Known (ts : List Term) : Prop := Settled ts ∧ Unrolled ts

/-- The dice of terms are still the same once their groups are resolved. -/
theorem own_resolving {t t' : Term} (resolving : Resolving s t t') (settled : t.isFragment = false)
    (unrolled : t.isUnrolled = true) :
    t'.own = t.own ∧ t'.isFragment = false ∧ t'.isRolled = false := by
  cases resolving with
  | same other =>
      refine ⟨rfl, settled, ?_⟩
      cases t with
      | dice rolled evaluated flavor =>
          cases evaluated with
          | false => rfl
          | true => cases unrolled
      | _ => rfl
  | _ => exact ⟨rfl, rfl, rfl⟩

theorem own_resolveAll {ts ts' : List Term} (known : Known ts)
    (ok : ((resolveAll ts).run.run s).1 = .ok ts') :
    ownDice ts' = ownDice ts ∧ Settled ts' ∧ ∀ t ∈ ts', t.isRolled = false := by
  induction ts generalizing ts' s with
  | nil =>
      rw [resolveAll] at ok
      cases ok
      exact ⟨rfl, List.forall_mem_nil _, List.forall_mem_nil _⟩
  | cons t rest ih =>
      obtain ⟨settled, settledRest⟩ := List.forall_mem_cons.1 known.1
      obtain ⟨unrolled, unrolledRest⟩ := List.forall_mem_cons.1 known.2
      rw [resolveAll] at ok
      obtain ⟨t', s', first, ok⟩ := ok_of_run_bind ok
      obtain ⟨rest', s'', others, ok⟩ := ok_of_run_bind ok
      cases ok
      obtain ⟨dice, settled', fresh'⟩ :=
        own_resolving (resolving_resolve (congrArg Prod.fst first)) settled unrolled
      obtain ⟨diceRest, settledRest', freshRest'⟩ :=
        ih ⟨settledRest, unrolledRest⟩ (congrArg Prod.fst others)
      refine ⟨?_, List.forall_mem_cons.2 ⟨settled', settledRest'⟩,
        List.forall_mem_cons.2 ⟨fresh', freshRest'⟩⟩
      rw [ownDice, ownDice, List.flatMap_cons, List.flatMap_cons, dice]
      exact congrArg _ diceRest

/-- Once the groups of a formula are resolved, it rolls its own dice. -/
theorem rolls_resolved {ts ts' : List Term} {s' : Session} (known : Known ts)
    (resolved : (resolveAll ts).run.run s = (.ok ts', s')) : Rolls (ownDice ts) (finish ts') s' := by
  obtain ⟨dice, settled, fresh⟩ := own_resolveAll known (congrArg Prod.fst resolved)
  rw [← dice]
  exact rolls_finish settled fresh

theorem rolls_applyPool (modifiers : List Modifier) (results : List Die) :
    Rolls [] (applyPool modifiers results) s := by
  induction modifiers generalizing results s with
  | nil => exact rolls_pure results
  | cons m rest ih => exact rolls_first (rolls_rolling _ _) fun results' s' _ => ih results'

theorem rolls_evaluateLists {args : List (List Term)} (known : ∀ us ∈ args, Known us)
    (within : ∀ us ∈ args, ∀ s, Rolls (insideAll us) (resolveAll us) s) :
    Rolls (orderLists args) (evaluateLists args) s := by
  induction args generalizing s with
  | nil =>
      rw [evaluateLists]
      exact rolls_pure []
  | cons us rest ih =>
      obtain ⟨first, others⟩ := List.forall_mem_cons.1 known
      obtain ⟨withinFirst, withinOthers⟩ := List.forall_mem_cons.1 within
      rw [evaluateLists, orderLists, List.append_assoc]
      refine rolls_bind (withinFirst s) fun ts s' resolved => ?_
      refine rolls_bind (rolls_resolved first resolved) fun result s'' _ => ?_
      exact rolls_last (ih others withinOthers) fun _ _ => rolls_pure _

theorem rolls_resolve {t : Term} (known : ∀ us ∈ t.inner, Known us)
    (within : ∀ us ∈ t.inner, ∀ s, Rolls (insideAll us) (resolveAll us) s)
    (unrolled : t.isUnrolled = true) : Rolls t.inside (resolve t) s := by
  unfold resolve
  split
  · rename_i us flavor
    refine rolls_bind (within us List.mem_cons_self s) fun ts s' resolved => ?_
    exact rolls_last (rolls_resolved (known us List.mem_cons_self) resolved) fun _ _ => rolls_pure _
  · exact rolls_last (rolls_evaluateLists known within) fun _ _ =>
      rolls_first (rolls_ofCalc _) fun _ _ _ => rolls_pure _
  · exact rolls_last (rolls_evaluateLists known within) fun _ _ =>
      rolls_first (rolls_applyPool _ _) fun _ _ _ => rolls_pure _
  · rename_i group call pool
    have none : t.inside = [] := by
      cases t with
      | group us flavor => exact absurd rfl (group us flavor)
      | call f args flavor => exact absurd rfl (call f args flavor)
      | pool members modifiers results evaluated flavor =>
          cases evaluated with
          | false => exact absurd rfl (pool members modifiers results flavor)
          | true => cases unrolled
      | _ => rfl
    rw [none]
    exact rolls_pure t

theorem rolls_resolveAll {ts : List Term} (known : Everywhere Known ts) :
    Rolls (insideAll ts) (resolveAll ts) s := by
  induction known generalizing s with
  | @intro ts here inside ih =>
      have innerKnown : ∀ t ∈ ts, ∀ us ∈ t.inner, Known us :=
        fun t mem us member => (inside t mem us member).here
      have unrolled := here.2
      clear here inside
      induction ts generalizing s with
      | nil =>
          rw [resolveAll]
          exact rolls_pure []
      | cons t rest others =>
          obtain ⟨ihFirst, ihRest⟩ := List.forall_mem_cons.1 ih
          obtain ⟨knownFirst, knownRest⟩ := List.forall_mem_cons.1 innerKnown
          obtain ⟨unrolledFirst, unrolledRest⟩ := List.forall_mem_cons.1 unrolled
          rw [resolveAll, insideAll]
          refine rolls_bind ?_ fun t' s' _ => ?_
          · exact rolls_resolve knownFirst (fun us mem s => ihFirst us mem) unrolledFirst
          · exact rolls_last (others ihRest knownRest unrolledRest) fun _ _ => rolls_pure _

/-- A formula without fragments rolls its dice in order. -/
theorem rolls_evaluate {ts : List Term} (known : Everywhere Known ts) :
    Rolls (order ts) (evaluate ts) s :=
  rolls_bind (rolls_resolveAll known) fun _ _ resolved => rolls_resolved known.here resolved

end Evaluation

/-! ## Rolls -/

namespace Roll

open Term Evaluation

/-- **Which dice are rolled, and in which order, is known before a roller is.**  Where no fragment
waits, the dice of an evaluated roll are those of its formula in order; if the evaluation failed,
they are the first of them. -/
theorem evaluate_order {formula : String} {roll : Roll}
    (read : Formula.read formula = .ok roll.terms) (fresh : roll.evaluated = false)
    (settled : Everywhere Settled roll.terms) (roller : Roller) :
    (∀ total roll' roller', roll.evaluate roller = (.ok total, roll', roller') →
        roll'.dice.map Rolled.dice = order roll.terms) ∧
      ∀ e roll' roller', roll.evaluate roller = (.error e, roll', roller') →
        roll'.dice.map Rolled.dice <+: order roll.terms := by
  obtain ⟨rolled, logged, first, all⟩ : Rolls (order roll.terms) (Evaluation.evaluate roll.terms)
      ⟨roller, []⟩ := rolls_evaluate (settled.and (Formula.unrolled_read read))
  rw [List.nil_append] at logged
  constructor
  · intro total roll' roller' ok
    obtain ⟨ts, s, evaluates, rfl, -⟩ := evaluate_ok ok
    rw [evaluates] at logged all
    rw [show s.log = rolled from logged]
    exact all _ rfl
  · intro e roll' roller' failed
    obtain ⟨s, evaluates, rfl, -⟩ := evaluate_error fresh failed
    rw [evaluates] at logged
    rwa [show s.log = rolled from logged]

/-- A call in a group, a pool behind them, and dice in front of all. -/
theorem evaluate_order_nested :
    ∃ (roll roll' : Roll) (roller' : Roller) (total : Float),
      parse "1d20 + (1d4 + max(1d6, 1d8)) * \x7b2d10, (1d12)\x7dcs>1" = .ok roll ∧
        Everywhere Settled roll.terms ∧
          roll.evaluate (.lowest 7) = (.ok total, roll', roller') ∧
            roll'.dice.map Rolled.dice =
              [.plain 1 6, .plain 1 8, .plain 1 4, .plain 2 10, .plain 1 12, .plain 1 20] := by
  have reads : ∃ roll ∈
      (parse "1d20 + (1d4 + max(1d6, 1d8)) * \x7b2d10, (1d12)\x7dcs>1").toOption,
      Everywhere Settled roll.terms ∧ (roll.evaluate (.lowest 7)).1.toOption.isSome = true ∧
        order roll.terms =
          [.plain 1 6, .plain 1 8, .plain 1 4, .plain 2 10, .plain 1 12, .plain 1 20] := by
    decide +kernel
  obtain ⟨roll, parsed, settled, ends, dice⟩ := reads
  obtain ⟨read, -, fresh⟩ := parse_ok (eq_ok_of_toOption parsed)
  rcases outcome : roll.evaluate (.lowest 7) with ⟨e | total, roll', roller'⟩
  · rw [outcome] at ends
    cases ends
  · have rolled := (evaluate_order read fresh settled (.lowest 7)).1 total roll' roller' outcome
    exact ⟨roll, roll', roller', total, eq_ok_of_toOption parsed, settled, outcome, rolled.trans dice⟩

end Roll

end DiceFormula
