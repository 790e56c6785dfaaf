/-
# DiceFormula.Proofs.Roll.Complete -- what is left of a formula that was evaluated

The terms of a roll that was evaluated are `Complete`, and so are the members of the pools among
them: every dice are rolled and every pool is scored, nothing is left of groups, calls and
fragments, and no operator stands at an end but a minus sign in front (`evaluate_complete`).

Each stage of an evaluation does its part.  Resolving terms leaves none that holds a formula but
pools (`resolved_resolveAll`); settling them leaves no fragments, and stripping no stray operators
(`settled_simplifyLate`, `ends_simplifyLate`); and rolling the rest leaves no dice
(`evaluated_of_falls`).
-/
import DiceFormula.Proofs.Dice.Selective
import DiceFormula.Proofs.Roll.Adjacent
import DiceFormula.Proofs.Roll.Waiting

namespace DiceFormula

set_option autoImplicit false

/-! ## Complete formulas -/

namespace Term

/-- A member of a pool and its die, which fell with the total of the member, and which no modifier
added or changed. -/
def Scores (member : List Term) (die : Die) : Prop :=
  ∃ total, totalAll member = .ok total ∧ die.value = (Evaluation.poolDie total).value ∧
    die.isInitial = true ∧ die.isChanged = false

/-- A term that has a value, or an operator. -/
inductive Evaluated : Term → Prop
  | number (value : Float) (flavor : Option String) : Evaluated (.number value flavor)
  | operator (op : Operator) : Evaluated (.operator op)
  | dice (rolled : Rolled) (flavor : Option String) : Evaluated (.dice rolled true flavor)
  | pool {members : List (List Term)} {results : List Die} (modifiers : List Modifier)
      (flavor : Option String) (scored : List.Forall₂ Scores members results) :
      Evaluated (.pool members modifiers results true flavor)

/-- Terms that nothing more can be done with. -/
structure Complete (ts : List Term) : Prop where
  nonempty : ts ≠ []
  evaluated : ∀ t ∈ ts, Evaluated t
  first : ∀ op, ts.head? = some (.operator op) → op = .subtract
  last : ∀ op, ts.getLast? ≠ some (.operator op)

/-- A term whose groups were evaluated, but its own dice not yet. -/
inductive Resolved : Term → Prop
  | number (value : Float) (flavor : Option String) : Resolved (.number value flavor)
  | operator (op : Operator) : Resolved (.operator op)
  | fragment (text : String) : Resolved (.fragment text)
  | dice (rolled : Rolled) (evaluated : Bool) (flavor : Option String) :
      Resolved (.dice rolled evaluated flavor)
  | pool {members : List (List Term)} {results : List Die} (modifiers : List Modifier)
      (flavor : Option String) (scored : List.Forall₂ Scores members results)
      (inside : ∀ us ∈ members, Everywhere Complete us) :
      Resolved (.pool members modifiers results true flavor)

end Term

open Term

/-! ## Simplifying -/

namespace Piece

theorem lasting_resolved : Lasting Resolved := by
  refine ⟨fun leaf => ?_, fun _ _ _ => .fragment _⟩
  cases leaf with
  | number value flavor => exact .number value flavor
  | dice admitted flavor => exact .dice _ _ flavor

theorem leaf_settleLate {p q : Piece} (ok : settleLate p = .ok q) :
    (q = p ∧ p.term.isFragment = false) ∨ Leaf q.term := by
  unfold settleLate at ok
  split at ok
  · rename_i text fragment
    split at ok
    · rename_i t classified
      cases ok
      exact .inr (Fragment.leaf_classify classified)
    · cases ok
  · rename_i other
    cases ok
    refine .inl ⟨rfl, ?_⟩
    cases kind : p.term with
    | fragment text => exact absurd kind (other text)
    | _ => rfl

/-- What lasts is left, and no fragments. -/
theorem settled_simplifyLate {P : Term → Prop} (lasting : Lasting P) {ps qs : List Piece}
    (all : All P ps) (ok : simplifyLate ps = .ok qs) :
    All (fun t => P t ∧ t.isFragment = false) qs := by
  obtain ⟨settled, settles, rfl⟩ := ok_of_simplifyLate ok
  intro q mem
  obtain ⟨p, member, late⟩ := forall₂_mem_right (mapM_ok_iff.1 settles) (mem_of_stripStray mem)
  have holds : P p.term := all_merge lasting all p member
  rcases leaf_settleLate late with ⟨rfl, plain⟩ | leaf
  · exact ⟨holds, plain⟩
  · exact ⟨lasting.leaf leaf, leaf.isFragment⟩

/-- No operators are left at the ends but a minus sign in front. -/
theorem ends_simplifyLate {ps qs : List Piece} (ok : simplifyLate ps = .ok qs) (op : Operator) :
    ((terms qs).head? = some (.operator op) → op = .subtract) ∧
      (terms qs).getLast? ≠ some (.operator op) := by
  obtain ⟨settled, -, rfl⟩ := ok_of_simplifyLate ok
  constructor
  · intro first
    rw [terms, List.head?_map] at first
    obtain ⟨p, head, operator⟩ := Option.map_eq_some_iff.1 first
    have sign := first_stripStray head
    rw [isStrayAtStart, operator] at sign
    simpa using sign
  · intro last
    rw [terms, List.getLast?_map] at last
    obtain ⟨p, behind, operator⟩ := Option.map_eq_some_iff.1 last
    have operand := last_stripStray behind
    rw [operator] at operand
    cases operand

end Piece

namespace Evaluation

/-! ## Rolling -/

/-- What becomes of a term when dice are rolled. -/
inductive Falls : Term → Term → Prop
  | dice (unrolled rolled : Rolled) (flavor : Option String) :
      Falls (.dice unrolled false flavor) (.dice rolled true flavor)
  | other {t : Term} (other : ∀ unrolled flavor, t ≠ .dice unrolled false flavor) : Falls t t

theorem falls_rollDice {t t' : Term} {s : Session} (ok : ((rollDice t).run.run s).1 = .ok t') :
    Falls t t' := by
  unfold rollDice at ok
  split at ok
  · obtain ⟨rolled, s', -, ok⟩ := ok_of_run_bind ok
    cases ok
    exact .dice _ _ _
  · rename_i other
    cases ok
    exact .other other

theorem falls_rollAll {ts ts' : List Term} {s : Session}
    (ok : ((rollAll ts).run.run s).1 = .ok ts') : List.Forall₂ Falls ts ts' := by
  induction ts generalizing ts' s with
  | nil =>
      cases ok
      exact .nil
  | cons t rest ih =>
      obtain ⟨t', s', first, ok⟩ := ok_of_run_bind ok
      obtain ⟨rest', s'', others, ok⟩ := ok_of_run_bind ok
      cases ok
      exact .cons (falls_rollDice (congrArg Prod.fst first)) (ih (congrArg Prod.fst others))

theorem evaluated_of_falls {t t' : Term} (falls : Falls t t') (resolved : Resolved t)
    (plain : t.isFragment = false) : Evaluated t' ∧ ∀ us ∈ t'.inner, Everywhere Complete us := by
  cases falls with
  | dice => exact ⟨.dice _ _, List.forall_mem_nil _⟩
  | other other =>
      cases resolved with
      | number => exact ⟨.number _ _, List.forall_mem_nil _⟩
      | operator => exact ⟨.operator _, List.forall_mem_nil _⟩
      | fragment => cases plain
      | dice rolled evaluated flavor =>
          cases evaluated with
          | false => exact absurd rfl (other rolled flavor)
          | true => exact ⟨.dice _ _, List.forall_mem_nil _⟩
      | pool modifiers flavor scored inside => exact ⟨.pool modifiers flavor scored, inside⟩

/-- Rolling makes no operators. -/
theorem head_of_falls {ts ts' : List Term} (falls : List.Forall₂ Falls ts ts') {op : Operator}
    (head : ts'.head? = some (.operator op)) : ts.head? = some (.operator op) := by
  cases falls with
  | nil => cases head
  | cons first others =>
      cases head
      cases first with
      | other => rfl

theorem last_of_falls {ts ts' : List Term} (falls : List.Forall₂ Falls ts ts') {op : Operator}
    (last : ts'.getLast? = some (.operator op)) : ts.getLast? = some (.operator op) := by
  rw [← List.head?_reverse] at last ⊢
  exact head_of_falls (List.forall₂_reverse_iff.2 falls) last

/-! ## Finishing -/

/-- Nothing has no total. -/
theorem totalAll_nil (total : Float) : totalAll [] ≠ .ok total := by
  intro ok
  cases ok

/-- **Terms whose groups are resolved are complete once they are evaluated.** -/
theorem complete_finish {ts ts' : List Term} {total : Float} {s : Session}
    (resolved : ∀ t ∈ ts, Resolved t) (ok : ((finish ts).run.run s).1 = .ok (ts', total)) :
    Everywhere Complete ts' := by
  obtain ⟨ps, simplified, rolled, value⟩ := ok_of_finish ok
  have falls := falls_rollAll rolled
  have kept := Piece.settled_simplifyLate Piece.lasting_resolved (Piece.all_ofTerms resolved)
    simplified
  have each : ∀ t' ∈ ts', Evaluated t' ∧ ∀ us ∈ t'.inner, Everywhere Complete us := by
    intro t' mem
    obtain ⟨t, member, falls⟩ := forall₂_mem_right falls mem
    obtain ⟨p, origin, rfl⟩ := List.mem_map.1 member
    exact evaluated_of_falls falls (kept p origin).1 (kept p origin).2
  refine .intro ⟨?_, fun t mem => (each t mem).1, fun op first => ?_, fun op last => ?_⟩
    fun t mem => (each t mem).2
  · rintro rfl
    exact totalAll_nil _ value
  · exact (Piece.ends_simplifyLate simplified op).1 (head_of_falls falls first)
  · exact (Piece.ends_simplifyLate simplified op).2 (last_of_falls falls last)

/-! ## Groups -/

/-- Modifiers of pools only mark the members. -/
theorem marked_applyPool {modifiers : List Modifier}
    (selective : ∀ m ∈ modifiers, m.isSelective = true) {results dice : List Die} {s : Session}
    (ok : ((applyPool modifiers results).run.run s).1 = .ok dice) :
    List.Forall₂ Die.Marked results dice := by
  induction modifiers generalizing results s with
  | nil =>
      cases ok
      exact List.forall₂_same.2 fun d _ => Die.Marked.refl d
  | cons m rest ih =>
      obtain ⟨first, others⟩ := List.forall_mem_cons.1 selective
      obtain ⟨results', s', applied, ok⟩ := ok_of_run_bind ok
      have marked : List.Forall₂ Die.Marked results results' := by
        rw [run_rolling] at applied
        have result := congrArg Prod.fst applied
        dsimp only at result
        split at result
        · rename_i dice' ok'
          cases result
          exact Modifier.marked_apply first ok'
        · cases result
        · cases result
      exact Die.marked_all_trans marked (ih others ok)

/-- What a formula comes to is complete, and comes to its total. -/
def Comes (result : List Term × Float) : Prop :=
  Everywhere Complete result.1 ∧ totalAll result.1 = .ok result.2

/-- Pools are scored member by member. -/
theorem scores_applyPool {modifiers : List Modifier}
    (selective : ∀ m ∈ modifiers, m.isSelective = true) {results : List (List Term × Float)}
    (come : ∀ result ∈ results, Comes result) {dice : List Die} {s : Session}
    (ok : ((applyPool modifiers (results.map fun (_, total) => poolDie total)).run.run s).1 =
      .ok dice) : List.Forall₂ Scores (results.map Prod.fst) dice := by
  have marked := List.forall₂_map_left_iff.1 (marked_applyPool selective ok)
  rw [List.forall₂_map_left_iff]
  refine ((List.forall₂_and_left _ _).2 ⟨come, marked⟩).imp fun result die scored => ?_
  obtain ⟨⟨-, total⟩, value, added, changes⟩ := scored
  refine ⟨result.2, total, value, ?_, ?_⟩
  · rw [Die.isInitial, added]
    rfl
  · rw [Die.isChanged, changes]
    rfl

/-- Formulas come to complete ones if the groups in each are resolved. -/
theorem comes_evaluateLists {args : List (List Term)} {s : Session}
    (within : ∀ us ∈ args, ∀ s ts, ((resolveAll us).run.run s).1 = .ok ts → ∀ t ∈ ts, Resolved t)
    {results : List (List Term × Float)}
    (ok : ((evaluateLists args).run.run s).1 = .ok results) : ∀ result ∈ results, Comes result := by
  induction args generalizing results s with
  | nil =>
      rw [evaluateLists] at ok
      cases ok
      exact List.forall_mem_nil _
  | cons us rest ih =>
      obtain ⟨first, others⟩ := List.forall_mem_cons.1 within
      rw [evaluateLists] at ok
      obtain ⟨ts, s', resolved, ok⟩ := ok_of_run_bind ok
      obtain ⟨result, s'', finished, ok⟩ := ok_of_run_bind ok
      obtain ⟨results', s''', evaluated, ok⟩ := ok_of_run_bind ok
      cases ok
      have finished := congrArg Prod.fst finished
      have inside := first s ts (congrArg Prod.fst resolved)
      exact List.forall_mem_cons.2 ⟨⟨complete_finish inside finished, totalAll_of_finish finished⟩,
        ih others (congrArg Prod.fst evaluated)⟩

/-- A term that holds nothing to be resolved. -/
theorem resolved_alone {t : Term} (other : t.isGroup = false) (unrolled : t.isUnrolled = true) :
    Resolved t := by
  cases t with
  | number value flavor => exact .number value flavor
  | operator op => exact .operator op
  | dice rolled evaluated flavor => exact .dice rolled evaluated flavor
  | fragment text => exact .fragment text
  | pool members modifiers results evaluated flavor =>
      cases evaluated with
      | false => cases other
      | true => cases unrolled
  | group us flavor => cases other
  | call f args flavor => cases other

theorem resolved_resolve {t t' : Term} {s : Session} (selective : Selective [t])
    (unrolled : t.isUnrolled = true)
    (within : ∀ us ∈ t.inner, ∀ s ts, ((resolveAll us).run.run s).1 = .ok ts → ∀ u ∈ ts, Resolved u)
    (ok : ((resolve t).run.run s).1 = .ok t') : Resolved t' := by
  cases resolving_resolve ok with
  | group => exact .number _ _
  | call => exact .number _ _
  | pool inside scored =>
      have come := comes_evaluateLists within (congrArg Prod.fst inside)
      refine .pool _ _ (scores_applyPool ?_ come scored) fun us mem => ?_
      · exact selective _ _ _ _ _ List.mem_cons_self
      · obtain ⟨result, member, rfl⟩ := List.mem_map.1 mem
        exact (come result member).1
  | same other => exact resolved_alone other unrolled

/-- **Resolving leaves no groups and calls**, and pools whose members are complete. -/
theorem resolved_resolveAll {ts : List Term}
    (known : Everywhere (fun us => Selective us ∧ Unrolled us) ts) {ts' : List Term} {s : Session}
    (ok : ((resolveAll ts).run.run s).1 = .ok ts') : ∀ t ∈ ts', Resolved t := by
  induction known generalizing ts' s with
  | @intro ts here inside ih =>
      obtain ⟨selective, unrolled⟩ := here
      clear inside
      -- `ih` speaks of the formulas in the terms; the terms themselves are taken one by one
      induction ts generalizing ts' s with
      | nil =>
          rw [resolveAll] at ok
          cases ok
          exact List.forall_mem_nil _
      | cons t rest others =>
          obtain ⟨ihFirst, ihRest⟩ := List.forall_mem_cons.1 ih
          obtain ⟨selectiveFirst, selectiveRest⟩ := selective_cons.1 selective
          obtain ⟨unrolledFirst, unrolledRest⟩ := List.forall_mem_cons.1 unrolled
          rw [resolveAll] at ok
          obtain ⟨t', s', first, ok⟩ := ok_of_run_bind ok
          obtain ⟨rest', s'', behind, ok⟩ := ok_of_run_bind ok
          cases ok
          refine List.forall_mem_cons.2 ⟨?_, ?_⟩
          · exact resolved_resolve selectiveFirst unrolledFirst
              (fun us mem s ts ok => ihFirst us mem ok) (congrArg Prod.fst first)
          · exact others ihRest (congrArg Prod.fst behind) selectiveRest unrolledRest

end Evaluation

/-! ## Rolls -/

namespace Roll

open Evaluation

variable {formula : String} {roll roll' : Roll} {roller roller' : Roller} {total : Float}

/-- **Nothing is left to do once a formula is evaluated.**  Its terms are values and operators, with
operands at both ends, and every pool has a die for each member; and so it is in the members. -/
theorem evaluate_complete (read : Formula.read formula = .ok roll.terms)
    (ok : roll.evaluate roller = (.ok total, roll', roller')) : Everywhere Complete roll'.terms := by
  obtain ⟨ts, s, evaluates, rfl, -⟩ := evaluate_ok ok
  obtain ⟨resolved, s', inside, finished⟩ := ok_of_run_bind (congrArg Prod.fst evaluates)
  have known := (selective_read read).and (Formula.unrolled_read read)
  exact complete_finish (resolved_resolveAll known (congrArg Prod.fst inside)) finished

/-- A pool in a pool, dice that wait for a group, and an operator too much at the end. -/
theorem evaluate_complete_nested :
    ∃ (roll roll' : Roll) (roller' : Roller) (total : Float),
      Formula.read "-\x7b1d6 + \x7b1d4, 2\x7dcs>0, (1d2)d8\x7dcs>1 * max(1d20, 3) +" =
          .ok roll.terms ∧
        roll.evaluate (.lowest 5) = (.ok total, roll', roller') ∧ Everywhere Complete roll'.terms := by
  have comes : ∃ ts ∈ (Formula.read
      "-\x7b1d6 + \x7b1d4, 2\x7dcs>0, (1d2)d8\x7dcs>1 * max(1d20, 3) +").toOption,
      ((ofTerms ts).evaluate (.lowest 5)).1.toOption.isSome = true := by
    decide +kernel
  obtain ⟨ts, read, ends⟩ := comes
  rcases outcome : (ofTerms ts).evaluate (.lowest 5) with ⟨e | total, roll', roller'⟩
  · rw [outcome] at ends
    cases ends
  · exact ⟨ofTerms ts, roll', roller', total, eq_ok_of_toOption read, outcome,
      evaluate_complete (eq_ok_of_toOption read) outcome⟩

end Roll

end DiceFormula
