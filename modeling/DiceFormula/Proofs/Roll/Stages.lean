/-
# DiceFormula.Proofs.Roll.Stages -- induction over evaluations

A formula is evaluated from the inside out.  First its groups, calls and pools are resolved, each
by evaluating the formulas in it, and then the terms that this makes are finished.

`Stages` says of each of these stages what it makes of what it is given, which sessions it leaves
and how it may fail.  What the stages agree on holds of the evaluation of every formula, however
deep its groups are nested (`Stages.evaluate`).
-/
import DiceFormula.Proofs.Roll.Waiting

namespace DiceFormula

set_option autoImplicit false

open Term

namespace Evaluation

/-! ## Steps -/

section Steps

variable {α : Type} {S : Session → Prop} {E : RollError → Session → Prop}

theorem leads_ofFormat {x : Except FormatError α} (allowed : ∀ e s, S s → E (.format e) s) :
    Leads S (fun a s => S s ∧ x = .ok a) E (ofFormat x) := by
  cases x with
  | ok a => exact leads_pure fun s kept => ⟨kept, rfl⟩
  | error e => exact leads_throw (allowed e)

theorem leads_ofCalc {x : Except CalcError α}
    (allowed : ∀ e, x = .error e → ∀ s, S s → E (.calc e) s) :
    Leads S (fun a s => S s ∧ x = .ok a) E (ofCalc x) := by
  cases x with
  | ok a => exact leads_pure fun s kept => ⟨kept, rfl⟩
  | error e => exact leads_throw (allowed e rfl)

/-- Rolling on behalf of a term fails for what fails in it. -/
theorem leads_rolling {Q : α → Session → Prop} {term : String} {x : Rolling α}
    (comes : ∀ s, S s → match x.run.run s.roller with
      | (.ok a, roller) => Q a { s with roller := roller }
      | (.error (.error e), roller) => E (.dice term e) { s with roller := roller }
      | (.error (.fault f), roller) => E (.fault f) { s with roller := roller }) :
    Leads S Q E (rolling term x) := by
  intro s kept
  have outcome := comes s kept
  rw [run_rolling]
  revert outcome
  rcases x.run.run s.roller with ⟨(e | f) | a, roller⟩ <;> exact id

end Steps

/-! ## Stages -/

/-- What the stages of an evaluation make: the terms that a formula is read with are its `Own`,
and those that they are resolved to are `Kept`; the formula `Comes` to terms and a total. -/
structure Stages (Own Kept : Term → Prop) (Comes : List Term × Float → Prop)
    (S : Session → Prop) (E : RollError → Session → Prop) : Prop where
  other : ∀ {t : Term}, t.isGroup = false → Own t → Kept t
  /-- groups and calls become numbers -/
  number : ∀ (x : Float) (flavor : Option String), Kept (.number x flavor)
  call : ∀ {f : MathFunction} {xs : List Float} {e : CalcError}, f.apply xs = .error e →
    ∀ s, S s → E (.calc e) s
  pool : ∀ {members : List (List Term)} {modifiers : List Modifier} {old : List Die}
    {flavor : Option String} {results : List (List Term × Float)},
    Own (.pool members modifiers old false flavor) → (∀ result ∈ results, Comes result) →
      Leads S (fun dice s => S s ∧ Kept (.pool (results.map Prod.fst) modifiers dice true flavor))
        E (applyPool modifiers (results.map fun (_, total) => poolDie total))
  finish : ∀ {ts : List Term}, (∀ t ∈ ts, Kept t) →
    Leads S (fun result s => S s ∧ Comes result) E (finish ts)

namespace Stages

variable {Own Kept : Term → Prop} {Comes : List Term × Float → Prop} {S : Session → Prop}
  {E : RollError → Session → Prop} (stages : Stages Own Kept Comes S E)
include stages

theorem evaluateLists {args : List (List Term)}
    (inside : ∀ us ∈ args, Leads S (fun ts s => S s ∧ ∀ t ∈ ts, Kept t) E (resolveAll us)) :
    Leads S (fun results s => S s ∧ ∀ result ∈ results, Comes result) E (evaluateLists args) := by
  induction args with
  | nil =>
      rw [Evaluation.evaluateLists]
      exact leads_pure fun s kept => ⟨kept, List.forall_mem_nil _⟩
  | cons us rest ih =>
      obtain ⟨first, others⟩ := List.forall_mem_cons.1 inside
      rw [Evaluation.evaluateLists]
      refine leads_step first fun ts kept => leads_step (stages.finish kept) fun result comes => ?_
      exact leads_step (ih others) fun results all =>
        leads_pure fun s kept => ⟨kept, List.forall_mem_cons.2 ⟨comes, all⟩⟩

/-- A term is resolved once the formulas in it are. -/
theorem resolve {t : Term} (own : Own t)
    (inside : ∀ us ∈ t.inner,
      Leads S (fun ts s => S s ∧ ∀ t ∈ ts, Kept t) E (resolveAll us)) :
    Leads S (fun t' s => S s ∧ Kept t') E (resolve t) := by
  unfold Evaluation.resolve
  split
  · refine leads_step (inside _ List.mem_cons_self) fun ts kept => ?_
    exact leads_step (stages.finish kept) fun result _ =>
      leads_pure fun s kept => ⟨kept, stages.number _ _⟩
  · refine leads_step (stages.evaluateLists inside) fun results _ => ?_
    exact leads_step (leads_ofCalc fun e failed => stages.call failed) fun total _ =>
      leads_pure fun s kept => ⟨kept, stages.number _ _⟩
  · refine leads_step (stages.evaluateLists inside) fun results comes => ?_
    exact leads_step (stages.pool own comes) fun dice scored =>
      leads_pure fun s kept => ⟨kept, scored⟩
  · rename_i group call pool
    exact leads_pure fun s kept => ⟨kept, stages.other (isGroup_of_other group call pool) own⟩

theorem resolveAll {ts : List Term} (known : Everywhere (fun us => ∀ t ∈ us, Own t) ts) :
    Leads S (fun ts' s => S s ∧ ∀ t ∈ ts', Kept t) E (resolveAll ts) := by
  induction known with
  | @intro ts here inside ih =>
      clear inside
      -- `ih` speaks of the formulas in the terms; the terms themselves are taken one by one
      induction ts with
      | nil =>
          rw [Evaluation.resolveAll]
          exact leads_pure fun s kept => ⟨kept, List.forall_mem_nil _⟩
      | cons t rest others =>
          obtain ⟨own, ownRest⟩ := List.forall_mem_cons.1 here
          obtain ⟨ihFirst, ihRest⟩ := List.forall_mem_cons.1 ih
          rw [Evaluation.resolveAll]
          refine leads_step (stages.resolve own ihFirst) fun t' first => ?_
          exact leads_step (others ownRest ihRest) fun rest' behind =>
            leads_pure fun s kept => ⟨kept, List.forall_mem_cons.2 ⟨first, behind⟩⟩

/-- **What the stages of an evaluation agree on holds of the evaluation of a formula.** -/
theorem evaluate {ts : List Term} (known : Everywhere (fun us => ∀ t ∈ us, Own t) ts) :
    Leads S (fun result s => S s ∧ Comes result) E (evaluate ts) :=
  leads_step (stages.resolveAll known) fun _ kept => stages.finish kept

end Stages

end Evaluation

end DiceFormula
