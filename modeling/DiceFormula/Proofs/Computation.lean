/-
# DiceFormula.Proofs.Computation -- computations that can fail

A computation gives a result or an error; one with a state keeps the state also when it fails.
The lemmas here take a computation that succeeds apart: a traversal into its elements
(`mapM_ok_iff`), and a sequence into its two parts (`run_bind`, `ok_of_run_bind`).

Of a computation with a state one may know what it `Yields` when it succeeds, and also how it
fails when it does (`Leads`).
-/
import Mathlib

namespace DiceFormula

set_option autoImplicit false

/-! ## Results -/

section Results

variable {ε α β : Type}

theorem toOption_map (f : α → β) (result : Except ε α) :
    (result.map f).toOption = result.toOption.map f := by
  cases result <;> rfl

theorem eq_ok_of_toOption {result : Except ε α} {a : α} (some : result.toOption = some a) :
    result = .ok a := by
  cases result with
  | ok b => exact congrArg _ (Option.some.inj some)
  | error e => cases some

theorem ok_of_map {f : α → β} {result : Except ε α} {b : β} (ok : result.map f = .ok b) :
    ∃ a, result = .ok a ∧ f a = b := by
  cases result with
  | ok a => exact ⟨a, rfl, Except.ok.inj ok⟩
  | error e => cases ok

theorem error_of_map {f : α → β} {result : Except ε α} {e : ε} (failed : result.map f = .error e) :
    result = .error e := by
  cases result with
  | ok a => cases failed
  | error e' => exact congrArg Except.error (Except.error.inj failed)

/-- A result that is there is no error. -/
theorem exists_ok {result : Except ε α} (isThere : result.toOption.isSome = true) :
    ∃ a, result = .ok a := by
  cases result with
  | ok a => exact ⟨a, rfl⟩
  | error e => cases isThere

/-! ## Traversals -/

/-- What comes last is related to something that came first. -/
theorem forall₂_mem_right {α β : Type} {R : α → β → Prop} {as : List α} {bs : List β}
    (all : List.Forall₂ R as bs) {b : β} (mem : b ∈ bs) : ∃ a ∈ as, R a b := by
  induction all with
  | nil => cases mem
  | cons first others ih =>
      rcases List.mem_cons.1 mem with rfl | mem
      · exact ⟨_, List.mem_cons_self, first⟩
      · obtain ⟨a, member, related⟩ := ih mem
        exact ⟨a, List.mem_cons_of_mem _ member, related⟩

theorem exists_forall₂ {α β : Type} {R : α → β → Prop} {as : List α} (each : ∀ a ∈ as, ∃ b, R a b) :
    ∃ bs, List.Forall₂ R as bs := by
  induction as with
  | nil => exact ⟨[], .nil⟩
  | cons a as ih =>
      obtain ⟨⟨b, first⟩, others⟩ := List.forall_mem_cons.1 each
      obtain ⟨bs, related⟩ := ih others
      exact ⟨b :: bs, .cons first related⟩

variable {f : α → Except ε β} {as : List α} {bs : List β}

/-- A traversal succeeds with what comes of each element. -/
theorem mapM_ok_iff : as.mapM f = .ok bs ↔ List.Forall₂ (fun a b => f a = .ok b) as bs := by
  induction as generalizing bs with
  | nil =>
      constructor
      · intro ok
        cases ok
        exact .nil
      · intro each
        cases each
        rfl
  | cons a as ih =>
      rw [List.mapM_cons]
      constructor
      · intro ok
        cases first : f a with
        | error e => rw [first] at ok; cases ok
        | ok b =>
            cases others : as.mapM f with
            | error e => rw [first, others] at ok; cases ok
            | ok bs' =>
                rw [first, others] at ok
                cases ok
                exact .cons first (ih.mp others)
      · intro each
        cases each with
        | cons first others =>
            rw [first, ih.mpr others]
            rfl

theorem ok_of_mapM (ok : as.mapM f = .ok bs) : ∀ a ∈ as, ∃ b, f a = .ok b := by
  have each := mapM_ok_iff.mp ok
  clear ok
  induction each with
  | nil => exact List.forall_mem_nil _
  | cons first others ih => exact List.forall_mem_cons.mpr ⟨⟨_, first⟩, ih⟩

/-- A traversal fails on account of an element. -/
theorem error_of_mapM {e : ε} (failed : as.mapM f = .error e) : ∃ a ∈ as, f a = .error e := by
  induction as with
  | nil => cases failed
  | cons a as ih =>
      rw [List.mapM_cons] at failed
      cases first : f a with
      | error e' =>
          rw [first] at failed
          cases failed
          exact ⟨a, List.mem_cons_self, first⟩
      | ok b =>
          cases others : as.mapM f with
          | ok bs => rw [first, others] at failed; cases failed
          | error e' =>
              rw [first, others] at failed
              cases failed
              obtain ⟨a', mem, error⟩ := ih others
              exact ⟨a', List.mem_cons_of_mem a mem, error⟩

/-- Traversals agree if they do on each element. -/
theorem mapM_congr {g : α → Except ε β} (each : ∀ a ∈ as, f a = g a) : as.mapM f = as.mapM g := by
  induction as with
  | nil => rfl
  | cons a as ih =>
      obtain ⟨first, others⟩ := List.forall_mem_cons.mp each
      rw [List.mapM_cons, List.mapM_cons, first, ih others]

theorem exists_mapM (each : ∀ a ∈ as, ∃ b, f a = .ok b) : ∃ bs, as.mapM f = .ok bs := by
  induction as with
  | nil => exact ⟨[], rfl⟩
  | cons a as ih =>
      obtain ⟨⟨b, first⟩, others⟩ := List.forall_mem_cons.mp each
      obtain ⟨bs, rest⟩ := ih others
      exact ⟨b :: bs, mapM_ok_iff.mpr (.cons first (mapM_ok_iff.mp rest))⟩

end Results

/-! ## States -/

section States

variable {ε σ α β : Type}

/-- A computation goes on from where the one before it succeeded. -/
theorem run_bind (x : ExceptT ε (StateM σ) α) (k : α → ExceptT ε (StateM σ) β) (s : σ) :
    (x >>= k).run.run s = match x.run.run s with
      | (.ok a, s') => (k a).run.run s'
      | (.error e, s') => (.error e, s') := by
  rw [ExceptT.run_bind, StateT.run_bind]
  show (match x.run.run s with | (result, s') => _) = _
  rcases x.run.run s with ⟨_ | _, _⟩ <;> rfl

/-- What a computation does may depend on the state it is in. -/
theorem run_get (k : σ → ExceptT ε (StateM σ) β) (s : σ) :
    ((get : ExceptT ε (StateM σ) σ) >>= k).run.run s = (k s).run.run s := by
  rw [run_bind]
  rfl

/-- A computation that succeeds did so in each of its parts. -/
theorem ok_of_run_bind {x : ExceptT ε (StateM σ) α} {k : α → ExceptT ε (StateM σ) β} {s : σ}
    {b : β} (ok : ((x >>= k).run.run s).1 = .ok b) :
    ∃ a s', x.run.run s = (.ok a, s') ∧ ((k a).run.run s').1 = .ok b := by
  rw [run_bind] at ok
  rcases first : x.run.run s with ⟨e | a, s'⟩
  · rw [first] at ok
    cases ok
  · rw [first] at ok
    exact ⟨a, s', rfl, ok⟩

theorem exists_of_run_bind {x : ExceptT ε (StateM σ) α} {k : α → ExceptT ε (StateM σ) β}
    {s s'' : σ} {b : β} (run : (x >>= k).run.run s = (.ok b, s'')) :
    ∃ a s', x.run.run s = (.ok a, s') ∧ (k a).run.run s' = (.ok b, s'') := by
  obtain ⟨a, s', first, -⟩ := ok_of_run_bind (congrArg Prod.fst run)
  rw [run_bind, first] at run
  exact ⟨a, s', first, run⟩

/-- A result that is there, as one of those that a computation can come to. -/
theorem ok_of_isSome {outcome : Except ε α × σ} (ends : outcome.1.toOption.isSome = true) :
    ∃ a, outcome = (.ok a, outcome.2) := by
  obtain ⟨a, ok⟩ := exists_ok ends
  exact ⟨a, Prod.ext ok rfl⟩

/-! ## Invariants -/

variable {S : σ → Prop} {P : α → Prop} {Q : β → Prop}

/-- From states of a kind the computation comes to no others, and to no results but of a kind. -/
def Yields (S : σ → Prop) (Q : β → Prop) (x : ExceptT ε (StateM σ) β) : Prop :=
  ∀ s, S s → S (x.run.run s).2 ∧ ∀ b, (x.run.run s).1 = .ok b → Q b

theorem yields_pure {b : β} (holds : Q b) : Yields S Q (pure b : ExceptT ε (StateM σ) β) := by
  refine fun s kept => ⟨kept, fun b' ok => ?_⟩
  cases ok
  exact holds

theorem yields_throw (e : ε) : Yields S Q (throw e : ExceptT ε (StateM σ) β) :=
  fun _ kept => ⟨kept, fun _ ok => by cases ok⟩

theorem yields_bind {x : ExceptT ε (StateM σ) α} {k : α → ExceptT ε (StateM σ) β}
    (first : Yields S P x) (rest : ∀ a, P a → Yields S Q (k a)) : Yields S Q (x >>= k) := by
  intro s kept
  obtain ⟨kept', holds⟩ := first s kept
  rw [run_bind]
  revert kept' holds
  rcases x.run.run s with ⟨result, s'⟩
  intro kept' holds
  cases result with
  | error e => exact ⟨kept', fun _ ok => by cases ok⟩
  | ok a => exact rest a (holds a rfl) s' kept'

theorem yields_get {k : σ → ExceptT ε (StateM σ) β} (rest : ∀ s, Yields S Q (k s)) :
    Yields S Q (get >>= k) := by
  intro s kept
  rw [run_get]
  exact rest s s kept

end States

/-! ## Outcomes -/

section Outcomes

variable {ε σ α β : Type} {S : σ → Prop} {P : α → σ → Prop} {Q Q' : β → σ → Prop}
  {E E' : ε → σ → Prop}

/-- From states of a kind the computation comes to results and states that belong together, and
fails with no errors and states but some. -/
def Leads (S : σ → Prop) (Q : β → σ → Prop) (E : ε → σ → Prop)
    (x : ExceptT ε (StateM σ) β) : Prop :=
  ∀ s, S s → match x.run.run s with
    | (.ok b, s') => Q b s'
    | (.error e, s') => E e s'

theorem leads_pure {b : β} (holds : ∀ s, S s → Q b s) :
    Leads S Q E (pure b : ExceptT ε (StateM σ) β) := holds

theorem leads_throw {e : ε} (allowed : ∀ s, S s → E e s) :
    Leads S Q E (throw e : ExceptT ε (StateM σ) β) := allowed

theorem leads_bind {x : ExceptT ε (StateM σ) α} {k : α → ExceptT ε (StateM σ) β}
    (first : Leads S P E x) (rest : ∀ a, Leads (P a) Q E (k a)) : Leads S Q E (x >>= k) := by
  intro s kept
  have holds := first s kept
  rw [run_bind]
  rcases result : x.run.run s with ⟨e | a, s'⟩
  · rw [result] at holds
    exact holds
  · rw [result] at holds
    exact rest a s' holds

/-- A sequence, the first part of which keeps the kind of the states. -/
theorem leads_step {R : α → Prop} {x : ExceptT ε (StateM σ) α} {k : α → ExceptT ε (StateM σ) β}
    (first : Leads S (fun a s => S s ∧ R a) E x) (rest : ∀ a, R a → Leads S Q E (k a)) :
    Leads S Q E (x >>= k) :=
  leads_bind first fun a s kept => rest a kept.2 s kept.1

namespace Leads

variable {x : ExceptT ε (StateM σ) β} (leads : Leads S Q E x)
include leads

theorem mono (wider : ∀ b s, Q b s → Q' b s) (worse : ∀ e s, E e s → E' e s) :
    Leads S Q' E' x := by
  intro s kept
  have holds := leads s kept
  rcases result : x.run.run s with ⟨e | b, s'⟩ <;> rw [result] at holds
  · exact worse e s' holds
  · exact wider b s' holds

theorem ok {s s' : σ} {b : β} (kept : S s) (run : x.run.run s = (.ok b, s')) : Q b s' := by
  have holds := leads s kept
  rwa [run] at holds

theorem error {s s' : σ} {e : ε} (kept : S s) (run : x.run.run s = (.error e, s')) : E e s' := by
  have holds := leads s kept
  rwa [run] at holds

end Leads

end Outcomes

end DiceFormula
