/-
# DiceFormula.Proofs.Roll.Waiting -- evaluating fragments that wait

A formula that was read can still turn out to be none, when a fragment that waits for groups is
merged with their values.  That cannot happen as long as the terms stand alone and the groups
beside fragments come to one (`evaluate_fits`), which is what the fragments were tried with.

What is asked of the groups is asked of this very run: `Throughout` goes along an evaluation and
says something of every formula in it whose groups are resolved on the way, and of what they are
resolved to.

Terms that do not stand alone can fail even then: the flavor of a group in front of a fragment
comes between the fragment and the group behind it (`evaluate_flavor_between`).
-/
import DiceFormula.Proofs.Formula.Waiting
import DiceFormula.Proofs.Roll.Drawn

namespace DiceFormula

set_option autoImplicit false

/-- Fragments that can be classified are settled when a formula is evaluated. -/
theorem Piece.ok_of_classifies {ps : List Piece} (classifies : Classifies ps) :
    ∃ qs, ps.mapM settleLate = .ok qs := by
  refine exists_mapM fun p mem => ?_
  unfold settleLate
  split
  · rename_i text fragment
    obtain ⟨t, classified⟩ := classifies p mem text fragment
    rw [classified]
    exact ⟨_, rfl⟩
  · exact ⟨p, rfl⟩

namespace Evaluation

open Term

/-! ## What terms are resolved to -/

/-- How a term was resolved. -/
inductive Resolving (s : Session) : Term → Term → Prop
  | group {us ts ts' : List Term} {flavor : Option String} {total : Float} {s' : Session}
      (inside : (resolveAll us).run.run s = (.ok ts, s'))
      (finished : ((finish ts).run.run s').1 = .ok (ts', total)) :
      Resolving s (.group us flavor) (.number total flavor)
  | call {f : MathFunction} {args : List (List Term)} {flavor : Option String}
      {results : List (List Term × Float)} {total : Float}
      (inside : ((evaluateLists args).run.run s).1 = .ok results) :
      Resolving s (.call f args flavor) (.number total flavor)
  | pool {members : List (List Term)} {modifiers : List Modifier} {old dice : List Die}
      {flavor : Option String} {results : List (List Term × Float)} {s' : Session}
      (inside : (evaluateLists members).run.run s = (.ok results, s'))
      (scored : ((applyPool modifiers (results.map fun (_, total) => poolDie total)).run.run s').1 =
        .ok dice) :
      Resolving s (.pool members modifiers old false flavor)
        (.pool (results.map Prod.fst) modifiers dice true flavor)
  | same {t : Term} (other : t.isGroup = false) : Resolving s t t

/-- A term that is left as it is when groups are resolved. -/
theorem isGroup_of_other {t : Term} (group : ∀ us flavor, t ≠ .group us flavor)
    (call : ∀ f args flavor, t ≠ .call f args flavor)
    (pool : ∀ members modifiers old flavor, t ≠ .pool members modifiers old false flavor) :
    t.isGroup = false := by
  cases t with
  | group us flavor => exact absurd rfl (group us flavor)
  | call f args flavor => exact absurd rfl (call f args flavor)
  | pool members modifiers results evaluated flavor =>
      cases evaluated with
      | false => exact absurd rfl (pool members modifiers results flavor)
      | true => rfl
  | _ => rfl

theorem resolving_resolve {t t' : Term} {s : Session} (ok : ((resolve t).run.run s).1 = .ok t') :
    Resolving s t t' := by
  unfold resolve at ok
  split at ok
  · obtain ⟨ts, s', inside, ok⟩ := ok_of_run_bind ok
    obtain ⟨⟨ts', total⟩, s'', finished, ok⟩ := ok_of_run_bind ok
    cases ok
    exact .group inside (congrArg Prod.fst finished)
  · obtain ⟨results, s', inside, ok⟩ := ok_of_run_bind ok
    obtain ⟨total, s'', -, ok⟩ := ok_of_run_bind ok
    cases ok
    exact .call (congrArg Prod.fst inside)
  · obtain ⟨results, s', inside, ok⟩ := ok_of_run_bind ok
    obtain ⟨dice, s'', scored, ok⟩ := ok_of_run_bind ok
    cases ok
    exact .pool inside (congrArg Prod.fst scored)
  · rename_i group call pool
    cases ok
    exact .same (isGroup_of_other group call pool)

theorem resolves_resolve {t t' : Term} {s : Session} (ok : ((resolve t).run.run s).1 = .ok t') :
    Resolves t t' := by
  cases resolving_resolve ok with
  | same other => exact ⟨rfl, id, fun _ => rfl⟩
  | _ => exact ⟨rfl, fun _ => rfl, fun group => by cases group⟩

theorem resolves_resolveAll {ts ts' : List Term} {s : Session}
    (ok : ((resolveAll ts).run.run s).1 = .ok ts') : List.Forall₂ Resolves ts ts' := by
  induction ts generalizing ts' s with
  | nil =>
      rw [resolveAll] at ok
      cases ok
      exact .nil
  | cons t rest ih =>
      rw [resolveAll] at ok
      obtain ⟨t', s', first, ok⟩ := ok_of_run_bind ok
      obtain ⟨rest', s'', others, ok⟩ := ok_of_run_bind ok
      cases ok
      exact .cons (resolves_resolve (by rw [first])) (ih (by rw [others]))

/-! ## Along an evaluation -/

section Along

variable (P : List Term → List Term → Prop)

mutual

/-- What holds of the formulas in a term, while it is resolved. -/
def Along : Term → Session → Prop
  | .group us _, s =>
      AlongAll us s ∧ ∀ ts s', (resolveAll us).run.run s = (.ok ts, s') → P us ts
  | .call _ args _, s => AlongLists args s
  | .pool members _ _ false _, s => AlongLists members s
  | _, _ => True

/-- What holds of the formulas in terms, while they are resolved one after the other. -/
def AlongAll : List Term → Session → Prop
  | [], _ => True
  | t :: rest, s =>
      Along t s ∧ ∀ t' s', (resolve t).run.run s = (.ok t', s') → AlongAll rest s'

/-- What holds of formulas that are evaluated one after the other, and of those in them. -/
def AlongLists : List (List Term) → Session → Prop
  | [], _ => True
  | terms :: rest, s =>
      AlongAll terms s ∧ ∀ ts s', (resolveAll terms).run.run s = (.ok ts, s') → P terms ts ∧
        ∀ result s'', (finish ts).run.run s' = (.ok result, s'') → AlongLists rest s''

end

/-- What holds of every formula that is resolved while a formula is evaluated, and of what it is
resolved to. -/
def Throughout (terms : List Term) (s : Session) : Prop :=
  AlongAll P terms s ∧ ∀ ts s', (resolveAll terms).run.run s = (.ok ts, s') → P terms ts

end Along

/-! ## Errors -/

/-- The computation does not find that the formula is none. -/
def Fits {α : Type} (x : Evaluation α) (s : Session) : Prop :=
  ∀ e, (x.run.run s).1 ≠ .error (.format e)

section Fits

variable {α β : Type} {s : Session}

theorem fits_pure (a : α) : Fits (pure a) s := by
  intro e failed
  cases failed

theorem fits_ofCalc (x : Except CalcError α) : Fits (ofCalc x) s := by
  intro e failed
  cases x <;> cases failed

theorem fits_rolling (term : String) (x : Rolling α) : Fits (rolling term x) s := by
  intro e failed
  rw [run_rolling] at failed
  dsimp only at failed
  split at failed <;> cases failed

theorem fits_bind {x : Evaluation α} {k : α → Evaluation β} (first : Fits x s)
    (rest : ∀ a s', x.run.run s = (.ok a, s') → Fits (k a) s') : Fits (x >>= k) s := by
  intro e failed
  rw [run_bind] at failed
  rcases result : x.run.run s with ⟨e' | a, s'⟩
  · rw [result] at failed
    cases failed
    exact first e (by rw [result])
  · rw [result] at failed
    exact rest a s' result e failed

end Fits

theorem fits_rollDice (t : Term) (s : Session) : Fits (rollDice t) s := by
  unfold rollDice
  split
  · refine fits_bind (fits_rolling _ _) fun rolled s' _ => ?_
    intro e failed
    cases failed
  · exact fits_pure _

theorem fits_rollAll (ts : List Term) (s : Session) : Fits (rollAll ts) s := by
  induction ts generalizing s with
  | nil => exact fits_pure _
  | cons t rest ih =>
      exact fits_bind (fits_rollDice t s) fun _ s' _ =>
        fits_bind (ih s') fun _ _ _ => fits_pure _

theorem fits_applyPool (modifiers : List Modifier) (results : List Die) (s : Session) :
    Fits (applyPool modifiers results) s := by
  induction modifiers generalizing results s with
  | nil => exact fits_pure _
  | cons m rest ih => exact fits_bind (fits_rolling _ _) fun results' s' _ => ih results' s'

/-- Where all fragments can be classified, evaluation finds that too. -/
theorem fits_finish {ts : List Term}
    (classifies : Piece.Classifies (Piece.merge (Piece.ofTerms ts))) (s : Session) :
    Fits (finish ts) s := by
  obtain ⟨ps, settles⟩ := Piece.ok_of_classifies classifies
  have simplified : Piece.simplifyLate (Piece.ofTerms ts) = .ok (Piece.stripStray ps) := by
    rw [Piece.simplifyLate, settles]
    rfl
  rw [finish, simplified]
  refine fits_bind (fits_pure _) fun pieces s' _ => ?_
  exact fits_bind (fits_rollAll _ _) fun _ _ _ => fits_bind (fits_ofCalc _) fun _ _ _ => fits_pure _

/-! ## Groups -/

/-- What is known of a formula that was read and stands alone. -/
def Tried (ts : List Term) : Prop := Vetted ts ∧ Alone ts

/-- Once the groups of a formula are resolved, evaluating it is safe. -/
theorem fits_resolved {ts ts' : List Term} (tried : Tried ts) (ones : Ones ts ts')
    (resolves : List.Forall₂ Resolves ts ts') (s : Session) : Fits (finish ts') s :=
  fits_finish (Piece.classifies_merge tried.2 tried.1 (fun _ _ _ => rfl) ones resolves) s

/-- Formulas that are evaluated one after the other. -/
theorem fits_evaluateLists {args : List (List Term)} (tried : ∀ us ∈ args, Tried us)
    (inside : ∀ us ∈ args, ∀ s, AlongAll Ones us s → Fits (resolveAll us) s) {s : Session}
    (along : AlongLists Ones args s) : Fits (evaluateLists args) s := by
  induction args generalizing s with
  | nil =>
      rw [evaluateLists]
      exact fits_pure _
  | cons us rest ih =>
      rw [AlongLists] at along
      obtain ⟨alongFirst, behind⟩ := along
      obtain ⟨triedFirst, triedRest⟩ := List.forall_mem_cons.mp tried
      obtain ⟨insideFirst, insideRest⟩ := List.forall_mem_cons.mp inside
      rw [evaluateLists]
      refine fits_bind (insideFirst s alongFirst) fun ts s' resolved => ?_
      obtain ⟨ones, others⟩ := behind ts s' resolved
      have resolves : List.Forall₂ Resolves us ts := resolves_resolveAll (by rw [resolved])
      refine fits_bind (fits_resolved triedFirst ones resolves s') fun result s'' finished => ?_
      exact fits_bind (ih triedRest insideRest (others result s'' finished)) fun _ _ _ => fits_pure _

theorem fits_resolve {t : Term} (tried : ∀ us ∈ t.inner, Tried us)
    (inside : ∀ us ∈ t.inner, ∀ s, AlongAll Ones us s → Fits (resolveAll us) s) {s : Session}
    (along : Along Ones t s) : Fits (resolve t) s := by
  unfold resolve
  split
  · rename_i us flavor
    rw [Along] at along
    refine fits_bind (inside us List.mem_cons_self s along.1) fun ts s' resolved => ?_
    have resolves : List.Forall₂ Resolves us ts := resolves_resolveAll (by rw [resolved])
    exact fits_bind (fits_resolved (tried us List.mem_cons_self) (along.2 ts s' resolved) resolves s')
      fun _ _ _ => fits_pure _
  · rw [Along] at along
    exact fits_bind (fits_evaluateLists tried inside along) fun _ _ _ =>
      fits_bind (fits_ofCalc _) fun _ _ _ => fits_pure _
  · rw [Along] at along
    exact fits_bind (fits_evaluateLists tried inside along) fun _ s' _ =>
      fits_bind (fits_applyPool _ _ s') fun _ _ _ => fits_pure _
  · exact fits_pure _

theorem fits_resolveAll {ts : List Term} (tried : Everywhere Tried ts) {s : Session}
    (along : AlongAll Ones ts s) : Fits (resolveAll ts) s := by
  induction tried generalizing s with
  | @intro ts here inside ih =>
      have innerTried : ∀ t ∈ ts, ∀ us ∈ t.inner, Tried us :=
        fun t mem us member => (inside t mem us member).here
      clear here inside
      induction ts generalizing s with
      | nil =>
          rw [resolveAll]
          exact fits_pure _
      | cons t rest others =>
          rw [AlongAll] at along
          obtain ⟨triedFirst, triedRest⟩ := List.forall_mem_cons.mp innerTried
          obtain ⟨ihFirst, ihRest⟩ := List.forall_mem_cons.mp ih
          rw [resolveAll]
          refine fits_bind (fits_resolve triedFirst (fun us mem s => ihFirst us mem) along.1)
            fun t' s' resolved => ?_
          exact fits_bind (others ihRest (along.2 t' s' resolved) triedRest) fun _ _ _ => fits_pure _

/-- Fragments that were read and stand alone do not turn out to be nothing. -/
theorem fits_evaluate {ts : List Term} (tried : Everywhere Tried ts) {s : Session}
    (ones : Throughout Ones ts s) : Fits (evaluate ts) s := by
  refine fits_bind (fits_resolveAll tried ones.1) fun ts' s' resolved => ?_
  have resolves : List.Forall₂ Resolves ts ts' := resolves_resolveAll (by rw [resolved])
  exact fits_resolved tried.here (ones.2 ts' s' resolved) resolves s'

/-! ## Formulas that do not wait -/

section Along

variable {P : List Term → List Term → Prop}

theorem alongAll_of_inner {ts : List Term} (along : ∀ t ∈ ts, ∀ s, Along P t s) (s : Session) :
    AlongAll P ts s := by
  induction ts generalizing s with
  | nil => trivial
  | cons t rest ih =>
      obtain ⟨first, others⟩ := List.forall_mem_cons.mp along
      exact ⟨first s, fun _ s' _ => ih others s'⟩

/-- It holds of the formula and of what its groups are resolved to, whenever they are. -/
def Whenever (P : List Term → List Term → Prop) (us : List Term) : Prop :=
  ∀ s ts s', (resolveAll us).run.run s = (.ok ts, s') → P us ts

theorem alongLists_of_inner {args : List (List Term)} (along : ∀ us ∈ args, ∀ s, AlongAll P us s)
    (holds : ∀ us ∈ args, Whenever P us) (s : Session) : AlongLists P args s := by
  induction args generalizing s with
  | nil => trivial
  | cons us rest ih =>
      obtain ⟨alongFirst, alongRest⟩ := List.forall_mem_cons.mp along
      obtain ⟨first, others⟩ := List.forall_mem_cons.mp holds
      exact ⟨alongFirst s, fun ts s' resolved =>
        ⟨first s ts s' resolved, fun _ s'' _ => ih alongRest others s''⟩⟩

theorem along_of_inner {t : Term} (along : ∀ us ∈ t.inner, ∀ s, AlongAll P us s)
    (holds : ∀ us ∈ t.inner, Whenever P us) (s : Session) : Along P t s := by
  unfold Along
  split
  · exact ⟨along _ List.mem_cons_self s, holds _ List.mem_cons_self s⟩
  · exact alongLists_of_inner along holds s
  · exact alongLists_of_inner along holds s
  · trivial

/-- What holds of every formula whenever it is resolved holds along an evaluation. -/
theorem alongAll_of_everywhere {ts : List Term} (holds : Everywhere (Whenever P) ts)
    (s : Session) : AlongAll P ts s := by
  induction holds generalizing s with
  | @intro ts here inside ih =>
      refine alongAll_of_inner (fun t mem => ?_) s
      exact along_of_inner (ih t mem) fun us member => (inside t mem us member).here

theorem throughout_of_everywhere {ts : List Term} (holds : Everywhere (Whenever P) ts)
    (s : Session) : Throughout P ts s :=
  ⟨alongAll_of_everywhere holds s, holds.here s⟩

end Along

/-- Nothing is asked of groups without fragments beside them. -/
theorem whenever_of_settled {us : List Term} (settled : Settled us) : Whenever Ones us :=
  fun _ ts _ _ => ones_of_settled settled ts

/-- What holds of terms that hold no formulas holds everywhere in them. -/
theorem everywhere_inert {L : List Term → Prop} {ts : List Term} (holds : L ts)
    (inert : ∀ t ∈ ts, t.isInert = true) : Everywhere L ts := by
  refine .intro holds fun t mem us member => ?_
  have nothing : t.inner = [] := by
    cases t with
    | operator | dice => rfl
    | _ => cases inert _ mem
  rw [nothing] at member
  cases member

/-- Groups hold nothing but dice and operators. -/
def Shallow (ts : List Term) : Prop := ∀ t ∈ ts, ∀ us ∈ t.inner, ∀ u ∈ us, u.isInert = true

instance (ts : List Term) : Decidable (Shallow ts) :=
  inferInstanceAs (Decidable (∀ t ∈ ts, ∀ us ∈ t.inner, ∀ u ∈ us, u.isInert = true))

theorem everywhere_shallow {ts : List Term} (alone : Alone ts) (shallow : Shallow ts) :
    Everywhere Alone ts := by
  refine .intro alone fun t mem us member => everywhere_inert ?_ (shallow t mem us member)
  have inert := shallow t mem us member
  clear member
  induction us with
  | nil => exact .nil
  | cons u us ih =>
      obtain ⟨first, others⟩ := List.forall_mem_cons.mp inert
      exact .inert first (ih others)

/-- In a shallow formula it is enough to look at what its own groups come to. -/
theorem throughout_shallow {ts : List Term} {s : Session} (shallow : Shallow ts)
    (ones : ∀ ts' ∈ ((resolveAll ts).run.run s).1.toOption, Ones ts ts') :
    Throughout Ones ts s := by
  have settled : ∀ t ∈ ts, ∀ us ∈ t.inner, Settled us := fun t mem us member u mem' =>
    (isInert_spec (shallow t mem us member u mem')).1
  refine ⟨alongAll_of_inner (fun t mem => ?_) s, fun ts' s' resolved => ones ts' ?_⟩
  · have whenever : ∀ us ∈ t.inner, Whenever Ones us := fun us member =>
      whenever_of_settled (settled t mem us member)
    refine along_of_inner (fun us member => alongAll_of_everywhere ?_) whenever
    exact everywhere_inert (whenever us member) (shallow t mem us member)
  · rw [resolved]
    rfl

end Evaluation

/-! ## Rolls -/

namespace Roll

open Term Evaluation

variable {formula : String} {roll : Roll} {roller : Roller}

/-- **A formula that was read does not turn out to be none.**  If its terms stand alone, and the
groups beside fragments come to one whenever they are resolved, every fragment is something. -/
theorem evaluate_fits (read : Formula.read formula = .ok roll.terms)
    (alone : Everywhere Alone roll.terms) (ones : Throughout Ones roll.terms ⟨roller, []⟩)
    (e : FormatError) : (roll.evaluate roller).1 ≠ .error (.format e) := by
  have vetted : Everywhere Vetted roll.terms :=
    Formula.everywhere_read (fun links ts sound settles => Piece.vetted_settle? sound settles) read
  have fits := fits_evaluate (vetted.and alone) ones
  intro failed
  rcases outcome : roll.evaluate roller with ⟨result, roll', roller'⟩
  rw [outcome] at failed
  obtain rfl : result = _ := failed
  cases fresh : roll.evaluated with
  | false =>
      obtain ⟨s, evaluates, -, -⟩ := evaluate_error fresh outcome
      exact fits e (by rw [evaluates])
  | true =>
      rw [evaluate, fresh] at outcome
      cases outcome

/-- Dice that have a group for their count and one for their sides. -/
theorem evaluate_fits_between :
    ∃ roll : Roll, Formula.read "(1d2)d(1d4)[fire]" = .ok roll.terms ∧
      Everywhere Alone roll.terms ∧ Throughout Ones roll.terms ⟨.lowest 3, []⟩ ∧
        ∀ e, (roll.evaluate (.lowest 3)).1 ≠ .error (.format e) := by
  have reads : ∃ ts ∈ (Formula.read "(1d2)d(1d4)[fire]").toOption,
      ts.map isGroup = [true, false, true] ∧ ts.map isFragment = [false, true, false] ∧
        ts.map Term.text = ["(1d2)", "d", "(1d4)[fire]"] ∧
          ts.map flavor? = [none, none, some "fire"] ∧ Shallow ts ∧
            ∀ ts' ∈ ((resolveAll ts).run.run ⟨.lowest 3, []⟩).1.toOption, Ones ts ts' := by
    decide +kernel
  obtain ⟨ts, read, groups, fragments, texts, flavors, shallow, ones⟩ := reads
  obtain ⟨g, rest, rfl, group, groups⟩ := List.map_eq_cons_iff.mp groups
  obtain ⟨f, rest, rfl, -, groups⟩ := List.map_eq_cons_iff.mp groups
  obtain ⟨g', rest, rfl, group', groups⟩ := List.map_eq_cons_iff.mp groups
  obtain rfl := List.map_eq_nil_iff.mp groups
  have waits : f.isFragment = true := (List.cons.inj (List.cons.inj fragments).2).1
  have written : f.text = "d" := (List.cons.inj (List.cons.inj texts).2).1
  obtain ⟨bare, -, fire⟩ : g.flavor? = none ∧ f.flavor? = none ∧ g'.flavor? = some "fire" := by
    simpa using flavors
  cases f with
  | fragment body =>
      have alone : Alone [g, .fragment body, g'] := by
        refine .between group group' ?_ bare ?_ (fun u mem => by cases mem) .nil
        · intro flavor same
          rw [fire] at same
          cases same
          decide
        · rw [show body = "d" from written]
          decide
      have throughout := throughout_shallow shallow ones
      exact ⟨ofTerms _, eq_ok_of_toOption read, everywhere_shallow alone shallow, throughout,
        evaluate_fits (eq_ok_of_toOption read) (everywhere_shallow alone shallow) throughout⟩
  | _ => cases waits

/-- The flavor of a group in front of a fragment comes between the fragment and the group
behind it. -/
theorem evaluate_flavor_between :
    ∃ (roll : Roll) (e : FormatError), parse "(1d4)[count]d(1d6)" = .ok roll ∧
      Throughout Ones roll.terms ⟨.lowest 3, []⟩ ∧
        (roll.evaluate (.lowest 3)).1 = .error (.format e) := by
  have reads : ∃ roll ∈ (parse "(1d4)[count]d(1d6)").toOption,
      Shallow roll.terms ∧
        (∀ ts' ∈ ((resolveAll roll.terms).run.run ⟨.lowest 3, []⟩).1.toOption,
          Ones roll.terms ts') ∧
          (roll.evaluate (.lowest 3)).1 = .error (.format (.unresolved "1d[count]1" none)) := by
    decide +kernel
  obtain ⟨roll, parsed, shallow, ones, failed⟩ := reads
  exact ⟨roll, _, eq_ok_of_toOption parsed, throughout_shallow shallow ones, failed⟩

end Roll

end DiceFormula
