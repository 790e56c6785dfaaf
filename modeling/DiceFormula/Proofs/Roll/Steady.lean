/-
# DiceFormula.Proofs.Roll.Steady -- evaluating with the lowest or the highest faces

With a roller that shows the same face of a die each time, an evaluation ends, or it goes on for
ever: it `Spends` all dice, however many there are.  The latter happens only if the formula comes to
dice that are not calm (`evaluate_steady`), which have a modifier that goes on as long as that face
is shown.

And it does happen.  `1d6rr` goes on with the lowest faces and `1d6x` with the highest, though
neither is refused: there are other faces, but these are never shown (`evaluate_forever`).
-/
import DiceFormula.Proofs.Dice.Steady
import DiceFormula.Proofs.Roll.Order

namespace DiceFormula

set_option autoImplicit false

open Term

/-- Once the groups of a formula are resolved, all its dice are calm. -/
def Piece.CalmLate (face : Nat → Int) (ts : List Term) : Prop :=
  ∀ ps, Piece.simplifyLate (Piece.ofTerms ts) = .ok ps →
    ∀ d ∈ ownDice (Piece.terms ps), d.IsCalm face

namespace Evaluation

/-! ## Computations that end -/

section Course

variable {α β : Type} {face : Nat → Int}

/-- The computation ran out of dice, and left the roller so. -/
def Spent (outcome : Except RollError α × Session) (roller : Roller) : Prop :=
  outcome.1 = .error (.fault .diceSpent) ∧ outcome.2.roller = roller

/-- With a steady roller, the computation comes to a result after so many dice, and runs out of
dice if there are fewer. -/
structure Ends (face : Nat → Int) (x : Evaluation α) (result : Except RollError α) (draws : Nat)
    (rolled : List Rolled) : Prop where
  unspent : result ≠ .error (.fault .diceSpent)
  enough : ∀ drawn supply log, x.run.run ⟨.steady face drawn (draws + supply), log⟩ =
    (result, ⟨.steady face (drawn + draws) supply, log ++ rolled⟩)
  short : ∀ drawn supply log, supply < draws →
    Spent (x.run.run ⟨.steady face drawn supply, log⟩) (.steady face (drawn + supply) 0)

/-- With a steady roller, the computation runs out of dice however many there are. -/
def Spends (face : Nat → Int) (x : Evaluation α) : Prop :=
  ∀ drawn supply log,
    Spent (x.run.run ⟨.steady face drawn supply, log⟩) (.steady face (drawn + supply) 0)

/-- It holds of a session with a steady roller, whatever the supply. -/
def Steadily (face : Nat → Int) (A : Session → Prop) : Prop :=
  ∃ drawn log, ∀ supply, A ⟨.steady face drawn supply, log⟩

/-- The computation ends, or it spends all dice; but not if a condition holds steadily. -/
inductive Course (face : Nat → Int) (x : Evaluation α) (A : Session → Prop) : Prop
  | ends {result : Except RollError α} {draws : Nat} {rolled : List Rolled}
      (ends : Ends face x result draws rolled) : Course face x A
  | spends (spends : Spends face x) (fails : ¬ Steadily face A) : Course face x A

theorem Course.mono {x : Evaluation α} {A B : Session → Prop} (course : Course face x A)
    (implies : ∀ s, B s → A s) : Course face x B := by
  cases course with
  | ends ends => exact .ends ends
  | spends spends fails =>
      exact .spends spends fun ⟨drawn, log, holds⟩ =>
        fails ⟨drawn, log, fun supply => implies _ (holds supply)⟩

theorem ends_still {x : Evaluation α} {result : Except RollError α}
    (unspent : result ≠ .error (.fault .diceSpent)) (still : ∀ s, x.run.run s = (result, s)) :
    Ends face x result 0 [] := by
  refine ⟨unspent, fun drawn supply log => ?_, fun _ _ _ fewer => absurd fewer (by simp)⟩
  rw [still, Nat.zero_add, Nat.add_zero, List.append_nil]

theorem ends_pure (a : α) : Ends face (pure a) (.ok a) 0 [] := ends_still (by simp) fun _ => rfl

theorem course_pure {A : Session → Prop} (a : α) : Course face (pure a) A := .ends (ends_pure a)

theorem course_ofCalc {A : Session → Prop} (x : Except CalcError α) : Course face (ofCalc x) A := by
  cases x with
  | ok a => exact course_pure a
  | error e => exact .ends (ends_still (by simp) fun _ => rfl)

theorem Spent.bind {x : Evaluation α} {k : α → Evaluation β} {s : Session} {roller : Roller}
    (spent : Spent (x.run.run s) roller) : Spent ((x >>= k).run.run s) roller := by
  obtain ⟨error, left⟩ := spent
  rw [run_bind]
  rcases outcome : x.run.run s with ⟨e | a, s'⟩
  · rw [outcome] at error left
    cases error
    exact ⟨rfl, left⟩
  · rw [outcome] at error
    cases error

/-- What comes after a computation that ends also has dice left, or there were fewer. -/
theorem spent_bind {x : Evaluation α} {k : α → Evaluation β} {a : α} {n drawn supply : Nat}
    {rolled log : List Rolled} (first : Ends face x (.ok a) n rolled)
    (rest : ∀ supply', supply = n + supply' →
      Spent ((k a).run.run ⟨.steady face (drawn + n) supply', log ++ rolled⟩)
        (.steady face (drawn + n + supply') 0)) :
    Spent ((x >>= k).run.run ⟨.steady face drawn supply, log⟩)
      (.steady face (drawn + supply) 0) := by
  by_cases few : supply < n
  · exact (first.short drawn supply log few).bind
  · obtain ⟨supply', rfl⟩ : ∃ supply', supply = n + supply' := ⟨supply - n, by omega⟩
    rw [run_bind, first.enough, ← Nat.add_assoc]
    exact rest supply' rfl

theorem ends_bind {x : Evaluation α} {k : α → Evaluation β} {a : α} {result : Except RollError β}
    {n m : Nat} {rolled rolled' : List Rolled} (first : Ends face x (.ok a) n rolled)
    (rest : Ends face (k a) result m rolled') :
    Ends face (x >>= k) result (n + m) (rolled ++ rolled') := by
  refine ⟨rest.unspent, fun drawn supply log => ?_, fun drawn supply log fewer => ?_⟩
  · rw [run_bind, Nat.add_assoc, first.enough]
    dsimp only
    rw [rest.enough, Nat.add_assoc, List.append_assoc]
  · refine spent_bind first ?_
    rintro supply' rfl
    exact rest.short _ _ _ (by omega)

theorem ends_bind_error {x : Evaluation α} {k : α → Evaluation β} {e : RollError} {n : Nat}
    {rolled : List Rolled} (first : Ends face x (.error e) n rolled) :
    Ends face (x >>= k) (.error e) n rolled := by
  refine ⟨fun spent => first.unspent ?_, fun drawn supply log => ?_, fun drawn supply log fewer => ?_⟩
  · cases spent
    rfl
  · rw [run_bind, first.enough]
  · exact (first.short drawn supply log fewer).bind

/-- A computation goes on for ever if it did so at first, or does so with the result. -/
theorem spends_bind {x : Evaluation α} {k : α → Evaluation β} {a : α} {n : Nat}
    {rolled : List Rolled} (first : Ends face x (.ok a) n rolled) (rest : Spends face (k a)) :
    Spends face (x >>= k) :=
  fun _ _ _ => spent_bind first fun supply' _ => rest _ supply' _

theorem course_bind {x : Evaluation α} {k : α → Evaluation β} {A : Session → Prop}
    {B : α → Session → Prop} (first : Course face x A) (rest : ∀ a, Course face (k a) (B a)) :
    Course face (x >>= k)
      (fun s => A s ∧ ∀ a s', x.run.run s = (.ok a, s') → B a s') := by
  cases first with
  | spends spends fails =>
      refine .spends (fun drawn supply log => (spends drawn supply log).bind) ?_
      exact fun ⟨drawn, log, holds⟩ => fails ⟨drawn, log, fun supply => (holds supply).1⟩
  | @ends result n rolled ends =>
      cases result with
      | error e => exact .ends (ends_bind_error ends)
      | ok a =>
          cases rest a with
          | ends ends' => exact .ends (ends_bind ends ends')
          | spends spends fails =>
              refine .spends (spends_bind ends spends) ?_
              rintro ⟨drawn, log, holds⟩
              -- any supply is left for the rest if the computation starts with `n` dice more
              refine fails ⟨drawn + n, log ++ rolled, fun supply => ?_⟩
              exact (holds (n + supply)).2 a _ (ends.enough drawn supply log)

/-- Something is asked of the session only at first. -/
theorem course_first {x : Evaluation α} {k : α → Evaluation β} {A : Session → Prop}
    (first : Course face x A) (rest : ∀ a, Course face (k a) fun _ => True) :
    Course face (x >>= k) A :=
  (course_bind first rest).mono fun _ holds => ⟨holds, fun _ _ _ => trivial⟩

end Course

variable {face : Nat → Int}

/-! ## Dice -/

/-- What a roll comes to on behalf of a term. -/
def onBehalf {α : Type} (term : String) : Except RollFailure α → Except RollError α
  | .ok a => .ok a
  | .error (.error e) => .error (.dice term e)
  | .error (.fault f) => .error (.fault f)

theorem spends_rolling {α : Type} (term : String) {x : Rolling α} (spends : Rolling.Spends face x) :
    Spends face (rolling term x) := by
  intro drawn supply log
  rw [run_rolling, spends]
  exact ⟨rfl, rfl⟩

/-- What is rolled on behalf of a term takes the course of the roll. -/
theorem course_rolling {α : Type} {term : String} {x : Rolling α} {reason : Prop}
    (course : Rolling.Course face x reason) :
    Course face (rolling term x) fun _ => ¬ reason := by
  cases course with
  | @ends result draws ends =>
      have rolls : Ends face (rolling term x) (onBehalf term result) draws [] := by
        refine ⟨fun spent => ends.unspent ?_, fun drawn supply log => ?_,
          fun drawn supply log fewer => ?_⟩
        · rcases result with (e | f) | a <;> cases spent
          rfl
        · rw [run_rolling, ends.enough, List.append_nil]
          rcases result with (e | f) | a <;> rfl
        · rw [run_rolling, ends.short drawn supply fewer]
          exact ⟨rfl, rfl⟩
      exact .ends rolls
  | spends spends holds =>
      exact .spends (spends_rolling term spends) fun ⟨_, _, fails⟩ => fails 0 holds

theorem course_rollDice (t : Term) :
    Course face (rollDice t) fun _ => ∀ d ∈ t.own, d.IsCalm face := by
  unfold rollDice
  split
  · rename_i unrolled flavor
    refine course_first ((course_rolling unrolled.dice.course_roll).mono ?_) fun rolled => ?_
    · intro _ calm
      exact not_not.2 (calm _ List.mem_cons_self)
    · have logs : Ends face (do
            modify fun session : Session => { session with log := session.log ++ [rolled] }
            pure (Term.dice rolled true flavor)) (.ok (.dice rolled true flavor)) 0 [rolled] := by
        refine ⟨by simp, fun drawn supply log => ?_, fun _ _ _ fewer => absurd fewer (by simp)⟩
        rw [Nat.zero_add]
        rfl
      exact .ends logs
  · exact course_pure _

theorem course_rollAll (ts : List Term) :
    Course face (rollAll ts) fun _ => ∀ d ∈ ownDice ts, d.IsCalm face := by
  induction ts with
  | nil => exact course_pure []
  | cons t rest ih =>
      refine (course_bind (course_rollDice t) fun _ => course_first ih fun _ => course_pure _).mono ?_
      intro _ calm
      rw [ownDice, List.flatMap_cons, List.forall_mem_append] at calm
      exact ⟨calm.1, fun _ _ _ => calm.2⟩

/-- Terms whose groups are resolved go on for ever only by their dice. -/
theorem course_finish (ts : List Term) :
    Course face (finish ts) fun _ => Piece.CalmLate face ts := by
  rw [finish]
  cases simplified : Piece.simplifyLate (Piece.ofTerms ts) with
  | error e => exact .ends (ends_bind_error (ends_still (by simp) fun _ => rfl))
  | ok ps =>
      have same : Course face (ofFormat (.ok ps)) fun _ => True := course_pure ps
      have rolls := course_bind same fun qs => course_first (course_rollAll (Piece.terms qs))
        fun ts' => course_first (course_ofCalc (totalAll ts')) fun total => course_pure (ts', total)
      refine rolls.mono fun _ calm => ⟨trivial, fun qs s' done => ?_⟩
      cases done
      exact calm _ simplified

/-! ## Groups -/

/-- Modifiers of pools end. -/
theorem course_applyPool {modifiers : List Modifier}
    (selective : ∀ m ∈ modifiers, m.isSelective = true) (results : List Die) :
    Course face (applyPool modifiers results) fun _ => True := by
  induction modifiers generalizing results with
  | nil => exact course_pure _
  | cons m rest ih =>
      obtain ⟨first, others⟩ := List.forall_mem_cons.1 selective
      refine course_first ((course_rolling (m.course_apply 0 results)).mono ?_) (ih others)
      intro _ _ stuck
      cases m with
      | reroll | explode => cases first
      | _ => cases stuck

/-- What is asked of formulas along an evaluation. -/
abbrev Calm (face : Nat → Int) : List Term → List Term → Prop := fun _ ts => Piece.CalmLate face ts

theorem course_evaluateLists {args : List (List Term)}
    (inside : ∀ us ∈ args, Course face (resolveAll us) (AlongAll (Calm face) us)) :
    Course face (evaluateLists args) (AlongLists (Calm face) args) := by
  induction args with
  | nil =>
      rw [evaluateLists]
      exact course_pure _
  | cons us rest ih =>
      obtain ⟨first, others⟩ := List.forall_mem_cons.1 inside
      rw [evaluateLists]
      refine (course_bind first fun ts => course_bind (course_finish ts) fun result =>
        course_first (ih others) fun _ => course_pure _).mono fun s along => ?_
      rwa [AlongLists] at along

theorem course_resolve {t : Term} (selective : Selective [t])
    (inside : ∀ us ∈ t.inner, Course face (resolveAll us) (AlongAll (Calm face) us)) :
    Course face (resolve t) (Along (Calm face) t) := by
  unfold resolve
  split
  · rename_i us flavor
    refine (course_bind (inside us List.mem_cons_self) fun ts =>
      course_first (course_finish ts) fun _ => course_pure _).mono fun s along => ?_
    rwa [Along] at along
  · refine (course_first (course_evaluateLists inside) fun _ =>
      course_first (course_ofCalc _) fun _ => course_pure _).mono fun s along => ?_
    rwa [Along] at along
  · refine (course_first (course_evaluateLists inside) fun _ =>
      course_first (course_applyPool ?_ _) fun _ => course_pure _).mono fun s along => ?_
    · exact selective _ _ _ _ _ List.mem_cons_self
    · rwa [Along] at along
  · exact course_pure _

theorem course_resolveAll {ts : List Term} (selective : Everywhere Selective ts) :
    Course face (resolveAll ts) (AlongAll (Calm face) ts) := by
  induction selective with
  | @intro ts here inside ih =>
      clear inside
      induction ts with
      | nil =>
          rw [resolveAll]
          exact course_pure _
      | cons t rest others =>
          obtain ⟨first, selective⟩ := selective_cons.1 here
          obtain ⟨ihFirst, ihRest⟩ := List.forall_mem_cons.1 ih
          rw [resolveAll]
          refine (course_bind (course_resolve first ihFirst) fun _ =>
            course_first (others selective ihRest) fun _ => course_pure _).mono fun s along => ?_
          rwa [AlongAll] at along

/-- **An evaluation ends if the dice that it comes to are calm.** -/
theorem course_evaluate (face : Nat → Int) {ts : List Term} (selective : Everywhere Selective ts) :
    Course face (evaluate ts) (Throughout (Calm face) ts) :=
  course_bind (course_resolveAll selective) course_finish

/-- Where there are no fragments, the dice of the formula are all that it comes to. -/
theorem whenever_calm {ts : List Term} (known : Everywhere Known ts)
    (calm : ∀ d ∈ order ts, d.IsCalm face) : Everywhere (Whenever (Calm face)) ts := by
  induction known with
  | @intro ts here inside ih =>
      rw [order_eq, List.forall_mem_append] at calm
      refine .intro (fun s ts' s' resolved => ?_) fun t mem us member => ih t mem us member ?_
      · obtain ⟨dice, settled, -⟩ := own_resolveAll here (congrArg Prod.fst resolved)
        intro ps simplified
        rw [Piece.simplifyLate_settled (Piece.all_ofTerms settled)] at simplified
        cases simplified
        rw [ownDice_stripStray, dice]
        exact calm.2
      · intro d rolled
        exact calm.1 d (List.mem_flatMap.2 ⟨t, mem, List.mem_flatMap.2 ⟨us, member, rolled⟩⟩)

/-- Dice that are rolled for ever, and nothing else. -/
theorem spends_evaluate {rolled : Rolled} (spends : Rolling.Spends face (rolled.dice.roll true))
    (flavor : Option String) : Spends face (evaluate [.dice rolled false flavor]) := by
  have resolves : Ends face (resolveAll [.dice rolled false flavor])
      (.ok [.dice rolled false flavor]) 0 [] := ends_still (by simp) fun _ => rfl
  have simplifies : Ends face
      (ofFormat (Piece.simplifyLate (Piece.ofTerms [.dice rolled false flavor])))
      (.ok (Piece.ofTerms [.dice rolled false flavor])) 0 [] := ends_still (by simp) fun _ => rfl
  have rolls : Spends face (rollDice (.dice rolled false flavor)) :=
    fun drawn supply log => (spends_rolling _ spends drawn supply log).bind
  refine spends_bind resolves (spends_bind simplifies fun drawn supply log => ?_)
  exact Spent.bind (Spent.bind (rolls drawn supply log))

end Evaluation

/-! ## Rolls -/

namespace Roll

open Evaluation

variable {face : Nat → Int}

/-- With a steady roller, evaluating the roll comes to the same end after so many dice, whatever the
supply beyond them. -/
def Ends (face : Nat → Int) (roll : Roll) : Prop :=
  ∃ draws result after, result ≠ .error (.fault .diceSpent) ∧
    ∀ supply, roll.evaluate (.steady face 0 (draws + supply)) =
      (result, after, .steady face draws supply)

/-- With a steady roller, evaluating the roll runs out of dice however many there are. -/
def Spends (face : Nat → Int) (roll : Roll) : Prop :=
  ∀ supply, (roll.evaluate (.steady face 0 supply)).1 = .error (.fault .diceSpent) ∧
    (roll.evaluate (.steady face 0 supply)).2.2 = .steady face supply 0

theorem ends_evaluated {roll : Roll} (evaluated : roll.evaluated = true) : roll.Ends face := by
  refine ⟨0, .error (.state .alreadyEvaluated), roll, by simp, fun supply => ?_⟩
  rw [evaluate, evaluated, Nat.zero_add]
  rfl

theorem ends_of_ends {roll : Roll} (fresh : roll.evaluated = false)
    {result : Except RollError (List Term × Float)} {draws : Nat} {rolled : List Rolled}
    (ends : Evaluation.Ends face (Evaluation.evaluate roll.terms) result draws rolled) :
    roll.Ends face := by
  have run (supply : Nat) := ends.enough 0 supply []
  rw [Nat.zero_add, List.nil_append] at run
  cases result with
  | ok pair =>
      refine ⟨draws, .ok pair.2,
        { roll with terms := pair.1, dice := rolled, total := some pair.2, evaluated := true },
        by simp, fun supply => ?_⟩
      rw [evaluate, fresh, run]
      rfl
  | error e =>
      refine ⟨draws, .error e, { roll with dice := rolled }, ?_, fun supply => ?_⟩
      · rintro ⟨⟩
        exact ends.unspent rfl
      · rw [evaluate, fresh, run]
        rfl

theorem spends_of_spends {roll : Roll} (fresh : roll.evaluated = false)
    (spends : Evaluation.Spends face (Evaluation.evaluate roll.terms)) : roll.Spends face := by
  intro supply
  obtain ⟨error, left⟩ := spends 0 supply []
  rw [Nat.zero_add] at left
  rw [evaluate, fresh]
  rcases outcome : (Evaluation.evaluate roll.terms).run.run ⟨.steady face 0 supply, []⟩ with ⟨e | a, s⟩
  · rw [outcome] at error left
    cases error
    exact ⟨rfl, left⟩
  · rw [outcome] at error
    cases error

/-- **With the same face again and again, as the lowest or the highest, evaluating a formula ends
after a number of dice unless it comes to dice that are not calm.**  It ends the same way whatever
the supply of dice, or else it uses up any supply. -/
theorem evaluate_steady {formula : String} {roll : Roll}
    (read : Formula.read formula = .ok roll.terms) (face : Nat → Int) :
    roll.Ends face ∨ roll.Spends face ∧
      ∃ supply, ¬ Throughout (Calm face) roll.terms ⟨.steady face 0 supply, []⟩ := by
  cases fresh : roll.evaluated with
  | true => exact .inl (ends_evaluated fresh)
  | false =>
      cases course_evaluate face (selective_read read) with
      | ends ends => exact .inl (ends_of_ends fresh ends)
      | spends spends fails =>
          refine .inr ⟨spends_of_spends fresh spends, ?_⟩
          by_contra throughout
          exact fails ⟨0, [], fun supply => not_not.1 fun fails => throughout ⟨supply, fails⟩⟩

/-- Dice that are rerolled and dice that explode, but not on the lowest nor on the highest face. -/
theorem evaluate_steady_calm :
    ∃ roll : Roll, Formula.read "(2d6rr=3 + 1) * \x7b1d8x=5, 4d10r<2kh2\x7dkh" = .ok roll.terms ∧
      roll.Ends Roller.low ∧ roll.Ends Roller.high := by
  have reads : ∃ ts ∈ (Formula.read "(2d6rr=3 + 1) * \x7b1d8x=5, 4d10r<2kh2\x7dkh").toOption,
      Everywhere Settled ts ∧ (∀ d ∈ order ts, d.IsCalm Roller.low) ∧
        ∀ d ∈ order ts, d.IsCalm Roller.high := by
    decide +kernel
  obtain ⟨ts, read, settled, low, high⟩ := reads
  have read := eq_ok_of_toOption read
  have known : Everywhere Known ts := settled.and (Formula.unrolled_read read)
  refine ⟨ofTerms ts, read, ?_, ?_⟩
  · rcases @evaluate_steady _ (ofTerms ts) read Roller.low with ends | ⟨-, supply, fails⟩
    · exact ends
    · exact absurd (throughout_of_everywhere (whenever_calm known low) _) fails
  · rcases @evaluate_steady _ (ofTerms ts) read Roller.high with ends | ⟨-, supply, fails⟩
    · exact ends
    · exact absurd (throughout_of_everywhere (whenever_calm known high) _) fails

/-- A formula of nothing but dice that are rolled for ever. -/
theorem spends_of_parse {formula : String} {roll : Roll} {d : Dice}
    (parsed : parse formula = .ok roll) (own : roll.terms.map Term.own = [[d]])
    (spends : Rolling.Spends face (d.roll true)) : roll.Spends face := by
  obtain ⟨read, -, fresh⟩ := parse_ok parsed
  have unrolled := (Formula.unrolled_read read).here
  obtain ⟨t, rest, terms, dice, others⟩ := List.map_eq_cons_iff.1 own
  rw [List.map_eq_nil_iff.1 others] at terms
  rw [terms] at unrolled
  have unrolled := unrolled t List.mem_cons_self
  cases t with
  | dice rolled evaluated flavor =>
      cases evaluated with
      | true => cases unrolled
      | false =>
          obtain rfl : rolled.dice = d := (List.cons.inj dice).1
          refine spends_of_spends fresh ?_
          rw [terms]
          exact spends_evaluate spends flavor
  | _ => cases dice

/-- Rerolling ones, when every die shows a one, and exploding dice that all show their highest face:
neither is refused, and neither ends. -/
theorem evaluate_forever :
    ∃ least most : Roll, parse "1d6rr" = .ok least ∧ parse "1d6x" = .ok most ∧ ∀ supply,
      (least.evaluate (.lowest supply)).1 = .error (.fault .diceSpent) ∧
        (least.evaluate (.lowest supply)).2.2.drawn = supply ∧
        (most.evaluate (.highest supply)).1 = .error (.fault .diceSpent) ∧
          (most.evaluate (.highest supply)).2.2.drawn = supply := by
  have reads : ∃ least ∈ (parse "1d6rr").toOption, ∃ most ∈ (parse "1d6x").toOption,
      least.terms.map Term.own = [[⟨1, 6, [.reroll ⟨.equal, 1⟩ true]⟩]] ∧
        most.terms.map Term.own = [[⟨1, 6, [.explode none true]⟩]] := by
    decide +kernel
  obtain ⟨least, parsed, most, parsed', own, own'⟩ := reads
  have spends : least.Spends Roller.low := spends_of_parse (eq_ok_of_toOption parsed) own
    (Dice.spends_roll rfl (by decide) (by decide) (by decide))
  have spends' : most.Spends Roller.high := spends_of_parse (eq_ok_of_toOption parsed') own'
    (Dice.spends_roll rfl (by decide) (by decide) (by decide))
  refine ⟨least, most, eq_ok_of_toOption parsed, eq_ok_of_toOption parsed', fun supply => ?_⟩
  rw [Roller.lowest_eq, Roller.highest_eq]
  obtain ⟨error, left⟩ := spends supply
  obtain ⟨error', left'⟩ := spends' supply
  refine ⟨error, ?_, error', ?_⟩
  · rw [left]
    rfl
  · rw [left']
    rfl

end Roll

end DiceFormula
