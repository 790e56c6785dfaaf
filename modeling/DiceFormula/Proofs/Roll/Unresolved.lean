/-
# DiceFormula.Proofs.Roll.Unresolved -- terms without a value

When the arithmetic of a formula starts, all its terms have values but for one reason: the values
of dice that were rolled, or of the members of a pool, have a sum that does not fit in 64 bits
(`Term.Overflows`).  Such a sum is no error of dice.  The term has no value, and it is the
arithmetic that fails (`evaluate_unresolved`, `evaluate_overflow`).

Two invariants carry this.  Resolved terms are what is known from complete formulas
(`Term.Resolved`), and no dice among them are rolled; and as long as nothing failed, all dice of
the log have totals (`Evaluation.Summed`), because the formula that they were rolled for has one.
-/
import DiceFormula.Proofs.Roll.Alone
import DiceFormula.Proofs.Roll.Order
import DiceFormula.Proofs.Roll.Refused

namespace DiceFormula

set_option autoImplicit false

open Term

/-! ## Calculations -/

/-- The calculation does not find a term without a value. -/
def Valued {α : Type} (x : Except CalcError α) : Prop := ∀ term, x ≠ .error (.unresolved term)

section Valued

variable {α β : Type}

theorem valued_ok (a : α) : Valued (.ok a) := fun _ same => by cases same

theorem valued_bind {x : Except CalcError α} {k : α → Except CalcError β} (first : Valued x)
    (rest : ∀ a, Valued (k a)) : Valued (x >>= k) := by
  cases x with
  | ok a => exact rest a
  | error e => exact fun term same => first term (congrArg _ (Except.error.inj same))

theorem valued_finite (x : Float) (written : String) : Valued (finite x written) := by
  unfold finite
  split
  · exact valued_ok x
  · exact fun _ same => by cases same

/-- Calls have arguments with values. -/
theorem valued_apply (f : MathFunction) (xs : List Float) : Valued (f.apply xs) := by
  unfold MathFunction.apply
  split
  · exact valued_finite _ _
  · exact fun _ same => by cases same

end Valued

namespace Expr

mutual

theorem valued_calculate : (e : Expr) → Valued e.calculate
  | .number x => by
      rw [calculate]
      exact valued_finite _ _
  | .negate e => by
      rw [calculate]
      exact valued_bind (valued_calculate e) fun _ => valued_finite _ _
  | .binary op a b => by
      rw [calculate]
      exact valued_bind (valued_calculate a) fun _ => valued_bind (valued_calculate b) fun _ =>
        valued_finite _ _
  | .call f args => by
      rw [calculate]
      exact valued_bind (valued_calculateAll args) fun _ => valued_apply f _

theorem valued_calculateAll : (es : List Expr) → Valued (calculateAll es)
  | [] => by
      rw [calculateAll]
      exact valued_ok _
  | e :: rest => by
      rw [calculateAll]
      exact valued_bind (valued_calculate e) fun _ =>
        valued_bind (valued_calculateAll rest) fun _ => valued_ok _

end

end Expr

theorem valued_evaluate (expression : String) : Valued (evaluate expression) := by
  unfold evaluate
  split
  · exact Expr.valued_calculate _
  · exact fun _ same => by cases same

/-- A sequence has no value on account of one of its items only. -/
theorem Item.unresolved_of_total {items : List Item} {text : String}
    (failed : Item.total items = .error (.unresolved text)) : .unresolved text ∈ items := by
  unfold Item.total at failed
  cases texts : items.mapM Item.text with
  | ok written =>
      rw [texts] at failed
      exact absurd failed (valued_evaluate _ text)
  | error e =>
      rw [texts] at failed
      cases failed
      obtain ⟨item, mem, missing⟩ := error_of_mapM texts
      cases item <;> cases missing
      exact mem

/-! ## Totals -/

namespace Term

/-- The roll that a term shows, if it is dice that were rolled. -/
def shown : Term → List Rolled
  | dice rolled true _ => [rolled]
  | _ => []

/-- A term that has no value, because the sum of what it shows does not fit in 64 bits: dice that
were logged, or a pool whose members came to totals. -/
inductive Overflows (log : List Rolled) : Term → Prop
  | dice {rolled : Rolled} (flavor : Option String) (logged : rolled ∈ log)
      (sum : rolled.total = .error .overflow) : Overflows log (.dice rolled true flavor)
  | pool {members : List (List Term)} {results : List Die} (modifiers : List Modifier)
      (flavor : Option String) (scored : List.Forall₂ Scores members results)
      (sum : tally modifiers results = .error .overflow) :
      Overflows log (.pool members modifiers results true flavor)

/-- An item without a value stands for an operand without one. -/
theorem missing_of_item {t : Term} {text : String} (missing : t.item total? = .unresolved text) :
    t.isOperator = false ∧ t.total? = none ∧ t.text = text := by
  unfold item at missing
  split at missing
  · cases missing
  · rename_i operand
    split at missing
    · cases missing
    · rename_i none
      refine ⟨?_, none, Item.unresolved.inj missing⟩
      cases t with
      | operator op => exact absurd rfl (operand op)
      | _ => rfl

theorem overflow_of_missing {modifiers : List Modifier} {dice : List Die}
    (missing : (tally modifiers dice).toOption.map Float.ofInt = none) :
    tally modifiers dice = .error .overflow := by
  cases sum : tally modifiers dice with
  | ok n =>
      rw [sum] at missing
      cases missing
  | error e => rw [tally_error sum]

/-- What was evaluated has a value, if its sum fits. -/
theorem Evaluated.overflows {t : Term} (evaluated : Evaluated t) {log : List Rolled}
    (logged : ∀ rolled ∈ t.shown, rolled ∈ log) {text : String}
    (missing : t.item total? = .unresolved text) : t.Overflows log ∧ t.text = text := by
  obtain ⟨operand, none, described⟩ := missing_of_item missing
  refine ⟨?_, described⟩
  cases evaluated with
  | number value flavor => cases none
  | operator op => cases operand
  | dice rolled flavor =>
      exact .dice flavor (logged rolled List.mem_cons_self) (overflow_of_missing none)
  | pool modifiers flavor scored => exact .pool modifiers flavor scored (overflow_of_missing none)

/-- Terms with a total have values. -/
theorem exists_total?_of_totalAll {ts : List Term} {x : Float} (ok : totalAll ts = .ok x) :
    ∀ t ∈ ts, t.isOperator = false → ∃ v, t.total? = some v := by
  intro t mem operand
  have resolved := (Arithmetic.reads_of_total ok).1 _ (List.mem_map_of_mem mem)
  obtain ⟨v, value, -⟩ := item_operand operand resolved
  exact ⟨v, value⟩

/-- Dice in a formula with a total have one too. -/
theorem exists_sum_of_totalAll {ts : List Term} {x : Float} (ok : totalAll ts = .ok x) :
    ∀ rolled ∈ ts.flatMap shown, ∃ n, rolled.total = .ok n := by
  intro rolled mem
  obtain ⟨t, member, among⟩ := List.mem_flatMap.1 mem
  cases t with
  | dice rolled' evaluated flavor =>
      cases evaluated with
      | false => cases among
      | true =>
          obtain rfl := List.mem_singleton.1 among
          obtain ⟨v, value⟩ := exists_total?_of_totalAll ok _ member rfl
          rw [Term.total?] at value
          cases sum : rolled.total with
          | ok n => exact ⟨n, rfl⟩
          | error e =>
              rw [sum] at value
              cases value
  | number | operator | pool | call | group | fragment => cases among

/-- Where all is complete, all has a value. -/
theorem everywhere_total? {ts : List Term} (complete : Everywhere Complete ts) {x : Float}
    (ok : totalAll ts = .ok x) :
    Everywhere (fun us => ∀ t ∈ us, t.isOperator = false → ∃ v, t.total? = some v) ts := by
  induction complete generalizing x with
  | @intro ts here inside ih =>
      refine .intro (exists_total?_of_totalAll ok) fun t mem us member => ?_
      cases here.evaluated t mem with
      | pool modifiers flavor scored =>
          obtain ⟨die, -, total, comes, -⟩ := forall₂_mem_right scored.flip member
          exact ih _ mem us member comes
      | number | operator | dice => cases member

end Term

/-! ## Rolling -/

namespace Evaluation

/-- All dice that were logged have totals. -/
def Summed (s : Session) : Prop := ∀ rolled ∈ s.log, ∃ n, rolled.total = .ok n

theorem summed_start (roller : Roller) : Summed ⟨roller, []⟩ := List.forall_mem_nil _

/-- If a term has no value, then because of a sum that does not fit. -/
def Explained (e : RollError) (s : Session) : Prop :=
  ∀ text, e = .calc (.unresolved text) → ∃ t : Term, t.Overflows s.log ∧ t.text = text

variable {log : List Rolled}

theorem leads_rollDice {t : Term} (fresh : t.isRolled = false) :
    Leads (fun s => s.log = log) (fun t' s => s.log = log ++ t'.shown ∧ Falls t t') Explained
      (rollDice t) := by
  unfold rollDice
  split
  · rename_i unrolled flavor
    rintro s rfl
    rw [run_bind, run_rolling]
    rcases (unrolled.dice.roll true).run.run s.roller with ⟨(e | f) | rolled, roller⟩
    · rintro _ ⟨⟩
    · rintro _ ⟨⟩
    · exact ⟨rfl, .dice unrolled rolled flavor⟩
  · rename_i other
    refine leads_pure fun s same => ⟨?_, .other other⟩
    have nothing : t.shown = [] := by
      cases t with
      | dice rolled evaluated flavor =>
          cases evaluated with
          | false => rfl
          | true => cases fresh
      | _ => rfl
    rw [nothing, List.append_nil, same]

/-- What is rolled is logged, and shown by the terms. -/
theorem leads_rollAll {ts : List Term} (fresh : ∀ t ∈ ts, t.isRolled = false) :
    Leads (fun s => s.log = log)
      (fun ts' s => s.log = log ++ ts'.flatMap shown ∧ List.Forall₂ Falls ts ts') Explained
      (rollAll ts) := by
  induction ts generalizing log with
  | nil => exact leads_pure fun s same => ⟨same.trans (List.append_nil _).symm, .nil⟩
  | cons t rest ih =>
      obtain ⟨first, others⟩ := List.forall_mem_cons.1 fresh
      refine leads_bind (leads_rollDice first) fun t' => ?_
      rintro s ⟨logged, falls⟩
      refine leads_bind (ih others) (fun rest' => leads_pure ?_) s logged
      rintro s' ⟨logged', falls'⟩
      rw [List.flatMap_cons, ← List.append_assoc]
      exact ⟨logged', .cons falls falls'⟩

/-! ## Evaluations -/

/-- **If the arithmetic finds a term without a value, then because of a sum that does not fit.** -/
theorem leads_finish {ts : List Term} (resolved : ∀ t ∈ ts, Resolved t ∧ t.isRolled = false)
    (summed : ∀ rolled ∈ log, ∃ n, rolled.total = .ok n) :
    Leads (fun s => s.log = log) (fun _ s => Summed s) Explained (finish ts) := by
  have lasting : Piece.Lasting fun t => Resolved t ∧ t.isRolled = false := by
    refine ⟨fun leaf => ⟨Piece.lasting_resolved.leaf leaf, ?_⟩, fun _ _ _ => ⟨.fragment _, rfl⟩⟩
    cases leaf <;> rfl
  refine leads_step (leads_ofFormat fun e s _ text same => by cases same) fun ps simplified => ?_
  have settled := Piece.settled_simplifyLate lasting (Piece.all_ofTerms resolved) simplified
  have fresh : ∀ t ∈ Piece.terms ps, t.isRolled = false :=
    List.forall_mem_map.2 fun p mem => (settled p mem).1.2
  refine leads_bind (leads_rollAll fresh) fun ts' => ?_
  rintro s ⟨logged, falls⟩
  rw [run_bind]
  cases total : totalAll ts' with
  | ok x =>
      show ∀ rolled ∈ s.log, _
      rw [logged, List.forall_mem_append]
      exact ⟨summed, exists_sum_of_totalAll total⟩
  | error e =>
      rintro text same
      obtain rfl : e = .unresolved text := by
        cases same
        rfl
      obtain ⟨t', mem, missing⟩ := List.mem_map.1 (Item.unresolved_of_total total)
      obtain ⟨t, member, falls⟩ := forall₂_mem_right falls mem
      obtain ⟨p, origin, rfl⟩ := List.mem_map.1 member
      obtain ⟨⟨own, -⟩, plain⟩ := settled p origin
      refine ⟨t', (evaluated_of_falls falls own plain).1.overflows (fun rolled among => ?_) missing⟩
      show rolled ∈ s.log
      rw [logged]
      exact List.mem_append_right _ (List.mem_flatMap.2 ⟨t', mem, among⟩)

theorem stages_explained : Stages (fun t => Selective [t] ∧ t.isUnrolled = true)
    (fun t => Resolved t ∧ t.isRolled = false) Comes Summed Explained where
  other := by
    intro t alone own
    refine ⟨resolved_alone alone own.2, ?_⟩
    cases t with
    | dice rolled evaluated flavor =>
        cases evaluated with
        | false => rfl
        | true => cases own.2
    | _ => rfl
  number x flavor := ⟨.number x flavor, rfl⟩
  call := by
    rintro f xs e failed s - text ⟨⟩
    exact absurd failed (valued_apply f xs text)
  pool := by
    intro members modifiers old flavor results own come s summed
    have selective := own.1 _ _ _ _ _ List.mem_cons_self
    obtain ⟨dice, scored⟩ := run_applyPool selective _ s
    rw [scored]
    refine ⟨summed, .pool _ _ (scores_applyPool selective come (congrArg Prod.fst scored)) ?_, rfl⟩
    exact List.forall_mem_map.2 fun result mem => (come result mem).1
  finish := by
    intro ts resolved s summed
    have explained := leads_finish resolved summed s rfl
    rcases run : (finish ts).run.run s with ⟨e | result, s'⟩ <;> rw [run] at explained
    · exact explained
    · have finished := congrArg Prod.fst run
      exact ⟨explained, complete_finish (fun t mem => (resolved t mem).1) finished,
        totalAll_of_finish finished⟩

theorem leads_evaluate {formula : String} {ts : List Term} (read : Formula.read formula = .ok ts) :
    Leads Summed (fun result s => Summed s ∧ Comes result) Explained (evaluate ts) := by
  have known := (selective_read read).and (Formula.unrolled_read read)
  refine stages_explained.evaluate (known.mono ?_)
  rintro us ⟨selective, unrolled⟩ t mem
  exact ⟨selective_each selective t mem, unrolled t mem⟩

end Evaluation

/-! ## Rolls -/

namespace Roll

open Evaluation

variable {formula : String} {roll roll' : Roll} {roller roller' : Roller}
  {result : Except RollError Float}

/-- **Sums that do not fit leave a term without a value, and nothing else does.**  If a roll is
evaluated, all its terms have values, and all dice have totals.  If a term has none, it is dice
or a pool whose sum does not fit in 64 bits; and such a sum is never reported as one. -/
theorem evaluate_unresolved (read : Formula.read formula = .ok roll.terms)
    (fresh : roll.evaluated = false) (outcome : roll.evaluate roller = (result, roll', roller')) :
    (∀ total, result = .ok total →
        Everywhere (fun us => ∀ t ∈ us, t.isOperator = false → ∃ x, t.total? = some x) roll'.terms ∧
          ∀ rolled ∈ roll'.dice, ∃ n, rolled.total = .ok n) ∧
      (∀ text, result = .error (.calc (.unresolved text)) →
        ∃ t : Term, t.Overflows roll'.dice ∧ t.text = text) ∧
        ∀ term, result ≠ .error (.dice term .overflow) := by
  have leads := leads_evaluate read
  refine ⟨?_, ?_, ?_⟩
  · rintro total rfl
    obtain ⟨ts, s, evaluates, rfl, -⟩ := evaluate_ok outcome
    obtain ⟨summed, complete, comes⟩ := leads.ok (summed_start roller) evaluates
    exact ⟨everywhere_total? complete comes, summed⟩
  · rintro text rfl
    obtain ⟨s, evaluates, rfl, -⟩ := evaluate_error fresh outcome
    exact leads.error (summed_start roller) evaluates text rfl
  · rintro term rfl
    obtain ⟨d, -, -, m, -, forever⟩ := reasoned_evaluate read outcome term .overflow rfl
    cases forever

/-- Dice in a group, in a member of a pool, behind other dice. -/
theorem evaluate_unresolved_nested :
    ∃ (roll roll' : Roll) (roller' : Roller) (t : Term),
      Formula.read "\x7b1d4, 2 + (2d6min9223372036854775807)\x7dkh" = .ok roll.terms ∧
        roll.evaluate (.lowest 9) = (.error (.calc (.unresolved t.text)), roll', roller') ∧
          t.Overflows roll'.dice := by
  have fails : ∃ ts ∈
      (Formula.read "\x7b1d4, 2 + (2d6min9223372036854775807)\x7dkh").toOption,
      (match ((ofTerms ts).evaluate (.lowest 9)).1 with
        | .error (.calc (.unresolved _)) => true
        | _ => false) = true := by decide +kernel
  obtain ⟨ts, read, failed⟩ := fails
  rcases outcome : (ofTerms ts).evaluate (.lowest 9) with ⟨result, roll', roller'⟩
  rw [outcome] at failed
  split at failed
  · rename_i text same
    obtain rfl : result = _ := same
    have read : Formula.read _ = .ok (ofTerms ts).terms := eq_ok_of_toOption read
    obtain ⟨t, overflows, rfl⟩ := (evaluate_unresolved read rfl outcome).2.1 text rfl
    exact ⟨ofTerms ts, roll', roller', t, read, outcome, overflows⟩
  · cases failed

/-- Dice whose sum does not fit: the formula is accepted, and then has a term without a value. -/
theorem evaluate_overflow :
    ∃ (roll roll' : Roll) (roller' : Roller) (text : String),
      parse "2d6min9223372036854775807" = .ok roll ∧
        roll.evaluate (.lowest 2) = (.error (.calc (.unresolved text)), roll', roller') ∧
          roll'.dice.map Rolled.total = [.error .overflow] := by
  have fails : ∃ roll ∈ (parse "2d6min9223372036854775807").toOption,
      (match (roll.evaluate (.lowest 2)).1 with
        | .error (.calc (.unresolved _)) => true
        | _ => false) = true ∧
        (roll.evaluate (.lowest 2)).2.1.dice.map Rolled.total = [.error .overflow] := by
    decide +kernel
  obtain ⟨roll, parsed, failed, sums⟩ := fails
  rcases outcome : roll.evaluate (.lowest 2) with ⟨result, roll', roller'⟩
  rw [outcome] at failed sums
  split at failed
  · rename_i text same
    obtain rfl : result = _ := same
    exact ⟨roll, roll', roller', text, eq_ok_of_toOption parsed, outcome, sums⟩
  · cases failed

end Roll

end DiceFormula
