/-
# DiceFormula.Proofs.Roll.Attempts -- evaluating a roll again and again

An evaluation that fails leaves the roll as it was but for the dice, and these make no difference
to the next one (`evaluate_dice`): a roll can be tried again.  Once an evaluation succeeded, all
others are refused (`evaluate_again`).

`attempts` are the calls that are made with one roller after the other.  In them some fail, then
one succeeds, and the others are refused (`attempts_once`).
-/
import DiceFormula.Proofs.Roll.Drawn

namespace DiceFormula

set_option autoImplicit false

/-- What came of an attempt to evaluate a roll. -/
structure Attempt where
  given : Roller
  result : Except RollError Float
  /-- the roll afterwards -/
  after : Roll
  /-- the roller afterwards -/
  left : Roller

namespace Attempt

def succeeds (a : Attempt) : Bool := a.result.toOption.isSome

/-- The attempt came out as an attempt with the roll would, if that is the first one. -/
def AsFirst (roll : Roll) (a : Attempt) : Prop :=
  roll.evaluate a.given = (a.result, a.after, a.left)

/-- The attempt failed as a first one, and left the roll to be tried again. -/
structure Fails (roll : Roll) (a : Attempt) : Prop where
  error : ∃ e, a.result = .error e
  first : a.AsFirst roll
  kept : a.after = { roll with dice := a.after.dice }
  unfinished : a.after.total = none
  unevaluated : a.after.evaluated = false

/-- The attempt succeeded as a first one, and finished the roll. -/
structure Finishes (roll : Roll) (a : Attempt) : Prop where
  first : a.AsFirst roll
  total : ∃ total, a.result = .ok total ∧ a.after.total = some total
  evaluated : a.after.evaluated = true

/-- The attempt was refused, and nothing came of it. -/
structure Refused (roll : Roll) (a : Attempt) : Prop where
  error : a.result = .error (.state .alreadyEvaluated)
  same : a.after = roll
  undrawn : a.left = a.given

theorem Fails.not_succeeds {roll : Roll} {a : Attempt} (fails : Fails roll a) :
    a.succeeds = false := by
  obtain ⟨e, error⟩ := fails.error
  rw [succeeds, error]
  rfl

theorem Refused.not_succeeds {roll : Roll} {a : Attempt} (refused : Refused roll a) :
    a.succeeds = false := by
  rw [succeeds, refused.error]
  rfl

end Attempt

namespace Roll

open Attempt

/-! ## One attempt -/

/-- Evaluates a roll with one roller after the other, each time as the time before left it. -/
def attempts (roll : Roll) : List Roller → List Attempt
  | [] => []
  | roller :: rest =>
      let (result, after, left) := roll.evaluate roller
      ⟨roller, result, after, left⟩ :: attempts after rest

/-- The dice of an earlier attempt make no difference. -/
theorem evaluate_dice {roll : Roll} (fresh : roll.evaluated = false) (dice : List Rolled)
    (roller : Roller) : { roll with dice := dice }.evaluate roller = roll.evaluate roller := by
  unfold evaluate
  rw [fresh]
  rfl

/-- A roll is evaluated only once. -/
theorem evaluate_again {roll : Roll} (evaluated : roll.evaluated = true) (roller : Roller) :
    roll.evaluate roller = (.error (.state .alreadyEvaluated), roll, roller) := by
  rw [evaluate, evaluated]
  rfl

/-! ## Many attempts -/

theorem attempts_refused {roll : Roll} (evaluated : roll.evaluated = true)
    (rollers : List Roller) : ∀ a ∈ attempts roll rollers, Refused roll a := by
  induction rollers with
  | nil => exact List.forall_mem_nil _
  | cons roller rest ih =>
      rw [attempts, evaluate_again evaluated]
      exact List.forall_mem_cons.2 ⟨⟨rfl, rfl, rfl⟩, ih⟩

/-- Attempts of which some fail, one finishes the roll, and the others are refused; or all of which
fail. -/
inductive Once (roll : Roll) : List Attempt → Prop
  | none : Once roll []
  | fails {a : Attempt} {rest : List Attempt} (fails : Fails roll a) (once : Once roll rest) :
      Once roll (a :: rest)
  | finishes {a : Attempt} {rest : List Attempt} (finishes : Finishes roll a)
      (refused : ∀ b ∈ rest, Refused a.after b) : Once roll (a :: rest)

/-- However many attempts were made before, the roll is what it was but for its dice. -/
theorem once_attempts {roll : Roll} (unfinished : roll.total = none)
    (fresh : roll.evaluated = false) (rollers : List Roller) (dice : List Rolled) :
    Once roll (attempts { roll with dice := dice } rollers) := by
  induction rollers generalizing dice with
  | nil => exact .none
  | cons roller rest ih =>
      rw [attempts, evaluate_dice fresh]
      rcases outcome : roll.evaluate roller with ⟨e | total, after, left⟩
      · obtain ⟨s, -, rfl, -⟩ := evaluate_error fresh outcome
        exact .fails ⟨⟨e, rfl⟩, outcome, rfl, unfinished, fresh⟩ (ih s.log)
      · obtain ⟨ts, s, -, rfl, -⟩ := evaluate_ok outcome
        exact .finishes ⟨outcome, ⟨total, rfl, rfl⟩, rfl⟩ (attempts_refused rfl rest)

theorem Once.split {roll : Roll} {all : List Attempt} (once : Once roll all) :
    ∃ failed rest, all = failed ++ rest ∧ (∀ a ∈ failed, Fails roll a) ∧
      (rest = [] ∨ ∃ a later, rest = a :: later ∧ Finishes roll a ∧
        ∀ b ∈ later, Refused a.after b) := by
  induction once with
  | none => exact ⟨[], [], rfl, List.forall_mem_nil _, .inl rfl⟩
  | @fails a _ fails once ih =>
      obtain ⟨failed, rest, rfl, each, ends⟩ := ih
      exact ⟨a :: failed, rest, rfl, List.forall_mem_cons.2 ⟨fails, each⟩, ends⟩
  | @finishes a rest finishes refused =>
      exact ⟨[], a :: rest, rfl, List.forall_mem_nil _, .inr ⟨a, rest, rfl, finishes, refused⟩⟩

theorem Once.countP_le {roll : Roll} {all : List Attempt} (once : Once roll all) :
    all.countP succeeds ≤ 1 := by
  induction once with
  | none => exact Nat.zero_le 1
  | fails fails once ih => rwa [List.countP_cons_of_neg (by simp [fails.not_succeeds])]
  | @finishes a rest finishes refused =>
      have others : rest.countP succeeds = 0 :=
        List.countP_eq_zero.2 fun b mem => by simp [(refused b mem).not_succeeds]
      rw [List.countP_cons, others]
      split <;> omega

/-! ## Rolls that were read -/

/-- A roll as it is made from a formula, with or without data. -/
inductive Parsed : Roll → Prop
  | plain {formula : String} {roll : Roll} (parsed : parse formula = .ok roll) : Parsed roll
  | data {options : RollOptions} {data : Context} {formula : String} {roll : Roll}
      (parsed : ofFormula options data formula = .ok roll) : Parsed roll

theorem Parsed.fresh {roll : Roll} (parsed : Parsed roll) :
    roll.total = none ∧ roll.evaluated = false := by
  cases parsed with
  | plain parsed => exact (parse_ok parsed).2
  | @data options data formula roll parsed =>
      unfold ofFormula at parsed
      dsimp only at parsed
      rcases plain : parse (data.substitute options.missingData formula).formula with e | roll'
      · rw [plain] at parsed
        cases parsed
      · rw [plain] at parsed
        cases parsed
        exact (parse_ok plain).2

/-- **A roll is evaluated at most once, and can be tried until it is.**  Attempts that fail change
nothing but the dice, so that the next one comes out as if it were the first; once one succeeded,
all others are refused, draw nothing and change nothing. -/
theorem attempts_once {roll : Roll} (parsed : Parsed roll) (rollers : List Roller) :
    (attempts roll rollers).countP succeeds ≤ 1 ∧
      ∃ failed rest, attempts roll rollers = failed ++ rest ∧ (∀ a ∈ failed, Fails roll a) ∧
        (rest = [] ∨ ∃ a later, rest = a :: later ∧ Finishes roll a ∧
          ∀ b ∈ later, Refused a.after b) := by
  obtain ⟨unfinished, fresh⟩ := parsed.fresh
  have once := once_attempts unfinished fresh rollers roll.dice
  exact ⟨once.countP_le, once.split⟩

/-- Too many dice, then two of them, and once more. -/
theorem attempts_once_third :
    ∃ roll : Roll, Parsed roll ∧
      (attempts roll [.tape [12345], .tape [2, 6, 3], .tape [1, 5]]).map succeeds =
          [false, true, false] ∧
        (attempts roll [.tape [12345], .tape [2, 6, 3], .tape [1, 5]]).countP succeeds ≤ 1 := by
  have comes : ∃ roll ∈ (parse "(1d20000)d6").toOption,
      (attempts roll [.tape [12345], .tape [2, 6, 3], .tape [1, 5]]).map succeeds =
        [false, true, false] := by
    decide +kernel
  obtain ⟨roll, parsed, results⟩ := comes
  have read : Parsed roll := .plain (eq_ok_of_toOption parsed)
  exact ⟨roll, read, results, (attempts_once read _).1⟩

end Roll

end DiceFormula
