/-
# DiceFormula.Roll.Check -- checks and their outcomes

A check rolls six-sided dice and counts those at or under a difficulty.  It is
passed when as many as its baseline succeed.

The outcome of a check may be amended once: one of its dice is replaced by a new
one, which is judged as the others were.  The replaced die stays in the list,
with the new one directly behind it.
-/
import DiceFormula.Roll.Basic

namespace DiceFormula

set_option autoImplicit false

/-! ## Checks -/

/-- Whether a check has more or fewer dice than usual. -/
inductive Advantage where
  | normal
  | advantage
  | disadvantage
deriving DecidableEq, Repr

namespace Advantage

def all : List Advantage :=
  [normal, advantage, disadvantage]

def name : Advantage → String
  | normal => "normal"
  | advantage => "advantage"
  | disadvantage => "disadvantage"

/-- One die more or less, within counts. -/
def adjust (a : Advantage) (dice : Nat) : Nat :=
  match a with
  | normal => dice
  | advantage => min (dice + 1) Limit.mostCount
  | disadvantage => dice - 1

end Advantage

structure Check where
  label : String
  /-- the number of dice, and of successes needed to pass -/
  dice : Nat
  /-- the highest face that is a success -/
  difficulty : Nat
  advantage : Advantage
deriving DecidableEq, Repr

namespace Check

/-- The number of sides of the dice of checks. -/
def sides : Nat := 6

/-- The formula that the check rolls. -/
def formula (c : Check) : String :=
  toString (c.advantage.adjust c.dice) ++ "d" ++ toString sides ++ "cs<=" ++
    toString c.difficulty

end Check

/-! ## Outcomes -/

/-- Whether a die of an outcome was replaced. -/
inductive OutcomeState where
  | presented
  | amended
deriving DecidableEq, Repr

namespace OutcomeState

def all : List OutcomeState :=
  [presented, amended]

def name : OutcomeState → String
  | presented => "presented"
  | amended => "amended"

end OutcomeState

/-- What came of a check. -/
structure RollOutcome where
  label : String
  /-- the bound of the condition -/
  difficulty : Int
  /-- the number of successes needed to pass -/
  baseline : Nat
  sides : Nat
  /-- what makes a die a success -/
  condition : Condition
  /-- every die, replaced ones included -/
  dice : List Die
  successCount : Nat
  state : OutcomeState
deriving DecidableEq, Repr

/-- What became of a request to reroll. -/
inductive Reroll where
  | applied (replaced new : Die)
  | ignored
deriving DecidableEq, Repr

namespace RollOutcome

/-- The outcome of the first dice of a roll that count successes. -/
def ofRoll (label : String) (baseline : Nat) (r : Roll) : Except StateError RollOutcome :=
  if !r.evaluated then .error .notEvaluated
  else
    match r.dice.findSome? fun rolled => rolled.dice.successCondition?.map (rolled, ·) with
    | none => .error .noCountingDice
    | some (rolled, condition) =>
        .ok ⟨label, condition.bound, baseline, rolled.dice.sides, condition, rolled.rolls,
          rolled.successes, .presented⟩

/-! ## Rerolling -/

/-- The kept die at a position. -/
def keptDie? (o : RollOutcome) (index : Nat) : Option Die :=
  o.dice[index]?.filter Die.isKept

/-- The number of successes once one die takes another's place. -/
def recount (count : Nat) (old new : Die) : Nat :=
  let left := if old.isSuccess then count - 1 else count
  if new.isSuccess then min (left + 1) Limit.mostCount else left

/-- Puts a new die behind the die at a position, which becomes another. -/
def replaceAt (index : Nat) (replaced new : Die) (dice : List Die) : List Die :=
  dice.take index ++ replaced :: new :: dice.drop (index + 1)

/-- Rerolls a kept die: marks it as dropped and judges the new one. -/
def rerollDie (o : RollOutcome) (index : Nat) (old : Die) : Rolling (Reroll × RollOutcome) := do
  let marker := Modifier.reroll ⟨.equal, old.value⟩ false
  let replaced ← Rolling.ofFault (old.drop marker)
  let drawn ← Rolling.draw o.sides
  let added ← Rolling.ofFault (drawn.add marker)
  let new := added.score (o.condition.check added.value)
  pure (.applied replaced new,
    { o with
      dice := replaceAt index replaced new o.dice
      successCount := recount o.successCount old new
      state := .amended })

/-- Rerolls one die of an outcome.  An amended outcome stays as it is. -/
def reroll (o : RollOutcome) (index : Nat) :
    Rolling (Except StateError (Reroll × RollOutcome)) :=
  match o.state with
  | .amended => pure (.ok (.ignored, o))
  | .presented =>
      match o.keptDie? index with
      | none => pure (.error (.invalidDie index))
      | some old => do
          let result ← rerollDie o index old
          pure (.ok result)

/-! ## Views -/

def passed (o : RollOutcome) : Bool :=
  o.baseline ≤ o.successCount

/-- Whether a reroll is offered. -/
def rerollAvailable (o : RollOutcome) : Bool :=
  o.state == .presented && !o.passed

def views (o : RollOutcome) : List DieView :=
  o.dice.map Die.view

def tooltip (o : RollOutcome) : String :=
  o.label ++ ": " ++ toString o.successCount ++ "/" ++ toString o.baseline ++ " successes"

/-- The dice of the outcome, what they show, and the number of successes. -/
def describe (o : RollOutcome) (limit : Option Nat) : String :=
  toString (o.dice.countP Die.isInitial) ++ "d" ++ toString o.sides ++ "cs" ++
    o.condition.text ++ Die.listText o.dice limit ++ " = " ++ toString o.successCount

end RollOutcome

/-! ## Rolling checks -/

/-- Rolls a check. -/
def Check.roll (c : Check) (roller : Roller) : Except RollError RollOutcome × Roller :=
  match Roll.ofFormula .default .empty c.formula with
  | .error e => (.error (.format e), roller)
  | .ok r =>
      match r.evaluate roller with
      | (.error e, _, roller) => (.error e, roller)
      | (.ok _, r, roller) =>
          match RollOutcome.ofRoll c.label c.dice r with
          | .ok outcome => (.ok outcome, roller)
          | .error e => (.error (.state e), roller)

end DiceFormula
