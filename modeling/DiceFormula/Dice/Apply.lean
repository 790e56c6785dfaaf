/-
# DiceFormula.Dice.Apply -- what modifiers do to the dice of a roll

`Modifier.apply` takes the dice of a roll to the dice after the modifier.  It
only ever looks at the dice that are still kept, it never removes or reorders
any, and the dice that it adds stand behind the others.

* Keeping and dropping go by rank: `ranked` lists the positions of the kept dice
  from the lowest value up, and of equal values the earlier die first.  From the
  highest down it is that list backwards.
* Rerolling and exploding may go on for several rounds.  Before a repeated one
  starts, `endless` refuses a condition that every face meets.  Each round draws
  at least one die, so the rounds end with the supply of the roller.
-/
import DiceFormula.Dice.Roller

namespace DiceFormula

set_option autoImplicit false

namespace Die

/-! ## Ranks -/

/-- The positions and values of the kept dice. -/
def keptAt (dice : List Die) : List (Nat × Int) :=
  (dice.zipIdx.filter fun (die, _) => die.isKept).map fun (die, i) => (i, die.value)

/-- The positions of the kept dice by value, the lowest first. -/
def ascending (dice : List Die) : List Nat :=
  ((keptAt dice).mergeSort fun a b => a.2 ≤ b.2).map Prod.fst

/-- The positions of the kept dice from one end of the values to the other. -/
def ranked (highestFirst : Bool) (dice : List Die) : List Nat :=
  if highestFirst then (ascending dice).reverse else ascending dice

/-- Drops the dice at some positions. -/
def dropAt (m : Modifier) (positions : List Nat) (dice : List Die) : Except Fault (List Die) :=
  dice.zipIdx.mapM fun (die, i) => if i ∈ positions then die.drop m else .ok die

/-- Drops all but the first `n` of the ranked dice. -/
def keepFirst (m : Modifier) (highestFirst : Bool) (n : Nat) (dice : List Die) :
    Except Fault (List Die) :=
  dropAt m ((ranked highestFirst dice).drop n) dice

/-- Drops the first `n` of the ranked dice. -/
def dropFirst (m : Modifier) (highestFirst : Bool) (n : Nat) (dice : List Die) :
    Except Fault (List Die) :=
  dropAt m ((ranked highestFirst dice).take n) dice

/-! ## Values and scores -/

/-- Changes the kept dice that pass a test. -/
def mapKept (test : Int → Bool) (f : Die → Die) (dice : List Die) : List Die :=
  dice.map fun die => if die.isKept && test die.value then f die else die

def raiseAll (m : Modifier) (least : Int) (dice : List Die) : List Die :=
  mapKept (fun value => value < least) (change m least) dice

def capAll (m : Modifier) (most : Int) (dice : List Die) : List Die :=
  mapKept (fun value => most < value) (change m most) dice

/-- Marks every kept die as a success or a failure. -/
def scoreAll (condition : Condition) (dice : List Die) : List Die :=
  dice.map fun die => if die.isKept then die.score (condition.check die.value) else die

/-- Marks the kept dice that meet a condition as failures. -/
def failAll (condition : Condition) (dice : List Die) : List Die :=
  mapKept condition.check (score false) dice

/-- The number of kept dice with a mark, as far as it is a count. -/
def countKept (mark : Die → Bool) (dice : List Die) : Nat :=
  min (dice.countP fun die => die.isKept && mark die) Limit.mostCount

def successes (dice : List Die) : Nat :=
  countKept isSuccess dice

def failures (dice : List Die) : Nat :=
  countKept isFailure dice

end Die

/-! ## Rerolling -/

/-- Whether the die is still kept and meets the condition. -/
def Condition.selects (c : Condition) (die : Die) : Bool :=
  die.isKept && c.check die.value

namespace Modifier

/-- Rerolls the dice that meet the condition, once. -/
def rerollOnce (m : Modifier) (condition : Condition) (sides : Nat) (dice : List Die) :
    Rolling (List Die) := do
  let added ← Rolling.drawAdded m sides (dice.countP condition.selects)
  let old ← Rolling.ofFault
    (dice.mapM fun die => if condition.selects die then die.drop m else .ok die)
  pure (old ++ added)

/-- Rerolls until no kept die meets the condition, for at most a number of
rounds. -/
def rerollRounds (m : Modifier) (condition : Condition) (sides : Nat) :
    Nat → List Die → Rolling (List Die)
  | 0, _ => throw (.fault .diceSpent)
  | rounds + 1, dice =>
      if dice.any condition.selects then do
        let dice ← rerollOnce m condition sides dice
        rerollRounds m condition sides rounds dice
      else pure dice

def applyReroll (m : Modifier) (condition : Condition) (again : Bool) (sides : Nat)
    (dice : List Die) : Rolling (List Die) := do
  if again then
    if condition.alwaysMet sides then Rolling.fail (.infiniteRolls m sides)
    else
      let roller ← get
      rerollRounds m condition sides (roller.supply + 1) dice
  else rerollOnce m condition sides dice

/-! ## Exploding -/

/-- Whether a value makes a die explode. -/
def explodes (condition : Option Condition) (sides : Nat) (value : Int) : Bool :=
  match condition with
  | some condition => condition.check value
  | none => value == sides

/-- Whether every face makes a die explode. -/
def endless (condition : Option Condition) (sides : Nat) : Bool :=
  match condition with
  | some condition => condition.alwaysMet sides
  | none => sides == 1

/-- Adds `n` dice, then one for each of these that explodes, and so on, for at
most a number of rounds.  Gives the added dice. -/
def explodeRounds (m : Modifier) (condition : Option Condition) (sides : Nat) :
    Nat → Nat → Rolling (List Die)
  | 0, _ => throw (.fault .diceSpent)
  | rounds + 1, n =>
      if n = 0 then pure []
      else do
        let added ← Rolling.drawAdded m sides n
        let next := added.countP fun die => explodes condition sides die.value
        let rest ← explodeRounds m condition sides rounds next
        pure (added ++ rest)

def applyExplode (m : Modifier) (condition : Option Condition) (again : Bool) (sides : Nat)
    (dice : List Die) : Rolling (List Die) := do
  let exploding := dice.countP fun die => die.isKept && explodes condition sides die.value
  if again then
    if endless condition sides then Rolling.fail (.infiniteRolls m sides)
    else
      let roller ← get
      let added ← explodeRounds m condition sides (roller.supply + 1) exploding
      pure (dice ++ added)
  else
    let added ← Rolling.drawAdded m sides exploding
    pure (dice ++ added)

/-! ## Every modifier -/

/-- The dice of a roll after a modifier. -/
def apply (m : Modifier) (sides : Nat) (dice : List Die) : Rolling (List Die) :=
  match m with
  | reroll condition again => applyReroll m condition again sides dice
  | explode condition again => applyExplode m condition again sides dice
  | keepHigh n => Rolling.ofFault (Die.keepFirst m true n dice)
  | keepLow n => Rolling.ofFault (Die.keepFirst m false n dice)
  | dropHigh n => Rolling.ofFault (Die.dropFirst m true n dice)
  | dropLow n => Rolling.ofFault (Die.dropFirst m false n dice)
  | raise least => pure (Die.raiseAll m least dice)
  | cap most => pure (Die.capAll m most dice)
  | countSuccess condition => pure (Die.scoreAll condition dice)
  | countFailure condition => pure (Die.failAll condition dice)

/-- Applies modifiers in the order written. -/
def applyAll (sides : Nat) : List Modifier → List Die → Rolling (List Die)
  | [], dice => pure dice
  | m :: rest, dice => do
      let dice ← m.apply sides dice
      applyAll sides rest dice

end Modifier

end DiceFormula
