import DiceFormula.Main
import DiceFormula.Roll.Json
import DiceFormula.Proofs.Double.Parts
import DiceFormula.Proofs.Double.Rounding
import DiceFormula.Proofs.Double.Decimal
import DiceFormula.Proofs.Double.Shortest
import DiceFormula.Proofs.Double.Alike
import DiceFormula.Proofs.Double.Numeral
import DiceFormula.Proofs.Arithmetic.Tokens
import DiceFormula.Proofs.Arithmetic.Grammar
import DiceFormula.Proofs.Arithmetic.Direct
import DiceFormula.Proofs.Arithmetic.Items
import DiceFormula.Proofs.Formula.Total
import DiceFormula.Proofs.Formula.Matched
import DiceFormula.Proofs.Formula.Strand
import DiceFormula.Proofs.Formula.Links
import DiceFormula.Proofs.Formula.Barrier
import DiceFormula.Proofs.Formula.Blocks
import DiceFormula.Proofs.Formula.Arguments
import DiceFormula.Proofs.Dice.Text
import DiceFormula.Proofs.Dice.Reread
import DiceFormula.Proofs.Json.Fields
import DiceFormula.Proofs.Json.Tokens
import DiceFormula.Proofs.Json.Text
import DiceFormula.Proofs.Dice.Json
import DiceFormula.Proofs.Formula.Fragments
import DiceFormula.Proofs.Formula.Settled
import DiceFormula.Proofs.Formula.Shown
import DiceFormula.Proofs.Formula.Canonical
import DiceFormula.Proofs.Formula.Alone
import DiceFormula.Proofs.Arithmetic.Functions
import DiceFormula.Proofs.Roll.Operands
import DiceFormula.Proofs.Roll.Arithmetic
import DiceFormula.Proofs.Dice.Drawn
import DiceFormula.Proofs.Dice.Stored
import DiceFormula.Proofs.Formula.Everywhere
import DiceFormula.Proofs.Formula.Json
import DiceFormula.Proofs.Roll.Stepwise
import DiceFormula.Proofs.Roll.Drawn
import DiceFormula.Proofs.Arithmetic.Adjacent
import DiceFormula.Proofs.Roll.Adjacent
import DiceFormula.Proofs.Formula.Waiting
import DiceFormula.Proofs.Roll.Waiting
import DiceFormula.Proofs.Roll.Order
import DiceFormula.Proofs.Dice.Selective
import DiceFormula.Proofs.Roll.Complete
import DiceFormula.Proofs.Roll.Stored
import DiceFormula.Proofs.Roll.Attempts
import DiceFormula.Proofs.Roll.Rerolls
import DiceFormula.Proofs.Dice.Scored
import DiceFormula.Proofs.Roll.Scored
import DiceFormula.Proofs.Roll.Checks
import DiceFormula.Proofs.Dice.Steady
import DiceFormula.Proofs.Roll.Steady
import DiceFormula.Proofs.Arithmetic.Ends
import DiceFormula.Proofs.Roll.Constant
import DiceFormula.Proofs.Context
import DiceFormula.Proofs.Roll.Json
import DiceFormula.Proofs.Arithmetic.Derivation
import DiceFormula.Proofs.Formula.Neighbours
import DiceFormula.Proofs.Formula.Places
import DiceFormula.Proofs.Formula.Coverage
import DiceFormula.Proofs.Formula.Nesting
import DiceFormula.Proofs.Dice.Alphabet
import DiceFormula.Proofs.Formula.Commas
import DiceFormula.Proofs.Double.Whole
import DiceFormula.Proofs.Dice.Counted
import DiceFormula.Proofs.Roll.Alone
import DiceFormula.Proofs.Roll.Counted
import DiceFormula.Proofs.Formula.Balanced
import DiceFormula.Proofs.Double.Sign
import DiceFormula.Proofs.Arithmetic.Layout
import DiceFormula.Proofs.Arithmetic.NormalText
import DiceFormula.Proofs.Double.NearestWhole
import DiceFormula.Proofs.Dice.Refused
import DiceFormula.Proofs.Roll.Stages
import DiceFormula.Proofs.Roll.Refused
import DiceFormula.Proofs.Roll.Unresolved
import DiceFormula.Proofs.Roll.Rounded
import DiceFormula.Proofs.Dice.Repeated
import DiceFormula.Proofs.Dice.Endless
import DiceFormula.Proofs.Dice.History
import DiceFormula.Proofs.Roll.Faults
import DiceFormula.Proofs.Dice.Totals
import DiceFormula.Proofs.Dice.Ranked
import DiceFormula.Proofs.Dice.Active
import DiceFormula.Proofs.Dice.Monotone
import DiceFormula.Proofs.Dice.Successes
import DiceFormula.Proofs.Dice.Listing
import DiceFormula.Proofs.Json.Paths
import DiceFormula.Proofs.Double.Exponent
import DiceFormula.Proofs.Context.Numbers
import DiceFormula.Proofs.Formula.Single
import DiceFormula.Proofs.Formula.Flavored
import DiceFormula.Proofs.Formula.Opaque
import DiceFormula.Proofs.Formula.Leaves
import DiceFormula.Proofs.Formula.Rewritten
