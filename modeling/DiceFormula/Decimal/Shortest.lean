/-
# DiceFormula.Decimal.Shortest -- the fewest digits that read back

A finite double is the nearest double of a whole interval of numbers.  Of the
decimals in that interval `shortest` picks one with the fewest digits, of those
the nearest to the double, and of two equally near ones one by a rule (`Tie`).

The interval of `m * 2 ^ q` reaches half way to the neighbours: `m ± 1/2` units
of `2 ^ q`, or only `1/4` below a power of two, where the doubles beneath lie
twice as close.  Its ends belong to it when `m` is even.  A decimal grid with
spacing `10 ^ k` meets the interval exactly when one of the two grid points
around the double does, so the search tries grids from coarse to fine and looks
at two points of each.
-/
import DiceFormula.Decimal.Basic

namespace DiceFormula

set_option autoImplicit false

namespace Decimal

/-- Which of two equally near decimals is taken. -/
inductive Tie where
  | larger
  /-- the one whose last digit is even -/
  | even
deriving DecidableEq, Repr

/-- Takes `n` or `n + 1`. -/
def Tie.take (tie : Tie) (n : Nat) : Nat :=
  match tie with
  | larger => n + 1
  | even => if n % 2 = 0 then n else n + 1

/-- The interval around `m * 2 ^ q` seen from the grid of spacing `10 ^ k`, in a
unit that makes all its numbers whole. -/
structure Grid where
  /-- the spacing of the grid -/
  step : Nat
  /-- the double -/
  value : Nat
  /-- the ends of the interval -/
  low : Nat
  high : Nat
  /-- whether the ends belong to the interval -/
  closed : Bool

namespace Grid

/-- Looks at `m * 2 ^ q` from the multiples of `10 ^ k`. -/
def of (m : Nat) (q k : Int) : Grid :=
  let scale := Nat.pow 2 (q - 2).toNat * Nat.pow 10 (-k).toNat
  let below := if m = leadingBit ∧ -1074 < q then 1 else 2
  { step := Nat.pow 10 k.toNat * Nat.pow 2 (2 - q).toNat
    value := 4 * m * scale
    low := (4 * m - below) * scale
    high := (4 * m + 2) * scale
    closed := m % 2 = 0 }

/-- Whether the double is the nearest one of a multiple of the spacing. -/
def holds (g : Grid) (n : Nat) : Bool :=
  let x := n * g.step
  if g.closed then g.low ≤ x && x ≤ g.high else g.low < x && x < g.high

/-- The grid point in the interval that is nearest to the double. -/
def nearest? (g : Grid) (tie : Tie) : Option Nat :=
  let n := g.value / g.step
  let below := g.value - n * g.step
  let above := (n + 1) * g.step - g.value
  match g.holds n, g.holds (n + 1) with
  | true, true =>
      if below < above then some n
      else if above < below then some (n + 1)
      else some (tie.take n)
  | true, false => some n
  | false, true => some (n + 1)
  | false, false => none

end Grid

/-- All digits of `m * 2 ^ q`: a half is five tenths. -/
def exact (m : Nat) (q : Int) : Decimal :=
  if 0 ≤ q then ⟨m * Nat.pow 2 q.toNat, 0⟩ else ⟨m * Nat.pow 5 (-q).toNat, q⟩

/-- Tries the grids of spacing `10 ^ k`, `10 ^ (k - 1)` and so on, and settles
for all digits when the tries are used up. -/
def search (tie : Tie) (m : Nat) (q : Int) : Nat → Int → Decimal
  | 0, _ => exact m q
  | tries + 1, k =>
      match (Grid.of m q k).nearest? tie with
      | some n => ⟨n, k⟩
      | none => search tie m q tries (k - 1)

/-- A power of ten that no double of this magnitude reaches. -/
def ceiling (m : Nat) (q : Int) : Int :=
  ((Nat.log2 m : Int) + 1 + q) * 1233 / 4096 + 1

/-- The shortest decimal that reads back as `m * 2 ^ q`. -/
def shortest (tie : Tie) (m : Nat) (q : Int) : Decimal :=
  if m = 0 then ⟨0, 0⟩ else search tie m q 40 (ceiling m q)

end Decimal

end DiceFormula
