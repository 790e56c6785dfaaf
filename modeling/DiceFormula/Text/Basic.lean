/-
# DiceFormula.Text.Basic -- character classes, trimming and positions

Formulas are read as lists of characters.  Three character classes decide how
they are cut up:

* `isBlank`: Unicode's `White_Space`, which surrounds operands and operators;
* `isDecimalDigit`: Unicode's decimal digits (general category `Nd`).  A
  fragment in other digits than ASCII *looks* numeric, though no number is read
  from it;
* `isWordChar`: ASCII letters, ASCII digits and the underscore, of which the
  names of functions are made.

Positions in a formula are byte offsets of its UTF-8 text (`byteLength`), and a
`Span` is a range of them.
-/

namespace DiceFormula

set_option autoImplicit false

namespace Text

/-! ## Character classes -/

/-- Unicode's `White_Space` property. -/
def isBlank (c : Char) : Bool :=
  let n := c.toNat
  (9 ≤ n && n ≤ 13) || n == 0x20 || n == 0x85 || n == 0xA0 || n == 0x1680 ||
    (0x2000 ≤ n && n ≤ 0x200A) || n == 0x2028 || n == 0x2029 || n == 0x202F ||
    n == 0x205F || n == 0x3000

/-- The code points of the zeros outside ASCII.  Unicode assigns decimal digits
in runs of ten, each starting with its zero. -/
def zeros : List Nat :=
  [0x660, 0x6F0, 0x7C0, 0x966, 0x9E6, 0xA66, 0xAE6, 0xB66, 0xBE6, 0xC66, 0xCE6,
    0xD66, 0xDE6, 0xE50, 0xED0, 0xF20, 0x1040, 0x1090, 0x17E0, 0x1810, 0x1946,
    0x19D0, 0x1A80, 0x1A90, 0x1B50, 0x1BB0, 0x1C40, 0x1C50, 0xA620, 0xA8D0,
    0xA900, 0xA9D0, 0xA9F0, 0xAA50, 0xABF0, 0xFF10, 0x104A0, 0x10D30, 0x10D40,
    0x11066, 0x110F0, 0x11136, 0x111D0, 0x112F0, 0x11450, 0x114D0, 0x11650,
    0x116C0, 0x116D0, 0x116DA, 0x11730, 0x118E0, 0x11950, 0x11BF0, 0x11C50,
    0x11D50, 0x11DA0, 0x11F50, 0x16130, 0x16A60, 0x16AC0, 0x16B50, 0x16D70,
    0x1CCF0, 0x1D7CE, 0x1D7D8, 0x1D7E2, 0x1D7EC, 0x1D7F6, 0x1E140, 0x1E2F0,
    0x1E4F0, 0x1E5F1, 0x1E950, 0x1FBF0]

/-- A decimal digit of any script. -/
def isDecimalDigit (c : Char) : Bool :=
  c.isDigit || zeros.any fun n => n ≤ c.toNat && c.toNat < n + 10

/-- An ASCII letter, an ASCII digit or an underscore. -/
def isWordChar (c : Char) : Bool :=
  c.isAlphanum || c == '_'

/-- The lower case of a character, where it can be an ASCII letter: besides the
ASCII capitals only the Kelvin sign has such a lower case. -/
def lower (c : Char) : Char :=
  if c.toNat = 0x212A then 'k' else c.toLower

/-! ## Trimming -/

def trimStart (s : List Char) : List Char :=
  s.dropWhile isBlank

def trimEnd (s : List Char) : List Char :=
  (s.reverse.dropWhile isBlank).reverse

def trim (s : List Char) : List Char :=
  trimEnd (trimStart s)

def allBlank (s : List Char) : Bool :=
  s.all isBlank

/-! ## Beginnings -/

/-- What follows a given beginning. -/
def after? : List Char → List Char → Option (List Char)
  | [], s => some s
  | c :: beginning, d :: s => if c = d then after? beginning s else none
  | _ :: _, [] => none

/-! ## Positions -/

/-- The number of bytes of the UTF-8 form. -/
def byteLength : List Char → Nat
  | [] => 0
  | c :: s => c.utf8Size + byteLength s

end Text

/-- A range of byte offsets, from `start` up to but not including `stop`. -/
structure Span where
  start : Nat
  stop : Nat
deriving DecidableEq, Repr

namespace Span

/-- The span of a text that starts at a byte offset. -/
def ofText (offset : Nat) (text : List Char) : Span :=
  ⟨offset, offset + Text.byteLength text⟩

/-- The smallest span that covers both. -/
def cover (a b : Span) : Span :=
  ⟨min a.start b.start, max a.stop b.stop⟩

/-- Covers what is known of two spans. -/
def cover? : Option Span → Option Span → Option Span
  | some a, some b => some (a.cover b)
  | some a, none => some a
  | none, b => b

end Span

end DiceFormula
