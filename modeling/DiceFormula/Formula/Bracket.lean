/-
# DiceFormula.Formula.Bracket -- brackets and flavor

A formula has three kinds of brackets.  Square brackets hold flavor: from a `[`
to the next `]` everything is one `Lexeme`, whatever it is.  Round and curly
brackets hold groups; they nest, and each is closed by its like.

`Outline.of` finds the outermost groups of one kind in a text.  While it looks
for round groups it passes over curly ones, whose contents are read later.
-/
import DiceFormula.Formula.Error

namespace DiceFormula

set_option autoImplicit false

/-! ## Lexemes -/

/-- A character of a formula, or its flavor. -/
inductive Lexeme where
  | char (c : Char)
  | flavor (text : List Char)
  /-- the rest of a text behind a `[` that is never closed -/
  | unclosedFlavor (rest : List Char)
deriving DecidableEq, Repr

namespace Lexeme

/-- What a lexeme was read from. -/
def text : Lexeme → List Char
  | char c => [c]
  | flavor text => '[' :: text ++ [']']
  | unclosedFlavor rest => '[' :: rest

def textAll (lexemes : List Lexeme) : List Char :=
  lexemes.flatMap text

mutual

/-- Cuts a text into lexemes. -/
def scan : List Char → List Lexeme
  | [] => []
  | c :: s => if c = '[' then scanFlavor [] s else .char c :: scan s

/-- Cuts a text inside flavor, with the flavor so far reversed. -/
def scanFlavor (read : List Char) : List Char → List Lexeme
  | [] => [.unclosedFlavor read.reverse]
  | c :: s => if c = ']' then .flavor read.reverse :: scan s else scanFlavor (c :: read) s

end

/-- The character, if the lexeme is one. -/
def char? : Lexeme → Option Char
  | char c => some c
  | _ => none

end Lexeme

/-! ## Brackets -/

/-- The brackets of groups. -/
inductive Bracket where
  | round
  | curly
deriving DecidableEq, Repr

namespace Bracket

def opening : Bracket → Char
  | round => '('
  | curly => '\x7b'

def closing : Bracket → Char
  | round => ')'
  | curly => '\x7d'

end Bracket

/-! ## Outlines -/

/-- The outermost groups of a text, from left to right. -/
inductive Outline where
  /-- text without a group -/
  | plain (text : List Lexeme)
  /-- text up to where the brackets do not match -/
  | broken (text : List Lexeme) (e : FormatError)
  /-- text, a group behind it, and the rest behind that -/
  | group (before inner : List Lexeme) (rest : Outline)
deriving Repr

namespace Outline

/-- The text in front of the first group. -/
def lead : Outline → List Lexeme
  | plain text => text
  | broken text _ => text
  | group before _ _ => before

/-- A group that is still open. -/
structure Open where
  /-- where it opened -/
  start : Nat
  /-- what it holds so far, reversed -/
  inner : List Lexeme
  /-- how many brackets of its kind opened inside it -/
  depth : Nat

/-- A curly group that is passed over. -/
structure Passed where
  start : Nat
  depth : Nat

/-- What is known at a position of the text. -/
structure State where
  /-- the text behind the last group, reversed -/
  before : List Lexeme
  group : Option Open
  passed : Option Passed

namespace State

def initial : State :=
  ⟨[], none, none⟩

/-- Takes a lexeme as text. -/
def push (s : State) (l : Lexeme) : State :=
  match s.group with
  | none => { s with before := l :: s.before }
  | some g => { s with group := some { g with inner := l :: g.inner } }

end State

/-- The error of a bracket that is still open at the end of the text. -/
def unclosed? (b : Bracket) (stop : Nat) (s : State) : Option FormatError :=
  match s.passed, s.group with
  | some p, _ => some (.unclosed Bracket.curly.opening (some ⟨p.start, stop⟩))
  | none, some g => some (.unclosed b.opening (some ⟨g.start, stop⟩))
  | none, none => none

/-- What a character does to a curly group that is passed over. -/
def Passed.step (p : Passed) (c : Char) : Option Passed :=
  if c = Bracket.curly.opening then some { p with depth := p.depth + 1 }
  else if c = Bracket.curly.closing then
    if p.depth = 0 then none else some { p with depth := p.depth - 1 }
  else some p

/-- The groups of a text that ends at a byte offset, read from another on. -/
def scan (b : Bracket) (stop : Nat) : State → Nat → List Lexeme → Outline
  | s, _, [] =>
      match unclosed? b stop s with
      | some e => .broken s.before.reverse e
      | none => .plain s.before.reverse
  | s, pos, .unclosedFlavor _ :: _ =>
      .broken s.before.reverse (.unclosed '[' (some ⟨pos, stop⟩))
  | s, pos, .flavor text :: rest =>
      scan b stop (s.push (.flavor text))
        (pos + Text.byteLength (Lexeme.flavor text).text) rest
  | s, pos, .char c :: rest =>
      match s.passed with
      | some p =>
          scan b stop { s.push (.char c) with passed := p.step c } (pos + c.utf8Size) rest
      | none =>
          if b = .round ∧ c = Bracket.curly.opening then
            scan b stop { s.push (.char c) with passed := some ⟨pos, 0⟩ }
              (pos + c.utf8Size) rest
          else if c = b.opening then
            match s.group with
            | none =>
                scan b stop { s with group := some ⟨pos, [], 0⟩ } (pos + c.utf8Size) rest
            | some g =>
                scan b stop
                  { s with group := some { g with
                    inner := .char c :: g.inner, depth := g.depth + 1 } }
                  (pos + c.utf8Size) rest
          else if c = b.closing then
            match s.group with
            | none =>
                .broken s.before.reverse
                  (.unexpectedClose c b.opening (some ⟨pos, pos + 1⟩))
            | some g =>
                if g.depth = 0 then
                  .group s.before.reverse g.inner.reverse
                    (scan b stop .initial (pos + c.utf8Size) rest)
                else
                  scan b stop
                    { s with group := some { g with
                      inner := .char c :: g.inner, depth := g.depth - 1 } }
                    (pos + c.utf8Size) rest
          else scan b stop (s.push (.char c)) (pos + c.utf8Size) rest

/-- The outermost groups of a text that starts at a byte offset. -/
def of (b : Bracket) (offset : Nat) (text : List Char) : Outline :=
  scan b (offset + Text.byteLength text) .initial offset (Lexeme.scan text)

end Outline

end DiceFormula
