/-
# DiceFormula.Formula.Group -- groups, calls and pools

`Piece.splitGroups` replaces the outermost groups of one kind in the text of a
formula by terms.

* A round group behind the name of a function is a call, and any other round
  group is a group.
* A curly group is a pool.  The modifiers behind it belong to it, as far as
  letters, digits and comparison signs reach.
* Flavor directly behind a group belongs to it.

What a group holds is read by a `SubReader`.  Arguments and members are
separated by commas; since a comma may also stand inside a group or flavor, the
text up to a comma is an argument only if it can be read as a formula, and is
continued up to the next comma otherwise.
-/
import DiceFormula.Dice.Reader
import DiceFormula.Formula.Bracket
import DiceFormula.Formula.Piece

namespace DiceFormula

set_option autoImplicit false

/-- Reads a formula that starts at a byte offset. -/
abbrev SubReader := Nat → List Char → Except FormatError (List Term)

namespace Group

/-! ## Arguments -/

/-- Reads arguments from what stands between the commas of a group, behind text
that starts at a byte offset and is no argument yet. -/
def argumentsFrom (read : SubReader) (whole : List Char) (offset : Nat) (text : List Char) :
    List (List Char) → Except FormatError (List (List Term))
  | [] => .ok []
  | piece :: rest =>
      let text := text ++ piece
      if Text.allBlank text then
        .error (.emptyArgument (String.ofList whole) (some (Span.ofText offset text)))
      else
        match read offset text with
        | .ok terms =>
            (argumentsFrom read whole (offset + Text.byteLength text + 1) [] rest).map
              (terms :: ·)
        | .error e =>
            if rest.isEmpty then .error e
            else argumentsFrom read whole offset (text ++ [',']) rest

/-- Reads the arguments of a call or the members of a pool. -/
def arguments (read : SubReader) (offset : Nat) (inner : List Char) :
    Except FormatError (List (List Term)) :=
  argumentsFrom read inner offset [] (inner.splitOn ',')

/-! ## Terms -/

/-- Cuts off the word at the end of a text. -/
def cutWord (before : List Char) : List Char × List Char :=
  let (word, rest) := before.reverse.span Text.isWordChar
  (rest.reverse, word.reverse)

/-- The term of a round group, and the text in front of it that is no part of
it. -/
def roundTerm (read : SubReader) (before : List Char) (offset : Nat) (inner : List Char) :
    Except FormatError (List Char × Term) :=
  let (front, word) := cutWord before
  match MathFunction.ofName? word with
  | some f => (arguments read offset inner).map fun args => (front, .call f args none)
  | none => (read offset inner).map fun terms => (before, .group terms none)

/-- Whether a character behind a pool belongs to its modifiers. -/
def isModifierChar (c : Char) : Bool :=
  c.isAlphanum || c == '<' || c == '>' || c == '='

/-- The characters behind a pool that belong to its modifiers. -/
def modifierText : List Lexeme → List Char
  | .char c :: rest => if isModifierChar c then c :: modifierText rest else []
  | _ => []

/-- Reads the modifiers of a pool. -/
def poolModifiers (offset : Nat) (text : List Char) : Except FormatError (List Modifier) :=
  let span := some (Span.ofText offset text)
  match Dice.Reader.modifiers? (text.map Text.lower) with
  | none => .error (.poolModifiers (String.ofList text) none span)
  | some modifiers =>
      match modifiers.find? fun m => !m.isSelective with
      | some m => .error (.poolModifiers (String.ofList text) (some m) span)
      | none => .ok modifiers

/-- The term of a curly group with modifiers behind it. -/
def curlyTerm (read : SubReader) (offset : Nat) (inner : List Char) (modifiersAt : Nat)
    (modifiers : List Char) : Except FormatError Term :=
  match arguments read offset inner with
  | .error e => .error e
  | .ok members =>
      (poolModifiers modifiersAt modifiers).map fun modifiers =>
        .pool members modifiers [] false none

/-- The flavor at the start of a text. -/
def leadingFlavor : List Lexeme → Option String
  | .flavor text :: _ => some (String.ofList text)
  | _ => none

/-- What a group comes to. -/
structure Found where
  /-- the text in front of the group that is no part of it -/
  front : List Char
  term : Term
  /-- how many lexemes behind the group belong to it -/
  used : Nat

/-- Gives a term the flavor that stands behind it, and what belongs to it. -/
def withFlavorBehind (front : List Char) (term : Term) (used : Nat) (lead : List Lexeme) :
    Found :=
  match leadingFlavor (lead.drop used) with
  | some flavor => ⟨front, term.withFlavor (some flavor), used + 1⟩
  | none => ⟨front, term, used⟩

/-- Reads a group with the text in front of it and the text behind it. -/
def find (b : Bracket) (read : SubReader) (before : List Char) (offset : Nat)
    (inner : List Char) (lead : List Lexeme) : Except FormatError Found :=
  match b with
  | .round =>
      (roundTerm read before offset inner).map fun (front, term) =>
        withFlavorBehind front term 0 lead
  | .curly =>
      let modifiers := modifierText lead
      let behind := offset + Text.byteLength inner + 1
      (curlyTerm read offset inner behind modifiers).map fun term =>
        withFlavorBehind before term modifiers.length lead

/-! ## Pieces -/

/-- The pieces of a text with a known outline.  The text starts at a byte
offset, and so many lexemes at its start belong to the group in front of it. -/
def pieces (b : Bracket) (read : SubReader) (start used : Nat) :
    Outline → Except FormatError (List Piece)
  | .plain text =>
      let offset := start + Text.byteLength (Lexeme.textAll (text.take used))
      .ok (Piece.ofText? offset (Lexeme.textAll (text.drop used)))
  | .broken _ e => .error e
  | .group before inner rest =>
      let offset := start + Text.byteLength (Lexeme.textAll (before.take used))
      let before := Lexeme.textAll (before.drop used)
      let inner := Lexeme.textAll inner
      let opened := offset + Text.byteLength before
      let behind := opened + Text.byteLength inner + 2
      if Text.allBlank inner then
        .error (.emptyGroup (String.ofList (b.opening :: inner ++ [b.closing]))
          (some ⟨opened, behind⟩))
      else
        match find b read before (opened + 1) inner rest.lead with
        | .error e => .error e
        | .ok found =>
            let stop := behind + Text.byteLength (Lexeme.textAll (rest.lead.take found.used))
            let piece : Piece :=
              ⟨found.term, some ⟨offset + Text.byteLength found.front, stop⟩⟩
            (pieces b read behind found.used rest).map fun others =>
              Piece.ofText? offset found.front ++ piece :: others

end Group

/-- The pieces of one piece once the groups in its text are read. -/
def Piece.splitGroup (b : Bracket) (read : SubReader) (p : Piece) :
    Except FormatError (List Piece) :=
  match p.term with
  | .fragment text =>
      Group.pieces b read p.start 0 (Outline.of b p.start text.toList)
  | _ => .ok [p]

/-- Reads the groups of one kind. -/
def Piece.splitGroups (b : Bracket) (read : SubReader) (pieces : List Piece) :
    Except FormatError (List Piece) :=
  (pieces.mapM (Piece.splitGroup b read)).map List.flatten

end DiceFormula
