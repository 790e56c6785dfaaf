/-
# DiceFormula.Proofs.Formula.Places -- places in a text

A place is a range of bytes.  It is right for a part of a text if the text can be cut into what
is in front of the part, the part, and what is behind it, such that the bytes of the first two
give the ends of the place (`Span.IsAt`).  So the ends of a place never fall inside a character,
nor outside of the text.

An error points into a text (`FormatError.Points`) if its place is right for a part that is what
the error tells of: the bracket that is not closed, the empty group, the modifiers and so on
(`FormatError.Shows`).

An outline is located in a text (`Outline.Located`) if the text is made of what the outline tells,
group by group, and an outline that breaks does so with an error that points into what is left of
the text.  Every outline is located in the text that it was made from (`located_of`): the scan
knows at each position where its open group and the curly group that it passes over started
(`State.Knows`).
-/
import DiceFormula.Proofs.Formula.Balanced

namespace DiceFormula

set_option autoImplicit false

/-! ## Parts of a text -/

/-- Where a part of a text stands, if the text starts at a byte offset. -/
def Span.IsAt (span : Span) (offset : Nat) (text part : List Char) : Prop :=
  ∃ front behind, text = front ++ part ++ behind ∧
    span = Span.ofText (offset + Text.byteLength front) part

theorem Span.isAt_whole (offset : Nat) (text : List Char) :
    (Span.ofText offset text).IsAt offset text text :=
  ⟨[], [], by simp, rfl⟩

theorem Span.IsAt.within {span : Span} {offset : Nat} {front text part : List Char}
    (isAt : span.IsAt (offset + Text.byteLength front) text part) (behind : List Char) :
    span.IsAt offset (front ++ text ++ behind) part := by
  obtain ⟨before, after, rfl, rfl⟩ := isAt
  refine ⟨front ++ before, after ++ behind, by simp, ?_⟩
  rw [Text.byteLength_append, Nat.add_assoc]

theorem Span.IsAt.le {span : Span} {offset : Nat} {text part : List Char}
    (isAt : span.IsAt offset text part) : offset ≤ span.start := by
  obtain ⟨front, behind, -, rfl⟩ := isAt
  exact Nat.le_add_right _ _

namespace FormatError

/-- What stands in the formula at the place of an error. -/
def Shows (part : List Char) : FormatError → Prop
  | empty => False
  | unclosed symbol _ => part.head? = some symbol
  | unexpectedClose symbol _ _ => part = [symbol]
  | emptyGroup group _ => part = group.toList
  | emptyArgument _ _ => Text.allBlank part = true
  | poolModifiers modifiers _ _ => part = modifiers.toList
  | malformedDice _ _ | unresolved _ _ => True

/-- The error tells a place in a text that starts at a byte offset, and what it says stands
there. -/
def Points (offset : Nat) (text : List Char) (e : FormatError) : Prop :=
  ∃ span part, e.span = some span ∧ span.IsAt offset text part ∧ e.Shows part

/-- An error that tells of all of a text. -/
theorem points_whole {offset : Nat} {text : List Char} {e : FormatError}
    (place : e.span = some (Span.ofText offset text)) (shows : e.Shows text) :
    e.Points offset text :=
  ⟨_, text, place, Span.isAt_whole offset text, shows⟩

theorem Points.within {e : FormatError} {offset : Nat} {front text : List Char}
    (points : e.Points (offset + Text.byteLength front) text) (behind : List Char) :
    e.Points offset (front ++ text ++ behind) := by
  obtain ⟨span, part, place, isAt, shows⟩ := points
  exact ⟨span, part, place, isAt.within behind, shows⟩

theorem Points.behind {e : FormatError} {offset : Nat} {front text : List Char}
    (points : e.Points (offset + Text.byteLength front) text) : e.Points offset (front ++ text) := by
  have whole := points.within []
  rwa [List.append_nil] at whole

theorem Points.before {e : FormatError} {offset : Nat} {text : List Char}
    (points : e.Points offset text) (behind : List Char) : e.Points offset (text ++ behind) :=
  @Points.within e offset [] text points behind

/-- A bracket that is open at the end of a text. -/
theorem points_unclosed {offset start stop : Nat} {front behind : List Char} {symbol : Char}
    (starts : start = offset + Text.byteLength front)
    (ends : stop = start + Text.byteLength (symbol :: behind)) :
    (unclosed symbol (some ⟨start, stop⟩)).Points offset (front ++ symbol :: behind) := by
  refine ⟨_, symbol :: behind, rfl, ⟨front, [], by rw [List.append_nil], ?_⟩, rfl⟩
  rw [← starts, ends]
  rfl

end FormatError

/-! ## Outlines -/

namespace Outline

open Lexeme

/-- The text that an outline was made from, and the error with which it breaks, if it does. -/
inductive Located (b : Bracket) : Nat → List Char → Outline → Prop
  | plain {offset : Nat} (text : List Lexeme) : Located b offset (textAll text) (.plain text)
  | broken {offset : Nat} {lead : List Lexeme} {tail : List Char} {e : FormatError}
      (points : e.Points offset (textAll lead ++ tail)) :
      Located b offset (textAll lead ++ tail) (.broken lead e)
  | group {offset : Nat} {before inner : List Lexeme} {text : List Char} {rest : Outline}
      (behind : Located b
        (offset + Text.byteLength (textAll before) + Text.byteLength (textAll inner) + 2) text rest) :
      Located b offset (textAll before ++ b.opening :: (textAll inner ++ b.closing :: text))
        (.group before inner rest)

theorem utf8Size_opening (b : Bracket) : b.opening.utf8Size = 1 := by cases b <;> rfl

theorem utf8Size_closing (b : Bracket) : b.closing.utf8Size = 1 := by cases b <;> rfl

namespace State

variable {b : Bracket}

/-- The text that was read so far. -/
def text (b : Bracket) (s : State) : List Char := textAll (s.lexemes b)

/-- The state of a scan, and where its open groups started. -/
structure Knows (b : Bracket) (offset pos : Nat) (s : State) : Prop where
  pos_eq : pos = offset + Text.byteLength (s.text b)
  group : ∀ g ∈ s.group, g.start = offset + Text.byteLength (textAll s.before.reverse)
  passed : ∀ p ∈ s.passed, ∃ front behind, s.text b = front ++ Bracket.curly.opening :: behind ∧
    p.start = offset + Text.byteLength front

variable {offset pos : Nat} {s : State}

theorem knows_initial (b : Bracket) (offset : Nat) : Knows b offset offset .initial :=
  ⟨rfl, by simp [initial], by simp [initial]⟩

theorem text_push (b : Bracket) (s : State) (l : Lexeme) : (s.push l).text b = s.text b ++ l.text := by
  rw [text, lexemes_push, textAll_append]
  simp [text, textAll]

theorem text_outside (b : Bracket) (before : List Lexeme) (p : Option Passed) :
    text b ⟨before, none, p⟩ = textAll before.reverse := by
  rw [text, State.lexemes, Option.map_none, Option.getD_none, List.append_nil]

theorem text_inside (b : Bracket) (before inner : List Lexeme) (start depth : Nat)
    (p : Option Passed) : text b ⟨before, some ⟨start, inner, depth⟩, p⟩ =
      textAll before.reverse ++ b.opening :: textAll inner.reverse := by
  rw [text, State.lexemes, textAll_append]
  rfl

/-- A lexeme of text changes nothing but what was read. -/
theorem Knows.push {l : Lexeme} (knows : Knows b offset pos s) :
    Knows b offset (pos + Text.byteLength l.text) (s.push l) := by
  refine ⟨?_, ?_, ?_⟩
  · rw [text_push, Text.byteLength_append, knows.pos_eq, Nat.add_assoc]
  · intro g mem
    obtain ⟨before, group, passed⟩ := s
    cases group with
    | none => cases mem
    | some g' =>
        cases mem
        exact knows.group g' rfl
  · intro p mem
    have kept : p ∈ s.passed := by
      obtain ⟨before, group, passed⟩ := s
      cases group <;> exact mem
    obtain ⟨front, behind, split, start⟩ := knows.passed p kept
    exact ⟨front, behind ++ l.text, by rw [text_push, split]; simp, start⟩

theorem Knows.char (knows : Knows b offset pos s) (c : Char) :
    Knows b offset (pos + c.utf8Size) (s.push (.char c)) :=
  knows.push (l := .char c)

theorem Knows.passing (knows : Knows b offset pos s) {p : Option Passed}
    (passed : ∀ q ∈ p, ∃ front behind, s.text b = front ++ Bracket.curly.opening :: behind ∧
      q.start = offset + Text.byteLength front) : Knows b offset pos (s.passing p) :=
  ⟨knows.pos_eq, knows.group, passed⟩

/-- Inside a curly group it stays known where that started. -/
theorem Knows.step {p : Passed} (knows : Knows b offset pos s) (inside : s.passed = some p)
    (c : Char) : Knows b offset (pos + c.utf8Size) ((s.push (.char c)).passing (p.step c)) := by
  refine (knows.char c).passing fun q mem => ?_
  have same : q.start = p.start := by
    unfold Passed.step at mem
    split at mem
    · cases mem
      rfl
    · split at mem
      · split at mem <;> cases mem
        rfl
      · cases mem
        rfl
  obtain ⟨front, behind, split, start⟩ := knows.passed p inside
  exact ⟨front, behind ++ [c], by rw [text_push, split]; simp [Lexeme.text], same.trans start⟩

/-- A bracket starts a group where it stands. -/
theorem Knows.opening {before : List Lexeme} (knows : Knows b offset pos ⟨before, none, none⟩) :
    Knows b offset (pos + b.opening.utf8Size) ⟨before, some ⟨pos, [], 0⟩, none⟩ := by
  have start : pos = offset + Text.byteLength (textAll before.reverse) := by
    rw [knows.pos_eq, text_outside]
  refine ⟨?_, fun g mem => ?_, by simp⟩
  · rw [text_inside, Text.byteLength_append, ← Nat.add_assoc, ← start]
    rfl
  · cases mem
    exact start

/-- A bracket in a group does not change where that started. -/
theorem Knows.inside {before inner : List Lexeme} {start depth : Nat}
    (knows : Knows b offset pos ⟨before, some ⟨start, inner, depth⟩, none⟩) (c : Char)
    (depth' : Nat) :
    Knows b offset (pos + c.utf8Size) ⟨before, some ⟨start, .char c :: inner, depth'⟩, none⟩ := by
  refine ⟨(knows.char c).pos_eq, fun g mem => ?_, by simp⟩
  cases mem
  exact knows.group ⟨start, inner, depth⟩ rfl

/-- **A character that is taken keeps it known where the open groups started**, if what it opens
starts where it stands. -/
theorem Knows.takes {s' : State} {c : Char} (knows : Knows b offset pos s) (takes : Takes b s c s')
    (opens : Opens pos s s') : Knows b offset (pos + c.utf8Size) s' := by
  cases takes with
  | passing passed => exact knows.step passed c
  | pass start round passed =>
      refine (knows.char _).passing fun p mem => ?_
      cases mem
      exact ⟨_, [], text_push b _ _, (opens.passed passed _ rfl).trans knows.pos_eq⟩
  | opening start =>
      obtain rfl : start = pos := opens.group rfl _ rfl
      exact knows.opening
  | deeper => exact knows.inside _ _
  | shallower => exact knows.inside _ _
  | text passed notCurly notOpening notClosing => exact knows.char c

end State

open State

variable {b : Bracket} {offset pos : Nat} {s : State}

/-- A text that ends inside a group breaks with an error at the bracket. -/
theorem points_unclosed? {e : FormatError} (knows : Knows b offset pos s)
    (pending : unclosed? b pos s = some e) : e.Points offset (s.text b) := by
  have ends {front behind : List Char} {start : Nat} (split : s.text b = front ++ behind)
      (starts : start = offset + Text.byteLength front) : pos = start + Text.byteLength behind := by
    rw [knows.pos_eq, split, Text.byteLength_append, starts, Nat.add_assoc]
  obtain ⟨before, group, passed⟩ := s
  cases passed with
  | some p =>
      cases pending
      obtain ⟨front, behind, split, starts⟩ := knows.passed p rfl
      rw [split]
      exact FormatError.points_unclosed starts (ends split starts)
  | none =>
      cases group with
      | none => cases pending
      | some g =>
          cases pending
          have starts := knows.group g rfl
          have split := text_inside b before g.inner g.start g.depth none
          exact split ▸ FormatError.points_unclosed starts (ends split starts)

/-- A broken outline, with its text in front of the groups as part of what was read. -/
theorem located_broken {text : List Char} {e : FormatError}
    (points : e.Points offset (s.text b ++ text)) :
    Located b offset (s.text b ++ text) (.broken s.before.reverse e) := by
  have split : s.text b = textAll s.before.reverse ++
      textAll ((s.group.map fun g => .char b.opening :: g.inner.reverse).getD []) := by
    rw [State.text, State.lexemes, textAll_append]
  rw [split, List.append_assoc] at points ⊢
  exact .broken points

/-- **A scan from any state locates its outline in all of the text**, the text that it has read
and the text that is left. -/
theorem located_scan {stop : Nat} {ls : List Lexeme} (knows : Knows b offset pos s)
    (ends : stop = pos + Text.byteLength (textAll ls)) :
    Located b offset (s.text b ++ textAll ls) (scan b stop s pos ls) := by
  induction ls generalizing s offset pos with
  | nil =>
      have here : stop = pos := ends
      rw [scan, here]
      cases pending : unclosed? b pos s with
      | some e =>
          have points := points_unclosed? knows pending
          exact located_broken (points.before (textAll []))
      | none =>
          obtain ⟨before, group, passed⟩ := s
          cases passed with
          | some p => cases pending
          | none =>
              cases group with
              | some g => cases pending
              | none =>
                  have nothing : textAll [] = [] := rfl
                  rw [text_outside, nothing, List.append_nil]
                  exact .plain before.reverse
  | cons l ls ih =>
      have whole {l : Lexeme} {s' : State} (read : s'.lexemes b = s.lexemes b ++ [l]) :
          s.text b ++ textAll (l :: ls) = s'.text b ++ textAll ls := by
        rw [State.text, State.text, read, ← textAll_append, ← textAll_append, List.append_assoc,
          List.singleton_append]
      rw [textAll_cons, Text.byteLength_append, ← Nat.add_assoc] at ends
      cases l with
      | unclosedFlavor rest =>
          have length : stop = pos + Text.byteLength ('[' :: (rest ++ textAll ls)) := by
            rw [ends, Nat.add_assoc, ← Text.byteLength_append]
            rfl
          rw [scan]
          exact located_broken (FormatError.points_unclosed knows.pos_eq length)
      | flavor inner =>
          rw [scan_flavor, whole (lexemes_push b s _)]
          exact ih knows.push ends
      | char c =>
          obtain ⟨s', takes, opens, step⟩ | ⟨before, inner, start, rfl, rfl, step⟩ |
            ⟨before, rfl, rfl, step⟩ := scan_cases b stop s pos c ls
          · rw [step, whole takes.lexemes]
            exact ih (knows.takes takes opens) ends
          · have behind : pos + b.closing.utf8Size = offset +
                Text.byteLength (textAll before.reverse) +
                  Text.byteLength (textAll inner.reverse) + 2 := by
              rw [knows.pos_eq, text_inside, Text.byteLength_append, Text.byteLength,
                utf8Size_opening, utf8Size_closing]
              omega
            have located := ih (knows_initial b (pos + b.closing.utf8Size)) ends
            rw [step, text_inside, List.append_assoc]
            exact .group (behind ▸ located)
          · have points : (FormatError.unexpectedClose b.closing b.opening
                (some ⟨pos, pos + 1⟩)).Points offset
                  (State.text b ⟨before, none, none⟩ ++ b.closing :: textAll ls) := by
              refine ⟨_, [b.closing], rfl, ⟨State.text b ⟨before, none, none⟩, textAll ls, by simp, ?_⟩,
                rfl⟩
              rw [← knows.pos_eq, Span.ofText, Text.byteLength, utf8Size_closing]
              rfl
            rw [step]
            exact located_broken points

/-- **An outline is located in the text that it was made from.** -/
theorem located_of (b : Bracket) (offset : Nat) (text : List Char) :
    Located b offset text (Outline.of b offset text) := by
  have ends : offset + Text.byteLength text = offset + Text.byteLength (textAll (Lexeme.scan text)) := by
    rw [textAll_scan]
  have located := located_scan (knows_initial b offset) ends
  rwa [textAll_scan] at located

/-- A located text starts with the lead of its outline. -/
theorem Located.lead {b : Bracket} {offset : Nat} {text : List Char} {o : Outline}
    (located : Located b offset text o) : ∃ tail, text = textAll o.lead ++ tail := by
  cases located with
  | plain text => exact ⟨[], (List.append_nil _).symm⟩
  | broken points => exact ⟨_, rfl⟩
  | group behind => exact ⟨_, rfl⟩

end Outline

end DiceFormula
