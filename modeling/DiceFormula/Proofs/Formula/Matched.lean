/-
# DiceFormula.Proofs.Formula.Matched -- texts with matching brackets

A `Matched` text is a formula with its brackets in pairs, as a tree.  Its lexemes
(`scan_text`) and its outermost groups (`outline_text`) are read off the tree,
whatever stands behind it.

A text that stops inside a bracket is `Unclosed`.  It is never read as a formula,
because the scan for round groups ends with an error (`outline_unclosed`).
-/
import DiceFormula.Formula.Bracket
import DiceFormula.Proofs.Text.Basic

namespace DiceFormula

set_option autoImplicit false

/-- Whether a character opens something, or closes a group. -/
def isBracket (c : Char) : Bool :=
  c == '[' || c == '(' || c == ')' || c == '\x7b' || c == '\x7d'

/-- A text whose brackets match. -/
inductive Matched where
  | nil
  | char (c : Char) (plain : isBracket c = false) (rest : Matched)
  | flavor (inner : List Char) (closes : ']' ∉ inner) (rest : Matched)
  | group (b : Bracket) (inner rest : Matched)

namespace Matched

def text : Matched → List Char
  | nil => []
  | char c _ rest => c :: rest.text
  | flavor inner _ rest => '[' :: inner ++ ']' :: rest.text
  | group b inner rest => b.opening :: inner.text ++ b.closing :: rest.text

def lexemes : Matched → List Lexeme
  | nil => []
  | char c _ rest => .char c :: rest.lexemes
  | flavor inner _ rest => .flavor inner :: rest.lexemes
  | group b inner rest => .char b.opening :: inner.lexemes ++ .char b.closing :: rest.lexemes

def append : Matched → Matched → Matched
  | nil, m => m
  | char c plain rest, m => char c plain (rest.append m)
  | flavor inner closes rest, m => flavor inner closes (rest.append m)
  | group b inner rest, m => group b inner (rest.append m)

@[simp] theorem text_append (m m' : Matched) : (m.append m').text = m.text ++ m'.text := by
  induction m with
  | nil => rfl
  | char c plain rest ih => simp [append, text, ih]
  | flavor inner closes rest ih => simp [append, text, ih]
  | group b inner rest _ ih => simp [append, text, ih]

@[simp] theorem lexemes_append (m m' : Matched) :
    (m.append m').lexemes = m.lexemes ++ m'.lexemes := by
  induction m with
  | nil => rfl
  | char c plain rest ih => simp [append, lexemes, ih]
  | flavor inner closes rest ih => simp [append, lexemes, ih]
  | group b inner rest _ ih => simp [append, lexemes, ih]

/-- A text without brackets. -/
def ofPlain : (s : List Char) → (∀ c ∈ s, isBracket c = false) → Matched
  | [], _ => nil
  | c :: s, plain =>
      char c (plain c List.mem_cons_self) (ofPlain s fun d mem => plain d (List.mem_cons_of_mem c mem))

@[simp] theorem text_ofPlain (s : List Char) (plain : ∀ c ∈ s, isBracket c = false) :
    (ofPlain s plain).text = s := by
  induction s with
  | nil => rfl
  | cons c s ih => rw [ofPlain, text, ih]

@[simp] theorem lexemes_ofPlain (s : List Char) (plain : ∀ c ∈ s, isBracket c = false) :
    (ofPlain s plain).lexemes = s.map .char := by
  induction s with
  | nil => rfl
  | cons c s ih => rw [ofPlain, lexemes, ih, List.map_cons]

theorem isBracket_of_isBlank {c : Char} (blank : Text.isBlank c = true) : isBracket c = false := by
  by_contra bracket
  have printable : 33 ≤ c.toNat ∧ c.toNat ≤ 126 := by
    rw [Bool.not_eq_false] at bracket
    simp only [isBracket, Bool.or_eq_true, beq_iff_eq] at bracket
    rcases bracket with (((rfl | rfl) | rfl) | rfl) | rfl <;> decide
  rw [Text.isBlank_of_printable printable.1 printable.2] at blank
  cases blank

/-- White space. -/
def ofBlank (s : List Char) (blank : Text.allBlank s = true) : Matched :=
  ofPlain s fun c mem => isBracket_of_isBlank (List.all_eq_true.1 blank c mem)

/-! ## Lexemes -/

theorem ne_flavor_of_plain {c : Char} (plain : isBracket c = false) : c ≠ '[' := by
  rintro rfl
  cases plain

theorem opening_ne (b : Bracket) : b.opening ≠ '[' := by
  cases b <;> decide

theorem closing_ne (b : Bracket) : b.closing ≠ '[' := by
  cases b <;> decide

theorem scan_char {c : Char} (other : c ≠ '[') (s : List Char) :
    Lexeme.scan (c :: s) = .char c :: Lexeme.scan s := by
  rw [Lexeme.scan, if_neg other]

theorem scanFlavor_closed {inner : List Char} (closes : ']' ∉ inner) (read s : List Char) :
    Lexeme.scanFlavor read (inner ++ ']' :: s) =
      .flavor (read.reverse ++ inner) :: Lexeme.scan s := by
  induction inner generalizing read with
  | nil => rw [List.nil_append, Lexeme.scanFlavor, if_pos rfl, List.append_nil]
  | cons c inner ih =>
      rw [List.mem_cons, not_or] at closes
      rw [List.cons_append, Lexeme.scanFlavor, if_neg (Ne.symm closes.1), ih closes.2]
      simp

theorem scanFlavor_open {inner : List Char} (closes : ']' ∉ inner) (read : List Char) :
    Lexeme.scanFlavor read inner = [.unclosedFlavor (read.reverse ++ inner)] := by
  induction inner generalizing read with
  | nil => rw [Lexeme.scanFlavor, List.append_nil]
  | cons c inner ih =>
      rw [List.mem_cons, not_or] at closes
      rw [Lexeme.scanFlavor, if_neg (Ne.symm closes.1), ih closes.2]
      simp

/-- The lexemes of a matched text are those of its tree, whatever follows. -/
theorem scan_text (m : Matched) (s : List Char) :
    Lexeme.scan (m.text ++ s) = m.lexemes ++ Lexeme.scan s := by
  induction m generalizing s with
  | nil => rfl
  | char c plain rest ih =>
      rw [text, List.cons_append, scan_char (ne_flavor_of_plain plain), ih]
      rfl
  | flavor inner closes rest ih =>
      have split : (flavor inner closes rest).text ++ s =
          '[' :: (inner ++ ']' :: (rest.text ++ s)) := by simp [text]
      rw [split, Lexeme.scan, if_pos rfl, scanFlavor_closed closes, ih]
      rfl
  | group b inner rest ihInner ih =>
      have split : (group b inner rest).text ++ s =
          b.opening :: (inner.text ++ b.closing :: (rest.text ++ s)) := by simp [text]
      rw [split, scan_char (opening_ne b), ihInner, scan_char (closing_ne b), ih]
      simp [lexemes]

theorem scan_text_self (m : Matched) : Lexeme.scan m.text = m.lexemes := by
  have whole := m.scan_text []
  rwa [List.append_nil, Lexeme.scan, List.append_nil] at whole

theorem textAll_lexemes (m : Matched) : Lexeme.textAll m.lexemes = m.text := by
  induction m with
  | nil => rfl
  | char c plain rest ih =>
      rw [lexemes, Lexeme.textAll, List.flatMap_cons, ← Lexeme.textAll, ih]
      rfl
  | flavor inner closes rest ih =>
      rw [lexemes, Lexeme.textAll, List.flatMap_cons, ← Lexeme.textAll, ih]
      simp [text, Lexeme.text]
  | group b inner rest ihInner ih =>
      rw [Lexeme.textAll] at ihInner ih
      simp [lexemes, text, Lexeme.textAll, Lexeme.text, ihInner, ih]

end Matched

/-! ## Scanning for groups -/

namespace Outline

/-- A group that is open, with more lexemes in it. -/
def Open.takes (g : Open) (lexemes : List Lexeme) : Open :=
  { g with inner := lexemes.reverse ++ g.inner }

@[simp] theorem Open.takes_takes (g : Open) (ls ls' : List Lexeme) :
    (g.takes ls).takes ls' = g.takes (ls ++ ls') := by
  simp [takes]

namespace State

/-- Takes lexemes as text. -/
def pushAll (s : State) (lexemes : List Lexeme) : State := lexemes.foldl push s

theorem pushAll_append (s : State) (ls ls' : List Lexeme) :
    s.pushAll (ls ++ ls') = (s.pushAll ls).pushAll ls' := List.foldl_append

theorem pushAll_cons (s : State) (l : Lexeme) (ls : List Lexeme) :
    s.pushAll (l :: ls) = (s.push l).pushAll ls := rfl

/-- The state with a curly group to pass over, or none. -/
def passing (s : State) (p : Option Passed) : State := ⟨s.before, s.group, p⟩

@[simp] theorem push_passing (s : State) (p : Option Passed) (l : Lexeme) :
    (s.passing p).push l = (s.push l).passing p := by
  obtain ⟨before, group, passed⟩ := s
  cases group <;> rfl

theorem pushAll_before (before ls : List Lexeme) (p : Option Passed) :
    (State.mk before none p).pushAll ls = ⟨ls.reverse ++ before, none, p⟩ := by
  induction ls generalizing before with
  | nil => rfl
  | cons l ls ih =>
      rw [pushAll_cons]
      refine (ih (l :: before)).trans ?_
      simp

theorem pushAll_group (before : List Lexeme) (g : Open) (p : Option Passed) (ls : List Lexeme) :
    (State.mk before (some g) p).pushAll ls = ⟨before, some (g.takes ls), p⟩ := by
  induction ls generalizing g with
  | nil => rfl
  | cons l ls ih =>
      rw [pushAll_cons]
      refine (ih (g.takes [l])).trans ?_
      rw [Open.takes_takes]
      rfl

end State

open State

variable (b : Bracket) (stop : Nat)

theorem scan_flavor (s : State) (pos : Nat) (inner : List Char) (rest : List Lexeme) :
    scan b stop s pos (.flavor inner :: rest) =
      scan b stop (s.push (.flavor inner))
        (pos + Text.byteLength (Lexeme.flavor inner).text) rest := by
  rw [scan]

theorem scan_passing (s : State) (p : Passed) (pos : Nat) (c : Char) (rest : List Lexeme) :
    scan b stop (s.passing (some p)) pos (.char c :: rest) =
      scan b stop ((s.push (.char c)).passing (p.step c)) (pos + c.utf8Size) rest := by
  rw [scan, push_passing]
  rfl

theorem scan_other {s : State} (passed : s.passed = none) (pos : Nat) {c : Char}
    (notCurly : b = .round → c ≠ Bracket.curly.opening) (notOpening : c ≠ b.opening)
    (notClosing : c ≠ b.closing) (rest : List Lexeme) :
    scan b stop s pos (.char c :: rest) =
      scan b stop (s.push (.char c)) (pos + c.utf8Size) rest := by
  rw [scan, passed]
  dsimp only
  rw [if_neg fun both => notCurly both.1 both.2, if_neg notOpening, if_neg notClosing]

theorem ne_of_plain {c : Char} (plain : isBracket c = false) (b : Bracket) :
    c ≠ b.opening ∧ c ≠ b.closing := by
  constructor
  · rintro rfl
    cases b <;> cases plain
  · rintro rfl
    cases b <;> cases plain

theorem scan_plain {s : State} (passed : s.passed = none) (pos : Nat) {c : Char}
    (plain : isBracket c = false) (rest : List Lexeme) :
    scan b stop s pos (.char c :: rest) =
      scan b stop (s.push (.char c)) (pos + c.utf8Size) rest :=
  scan_other b stop passed pos (fun _ => (ne_of_plain plain .curly).1) (ne_of_plain plain b).1
    (ne_of_plain plain b).2 rest

theorem step_other {p : Passed} {c : Char} (notOpening : c ≠ Bracket.curly.opening)
    (notClosing : c ≠ Bracket.curly.closing) : p.step c = some p := by
  rw [Passed.step, if_neg notOpening, if_neg notClosing]

theorem byteLength_group (b : Bracket) (inner rest : Matched) :
    Text.byteLength (Matched.group b inner rest).text =
      b.opening.utf8Size + Text.byteLength inner.text + b.closing.utf8Size +
        Text.byteLength rest.text := by
  simp [Matched.text, Text.byteLength, Text.byteLength_append, Nat.add_assoc]

/-- Inside a curly group that is passed over nothing else happens. -/
theorem scan_passed_matched (m : Matched) (s : State) (p : Passed) (pos : Nat)
    (rest : List Lexeme) :
    scan b stop (s.passing (some p)) pos (m.lexemes ++ rest) =
      scan b stop ((s.pushAll m.lexemes).passing (some p))
        (pos + Text.byteLength m.text) rest := by
  induction m generalizing s p pos rest with
  | nil => rfl
  | char c plain tail ih =>
      have same := step_other (p := p) (ne_of_plain plain .curly).1 (ne_of_plain plain .curly).2
      rw [Matched.lexemes, List.cons_append, scan_passing, same, ih, pushAll_cons, Matched.text, Text.byteLength, Nat.add_assoc]
  | flavor inner closes tail ih =>
      rw [Matched.lexemes, List.cons_append, scan_flavor, push_passing, ih, pushAll_cons]
      simp [Matched.text, Lexeme.text, Text.byteLength, Text.byteLength_append, Nat.add_assoc]
  | group b' inner tail ihInner ih =>
      have enters : ∃ p', p.step b'.opening = some p' ∧ p'.step b'.closing = some p := by
        cases b' with
        | round => exact ⟨p, rfl, rfl⟩
        | curly => exact ⟨{ p with depth := p.depth + 1 }, rfl, rfl⟩
      obtain ⟨p', opens, closes⟩ := enters
      have split : (Matched.group b' inner tail).lexemes ++ rest =
          .char b'.opening :: (inner.lexemes ++ .char b'.closing :: (tail.lexemes ++ rest)) := by
        simp [Matched.lexemes]
      rw [split, scan_passing, opens, ihInner, scan_passing, closes, ih, byteLength_group]
      simp only [Matched.lexemes, List.cons_append, pushAll_cons, pushAll_append, Nat.add_assoc]

/-- A bracket of the kind that is looked for opens inside a group. -/
theorem scan_deeper (before : List Lexeme) (g : Open) (pos : Nat) (rest : List Lexeme) :
    scan b stop ⟨before, some g, none⟩ pos (.char b.opening :: rest) =
      scan b stop
        ⟨before, some { g with inner := .char b.opening :: g.inner, depth := g.depth + 1 }, none⟩
        (pos + b.opening.utf8Size) rest := by
  rw [scan]
  dsimp only
  rw [if_neg (by cases b <;> decide), if_pos rfl]

/-- It is closed again. -/
theorem scan_shallower (before inner : List Lexeme) (start depth pos : Nat) (rest : List Lexeme) :
    scan b stop ⟨before, some ⟨start, inner, depth + 1⟩, none⟩ pos (.char b.closing :: rest) =
      scan b stop ⟨before, some ⟨start, .char b.closing :: inner, depth⟩, none⟩
        (pos + b.closing.utf8Size) rest := by
  rw [scan]
  dsimp only
  rw [if_neg (by cases b <;> decide), if_neg (by cases b <;> decide), if_pos rfl,
    if_neg (Nat.succ_ne_zero depth)]
  rfl

/-- While round groups are looked for a curly group is passed over. -/
theorem scan_curly (inner : Matched) (s : State) (pos : Nat) (rest : List Lexeme) :
    scan .round stop (s.passing none) pos
        (.char Bracket.curly.opening :: (inner.lexemes ++ .char Bracket.curly.closing :: rest)) =
      scan .round stop ((s.pushAll
          (.char Bracket.curly.opening :: (inner.lexemes ++ [.char Bracket.curly.closing]))).passing
            none)
        (pos + Bracket.curly.opening.utf8Size + Text.byteLength inner.text +
          Bracket.curly.closing.utf8Size) rest := by
  have enters : scan .round stop (s.passing none) pos (.char Bracket.curly.opening ::
        (inner.lexemes ++ .char Bracket.curly.closing :: rest)) =
      scan .round stop ((s.push (.char Bracket.curly.opening)).passing (some ⟨pos, 0⟩))
        (pos + Bracket.curly.opening.utf8Size)
        (inner.lexemes ++ .char Bracket.curly.closing :: rest) := by
    rw [scan]
    dsimp only [State.passing]
    rw [if_pos ⟨rfl, rfl⟩]
    cases s with
    | mk before group passed => cases group <;> rfl
  have leaves : Passed.step ⟨pos, 0⟩ Bracket.curly.closing = none := rfl
  rw [enters, scan_passed_matched, scan_passing, leaves, pushAll_cons, pushAll_append]
  rfl

/-- Inside a group that is open a matched text is taken as it is. -/
theorem scan_group_matched (m : Matched) (before : List Lexeme) (g : Open) (pos : Nat)
    (rest : List Lexeme) :
    scan b stop ⟨before, some g, none⟩ pos (m.lexemes ++ rest) =
      scan b stop ⟨before, some (g.takes m.lexemes), none⟩ (pos + Text.byteLength m.text) rest := by
  induction m generalizing g pos rest with
  | nil => rfl
  | char c plain tail ih =>
      rw [Matched.lexemes, List.cons_append, scan_plain b stop rfl pos plain]
      refine (ih (g.takes [.char c]) _ _).trans ?_
      rw [Open.takes_takes, Matched.text, Text.byteLength, Nat.add_assoc]
      rfl
  | flavor inner closes tail ih =>
      rw [Matched.lexemes, List.cons_append, scan_flavor]
      refine (ih (g.takes [.flavor inner]) _ _).trans ?_
      rw [Open.takes_takes]
      simp [Matched.text, Lexeme.text, Text.byteLength, Text.byteLength_append, Nat.add_assoc]
  | group b' inner tail ihInner ih =>
      have split : (Matched.group b' inner tail).lexemes ++ rest =
          .char b'.opening :: (inner.lexemes ++ .char b'.closing :: (tail.lexemes ++ rest)) := by
        simp [Matched.lexemes]
      have enters (pos : Nat) (rest : List Lexeme) :
          scan b stop ⟨before, some g, none⟩ pos
              (.char b'.opening :: (inner.lexemes ++ .char b'.closing :: rest)) =
            scan b stop
              ⟨before, some (g.takes (.char b'.opening :: (inner.lexemes ++ [.char b'.closing]))), none⟩
              (pos + b'.opening.utf8Size + Text.byteLength inner.text + b'.closing.utf8Size)
              rest := by
        by_cases same : b' = b
        · rw [same, scan_deeper, ihInner]
          refine (scan_shallower b stop _ _ _ _ _ _).trans ?_
          simp [Open.takes]
        · cases b with
          | round =>
              have curly : b' = .curly := by cases b' <;> first | rfl | exact absurd rfl same
              rw [curly]
              refine (scan_curly stop inner ⟨before, some g, none⟩ pos rest).trans ?_
              rw [pushAll_group]
              rfl
          | curly =>
              have round : b' = .round := by cases b' <;> first | rfl | exact absurd rfl same
              rw [round, scan_other .curly stop rfl _ (by simp) (by decide) (by decide)]
              refine (ihInner (g.takes [.char Bracket.round.opening]) _ _).trans ?_
              refine (scan_other .curly stop rfl _ (by simp) (by decide) (by decide) rest).trans ?_
              simp [Open.takes, push]
      rw [split, enters, ih, byteLength_group, Open.takes_takes]
      simp [Matched.lexemes, Nat.add_assoc]

/-! ## Outlines -/

/-- The outline with more text in front of it. -/
def prepend (text : List Lexeme) : Outline → Outline
  | plain lead => plain (text ++ lead)
  | broken lead e => broken (text ++ lead) e
  | group before inner rest => group (text ++ before) inner rest

/-- The outline with that of more text behind it. -/
def append : Outline → Outline → Outline
  | plain text, o => o.prepend text
  | broken text e, _ => broken text e
  | group before inner rest, o => group before inner (rest.append o)

@[simp] theorem prepend_nil (o : Outline) : o.prepend [] = o := by
  cases o <;> rfl

@[simp] theorem prepend_prepend (ls ls' : List Lexeme) (o : Outline) :
    (o.prepend ls').prepend ls = o.prepend (ls ++ ls') := by
  cases o <;> simp [prepend]

theorem prepend_append (ls : List Lexeme) (o o' : Outline) :
    (o.prepend ls).append o' = (o.append o').prepend ls := by
  cases o with
  | plain text => exact (prepend_prepend ls text o').symm
  | broken text e => rfl
  | group before inner rest => rfl

theorem append_assoc (o o' o'' : Outline) :
    (o.append o').append o'' = o.append (o'.append o'') := by
  induction o with
  | plain text => rw [append, append, prepend_append]
  | broken text e => rfl
  | group before inner rest ih => rw [append, append, append, ih]

/-- Text in front of the groups stays there. -/
theorem scan_before (before : List Lexeme) (g : Option Open) (p : Option Passed) (pos : Nat)
    (ls : List Lexeme) :
    scan b stop ⟨before, g, p⟩ pos ls = (scan b stop ⟨[], g, p⟩ pos ls).prepend before.reverse := by
  induction ls generalizing before g p pos with
  | nil =>
      rw [scan, scan]
      have same : unclosed? b stop ⟨before, g, p⟩ = unclosed? b stop ⟨[], g, p⟩ := by
        cases p <;> cases g <;> rfl
      rw [same]
      split <;> simp [prepend]
  | cons l ls ih =>
      have pushed (l : Lexeme) (p' : Option Passed) (pos : Nat) :
          scan b stop ((State.push ⟨before, g, p⟩ l).passing p') pos ls =
            (scan b stop ((State.push ⟨[], g, p⟩ l).passing p') pos ls).prepend before.reverse := by
        cases g with
        | none =>
            refine (ih (l :: before) none p' pos).trans ?_
            refine Eq.trans ?_ (congrArg _ (ih [l] none p' pos).symm)
            simp
        | some g => exact ih before (some (g.takes [l])) p' pos
      have taken (l : Lexeme) (pos : Nat) :
          scan b stop (State.push ⟨before, g, p⟩ l) pos ls =
            (scan b stop (State.push ⟨[], g, p⟩ l) pos ls).prepend before.reverse := by
        cases g <;> exact pushed l p pos
      cases l with
      | unclosedFlavor rest => simp [scan, prepend]
      | flavor inner =>
          rw [scan_flavor, scan_flavor]
          exact taken _ _
      | char c =>
          rw [scan, scan]
          cases p with
          | some p => exact pushed _ (p.step c) _
          | none =>
              dsimp only
              split
              · exact pushed _ (some ⟨pos, 0⟩) _
              · split
                · cases g with
                  | none => exact ih before _ none _
                  | some g => exact ih before _ none _
                · split
                  · cases g with
                    | none => simp [prepend]
                    | some g =>
                        dsimp only
                        split
                        · simp [prepend]
                        · exact ih before _ none _
                  · exact taken _ _

end Outline

namespace Matched

/-- The outermost groups of a matched text. -/
def outline (b : Bracket) : Matched → Outline
  | nil => .plain []
  | char c _ rest => (rest.outline b).prepend [.char c]
  | flavor inner _ rest => (rest.outline b).prepend [.flavor inner]
  | group b' inner rest =>
      if b' = b then .group [] inner.lexemes (rest.outline b)
      else if b = .round then
        (rest.outline b).prepend (.char b'.opening :: (inner.lexemes ++ [.char b'.closing]))
      else
        ((inner.outline b).prepend [.char b'.opening]).append
          ((rest.outline b).prepend [.char b'.closing])

@[simp] theorem outline_ofPlain (b : Bracket) (s : List Char)
    (plain : ∀ c ∈ s, isBracket c = false) :
    (ofPlain s plain).outline b = .plain (s.map .char) := by
  induction s with
  | nil => rfl
  | cons c s ih =>
      rw [ofPlain, outline, ih]
      rfl

open Outline State

variable (b : Bracket) (stop : Nat)

/-- **The outline of a matched text is that of its tree**, whatever follows. -/
theorem scan_outline (m : Matched) (pos : Nat) (rest : List Lexeme) :
    scan b stop .initial pos (m.lexemes ++ rest) =
      (m.outline b).append (scan b stop .initial (pos + Text.byteLength m.text) rest) := by
  have behind (before : List Lexeme) (pos : Nat) (ls : List Lexeme) :
      scan b stop ⟨before, none, none⟩ pos ls =
        (scan b stop .initial pos ls).prepend before.reverse := scan_before b stop _ _ _ _ _
  induction m generalizing pos rest with
  | nil => exact (prepend_nil _).symm
  | char c plain tail ih =>
      rw [lexemes, List.cons_append, scan_plain b stop rfl pos plain]
      refine (behind [.char c] _ _).trans ?_
      rw [ih, outline, prepend_append, text, Text.byteLength, Nat.add_assoc]
      rfl
  | flavor inner closes tail ih =>
      rw [lexemes, List.cons_append, scan_flavor]
      refine (behind [.flavor inner] _ _).trans ?_
      rw [ih, outline, prepend_append]
      simp [text, Lexeme.text, Text.byteLength, Text.byteLength_append, Nat.add_assoc]
  | group b' inner tail ihInner ih =>
      have split : (group b' inner tail).lexemes ++ rest =
          .char b'.opening :: (inner.lexemes ++ .char b'.closing :: (tail.lexemes ++ rest)) := by
        simp [lexemes]
      rw [split, outline, byteLength_group]
      by_cases same : b' = b
      · have opens (pos : Nat) (ls : List Lexeme) :
            scan b stop .initial pos (.char b.opening :: ls) =
              scan b stop ⟨[], some ⟨pos, [], 0⟩, none⟩ (pos + b.opening.utf8Size) ls := by
          rw [scan]
          dsimp only [State.initial]
          rw [if_neg (by cases b <;> decide), if_pos rfl]
        have closes (g : Open) (pos : Nat) (ls : List Lexeme) (outer : g.depth = 0) :
            scan b stop ⟨[], some g, none⟩ pos (.char b.closing :: ls) =
              .group [] g.inner.reverse (scan b stop .initial (pos + b.closing.utf8Size) ls) := by
          rw [scan]
          dsimp only
          rw [if_neg (by cases b <;> decide), if_neg (by cases b <;> decide), if_pos rfl,
            if_pos outer]
          rfl
        rw [if_pos same, same, opens, scan_group_matched, closes _ _ _ rfl, ih, Outline.append]
        simp [Open.takes, Nat.add_assoc]
      · rw [if_neg same]
        cases b with
        | round =>
            have curly : b' = .curly := by cases b' <;> first | rfl | exact absurd rfl same
            rw [if_pos rfl, curly]
            refine (scan_curly stop inner .initial pos _).trans ?_
            have taken (ls : List Lexeme) :
                (State.initial.pushAll ls).passing none = ⟨ls.reverse, none, none⟩ := by
              rw [State.initial, pushAll_before, List.append_nil]
              rfl
            rw [taken, behind, ih, prepend_append]
            simp [Nat.add_assoc]
        | curly =>
            have round : b' = .round := by cases b' <;> first | rfl | exact absurd rfl same
            rw [if_neg (by simp), round, scan_other .curly stop rfl _ (by simp) (by decide) (by decide)]
            refine (behind [.char Bracket.round.opening] _ _).trans ?_
            rw [ihInner, scan_other .curly stop rfl _ (by simp) (by decide) (by decide)]
            refine (congrArg (fun o => Outline.prepend _ (Outline.append _ o))
              (behind [.char Bracket.round.closing] _ _)).trans ?_
            rw [ih, prepend_append, prepend_append, append_assoc, prepend_append]
            simp [Nat.add_assoc]

theorem of_text_append (m : Matched) (offset : Nat) (s : List Char) :
    Outline.of b offset (m.text ++ s) =
      (m.outline b).append (scan b (offset + Text.byteLength (m.text ++ s)) .initial
        (offset + Text.byteLength m.text) (Lexeme.scan s)) := by
  rw [Outline.of, scan_text, scan_outline]

theorem append_nothing (o : Outline) : o.append (.plain []) = o := by
  induction o with
  | plain text => rw [Outline.append, Outline.prepend, List.append_nil]
  | broken text e => rfl
  | group before inner rest ih => rw [Outline.append, ih]

theorem outline_text (m : Matched) (offset : Nat) : Outline.of b offset m.text = m.outline b := by
  have whole := of_text_append b m offset []
  rw [List.append_nil] at whole
  rw [whole]
  exact append_nothing _

end Matched

/-! ## Unclosed texts -/

/-- A text that stops inside a bracket. -/
inductive Unclosed : List Char → Prop
  | flavor (m : Matched) {inner : List Char} (closes : ']' ∉ inner) :
      Unclosed (m.text ++ '[' :: inner)
  | group (m : Matched) (b : Bracket) (inner : Matched) : Unclosed (m.text ++ b.opening :: inner.text)
  | within (m : Matched) (b : Bracket) {s : List Char} (inner : Unclosed s) :
      Unclosed (m.text ++ b.opening :: s)

namespace Outline

open State

/-- The brackets do not match at the end. -/
def Broken : Outline → Prop
  | plain _ => False
  | broken _ _ => True
  | group _ _ rest => rest.Broken

theorem broken_prepend (ls : List Lexeme) {o : Outline} (broken : o.Broken) :
    (o.prepend ls).Broken := by
  cases o <;> exact broken

theorem broken_append (o : Outline) {o' : Outline} (broken : o'.Broken) : (o.append o').Broken := by
  induction o with
  | plain text => exact broken_prepend text broken
  | broken text e => trivial
  | group before inner rest ih => exact ih

/-- A group is open or passed over. -/
def State.Pending (s : State) : Prop := s.group ≠ none ∨ s.passed ≠ none

variable (stop : Nat)

theorem broken_of_pending (b : Bracket) {s : State} (pending : s.Pending) (pos : Nat) :
    (scan b stop s pos []).Broken := by
  obtain ⟨before, group, passed⟩ := s
  rw [scan]
  cases passed with
  | some p => trivial
  | none =>
      cases group with
      | some g => trivial
      | none => exact absurd pending (by simp [Pending])

theorem broken_unclosedFlavor (b : Bracket) (s : State) (pos : Nat) (inner : List Char)
    (rest : List Lexeme) : (scan b stop s pos (.unclosedFlavor inner :: rest)).Broken := by
  rw [scan]
  trivial

/-- A matched text closes no bracket in front of it. -/
theorem pending_matched (m : Matched) {s : State} (pending : s.Pending) (pos : Nat)
    (rest : List Lexeme) :
    ∃ s' pos', s'.Pending ∧
      scan .round stop s pos (m.lexemes ++ rest) = scan .round stop s' pos' rest := by
  obtain ⟨before, group, passed⟩ := s
  cases passed with
  | some p =>
      exact ⟨_, _, Or.inr (Option.some_ne_none p),
        scan_passed_matched .round stop m ⟨before, group, some p⟩ p pos rest⟩
  | none =>
      cases group with
      | some g =>
          exact ⟨_, _, Or.inl (Option.some_ne_none _), scan_group_matched .round stop m before g pos rest⟩
      | none => exact absurd pending (by simp [Pending])

/-- Behind an opening bracket a group is open or passed over. -/
theorem pending_opening (b : Bracket) (s : State) (pos : Nat) (rest : List Lexeme) :
    ∃ s' pos', s'.Pending ∧
      scan .round stop s pos (.char b.opening :: rest) = scan .round stop s' pos' rest := by
  obtain ⟨before, group, passed⟩ := s
  cases passed with
  | some p =>
      refine ⟨_, _, Or.inr ?_, scan_passing .round stop ⟨before, group, some p⟩ p pos _ rest⟩
      cases b <;> exact Option.some_ne_none _
  | none =>
      rw [scan]
      cases b with
      | curly =>
          refine ⟨_, _, Or.inr ?_, if_pos ⟨rfl, rfl⟩⟩
          exact Option.some_ne_none _
      | round =>
          cases group with
          | none => exact ⟨_, _, Or.inl (Option.some_ne_none _), rfl⟩
          | some g => exact ⟨_, _, Or.inl (Option.some_ne_none _), rfl⟩

theorem broken_of_matched (m : Matched) {s : State} (pending : s.Pending) (pos : Nat) :
    (scan .round stop s pos (Lexeme.scan m.text)).Broken := by
  obtain ⟨s', pos', pending, reaches⟩ := pending_matched stop m pending pos []
  rw [List.append_nil] at reaches
  rw [Matched.scan_text_self, reaches]
  exact broken_of_pending stop .round pending pos'

theorem broken_of_unclosed {text : List Char} (unclosed : Unclosed text) {s : State}
    (pending : s.Pending) (pos : Nat) : (scan .round stop s pos (Lexeme.scan text)).Broken := by
  induction unclosed generalizing s pos with
  | @flavor m inner closes =>
      obtain ⟨s', pos', -, reaches⟩ := pending_matched stop m pending pos (Lexeme.scan ('[' :: inner))
      rw [Matched.scan_text, reaches, Lexeme.scan, if_pos rfl, Matched.scanFlavor_open closes]
      exact broken_unclosedFlavor stop _ _ _ _ _
  | group m b inner =>
      obtain ⟨s', pos', -, reaches⟩ :=
        pending_matched stop m pending pos (Lexeme.scan (b.opening :: inner.text))
      rw [Matched.scan_text, reaches, Matched.scan_char (Matched.opening_ne b)]
      obtain ⟨s, pos, pending, reaches⟩ := pending_opening stop b s' pos' (Lexeme.scan inner.text)
      rw [reaches]
      exact broken_of_matched stop inner pending pos
  | @within m b text _ ih =>
      obtain ⟨s', pos', -, reaches⟩ :=
        pending_matched stop m pending pos (Lexeme.scan (b.opening :: text))
      rw [Matched.scan_text, reaches, Matched.scan_char (Matched.opening_ne b)]
      obtain ⟨s, pos, pending, reaches⟩ := pending_opening stop b s' pos' (Lexeme.scan text)
      rw [reaches]
      exact ih pending pos

/-- **A text that stops inside a bracket has no outline.** -/
theorem outline_unclosed {text : List Char} (unclosed : Unclosed text) (offset : Nat) :
    (Outline.of .round offset text).Broken := by
  cases unclosed with
  | @flavor m inner closes =>
      rw [Matched.of_text_append, Lexeme.scan, if_pos rfl, Matched.scanFlavor_open closes]
      exact broken_append _ (broken_unclosedFlavor _ _ _ _ _ _)
  | group m b inner =>
      rw [Matched.of_text_append, Matched.scan_char (Matched.opening_ne b)]
      obtain ⟨s, pos, pending, reaches⟩ := pending_opening
        (offset + Text.byteLength (m.text ++ b.opening :: inner.text)) b .initial
        (offset + Text.byteLength m.text) (Lexeme.scan inner.text)
      rw [reaches]
      exact broken_append _ (broken_of_matched _ inner pending pos)
  | @within m b text inner =>
      rw [Matched.of_text_append, Matched.scan_char (Matched.opening_ne b)]
      obtain ⟨s, pos, pending, reaches⟩ := pending_opening
        (offset + Text.byteLength (m.text ++ b.opening :: text)) b .initial
        (offset + Text.byteLength m.text) (Lexeme.scan text)
      rw [reaches]
      exact broken_append _ (broken_of_unclosed _ inner pending pos)

end Outline

end DiceFormula
