/-
# DiceFormula.Proofs.Formula.Balanced -- formulas that were read have matching brackets

Round and curly groups are found in two passes, and each pass looks away from the brackets of
the other kind: the one for round groups takes a curly group as it is, and the one for curly
groups takes a round bracket for text.  What is in a group is read later, by itself, and
arguments are read in pieces.

Together they miss nothing.  The texts around round groups are `Sheltered`: a round bracket in
them stands in a curly group (`sheltered_scan`).  The pass for curly groups goes through such a
text in step with the depth that the first pass counted, so there are no brackets between its
groups (`loose_scan`).  If what is in the groups is matched, the whole text is
(`matched_ofOutline?`), and by induction every formula that was read is a `Matched` tree
(`matched_read`).
-/
import DiceFormula.Proofs.Formula.Arguments
import DiceFormula.Proofs.Formula.Barrier
import DiceFormula.Proofs.Formula.Everywhere

namespace DiceFormula

set_option autoImplicit false

/-! ## Lexemes -/

namespace Lexeme

/-- A character, or flavor that ends where it is closed first. -/
def Closed : Lexeme → Prop
  | char c => c ≠ '['
  | flavor text => ']' ∉ text
  | unclosedFlavor _ => False

theorem textAll_append (ls ls' : List Lexeme) : textAll (ls ++ ls') = textAll ls ++ textAll ls' :=
  List.flatMap_append

theorem textAll_cons (l : Lexeme) (ls : List Lexeme) : textAll (l :: ls) = l.text ++ textAll ls :=
  rfl

/-- A text is what its lexemes were read from. -/
theorem textAll_scan (s : List Char) : textAll (scan s) = s := by
  suffices both : textAll (scan s) = s ∧
      ∀ read, textAll (scanFlavor read s) = '[' :: read.reverse ++ s from both.1
  induction s with
  | nil => exact ⟨rfl, fun read => by simp [scanFlavor, textAll, text]⟩
  | cons c s ih =>
      refine ⟨?_, fun read => ?_⟩
      · rw [scan]
        split
        · rename_i opens
          rw [ih.2, opens]
          rfl
        · rw [textAll_cons, ih.1]
          rfl
      · rw [scanFlavor]
        split
        · rename_i closes
          rw [textAll_cons, ih.1, text, closes]
          simp
        · rw [ih.2]
          simp

/-- A text has closed lexemes, up to flavor that is never closed. -/
theorem closed_scan (s : List Char) : ∀ l ∈ scan s, l.Closed ∨ ∃ rest, l = .unclosedFlavor rest := by
  suffices both : (∀ l ∈ scan s, l.Closed ∨ ∃ rest, l = .unclosedFlavor rest) ∧
      ∀ read, ']' ∉ read → ∀ l ∈ scanFlavor read s, l.Closed ∨ ∃ rest, l = .unclosedFlavor rest
    from both.1
  induction s with
  | nil =>
      refine ⟨List.forall_mem_nil _, fun read _ l mem => .inr ⟨read.reverse, ?_⟩⟩
      exact List.mem_singleton.1 mem
  | cons c s ih =>
      refine ⟨?_, fun read closes => ?_⟩
      · rw [scan]
        split
        · exact ih.2 [] (List.not_mem_nil)
        · rename_i other
          exact List.forall_mem_cons.2 ⟨.inl other, ih.1⟩
      · rw [scanFlavor]
        split
        · exact List.forall_mem_cons.2 ⟨.inl (fun mem => closes (List.mem_reverse.1 mem)), ih.1⟩
        · rename_i other
          refine ih.2 (c :: read) fun mem => ?_
          rcases List.mem_cons.1 mem with rfl | inner
          · exact other rfl
          · exact closes inner

/-- Closed lexemes are read again from their text. -/
theorem scan_textAll {ls : List Lexeme} (closed : ∀ l ∈ ls, l.Closed) : scan (textAll ls) = ls := by
  induction ls with
  | nil => rfl
  | cons l ls ih =>
      obtain ⟨first, others⟩ := List.forall_mem_cons.1 closed
      rw [textAll_cons]
      cases l with
      | char c => rw [text, List.singleton_append, Matched.scan_char first, ih others]
      | flavor inner =>
          rw [text, List.append_assoc, List.cons_append, scan, if_pos rfl, List.singleton_append,
            Matched.scanFlavor_closed first, ih others]
          rfl
      | unclosedFlavor rest => cases first

/-- Characters at the end of a text that close no flavor are lexemes at the end. -/
theorem exists_of_textAll {ls : List Lexeme} (closed : ∀ l ∈ ls, l.Closed) {front word : List Char}
    (ends : ']' ∉ word) (split : textAll ls = front ++ word) :
    ∃ ls', ls = ls' ++ word.map char ∧ textAll ls' = front := by
  induction word using List.reverseRecOn generalizing ls with
  | nil => exact ⟨ls, by simp, by simpa using split⟩
  | append_singleton word c ih =>
      rw [List.mem_append, not_or, List.mem_singleton] at ends
      rw [← List.append_assoc] at split
      rcases List.eq_nil_or_concat ls with rfl | ⟨ls, l, rfl⟩
      · simp [textAll] at split
      · rw [List.concat_eq_append] at closed split ⊢
        obtain ⟨before, last⟩ := List.forall_mem_append.1 closed
        have closedLast : l.Closed := last l (List.mem_singleton_self l)
        rw [textAll_append] at split
        cases l with
        | char d =>
            obtain ⟨same, char⟩ := List.append_inj' split rfl
            cases char
            obtain ⟨ls', rfl, text⟩ := ih before ends.1 same
            exact ⟨ls', by simp, text⟩
        | flavor inner =>
            have chars : textAll ls ++ textAll [flavor inner] =
                (textAll ls ++ '[' :: inner) ++ [']'] := by simp [textAll, text]
            obtain ⟨-, same⟩ := List.append_inj' (chars.symm.trans split) rfl
            exact absurd (List.cons.inj same).1 ends.2
        | unclosedFlavor rest => cases closedLast

end Lexeme

/-! ## Scans that are not broken -/

namespace Outline

open State

/-- What a character does to the state, unless it closes a group. -/
inductive Takes (b : Bracket) : State → Char → State → Prop
  | passing {s : State} {p : Passed} {c : Char} (passed : s.passed = some p) :
      Takes b s c ((s.push (.char c)).passing (p.step c))
  | pass {s : State} (start : Nat) (round : b = .round) (passed : s.passed = none) :
      Takes b s Bracket.curly.opening
        ((s.push (.char Bracket.curly.opening)).passing (some ⟨start, 0⟩))
  | opening {before : List Lexeme} (start : Nat) :
      Takes b ⟨before, none, none⟩ b.opening ⟨before, some ⟨start, [], 0⟩, none⟩
  | deeper {before inner : List Lexeme} {start depth : Nat} :
      Takes b ⟨before, some ⟨start, inner, depth⟩, none⟩ b.opening
        ⟨before, some ⟨start, .char b.opening :: inner, depth + 1⟩, none⟩
  | shallower {before inner : List Lexeme} {start depth : Nat} :
      Takes b ⟨before, some ⟨start, inner, depth + 1⟩, none⟩ b.closing
        ⟨before, some ⟨start, .char b.closing :: inner, depth⟩, none⟩
  | text {s : State} {c : Char} (passed : s.passed = none)
      (notCurly : b = .round → c ≠ Bracket.curly.opening) (notOpening : c ≠ b.opening)
      (notClosing : c ≠ b.closing) : Takes b s c (s.push (.char c))

/-- A group that is opened in a state is opened at its position. -/
structure Opens (pos : Nat) (s s' : State) : Prop where
  group : s.group = none → ∀ g ∈ s'.group, g.start = pos
  passed : s.passed = none → ∀ p ∈ s'.passed, p.start = pos

/-- Text opens nothing. -/
theorem opens_push (pos : Nat) (s : State) (l : Lexeme) : Opens pos s (s.push l) := by
  obtain ⟨before, group, passed⟩ := s
  constructor
  · rintro rfl g mem
    cases mem
  · rintro rfl p mem
    cases group <;> cases mem

/-- Brackets in a group open nothing. -/
theorem opens_inside (pos : Nat) (before : List Lexeme) (g g' : Open) :
    Opens pos ⟨before, some g, none⟩ ⟨before, some g', none⟩ := by
  constructor
  · intro outside
    cases outside
  · intro _ p mem
    cases mem

/-- **What a character does to a scan.**  It is taken, or it closes the outermost group, or it closes
none, where the scan breaks. -/
theorem scan_cases (b : Bracket) (stop : Nat) (s : State) (pos : Nat) (c : Char) (ls : List Lexeme) :
    (∃ s', Takes b s c s' ∧ Opens pos s s' ∧
      scan b stop s pos (.char c :: ls) = scan b stop s' (pos + c.utf8Size) ls) ∨
    (∃ before inner start, s = ⟨before, some ⟨start, inner, 0⟩, none⟩ ∧ c = b.closing ∧
      scan b stop s pos (.char c :: ls) =
        .group before.reverse inner.reverse (scan b stop .initial (pos + c.utf8Size) ls)) ∨
    (∃ before, s = ⟨before, none, none⟩ ∧ c = b.closing ∧
      scan b stop s pos (.char c :: ls) =
        .broken before.reverse (.unexpectedClose c b.opening (some ⟨pos, pos + 1⟩))) := by
  obtain ⟨before, group, passed⟩ := s
  cases passed with
  | some p =>
      exact .inl ⟨_, .passing rfl, ⟨(opens_push pos _ _).group, fun none => by cases none⟩,
        scan_passing b stop ⟨before, group, some p⟩ p pos c ls⟩
  | none =>
      by_cases curly : b = .round ∧ c = Bracket.curly.opening
      · obtain ⟨round, rfl⟩ := curly
        refine .inl ⟨_, .pass pos round rfl, ⟨(opens_push pos _ _).group, fun _ p mem => ?_⟩, ?_⟩
        · cases mem
          rfl
        · rw [scan]
          exact if_pos ⟨round, rfl⟩
      · by_cases opens : c = b.opening
        · subst opens
          cases group with
          | none =>
              refine .inl ⟨_, .opening pos, ⟨fun _ g mem => ?_, fun _ p mem => by cases mem⟩, ?_⟩
              · cases mem
                rfl
              · rw [scan]
                dsimp only
                rw [if_neg curly, if_pos rfl]
          | some g =>
              refine .inl ⟨_, .deeper, opens_inside pos _ _ _, ?_⟩
              rw [scan]
              dsimp only
              rw [if_neg curly, if_pos rfl]
        · by_cases closes : c = b.closing
          · subst closes
            cases group with
            | none =>
                refine .inr (.inr ⟨before, rfl, rfl, ?_⟩)
                rw [scan]
                dsimp only
                rw [if_neg curly, if_neg opens, if_pos rfl]
            | some g =>
                obtain ⟨start, inner, depth⟩ := g
                cases depth with
                | zero =>
                    refine .inr (.inl ⟨before, inner, start, rfl, rfl, ?_⟩)
                    rw [scan]
                    dsimp only
                    rw [if_neg curly, if_neg opens, if_pos rfl, if_pos rfl]
                | succ depth =>
                    refine .inl ⟨_, .shallower, opens_inside pos _ _ _, ?_⟩
                    rw [scan]
                    dsimp only
                    rw [if_neg curly, if_neg opens, if_pos rfl, if_neg (Nat.succ_ne_zero depth)]
                    rfl
          · have notCurly : b = .round → c ≠ Bracket.curly.opening :=
              fun round same => curly ⟨round, same⟩
            exact .inl ⟨_, .text rfl notCurly opens closes, opens_push pos _ _,
              scan_other b stop rfl pos notCurly opens closes ls⟩

/-- How a state and the lexemes behind it come to an outline that is not broken. -/
inductive Scans (b : Bracket) : State → List Lexeme → Outline → Prop
  | stop {before : List Lexeme} : Scans b ⟨before, none, none⟩ [] (.plain before.reverse)
  | flavor {s : State} {inner : List Char} {ls : List Lexeme} {o : Outline}
      (behind : Scans b (s.push (.flavor inner)) ls o) : Scans b s (.flavor inner :: ls) o
  | char {s s' : State} {c : Char} {ls : List Lexeme} {o : Outline} (takes : Takes b s c s')
      (behind : Scans b s' ls o) : Scans b s (.char c :: ls) o
  | close {before inner ls : List Lexeme} {start : Nat} {o : Outline}
      (behind : Scans b .initial ls o) :
      Scans b ⟨before, some ⟨start, inner, 0⟩, none⟩ (.char b.closing :: ls)
        (.group before.reverse inner.reverse o)

/-- A scan is broken, or it goes through all lexemes. -/
theorem scans_scan {b : Bracket} {stop : Nat} {s : State} {pos : Nat} {ls : List Lexeme}
    (whole : ¬ (scan b stop s pos ls).Broken) : Scans b s ls (scan b stop s pos ls) := by
  induction ls generalizing s pos with
  | nil =>
      by_cases pending : s.Pending
      · exact absurd (broken_of_pending stop b pending pos) whole
      · obtain ⟨before, group, passed⟩ := s
        simp only [Pending, not_or, not_not] at pending
        obtain ⟨rfl, rfl⟩ := pending
        exact .stop
  | cons l ls ih =>
      cases l with
      | unclosedFlavor rest => exact absurd (broken_unclosedFlavor stop b s pos rest ls) whole
      | flavor inner =>
          rw [scan_flavor] at whole ⊢
          exact .flavor (ih whole)
      | char c =>
          obtain ⟨s', takes, -, step⟩ | ⟨before, inner, start, rfl, rfl, step⟩ |
            ⟨before, rfl, rfl, step⟩ := scan_cases b stop s pos c ls
          · rw [step] at whole ⊢
            exact .char takes (ih whole)
          · rw [step] at whole ⊢
            exact .close (ih whole)
          · rw [step] at whole
            exact absurd trivial whole

/-- The lexemes that an outline was read from. -/
def lexemes (b : Bracket) : Outline → List Lexeme
  | plain text => text
  | broken text _ => text
  | group before inner rest =>
      before ++ .char b.opening :: (inner ++ .char b.closing :: rest.lexemes b)

/-- The lexemes that were read so far. -/
def State.lexemes (b : Bracket) (s : State) : List Lexeme :=
  s.before.reverse ++ (s.group.map fun g => .char b.opening :: g.inner.reverse).getD []

theorem State.lexemes_push (b : Bracket) (s : State) (l : Lexeme) :
    (s.push l).lexemes b = s.lexemes b ++ [l] := by
  obtain ⟨before, group, passed⟩ := s
  cases group <;> simp [push, lexemes]

theorem Takes.lexemes {b : Bracket} {s s' : State} {c : Char} (takes : Takes b s c s') :
    s'.lexemes b = s.lexemes b ++ [.char c] := by
  cases takes with
  | passing passed => exact lexemes_push b s _
  | pass start round passed => exact lexemes_push b s _
  | text passed notCurly notOpening notClosing => exact lexemes_push b s _
  | opening start => simp [State.lexemes]
  | deeper => simp [State.lexemes]
  | shallower => simp [State.lexemes]

/-- Nothing is left out of an outline. -/
theorem Scans.lexemes {b : Bracket} {s : State} {ls : List Lexeme} {o : Outline}
    (scans : Scans b s ls o) : o.lexemes b = s.lexemes b ++ ls := by
  induction scans with
  | stop => simp [Outline.lexemes, State.lexemes]
  | flavor behind ih => rw [ih, lexemes_push, List.append_assoc, List.singleton_append]
  | char takes behind ih => rw [ih, takes.lexemes, List.append_assoc, List.singleton_append]
  | close behind ih => simp [Outline.lexemes, State.lexemes, State.initial, ih]

/-- What holds of all text between the groups of an outline. -/
def Texts (P : List Lexeme → Prop) : Outline → Prop
  | plain text => P text
  | broken _ _ => False
  | group before _ rest => P before ∧ rest.Texts P

theorem Texts.imp {P Q : List Lexeme → Prop} {o : Outline} (texts : o.Texts P)
    (implies : ∀ text, P text → Q text) : o.Texts Q := by
  induction o with
  | plain text => exact implies text texts
  | broken text e => exact texts
  | group before inner rest ih => exact ⟨implies before texts.1, ih texts.2⟩

/-- Flavor that is never closed breaks an outline. -/
theorem Scans.closed {b : Bracket} {s : State} {ls : List Lexeme} {o : Outline}
    (scans : Scans b s ls o) (cut : ∀ l ∈ ls, l.Closed ∨ ∃ rest, l = .unclosedFlavor rest) :
    ∀ l ∈ ls, l.Closed := by
  induction scans with
  | stop => exact List.forall_mem_nil _
  | flavor behind ih | char takes behind ih | close behind ih =>
      obtain ⟨first, others⟩ := List.forall_mem_cons.1 cut
      refine List.forall_mem_cons.2 ⟨first.resolve_right ?_, ih others⟩
      rintro ⟨rest, same⟩
      cases same

/-! ## Brackets in brackets -/

/-- How many curly brackets are open behind a lexeme.  None is different from one at depth
zero. -/
def deepen (depth : Option Nat) : Lexeme → Option Nat
  | .char c =>
      if c = Bracket.curly.opening then some (depth.elim 0 (· + 1))
      else if c = Bracket.curly.closing then depth.bind fun d => if d = 0 then none else some (d - 1)
      else depth
  | _ => depth

/-- Round brackets stand in curly groups, of which some may be open at the start and none is at
the end. -/
def Sheltered : Option Nat → List Lexeme → Prop
  | depth, [] => depth = none
  | depth, l :: ls =>
      l.Closed ∧ (depth = none → l ≠ .char Bracket.round.opening ∧ l ≠ .char Bracket.round.closing) ∧
        Sheltered (deepen depth l) ls

theorem deepen_step (p : Passed) (c : Char) :
    (p.step c).map Passed.depth = deepen (some p.depth) (.char c) := by
  unfold Passed.step deepen
  dsimp only
  split
  · rfl
  · split
    · split <;> simp_all
    · rfl

/-- What the pass for round groups knows of the text behind the last group. -/
def State.Safe (s : State) : Prop :=
  ∀ ls, Sheltered (if s.group.isSome then none else s.passed.map Passed.depth) ls →
    Sheltered none (s.before.reverse ++ ls)

theorem safe_push {s : State} {l : Lexeme} (safe : s.Safe) (closed : l.Closed)
    (outside : s.passed = none → l ≠ .char Bracket.round.opening ∧ l ≠ .char Bracket.round.closing)
    {p : Option Passed} (depth : p.map Passed.depth = deepen (s.passed.map Passed.depth) l) :
    ((s.push l).passing p).Safe := by
  obtain ⟨before, group, passed⟩ := s
  intro ls sheltered
  cases group with
  | some g => exact safe ls sheltered
  | none =>
      have next : Sheltered (passed.map Passed.depth) (l :: ls) := by
        refine ⟨closed, fun none => outside ?_, depth ▸ sheltered⟩
        exact Option.map_eq_none_iff.1 none
      have whole := safe (l :: ls) next
      simpa [push, State.passing] using whole

theorem Takes.safe {s s' : State} {c : Char} (takes : Takes .round s c s')
    (closed : (Lexeme.char c).Closed) (safe : s.Safe) : s'.Safe := by
  cases takes with
  | @passing _ p _ passed =>
      refine safe_push safe closed (fun none => ?_) ?_
      · rw [passed] at none
        cases none
      · rw [passed]
        exact deepen_step p c
  | @pass _ start _ passed =>
      refine safe_push safe closed (fun _ => by decide) ?_
      rw [passed]
      rfl
  | opening start => exact safe
  | deeper => exact safe
  | shallower => exact safe
  | text passed notCurly notOpening notClosing =>
      have kept : s.push (.char c) = (s.push (.char c)).passing none := by
        obtain ⟨before, group, passed'⟩ := s
        cases passed
        cases group <;> rfl
      rw [kept]
      refine safe_push safe closed (fun _ => ⟨by simpa using notOpening, by simpa using notClosing⟩) ?_
      rw [passed]
      simp [deepen, notCurly rfl]

/-- **Round brackets in the text around round groups stand in curly groups.** -/
theorem sheltered_scan {s : State} {ls : List Lexeme} {o : Outline} (scans : Scans .round s ls o)
    (closed : ∀ l ∈ ls, l.Closed) (safe : s.Safe) : o.Texts (Sheltered none) := by
  induction scans with
  | stop =>
      have whole := safe [] rfl
      rwa [List.append_nil] at whole
  | @flavor s inner ls o behind ih =>
      obtain ⟨first, others⟩ := List.forall_mem_cons.1 closed
      refine ih others ?_
      have kept := safe_push safe first (fun _ => by simp) (p := s.passed) rfl
      obtain ⟨before, group, passed⟩ := s
      cases group <;> exact kept
  | char takes behind ih =>
      obtain ⟨first, others⟩ := List.forall_mem_cons.1 closed
      exact ih others (takes.safe first safe)
  | close behind ih =>
      have before := safe [] rfl
      rw [List.append_nil] at before
      exact ⟨before, ih (List.forall_mem_cons.1 closed).2 fun ls sheltered => sheltered⟩

/-- A character that is no bracket of a group, and opens no flavor. -/
theorem loose_char {c : Char} (closed : (Lexeme.char c).Closed) (round : c ≠ Bracket.round.opening)
    (round' : c ≠ Bracket.round.closing) (curly : c ≠ Bracket.curly.opening)
    (curly' : c ≠ Bracket.curly.closing) : Group.Loose (.char c) := by
  have flavor : c ≠ '[' := closed
  simp only [Bracket.opening, Bracket.closing] at round round' curly curly'
  simp [Group.Loose, isBracket, flavor, round, round', curly, curly']

/-- **The pass for curly groups finds no other brackets between them**: it goes through a text in
step with the depth in which round brackets are sheltered. -/
theorem loose_scan {s : State} {ls : List Lexeme} {o : Outline} (scans : Scans .curly s ls o)
    (passed : s.passed = none) (sheltered : Sheltered (s.group.map Open.depth) ls)
    (loose : ∀ l ∈ s.before, l.Closed ∧ Group.Loose l) :
    o.Texts fun text => ∀ l ∈ text, l.Closed ∧ Group.Loose l := by
  induction scans with
  | stop => exact fun l mem => loose l (List.mem_reverse.1 mem)
  | @flavor s inner ls o behind ih =>
      obtain ⟨closed, -, others⟩ := sheltered
      obtain ⟨before, group, passed'⟩ := s
      cases group with
      | none => exact ih passed others (List.forall_mem_cons.2 ⟨⟨closed, trivial⟩, loose⟩)
      | some g => exact ih passed others loose
  | @char s s' c ls o takes behind ih =>
      obtain ⟨closed, outside, others⟩ := sheltered
      cases takes with
      | passing some =>
          rw [passed] at some
          cases some
      | pass start round => cases round
      | opening start => exact ih rfl others loose
      | deeper => exact ih rfl others loose
      | shallower => exact ih rfl others loose
      | text none notCurly notOpening notClosing =>
          have kept : deepen (s.group.map Open.depth) (.char c) = s.group.map Open.depth := by
            rw [deepen, if_neg notOpening, if_neg notClosing]
          rw [kept] at others
          obtain ⟨before, group, passed'⟩ := s
          cases group with
          | none =>
              obtain ⟨round, round'⟩ := outside rfl
              have next := loose_char closed (by simpa using round) (by simpa using round')
                notOpening notClosing
              exact ih none others (List.forall_mem_cons.2 ⟨⟨closed, next⟩, loose⟩)
          | some g => exact ih none others loose
  | close behind ih =>
      obtain ⟨-, -, others⟩ := sheltered
      exact ⟨fun l mem => loose l (List.mem_reverse.1 mem), ih rfl others (List.forall_mem_nil _)⟩

theorem deepen_loose {l : Lexeme} (loose : Group.Loose l) (depth : Option Nat) :
    deepen depth l = depth := by
  cases l with
  | char c =>
      obtain ⟨notOpening, notClosing⟩ := ne_of_plain loose .curly
      rw [deepen, if_neg notOpening, if_neg notClosing]
  | flavor inner => rfl
  | unclosedFlavor rest => rfl

theorem sheltered_closed {depth : Option Nat} {ls : List Lexeme} (sheltered : Sheltered depth ls) :
    ∀ l ∈ ls, l.Closed := by
  induction ls generalizing depth with
  | nil => exact List.forall_mem_nil _
  | cons l ls ih => exact List.forall_mem_cons.2 ⟨sheltered.1, ih sheltered.2.2⟩

/-- Loose lexemes in front make no difference to what is sheltered behind them. -/
theorem sheltered_drop {depth : Option Nat} {ls ls' : List Lexeme}
    (loose : ∀ l ∈ ls, Group.Loose l) (sheltered : Sheltered depth (ls ++ ls')) :
    Sheltered depth ls' := by
  induction ls with
  | nil => exact sheltered
  | cons l ls ih =>
      obtain ⟨first, others⟩ := List.forall_mem_cons.1 loose
      obtain ⟨-, -, behind⟩ := sheltered
      rw [deepen_loose first] at behind
      exact ih others behind

/-- Neither do loose lexemes at the end. -/
theorem sheltered_take {depth : Option Nat} {ls ls' : List Lexeme}
    (loose : ∀ l ∈ ls', Group.Loose l) (sheltered : Sheltered depth (ls ++ ls')) :
    Sheltered depth ls := by
  induction ls generalizing depth with
  | nil =>
      have none : Sheltered depth [] := sheltered_drop loose (by rwa [List.append_nil])
      exact none
  | cons l ls ih => exact ⟨sheltered.1, sheltered.2.1, ih sheltered.2.2⟩

end Outline

/-! ## What was read is matched -/

namespace Matched

/-- Loose lexemes are matched. -/
theorem exists_of_loose {ls : List Lexeme} (loose : ∀ l ∈ ls, l.Closed ∧ Group.Loose l) :
    ∃ m : Matched, m.text = Lexeme.textAll ls := by
  induction ls with
  | nil => exact ⟨nil, rfl⟩
  | cons l ls ih =>
      obtain ⟨⟨closed, first⟩, others⟩ := List.forall_mem_cons.1 loose
      obtain ⟨m, text⟩ := ih others
      rw [Lexeme.textAll_cons, ← text]
      cases l with
      | char c => exact ⟨char c first m, rfl⟩
      | flavor inner => exact ⟨flavor inner closed m, by simp [Matched.text, Lexeme.text]⟩
      | unclosedFlavor rest => cases first

end Matched

namespace Group

theorem isBracket_of_isWordChar {c : Char} (word : Text.isWordChar c = true) :
    isBracket c = false ∧ c ≠ ']' := by
  constructor
  · by_contra bracket
    rw [Bool.not_eq_false] at bracket
    simp only [isBracket, Bool.or_eq_true, beq_iff_eq] at bracket
    rcases bracket with (((rfl | rfl) | rfl) | rfl) | rfl <;> cases word
  · rintro rfl
    cases word

theorem cutWord_spec (before : List Char) :
    before = (cutWord before).1 ++ (cutWord before).2 ∧
      ∀ c ∈ (cutWord before).2, Text.isWordChar c = true := by
  obtain ⟨split, all, -⟩ := Text.span_spec Text.isWordChar before.reverse
  refine ⟨?_, fun c mem => all c (List.mem_reverse.1 mem)⟩
  rw [cutWord, ← List.reverse_append, ← split, List.reverse_reverse]

/-- The text in front of a group that is no part of it, and the word that is. -/
theorem front_find {b : Bracket} {read : SubReader} {before : List Char} {offset : Nat}
    {inner : List Char} {lead : List Lexeme} {found : Found}
    (ok : find b read before offset inner lead = .ok found) :
    ∃ word, before = found.front ++ word ∧ ∀ c ∈ word, Text.isWordChar c = true := by
  have kept (front : List Char) (t : Term) (used : Nat) :
      (withFlavorBehind front t used lead).front = front := by
    unfold withFlavorBehind
    split <;> rfl
  have whole : ∃ word, before = before ++ word ∧ ∀ c ∈ word, Text.isWordChar c = true :=
    ⟨[], (List.append_nil _).symm, List.forall_mem_nil _⟩
  cases b with
  | round =>
      obtain ⟨⟨front, t⟩, round, rfl⟩ := ok_of_map ok
      dsimp only
      rw [kept]
      unfold roundTerm at round
      dsimp only at round
      split at round
      · obtain ⟨args, -, same⟩ := ok_of_map round
        cases same
        exact ⟨_, cutWord_spec before⟩
      · obtain ⟨us, -, same⟩ := ok_of_map round
        cases same
        exact whole
  | curly =>
      obtain ⟨t, -, rfl⟩ := ok_of_map ok
      rw [kept]
      exact whole

/-- What stands between the commas of a text. -/
theorem exists_splitOn (inner : List Char) :
    ∃ piece rest, inner.splitOn ',' = piece :: rest ∧ [','].intercalate (piece :: rest) = inner := by
  obtain ⟨piece, rest, pieces⟩ := List.exists_cons_of_ne_nil (List.splitOn_ne_nil ',' inner)
  exact ⟨piece, rest, pieces, pieces ▸ List.intercalate_splitOn ','⟩

theorem append_intercalate (text piece next : List Char) (rest : List (List Char)) :
    text ++ [','].intercalate (piece :: next :: rest) =
      text ++ piece ++ [','] ++ [','].intercalate (next :: rest) := by
  rw [List.intercalate_cons_of_ne_nil (List.cons_ne_nil next rest)]
  simp

variable {read : SubReader} (sound : ∀ offset text us, read offset text = .ok us →
  ∃ m : Matched, m.text = text)
include sound

/-- Arguments that were read are matched, with the commas between them. -/
theorem matched_argumentsFrom (whole : List Char) {offset : Nat} {text piece : List Char}
    {rest : List (List Char)} {args : List (List Term)}
    (ok : argumentsFrom read whole offset text (piece :: rest) = .ok args) :
    ∃ m : Matched, m.text = text ++ [','].intercalate (piece :: rest) := by
  induction rest generalizing offset text piece args with
  | nil =>
      unfold argumentsFrom at ok
      dsimp only at ok
      split at ok
      · cases ok
      · split at ok
        · rename_i us first
          obtain ⟨m, matched⟩ := sound _ _ _ first
          exact ⟨m, by simpa [List.intercalate] using matched⟩
        · cases ok
  | cons next rest ih =>
      rw [append_intercalate]
      unfold argumentsFrom at ok
      dsimp only at ok
      split at ok
      · cases ok
      · split at ok
        · rename_i us first
          obtain ⟨args', others, rfl⟩ := ok_of_map ok
          obtain ⟨m, matched⟩ := sound _ _ _ first
          obtain ⟨m', matched'⟩ := ih others
          refine ⟨m.append (.char ',' rfl m'), ?_⟩
          simp [Matched.text, matched, matched']
        · obtain ⟨m, matched⟩ := ih ok
          exact ⟨m, by simpa using matched⟩

theorem matched_arguments {offset : Nat} {inner : List Char} {args : List (List Term)}
    (ok : arguments read offset inner = .ok args) : ∃ m : Matched, m.text = inner := by
  obtain ⟨piece, rest, pieces, whole⟩ := exists_splitOn inner
  rw [arguments, pieces] at ok
  obtain ⟨m, matched⟩ := matched_argumentsFrom sound inner ok
  exact ⟨m, by rw [matched, whole, List.nil_append]⟩

/-- What is found in brackets is matched. -/
theorem matched_find {b : Bracket} {before : List Char} {offset : Nat} {inner : List Char}
    {lead : List Lexeme} {found : Found} (ok : find b read before offset inner lead = .ok found) :
    ∃ m : Matched, m.text = inner := by
  cases b with
  | round =>
      obtain ⟨⟨front, t⟩, round, -⟩ := ok_of_map ok
      unfold roundTerm at round
      dsimp only at round
      split at round
      · obtain ⟨args, args', -⟩ := ok_of_map round
        exact matched_arguments sound args'
      · obtain ⟨us, inside, -⟩ := ok_of_map round
        exact sound _ _ _ inside
  | curly =>
      obtain ⟨t, curly, -⟩ := ok_of_map ok
      unfold curlyTerm at curly
      split at curly
      · cases curly
      · rename_i members args
        exact matched_arguments sound args

end Group

namespace Strand

variable {read : SubReader}

/-- The outline of a text that could be read goes through all of it. -/
theorem scans_of_read {b : Bracket} {text : List Char} {s : Strand}
    (found : read? b read text = some s) :
    Outline.Scans b .initial (Lexeme.scan text) (Outline.of b 0 text) := by
  refine Outline.scans_scan fun broken => ?_
  rw [read?, Outline.of, ofOutline?_broken b read 0 broken] at found
  cases found

theorem textAll_of_read {b : Bracket} {text : List Char} {s : Strand}
    (found : read? b read text = some s) :
    Lexeme.textAll ((Outline.of b 0 text).lexemes b) = text := by
  rw [(scans_of_read found).lexemes]
  exact Lexeme.textAll_scan text

theorem first_link (s : Strand) (t : Term) (s' : Strand) : (s.link t s').first = s.first := by
  cases s <;> rfl

/-- A strand starts as the text that it was read from. -/
theorem first_read? {b : Bracket} {text : List Char} {s : Strand}
    (found : read? b read text = some s) : ∃ behind, text = s.first ++ behind := by
  have whole := textAll_of_read found
  unfold read? at found
  rw [← whole]
  cases outline : Outline.of b 0 text with
  | plain ls =>
      rw [outline] at found
      cases found
      exact ⟨[], (List.append_nil _).symm⟩
  | broken ls e => rw [outline] at found; cases found
  | group before inner rest =>
      rw [outline] at found
      unfold ofOutline? at found
      split at found
      · cases found
      · obtain ⟨f, ok, found⟩ := Option.bind_eq_some_iff.1 found
        obtain ⟨s', -, rfl⟩ := Option.map_eq_some_iff.1 found
        obtain ⟨word, split, -⟩ := Group.front_find (eq_ok_of_toOption ok)
        refine ⟨word ++ Lexeme.textAll (.char b.opening :: (inner ++
          .char b.closing :: rest.lexemes b)), ?_⟩
        rw [Outline.lexemes, Lexeme.textAll_append, ← List.append_assoc, first, ← split]
        rfl

theorem first_expand {b : Bracket} {s s' : Strand}
    (expands : s.expand (read? b read) = some s') : ∃ behind, s.first = s'.first ++ behind := by
  cases s with
  | plain text => exact first_read? expands
  | term before t rest =>
      obtain ⟨front, found, expands⟩ := Option.bind_eq_some_iff.1 expands
      obtain ⟨others, -, rfl⟩ := Option.map_eq_some_iff.1 expands
      rw [first_link]
      exact first_read? found

variable (sound : ∀ offset text us, read offset text = .ok us → ∃ m : Matched, m.text = text)
include sound

/-- A text is matched if that between its groups is, and if its groups could be read. -/
theorem matched_ofOutline? {b : Bracket} {used : Nat} {o : Outline} {s : Strand}
    (found : ofOutline? b read used o = some s)
    (texts : o.Texts fun text => ∃ m : Matched, m.text = Lexeme.textAll text) :
    ∃ m : Matched, m.text = Lexeme.textAll (o.lexemes b) := by
  induction o generalizing used s with
  | plain text => exact texts
  | broken text e => cases texts
  | group before inner rest ih =>
      obtain ⟨⟨front, frontText⟩, others⟩ := texts
      unfold ofOutline? at found
      split at found
      · cases found
      · obtain ⟨f, ok, found⟩ := Option.bind_eq_some_iff.1 found
        obtain ⟨s', behind, -⟩ := Option.map_eq_some_iff.1 found
        obtain ⟨m, inside⟩ := Group.matched_find sound (eq_ok_of_toOption ok)
        obtain ⟨m', restText⟩ := ih behind others
        refine ⟨front.append (.group b m m'), ?_⟩
        rw [Matched.text_append, Matched.text, frontText, inside, restText, Outline.lexemes]
        simp [Lexeme.textAll, Lexeme.text]

/-- The curly groups of a sheltered text are its only brackets. -/
theorem matched_curly {ls : List Lexeme} (sheltered : Outline.Sheltered none ls) {s : Strand}
    (found : read? .curly read (Lexeme.textAll ls) = some s) :
    ∃ m : Matched, m.text = Lexeme.textAll ls := by
  have scans := scans_of_read found
  rw [Lexeme.scan_textAll (Outline.sheltered_closed sheltered)] at scans
  have whole := scans.lexemes
  have loose := Outline.loose_scan scans rfl sheltered (List.forall_mem_nil _)
  have texts := loose.imp fun text => Matched.exists_of_loose
  have matched := matched_ofOutline? sound found texts
  rwa [whole] at matched

/-- A text between round groups is matched if the part of it that belongs to no group could be
read: what belongs to the group in front of it has no brackets, and neither has the word in front
of the group behind it. -/
theorem matched_between {text : List Lexeme} (sheltered : Outline.Sheltered none text) {used : Nat}
    (loose : ∀ l ∈ text.take used, Group.Loose l) {front word : List Char}
    (split : Lexeme.textAll (text.drop used) = front ++ word)
    (all : ∀ c ∈ word, Text.isWordChar c = true) {s : Strand}
    (found : read? .curly read front = some s) : ∃ m : Matched, m.text = Lexeme.textAll text := by
  have plain : ∀ c ∈ word, isBracket c = false :=
    fun c mem => (Group.isBracket_of_isWordChar (all c mem)).1
  rw [← List.take_append_drop used text] at sheltered
  have closed := Outline.sheltered_closed sheltered
  have behind := Outline.sheltered_drop loose sheltered
  obtain ⟨ls, cut, rfl⟩ := Lexeme.exists_of_textAll (Outline.sheltered_closed behind)
    (fun mem => (Group.isBracket_of_isWordChar (all _ mem)).2 rfl) split
  rw [cut] at behind
  have kept := Outline.sheltered_take (fun l mem => ?_) behind
  · obtain ⟨m, matched⟩ := matched_curly sound kept found
    obtain ⟨m', used'⟩ := Matched.exists_of_loose fun l mem =>
      ⟨closed l (List.mem_append_left _ mem), loose l mem⟩
    refine ⟨m'.append (m.append (Matched.ofPlain word plain)), ?_⟩
    rw [Matched.text_append, Matched.text_append, Matched.text_ofPlain, matched, used', ← split,
      ← Lexeme.textAll_append, List.take_append_drop]
  · obtain ⟨c, member, rfl⟩ := List.mem_map.1 mem
    exact plain c member

/-- The texts between round groups are matched once all groups could be read. -/
theorem matched_texts {o : Outline} (sheltered : o.Texts (Outline.Sheltered none)) {used : Nat}
    (loose : ∀ l ∈ o.lead.take used, Group.Loose l) {s s' : Strand}
    (found : ofOutline? .round read used o = some s)
    (expands : s.expand (read? .curly read) = some s') :
    o.Texts fun text => ∃ m : Matched, m.text = Lexeme.textAll text := by
  induction o generalizing used s s' with
  | plain text =>
      cases found
      exact matched_between sound sheltered loose (List.append_nil _).symm (List.forall_mem_nil _)
        expands
  | broken text e => cases sheltered
  | group before inner rest ih =>
      unfold ofOutline? at found
      split at found
      · cases found
      · obtain ⟨f, ok, found⟩ := Option.bind_eq_some_iff.1 found
        obtain ⟨others, behind, rfl⟩ := Option.map_eq_some_iff.1 found
        obtain ⟨first, curly, expands⟩ := Option.bind_eq_some_iff.1 expands
        obtain ⟨others', expands, -⟩ := Option.map_eq_some_iff.1 expands
        have ok := eq_ok_of_toOption ok
        obtain ⟨word, split, all⟩ := Group.front_find ok
        exact ⟨matched_between sound sheltered.1 loose split all curly,
          ih sheltered.2 (Group.loose_used ok).2 behind expands⟩

end Strand

namespace Formula

/-- A text with links is matched if the texts in its groups are. -/
theorem matched_links? {read : SubReader} (sound : ∀ offset text us, read offset text = .ok us →
    ∃ m : Matched, m.text = text) {text : List Char} {links : List Link}
    (found : links? read text = some links) : ∃ m : Matched, m.text = text := by
  obtain ⟨s, round, found⟩ := Option.bind_eq_some_iff.1 found
  obtain ⟨s', expands, -⟩ := Option.map_eq_some_iff.1 found
  have scans := Strand.scans_of_read round
  have closed : ∀ l ∈ Lexeme.scan text, l.Closed := scans.closed (Lexeme.closed_scan text)
  have sheltered := Outline.sheltered_scan scans closed fun ls sheltered => sheltered
  have texts := Strand.matched_texts sound sheltered (by simp) round expands
  obtain ⟨m, matched⟩ := Strand.matched_ofOutline? sound round texts
  exact ⟨m, matched.trans (Strand.textAll_of_read round)⟩

theorem matched_reads? {depth : Nat} {text : List Char} {ts : List Term}
    (reads : reads? depth text = some ts) : ∃ m : Matched, m.text = text := by
  induction depth generalizing text ts with
  | zero => cases reads
  | succ depth ih =>
      rw [reads?_succ] at reads
      obtain ⟨links, found, -⟩ := Option.bind_eq_some_iff.1 reads
      refine matched_links? (fun offset text us ok => ?_) found
      have inner : reads? depth text = some us := by
        rw [reads?, steady_reader depth 0 offset, ok]
        rfl
      exact ih inner

/-- **A formula that was read has matching brackets**: it is the text of a tree of groups and
flavor, with no other brackets that open something or close a group. -/
theorem matched_read {formula : String} {ts : List Term} (accepted : read formula = .ok ts) :
    ∃ m : Matched, m.text = formula.toList :=
  matched_reads? (congrArg Except.toOption accepted)

/-- Brackets of all kinds in one another, and brackets in flavor, which do not count. -/
theorem matched_read_nested :
    ∃ ts, read "\x7b1d6, (2 + max(1, 3))[a\x7d (]\x7dkh[b)] * (1d4)d6" = .ok ts ∧
      ∃ m : Matched, m.text = "\x7b1d6, (2 + max(1, 3))[a\x7d (]\x7dkh[b)] * (1d4)d6".toList := by
  have accepted :
      (read "\x7b1d6, (2 + max(1, 3))[a\x7d (]\x7dkh[b)] * (1d4)d6").toOption.isSome = true := by
    decide +kernel
  obtain ⟨ts, reads⟩ := exists_ok accepted
  exact ⟨ts, reads, matched_read reads⟩

end Formula

end DiceFormula
