/-
# DiceFormula.Proofs.Formula.Arguments -- commas

The arguments of a call are separated by commas, and so are the members of a pool;
but a comma may also stand inside a bracket.  The reader tries each stretch of text
up to a comma.  Up to a comma inside a bracket the text is `Unclosed` and is not
read as a formula (`reads?_unclosed`), so the reader goes on and takes whole
arguments (`arguments_texts`).
-/
import DiceFormula.Proofs.Formula.Links

namespace DiceFormula

set_option autoImplicit false

namespace Matched

/-- Every comma of the text stands inside a bracket. -/
def Guarded : Matched → Prop
  | nil => True
  | char c _ rest => c ≠ ',' ∧ rest.Guarded
  | flavor _ _ rest => rest.Guarded
  | group _ _ rest => rest.Guarded

theorem guarded_append {m m' : Matched} (guarded : m.Guarded) (guarded' : m'.Guarded) :
    (m.append m').Guarded := by
  induction m with
  | nil => exact guarded'
  | char c plain rest ih => exact ⟨guarded.1, ih guarded.2⟩
  | flavor inner closes rest ih => exact ih guarded
  | group b inner rest _ ih => exact ih guarded

theorem guarded_ofPlain {s : List Char} (plain : ∀ c ∈ s, isBracket c = false)
    (commas : ',' ∉ s) : (ofPlain s plain).Guarded := by
  induction s with
  | nil => trivial
  | cons c s ih =>
      rw [List.mem_cons, not_or] at commas
      exact ⟨Ne.symm commas.1, ih _ commas.2⟩

theorem unclosed_append (m : Matched) {s : List Char} (unclosed : Unclosed s) :
    Unclosed (m.text ++ s) := by
  cases unclosed with
  | flavor m' closes =>
      rw [← List.append_assoc, ← text_append]
      exact .flavor _ closes
  | group m' b inner =>
      rw [← List.append_assoc, ← text_append]
      exact .group _ b inner
  | within m' b inner =>
      rw [← List.append_assoc, ← text_append]
      exact .within _ b inner

/-- Up to a comma a text stops inside a bracket, unless the comma is outside. -/
theorem unclosed_or_matched {m : Matched} {front behind : List Char}
    (split : m.text = front ++ ',' :: behind) :
    Unclosed front ∨ (∃ m' : Matched, m'.text = front) ∧ ¬ m.Guarded := by
  induction m generalizing front behind with
  | nil => cases front <;> cases split
  | char c plain rest ih =>
      cases front with
      | nil =>
          obtain ⟨rfl, -⟩ := List.cons.inj split
          exact Or.inr ⟨⟨nil, rfl⟩, fun guarded => guarded.1 rfl⟩
      | cons d front =>
          obtain ⟨rfl, tail⟩ := List.cons.inj split
          rcases ih tail with unclosed | ⟨⟨m', rfl⟩, outside⟩
          · exact Or.inl (unclosed_append (char c plain nil) unclosed)
          · exact Or.inr ⟨⟨char c plain m', rfl⟩, fun guarded => outside guarded.2⟩
  | flavor inner closes rest ih =>
      cases front with
      | nil => cases (List.cons.inj split).1
      | cons d front =>
          obtain ⟨rfl, tail⟩ := List.cons.inj split
          rcases List.append_eq_append_iff.1 tail with ⟨as, rfl, closed⟩ | ⟨bs, rfl, -⟩
          · cases as with
            | nil => cases (List.cons.inj closed).1
            | cons d as =>
                obtain ⟨rfl, beyond⟩ := List.cons.inj closed
                have text (s : List Char) :
                    (flavor inner closes nil).text ++ s = '[' :: (inner ++ ']' :: s) := by
                  simp [Matched.text]
                rcases ih beyond with unclosed | ⟨⟨m', rfl⟩, outside⟩
                · exact Or.inl (text as ▸ unclosed_append (flavor inner closes nil) unclosed)
                · exact Or.inr ⟨⟨flavor inner closes m', rfl⟩, outside⟩
          · exact Or.inl (.flavor nil fun mem => closes (List.mem_append_left bs mem))
  | group b inner rest ihInner ih =>
      cases front with
      | nil =>
          obtain ⟨comma, -⟩ := List.cons.inj split
          cases b <;> cases comma
      | cons d front =>
          obtain ⟨rfl, tail⟩ := List.cons.inj split
          rcases List.append_eq_append_iff.1 tail with ⟨as, rfl, closed⟩ | ⟨bs, inside, rest'⟩
          · cases as with
            | nil =>
                obtain ⟨comma, -⟩ := List.cons.inj closed
                cases b <;> cases comma
            | cons d as =>
                obtain ⟨rfl, beyond⟩ := List.cons.inj closed
                have text (s : List Char) : (group b inner nil).text ++ s =
                    b.opening :: (inner.text ++ b.closing :: s) := by
                  simp [Matched.text]
                rcases ih beyond with unclosed | ⟨⟨m', rfl⟩, outside⟩
                · exact Or.inl (text as ▸ unclosed_append (group b inner nil) unclosed)
                · exact Or.inr ⟨⟨group b inner m', rfl⟩, outside⟩
          · cases bs with
            | nil =>
                obtain ⟨comma, -⟩ := List.cons.inj rest'
                cases b <;> cases comma
            | cons d bs =>
                obtain ⟨rfl, -⟩ := List.cons.inj rest'
                rcases ihInner inside with unclosed | ⟨⟨m', rfl⟩, -⟩
                · exact Or.inl (.within nil b unclosed)
                · exact Or.inl (.group nil b m')

theorem unclosed_of_guarded {m : Matched} (guarded : m.Guarded) {front behind : List Char}
    (split : m.text = front ++ ',' :: behind) : Unclosed front := by
  rcases unclosed_or_matched split with unclosed | ⟨-, outside⟩
  · exact unclosed
  · exact absurd guarded outside

end Matched

/-! ## Unclosed texts are not read -/

theorem visible_of_unclosed {text : List Char} (unclosed : Unclosed text) :
    Text.allBlank text = false := by
  have bracket (m : Matched) (c : Char) (s : List Char) (visible : Text.isBlank c = false) :
      Text.allBlank (m.text ++ c :: s) = false := by
    rw [Text.allBlank_append, Bool.and_eq_false_iff]
    right
    simp [Text.allBlank, visible]
  cases unclosed with
  | flavor m closes => exact bracket m _ _ (by decide)
  | group m b inner => exact bracket m _ _ (by cases b <;> decide)
  | within m b inner => exact bracket m _ _ (by cases b <;> decide)

theorem Strand.ofOutline?_broken (b : Bracket) (read : SubReader) (used : Nat) {o : Outline}
    (broken : o.Broken) : ofOutline? b read used o = none := by
  induction o generalizing used with
  | plain text => cases broken
  | broken text e => rfl
  | group before inner rest ih =>
      unfold ofOutline?
      split
      · rfl
      · cases (Group.find b read (Lexeme.textAll (before.drop used)) 0 (Lexeme.textAll inner)
            rest.lead).toOption with
        | none => rfl
        | some found =>
            show (ofOutline? b read found.used rest).map _ = none
            rw [ih found.used broken]
            rfl

namespace Formula

/-- **A text that stops inside a bracket is no formula.** -/
theorem reads?_unclosed (depth : Nat) {text : List Char} (unclosed : Unclosed text) :
    reads? depth text = none := by
  cases depth with
  | zero => rfl
  | succ depth =>
      rw [reads?_succ, links?, Strand.read?,
        Strand.ofOutline?_broken _ _ _ (Outline.outline_unclosed unclosed 0)]
      rfl

end Formula

/-! ## Arguments -/

namespace Group

open Formula

/-- A whole argument is read up to the comma that ends it. -/
theorem argumentsFrom_guarded {depth : Nat} {m : Matched} (guarded : m.Guarded)
    (visible : Text.allBlank m.text = false) {ts : List Term} (reads : reads? depth m.text = some ts)
    (whole : List Char) (offset : Nat) {front behind : List Char}
    (split : m.text = front ++ behind) (others : List (List Char)) :
    (argumentsFrom (reader depth) whole offset front (behind.splitOn ',' ++ others)).toOption =
      (argumentsFrom (reader depth) whole 0 [] others).toOption.map (ts :: ·) := by
  have steady := steady_reader depth
  by_cases comma : ',' ∈ behind
  · obtain ⟨as, bs, rfl, first⟩ := List.eq_append_cons_of_mem comma
    have cut : m.text = (front ++ as) ++ ',' :: bs := by rw [split, List.append_assoc]
    have unclosed := Matched.unclosed_of_guarded guarded cut
    have fails : (reader depth offset (front ++ as)).toOption = none :=
      (steady offset 0 _).trans (reads?_unclosed depth unclosed)
    rw [List.splitOn_append_cons_self, List.splitOn_eq_singleton first, List.append_assoc,
      List.singleton_append, argumentsFrom, if_neg (by rw [visible_of_unclosed unclosed]; simp)]
    cases failed : reader depth offset (front ++ as) with
    | ok ts => rw [failed] at fails; cases fails
    | error e =>
        have more : (bs.splitOn ',' ++ others).isEmpty = false := by
          simp [List.splitOn_ne_nil]
        dsimp only
        rw [more]
        exact argumentsFrom_guarded guarded visible reads whole offset
          (by rw [split]; simp) others
  · have ok : reader depth offset (front ++ behind) = .ok ts := by
      rw [← split]
      exact eq_ok_of_toOption ((steady offset 0 _).trans reads)
    rw [List.splitOn_eq_singleton comma, List.singleton_append, argumentsFrom,
      if_neg (by rw [← split, visible]; simp), ok]
    dsimp only
    rw [toOption_map, argumentsFrom_steady steady]
termination_by behind.length

/-- **Arguments are read if each of them is.** -/
theorem arguments_texts {depth : Nat} (offset : Nat) {args : List (Matched × List Term)}
    (nonempty : args ≠ [])
    (each : ∀ arg ∈ args, arg.1.Guarded ∧ Text.allBlank arg.1.text = false ∧
      reads? depth arg.1.text = some arg.2) :
    (arguments (reader depth) offset ([','].intercalate (args.map (·.1.text)))).toOption =
      some (args.map Prod.snd) := by
  have anywhere (whole : List Char) (offset : Nat) :
      (argumentsFrom (reader depth) whole offset []
        (([','].intercalate (args.map (·.1.text))).splitOn ',')).toOption =
          some (args.map Prod.snd) := by
    induction args generalizing offset with
    | nil => exact absurd rfl nonempty
    | cons arg args ih =>
        obtain ⟨guarded, visible, reads⟩ := each arg List.mem_cons_self
        have first := argumentsFrom_guarded guarded visible reads whole offset
          (List.nil_append arg.1.text).symm
        cases args with
        | nil =>
            have alone := first []
            rw [List.append_nil] at alone
            simpa [argumentsFrom, Except.toOption] using alone
        | cons next args =>
            have others := ih (List.cons_ne_nil _ _)
              (fun arg mem => each arg (List.mem_cons_of_mem _ mem)) 0
            have joined : [','].intercalate ((arg :: next :: args).map (·.1.text)) =
                arg.1.text ++ ',' :: [','].intercalate ((next :: args).map (·.1.text)) := by
              simp [List.intercalate]
            rw [joined, List.splitOn_append_cons_self, first, others]
            rfl
  exact anywhere _ offset

/-- Texts with commas between them, as a tree. -/
theorem exists_joined (ms : List Matched) :
    ∃ m : Matched, m.text = [','].intercalate (ms.map Matched.text) := by
  induction ms with
  | nil => exact ⟨.nil, rfl⟩
  | cons m ms ih =>
      obtain ⟨others, text⟩ := ih
      cases ms with
      | nil => exact ⟨m, List.intercalate_singleton.symm⟩
      | cons next ms =>
          refine ⟨m.append (.char ',' (by decide) others), ?_⟩
          rw [Matched.text_append, Matched.text, text, List.map_cons, List.map_cons, List.map_cons,
            List.intercalate_cons_cons, List.append_assoc]
          rfl

/-- Arguments make up a text that stands inside a bracket. -/
theorem exists_arguments {depth : Nat} (offset : Nat) {args : List (Matched × List Term)}
    (nonempty : args ≠ [])
    (each : ∀ arg ∈ args, arg.1.Guarded ∧ Text.allBlank arg.1.text = false ∧
      reads? depth arg.1.text = some arg.2) :
    ∃ m : Matched, m.text = [','].intercalate (args.map (·.1.text)) ∧
      Text.allBlank m.text = false ∧
      (arguments (reader depth) offset m.text).toOption = some (args.map Prod.snd) := by
  obtain ⟨m, joined⟩ := exists_joined (args.map Prod.fst)
  rw [List.map_map] at joined
  refine ⟨m, joined, ?_, ?_⟩
  · obtain ⟨arg, others, rfl⟩ := List.exists_cons_of_ne_nil nonempty
    obtain ⟨-, visible, -⟩ := each arg List.mem_cons_self
    rw [joined, List.map_cons]
    cases others with
    | nil => exact List.intercalate_singleton ▸ visible
    | cons other others =>
        rw [List.map_cons, List.intercalate_cons_cons, Text.allBlank_append, Text.allBlank_append,
          Function.comp_apply, visible, Bool.false_and, Bool.false_and]
  · rw [joined]
    exact arguments_texts offset nonempty each

end Group

/-! ## Calls -/

namespace MathFunction

variable (f : MathFunction)

theorem isBracket_name : ∀ c ∈ f.name.toList, isBracket c = false := by
  have plain : f.name.toList.all (!isBracket ·) = true := by cases f <;> decide
  intro c mem
  simpa using List.all_eq_true.1 plain c mem

theorem comma_not_mem_name : ',' ∉ f.name.toList := by cases f <;> decide

theorem cutWord_name : Group.cutWord f.name.toList = ([], f.name.toList) := by cases f <;> rfl

theorem ofName?_name : ofName? f.name.toList = some f := by cases f <;> rfl

/-- A function and what is read as its arguments are read as a call. -/
theorem roundTerm_name {read : SubReader} {offset : Nat} {inner : List Char}
    {args : List (List Term)} (reads : (Group.arguments read offset inner).toOption = some args) :
    Group.roundTerm read f.name.toList offset inner = .ok ([], .call f args none) := by
  rw [Group.roundTerm, cutWord_name]
  dsimp only
  rw [ofName?_name, eq_ok_of_toOption reads]
  rfl

end MathFunction

end DiceFormula
