/-
# DiceFormula.Proofs.Roll.Counted -- dice whose count is calculated

A group in front of dice without a count stands for it.  If the group has the same value whatever
the dice show, both are merged while the formula is read, and are dice with that count from then on
(`settle?_folded`).  Otherwise the dice wait, and are merged with the value that the group is
evaluated to (`settle?_waiting`, `run_waiting`).

Either way the formula ends as dice alone do that have the value for their count
(`evaluate_counted`).  What the group rolls comes first: and if its value is constant, nothing does
(`Evaluation.evaluate_of_constant`).
-/
import DiceFormula.Proofs.Dice.Counted
import DiceFormula.Proofs.Formula.Balanced
import DiceFormula.Proofs.Formula.Nesting
import DiceFormula.Proofs.Roll.Alone
import DiceFormula.Proofs.Roll.Constant

namespace DiceFormula

set_option autoImplicit false

section Counted

variable {text : List Char} {d : Dice} (uncounted : Dice.Uncounted text d)
include uncounted

/-! ## Reading -/

namespace Formula

/-- A group and dice behind it are two links. -/
theorem links?_counted {read : SubReader} {inner : Matched}
    (visible : Text.allBlank inner.text = false) {ts : List Term}
    (reads : read 0 inner.text = .ok ts) :
    links? read ('(' :: inner.text ++ ')' :: text) =
      some [.term (.group ts none), .operand text] := by
  have found : Group.roundTerm read [] 0 inner.text = .ok ([], .group ts none) := by
    show (read 0 inner.text).map _ = _
    rw [reads]
    rfl
  have unflavored : text.head? ≠ some '[' := fun first =>
    uncounted.not_mem rfl (List.mem_of_mem_head? first)
  have group := links?_round_append read visible none forall_none (List.forall_mem_nil _) rfl found
    fun _ => unflavored
  let behind := Matched.ofPlain text uncounted.isBracket_eq
  have same : behind.text = text := Matched.text_ofPlain _ _
  have other : ∀ l ∈ behind.lexemes, Cut.operator? l = none := by
    rw [Matched.lexemes_ofPlain]
    exact List.forall_mem_map.2 uncounted.ofSymbol?_eq
  have operand : links? read text = some [.operand text] := by
    rw [← same, links?_bare read (Matched.bare_ofPlain _ _),
      ofText_operand other (same.symm ▸ uncounted.trimmed.allBlank_eq), same,
      uncounted.trimmed.trim_eq]
  rw [operand] at group
  simpa [Term.flavorText, Term.withFlavor] using group

end Formula

/-! ## Merging -/

namespace Piece

/-- Beside a group dice without a count are not decided yet. -/
theorem classifyEarly_counted (ts : List Term) :
    classifyEarly (ofTerms [.group ts none, .fragment (String.ofList text)]) =
      ofTerms [.group ts none, .fragment (String.ofList text)] := by
  have stays := uncounted.classifyEarly_uncounted (some (.group ts none)) none
  show ([⟨.group ts none, none⟩, ⟨Fragment.classifyEarly (String.ofList text) (some (.group ts none))
    none, none⟩] : List Piece) = _
  rw [stays]
  rfl

variable {x : Float} {n : Nat} (whole : (x == Float.ofNat n) = true) (few : n ≤ Dice.maxCount)

section Merge

include whole few

omit uncounted in
/-- A value in front of a text is merged with it. -/
theorem merge_counted (span span' : Option Span) :
    merge [⟨.number x none, span⟩, ⟨.fragment (String.ofList text), span'⟩] =
      [⟨.fragment (String.ofList (Nat.toDigits 10 n ++ text)), Span.cover? span span'⟩] := by
  have written : formulaNumber x = toString n :=
    Double.formulaNumber_whole whole (Nat.lt_of_le_of_lt few (by decide))
  have joined : toString n ++ String.ofList text ++ "" =
      String.ofList (Nat.toDigits 10 n ++ text) := by
    rw [String.append_empty, String.ext_iff, String.toList_append, Dice.Reader.toList_toString,
      String.toList_ofList, String.toList_ofList]
  have merges : Term.merged? (.number x none) (.fragment (String.ofList text)) =
      some (String.ofList (Nat.toDigits 10 n ++ text)) := by
    show some (formulaNumber x ++ String.ofList text ++ Term.mergedFlavor none _) = _
    rw [Term.mergedFlavor_none, written, joined]
  rw [merge_merged merges]
  rfl

/-- When a formula is evaluated, both are dice. -/
theorem simplifyLate_counted :
    simplifyLate (ofTerms [.number x none, .fragment (String.ofList text)]) =
      .ok [⟨.ofDice { d with count := n } none, none⟩] := by
  have merged := @merge_counted text x n whole few none none
  have settles : settleLate ⟨.fragment (String.ofList (Nat.toDigits 10 n ++ text)), none⟩ =
      .ok ⟨.ofDice { d with count := n } none, none⟩ := by
    rw [settleLate]
    dsimp only
    rw [uncounted.classify_counted few]
  rw [simplifyLate]
  show ((merge [⟨.number x none, none⟩, ⟨.fragment (String.ofList text), none⟩]).mapM settleLate).map _ = _
  rw [merged]
  show ((settleLate ⟨.fragment (String.ofList (Nat.toDigits 10 n ++ text)), none⟩ >>= _)).map _ = _
  rw [settles]
  rfl

/-- When a formula is read, both are dice if the group in front has that value whatever the dice
show. -/
theorem settle?_folded {ts : List Term} (constant : (Term.group ts none).constant? = some x) :
    settle? [.group ts none, .fragment (String.ofList text)] =
      some [.ofDice { d with count := n } none] := by
  have folded : foldConstants (ofTerms [.group ts none, .fragment (String.ofList text)]) =
      [⟨.number x none, none⟩, ⟨.fragment (String.ofList text), none⟩] := by
    simp [foldConstants, mapNeighbours, mapNeighboursFrom, ofTerms, Term.isFoldable,
      Term.isFragment, Term.flavor?, constant]
  have settles : settleEarly none ⟨.fragment (String.ofList (Nat.toDigits 10 n ++ text)), none⟩ none =
      .ok ⟨.ofDice { d with count := n } none, none⟩ := by
    rw [settleEarly]
    dsimp only
    rw [uncounted.classify_counted few]
    rfl
  rw [settle?, classifyEarly_counted uncounted, simplifyEarly, folded, merge_counted whole few]
  show (([settleEarly none ⟨.fragment (String.ofList (Nat.toDigits 10 n ++ text)), none⟩ none].mapM id).map
    terms).toOption = _
  rw [settles]
  rfl

end Merge

/-- Otherwise the dice wait for the group in front. -/
theorem settle?_waiting {ts : List Term} (varying : (Term.group ts none).constant? = none) :
    settle? [.group ts none, .fragment (String.ofList text)] =
      some [.group ts none, .fragment (String.ofList text)] := by
  refine Term.settle?_of_classified ?_ (List.isChain_pair.2 ⟨rfl, fun fragment => ?_, fun _ _ => varying⟩)
    ⟨fun other fragment => ?_, fun other fragment => ?_, trivial⟩
  · have stays := uncounted.classifyEarly_uncounted (some (.group ts none)) none
    exact congrArg (fun t => [Term.group ts none, t]) stays
  · cases fragment
  · cases fragment
  · cases fragment
    exact ⟨rfl, uncounted.checkPending_uncounted rfl⟩

end Piece

/-! ## Evaluation -/

namespace Evaluation

/-- Dice that wait are rolled once the group in front has a value. -/
theorem run_waiting {ts ts' : List Term} {s s' : Session} {x : Float} {n : Nat}
    (inside : (evaluate ts).run.run s = (.ok (ts', x), s')) (whole : (x == Float.ofNat n) = true)
    (few : n ≤ Dice.maxCount) :
    (evaluate [.group ts none, .fragment (String.ofList text)]).run.run s =
      (alone { d with count := n }).run.run s' := by
  have resolved : resolveAll [.group ts none, .fragment (String.ofList text)] =
      evaluate ts >>= fun result =>
        pure [.number result.2 none, .fragment (String.ofList text)] := by
    rw [resolveAll, resolveAll, resolveAll, resolve_group, resolve_alone rfl]
    simp
  have goesOn : evaluate [.group ts none, .fragment (String.ofList text)] =
      evaluate ts >>= fun result =>
        finish [.number result.2 none, .fragment (String.ofList text)] := by
    conv => lhs; rw [evaluate, resolved, bind_assoc]
    simp only [pure_bind]
  rw [goesOn, run_bind, inside]
  dsimp only
  rw [finish_alone (Piece.simplifyLate_counted uncounted whole few)]

end Evaluation

end Counted

/-! ## Rolls -/

namespace Roll

open Evaluation

/-- What a formula is read as that stands in front of dice as a group. -/
theorem parse_counted {formula text : String} {roll : Roll} {d : Dice}
    (parsed : parse formula = .ok roll) (uncounted : Dice.Uncounted text.toList d) {ts : List Term}
    (settles : Piece.settle? [.group roll.terms none, .fragment text] = some ts) :
    parse ("(" ++ formula ++ ")" ++ text) =
      .ok { ofTerms ts with formula := "(" ++ formula ++ ")" ++ text } := by
  obtain ⟨read, -⟩ := parse_ok parsed
  have visible : Text.allBlank formula.toList = false := by
    unfold parse at parsed
    split at parsed
    · cases parsed
    · rename_i visible
      simpa using visible
  have chars : ("(" ++ formula ++ ")" ++ text).toList =
      '(' :: formula.toList ++ ')' :: text.toList := by
    simp
  obtain ⟨inner, same⟩ := Formula.matched_reads? (congrArg Except.toOption read)
  have reads : Formula.reader ('(' :: formula.toList ++ ')' :: text.toList).length 0 inner.text =
      .ok roll.terms := by
    have shorter : formula.toList.length < ('(' :: formula.toList ++ ')' :: text.toList).length := by
      simp
    rw [same]
    exact eq_ok_of_toOption ((Formula.reads?_iff shorter).2 (by rwa [String.ofList_toList]))
  have links := Formula.links?_counted uncounted (same.symm ▸ visible) reads
  rw [same] at links
  have whole : Formula.read ("(" ++ formula ++ ")" ++ text) = .ok ts := by
    refine Formula.read_of_reads? ?_
    rw [chars, Formula.reads?_succ, links, Option.bind_some, Link.terms, Link.terms, Link.terms,
      String.ofList_toList, settles]
  have visible' : Text.allBlank ('(' :: formula.toList ++ ')' :: text.toList) = false := rfl
  rw [parse, chars, visible', if_neg Bool.false_ne_true, whole]
  rfl

/-- **A calculated count means the same whether it is known when the formula is read or not.**  If a
formula comes to a whole number, then in front of dice it stands for that count: together they are
a formula, whose evaluation rolls the dice of the first as that does, and then the dice with that
count.  These give the result. -/
theorem evaluate_counted {formula text : String} {roll roll' : Roll} {roller roller' : Roller}
    {total : Float} {n : Nat} {d : Dice} (parsed : parse formula = .ok roll)
    (outcome : roll.evaluate roller = (.ok total, roll', roller'))
    (whole : (total == Float.ofNat n) = true) (few : n ≤ 10000)
    (trimmed : Text.trim text.toList = text.toList)
    (letter : text.toList.head?.any Fragment.isLetterD = true) (dice : Dice.parse text = .ok d) :
    ∃ counted rolled, parse ("(" ++ formula ++ ")" ++ text) = .ok counted ∧
      Dice.parse (toString n ++ text) = .ok rolled ∧
      EndsWith roll'.dice rolled ((rolled.roll true).run.run roller') (counted.evaluate roller) := by
  have uncounted := Dice.uncounted_of_parse trimmed letter dice
  have fragment : String.ofList text.toList = text := String.ofList_toList
  have counts : Dice.parse (toString n ++ text) = .ok { d with count := n } := by
    rw [Dice.parse_iff, String.toList_append, Dice.Reader.toList_toString]
    exact uncounted.read?_counted few
  obtain ⟨ts', s', inside, rfl, rfl⟩ := evaluate_ok outcome
  cases constant : (Term.group roll.terms none).constant? with
  | some x =>
      obtain ⟨ts'', evaluated⟩ := evaluate_of_constant roll.terms (eq_ok_of_toOption constant)
      rw [evaluated] at inside
      cases inside
      have settles := Piece.settle?_folded uncounted whole few constant
      rw [fragment] at settles
      refine ⟨_, _, parse_counted parsed uncounted settles, counts, ?_⟩
      exact endsWith_evaluate (s := ⟨roller, []⟩) rfl
        (congrArg (fun evaluation => evaluation.run.run ⟨roller, []⟩) (evaluate_alone _))
  | none =>
      have settles := Piece.settle?_waiting uncounted constant
      have waiting := run_waiting uncounted inside whole few
      rw [fragment] at settles waiting
      exact ⟨_, _, parse_counted parsed uncounted settles, counts, endsWith_evaluate rfl waiting⟩

theorem evaluate_counted_rolled :
    ∃ (roll roll' : Roll) (roller' : Roller) (total : Float) (d : Dice),
      parse "max(1d4, 2)" = .ok roll ∧
        roll.evaluate (.tape [3, 5, 1, 6]) = (.ok total, roll', roller') ∧
        (total == Float.ofNat 3) = true ∧ Dice.parse "D6kh2" = .ok d ∧
        ∃ counted rolled, parse ("(" ++ "max(1d4, 2)" ++ ")" ++ "D6kh2") = .ok counted ∧
          Dice.parse (toString 3 ++ "D6kh2") = .ok rolled ∧
          EndsWith roll'.dice rolled ((rolled.roll true).run.run roller')
            (counted.evaluate (.tape [3, 5, 1, 6])) := by
  have comes : ∃ roll ∈ (parse "max(1d4, 2)").toOption,
      ∃ total ∈ (roll.evaluate (.tape [3, 5, 1, 6])).1.toOption,
        (total == Float.ofNat 3) = true := by
    decide +kernel
  obtain ⟨roll, parsed, total, ends, whole⟩ := comes
  obtain ⟨d, dice⟩ : ∃ d, Dice.parse "D6kh2" = .ok d := exists_ok (by decide +kernel)
  rcases outcome : roll.evaluate (.tape [3, 5, 1, 6]) with ⟨e | total', roll', roller'⟩
  · rw [outcome] at ends
    cases ends
  · rw [outcome] at ends
    cases ends
    exact ⟨roll, roll', roller', total, d, eq_ok_of_toOption parsed, outcome, whole, dice,
      evaluate_counted (eq_ok_of_toOption parsed) outcome whole (by decide) (by decide +kernel)
        (by decide +kernel) dice⟩

end Roll

end DiceFormula
