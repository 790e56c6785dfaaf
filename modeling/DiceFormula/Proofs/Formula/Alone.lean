/-
# DiceFormula.Proofs.Formula.Alone -- formulas that are nothing but dice

Dice that are written as a formula of their own are read as one term (`read_dice`).  If they are
more than a roll may have, the formula is refused (`read_many`): the text is no dice then, and no
number either.
-/
import DiceFormula.Proofs.Formula.Shown

namespace DiceFormula

set_option autoImplicit false

namespace Formula

variable {d : Dice}

/-- The text of dice is not blank. -/
theorem visible_dice (writable : ∀ m ∈ d.modifiers, m.Writable) :
    Text.allBlank d.text.toList = false := by
  have visible := visible_body (isBody_dice writable) (Dice.Reader.text_ne_nil d) []
  rwa [List.append_nil] at visible

/-- The text of dice is one link. -/
theorem links?_dice (read : SubReader) (writable : ∀ m ∈ d.modifiers, m.Writable) :
    links? read d.text.toList = some [.operand d.text.toList] := by
  have links := links?_body (isBody_dice writable) (Dice.Reader.text_ne_nil d) none read forall_none
  rwa [append_flavorChars_none] at links

/-- **Dice alone are read as they are written.** -/
theorem read_dice (writable : d.Writable) : read d.text = .ok [.ofDice d none] := by
  refine read_of_reads? ?_
  have settles := Term.settle?_shows (.cons (.dice writable forall_none) .nil)
    (List.isChain_singleton (Term.ofDice d none)) trivial
    (Term.fragmentsFrom_settled (List.forall_mem_singleton.2 rfl))
    (by simp [Term.ofDice, Term.beq, Term.beqAll])
  rw [append_flavorChars_none, List.append_nil] at settles
  rw [reads?_succ, links?_dice _ writable.modifiers, Option.bind_some, settles]

/-- What is neither a number nor dice cannot be settled. -/
theorem settle?_unknown {text : String}
    (number : Fragment.number? (Fragment.splitFlavor text.toList).1 = none)
    (dice : Dice.read? (Fragment.splitFlavor text.toList).1 = none) :
    Piece.settle? [.fragment text] = none := by
  have early : Fragment.classifyEarly text none none = .fragment text := by
    unfold Fragment.classifyEarly
    dsimp only
    rw [number, dice]
  have refused : ∃ e, Fragment.classify text = .error e := by
    unfold Fragment.classify
    dsimp only
    rw [number, dice]
    dsimp only
    split <;> exact ⟨_, rfl⟩
  obtain ⟨e, refused⟩ := refused
  have settled : Piece.settleEarly none ⟨.fragment text, none⟩ none = .error (e.locate none) := by
    unfold Piece.settleEarly
    dsimp only
    rw [refused]
    rfl
  have classified : Piece.classifyEarly (Piece.ofTerms [.fragment text]) =
      [⟨Fragment.classifyEarly text none none, none⟩] := rfl
  have simplified : Piece.simplifyEarly [⟨.fragment text, none⟩] =
      [Piece.settleEarly none ⟨.fragment text, none⟩ none].mapM id := rfl
  rw [Piece.settle?, classified, early, simplified, settled]
  rfl

/-- A formula is refused if its links cannot be settled. -/
theorem read_refused {text : String} {links : List Link}
    (written : ∀ read, links? read text.toList = some links)
    (stuck : Piece.settle? (Link.terms true links) = none) : ∃ e, read text = .error e := by
  cases reads : read text with
  | error e => exact ⟨e, rfl⟩
  | ok ts =>
      have settles : reads? (text.toList.length + 1) text.toList = some ts :=
        congrArg Except.toOption reads
      rw [reads?_succ, written, Option.bind_some, stuck] at settles
      cases settles

/-- **Too many dice cannot be read.** -/
theorem read_many (writable : ∀ m ∈ d.modifiers, m.Writable) (many : Dice.maxCount < d.count) :
    ∃ e, read d.text = .error e := by
  refine read_refused (fun read => links?_dice read writable) ?_
  have body := Fragment.splitFlavor_body (isBody_dice writable) (Dice.Reader.text_ne_nil d) none
    forall_none
  rw [append_flavorChars_none] at body
  have links : Link.terms true [.operand d.text.toList] = [.fragment d.text] := by
    rw [Link.terms, Link.terms, String.ofList_toList]
  rw [links]
  refine settle?_unknown ?_ ?_ <;> rw [body]
  · exact Fragment.number?_dice d
  · exact Dice.read?_many writable many

end Formula

end DiceFormula
