/-
# DiceFormula.Proofs.Formula.Nesting -- the bound on nesting makes no difference

A formula is read with a bound on how deep its groups are nested, one more than its length.  What
stands in a group is shorter than the text around it, so two readers that agree on shorter texts
read the same arguments (`arguments_agree`), the same groups (`pieces_agree`) and the same formulas
(`piecesWith_agree`).  Hence all bounds that are greater than the length of a text give the same
pieces or the same error (`piecesWithin_eq`), and what a group holds is read as if it stood by
itself (`reader_eq`, `reads?_eq`).
-/
import DiceFormula.Proofs.Formula.Coverage

namespace DiceFormula

set_option autoImplicit false

/-! ## Readers that agree -/

namespace Group

/-- Two readers read texts that are shorter than a bound the same way. -/
def Agree (bound : Nat) (read read' : SubReader) : Prop :=
  ∀ offset text, text.length < bound → read offset text = read' offset text

variable {bound : Nat} {read read' : SubReader} (agree : Agree bound read read')
include agree

theorem argumentsFrom_agree (whole : List Char) {offset : Nat} {text piece : List Char}
    {rest : List (List Char)} (short : (text ++ [','].intercalate (piece :: rest)).length < bound) :
    argumentsFrom read whole offset text (piece :: rest) =
      argumentsFrom read' whole offset text (piece :: rest) := by
  induction rest generalizing offset text piece with
  | nil =>
      have only : text ++ [','].intercalate [piece] = text ++ piece := by simp [List.intercalate]
      rw [only] at short
      unfold argumentsFrom
      dsimp only
      rw [agree offset (text ++ piece) short]
      rfl
  | cons next rest ih =>
      rw [append_intercalate] at short
      have shorter := short
      simp only [List.length_append] at shorter
      unfold argumentsFrom
      dsimp only
      rw [agree offset (text ++ piece) (by rw [List.length_append]; omega), ih short,
        ih (by rw [List.nil_append]; omega)]

theorem arguments_agree {offset : Nat} {inner : List Char} (short : inner.length < bound) :
    arguments read offset inner = arguments read' offset inner := by
  obtain ⟨piece, rest, pieces, whole⟩ := exists_splitOn inner
  rw [arguments, arguments, pieces]
  exact argumentsFrom_agree agree inner (by rwa [List.nil_append, whole])

theorem find_agree {b : Bracket} {before inner : List Char} {offset : Nat} {lead : List Lexeme}
    (short : inner.length < bound) :
    find b read before offset inner lead = find b read' before offset inner lead := by
  cases b with
  | round =>
      unfold find roundTerm
      rw [arguments_agree agree short, agree offset inner short]
  | curly =>
      unfold find curlyTerm
      rw [arguments_agree agree short]

theorem pieces_agree {b : Bracket} {start used : Nat} {text : List Char} {o : Outline}
    (located : Outline.Located b start text o) (short : text.length ≤ bound) :
    pieces b read start used o = pieces b read' start used o := by
  induction located generalizing used with
  | plain text => rfl
  | broken points => rfl
  | @group start before inner text rest behind ih =>
      rw [List.length_append, List.length_cons, List.length_append, List.length_cons] at short
      rw [byteLength_cut start used before] at ih
      have others {used : Nat} := @ih used (by omega)
      unfold pieces
      dsimp only
      rw [find_agree agree (by omega)]
      simp only [others]

end Group

namespace Piece

variable {bound : Nat} {read read' : SubReader} (agree : Group.Agree bound read read')
include agree

theorem splitGroups_agree {b : Bracket} {offset : Nat} {text : List Char} {ps : List Piece}
    (cover : Cover Verbatim offset text ps) (short : text.length ≤ bound) :
    splitGroups b read ps = splitGroups b read' ps := by
  have each : ∀ p ∈ ps, splitGroup b read p = splitGroup b read' p := by
    rintro ⟨t, span⟩ mem
    obtain ⟨front, part, behind, rfl, place, verbatim⟩ := cover.mem mem
    cases place
    rw [List.length_append, List.length_append] at short
    cases fragment : t.isFragment with
    | true =>
        rw [splitGroup_fragment b read verbatim fragment,
          splitGroup_fragment b read' verbatim fragment]
        exact Group.pieces_agree agree (Outline.located_of b _ part) (by omega)
    | false =>
        cases t with
        | fragment text => cases fragment
        | _ => rfl
  unfold splitGroups
  rw [mapM_congr each]

end Piece

namespace Formula

theorem piecesWith_agree {read read' : SubReader} {offset : Nat} {text : List Char}
    (agree : Group.Agree text.length read read') :
    piecesWith read offset text = piecesWith read' offset text := by
  have round : Piece.splitGroups .round read [Piece.ofText offset text] =
      Piece.splitGroups .round read' [Piece.ofText offset text] := by
    rw [splitGroups_ofText, splitGroups_ofText]
    exact Group.pieces_agree agree (Outline.located_of .round offset text) le_rfl
  unfold piecesWith
  rw [round]
  cases rounds : Piece.splitGroups .round read' [Piece.ofText offset text] with
  | error e => rfl
  | ok ps =>
      dsimp only
      rw [Piece.splitGroups_agree agree (cover_round rounds) le_rfl]

/-- **All bounds on nesting that exceed the length of a text give the same.** -/
theorem piecesWithin_eq {depth depth' offset : Nat} {text : List Char} (short : text.length < depth)
    (short' : text.length < depth') :
    piecesWithin depth offset text = piecesWithin depth' offset text := by
  induction depth generalizing depth' offset text with
  | zero => exact absurd short (Nat.not_lt_zero _)
  | succ depth ih =>
      cases depth' with
      | zero => exact absurd short' (Nat.not_lt_zero _)
      | succ depth' =>
          refine piecesWith_agree fun offset' inner shorter => ?_
          have inside : piecesWithin depth offset' inner = piecesWithin depth' offset' inner :=
            ih (by omega) (by omega)
          rw [inside]

theorem reader_eq {depth : Nat} {text : List Char} (short : text.length < depth) (offset : Nat) :
    reader depth offset text = (pieces offset text).map Piece.terms := by
  rw [reader, pieces, piecesWithin_eq short (Nat.lt_succ_self _)]

/-- What a group holds is read as if it stood by itself. -/
theorem reads?_eq {depth : Nat} {text : List Char} (short : text.length < depth) :
    reads? depth text = (read (String.ofList text)).toOption := by
  rw [reads?, reader_eq short, read, String.toList_ofList]

theorem reads?_iff {depth : Nat} {text : List Char} (short : text.length < depth) {ts : List Term} :
    reads? depth text = some ts ↔ read (String.ofList text) = .ok ts := by
  rw [reads?_eq short]
  exact ⟨eq_ok_of_toOption, fun ok => by rw [ok]; rfl⟩

end Formula

end DiceFormula
