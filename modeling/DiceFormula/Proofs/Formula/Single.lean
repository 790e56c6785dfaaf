/-
# DiceFormula.Proofs.Formula.Single -- formulas of one term

A formula that is read as one operand has no operator outside of brackets (`isOperator_eq_false`),
because operators stay when a formula is settled (`mem_of_isInert`).

A minus sign at the start is the exception, if it belongs to a number.  Then the whole formula is
that number, and it has no flavor (`number_of_read`): with flavor behind the digits, the sign would
have stayed an operator.
-/
import DiceFormula.Proofs.Formula.Balanced
import DiceFormula.Proofs.Formula.Blocks
import DiceFormula.Proofs.Formula.Waiting

namespace DiceFormula

set_option autoImplicit false

/-! ## Operators -/

namespace Piece

variable {t : Term} (inert : t.isInert = true)
include inert

/-- Nothing is merged with an inert term. -/
theorem mem_merge_of_isInert {p : Piece} {ps : List Piece} (mem : t ∈ terms (p :: ps)) :
    t ∈ terms (merge (p :: ps)) := by
  induction ps generalizing p with
  | nil => exact mem
  | cons q ps ih =>
      cases merges : Term.merged? p.term q.term with
      | none =>
          rw [merge_apart fun r mem => by cases mem; exact merges]
          exact List.mem_cons.2 ((List.mem_cons.1 mem).imp_right ih)
      | some text =>
          rw [merge_merged merges]
          refine ih (List.mem_cons_of_mem _ ?_)
          rcases List.mem_cons.1 mem with rfl | mem
          · rw [(Term.merged?_inert inert).2] at merges
            cases merges
          · rcases List.mem_cons.1 mem with rfl | mem
            · rw [(Term.merged?_inert inert).1] at merges
              cases merges
            · exact mem

/-- A step on pieces that leaves inert terms as they are. -/
theorem mem_mapNeighbours_of_isInert {f : Option Term → Piece → Option Term → Piece}
    (leaves : ∀ prior p next, p.term = t → (f prior p next).term = t) {ps : List Piece}
    (mem : t ∈ terms ps) : t ∈ terms (mapNeighbours f ps) := by
  obtain ⟨p, inside, rfl⟩ := List.mem_map.1 mem
  obtain ⟨prior, next, member⟩ := exists_mapNeighboursFrom f none inside
  exact List.mem_map.2 ⟨_, member, leaves prior p next rfl⟩

/-- **Operators and dice stay when a formula is settled.** -/
theorem mem_of_isInert {ts ts' : List Term} (settles : settle? ts = some ts') (mem : t ∈ ts) :
    t ∈ ts' := by
  obtain ⟨settled, -, -, -⟩ := Term.isInert_spec inert
  obtain ⟨qs, ok, rfl⟩ := ok_of_settle? settles
  have classified : t ∈ terms (classifyEarly (ofTerms ts)) := by
    refine mem_mapNeighbours_of_isInert inert (fun prior p next same => ?_) ?_
    · split
      · rename_i text fragment
        rw [same] at fragment
        rw [fragment] at settled
        cases settled
      · exact same
    · rwa [terms_ofTerms]
  have folded : t ∈ terms (foldConstants (classifyEarly (ofTerms ts))) := by
    refine mem_mapNeighbours_of_isInert inert (fun prior p next same => ?_) classified
    have other : t.isFoldable = false := by cases t <;> first | rfl | cases inert
    rw [same, other, Bool.false_and, if_neg Bool.false_ne_true, same]
  have merged : t ∈ terms (merge (foldConstants (classifyEarly (ofTerms ts)))) := by
    cases pieces : foldConstants (classifyEarly (ofTerms ts)) with
    | nil => rw [pieces] at folded; cases folded
    | cons p ps => exact mem_merge_of_isInert inert (pieces ▸ folded)
  obtain ⟨p, inside, rfl⟩ := List.mem_map.1 merged
  obtain ⟨prior, next, member⟩ := exists_mapNeighboursFrom settleEarly none inside
  rw [settleEarly_settled settled] at member
  have collected := eq_of_collect ok
  rw [mapNeighbours] at collected
  rw [collected] at member
  obtain ⟨q, final, same⟩ := List.mem_map.1 member
  cases same
  exact List.mem_map_of_mem final

end Piece

/-! ## Numeric texts -/

namespace Fragment

section Numeric

variable {text behind : List Char}

theorem mem_of_isUnsignedNumeric (numeric : isUnsignedNumeric text = true) :
    ∀ c ∈ text, Text.isDecimalDigit c = true ∨ c = '.' := by
  obtain ⟨whole, digits, -⟩ := Text.span_spec Text.isDecimalDigit text
  unfold isUnsignedNumeric at numeric
  intro c mem
  rw [whole] at mem
  split at numeric
  · cases numeric
  · rename_i run nonempty cut
    rw [cut] at mem digits
    exact .inl (digits c (by simpa using mem))
  · rename_i run fraction nonempty cut
    rw [cut] at mem digits
    rw [Bool.and_eq_true, List.all_eq_true] at numeric
    rcases List.mem_append.1 mem with mem | mem
    · exact .inl (digits c mem)
    · exact (List.mem_cons.1 mem).symm.imp_left (numeric.2 c)
  · cases numeric

/-- What looks numeric has no flavor. -/
theorem not_mem_of_isNumeric (numeric : isNumeric text = true) : '[' ∉ text ∧ ']' ∉ text := by
  have without {s : List Char} (unsigned : isUnsignedNumeric s = true) {c : Char}
      (other : Text.isDecimalDigit c = false ∧ c ≠ '.') : c ∉ s := by
    intro mem
    rcases mem_of_isUnsignedNumeric unsigned c mem with digit | point
    · rw [other.1] at digit
      cases digit
    · exact other.2 point
  unfold isNumeric at numeric
  split at numeric
  · exact ⟨List.not_mem_cons_of_ne_of_not_mem (by decide) (without numeric (by decide)),
      List.not_mem_cons_of_ne_of_not_mem (by decide) (without numeric (by decide))⟩
  · exact ⟨without numeric (by decide), without numeric (by decide)⟩

section Ascii

variable (ascii : ∀ c ∈ text, Text.isDecimalDigit c = true → c.isDigit = true)
include ascii

theorem span_isDigit : text.span Char.isDigit = text.span Text.isDecimalDigit := by
  obtain ⟨whole, digits, stops⟩ := Text.span_spec Text.isDecimalDigit text
  have inside : ∀ c ∈ (text.span Text.isDecimalDigit).1, c.isDigit = true := fun c mem =>
    ascii c (whole ▸ List.mem_append_left _ mem) (digits c mem)
  have ends : Text.Stops Char.isDigit (text.span Text.isDecimalDigit).2 := by
    intro c mem
    have other := stops c mem
    rw [Text.isDecimalDigit, Bool.or_eq_false_iff] at other
    exact other.1
  have cut := Text.span_append inside ends
  rwa [← whole] at cut

/-- What looks numeric is a number if its digits are ASCII. -/
theorem exists_of_ascii (numeric : isUnsignedNumeric text = true) :
    ∃ x, unsignedValue? text = some x := by
  obtain ⟨whole, -, -⟩ := Text.span_spec Text.isDecimalDigit text
  unfold isUnsignedNumeric at numeric
  unfold unsignedValue?
  rw [span_isDigit ascii]
  split at numeric
  · cases numeric
  · exact ⟨_, rfl⟩
  · rename_i run fraction nonempty cut
    rw [cut] at whole
    rw [Bool.and_eq_true, List.all_eq_true] at numeric
    have all : fraction.all Char.isDigit = true := List.all_eq_true.2 fun c mem =>
      ascii c (by rw [whole]; simp [mem]) (numeric.2 c mem)
    rw [numeric.1, all]
    exact ⟨_, rfl⟩
  · cases numeric

end Ascii

/-- What looks numeric is a number if a number starts with it. -/
theorem exists_unsignedValue? (numeric : isNumeric text = true) {x : Float}
    (value : unsignedValue? (text ++ behind) = some x) : ∃ y, unsignedValue? text = some y := by
  have written : ∀ c ∈ text, c.isDigit = true ∨ c = '.' := by
    intro c mem
    by_contra other
    rw [not_or, Bool.not_eq_true] at other
    exact not_mem_of_unsignedValue? value other (List.mem_append_left _ mem)
  refine exists_of_ascii (fun c mem digit => (written c mem).resolve_right ?_) ?_
  · rintro rfl
    cases digit
  · unfold isNumeric at numeric
    split at numeric
    · exact absurd (written '-' List.mem_cons_self) (by decide)
    · exact numeric

end Numeric

end Fragment

/-! ## Minus signs -/

/-- What becomes of a minus sign and a numeric text behind it: a number without flavor, or a
fragment that starts with both and is no number. -/
def Term.Minus (text : List Char) : Term → Prop
  | number _ flavor => flavor = none
  | fragment s => Fragment.number? ('-' :: text) = none ∧ '-' :: text <+: s.toList
  | _ => False

namespace Fragment

theorem read?_minus (body : List Char) : Dice.read? ('-' :: body) = none := by
  cases read : Dice.read? ('-' :: body) with
  | none => rfl
  | some d => exact absurd List.mem_cons_self (Dice.not_mem_of_read? read rfl)

section Minus

variable {text : List Char} (numeric : isNumeric text = true)
  (trimmed : Text.Trimmed ('-' :: text))
include numeric trimmed

theorem minus_classifyEarly (prior next : Option Term) :
    (classifyEarly (String.ofList ('-' :: text)) prior next).Minus text := by
  have closes : ']' ∉ '-' :: text :=
    List.not_mem_cons_of_ne_of_not_mem (by decide) (not_mem_of_isNumeric numeric).2
  unfold classifyEarly
  rw [String.toList_ofList, splitFlavor_plain trimmed fun last =>
    closes (List.mem_of_getLast? last)]
  dsimp only
  cases number : number? ('-' :: text) with
  | some x => exact rfl
  | none =>
      rw [read?_minus]
      exact ⟨number, by rw [String.toList_ofList]⟩

/-- The flavor of a text that starts so stands behind it. -/
theorem minus_splitFlavor {s : List Char} (whole : Text.Trimmed s) (starts : '-' :: text <+: s) :
    ∃ behind, (splitFlavor s).1 = '-' :: text ++ behind := by
  have opens : '[' ∉ '-' :: text :=
    List.not_mem_cons_of_ne_of_not_mem (by decide) (not_mem_of_isNumeric numeric).1
  obtain ⟨behind, rfl⟩ := starts
  rcases splitFlavor_cases whole with split | ⟨front, flavor, same, -, split⟩
  · exact ⟨behind, by rw [split]⟩
  · rw [List.append_assoc front] at same
    rcases List.append_eq_append_iff.1 same with ⟨more, rfl, -⟩ | ⟨more, short, rest⟩
    · exact ⟨Text.trimEnd more, by rw [split]; exact Text.trimEnd_join trimmed more⟩
    · cases more with
      | nil =>
          rw [List.append_nil] at short
          exact ⟨[], by rw [split, ← short, trimmed.trimEnd_eq, List.append_nil]⟩
      | cons c more =>
          cases (List.cons.inj rest).1
          exact absurd (by rw [short]; simp) opens

/-- A fragment that starts so is nothing. -/
theorem minus_classify {s : String} (whole : Text.Trimmed s.toList)
    (minus : (Term.fragment s).Minus text) (t : Term) : classify s ≠ .ok t := by
  intro ok
  obtain ⟨other, starts⟩ := minus
  obtain ⟨behind, body⟩ := minus_splitFlavor numeric trimmed whole starts
  unfold classify at ok
  dsimp only at ok
  rw [body] at ok
  split at ok
  · rename_i x value
    obtain ⟨y, unsigned, -⟩ := Option.map_eq_some_iff.1 value
    obtain ⟨z, value⟩ := exists_unsignedValue? numeric unsigned
    rw [number?, value] at other
    cases other
  · rw [List.cons_append, read?_minus] at ok
    dsimp only at ok
    split at ok <;> cases ok

end Minus

end Fragment

namespace Piece

/-- The first piece is what becomes of a minus sign, and no fragment stands behind it. -/
def StartsMinus (text : List Char) (ps : List Piece) : Prop :=
  ∃ p rest, ps = p :: rest ∧ p.term.Minus text ∧ ∀ q ∈ rest.head?, q.term.isFragment = false

variable {text : List Char}

/-- A step on pieces that makes no fragments and leaves the minus sign. -/
theorem StartsMinus.mapNeighbours {f : Option Term → Piece → Option Term → Piece} {p : Piece}
    {ps : List Piece} (leaves : ∀ next, (f none p next).term.Minus text)
    (settles : ∀ prior q next, q.term.isFragment = false → (f prior q next).term.isFragment = false)
    (apart : ∀ q ∈ ps.head?, q.term.isFragment = false) :
    StartsMinus text (mapNeighbours f (p :: ps)) := by
  refine ⟨_, _, rfl, leaves _, fun q mem => ?_⟩
  cases ps with
  | nil => cases mem
  | cons r ps =>
      cases mem
      exact settles _ _ _ (apart r rfl)

theorem minus_merged? {a b : Term} {s : String} (minus : a.Minus text)
    (apart : a.isFragment = false → b.isFragment = false)
    (merges : Term.merged? a b = some s) : (Term.fragment s).Minus text := by
  cases a with
  | fragment front =>
      obtain ⟨x, -, rfl⟩ := Option.map_eq_some_iff.1 merges
      refine ⟨minus.1, ?_⟩
      rw [String.toList_append, String.toList_append, List.append_assoc]
      exact minus.2.trans (List.prefix_append _ _)
  | number x flavor =>
      rw [Term.merged?_settled rfl (apart rfl)] at merges
      cases merges
  | _ => exact minus.elim

/-- The first of merged pieces is what becomes of a minus sign if the first of the pieces is. -/
theorem minus_merge {p : Piece} {ps : List Piece} (minus : p.term.Minus text)
    (apart : ∀ q ∈ ps.head?, p.term.isFragment = false → q.term.isFragment = false) :
    ∃ q ∈ (merge (p :: ps)).head?, q.term.Minus text := by
  induction ps generalizing p with
  | nil => exact ⟨p, rfl, minus⟩
  | cons q ps ih =>
      cases merges : Term.merged? p.term q.term with
      | none =>
          rw [merge_apart fun r mem => by cases mem; exact merges]
          exact ⟨p, rfl, minus⟩
      | some text =>
          rw [merge_merged merges]
          exact ih (minus_merged? minus (apart q rfl) merges) fun r _ settled => by cases settled

/-- A formula of one term was merged to one piece. -/
theorem single_of_settle? {ts : List Term} {t : Term} (trimmed : ∀ u ∈ ts, u.Trimmed)
    (settles : settle? ts = some [t]) :
    ∃ p q, merge (foldConstants (classifyEarly (ofTerms ts))) = [p] ∧ p.term.Trimmed ∧
      settleEarly none p none = .ok q ∧ q.term = t := by
  have lasting : Lasting Term.Trimmed :=
    ⟨fun leaf => Term.trimmed_of_settled leaf.isFragment, Term.trimmed_merged?⟩
  obtain ⟨qs, ok, single⟩ := ok_of_settle? settles
  have collected := eq_of_collect ok
  obtain ⟨q, rfl, rfl⟩ := List.map_eq_singleton_iff.1 single
  cases pieces : merge (foldConstants (classifyEarly (ofTerms ts))) with
  | nil => rw [pieces] at collected; cases collected
  | cons p ps =>
      rw [pieces] at collected
      obtain ⟨first, others⟩ := List.cons.inj collected
      cases ps with
      | nil =>
          have whole : p.term.Trimmed := all_simplified lasting trimmed p (by rw [pieces]; simp)
          exact ⟨p, q, rfl, whole, first, rfl⟩
      | cons p' ps => cases others

/-- What a formula of one term comes to is no fragment. -/
theorem settled_of_settle? {ts : List Term} {t : Term} (trimmed : ∀ u ∈ ts, u.Trimmed)
    (settles : settle? ts = some [t]) : t.isFragment = false := by
  obtain ⟨p, q, -, -, last, rfl⟩ := single_of_settle? trimmed settles
  rcases settleEarly_cases last with ⟨settled, rfl⟩ | ⟨text, -, ⟨pending, -, -⟩ | ⟨-, leaf⟩⟩
  · exact settled
  · cases pending
  · exact leaf.isFragment

/-- A fragment by itself has to be something. -/
theorem settleEarly_alone {text : String} {span : Option Span} {q : Piece} :
    settleEarly none ⟨.fragment text, span⟩ none = .ok q ↔
      ∃ t, Fragment.classify text = .ok t ∧ ⟨t, span⟩ = q := by
  unfold settleEarly
  dsimp only
  rw [show Fragment.isPending none none = false from rfl, if_neg Bool.false_ne_true]
  cases Fragment.classify text with
  | error e => simp
  | ok t => simp

/-- **A minus sign in front of a number belongs to it only if the number has no flavor.** -/
theorem number_of_settle? {ts : List Term} {t : Term} (numeric : Fragment.isNumeric text = true)
    (trimmed : ∀ u ∈ .fragment (String.ofList ('-' :: text)) :: ts, u.Trimmed)
    (apart : ∀ u ∈ ts.head?, u.isFragment = false)
    (settles : settle? (.fragment (String.ofList ('-' :: text)) :: ts) = some [t]) :
    ∃ x, t = .number x none := by
  have minus : Text.Trimmed ('-' :: text) := by
    simpa using trimmed _ List.mem_cons_self _ rfl
  obtain ⟨r, u, merged, whole, last, rfl⟩ := single_of_settle? trimmed settles
  have classified : StartsMinus text
      (classifyEarly (ofTerms (.fragment (String.ofList ('-' :: text)) :: ts))) := by
    refine StartsMinus.mapNeighbours (fun next => ?_) (fun prior q next settled => ?_)
      fun q mem => ?_
    · exact Fragment.minus_classifyEarly numeric minus none next
    · split
      · rename_i text fragment
        rw [fragment] at settled
        cases settled
      · exact settled
    · cases ts with
      | nil => cases mem
      | cons u ts =>
          cases mem
          exact apart u rfl
  obtain ⟨p, rest, pieces, starts, apart⟩ := classified
  have folded : StartsMinus text (foldConstants (p :: rest)) := by
    refine StartsMinus.mapNeighbours (fun next => ?_) (fun prior q next settled => ?_) apart
    · have other : p.term.isFoldable = false := by
        cases kind : p.term <;> first | rfl | (rw [kind] at starts; exact starts.elim)
      rw [other, Bool.false_and, if_neg Bool.false_ne_true]
      exact starts
    · split
      · split
        · rfl
        · exact settled
      · exact settled
  rw [← pieces] at folded
  obtain ⟨p', rest', pieces', starts', apart'⟩ := folded
  -- a number is not merged with what is no fragment, so it is all there is
  obtain ⟨q, first, starts⟩ := minus_merge starts' fun r mem _ => apart' r mem
  rw [← pieces', merged] at first
  cases first
  obtain ⟨t, span⟩ := r
  cases t with
  | fragment s =>
      obtain ⟨t, ok, -⟩ := settleEarly_alone.1 last
      exact absurd ok (Fragment.minus_classify numeric minus (whole s rfl) starts t)
  | number x flavor =>
      cases last
      cases starts
      exact ⟨x, rfl⟩
  | _ => exact starts.elim

end Piece

/-! ## Links -/

namespace Link

def isOperator : Link → Bool
  | operator _ => true
  | _ => false

def isOperand : Link → Bool
  | operand _ => true
  | _ => false

/-- No two operands stand side by side. -/
def Alternate (links : List Link) : Prop :=
  links.IsChain fun l l' => l.isOperand = false ∨ l'.isOperand = false

theorem Alternate.append {front behind : List Link} {l : Link} (first : Alternate front)
    (other : l.isOperand = false) (rest : Alternate behind) : Alternate (front ++ l :: behind) := by
  refine List.isChain_append.2 ⟨first, List.isChain_cons.2 ⟨fun _ _ => .inl other, rest⟩, ?_⟩
  intro _ _ l' mem
  cases mem
  exact .inr other

theorem alternate_operand? (text : List Char) : Alternate (operand? text) := by
  unfold operand?
  split
  · exact List.isChain_nil
  · exact List.isChain_singleton _

theorem alternate_scan (read ls : List Lexeme) : Alternate (scan read ls) := by
  induction ls generalizing read with
  | nil =>
      rw [scan_nil]
      exact alternate_operand? _
  | cons l ls ih =>
      cases cut : Cut.operator? l with
      | none =>
          rw [scan_other _ _ cut]
          exact ih _
      | some op =>
          rw [scan_operator _ _ cut]
          exact (alternate_operand? _).append rfl (ih [])

/-- A minus sign directly in front of an operand, or another operator. -/
theorem detached_or (op : Operator) (links : List Link) : (op = .subtract → Detached links) ∨
    ∃ text rest, op = .subtract ∧ links = .operand text :: rest := by
  cases links with
  | nil => exact .inl fun _ => detached_nil
  | cons l rest =>
      cases l with
      | operator op' => exact .inl fun _ => detached_operator op' rest
      | term t => exact .inl fun _ => detached_term t rest
      | operand text =>
          cases op with
          | subtract => exact .inr ⟨text, rest, rfl, rfl⟩
          | _ => exact .inl nofun

/-- Behind an operand, an operator is one. -/
theorem terms_false_operator (op : Operator) (links : List Link) :
    ∃ ts, terms false (.operator op :: links) = .operator op :: ts := by
  rcases detached_or op links with detached | ⟨text, rest, rfl, rfl⟩
  · exact ⟨_, terms_operator false op detached⟩
  · exact ⟨_, by rw [terms, Bool.false_and, if_neg Bool.false_ne_true]⟩

theorem isOperator_of_terms {links : List Link} (without : ∀ op, .operator op ∉ terms false links) :
    ∀ l ∈ links, l.isOperator = false := by
  induction links with
  | nil => exact List.forall_mem_nil _
  | cons l links ih =>
      cases l with
      | operator op =>
          obtain ⟨ts, terms⟩ := terms_false_operator op links
          rw [terms] at without
          exact absurd List.mem_cons_self (without op)
      | operand text | term t =>
          rw [terms] at without
          exact List.forall_mem_cons.2
            ⟨rfl, ih fun op mem => without op (List.mem_cons_of_mem _ mem)⟩

variable {E : List Term → Prop} {links : List Link}

/-- What stands behind an operand is no fragment. -/
theorem head_terms {text : List Char} (sound : ∀ l ∈ links, l.Sound E)
    (alternate : Alternate (.operand text :: links)) :
    ∀ u ∈ (terms false links).head?, u.isFragment = false := by
  intro u mem
  cases links with
  | nil => cases mem
  | cons l links =>
      cases l with
      | operator op =>
          obtain ⟨ts, terms⟩ := terms_false_operator op links
          rw [terms] at mem
          cases mem
          rfl
      | operand text' => cases (List.isChain_cons_cons.1 alternate).1 <;> contradiction
      | term t =>
          rw [terms] at mem
          cases mem
          exact Strand.isFragment_of_isNested (sound (.term u) List.mem_cons_self).nested

section Settled

variable {t : Term} (operand : t.isOperator = false)
include operand

/-- An operator stays, and then it is what the formula is read as. -/
theorem operator_not_mem {ts : List Term} (settles : Piece.settle? ts = some [t]) (op : Operator) :
    .operator op ∉ ts := by
  intro mem
  rw [← List.mem_singleton.1 (Piece.mem_of_isInert rfl settles mem)] at operand
  cases operand

/-- **A formula of one operand that does not start with a minus sign has no operators.** -/
theorem isOperator_eq_false (starts : links.head? ≠ some (.operator .subtract))
    (settles : Piece.settle? (terms true links) = some [t]) :
    ∀ l ∈ links, l.isOperator = false := by
  have without := operator_not_mem operand settles
  cases links with
  | nil => exact List.forall_mem_nil _
  | cons l links =>
      cases l with
      | operator op =>
          have other : op ≠ .subtract := fun minus => starts (by rw [minus]; rfl)
          have detached := (detached_or op links).resolve_right fun ⟨_, _, minus, _⟩ => other minus
          rw [terms_operator true op detached] at without
          exact absurd List.mem_cons_self (without op)
      | operand text | term u =>
          rw [terms] at without
          exact List.forall_mem_cons.2 ⟨rfl, isOperator_of_terms fun op mem =>
            without op (List.mem_cons_of_mem _ mem)⟩

/-- **A formula of one operand that starts with a minus sign is a number without flavor.** -/
theorem number_of_minus (sound : ∀ l ∈ Link.operator .subtract :: links, l.Sound E)
    (alternate : Alternate (.operator .subtract :: links))
    (settles : Piece.settle? (terms true (.operator .subtract :: links)) = some [t]) :
    ∃ x, t = .number x none := by
  have without := operator_not_mem operand settles
  rcases detached_or .subtract links with detached | ⟨text, rest, -, rfl⟩
  · rw [terms_operator true .subtract detached] at without
    exact absurd List.mem_cons_self (without _)
  · have trimmed : ∀ u ∈ terms true _, Term.Trimmed u := trimmed_terms sound
    rw [terms] at settles without trimmed
    split at settles
    · rename_i numeric
      rw [if_pos numeric] at trimmed
      exact Piece.number_of_settle? numeric trimmed
        (head_terms (fun l mem => sound l (by simp [mem])) (List.isChain_cons.1 alternate).2)
        settles
    · rename_i stays
      rw [if_neg stays] at without
      exact absurd List.mem_cons_self (without _)

end Settled

theorem text_of_operator? {l : Lexeme} {op : Operator} (cut : Cut.operator? l = some op) :
    l.text = [op.symbol] := by
  cases l with
  | char c =>
      change Operator.ofSymbol? c = some op at cut
      unfold Operator.ofSymbol? at cut
      split at cut <;> cases cut <;> rfl
  | _ => cases cut

/-- A text that is cut to an operator first has nothing visible in front of it. -/
theorem exists_of_scan {read ls : List Lexeme} {op : Operator} {links : List Link}
    (starts : scan read ls = .operator op :: links) : ∃ gap rest, Text.allBlank gap = true ∧
      Lexeme.textAll (read.reverse ++ ls) = gap ++ op.symbol :: rest := by
  induction ls generalizing read with
  | nil =>
      rw [scan_nil, operand?] at starts
      split at starts <;> cases starts
  | cons l ls ih =>
      cases cut : Cut.operator? l with
      | none =>
          rw [scan_other _ _ cut] at starts
          obtain ⟨gap, rest, blank, whole⟩ := ih starts
          exact ⟨gap, rest, blank, by simpa using whole⟩
      | some op' =>
          rw [scan_operator _ _ cut, operand?] at starts
          split at starts
          · rename_i blank
            cases starts
            refine ⟨_, Lexeme.textAll ls, blank, ?_⟩
            rw [Lexeme.textAll_append, Lexeme.textAll_cons, text_of_operator? cut]
            rfl
          · cases starts

end Link

/-- No two operands stand side by side in a strand. -/
theorem Strand.alternate_links (s : Strand) : Link.Alternate s.links := by
  induction s with
  | plain text => exact Link.alternate_scan _ _
  | term before t rest ih => exact (Link.alternate_scan _ _).append rfl ih

/-- The links of a strand start as those of the text in front of its first term. -/
theorem Strand.exists_of_links {s : Strand} {op : Operator} {links : List Link}
    (starts : s.links = .operator op :: links) :
    ∃ others, Link.ofText s.first = .operator op :: others := by
  cases s with
  | plain text => exact ⟨links, starts⟩
  | term before t rest =>
      have starts : Link.ofText before ++ .term t :: rest.links = .operator op :: links := starts
      cases text : Link.ofText before with
      | nil => rw [text] at starts; cases starts
      | cons l others =>
          rw [text] at starts
          exact ⟨others, by rw [first, text, (List.cons.inj starts).1]⟩

namespace Formula

theorem alternate_links? {read : SubReader} {text : List Char} {links : List Link}
    (found : links? read text = some links) : Link.Alternate links := by
  obtain ⟨s, -, found⟩ := Option.bind_eq_some_iff.1 found
  obtain ⟨s', -, rfl⟩ := Option.map_eq_some_iff.1 found
  exact s'.alternate_links

/-- A formula starts with an operator if its links do. -/
theorem head?_of_links? {read : SubReader} {text : List Char} (trimmed : Text.Trimmed text)
    {op : Operator} {links : List Link} (found : links? read text = some (.operator op :: links)) :
    text.head? = some op.symbol := by
  obtain ⟨s, round, found⟩ := Option.bind_eq_some_iff.1 found
  obtain ⟨s', curly, starts⟩ := Option.map_eq_some_iff.1 found
  obtain ⟨others, first⟩ := Strand.exists_of_links starts
  obtain ⟨gap, rest, blank, split⟩ := Link.exists_of_scan first
  rw [List.reverse_nil, List.nil_append, Lexeme.textAll_scan] at split
  obtain ⟨behind, rfl⟩ := Strand.first_read? round
  obtain ⟨behind', front⟩ := Strand.first_expand curly
  rw [front, split] at trimmed ⊢
  cases gap with
  | nil => rfl
  | cons c gap =>
      have visible : Text.isBlank c = false := trimmed.first c rfl
      rw [Text.allBlank, List.all_cons, visible] at blank
      cases blank

/-- What is read is settled from the links of the formula. -/
theorem exists_links_of_reads? {depth : Nat} {text : List Char} {ts : List Term}
    (reads : reads? (depth + 1) text = some ts) :
    ∃ links, links? (reader depth) text = some links ∧ (∀ l ∈ links, l.Sound fun _ => True) ∧
      Piece.settle? (Link.terms true links) = some ts := by
  rw [reads?_succ] at reads
  obtain ⟨links, found, settles⟩ := Option.bind_eq_some_iff.1 reads
  exact ⟨links, found, sound_links? (fun _ _ _ _ => trivial) found, settles⟩

theorem exists_links {f : String} {ts : List Term} (accepted : read f = .ok ts) :
    ∃ links, links? (reader f.toList.length) f.toList = some links ∧
      (∀ l ∈ links, l.Sound fun _ => True) ∧ Piece.settle? (Link.terms true links) = some ts :=
  exists_links_of_reads? (congrArg Except.toOption accepted)

section Read

variable {f : String} {t : Term} (accepted : read f = .ok [t])
include accepted

/-- What is read as one term is no fragment. -/
theorem settled_of_read : t.isFragment = false := by
  obtain ⟨links, -, sound, settles⟩ := exists_links accepted
  exact Piece.settled_of_settle? (Link.trimmed_terms sound) settles

/-- **A formula of one operand that starts with a minus sign is a number without flavor.** -/
theorem number_of_read (operand : t.isOperator = false) (minus : f.toList.head? = some '-') :
    ∃ x, t = .number x none := by
  obtain ⟨rest, text⟩ := List.head?_eq_some_iff.1 minus
  obtain ⟨links, found, sound, settles⟩ := exists_links accepted
  have alternate := alternate_links? found
  rw [text, links?_sign] at found
  obtain ⟨others, -, rfl⟩ := Option.map_eq_some_iff.1 found
  exact Link.number_of_minus operand sound alternate settles

end Read

end Formula

end DiceFormula
