/-
# DiceFormula.Proofs.Formula.Shown -- what written terms are read as

A term that is written alone comes back from the reader as links, and these as a
term: `Shows` relates the three.  A negative number comes back as a minus sign and an
operand, so a sign must not be bound to a number that it does not belong to
(`SignsBound`).  If neighbours are `Joined`, the text of a list of terms has the links
of its terms, one behind the other (`exists_shown`), and if fragments wait for what is
beside them, these links are settled as the terms (`settle?_shows`).
-/
import DiceFormula.Proofs.Formula.Joined

namespace DiceFormula

set_option autoImplicit false

/-- An operator stays one unless it is a sign that takes the number behind it. -/
theorem Link.terms_kept (expecting : Bool) (op : Operator) {links : List Link}
    (kept : op = .subtract → expecting = true → ∀ text rest, links = .operand text :: rest →
      Fragment.isNumeric text = false) :
    terms expecting (.operator op :: links) = .operator op :: terms true links := by
  by_cases subtracts : op = .subtract
  · subst subtracts
    match links with
    | .operand text :: rest =>
        have bound : ¬ (expecting && Fragment.isNumeric text) = true := by
          intro both
          obtain ⟨sign, numeric⟩ := Bool.and_eq_true_iff.1 both
          rw [kept rfl sign text rest rfl] at numeric
          cases numeric
        rw [terms, if_neg bound, terms]
    | [] | .operator _ :: _ | .term _ :: _ =>
        exact terms_operator expecting .subtract fun _ text rest starts => by cases starts
  · exact terms_operator expecting op fun same => absurd same subtracts

namespace Term

open Strand (isNested)

/-! ## Links -/

/-- The links that a term is written with, and the term that they are read as. -/
inductive Shows : Term → List Link → Term → Prop
  | operator (op : Operator) : Shows (.operator op) [.operator op] (.operator op)
  | negative {x : Float} (n : Numeral) (negative : x < 0) :
      Shows (.number x none) [.operator .subtract, .operand n.text] (.number (-n.value) none)
  | number {x : Float} {flavor : Option String} (n : Numeral) (nonneg : ¬ x < 0)
      (opens : ∀ f, flavor = some f → '[' ∉ f.toList) :
      Shows (.number x flavor) [.operand (n.text ++ flavorChars flavor)] (.number n.value flavor)
  | dice {d : Dice} {flavor : Option String} (writable : d.Writable)
      (opens : ∀ f, flavor = some f → '[' ∉ f.toList) :
      Shows (.ofDice d flavor) [.operand (d.text.toList ++ flavorChars flavor)] (.ofDice d flavor)
  | nested {t t' : Term} (written : isNested t = true) (read : t'.isGroup = true) :
      Shows t [.term t'] t'
  | fragment {text : String} (number : Fragment.number? (Fragment.splitFlavor text.toList).1 = none)
      (numeric : Fragment.isNumeric text.toList = false) :
      Shows (.fragment text) [.operand text.toList] (.fragment text)

/-- The links that terms are written with, and the terms that they are read as. -/
inductive ShowsAll : List Term → List Link → List Term → Prop
  | nil : ShowsAll [] [] []
  | cons {t t' : Term} {ls ls' : List Link} {ts ts' : List Term} (first : Shows t ls t')
      (others : ShowsAll ts ls' ts') : ShowsAll (t :: ts) (ls ++ ls') (t' :: ts')

/-- Behind a minus sign where an operand is expected, a number without flavor is
negative; otherwise the sign would be taken for its own. -/
def SignsBound (expecting : Bool) : List Term → Prop
  | [] => True
  | .operator op :: rest =>
      (op = .subtract → expecting = true → ∀ x, rest.head? = some (.number x none) → x < 0) ∧
        SignsBound true rest
  | _ :: rest => SignsBound false rest

theorem signsBound_operand {t : Term} (operand : t.isOperator = false) {expecting : Bool}
    {ts : List Term} (signs : SignsBound expecting (t :: ts)) : SignsBound false ts := by
  cases t <;> first | exact signs | cases operand

/-- Only numbers that are not negative and have no flavor start with a numeric operand. -/
theorem ShowsAll.numeric_head {ts ts' : List Term} {ls : List Link} (shown : ShowsAll ts ls ts')
    {text : List Char} {rest : List Link} (starts : ls = .operand text :: rest)
    (numeric : Fragment.isNumeric text = true) :
    ∃ x, ts.head? = some (.number x none) ∧ ¬ x < 0 := by
  cases shown with
  | nil => cases starts
  | cons first others =>
      cases first with
      | operator op => cases starts
      | negative n negative => cases starts
      | @number x flavor n nonneg opens =>
          cases flavor with
          | none => exact ⟨x, rfl, nonneg⟩
          | some f =>
              obtain ⟨same, -⟩ := List.cons.inj starts
              cases same
              rw [flavorChars_some, Fragment.isNumeric_flavored] at numeric
              cases numeric
      | dice writable opens =>
          obtain ⟨same, -⟩ := List.cons.inj starts
          cases same
          rw [Fragment.isNumeric_dice] at numeric
          cases numeric
      | nested written read => cases starts
      | fragment number other =>
          obtain ⟨same, -⟩ := List.cons.inj starts
          cases same
          rw [other] at numeric
          cases numeric

/-! ## Classification -/

/-- Whether a term is there that is no operator. -/
def isOperand (neighbour : Option Term) : Bool := neighbour.any fun t => !t.isOperator

theorem isOperand_of_pending {neighbour : Option Term}
    (pending : neighbour.any isIntermediate = true) : isOperand neighbour = true := by
  cases neighbour with
  | none => cases pending
  | some t => cases t <;> first | rfl | cases pending

/-- In front of a term that follows no operand is an operator, if anything. -/
theorem isOperand_front {prior : Option Term} {t : Term} (operand : t.isOperator = false)
    (alone : t.follows = false) (front : ∀ p ∈ prior, Joined p t) : isOperand prior = false := by
  cases prior with
  | none => rfl
  | some p =>
      rcases front p rfl with operator | operator | meets
      · simp [isOperand, operator]
      · simp [operand] at operator
      · exact absurd meets.follows (by simp [alone])

/-- Behind a term that leads no operand is an operator, if anything. -/
theorem isOperand_behind {next : Option Term} {t : Term} (operand : t.isOperator = false)
    (alone : t.leads = false) (behind : ∀ u ∈ next, Joined t u) : isOperand next = false := by
  cases next with
  | none => rfl
  | some u =>
      rcases behind u rfl with operator | operator | meets
      · simp [operand] at operator
      · simp [isOperand, operator]
      · exact absurd meets.leads (by simp [alone])

/-- Text beside a term that is still to be evaluated stays if it is no number. -/
theorem classifyEarly_waiting {text : String}
    (number : Fragment.number? (Fragment.splitFlavor text.toList).1 = none) {prior next : Option Term}
    (pending : Fragment.isPending prior next = true) :
    Fragment.classifyEarly text prior next = .fragment text := by
  unfold Fragment.classifyEarly
  dsimp only
  rw [number]
  dsimp only
  cases Dice.read? (Fragment.splitFlavor text.toList).1 with
  | none => rfl
  | some d =>
      dsimp only
      rw [pending, Bool.or_true, if_pos rfl]

theorem classifiedFrom_fragment {prior : Option Term} {text : String} {t : Term} {us ts : List Term}
    (early : Fragment.classifyEarly text prior us.head? = t)
    (others : classifiedFrom (some (.fragment text)) us = ts) :
    classifiedFrom prior (.fragment text :: us) = t :: ts := by
  rw [classifiedFrom, others, classified, early]

/-- Written terms are classified as they are read, if they are read behind an operand where they
were written behind one. -/
theorem classified_shows {expecting : Bool} {prior prior' : Option Term} {ts ts' : List Term}
    {ls : List Link} (shown : ShowsAll ts ls ts') (joined : ts.IsChain Joined)
    (signs : SignsBound expecting ts) (waiting : FragmentsFrom Fragment.Waits prior' ts)
    (beside : prior.any isIntermediate = isOperand prior') (expects : expecting = !isOperand prior')
    (front : ∀ p ∈ prior', ∀ t ∈ ts.head?, Joined p t) :
    classifiedFrom prior (Link.terms expecting ls) = ts' ∧
      (Link.terms expecting ls).head?.any isIntermediate = isOperand ts.head? := by
  induction shown generalizing expecting prior prior' with
  | nil => exact ⟨rfl, rfl⟩
  | @cons t t' ls ls' ts ts' first others ih =>
      obtain ⟨next, further⟩ := List.isChain_cons.1 joined
      obtain ⟨waits, waitsBehind⟩ := waiting
      have chained : ∀ p ∈ some t, ∀ u ∈ ts.head?, Joined p u := by
        intro p same
        obtain rfl : t = p := Option.some.inj same
        exact next
      -- what is known of the text behind an operand that is read as `u`
      have behind (operand : t.isOperator = false) {u : Term} (pending : u.isIntermediate = true) :=
        @ih false (some u) (some t) further (signsBound_operand operand signs) waitsBehind
          (by simp [isOperand, operand, pending]) (by simp [isOperand, operand]) chained
      cases first with
      | operator op =>
          obtain ⟨bound, signs⟩ := signs
          obtain ⟨classified, -⟩ := @ih true (some (.operator op)) _ further signs waitsBehind rfl rfl
            chained
          rw [List.singleton_append, Link.terms_kept expecting op]
          · exact ⟨congrArg (Term.operator op :: ·) classified, rfl⟩
          · intro subtracts sign text rest starts
            by_contra numeric
            obtain ⟨x, head, nonneg⟩ := others.numeric_head starts (Bool.not_eq_false _ ▸ numeric)
            exact nonneg (bound subtracts sign x head)
      | @negative x n negative =>
          have alone := isOperand_front rfl (by simp [follows, negative]) fun p mem => front p mem _ rfl
          rw [expects, alone, List.cons_append, List.singleton_append, Link.terms,
            Fragment.isNumeric_numeral, if_pos (by decide)]
          exact ⟨classifiedFrom_fragment (Fragment.classifyEarly_negative n _ _) (behind rfl rfl).1, rfl⟩
      | number n nonneg opens =>
          rw [List.singleton_append, Link.terms]
          exact ⟨classifiedFrom_fragment (Fragment.classifyEarly_numeral n opens _ _)
            (behind rfl rfl).1, rfl⟩
      | @dice d flavor writable opens =>
          obtain ⟨classified, pending⟩ := behind rfl
            (u := .fragment (String.ofList (d.text.toList ++ flavorChars flavor))) rfl
          have settled : Fragment.isPending prior (Link.terms false ls').head? = false := by
            rw [Fragment.isPending, beside, pending,
              isOperand_front rfl rfl fun p mem => front p mem _ rfl, isOperand_behind rfl rfl next]
            rfl
          rw [List.singleton_append, Link.terms]
          exact ⟨classifiedFrom_fragment (Fragment.classifyEarly_dice writable opens settled) classified,
            rfl⟩
      | nested written read =>
          have operand := Strand.isOperator_of_isNested written
          obtain ⟨pending, settled⟩ := pending_of_isGroup read
          obtain ⟨classified, -⟩ := behind operand pending
          rw [List.singleton_append, Link.terms, classifiedFrom, classified, List.head?_cons,
            List.head?_cons, Option.any_some, isOperand, Option.any_some, pending, operand]
          refine ⟨?_, rfl⟩
          cases t' <;> first | rfl | cases settled
      | @fragment text number numeric =>
          obtain ⟨classified, pending⟩ := behind rfl (u := .fragment text) rfl
          have unsettled : Fragment.isPending prior (Link.terms false ls').head? = true := by
            rw [Fragment.isPending, beside, pending]
            rcases Bool.or_eq_true_iff.1 (waits _ rfl).1 with front | behind
            · rw [isOperand_of_pending front, Bool.true_or]
            · rw [isOperand_of_pending behind, Bool.or_true]
          rw [List.singleton_append, Link.terms, String.ofList_toList]
          exact ⟨classifiedFrom_fragment (classifyEarly_waiting number unsettled) classified, rfl⟩

/-- **The links of written terms are settled as the terms they are read as.** -/
theorem settle?_shows {ts ts' : List Term} {ls : List Link} (shown : ShowsAll ts ls ts')
    (joined : ts.IsChain Joined) (signs : SignsBound true ts)
    (waiting : FragmentsFrom Fragment.Waits none ts) (same : beqAll ts' ts = true) :
    Piece.settle? (Link.terms true ls) = some ts' :=
  settle?_of_classified
    (classified_shows shown joined signs waiting rfl rfl fun _ none => by cases none).1
    (isChain_separate_of_joined joined same) (waits_of_beqAll rfl same waiting)

/-! ## Text -/

variable (read : SubReader)

/-- The text of a term is a tree of brackets with the links of the term, which are read
as an equal term.  It is read so with another term directly behind it, if the two can be
written side by side. -/
structure Shown (t : Term) (m : Matched) (ls : List Link) (t' : Term) : Prop where
  text : m.text = t.text.toList
  guarded : m.Guarded
  visible : Text.allBlank m.text = false
  links : Formula.links? read m.text = some ls
  joins : ∀ (u : Term) (s : List Char), Meets t u → u.text.toList ≠ [] →
    Formula.links? read (m.text ++ (u.text.toList ++ s)) =
      (Formula.links? read (u.text.toList ++ s)).map (ls ++ ·)
  shows : Shows t ls t'
  same : beq t' t = true

theorem textFrom_operand (afterOperand : Bool) {t : Term} (operand : t.isOperator = false)
    (ts : List Term) : textFrom afterOperand (t :: ts) = t.text ++ textFrom true ts := by
  cases t <;> first | rfl | cases operand

theorem beq_operator (op : Operator) : beq (.operator op) (.operator op) = true := by
  simp [beq]

/-- A blank, as a tree. -/
def blank : Matched := .ofBlank [' '] rfl

theorem text_blank : blank.text = [' '] := rfl

theorem allBlank_blank : Text.allBlank [' '] = true := rfl

/-- An operator, as a tree. -/
def symbol (op : Operator) : Matched :=
  .char op.symbol (by cases op <;> rfl) .nil

/-- An operator between operands stands apart from them. -/
theorem toList_textFrom_operator (op : Operator) (ts : List Term) :
    (textFrom true (.operator op :: ts)).toList =
      ' ' :: op.symbol :: ' ' :: (textFrom false ts).toList := by
  have text : op.text.toList = [op.symbol] := by cases op <;> rfl
  rw [textFrom, operatorText, if_pos rfl, String.toList_append, String.toList_append,
    String.toList_append, text]
  rfl

theorem toList_textFrom_sign (op : Operator) (ts : List Term) :
    (textFrom false (.operator op :: ts)).toList = op.symbol :: (textFrom false ts).toList := by
  have text : op.text.toList = [op.symbol] := by cases op <;> rfl
  rw [textFrom, operatorText, if_neg (by simp), String.toList_append, text]
  rfl

/-- An operator at the start is a link of its own. -/
theorem links?_operator_first (afterOperand : Bool) (op : Operator) (ts : List Term) :
    Formula.links? read (textFrom afterOperand (.operator op :: ts)).toList =
      (Formula.links? read (textFrom false ts).toList).map (.operator op :: ·) := by
  have alone (gap : Matched) (s : List Char) (nothing : Formula.links? read gap.text = some []) :
      Formula.links? read (gap.text ++ op.symbol :: s) =
        (Formula.links? read s).map (.operator op :: ·) := by
    rw [Formula.links?_operator, nothing, Option.bind_some]
    rfl
  cases afterOperand with
  | false =>
      rw [toList_textFrom_sign]
      exact alone .nil _ (Formula.links?_nothing read)
  | true =>
      have spaced := Formula.links?_blank_append read allBlank_blank
      have nothing : Formula.links? read blank.text = some [] :=
        (spaced []).trans (Formula.links?_nothing read)
      rw [toList_textFrom_operator, ← spaced (textFrom false ts).toList]
      exact alone blank _ nothing

variable {read} in
/-- The links of a term come first, and then those of the terms behind it. -/
theorem Shown.links_append {t t' : Term} {m : Matched} {ls : List Link}
    (shown : Shown read t m ls t') (operand : t.isOperator = false) {ts : List Term}
    (joined : ∀ u ∈ ts.head?, Joined t u)
    (visible : ∀ u ∈ ts.head?, u.isOperator = false → u.text.toList ≠ []) :
    Formula.links? read (m.text ++ (textFrom true ts).toList) =
      (Formula.links? read (textFrom true ts).toList).map (ls ++ ·) := by
  cases ts with
  | nil =>
      show Formula.links? read (m.text ++ []) = (Formula.links? read []).map (ls ++ ·)
      rw [Formula.links?_nothing, List.append_nil, shown.links, Option.map_some, List.append_nil]
  | cons u ts =>
      rcases joined u rfl with operator | operator | meets
      · rw [operand] at operator
        cases operator
      · cases u with
        | operator op =>
            have gap (s : List Char) : m.text ++ ' ' :: s = (m.append blank).text ++ s := by
              rw [Matched.text_append, text_blank, List.append_assoc]
              rfl
            have spaced : Formula.links? read (m.append blank).text = some ls := by
              rw [Matched.text_append, text_blank, Formula.links?_append_blank read m allBlank_blank,
                shown.links]
            have spaced' := Formula.links?_blank_append read allBlank_blank (textFrom false ts).toList
            rw [List.singleton_append] at spaced'
            rw [links?_operator_first, toList_textFrom_operator, gap, Formula.links?_operator, spaced,
              Option.bind_some, spaced', Option.map_map]
            rfl
        | _ => cases operator
      · have operand' : u.isOperator = false := by
          cases u with
          | operator op => cases meets.follows
          | _ => rfl
        rw [textFrom_operand true operand', String.toList_append]
        exact shown.joins u _ meets (visible u rfl operand')

/-- The text of terms is a tree of brackets with the links of the terms, which are read
as equal terms. -/
structure ShownAll (afterOperand : Bool) (ts : List Term) (m : Matched) (ls : List Link)
    (ts' : List Term) : Prop where
  text : m.text = (textFrom afterOperand ts).toList
  guarded : m.Guarded
  visible : ts ≠ [] → Text.allBlank m.text = false
  links : Formula.links? read m.text = some ls
  shows : ShowsAll ts ls ts'
  same : beqAll ts' ts = true

variable {read}

theorem Shown.cons_operand {t t' : Term} {m m' : Matched} {ls ls' : List Link} {ts ts' : List Term}
    (first : Shown read t m ls t') (afterOperand : Bool) (operand : t.isOperator = false)
    (others : ShownAll read true ts m' ls' ts')
    (joined : ∀ u ∈ ts.head?, Joined t u)
    (visible : ∀ u ∈ ts.head?, u.isOperator = false → u.text.toList ≠ []) :
    ShownAll read afterOperand (t :: ts) (m.append m') (ls ++ ls') (t' :: ts') where
  text := by
    rw [Matched.text_append, first.text, others.text, textFrom_operand _ operand,
      String.toList_append]
  guarded := Matched.guarded_append first.guarded others.guarded
  visible _ := by rw [Matched.text_append, Text.allBlank_append, first.visible, Bool.false_and]
  links := by
    rw [Matched.text_append, others.text, first.links_append operand joined visible, ← others.text,
      others.links]
    rfl
  shows := .cons first.shows others.shows
  same := by
    rw [beqAll, first.same, others.same]
    rfl

theorem ShownAll.cons_operator (afterOperand : Bool) (op : Operator) {m : Matched}
    {ls : List Link} {ts ts' : List Term} (others : ShownAll read false ts m ls ts') :
    ∃ m', ShownAll read afterOperand (.operator op :: ts) m' (.operator op :: ls)
      (.operator op :: ts') := by
  have links := links?_operator_first read afterOperand op ts
  rw [← others.text, others.links] at links
  have visible : Text.isBlank op.symbol = false := by cases op <;> rfl
  have comma : op.symbol ≠ ',' := by cases op <;> decide
  have same : beqAll (.operator op :: ts') (.operator op :: ts) = true := by
    rw [beqAll, beq_operator, others.same]
    rfl
  cases afterOperand with
  | false =>
      have text : ((symbol op).append m).text = (textFrom false (.operator op :: ts)).toList := by
        rw [toList_textFrom_sign, ← others.text]
        rfl
      refine ⟨_, text, ⟨comma, others.guarded⟩, fun _ => ?_, text ▸ links,
        .cons (.operator op) others.shows, same⟩
      rw [text, toList_textFrom_sign, Text.allBlank, List.all_cons, visible, Bool.false_and]
  | true =>
      have text : (blank.append ((symbol op).append (blank.append m))).text =
          (textFrom true (.operator op :: ts)).toList := by
        rw [toList_textFrom_operator, ← others.text]
        rfl
      refine ⟨_, text, ⟨by decide, comma, by decide, others.guarded⟩, fun _ => ?_, text ▸ links,
        .cons (.operator op) others.shows, same⟩
      rw [text, toList_textFrom_operator, Text.allBlank, List.all_cons, List.all_cons, visible,
        Bool.false_and, Bool.and_false]

/-- **The text of joined terms has the links of each of them.** -/
theorem exists_shown {ts : List Term} (joined : ts.IsChain Joined)
    (each : ∀ t ∈ ts, t.isOperator = false → ∃ m ls t', Shown read t m ls t')
    (afterOperand : Bool) : ∃ m ls ts', ShownAll read afterOperand ts m ls ts' := by
  induction ts generalizing afterOperand with
  | nil => exact ⟨.nil, [], [], rfl, trivial, absurd rfl, Formula.links?_nothing read, .nil, rfl⟩
  | cons t ts ih =>
      obtain ⟨front, further⟩ := List.isChain_cons.1 joined
      obtain ⟨alone, eachBehind⟩ := List.forall_mem_cons.1 each
      have others := ih further eachBehind
      by_cases operand : t.isOperator = false
      · obtain ⟨m, ls, t', first⟩ := alone operand
        obtain ⟨m', ls', ts', behind⟩ := others true
        refine ⟨_, _, _, first.cons_operand afterOperand operand behind front ?_⟩
        intro u head operand' nothing
        obtain ⟨m, ls, t', second⟩ := eachBehind u (List.mem_of_mem_head? head) operand'
        have visible := second.visible
        rw [second.text, nothing] at visible
        cases visible
      · obtain ⟨op, rfl⟩ : ∃ op, t = .operator op := by
          cases t <;> first | exact ⟨_, rfl⟩ | exact absurd rfl operand
        obtain ⟨m, ls, ts', behind⟩ := others false
        obtain ⟨m', whole⟩ := behind.cons_operator afterOperand op
        exact ⟨m', _, _, whole⟩

end Term

end DiceFormula
