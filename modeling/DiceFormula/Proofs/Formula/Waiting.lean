/-
# DiceFormula.Proofs.Formula.Waiting -- fragments that wait for groups

A fragment beside a group waits until the group has a value.  When the formula is read it is
tried with ones in the place of the groups (`Fragment.checkPending`), so that every fragment
among terms that were read is `Vetted` (`vetted_settle?`).

What the trial is worth depends on the text that the fragment is later merged to.  The two
agree if the terms stand `Alone`: between the operators there are at most a group, a fragment and
another group; flavor stands behind all that it is merged with; and the flavor of a group has no
opening bracket.  Then every fragment can be classified once the groups beside it came to one
(`classifies_merge`).
-/
import DiceFormula.Proofs.Dice.Alphabet
import DiceFormula.Proofs.Formula.Everywhere
import DiceFormula.Proofs.Formula.Fragments
import DiceFormula.Proofs.Formula.Settled

namespace DiceFormula

set_option autoImplicit false

/-! ## Classification -/

namespace Fragment

/-- A text without flavor that is a number or dice. -/
def Readable (body : List Char) : Prop :=
  (number? body).isSome = true ∨ (Dice.read? body).isSome = true

section Alphabet

variable {c : Char}

theorem not_mem_of_unsignedValue? {s : List Char} {x : Float} (value : unsignedValue? s = some x)
    (other : c.isDigit = false ∧ c ≠ '.') : c ∉ s := by
  obtain ⟨whole, digits, -⟩ := Text.span_spec Char.isDigit s
  have noDigit {run : List Char} (all : ∀ d ∈ run, d.isDigit = true) : c ∉ run := by
    intro mem
    have digit := all c mem
    rw [other.1] at digit
    cases digit
  unfold unsignedValue? at value
  split at value
  · cases value
  · rename_i run _ cut
    rw [cut] at whole digits
    rw [whole, List.append_nil]
    exact noDigit digits
  · rename_i run fraction _ cut
    rw [cut] at whole digits
    split at value
    · rename_i numeric
      rw [Bool.and_eq_true] at numeric
      rw [whole, List.mem_append, List.mem_cons, not_or, not_or]
      exact ⟨noDigit digits, other.2, noDigit (List.all_eq_true.1 numeric.2)⟩
    · cases value
  · cases value

/-- Numbers and dice have no characters but their own. -/
theorem not_mem_of_readable {body : List Char} (readable : Readable body)
    (number : c.isDigit = false ∧ c ≠ '.' ∧ c ≠ '-')
    (dice : (Dice.Reader.isWritten (Text.lower c) || Text.isBlank (Text.lower c)) = false) :
    c ∉ body := by
  rcases readable with value | read
  · obtain ⟨x, value⟩ := Option.isSome_iff_exists.1 value
    unfold number? at value
    split at value
    · obtain ⟨y, unsigned, -⟩ := Option.map_eq_some_iff.1 value
      rw [List.mem_cons, not_or]
      exact ⟨number.2.2, not_mem_of_unsignedValue? unsigned ⟨number.1, number.2.1⟩⟩
    · exact not_mem_of_unsignedValue? value ⟨number.1, number.2.1⟩
  · obtain ⟨d, read⟩ := Option.isSome_iff_exists.1 read
    exact Dice.not_mem_of_read? read dice

end Alphabet

/-- Flavor makes no difference to whether a fragment is something. -/
theorem classify_iff (text : List Char) :
    (∃ t, classify (String.ofList text) = .ok t) ↔ Readable (splitFlavor text).1 := by
  unfold classify Readable
  rw [String.toList_ofList]
  dsimp only
  cases number? (splitFlavor text).1 with
  | some x => simp
  | none =>
      cases Dice.read? (splitFlavor text).1 with
      | some d => simp
      | none =>
          dsimp only
          split <;> simp

theorem splitFlavor_plain {text : List Char} (trimmed : Text.Trimmed text)
    (plain : text.getLast? ≠ some ']') : splitFlavor text = (text, none) := by
  unfold splitFlavor
  dsimp only
  rw [trimmed.trim_eq, if_neg plain]

/-- Flavor is cut off where it opens last. -/
theorem splitFlavor_behind {front : List Char} (first : Text.Trimmed front) (s : List Char)
    {flavor : List Char} (opens : '[' ∉ flavor) :
    splitFlavor (front ++ s ++ '[' :: flavor ++ [']']) = (front ++ Text.trimEnd s, some flavor) := by
  have closing : Text.Trimmed [']'] := Text.trimmed_singleton rfl
  have whole : Text.Trimmed (front ++ s ++ '[' :: flavor ++ [']']) := by
    rw [List.append_assoc front]
    exact first.join _ closing
  have last : (front ++ s ++ '[' :: flavor ++ [']']).getLast? = some ']' := List.getLast?_concat
  have closed : '[' ∉ flavor ++ [']'] := by simp [opens]
  unfold splitFlavor
  dsimp only
  rw [whole.trim_eq, if_pos last, List.append_assoc (front ++ s), List.cons_append,
    cutAtLastOpening_append (front ++ s) closed]
  simp [Text.trimEnd_join first]

/-! ## The trial -/

/-- The flavor behind a text that ends with none. -/
theorem mergedFlavor_plain {text : List Char} (trimmed : Text.Trimmed text)
    (plain : text.getLast? ≠ some ']') (flavor : Option String) :
    Term.mergedFlavor flavor (String.ofList text) = Term.flavorText flavor := by
  have other : Term.endsWithFlavor (String.ofList text) = false := by
    rw [Term.endsWithFlavor, String.toList_ofList, trimmed.trimEnd_eq]
    exact decide_eq_false plain
  rw [Term.mergedFlavor, other]
  rfl

/-- The flavor of a value makes no difference to the fragment that it is merged with, if it has
no opening bracket. -/
theorem readable_flavored {text : List Char} (trimmed : Text.Trimmed text) {flavor : Option String}
    (opens : ∀ f, flavor = some f → '[' ∉ f.toList) (readable : Readable (splitFlavor text).1) :
    Readable (splitFlavor (text ++ (Term.mergedFlavor flavor (String.ofList text)).toList)).1 := by
  by_cases plain : text.getLast? = some ']'
  · have ends : Term.endsWithFlavor (String.ofList text) = true := by
      rw [Term.endsWithFlavor, String.toList_ofList, trimmed.trimEnd_eq]
      exact decide_eq_true plain
    rwa [Term.mergedFlavor, ends, if_pos rfl, String.toList_empty, List.append_nil]
  · rw [mergedFlavor_plain trimmed plain]
    cases flavor with
    | none => rwa [Term.flavorText, String.toList_empty, List.append_nil]
    | some f =>
        have split := splitFlavor_behind trimmed [] (opens f rfl)
        have chars : (Term.flavorText (some f)).toList = '[' :: f.toList ++ [']'] := by
          rw [Term.flavorText, String.toList_append, String.toList_append]
          rfl
        rw [List.append_nil, List.append_assoc] at split
        rw [chars, split]
        rw [splitFlavor_plain trimmed plain] at readable
        simpa [Text.trimEnd] using readable

/-- A fragment that was tried is something with ones in the place of its neighbours. -/
theorem readable_trial {text : String} {prior next : Option Term}
    (trimmed : Text.Trimmed text.toList) (checked : checkPending text prior next = .ok ()) :
    Readable (splitFlavor (placeholder prior ++ (splitFlavor text.toList).1 ++ placeholder next ++
      ((splitFlavor text.toList).2.map fun f => '[' :: f ++ [']']).getD [])).1 := by
  refine (classify_iff _).1 ?_
  unfold checkPending at checked
  rw [trimmed.trim_eq] at checked
  dsimp only at checked
  cases cut : splitFlavor text.toList with
  | mk body flavor =>
      rw [cut] at checked
      cases flavor with
      | none =>
          dsimp only [Option.map_none, Option.getD_none] at checked ⊢
          cases result : classify (String.ofList
              (placeholder prior ++ body ++ placeholder next ++ [])) with
          | ok t => exact ⟨t, rfl⟩
          | error e =>
              rw [result] at checked
              cases e <;> cases checked
      | some flavor =>
          dsimp only [Option.map_some, Option.getD_some] at checked ⊢
          cases result : classify (String.ofList
              (placeholder prior ++ body ++ placeholder next ++ ('[' :: flavor ++ [']']))) with
          | ok t => exact ⟨t, rfl⟩
          | error e =>
              rw [result] at checked
              cases e <;> cases checked

theorem placeholder_pending {t : Term} (pending : t.isIntermediate = true) :
    placeholder (some t) = ['1'] := by
  rw [placeholder, Option.any_some, pending]
  rfl

theorem placeholder_other {neighbour : Option Term}
    (other : neighbour.any Term.isIntermediate = false) : placeholder neighbour = [] := by
  rw [placeholder, other]
  rfl

theorem trimmed_one : Text.Trimmed ['1'] := Text.trimmed_singleton rfl

theorem cutAtLastOpening_sound {s front behind : List Char}
    (cut : cutAtLastOpening s = some (front, behind)) :
    s = front ++ '[' :: behind ∧ '[' ∉ behind := by
  obtain ⟨whole, all, stops⟩ := Text.span_spec (· != '[') s.reverse
  unfold cutAtLastOpening at cut
  split at cut
  · rename_i run c rest found
    rw [found] at whole all stops
    cases cut
    have opening : c = '[' := by simpa using stops c rfl
    refine ⟨?_, fun mem => ?_⟩
    · have reversed := congrArg List.reverse whole
      rw [List.reverse_reverse] at reversed
      rw [reversed, opening]
      simp
    · simpa using all '[' (List.mem_reverse.1 mem)
  · cases cut

/-- A text has flavor at its end, or none. -/
theorem splitFlavor_cases {text : List Char} (trimmed : Text.Trimmed text) :
    splitFlavor text = (text, none) ∨
      ∃ front flavor, text = front ++ '[' :: flavor ++ [']'] ∧ '[' ∉ flavor ∧
        splitFlavor text = (Text.trimEnd front, some flavor) := by
  by_cases last : text.getLast? = some ']'
  · cases cut : cutAtLastOpening text with
    | none =>
        left
        unfold splitFlavor
        dsimp only
        rw [trimmed.trim_eq, if_pos last, cut]
    | some parts =>
        right
        obtain ⟨front, behind⟩ := parts
        obtain ⟨whole, opens⟩ := cutAtLastOpening_sound cut
        have split : splitFlavor text = (Text.trimEnd front, some behind.dropLast) := by
          unfold splitFlavor
          dsimp only
          rw [trimmed.trim_eq, if_pos last, cut]
        rcases List.eq_nil_or_concat behind with rfl | ⟨flavor, c, rfl⟩
        · rw [whole, List.getLast?_concat] at last
          cases last
        · rw [List.concat_eq_append] at whole opens split
          rw [List.dropLast_concat] at split
          rw [whole, ← List.cons_append, ← List.append_assoc, List.getLast?_concat] at last
          cases last
          exact ⟨front, flavor, by rw [whole]; simp, fun mem => opens (List.mem_append_left _ mem),
            split⟩
  · exact .inl (splitFlavor_plain trimmed last)

/-- A group in front of a fragment may carry flavor, and so may the fragment. -/
theorem readable_front {text : String} {g : Term} {next : Option Term}
    (trimmed : Text.Trimmed text.toList) (pending : g.isIntermediate = true)
    (free : next.any Term.isIntermediate = false)
    (checked : checkPending text (some g) next = .ok ()) :
    Readable (splitFlavor (['1'] ++ text.toList)).1 := by
  have readable := readable_trial trimmed checked
  rw [placeholder_pending pending, placeholder_other free, List.append_nil] at readable
  rcases splitFlavor_cases trimmed with split | ⟨front, flavor, whole, opens, split⟩
  · rwa [split, Option.map_none, Option.getD_none, List.append_nil] at readable
  · -- the trial moves the flavor behind the ones, where it is already
    have tried := splitFlavor_behind trimmed_one (Text.trimEnd front) opens
    have real := splitFlavor_behind trimmed_one front opens
    rw [split, Option.map_some, Option.getD_some, ← List.append_assoc, tried,
      Text.trimEnd_trimEnd] at readable
    rw [whole, ← List.append_assoc, ← List.append_assoc, real]
    exact readable

/-- A fragment in front of a group carries no flavor. -/
theorem readable_behind {text : String} {g : Term} {prior : Option Term}
    (trimmed : Text.Trimmed text.toList) (plain : text.toList.getLast? ≠ some ']')
    (free : prior.any Term.isIntermediate = false) (pending : g.isIntermediate = true)
    (checked : checkPending text prior (some g) = .ok ()) :
    Readable (splitFlavor (text.toList ++ ['1'])).1 := by
  have readable := readable_trial trimmed checked
  rwa [placeholder_pending pending, placeholder_other free, splitFlavor_plain trimmed plain,
    Option.map_none, Option.getD_none, List.append_nil, List.nil_append] at readable

theorem readable_between {text : String} {g g' : Term} (trimmed : Text.Trimmed text.toList)
    (plain : text.toList.getLast? ≠ some ']') (pending : g.isIntermediate = true)
    (pending' : g'.isIntermediate = true)
    (checked : checkPending text (some g) (some g') = .ok ()) :
    Readable (splitFlavor (['1'] ++ text.toList ++ ['1'])).1 := by
  have readable := readable_trial trimmed checked
  rwa [placeholder_pending pending, placeholder_pending pending', splitFlavor_plain trimmed plain,
    Option.map_none, Option.getD_none, List.append_nil] at readable

end Fragment

/-! ## Reading -/

open Term

/-- A fragment without white space around it, if the term is one. -/
def Term.Trimmed (t : Term) : Prop :=
  ∀ text, t = .fragment text → Text.Trimmed text.toList

namespace Term

theorem trimmed_of_settled {t : Term} (settled : t.isFragment = false) : Trimmed t := by
  rintro text rfl
  cases settled

theorem trimmed_fragment {text : List Char} (trimmed : Text.Trimmed text) :
    Trimmed (.fragment (String.ofList text)) := by
  intro text' same
  cases same
  rwa [String.toList_ofList]

theorem trimmed_flavored {text : List Char} (trimmed : Text.Trimmed text) (flavor : Option String)
    (fragment : String) : Text.Trimmed (text ++ (mergedFlavor flavor fragment).toList) := by
  unfold mergedFlavor
  split
  · rwa [String.toList_empty, List.append_nil]
  · cases flavor with
    | none => rwa [flavorText, String.toList_empty, List.append_nil]
    | some f =>
        have closing : Text.Trimmed "]".toList := Text.trimmed_singleton rfl
        rw [flavorText, String.toList_append, String.toList_append, ← List.append_assoc]
        rw [← List.append_assoc, List.append_assoc text]
        exact trimmed.join _ closing

/-- What trimmed fragments are merged to is trimmed. -/
theorem trimmed_merged? {a b : Term} {text : String} (left : Trimmed a) (right : Trimmed b)
    (merges : merged? a b = some text) : Trimmed (.fragment text) := by
  intro text' same
  cases same
  unfold merged? at merges
  split at merges
  · obtain ⟨x, -, rfl⟩ := Option.map_eq_some_iff.1 merges
    rw [String.toList_append, String.toList_append]
    exact trimmed_flavored ((left _ rfl).append (Numeral.trimmed_formulaNumber x)) _ _
  · obtain ⟨x, -, rfl⟩ := Option.map_eq_some_iff.1 merges
    dsimp only
    rw [String.toList_append, String.toList_append]
    exact trimmed_flavored ((Numeral.trimmed_formulaNumber x).append (right _ rfl)) _ _
  · cases merges

end Term

theorem Link.trimmed_terms {E : List Term → Prop} {expecting : Bool} {links : List Link}
    (sound : ∀ l ∈ links, l.Sound E) : ∀ t ∈ terms expecting links, Term.Trimmed t := by
  fun_induction terms expecting links with
  | case1 => exact List.forall_mem_nil _
  | case2 expecting text rest numeric ih =>
      obtain ⟨-, operand, others⟩ := by simpa using sound
      have minus : Text.Trimmed ['-'] := Text.trimmed_singleton rfl
      exact List.forall_mem_cons.2 ⟨trimmed_fragment (minus.append operand), ih others⟩
  | case3 expecting text rest numeric ih =>
      obtain ⟨-, operand, others⟩ := by simpa using sound
      exact List.forall_mem_cons.2 ⟨trimmed_of_settled rfl,
        List.forall_mem_cons.2 ⟨trimmed_fragment operand, ih others⟩⟩
  | case4 expecting op rest other ih =>
      exact List.forall_mem_cons.2 ⟨trimmed_of_settled rfl, ih (List.forall_mem_cons.1 sound).2⟩
  | case5 expecting text rest ih =>
      obtain ⟨operand, others⟩ := List.forall_mem_cons.1 sound
      exact List.forall_mem_cons.2 ⟨trimmed_fragment operand, ih others⟩
  | case6 expecting t rest ih =>
      obtain ⟨bracketed, others⟩ := List.forall_mem_cons.1 sound
      have settled := Strand.isFragment_of_isNested (Bracketed.nested bracketed)
      exact List.forall_mem_cons.2 ⟨trimmed_of_settled settled, ih others⟩

namespace Piece

/-- The neighbours of a fragment are left as they are. -/
theorem eq_of_waiting {prior next : Option Term} {p q : Piece}
    (settles : settleEarly prior p next = .ok q)
    (waiting : (prior.any isFragment || next.any isFragment) = true) : q = p := by
  have pending : Fragment.isPending prior next = true := by
    have waits {neighbour : Option Term} (fragment : neighbour.any isFragment = true) :
        neighbour.any isIntermediate = true := by
      cases neighbour with
      | none => cases fragment
      | some t => cases t <;> first | rfl | cases fragment
    rw [Fragment.isPending, Bool.or_eq_true]
    rcases Bool.or_eq_true _ _ ▸ waiting with front | behind
    · exact .inl (waits front)
    · exact .inr (waits behind)
  rcases settleEarly_cases settles with ⟨-, same⟩ | ⟨text, -, ⟨-, -, same⟩ | ⟨other, -⟩⟩
  · exact same
  · exact same
  · rw [pending] at other
    cases other

end Piece

namespace Term

/-- Fragments, behind a term that comes before all of them, fit if their neighbours are one. -/
def VettedFrom (prior : Option Term) : List Term → Prop
  | [] => True
  | t :: rest =>
      (∀ text, t = .fragment text → Text.Trimmed text.toList ∧
        Fragment.checkPending text prior rest.head? = .ok ()) ∧ VettedFrom (some t) rest

/-- Fragments fit if their neighbours are one. -/
def Vetted (ts : List Term) : Prop := VettedFrom none ts

theorem vettedFrom_iff {prior : Option Term} {ts : List Term} :
    VettedFrom prior ts ↔ FragmentsFrom (fun text prior next =>
      Text.Trimmed text.toList ∧ Fragment.checkPending text prior next = .ok ()) prior ts := by
  induction ts generalizing prior with
  | nil => exact Iff.rfl
  | cons t rest ih => exact and_congr_right fun _ => ih

end Term

namespace Piece

/-- A fragment that stays when pieces are settled stays between the same terms: it waits for one
of them, and was tried with them. -/
theorem fragments_settled {P : String → Option Term → Option Term → Prop}
    {prior prior' : Option Term} {ps qs : List Piece}
    (stays : ∀ p ∈ ps, ∀ text prior next, p.term = .fragment text →
      Fragment.isPending prior next = true → Fragment.checkPending text prior next = .ok () →
        P text prior next)
    (settles : mapNeighboursFrom settleEarly prior ps = qs.map .ok)
    (same : ∀ p ∈ ps.head?, p.term.isFragment = true → prior' = prior) :
    FragmentsFrom P prior' (terms qs) := by
  induction ps generalizing prior prior' qs with
  | nil =>
      have nothing : qs = [] := List.map_eq_nil_iff.1 settles.symm
      rw [nothing]
      trivial
  | cons p ps ih =>
      cases qs with
      | nil => cases settles
      | cons q qs =>
          obtain ⟨first, others⟩ := List.cons.inj settles
          obtain ⟨staysFirst, staysOthers⟩ := List.forall_mem_cons.1 stays
          -- a piece with a fragment behind it stays, and so does the piece behind a fragment
          have kept : ∀ p' ∈ ps.head?, p'.term.isFragment = true → some q.term = some p.term := by
            intro p' head fragment
            rw [Option.mem_def.1 head] at first
            rw [eq_of_waiting first (by simp [fragment])]
          refine ⟨fun text fragment => ?_, ih staysOthers others kept⟩
          rcases settleEarly_cases first with ⟨settled, rfl⟩ | ⟨text', waits, stayed | ⟨-, leaf⟩⟩
          · rw [fragment] at settled
            cases settled
          · obtain ⟨pending, checked, rfl⟩ := stayed
            rw [fragment] at waits
            cases waits
            have next : (terms qs).head? = ps.head?.map term := by
              cases ps with
              | nil =>
                  have nothing : qs = [] := List.map_eq_nil_iff.1 others.symm
                  rw [nothing]
                  rfl
              | cons p' ps =>
                  cases qs with
                  | nil => cases others
                  | cons q' qs =>
                      obtain ⟨second, -⟩ := List.cons.inj others
                      rw [eq_of_waiting second (by simp [fragment, isFragment])]
                      rfl
            show P text prior' (terms qs).head?
            rw [next, same q rfl (by rw [fragment]; rfl)]
            exact staysFirst text _ _ fragment pending checked
          · rw [fragment] at leaf
            cases leaf

/-- A fragment that is left when a formula is read waits for its neighbours, and was tried with
them. -/
theorem waits_settle? {E : List Term → Prop} {links : List Link} (sound : ∀ l ∈ links, l.Sound E)
    {ts : List Term} (settles : settle? (Link.terms true links) = some ts) :
    FragmentsFrom (fun text prior next =>
      Text.Trimmed text.toList ∧ Fragment.Waits text prior next) none ts := by
  obtain ⟨qs, ok, rfl⟩ := ok_of_settle? settles
  have lasting : Lasting Term.Trimmed :=
    ⟨fun leaf => trimmed_of_settled leaf.isFragment, trimmed_merged?⟩
  have read : ∀ t ∈ Link.terms true links, Term.Trimmed t := Link.trimmed_terms sound
  exact fragments_settled (fun p mem text _ _ fragment pending checked =>
    ⟨all_simplified lasting read p mem text fragment, pending, checked⟩) (eq_of_collect ok)
    fun _ _ _ => rfl

/-- **Fragments that are left when a formula is read were tried with their neighbours.** -/
theorem vetted_settle? {E : List Term → Prop} {links : List Link} (sound : ∀ l ∈ links, l.Sound E)
    {ts : List Term} (settles : settle? (Link.terms true links) = some ts) : Vetted ts :=
  vettedFrom_iff.2 ((waits_settle? sound settles).imp fun _ _ _ ⟨trimmed, waits⟩ => ⟨trimmed, waits.2⟩)

end Piece

/-! ## Terms that stand alone -/

namespace Term

/-- A group, call or pool whose value is still to come. -/
def isGroup (t : Term) : Bool := t.isIntermediate && !t.isFragment

/-- A term that has no value and waits for none. -/
def isInert : Term → Bool
  | operator _ | dice _ false _ => true
  | _ => false

/-- The flavor of the term, if it has any, has no opening bracket. -/
def Plain (t : Term) : Prop := ∀ f, t.flavor? = some f → '[' ∉ f.toList

/-- No fragment has more around it than a group on either side.  If there is one behind it, neither
the fragment nor the group in front of it has flavor. -/
inductive Alone : List Term → Prop
  | nil : Alone []
  | inert {t : Term} {rest : List Term} (inert : t.isInert = true) (others : Alone rest) :
      Alone (t :: rest)
  | value {t : Term} {rest : List Term} (settled : t.isFragment = false)
      (apart : ∀ u ∈ rest.head?, u.isFragment = false) (others : Alone rest) : Alone (t :: rest)
  | front {g : Term} {text : String} {rest : List Term} (group : g.isGroup = true) (plain : g.Plain)
      (ends : ∀ u ∈ rest.head?, u.isInert = true) (others : Alone rest) :
      Alone (g :: .fragment text :: rest)
  | behind {text : String} {g : Term} {rest : List Term} (group : g.isGroup = true) (plain : g.Plain)
      (unflavored : text.toList.getLast? ≠ some ']') (ends : ∀ u ∈ rest.head?, u.isInert = true)
      (others : Alone rest) : Alone (.fragment text :: g :: rest)
  | between {g g' : Term} {text : String} {rest : List Term} (group : g.isGroup = true)
      (group' : g'.isGroup = true) (plain : g'.Plain) (bare : g.flavor? = none)
      (unflavored : text.toList.getLast? ≠ some ']') (ends : ∀ u ∈ rest.head?, u.isInert = true)
      (others : Alone rest) : Alone (g :: .fragment text :: g' :: rest)

/-- What a term is once it is evaluated: groups get a value, and everything else stays. -/
structure Resolves (t t' : Term) : Prop where
  flavor : t'.flavor? = t.flavor?
  settled : t.isFragment = false → t'.isFragment = false
  stays : t.isGroup = false → t' = t

/-- The groups beside fragments come to one.  The first term may have a fragment in front of it. -/
def OnesFrom (beside : Bool) : List Term → List Term → Prop
  | t :: ts, t' :: ts' =>
      ((beside || ts.head?.any isFragment) = true → t.isGroup = true → t'.total? = some 1) ∧
        OnesFrom t.isFragment ts ts'
  | _, _ => True

/-- The groups beside fragments come to one. -/
def Ones (ts ts' : List Term) : Prop := OnesFrom false ts ts'

instance decidableOnesFrom :
    (beside : Bool) → (ts ts' : List Term) → Decidable (OnesFrom beside ts ts')
  | _, [], _ => isTrue trivial
  | _, _ :: _, [] => isTrue trivial
  | _, t :: ts, _ :: ts' =>
      have := decidableOnesFrom t.isFragment ts ts'
      instDecidableAnd

instance (ts ts' : List Term) : Decidable (Ones ts ts') :=
  decidableOnesFrom false ts ts'

/-- No term is a fragment. -/
def Settled (ts : List Term) : Prop := ∀ t ∈ ts, t.isFragment = false

instance (ts : List Term) : Decidable (Settled ts) :=
  inferInstanceAs (Decidable (∀ t ∈ ts, t.isFragment = false))

/-- Without fragments, nothing is asked of groups. -/
theorem ones_of_settled {ts : List Term} (settled : Settled ts) (ts' : List Term) : Ones ts ts' := by
  suffices all : ∀ beside, beside = false → OnesFrom beside ts ts' from all false rfl
  induction ts generalizing ts' with
  | nil =>
      intro beside _
      cases ts' <;> trivial
  | cons t ts ih =>
      rintro _ rfl
      obtain ⟨first, others⟩ := List.forall_mem_cons.1 settled
      cases ts' with
      | nil => trivial
      | cons t' ts' =>
          refine ⟨fun beside => ?_, ih others ts' _ first⟩
          cases ts with
          | nil => cases beside
          | cons u ts =>
              rw [Bool.false_or, List.head?_cons, Option.any_some, others u List.mem_cons_self]
                at beside
              cases beside

theorem pending_of_isGroup {g : Term} (group : g.isGroup = true) :
    g.isIntermediate = true ∧ g.isFragment = false := by
  simpa [isGroup] using group

theorem isInert_spec {t : Term} (inert : t.isInert = true) :
    t.isFragment = false ∧ t.isGroup = false ∧ t.isIntermediate = false ∧ t.total? = none := by
  cases t with
  | operator op => exact ⟨rfl, rfl, rfl, rfl⟩
  | dice rolled evaluated flavor =>
      cases evaluated with
      | false => exact ⟨rfl, rfl, rfl, rfl⟩
      | true => cases inert
  | _ => cases inert

theorem mergedFlavor_none (fragment : String) : mergedFlavor none fragment = "" := by
  unfold mergedFlavor
  split <;> rfl

/-- A value in front of a fragment is merged with it. -/
theorem merged?_front {t : Term} (settled : t.isFragment = false) (one : t.total? = some 1)
    (text : String) : merged? t (.fragment text) =
      some ("1" ++ text ++ mergedFlavor t.flavor? ("1" ++ text)) := by
  have written : formulaNumber 1 = "1" := by decide +kernel
  unfold merged?
  split
  · cases settled
  · rename_i text' other same
    cases same
    rw [one, Option.map_some, written]
  · rename_i other
    exact absurd rfl (other text)

/-- A value behind a fragment is merged with it. -/
theorem merged?_behind {t : Term} (one : t.total? = some 1) (text : String) :
    merged? (.fragment text) t = some (text ++ "1" ++ mergedFlavor t.flavor? text) := by
  have written : formulaNumber 1 = "1" := by decide +kernel
  unfold merged?
  dsimp only
  rw [one, Option.map_some, written]

/-- Nothing is merged with a term that has no value and is no fragment. -/
theorem merged?_inert {a t : Term} (inert : t.isInert = true) :
    merged? a t = none ∧ merged? t a = none := by
  obtain ⟨settled, -, -, none⟩ := isInert_spec inert
  constructor
  · unfold merged?
    split
    · rw [none]
      rfl
    · cases settled
    · rfl
  · unfold merged?
    split
    · cases settled
    · rw [none]
      rfl
    · rfl

end Term

namespace Piece

theorem merge_apart {p : Piece} {ps : List Piece}
    (apart : ∀ q ∈ ps.head?, merged? p.term q.term = none) : merge (p :: ps) = p :: merge ps := by
  cases ps with
  | nil => rfl
  | cons q ps =>
      rw [merge, mergeFrom, apart q rfl]
      rfl

theorem merge_merged {p q : Piece} {ps : List Piece} {text : String}
    (merges : merged? p.term q.term = some text) :
    merge (p :: q :: ps) = merge (⟨.fragment text, Span.cover? p.span q.span⟩ :: ps) := by
  rw [merge, mergeFrom, merges]
  rfl

/-- A merged text can be classified if it can without the flavor that is behind it. -/
theorem classifies_flavored {joined : String} (trimmed : Text.Trimmed joined.toList)
    {flavor : Option String} (opens : ∀ f, flavor = some f → '[' ∉ f.toList)
    (readable : Fragment.Readable (Fragment.splitFlavor joined.toList).1) :
    ∃ t, Fragment.classify (joined ++ mergedFlavor flavor joined) = .ok t := by
  have whole := Fragment.readable_flavored trimmed opens readable
  rw [String.ofList_toList] at whole
  have classified := (Fragment.classify_iff _).2 whole
  rwa [← String.toList_append, String.ofList_toList] at classified

/-- The same for a one that is joined with a text without flavor. -/
theorem classifies_one {text : String} (trimmed : Text.Trimmed text.toList)
    (unflavored : text.toList.getLast? ≠ some ']') {flavor : Option String}
    (opens : ∀ f, flavor = some f → '[' ∉ f.toList)
    (readable : Fragment.Readable (Fragment.splitFlavor (text.toList ++ ['1'])).1) :
    ∃ t, Fragment.classify (text ++ "1" ++ mergedFlavor flavor text) = .ok t := by
  have chars : (text ++ "1").toList = text.toList ++ ['1'] := String.toList_append
  have whole : Text.Trimmed (text ++ "1").toList := by
    rw [chars]
    exact trimmed.append Fragment.trimmed_one
  have last : (text ++ "1").toList.getLast? ≠ some ']' := by
    rw [chars, List.getLast?_concat]
    decide
  have same := Fragment.mergedFlavor_plain trimmed unflavored flavor
  have same' := Fragment.mergedFlavor_plain whole last flavor
  rw [String.ofList_toList] at same same'
  rw [same, ← same']
  rw [← chars] at readable
  exact classifies_flavored whole opens readable

/-- A fragment with a one in front of it, which may have flavor. -/
theorem classifies_front {g g' : Term} {text : String} (resolves : Resolves g g') (plain : g.Plain)
    (trimmed : Text.Trimmed text.toList)
    (readable : Fragment.Readable (Fragment.splitFlavor (['1'] ++ text.toList)).1) :
    ∃ t, Fragment.classify ("1" ++ text ++ mergedFlavor g'.flavor? ("1" ++ text)) = .ok t := by
  have joined : Text.Trimmed ("1" ++ text).toList := by
    rw [String.toList_append]
    exact Fragment.trimmed_one.append trimmed
  refine classifies_flavored joined ?_ ?_
  · rw [resolves.flavor]
    exact plain
  · rw [String.toList_append]
    exact readable

/-- A fragment without flavor, with a one behind it. -/
theorem classifies_behind {g g' : Term} {text : String} (resolves : Resolves g g') (plain : g.Plain)
    (trimmed : Text.Trimmed text.toList) (unflavored : text.toList.getLast? ≠ some ']')
    (readable : Fragment.Readable (Fragment.splitFlavor (text.toList ++ ['1'])).1) :
    ∃ t, Fragment.classify (text ++ "1" ++ mergedFlavor g'.flavor? text) = .ok t := by
  refine classifies_one trimmed unflavored ?_ readable
  rw [resolves.flavor]
  exact plain

/-- A fragment without flavor between two ones. -/
theorem classifies_between {g g' : Term} {text : String} (resolves : Resolves g g')
    (plain : g.Plain) (trimmed : Text.Trimmed text.toList)
    (unflavored : text.toList.getLast? ≠ some ']')
    (readable : Fragment.Readable (Fragment.splitFlavor (['1'] ++ text.toList ++ ['1'])).1) :
    ∃ t, Fragment.classify ("1" ++ text ++ "1" ++ mergedFlavor g'.flavor? ("1" ++ text)) =
      .ok t := by
  have chars : ("1" ++ text).toList = ['1'] ++ text.toList := String.toList_append
  refine classifies_behind resolves plain ?_ ?_ ?_
  · rw [chars]
    exact Fragment.trimmed_one.append trimmed
  · rw [chars, List.getLast?_append_of_ne_nil _ trimmed.visible]
    exact unflavored
  · rw [chars]
    exact readable

/-- The fragments among pieces can be classified. -/
def Classifies (ps : List Piece) : Prop :=
  ∀ p ∈ ps, ∀ text, p.term = .fragment text → ∃ t, Fragment.classify text = .ok t

theorem classifies_cons {p : Piece} {ps : List Piece} (settled : p.term.isFragment = false)
    (others : Classifies ps) : Classifies (p :: ps) := by
  refine List.forall_mem_cons.2 ⟨fun text fragment => ?_, others⟩
  rw [fragment] at settled
  cases settled

/-- A fragment with nothing behind it that belongs to it. -/
theorem classifies_fragment {text : String} {span : Option Span} {ts : List Term}
    (ends : ∀ u ∈ ts.head?, u.isInert = true) (classified : ∃ t, Fragment.classify text = .ok t)
    (others : Classifies (merge (ofTerms ts))) :
    Classifies (merge (⟨.fragment text, span⟩ :: ofTerms ts)) := by
  rw [merge_apart]
  · refine List.forall_mem_cons.2 ⟨fun text' same => ?_, others⟩
    cases same
    exact classified
  · intro q head
    cases ts with
    | nil => cases head
    | cons t ts =>
        cases head
        exact (merged?_inert (ends t rfl)).1

/-- What is behind a fragment is no group, and stays as it is. -/
theorem ends_resolved {rest rest' : List Term} (ends : ∀ u ∈ rest.head?, u.isInert = true)
    (resolves : List.Forall₂ Resolves rest rest') : ∀ u ∈ rest'.head?, u.isInert = true := by
  cases resolves with
  | nil => exact ends
  | cons first others =>
      intro u head
      cases head
      rw [first.stays (isInert_spec (ends _ rfl)).2.1]
      exact ends _ rfl

/-- What ends a block is no fragment, and no group. -/
theorem pending_of_ends {rest : List Term} (ends : ∀ u ∈ rest.head?, u.isInert = true) :
    rest.head?.any isIntermediate = false := by
  cases rest with
  | nil => rfl
  | cons u rest => exact (isInert_spec (ends u rfl)).2.2.1

theorem free_of_ends {rest : List Term} (ends : ∀ u ∈ rest.head?, u.isInert = true)
    {prior : Option Term} :
    ∀ u ∈ rest.head?, u.isFragment = true → prior.any isIntermediate = false := by
  intro u head fragment
  rw [(isInert_spec (ends u head)).1] at fragment
  cases fragment

/-- **Terms that stand alone can all be classified once the groups beside fragments came to
one.** -/
theorem classifies_merge {prior : Option Term} {ts ts' : List Term} {beside : Bool}
    (alone : Alone ts) (vetted : VettedFrom prior ts)
    (free : ∀ t ∈ ts.head?, t.isFragment = true → prior.any isIntermediate = false)
    (ones : OnesFrom beside ts ts') (resolves : List.Forall₂ Resolves ts ts') :
    Classifies (merge (ofTerms ts')) := by
  induction alone generalizing prior ts' beside with
  | nil =>
      cases resolves
      exact List.forall_mem_nil _
  | @inert t rest inert others ih =>
      cases resolves with
      | @cons _ t' _ rest' first resolvesRest =>
          obtain ⟨settled, notGroup, notPending, -⟩ := isInert_spec inert
          rw [first.stays notGroup]
          have merges : merge (ofTerms (t :: rest')) = ⟨t, none⟩ :: merge (ofTerms rest') :=
            merge_apart fun q _ => (merged?_inert inert).2
          rw [merges]
          exact classifies_cons settled
            (ih vetted.2 (fun _ _ _ => notPending) ones.2 resolvesRest)
  | @value t rest settled apart others ih =>
      cases resolves with
      | @cons _ t' _ rest' first resolvesRest =>
          have merges : merge (ofTerms (t' :: rest')) = ⟨t', none⟩ :: merge (ofTerms rest') := by
            refine merge_apart fun q head => ?_
            cases resolvesRest with
            | nil => cases head
            | cons second _ =>
                cases head
                exact merged?_settled (first.settled settled) (second.settled (apart _ rfl))
          rw [merges]
          refine classifies_cons (first.settled settled) (ih vetted.2 ?_ ones.2 resolvesRest)
          intro u head fragment
          rw [apart u head] at fragment
          cases fragment
  | @front g text rest group plain ends others ih =>
      cases resolves with
      | @cons _ g' _ _ first resolvesRest =>
          cases resolvesRest with
          | @cons _ f' _ rest' second resolvesRest =>
              obtain ⟨-, waits, vettedRest⟩ := vetted
              obtain ⟨trimmed, checked⟩ := waits text rfl
              obtain ⟨pending, settled⟩ := pending_of_isGroup group
              have one : g'.total? = some 1 := ones.1 (by simp [isFragment]) group
              rw [second.stays rfl]
              have merges : merge (ofTerms (g' :: .fragment text :: rest')) =
                  merge (⟨.fragment _, none⟩ :: ofTerms rest') :=
                merge_merged (merged?_front (first.settled settled) one text)
              refine merges ▸ classifies_fragment (ends_resolved ends resolvesRest) ?_
                (ih vettedRest (free_of_ends ends) ones.2.2 resolvesRest)
              exact classifies_front first plain trimmed
                (Fragment.readable_front trimmed pending (pending_of_ends ends) checked)
  | @behind text g rest group plain unflavored ends others ih =>
      cases resolves with
      | @cons _ f' _ _ first resolvesRest =>
          cases resolvesRest with
          | @cons _ g' _ rest' second resolvesRest =>
              obtain ⟨waits, -, vettedRest⟩ := vetted
              obtain ⟨trimmed, checked⟩ := waits text rfl
              obtain ⟨pending, settled⟩ := pending_of_isGroup group
              have one : g'.total? = some 1 := ones.2.1 rfl group
              rw [first.stays rfl]
              have merges : merge (ofTerms (.fragment text :: g' :: rest')) =
                  merge (⟨.fragment _, none⟩ :: ofTerms rest') :=
                merge_merged (merged?_behind one text)
              refine merges ▸ classifies_fragment (ends_resolved ends resolvesRest) ?_
                (ih vettedRest (free_of_ends ends) ones.2.2 resolvesRest)
              exact classifies_behind second plain trimmed unflavored
                (Fragment.readable_behind trimmed unflavored (free _ rfl rfl) pending checked)
  | @between g h text rest group group' plain bare unflavored ends others ih =>
      cases resolves with
      | @cons _ g' _ _ first resolvesRest =>
          cases resolvesRest with
          | @cons _ f' _ _ second resolvesRest =>
              cases resolvesRest with
              | @cons _ h' _ rest' third resolvesRest =>
                  obtain ⟨-, waits, -, vettedRest⟩ := vetted
                  obtain ⟨trimmed, checked⟩ := waits text rfl
                  obtain ⟨pending, settled⟩ := pending_of_isGroup group
                  have one : g'.total? = some 1 := ones.1 (by simp [isFragment]) group
                  have one' : h'.total? = some 1 := ones.2.2.1 rfl group'
                  rw [second.stays rfl]
                  have front := merged?_front (first.settled settled) one text
                  rw [first.flavor, bare, mergedFlavor_none, String.append_empty] at front
                  have merges : merge (ofTerms (g' :: .fragment text :: h' :: rest')) =
                      merge (ofTerms (.fragment ("1" ++ text) :: h' :: rest')) := merge_merged front
                  have merges' : merge (ofTerms (.fragment ("1" ++ text) :: h' :: rest')) =
                      merge (⟨.fragment _, none⟩ :: ofTerms rest') :=
                    merge_merged (merged?_behind one' ("1" ++ text))
                  refine merges ▸ merges' ▸ classifies_fragment (ends_resolved ends resolvesRest) ?_
                    (ih vettedRest (free_of_ends ends) ones.2.2.2 resolvesRest)
                  exact classifies_between third plain trimmed unflavored
                    (Fragment.readable_between trimmed unflavored pending
                      (pending_of_isGroup group').1 checked)

end Piece

end DiceFormula
