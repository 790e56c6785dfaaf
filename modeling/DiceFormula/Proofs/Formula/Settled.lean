/-
# DiceFormula.Proofs.Formula.Settled -- terms that are certain

When a formula is read, terms stay as they are if neighbours are `Separate` and
every fragment `Waits` for what is beside it (`simplifyEarly_steady`).  So a
formula is settled once its operands are classified (`settle?_of_classified`).

Terms are `Apart` if no two of them are operands next to each other.  Then no
fragment waits for a neighbour, and each is settled by what it says alone
(`settle?_apart`).  Terms among which there is no fragment are settled already when
a formula is evaluated (`simplifyLate_settled`).
-/
import DiceFormula.Proofs.Formula.Links

namespace DiceFormula

set_option autoImplicit false

/-! ## Terms that stay -/

namespace Term

/-- When a formula is read, neither of two terms next to each other changes the other: they are not
merged, and none is a constant beside a fragment. -/
structure Separate (a b : Term) : Prop where
  unmerged : merged? a b = none
  behind : a.isFragment = true → b.isFoldable = true → b.constant? = none
  front : b.isFragment = true → a.isFoldable = true → a.constant? = none

/-- What holds of the text of every fragment and of the terms around it, behind a term that comes
before all of them. -/
def FragmentsFrom (P : String → Option Term → Option Term → Prop) (prior : Option Term) :
    List Term → Prop
  | [] => True
  | t :: rest =>
      (∀ text, t = .fragment text → P text prior rest.head?) ∧ FragmentsFrom P (some t) rest

theorem FragmentsFrom.imp {P Q : String → Option Term → Option Term → Prop} {prior : Option Term}
    {ts : List Term} (fragments : FragmentsFrom P prior ts)
    (wider : ∀ text prior next, P text prior next → Q text prior next) : FragmentsFrom Q prior ts := by
  induction ts generalizing prior with
  | nil => trivial
  | cons t rest ih =>
      obtain ⟨first, others⟩ := fragments
      exact ⟨fun text fragment => wider _ _ _ (first text fragment), ih others⟩

theorem FragmentsFrom.mem {P : String → Option Term → Option Term → Prop} {prior : Option Term}
    {ts : List Term} (fragments : FragmentsFrom P prior ts) {text : String}
    (mem : .fragment text ∈ ts) : ∃ prior next, P text prior next := by
  induction ts generalizing prior with
  | nil => cases mem
  | cons t rest ih =>
      obtain ⟨first, others⟩ := fragments
      rcases List.mem_cons.1 mem with same | member
      · exact ⟨_, _, first text same.symm⟩
      · exact ih others member

theorem fragmentsFrom_settled {P : String → Option Term → Option Term → Prop} {prior : Option Term}
    {ts : List Term} (settled : ∀ t ∈ ts, t.isFragment = false) : FragmentsFrom P prior ts := by
  induction ts generalizing prior with
  | nil => trivial
  | cons t rest ih =>
      obtain ⟨first, others⟩ := List.forall_mem_cons.1 settled
      refine ⟨?_, ih others⟩
      rintro text rfl
      cases first

theorem merged?_settled {a b : Term} (left : a.isFragment = false) (right : b.isFragment = false) :
    merged? a b = none := by
  unfold merged?
  split
  · cases left
  · cases right
  · rfl

theorem separate_settled {a b : Term} (left : a.isFragment = false) (right : b.isFragment = false) :
    Separate a b :=
  ⟨merged?_settled left right, fun fragment => absurd fragment (by simp [left]),
    fun fragment => absurd fragment (by simp [right])⟩

theorem isChain_separate {ts : List Term} (settled : ∀ t ∈ ts, t.isFragment = false) :
    ts.IsChain Separate :=
  (List.pairwise_of_forall_mem_list fun a left b right =>
    separate_settled (settled a left) (settled b right)).isChain

end Term

/-- A fragment waits for the terms around it, and fits if they come to one. -/
def Fragment.Waits (text : String) (prior next : Option Term) : Prop :=
  isPending prior next = true ∧ checkPending text prior next = .ok ()

namespace Piece

/-- No piece is a fragment. -/
def Settled (ps : List Piece) : Prop := ∀ p ∈ ps, p.term.isFragment = false

theorem forall_terms {P : Term → Prop} {ps : List Piece} :
    (∀ t ∈ terms ps, P t) ↔ ∀ p ∈ ps, P p.term := List.forall_mem_map

theorem mergeFrom_eq {last : Piece} {ps : List Piece}
    (unmerged : (last :: ps).IsChain fun p q => Term.merged? p.term q.term = none) :
    mergeFrom last ps = last :: ps := by
  induction ps generalizing last with
  | nil => rfl
  | cons p ps ih =>
      obtain ⟨next, others⟩ := List.isChain_cons_cons.1 unmerged
      rw [mergeFrom, next]
      exact congrArg _ (ih others)

/-- Pieces stay as they are if no two of them are merged. -/
theorem merge_eq {ps : List Piece} (separate : (terms ps).IsChain Term.Separate) : merge ps = ps := by
  cases ps with
  | nil => rfl
  | cons p ps =>
      exact mergeFrom_eq (((List.isChain_map term).1 separate).imp fun _ _ => Term.Separate.unmerged)

/-- Pieces stay as they are if no two neighbours change each other. -/
theorem mapNeighboursFrom_eq {f : Option Term → Piece → Option Term → Piece}
    {R : Term → Term → Prop} {prior : Option Term} {ps : List Piece}
    (front : ∀ a ∈ prior, ∀ b ∈ (terms ps).head?, R a b) (chain : (terms ps).IsChain R)
    (same : ∀ prior p next, (∀ a ∈ prior, R a p.term) → (∀ b ∈ next, R p.term b) → f prior p next = p) :
    mapNeighboursFrom f prior ps = ps := by
  induction ps generalizing prior with
  | nil => rfl
  | cons p ps ih =>
      obtain ⟨next, others⟩ := List.isChain_cons.1 chain
      have behind : ∀ b ∈ ps.head?.map term, R p.term b := by
        rw [← List.head?_map]
        exact next
      rw [mapNeighboursFrom, same prior p _ (fun a mem => front a mem _ rfl) behind]
      refine congrArg _ (ih (fun a same => ?_) others)
      obtain rfl : p.term = a := Option.some.inj same
      exact next

theorem foldConstants_eq {ps : List Piece} (separate : (terms ps).IsChain Term.Separate) :
    foldConstants ps = ps := by
  refine mapNeighboursFrom_eq (fun a none => by cases none) separate fun prior p next front behind => ?_
  split
  · rename_i folds
    obtain ⟨foldable, beside⟩ := Bool.and_eq_true_iff.1 folds
    have varies : p.term.constant? = none := by
      rcases Bool.or_eq_true_iff.1 beside with fragment | fragment
      · obtain ⟨a, mem, fragment⟩ := (Option.any_eq_true _ _).1 fragment
        exact (front a mem).behind fragment foldable
      · obtain ⟨b, mem, fragment⟩ := (Option.any_eq_true _ _).1 fragment
        exact (behind b mem).front fragment foldable
    rw [varies]
  · rfl

theorem settleEarly_waits {prior next : Option Term} {p : Piece}
    (waits : ∀ text, p.term = .fragment text → Fragment.Waits text prior next) :
    settleEarly prior p next = .ok p := by
  unfold settleEarly
  split
  · rename_i text fragment
    obtain ⟨pending, checked⟩ := waits text fragment
    rw [if_pos pending, checked]
  · rfl

theorem settleEarly_settled {p : Piece} (settled : p.term.isFragment = false)
    (prior next : Option Term) : settleEarly prior p next = .ok p := by
  refine settleEarly_waits fun text fragment => ?_
  rw [fragment] at settled
  cases settled

/-- **Terms stay as they are** if no two neighbours change each other and every fragment waits. -/
theorem simplifyEarly_steady {ps : List Piece} (separate : (terms ps).IsChain Term.Separate)
    (waiting : Term.FragmentsFrom Fragment.Waits none (terms ps)) : simplifyEarly ps = .ok ps := by
  have collected (prior : Option Term)
      (waits : Term.FragmentsFrom Fragment.Waits prior (terms ps)) :
      (mapNeighboursFrom settleEarly prior ps).mapM id = .ok ps := by
    clear separate waiting
    induction ps generalizing prior with
    | nil => rfl
    | cons p ps ih =>
        obtain ⟨first, others⟩ := waits
        have next : (terms ps).head? = ps.head?.map term := List.head?_map
        rw [mapNeighboursFrom, settleEarly_waits (next ▸ first), List.mapM_cons, ih _ others]
        rfl
  rw [simplifyEarly, foldConstants_eq separate, merge_eq separate]
  exact collected none waiting

/-- Merged pieces are settled one by one, and then stray operators are left out. -/
theorem ok_of_simplifyLate {ps qs : List Piece} (ok : simplifyLate ps = .ok qs) :
    ∃ settled, (merge ps).mapM settleLate = .ok settled ∧ stripStray settled = qs := by
  unfold simplifyLate at ok
  cases settles : (merge ps).mapM settleLate with
  | error e => rw [settles] at ok; cases ok
  | ok settled =>
      rw [settles] at ok
      cases ok
      exact ⟨settled, rfl, rfl⟩

/-- Once everything is settled, evaluation only leaves out stray operators. -/
theorem simplifyLate_settled {ps : List Piece} (settled : Settled ps) :
    simplifyLate ps = .ok (stripStray ps) := by
  have collected : ps.mapM settleLate = .ok ps := by
    induction ps with
    | nil => rfl
    | cons p ps ih =>
        have first : settleLate p = .ok p := by
          have certain := settled p List.mem_cons_self
          unfold settleLate
          split
          · rename_i text fragment
            rw [fragment] at certain
            cases certain
          · rfl
        rw [List.mapM_cons, first, ih fun q mem => settled q (List.mem_cons_of_mem p mem)]
        rfl
  rw [simplifyLate, merge_eq (Term.isChain_separate (forall_terms.2 settled)), collected]
  rfl

/-! ## Stray operators -/

theorem terms_ofTerms (ts : List Term) : terms (ofTerms ts) = ts := by
  simp [terms, ofTerms, Function.comp_def]

/-- Operators at the end are left out first, then those at the start. -/
theorem stripStray_eq (ps : List Piece) :
    stripStray ps = (ps.rdropWhile fun p => p.term.isOperator).dropWhile isStrayAtStart := rfl

theorem isOperator_of_isStrayAtStart {p : Piece} (stray : isStrayAtStart p = true) :
    p.term.isOperator = true := by
  unfold isStrayAtStart at stray
  split at stray
  · rename_i op term
    rw [term]
    rfl
  · cases stray

/-- Nothing but operators at the ends is left out. -/
theorem exists_stray (ps : List Piece) : ∃ front behind,
    ps = front ++ stripStray ps ++ behind ∧ ∀ p ∈ front ++ behind, p.term.isOperator = true := by
  refine ⟨(ps.rdropWhile fun p => p.term.isOperator).takeWhile isStrayAtStart,
    ps.rtakeWhile fun p => p.term.isOperator, ?_, fun p mem => ?_⟩
  · rw [stripStray_eq, List.takeWhile_append_dropWhile, List.rdropWhile_append_rtakeWhile]
  · rcases List.mem_append.1 mem with front | behind
    · exact isOperator_of_isStrayAtStart (List.mem_takeWhile_imp front)
    · exact List.mem_rtakeWhile_imp (p := fun q : Piece => q.term.isOperator) behind

theorem mem_of_stripStray {ps : List Piece} {p : Piece} (mem : p ∈ stripStray ps) : p ∈ ps := by
  obtain ⟨front, behind, whole, -⟩ := exists_stray ps
  rw [whole]
  exact List.mem_append_left _ (List.mem_append_right _ mem)

/-- No operator is left at the start that stands for nothing. -/
theorem first_stripStray {ps : List Piece} {p : Piece} (first : (stripStray ps).head? = some p) :
    isStrayAtStart p = false := by
  have head := List.head?_dropWhile_not isStrayAtStart (ps.rdropWhile fun p => p.term.isOperator)
  rw [stripStray_eq] at first
  rwa [first] at head

/-- No operator is left at the end. -/
theorem last_stripStray {ps : List Piece} {p : Piece} (last : (stripStray ps).getLast? = some p) :
    p.term.isOperator = false := by
  have behind : stripStray ps <:+ ps.rdropWhile fun p => p.term.isOperator :=
    List.dropWhile_suffix isStrayAtStart
  have nonempty : stripStray ps ≠ [] := by
    rintro none
    rw [none] at last
    cases last
  have kept : (ps.rdropWhile fun p => p.term.isOperator) ≠ [] := by
    rintro none
    rw [none] at behind
    exact nonempty (List.suffix_nil.1 behind)
  have operand := List.rdropWhile_last_not _ ps kept
  rw [← behind.getLast nonempty, List.getLast_of_mem_getLast? last] at operand
  exact Bool.eq_false_iff.2 operand

end Piece

/-! ## Terms that stand apart -/

namespace Term

/-- No two operands stand next to each other. -/
def Apart (ts : List Term) : Prop :=
  ts.IsChain fun a b => a.isOperator = true ∨ b.isOperator = true

/-- What a term is once it is settled by itself. -/
inductive Settles : Term → Term → Prop
  | known {t : Term} (settled : t.isFragment = false) : Settles t t
  | fragment {text : String} {t : Term} (settled : t.isFragment = false)
      (classified : ∀ prior next, Fragment.isPending prior next = false →
        Fragment.classifyEarly text prior next = t) : Settles (.fragment text) t

theorem Settles.settled {t t' : Term} (settles : Settles t t') : t'.isFragment = false := by
  cases settles with
  | known settled => exact settled
  | fragment settled classified => exact settled

/-- A neighbour that is an operator or missing waits for nothing. -/
theorem isPending_of_operators {prior next : Option Term}
    (front : ∀ t, prior = some t → t.isOperator = true)
    (behind : ∀ t, next = some t → t.isOperator = true) :
    Fragment.isPending prior next = false := by
  have single (neighbour : Option Term) (operator : ∀ t, neighbour = some t → t.isOperator = true) :
      neighbour.any isIntermediate = false := by
    cases neighbour with
    | none => rfl
    | some t =>
        have := operator t rfl
        cases t <;> first | rfl | cases this
  rw [Fragment.isPending, single prior front, single next behind]
  rfl

/-! ### Classification -/

/-- What an operand is classified as between its neighbours. -/
def classified (prior : Option Term) (t : Term) (next : Option Term) : Term :=
  match t with
  | .fragment text => Fragment.classifyEarly text prior next
  | t => t

/-- What terms are classified as, behind a term that comes before all of them. -/
def classifiedFrom (prior : Option Term) : List Term → List Term
  | [] => []
  | t :: rest => t.classified prior rest.head? :: classifiedFrom (some t) rest

theorem terms_classifyEarly (ts : List Term) :
    Piece.terms (Piece.classifyEarly (Piece.ofTerms ts)) = classifiedFrom none ts := by
  unfold Piece.classifyEarly Piece.mapNeighbours
  generalize (none : Option Term) = prior
  induction ts generalizing prior with
  | nil => rfl
  | cons t rest ih =>
      have next : (Piece.ofTerms rest).head?.map Piece.term = rest.head? := by
        cases rest <;> rfl
      have others := ih (some t)
      rw [classifiedFrom, ← others, ← next]
      cases t <;> rfl

/-- **A formula is settled once its operands are classified**, if no two neighbours change each
other then and every fragment waits. -/
theorem settle?_of_classified {us ts : List Term} (classified : classifiedFrom none us = ts)
    (separate : ts.IsChain Separate) (waiting : FragmentsFrom Fragment.Waits none ts) :
    Piece.settle? us = some ts := by
  rw [← classified, ← terms_classifyEarly] at separate waiting
  rw [Piece.settle?, Piece.simplifyEarly_steady separate waiting]
  exact congrArg some ((terms_classifyEarly us).trans classified)

theorem classifiedFrom_apart {prior : Option Term} {us ts : List Term} (apart : Apart us)
    (front : ∀ p ∈ prior, ∀ t ∈ us.head?, p.isOperator = true ∨ t.isOperator = true)
    (settles : List.Forall₂ Settles us ts) : classifiedFrom prior us = ts := by
  induction settles generalizing prior with
  | nil => rfl
  | @cons t t' us ts first others ih =>
      obtain ⟨next, rest⟩ := List.isChain_cons.1 apart
      have behind : classifiedFrom (some t) us = ts := by
        refine ih rest fun p same => ?_
        obtain rfl : t = p := Option.some.inj same
        exact next
      rw [classifiedFrom, behind]
      congr 1
      cases first with
      | known settled => cases t <;> first | rfl | cases settled
      | fragment settled classified =>
          refine classified _ _ (isPending_of_operators (fun p same => ?_) fun u same => ?_)
          · exact (front p same _ rfl).resolve_right Bool.false_ne_true
          · exact (next u same).resolve_left Bool.false_ne_true

/-- **Terms that stand apart are settled one by one.** -/
theorem settle?_apart {us ts : List Term} (apart : Apart us)
    (settles : List.Forall₂ Settles us ts) : Piece.settle? us = some ts := by
  have settled : ∀ t ∈ ts, t.isFragment = false := by
    clear apart
    induction settles with
    | nil => exact List.forall_mem_nil _
    | cons first others ih => exact List.forall_mem_cons.2 ⟨first.settled, ih⟩
  exact settle?_of_classified (classifiedFrom_apart apart (fun _ none => by cases none) settles)
    (isChain_separate settled) (fragmentsFrom_settled settled)

end Term

end DiceFormula
