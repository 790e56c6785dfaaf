/-
# DiceFormula.Proofs.Formula.Everywhere -- what holds of every formula in a formula

Groups, calls and pools hold formulas, which were read the same way as the one that they stand
in.  `Everywhere` is a property of a formula and of all formulas nested in it.

To know that it holds of whatever is read, it is enough to look at one level: at the links of
a formula, whose operands are trimmed and whose groups are `Bracketed`, and at what settling
makes of them (`everywhere_read`).  One such property is that nothing in a formula is evaluated
yet (`unrolled_read`).
-/
import DiceFormula.Proofs.Dice.Reread
import DiceFormula.Proofs.Formula.Links

namespace DiceFormula

set_option autoImplicit false

/-! ## Nesting -/

namespace Term

/-- The formulas that a term holds. -/
def inner : Term → List (List Term)
  | pool members _ _ _ _ => members
  | call _ args _ => args
  | group inner _ => [inner]
  | _ => []

/-- A property of a formula and of all formulas in it. -/
inductive Everywhere (L : List Term → Prop) : List Term → Prop
  | intro {ts : List Term} (here : L ts)
      (inside : ∀ t ∈ ts, ∀ us ∈ t.inner, Everywhere L us) : Everywhere L ts

theorem Everywhere.here {L : List Term → Prop} {ts : List Term} (everywhere : Everywhere L ts) :
    L ts := by
  cases everywhere with
  | intro here inside => exact here

theorem Everywhere.and {L L' : List Term → Prop} {ts : List Term} (left : Everywhere L ts)
    (right : Everywhere L' ts) : Everywhere (fun us => L us ∧ L' us) ts := by
  induction left with
  | intro here inside ih =>
      cases right with
      | intro here' inside' =>
          exact .intro ⟨here, here'⟩ fun t mem us member =>
            ih t mem us member (inside' t mem us member)

theorem Everywhere.mono {L L' : List Term → Prop} {ts : List Term} (everywhere : Everywhere L ts)
    (wider : ∀ us, L us → L' us) : Everywhere L' ts := by
  induction everywhere with
  | intro here inside ih => exact .intro (wider _ here) ih

theorem everywhere_iff {L : List Term → Prop} {ts : List Term} :
    Everywhere L ts ↔ L ts ∧ ∀ t ∈ ts, ∀ us ∈ t.inner, Everywhere L us := by
  constructor
  · intro everywhere
    cases everywhere with
    | intro here inside => exact ⟨here, inside⟩
  · exact fun ⟨here, inside⟩ => .intro here inside

theorem sizeOf_inner {t : Term} {us : List Term} (mem : us ∈ t.inner) : sizeOf us < sizeOf t := by
  cases t with
  | pool members modifiers dice evaluated flavor | call f args flavor =>
      have below := List.sizeOf_lt_of_mem mem
      simp only [inner, pool.sizeOf_spec, call.sizeOf_spec] at below ⊢
      omega
  | group inner flavor =>
      obtain rfl := List.mem_singleton.1 mem
      rw [group.sizeOf_spec]
      omega
  | _ => cases mem

/-- What holds of all formulas holds everywhere. -/
theorem everywhere_of_forall {L : List Term → Prop} (holds : ∀ us, L us) (ts : List Term) :
    Everywhere L ts :=
  .intro (holds ts) fun _ mem us member =>
    have := (sizeOf_inner member).trans (List.sizeOf_lt_of_mem mem)
    everywhere_of_forall holds us
termination_by sizeOf ts

section Decidable

variable (L : List Term → Prop) [DecidablePred L]

mutual

def decidableInside : (t : Term) → Decidable (∀ us ∈ t.inner, Everywhere L us)
  | .pool members _ _ _ _ => decidableLists members
  | .call _ args _ => decidableLists args
  | .group inner _ =>
      have := decidableInsideAll inner
      decidable_of_iff (L inner ∧ ∀ t ∈ inner, ∀ us ∈ t.inner, Everywhere L us)
        (everywhere_iff.symm.trans List.forall_mem_singleton.symm)
  | .number _ _ | .operator _ | .dice _ _ _ | .fragment _ => isTrue (List.forall_mem_nil _)

def decidableInsideAll :
    (ts : List Term) → Decidable (∀ t ∈ ts, ∀ us ∈ t.inner, Everywhere L us)
  | [] => isTrue (List.forall_mem_nil _)
  | t :: rest =>
      have := decidableInside t
      have := decidableInsideAll rest
      decidable_of_iff _ List.forall_mem_cons.symm

def decidableLists : (lists : List (List Term)) → Decidable (∀ us ∈ lists, Everywhere L us)
  | [] => isTrue (List.forall_mem_nil _)
  | ts :: rest =>
      have := decidableInsideAll ts
      have := decidableLists rest
      have : Decidable (Everywhere L ts) := decidable_of_iff _ everywhere_iff.symm
      decidable_of_iff _ List.forall_mem_cons.symm

end

instance (ts : List Term) : Decidable (Everywhere L ts) :=
  have := decidableInsideAll L ts
  decidable_of_iff _ everywhere_iff.symm

end Decidable

/-- A term as groups are read, with a property of the formulas in them.  Members of a pool are
not scored yet, and can only be selected and scored. -/
inductive Bracketed (E : List Term → Prop) : Term → Prop
  | pool {members : List (List Term)} {modifiers : List Modifier} {flavor : Option String}
      (inside : ∀ us ∈ members, E us) (selective : ∀ m ∈ modifiers, m.isSelective = true)
      (admitted : ∀ m ∈ modifiers, m.Admitted) :
      Bracketed E (.pool members modifiers [] false flavor)
  | call {f : MathFunction} {args : List (List Term)} {flavor : Option String}
      (inside : ∀ us ∈ args, E us) : Bracketed E (.call f args flavor)
  | group {us : List Term} {flavor : Option String} (inside : E us) :
      Bracketed E (.group us flavor)

namespace Bracketed

variable {E : List Term → Prop} {t : Term}

theorem inner (bracketed : Bracketed E t) : ∀ us ∈ t.inner, E us := by
  cases bracketed with
  | pool inside => exact inside
  | call inside => exact inside
  | group inside =>
      intro us mem
      rwa [List.mem_singleton.mp mem]

theorem nested (bracketed : Bracketed E t) : Strand.isNested t = true := by
  cases bracketed <;> rfl

theorem withFlavor (flavor : Option String) (bracketed : Bracketed E t) :
    Bracketed E (t.withFlavor flavor) := by
  cases bracketed with
  | pool inside selective admitted => exact .pool inside selective admitted
  | call inside => exact .call inside
  | group inside => exact .group inside

end Bracketed

/-- Only the terms of groups hold formulas. -/
theorem inner_of_isNested {t : Term} (plain : Strand.isNested t = false) : t.inner = [] := by
  cases t <;> first | rfl | cases plain

/-! ## Formulas that are still to be evaluated -/

/-- Whether the term is no dice that were rolled and no pool that was scored. -/
def isUnrolled : Term → Bool
  | dice _ evaluated _ | pool _ _ _ evaluated _ => !evaluated
  | _ => true

/-- No dice are rolled, and no pools scored. -/
def Unrolled (ts : List Term) : Prop := ∀ t ∈ ts, t.isUnrolled = true

end Term

open Term

/-! ## Groups -/

namespace Group

variable {read : SubReader} {E : List Term → Prop}
  (sound : ∀ offset text us, read offset text = .ok us → E us)
include sound

theorem argumentsFrom_sound (whole : List Char) {offset : Nat} {text : List Char}
    {pieces : List (List Char)} {args : List (List Term)}
    (ok : argumentsFrom read whole offset text pieces = .ok args) : ∀ us ∈ args, E us := by
  induction pieces generalizing offset text args with
  | nil =>
      cases ok
      intro us mem
      cases mem
  | cons piece rest ih =>
      unfold argumentsFrom at ok
      dsimp only at ok
      split at ok
      · cases ok
      · split at ok
        · rename_i us first
          cases others : argumentsFrom read whole
              (offset + Text.byteLength (text ++ piece) + 1) [] rest with
          | error e => rw [others] at ok; cases ok
          | ok args' =>
              rw [others] at ok
              cases ok
              intro vs mem
              rcases List.mem_cons.mp mem with rfl | mem
              · exact sound _ _ _ first
              · exact ih others vs mem
        · split at ok
          · cases ok
          · exact ih ok

theorem arguments_sound {offset : Nat} {inner : List Char} {args : List (List Term)}
    (ok : arguments read offset inner = .ok args) : ∀ us ∈ args, E us :=
  argumentsFrom_sound sound inner ok

theorem roundTerm_sound {before : List Char} {offset : Nat} {inner : List Char}
    {found : List Char × Term} (ok : roundTerm read before offset inner = .ok found) :
    Bracketed E found.2 := by
  unfold roundTerm at ok
  dsimp only at ok
  split at ok
  · cases args : arguments read offset inner with
    | error e => rw [args] at ok; cases ok
    | ok args' =>
        rw [args] at ok
        cases ok
        exact .call (arguments_sound sound args)
  · cases terms : read offset inner with
    | error e => rw [terms] at ok; cases ok
    | ok us =>
        rw [terms] at ok
        cases ok
        exact .group (sound _ _ _ terms)

omit sound in
theorem selective_poolModifiers {offset : Nat} {text : List Char} {modifiers : List Modifier}
    (ok : poolModifiers offset text = .ok modifiers) : ∀ m ∈ modifiers, m.isSelective = true := by
  unfold poolModifiers at ok
  dsimp only at ok
  split at ok
  · cases ok
  · split at ok
    · cases ok
    · rename_i all
      cases ok
      simpa using all

omit sound in
theorem admitted_poolModifiers {offset : Nat} {text : List Char} {modifiers : List Modifier}
    (ok : poolModifiers offset text = .ok modifiers) : ∀ m ∈ modifiers, m.Admitted := by
  unfold poolModifiers at ok
  dsimp only at ok
  split at ok
  · cases ok
  · rename_i read
    split at ok
    · cases ok
    · cases ok
      exact Dice.Reader.admitted_of_modifiers? read

theorem curlyTerm_sound {offset : Nat} {inner : List Char} {modifiersAt : Nat}
    {text : List Char} {t : Term} (ok : curlyTerm read offset inner modifiersAt text = .ok t) :
    Bracketed E t := by
  unfold curlyTerm at ok
  split at ok
  · cases ok
  · rename_i members args
    cases mods : poolModifiers modifiersAt text with
    | error e => rw [mods] at ok; cases ok
    | ok modifiers =>
        rw [mods] at ok
        cases ok
        exact .pool (arguments_sound sound args) (selective_poolModifiers mods)
          (admitted_poolModifiers mods)

/-- What is found in brackets holds what the reader made of it. -/
theorem find_sound {b : Bracket} {before : List Char} {offset : Nat} {inner : List Char}
    {lead : List Lexeme} {found : Found} (ok : find b read before offset inner lead = .ok found) :
    Bracketed E found.term := by
  have flavored (front : List Char) {t : Term} (used : Nat) (bracketed : Bracketed E t) :
      Bracketed E (withFlavorBehind front t used lead).term := by
    unfold withFlavorBehind
    split
    · exact bracketed.withFlavor _
    · exact bracketed
  cases b with
  | round =>
      unfold find at ok
      dsimp only at ok
      cases round : roundTerm read before offset inner with
      | error e => rw [round] at ok; cases ok
      | ok pair =>
          rw [round] at ok
          cases ok
          exact flavored _ _ (roundTerm_sound sound round)
  | curly =>
      unfold find at ok
      dsimp only at ok
      cases curly : curlyTerm read offset inner (offset + Text.byteLength inner + 1)
          (modifierText lead) with
      | error e => rw [curly] at ok; cases ok
      | ok t =>
          rw [curly] at ok
          cases ok
          exact flavored _ _ (curlyTerm_sound sound curly)

end Group

/-! ## Strands -/

namespace Strand

/-- A property of the terms of a strand. -/
def All (P : Term → Prop) : Strand → Prop
  | plain _ => True
  | term _ t rest => P t ∧ rest.All P

theorem all_link {P : Term → Prop} {s : Strand} (all : s.All P) {t : Term} (holds : P t)
    {s' : Strand} (all' : s'.All P) : (s.link t s').All P := by
  induction s with
  | plain text => exact ⟨holds, all'⟩
  | term before t' rest ih => exact ⟨all.1, ih all.2⟩

theorem all_expand {P : Term → Prop} {f : List Char → Option Strand}
    (found : ∀ text s, f text = some s → s.All P) {s s' : Strand} (all : s.All P)
    (expands : s.expand f = some s') : s'.All P := by
  induction s generalizing s' with
  | plain text => exact found text s' expands
  | term before t rest ih =>
      obtain ⟨first, read, expands⟩ := Option.bind_eq_some_iff.mp expands
      obtain ⟨others, behind, rfl⟩ := Option.map_eq_some_iff.mp expands
      exact all_link (found before first read) all.1 (ih all.2 behind)

theorem all_ofOutline? {read : SubReader} {E : List Term → Prop}
    (sound : ∀ offset text us, read offset text = .ok us → E us) {b : Bracket} {used : Nat}
    {o : Outline} {s : Strand} (found : ofOutline? b read used o = some s) :
    s.All (Bracketed E) := by
  induction o generalizing used s with
  | plain text =>
      cases found
      trivial
  | broken text e => cases found
  | group before inner rest ih =>
      unfold ofOutline? at found
      split at found
      · cases found
      · obtain ⟨f, ok, found⟩ := Option.bind_eq_some_iff.mp found
        obtain ⟨s', behind, rfl⟩ := Option.map_eq_some_iff.mp found
        exact ⟨Group.find_sound sound (eq_ok_of_toOption ok), ih behind⟩

end Strand

/-! ## Links -/

namespace Link

/-- A link as formulas are read: operands are trimmed, and terms are those of groups. -/
def Sound (E : List Term → Prop) : Link → Prop
  | operator _ => True
  | operand text => Text.Trimmed text
  | term t => Bracketed E t

theorem sound_operand? (E : List Term → Prop) (text : List Char) :
    ∀ l ∈ operand? text, l.Sound E := by
  unfold operand?
  split
  · intro l mem
    cases mem
  · rename_i visible
    intro l mem
    rw [List.mem_singleton.mp mem]
    exact Text.trimmed_trim (Bool.eq_false_iff.mpr visible)

theorem sound_scan (E : List Term → Prop) (read ls : List Lexeme) :
    ∀ l ∈ scan read ls, l.Sound E := by
  induction ls generalizing read with
  | nil =>
      rw [scan_nil]
      exact sound_operand? E _
  | cons l ls ih =>
      cases cut : Cut.operator? l with
      | none =>
          rw [scan_other _ _ cut]
          exact ih _
      | some op =>
          rw [scan_operator _ _ cut]
          intro l' mem
          rcases List.mem_append.mp mem with mem | mem
          · exact sound_operand? E _ l' mem
          · rcases List.mem_cons.mp mem with rfl | mem
            · trivial
            · exact ih _ l' mem

/-- The terms of groups among the terms of links. -/
theorem mem_of_terms {expecting : Bool} {links : List Link} {t : Term}
    (mem : t ∈ terms expecting links) (nested : Strand.isNested t = true) :
    .term t ∈ links := by
  fun_induction terms expecting links with
  | case1 => cases mem
  | case2 expecting text rest negative ih | case5 expecting text rest ih =>
      rcases List.mem_cons.mp mem with rfl | mem
      · cases nested
      · simp [ih mem]
  | case3 expecting text rest positive ih =>
      rcases List.mem_cons.mp mem with rfl | mem
      · cases nested
      · rcases List.mem_cons.mp mem with rfl | mem
        · cases nested
        · simp [ih mem]
  | case4 expecting op rest other ih =>
      rcases List.mem_cons.mp mem with rfl | mem
      · cases nested
      · simp [ih mem]
  | case6 expecting t' rest ih =>
      rcases List.mem_cons.mp mem with rfl | mem
      · exact List.mem_cons_self
      · exact List.mem_cons_of_mem _ (ih mem)

/-- A property of the terms of links that fragments and operators have anyway. -/
theorem all_terms {P : Term → Prop} (fragment : ∀ text, P (.fragment text))
    (operator : ∀ op, P (.operator op)) {expecting : Bool} {links : List Link}
    (nested : ∀ t, .term t ∈ links → P t) : ∀ t ∈ terms expecting links, P t := by
  fun_induction terms expecting links with
  | case1 => exact List.forall_mem_nil _
  | case2 expecting text rest negative ih | case5 expecting text rest ih =>
      exact List.forall_mem_cons.mpr ⟨fragment _, ih fun t mem => nested t (by simp [mem])⟩
  | case3 expecting text rest positive ih =>
      exact List.forall_mem_cons.mpr ⟨operator _, List.forall_mem_cons.mpr
        ⟨fragment _, ih fun t mem => nested t (by simp [mem])⟩⟩
  | case4 expecting op rest other ih =>
      exact List.forall_mem_cons.mpr ⟨operator _, ih fun t mem => nested t (by simp [mem])⟩
  | case6 expecting t' rest ih =>
      exact List.forall_mem_cons.mpr
        ⟨nested t' List.mem_cons_self, ih fun t mem => nested t (by simp [mem])⟩

end Link

theorem Strand.sound_links {E : List Term → Prop} {s : Strand} (all : s.All (Bracketed E)) :
    ∀ l ∈ s.links, l.Sound E := by
  induction s with
  | plain text => exact Link.sound_scan E _ _
  | term before t rest ih =>
      intro l mem
      rcases List.mem_append.mp mem with mem | mem
      · exact Link.sound_scan E _ _ l mem
      · rcases List.mem_cons.mp mem with rfl | mem
        · exact all.1
        · exact ih all.2 l mem

/-! ## Settling -/

namespace Term

/-- A number, or dice as they are read: what fragments are settled as. -/
inductive Leaf : Term → Prop
  | number (value : Float) (flavor : Option String) : Leaf (.number value flavor)
  | dice {d : Dice} (admitted : d.Admitted) (flavor : Option String) : Leaf (.ofDice d flavor)

namespace Leaf

variable {t : Term}

theorem isFragment (leaf : Leaf t) : t.isFragment = false := by
  cases leaf <;> rfl

theorem isUnrolled (leaf : Leaf t) : t.isUnrolled = true := by
  cases leaf <;> rfl

theorem isNested (leaf : Leaf t) : Strand.isNested t = false := by
  cases leaf <;> rfl

end Leaf

end Term

namespace Fragment

/-- A fragment that can be classified is a number or dice. -/
theorem leaf_classify {text : String} {t : Term} (ok : classify text = .ok t) : Leaf t := by
  unfold classify at ok
  dsimp only at ok
  split at ok
  · cases ok
    exact .number _ _
  · split at ok
    · rename_i read
      cases ok
      exact .dice (Dice.admitted_of_read? read) _
    · split at ok <;> cases ok

/-- While a formula is read a fragment is left as it is, or is a number or dice. -/
theorem classifyEarly_cases (text : String) (prior next : Option Term) :
    classifyEarly text prior next = .fragment text ∨
      Leaf (classifyEarly text prior next) := by
  unfold classifyEarly
  dsimp only
  split
  · exact .inr (.number _ _)
  · split
    · rename_i read
      split
      · exact .inl rfl
      · exact .inr (.dice (Dice.admitted_of_read? read) _)
    · exact .inl rfl

end Fragment

namespace Piece

/-- What becomes of a piece when a formula is read: it stays, after a trial if it is a fragment,
or is settled. -/
theorem settleEarly_cases {prior next : Option Term} {p q : Piece}
    (settles : settleEarly prior p next = .ok q) :
    (p.term.isFragment = false ∧ q = p) ∨
      ∃ text, p.term = .fragment text ∧
        ((Fragment.isPending prior next = true ∧
            Fragment.checkPending text prior next = .ok () ∧ q = p) ∨
          (Fragment.isPending prior next = false ∧ Leaf q.term)) := by
  unfold settleEarly at settles
  split at settles
  · rename_i text fragment
    refine .inr ⟨text, fragment, ?_⟩
    split at settles
    · rename_i pending
      split at settles
      · rename_i checked
        cases settles
        exact .inl ⟨pending, checked, rfl⟩
      · cases settles
    · rename_i pending
      split at settles
      · rename_i t classified
        cases settles
        exact .inr ⟨by simpa using pending, Fragment.leaf_classify classified⟩
      · cases settles
  · rename_i other
    cases settles
    refine .inl ⟨?_, rfl⟩
    cases kind : p.term with
    | fragment text => exact absurd kind (other text)
    | _ => rfl

theorem mem_mapNeighboursFrom {α : Type} {f : Option Term → Piece → Option Term → α}
    {prior : Option Term} {ps : List Piece} {a : α} (mem : a ∈ mapNeighboursFrom f prior ps) :
    ∃ prior next, ∃ p ∈ ps, f prior p next = a := by
  induction ps generalizing prior with
  | nil => cases mem
  | cons p ps ih =>
      rcases List.mem_cons.mp mem with rfl | mem
      · exact ⟨_, _, p, List.mem_cons_self, rfl⟩
      · obtain ⟨prior', next, q, member, same⟩ := ih mem
        exact ⟨prior', next, q, List.mem_cons_of_mem p member, same⟩

theorem exists_mapNeighboursFrom {α : Type} (f : Option Term → Piece → Option Term → α)
    (prior : Option Term) {ps : List Piece} {p : Piece} (mem : p ∈ ps) :
    ∃ prior' next, f prior' p next ∈ mapNeighboursFrom f prior ps := by
  induction ps generalizing prior with
  | nil => cases mem
  | cons q ps ih =>
      rcases List.mem_cons.1 mem with rfl | mem
      · exact ⟨_, _, List.mem_cons_self⟩
      · obtain ⟨prior', next, member⟩ := ih (some q.term) mem
        exact ⟨prior', next, List.mem_cons_of_mem _ member⟩

/-- A property of terms that numbers and dice have, and fragments if all that they are merged
from does. -/
structure Lasting (P : Term → Prop) : Prop where
  leaf {t : Term} (leaf : Leaf t) : P t
  merged {a b : Term} {text : String} (left : P a) (right : P b)
    (merges : merged? a b = some text) : P (.fragment text)

/-- A property of the terms of pieces. -/
def All (P : Term → Prop) (ps : List Piece) : Prop := ∀ p ∈ ps, P p.term

theorem all_ofTerms {P : Term → Prop} {ts : List Term} (all : ∀ t ∈ ts, P t) :
    All P (ofTerms ts) := by
  intro p mem
  obtain ⟨t, member, rfl⟩ := List.mem_map.1 mem
  exact all t member

section Lasting

variable {P : Term → Prop} {ps : List Piece}

theorem all_mapNeighbours {f : Option Term → Piece → Option Term → Piece} (all : All P ps)
    (keeps : ∀ prior p next, P p.term → P (f prior p next).term) :
    All P (mapNeighbours f ps) := by
  intro q mem
  obtain ⟨prior, next, p, member, rfl⟩ := mem_mapNeighboursFrom mem
  exact keeps prior p next (all p member)

theorem all_classifyEarly (lasting : Lasting P) (all : All P ps) : All P (classifyEarly ps) := by
  refine all_mapNeighbours all fun prior p next holds => ?_
  split
  · rename_i text fragment
    rw [fragment] at holds
    dsimp only
    rcases Fragment.classifyEarly_cases text prior next with same | leaf
    · rwa [same]
    · exact lasting.leaf leaf
  · exact holds

theorem all_foldConstants (lasting : Lasting P) (all : All P ps) : All P (foldConstants ps) := by
  refine all_mapNeighbours all fun prior p next holds => ?_
  split
  · split
    · exact lasting.leaf (.number _ _)
    · exact holds
  · exact holds

theorem all_mergeFrom (lasting : Lasting P) {last : Piece} (first : P last.term) (all : All P ps) :
    All P (mergeFrom last ps) := by
  induction ps generalizing last with
  | nil => exact List.forall_mem_singleton.mpr first
  | cons p ps ih =>
      obtain ⟨next, others⟩ := List.forall_mem_cons.mp all
      rw [mergeFrom]
      split
      · rename_i text merges
        exact ih (lasting.merged first next merges) others
      · exact List.forall_mem_cons.mpr ⟨first, ih next others⟩

theorem all_merge (lasting : Lasting P) (all : All P ps) : All P (merge ps) := by
  cases ps with
  | nil => exact List.forall_mem_nil _
  | cons p ps =>
      obtain ⟨first, others⟩ := List.forall_mem_cons.mp all
      exact all_mergeFrom lasting first others

/-- What lasts is there when the fragments of a formula are settled. -/
theorem all_simplified (lasting : Lasting P) {ts : List Term} (all : ∀ t ∈ ts, P t) :
    All P (merge (foldConstants (classifyEarly (ofTerms ts)))) := by
  refine all_merge lasting (all_foldConstants lasting (all_classifyEarly lasting ?_))
  intro p mem
  obtain ⟨t, member, rfl⟩ := List.mem_map.mp mem
  exact all t member

end Lasting

/-- Results that could be collected are those of every part. -/
theorem eq_of_collect {α : Type} {results : List (Except FormatError α)} {as : List α}
    (ok : results.mapM id = .ok as) : results = as.map .ok := by
  have each := mapM_ok_iff.mp ok
  clear ok
  induction each with
  | nil => rfl
  | cons first others ih => exact congrArg₂ List.cons first ih

/-- How terms came to be settled. -/
theorem ok_of_settle? {ts ts' : List Term} (settles : settle? ts = some ts') :
    ∃ ps, (mapNeighbours settleEarly
      (merge (foldConstants (classifyEarly (ofTerms ts))))).mapM id = .ok ps ∧ terms ps = ts' := by
  have ok := eq_ok_of_toOption settles
  cases simplified : simplifyEarly (classifyEarly (ofTerms ts)) with
  | error e => rw [simplified] at ok; cases ok
  | ok ps =>
      rw [simplified] at ok
      cases ok
      exact ⟨ps, simplified, rfl⟩

/-- What lasts is there once the terms of a formula are settled. -/
theorem all_settle? {P : Term → Prop} (lasting : Lasting P) {ts ts' : List Term}
    (all : ∀ t ∈ ts, P t) (settles : settle? ts = some ts') : ∀ t ∈ ts', P t := by
  obtain ⟨ps, ok, rfl⟩ := ok_of_settle? settles
  intro t mem
  obtain ⟨q, member, rfl⟩ := List.mem_map.mp mem
  have collected : Except.ok q ∈ mapNeighbours settleEarly
      (merge (foldConstants (classifyEarly (ofTerms ts)))) := by
    rw [eq_of_collect ok]
    exact List.mem_map_of_mem member
  obtain ⟨prior, next, p, origin, settled⟩ := mem_mapNeighboursFrom collected
  have holds : P p.term := all_simplified lasting all p origin
  rcases settleEarly_cases settled with ⟨-, rfl⟩ | ⟨text, -, ⟨-, -, rfl⟩ | ⟨-, leaf⟩⟩
  · exact holds
  · exact holds
  · exact lasting.leaf leaf

/-- The groups among terms are there before the terms are settled. -/
theorem mem_of_settle? {ts ts' : List Term} (settles : settle? ts = some ts') {t : Term}
    (mem : t ∈ ts') (nested : Strand.isNested t = true) : t ∈ ts := by
  have groups : Lasting fun t => Strand.isNested t = true → t ∈ ts := by
    refine ⟨fun leaf nested => ?_, fun _ _ _ nested => ?_⟩
    · rw [leaf.isNested] at nested
      cases nested
    · cases nested
  exact all_settle? groups (fun t mem _ => mem) settles t mem nested

end Piece

/-! ## Reading -/

namespace Formula

theorem sound_links? {read : SubReader} {E : List Term → Prop}
    (sound : ∀ offset text us, read offset text = .ok us → E us) {text : List Char}
    {links : List Link} (found : links? read text = some links) : ∀ l ∈ links, l.Sound E := by
  obtain ⟨s, round, found⟩ := Option.bind_eq_some_iff.mp found
  obtain ⟨s', curly, rfl⟩ := Option.map_eq_some_iff.mp found
  refine Strand.sound_links (Strand.all_expand (fun text s read => ?_) ?_ curly)
  · exact Strand.all_ofOutline? sound read
  · exact Strand.all_ofOutline? sound round

/-- A property of formulas that holds wherever the links of a text are settled holds of what
is read, everywhere. -/
theorem everywhere_reads? {L : List Term → Prop}
    (settled : ∀ (depth : Nat) (text : List Char) (links : List Link) (ts : List Term),
      links? (reader depth) text = some links → (∀ l ∈ links, l.Sound (Everywhere L)) →
        Piece.settle? (Link.terms true links) = some ts → L ts)
    {depth : Nat} {text : List Char} {ts : List Term} (reads : reads? depth text = some ts) :
    Everywhere L ts := by
  induction depth generalizing text ts with
  | zero => cases reads
  | succ depth ih =>
      rw [reads?_succ] at reads
      obtain ⟨links, found, settles⟩ := Option.bind_eq_some_iff.mp reads
      have sound : ∀ l ∈ links, l.Sound (Everywhere L) := by
        refine sound_links? (fun offset text us ok => ?_) found
        have reads : reads? depth text = some us := by
          rw [reads?, steady_reader depth 0 offset, ok]
          rfl
        exact ih reads
      refine .intro (settled depth text links ts found sound settles) fun t mem us member => ?_
      cases nested : Strand.isNested t with
      | true =>
          have link := Link.mem_of_terms (Piece.mem_of_settle? settles mem nested) nested
          exact (sound _ link).inner us member
      | false =>
          rw [inner_of_isNested nested] at member
          cases member

/-- **What holds of a formula whenever its links are settled holds of every formula that is
read, and of all formulas in it.** -/
theorem everywhere_read {L : List Term → Prop}
    (settled : ∀ (links : List Link) (ts : List Term), (∀ l ∈ links, l.Sound (Everywhere L)) →
      Piece.settle? (Link.terms true links) = some ts → L ts)
    {formula : String} {ts : List Term} (ok : read formula = .ok ts) : Everywhere L ts := by
  have reads : reads? (formula.toList.length + 1) formula.toList = some ts :=
    congrArg Except.toOption ok
  exact everywhere_reads? (fun _ _ links us _ => settled links us) reads

/-- What lasts, and holds of operators and of the terms of groups, holds of every term in a
formula that is read. -/
theorem all_read {P : Term → Prop} (lasting : Piece.Lasting P) (fragment : ∀ text, P (.fragment text))
    (operator : ∀ op, P (.operator op)) (nested : ∀ {E t}, Bracketed E t → P t)
    {formula : String} {ts : List Term} (ok : read formula = .ok ts) :
    Everywhere (fun us => ∀ t ∈ us, P t) ts := by
  refine everywhere_read (fun links us sound settles => ?_) ok
  have all : ∀ t ∈ Link.terms true links, P t :=
    Link.all_terms fragment operator fun t mem => nested (sound _ mem)
  exact Piece.all_settle? lasting all settles

/-- A formula that was read is still to be evaluated: no dice in it are rolled, and no pools
scored. -/
theorem unrolled_read {formula : String} {ts : List Term} (ok : read formula = .ok ts) :
    Everywhere Unrolled ts := by
  refine all_read ⟨Leaf.isUnrolled, fun _ _ _ => rfl⟩ (fun _ => rfl) (fun _ => rfl) ?_ ok
  intro E t bracketed
  cases bracketed <;> rfl

end Formula

end DiceFormula
