/-
# DiceFormula.Proofs.Context -- references are replaced where they stand

A scan for references knows of what it has read no more than a path that it may be in the middle
of.  Where no path goes on, it can be cut: what stands behind is scanned as if nothing stood in
front (`substituteFrom_append`).  Inside a path it goes on to its end (`substituteFrom_path`).

So a formula is replaced piece by piece (`substitute_local`).  Text without references stays, a
reference becomes what it refers to or the fallback, and what is put in its place is not looked at
again, even if it holds references itself.
-/
import DiceFormula.Context
import DiceFormula.Proofs.Text.Basic

namespace DiceFormula

set_option autoImplicit false

open Text (Stops)

namespace Substituted

theorem ext_append {s t : Substituted} (text : s.text = t.text) (missing : s.missing = t.missing) :
    s = t := by
  cases s
  cases t
  exact congrArg₂ _ text missing

theorem append_assoc (s t u : Substituted) : (s.append t).append u = s.append (t.append u) :=
  ext_append (List.append_assoc _ _ _) (List.append_assoc _ _ _)

theorem append_nothing (s : Substituted) : s.append ⟨[], []⟩ = s :=
  ext_append (List.append_nil _) (List.append_nil _)

theorem cons_append (c : Char) (s t : Substituted) : (s.append t).cons c = (s.cons c).append t :=
  rfl

end Substituted

namespace Context

open Substituted

variable (c : Context) (fallback : Option String)

/-! ## Scanning -/

/-- **A scan can be cut where no path goes on.** -/
theorem substituteFrom_append (state : Option (List Char)) (s : List Char) {t : List Char}
    (stops : Stops isPathChar t) :
    c.substituteFrom fallback state (s ++ t) =
      (c.substituteFrom fallback state s).append (c.substituteFrom fallback none t) := by
  induction s generalizing state with
  | nil =>
      cases state with
      | none => rfl
      | some path =>
          cases t with
          | nil => exact (append_nothing _).symm
          | cons d t =>
              have ends : ¬ isPathChar d = true := by rw [stops d rfl]; exact Bool.false_ne_true
              show (if isPathChar d = true then _ else _) = _
              rw [if_neg ends]
              rfl
  | cons d s ih =>
      cases state with
      | none =>
          rw [List.cons_append, substituteFrom, substituteFrom]
          split
          · exact ih (some [])
          · rw [ih none, cons_append]
      | some path =>
          rw [List.cons_append, substituteFrom, substituteFrom]
          split
          · exact ih (some (d :: path))
          · split
            · rw [ih (some []), append_assoc]
            · rw [ih none, cons_append, append_assoc]

/-- A path is read to its end. -/
theorem substituteFrom_path (read : List Char) {path : List Char}
    (all : ∀ d ∈ path, isPathChar d = true) :
    c.substituteFrom fallback (some read) path =
      c.resolveRead fallback (path.reverse ++ read) := by
  induction path generalizing read with
  | nil => rfl
  | cons d path ih =>
      obtain ⟨first, others⟩ := List.forall_mem_cons.1 all
      rw [substituteFrom, if_pos first, ih (d :: read) others, List.reverse_cons, List.append_assoc,
        List.singleton_append]

/-- Text without references stays as it is. -/
theorem substituteFrom_plain {s : List Char} (plain : '@' ∉ s) :
    c.substituteFrom fallback none s = ⟨s, []⟩ := by
  induction s with
  | nil => rfl
  | cons d s ih =>
      obtain ⟨first, others⟩ := not_or.1 (List.mem_cons.not.1 plain)
      rw [substituteFrom, if_neg (Ne.symm first), ih others]
      rfl

/-- A reference is resolved as a whole. -/
theorem substituteFrom_reference {path : List Char} (some_ : path ≠ [])
    (all : ∀ d ∈ path, isPathChar d = true) :
    c.substituteFrom fallback none ('@' :: path) = c.resolve fallback path := by
  have nonempty : path.reverse ≠ [] := List.reverse_ne_nil_iff.2 some_
  rw [substituteFrom, if_pos rfl, substituteFrom_path c fallback [] all, List.append_nil,
    resolveRead.eq_2 _ _ _ nonempty, List.reverse_reverse]

/-! ## Formulas -/

/-- The text is a path. -/
structure IsPath (path : String) : Prop where
  nonempty : path.toList ≠ []
  each : ∀ d ∈ path.toList, isPathChar d = true

/-- What a reference becomes: the text at its path, or else the fallback or the reference as it
is written, which is then told as missing. -/
def replacement (path : String) : Substituted :=
  match c.lookup? path with
  | some text => ⟨text.toList, []⟩
  | none => ⟨(fallback.getD ("@" ++ path)).toList, [⟨path, fallback⟩]⟩

theorem resolve_eq (path : String) : c.resolve fallback path.toList = c.replacement fallback path := by
  rw [resolve, replacement, String.ofList_toList]
  cases c.lookup? path with
  | some text => rfl
  | none =>
      cases fallback with
      | some other => rfl
      | none => exact congrArg (Substituted.mk · _) (String.toList_append (s := "@")).symm

theorem substitute_append (a : String) {b : String} (stops : Stops isPathChar b.toList) :
    c.substitute fallback (a ++ b) = (c.substitute fallback a).append (c.substitute fallback b) := by
  rw [substitute, String.toList_append]
  exact substituteFrom_append c fallback none a.toList stops

theorem substitute_reference {path : String} (isPath : IsPath path) :
    c.substitute fallback ("@" ++ path) = c.replacement fallback path := by
  rw [substitute, String.toList_append, ← resolve_eq]
  exact substituteFrom_reference c fallback isPath.nonempty isPath.each

/-- No path goes on with an `@`. -/
theorem stops_reference (path b : String) : Stops isPathChar ("@" ++ path ++ b).toList := by
  rw [String.toList_append, String.toList_append]
  exact Text.stops_cons rfl

/-- **References are replaced where they stand, and once.**  A formula that is cut where no path
goes on is replaced part by part, and so are the references that are missing told.  A reference
becomes the text at its path; if there is none it becomes the fallback, or stays if there is no
fallback either, and is told as missing once.  What is put in the place of a reference is in the
result as it is, between what comes of the text in front and of the text behind. -/
theorem substitute_local :
    (∀ a b : String, Stops isPathChar b.toList →
      c.substitute fallback (a ++ b) =
        (c.substitute fallback a).append (c.substitute fallback b)) ∧
    (∀ path : String, IsPath path →
      (∀ text, c.lookup? path = some text →
        c.substitute fallback ("@" ++ path) = ⟨text.toList, []⟩) ∧
      (c.lookup? path = none →
        c.substitute fallback ("@" ++ path) =
          ⟨(fallback.getD ("@" ++ path)).toList, [⟨path, fallback⟩]⟩)) ∧
    (∀ a path b : String, IsPath path → Stops isPathChar b.toList →
      c.substitute fallback (a ++ ("@" ++ path ++ b)) =
        (c.substitute fallback a).append
          ((c.replacement fallback path).append (c.substitute fallback b))) ∧
    ∀ a : String, '@' ∉ a.toList → c.substitute fallback a = ⟨a.toList, []⟩ := by
  refine ⟨fun a b => substitute_append c fallback a, fun path isPath => ⟨fun text found => ?_,
    fun missing => ?_⟩, fun a path b isPath stops => ?_, fun a => substituteFrom_plain c fallback⟩
  · rw [substitute_reference c fallback isPath, replacement, found]
  · rw [substitute_reference c fallback isPath, replacement, missing]
  · rw [substitute_append c fallback a (stops_reference path b),
      substitute_append c fallback ("@" ++ path) stops, substitute_reference c fallback isPath]

/-- A part that looks like a reference itself stays, behind an `@` that is none and in front of a
reference that is missing. -/
theorem substitute_local_nested :
    Context.substitute ⟨.object [("hit", .string "@die"), ("die", .string "2d6")]⟩ none
        ("@" ++ ("@" ++ "hit" ++ "+@luck*@die")) =
      ⟨"@@die+@luck*2d6".toList, [⟨"luck", none⟩]⟩ := by
  rw [(substitute_local _ none).2.2.1 "@" "hit" "+@luck*@die"
    ⟨by simp, by simp [isPathChar]⟩ (by simp [Stops, isPathChar])]
  decide +kernel

end Context

end DiceFormula
