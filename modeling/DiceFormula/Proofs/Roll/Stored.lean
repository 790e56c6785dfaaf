/-
# DiceFormula.Proofs.Roll.Stored -- what was evaluated can be stored

Whatever comes of a formula that was read can be stored: the terms with all terms inside them, the
total, and the dice that were logged (`yields_evaluate`).  It takes a roller whose faces fit in 64
bits, and no more.

Two invariants carry this.  Numbers of dice, modifiers and members fit from the start, and every
step of an evaluation leaves such (`Term.Kept`).  Doubles may become infinite on the way, but the
terms of a formula have a total only if all of them are finite (`fits_of_total`).  So what a pool
or a roll keeps of a formula is finite, as it has a total; and what has none is not kept.
-/
import DiceFormula.Proofs.Arithmetic.Ends
import DiceFormula.Proofs.Dice.Stored
import DiceFormula.Proofs.Formula.Json
import DiceFormula.Proofs.Roll.Arithmetic
import DiceFormula.Proofs.Roll.Complete

namespace DiceFormula

set_option autoImplicit false

open Term

/-! ## Finite numbers -/

namespace Arithmetic

theorem total_finite {items : List Item} {x : Float} (ok : Item.total items = .ok x) :
    x.isFinite = true := by
  obtain ⟨_, _, _, _, _, _, _, calculated⟩ := derives_of_total ok
  exact calculate_finite calculated

end Arithmetic

namespace Term

/-- The numbers of the term itself can be stored, unless it is a double. -/
def Whole : Term → Prop
  | number _ _ => True
  | t => t.Fits

/-- The term can be stored with all that is in it, unless it is a double. -/
def Kept (t : Term) : Prop := t.Whole ∧ ∀ us ∈ t.inner, Everywhere Fitting us

theorem kept_number (value : Float) (flavor : Option String) : (number value flavor).Kept :=
  ⟨trivial, List.forall_mem_nil _⟩

theorem kept_dice {rolled : Rolled} (fits : rolled.Fits) (evaluated : Bool)
    (flavor : Option String) : (dice rolled evaluated flavor).Kept :=
  ⟨fits, List.forall_mem_nil _⟩

/-- **Terms with a total can be stored if their dice and pools can.** -/
theorem fits_of_total {ts : List Term} {total : Float} (ok : totalAll ts = .ok total)
    (kept : ∀ t ∈ ts, t.Kept) : Everywhere Fitting ts := by
  refine .intro (fun t mem => ?_) fun t mem => (kept t mem).2
  have whole := (kept t mem).1
  cases t with
  | number value flavor => exact Arithmetic.finite_of_total ok (List.mem_map_of_mem mem)
  | _ => exact whole

theorem Leaf.kept {t : Term} (leaf : Leaf t) : t.Kept := by
  cases leaf with
  | number value flavor => exact kept_number value flavor
  | dice admitted flavor => exact kept_dice ⟨List.forall_mem_nil _, admitted.fits⟩ false flavor

end Term

/-- The numbers of dice and modifiers in a formula that was read can be stored. -/
theorem Formula.whole_read {formula : String} {ts : List Term} (ok : read formula = .ok ts) :
    Everywhere (fun us => ∀ t ∈ us, t.Whole) ts := by
  refine all_read ⟨fun leaf => leaf.kept.1, fun _ _ _ => trivial⟩ (fun _ => trivial)
    (fun _ => trivial) ?_ ok
  intro E t bracketed
  cases bracketed with
  | pool inside selective admitted =>
      exact ⟨fun m mem => (admitted m mem).fits, List.forall_mem_nil _⟩
  | call => trivial
  | group => trivial

theorem Piece.lasting_kept : Lasting Kept :=
  ⟨Leaf.kept, fun _ _ _ => ⟨trivial, List.forall_mem_nil _⟩⟩

/-! ## Rollers -/

theorem Roller.fits_tape {faces : List Int} (fit : ∀ face ∈ faces, FitsValue face) :
    (tape faces).Fits := by
  intro n sides _
  show FitsValue (faces.toArray.getD n 0)
  rw [Array.getD_eq_getD_getElem?, List.getElem?_toArray]
  cases face : faces[n]? with
  | none => exact ⟨by decide, by decide⟩
  | some f => exact fit f (List.mem_of_getElem? face)

/-- Rolls can be stored in every mode. -/
theorem RollMode.fits_roller (mode : RollMode) (seed : Nat) : (mode.roller seed).Fits := by
  intro n sides small
  have least : Limit.leastValue ≤ 0 := by decide
  have most : Limit.mostCount ≤ Limit.mostValue := by decide
  cases mode with
  | random =>
      show FitsValue (if sides = 0 then 0 else _)
      split
      · exact ⟨by decide, by decide⟩
      · rename_i sided
        have face := Nat.mod_lt (Roller.scramble
          (UInt64.ofNat seed + UInt64.ofNat (n + 1) * 0x9E3779B97F4A7C15)).toNat
          (Nat.pos_of_ne_zero sided)
        constructor <;> omega
  | minimize =>
      show FitsValue (min sides 1 : Nat)
      constructor <;> omega
  | maximize =>
      show FitsValue sides
      constructor <;> omega

/-! ## Sessions -/

/-- All faces and all dice of the log fit in 64 bits. -/
structure Session.Fits (s : Session) : Prop where
  faces : s.roller.Fits
  log : ∀ rolled ∈ s.log, rolled.Fits

namespace Evaluation

theorem yields_ofFormat {α : Type} {Q : α → Prop} {x : Except FormatError α}
    (holds : ∀ a, x = .ok a → Q a) : Yields Session.Fits Q (ofFormat x) := by
  cases x with
  | error e => exact yields_throw _
  | ok a => exact yields_pure (holds a rfl)

theorem yields_ofCalc {α : Type} {Q : α → Prop} {x : Except CalcError α}
    (holds : ∀ a, x = .ok a → Q a) : Yields Session.Fits Q (ofCalc x) := by
  cases x with
  | error e => exact yields_throw _
  | ok a => exact yields_pure (holds a rfl)

theorem yields_rolling {α : Type} {Q : α → Prop} {x : Rolling α}
    (yields : Yields Roller.Fits Q x) (term : String) : Yields Session.Fits Q (rolling term x) := by
  intro s fits
  obtain ⟨faces, holds⟩ := yields s.roller fits.faces
  rw [run_rolling]
  refine ⟨⟨faces, fits.log⟩, fun a ok => ?_⟩
  revert holds ok
  rcases (x.run.run s.roller).1 with (e | f) | b
  · exact fun _ ok => by cases ok
  · exact fun _ ok => by cases ok
  · intro holds ok
    cases ok
    exact holds a rfl

/-! ## Dice -/

theorem yields_rollDice {t : Term} (kept : t.Kept) : Yields Session.Fits Kept (rollDice t) := by
  unfold rollDice
  split
  · rename_i unrolled flavor
    have dice : unrolled.dice.Fits := kept.1.dice
    refine yields_bind (yields_rolling (Dice.yields_roll dice true) _) fun rolled fits => ?_
    refine yields_bind (P := fun _ => True) (fun s kept => ⟨⟨kept.faces, ?_⟩, fun _ _ => trivial⟩)
      fun _ _ => yields_pure (kept_dice fits true flavor)
    exact List.forall_mem_append.2 ⟨kept.log, List.forall_mem_singleton.2 fits⟩
  · exact yields_pure kept

theorem yields_rollAll {ts : List Term} (kept : ∀ t ∈ ts, t.Kept) :
    Yields Session.Fits (fun ts' => ∀ t ∈ ts', t.Kept) (rollAll ts) := by
  induction ts with
  | nil => exact yields_pure (List.forall_mem_nil _)
  | cons t rest ih =>
      obtain ⟨first, others⟩ := List.forall_mem_cons.1 kept
      exact yields_bind (yields_rollDice first) fun t' first => yields_bind (ih others)
        fun rest' others => yields_pure (List.forall_mem_cons.2 ⟨first, others⟩)

/-- A formula and its total that can be stored. -/
def Storable (result : List Term × Float) : Prop :=
  Everywhere Fitting result.1 ∧ result.2.isFinite = true

theorem yields_finish {ts : List Term} (kept : ∀ t ∈ ts, t.Kept) :
    Yields Session.Fits Storable (finish ts) := by
  have kept (ps : List Piece) (simplified : Piece.simplifyLate (Piece.ofTerms ts) = .ok ps) :
      ∀ t ∈ Piece.terms ps, t.Kept :=
    List.forall_mem_map.2 fun p mem =>
      (Piece.settled_simplifyLate Piece.lasting_kept (Piece.all_ofTerms kept) simplified p mem).1
  refine yields_bind (yields_ofFormat kept) fun ps kept => ?_
  refine yields_bind (yields_rollAll kept) fun ts' kept' => ?_
  -- only now are the numbers known to be finite
  exact yields_bind (yields_ofCalc fun total ok =>
    show Storable (ts', total) from ⟨fits_of_total ok kept', Arithmetic.total_finite ok⟩)
    fun total storable => yields_pure storable

/-! ## Groups -/

theorem fits_poolDie (total : Float) : (poolDie total).Fits := by
  refine Die.fits_fresh ?_
  unfold clampWhole FitsValue
  exact ⟨Int.le_max_left _ _, Int.max_le.2 ⟨by decide, Int.min_le_right _ _⟩⟩

theorem yields_applyPool {modifiers : List Modifier} (fits : ∀ m ∈ modifiers, m.Fits)
    {results : List Die} (all : Die.AllFit results) :
    Yields Session.Fits Die.AllFit (applyPool modifiers results) := by
  induction modifiers generalizing results with
  | nil => exact yields_pure all
  | cons m rest ih =>
      obtain ⟨first, others⟩ := List.forall_mem_cons.1 fits
      exact yields_bind (yields_rolling (Modifier.yields_apply first all (Nat.zero_le _)) _)
        fun results' all' => ih others all'

theorem yields_evaluateLists {args : List (List Term)}
    (within : ∀ us ∈ args, Yields Session.Fits (fun ts => ∀ t ∈ ts, t.Kept) (resolveAll us)) :
    Yields Session.Fits (fun results => ∀ result ∈ results, Storable result)
      (evaluateLists args) := by
  induction args with
  | nil =>
      rw [evaluateLists]
      exact yields_pure (List.forall_mem_nil _)
  | cons us rest ih =>
      obtain ⟨first, others⟩ := List.forall_mem_cons.1 within
      rw [evaluateLists]
      exact yields_bind first fun ts kept => yields_bind (yields_finish kept)
        fun result storable => yields_bind (ih others)
          fun results all => yields_pure (List.forall_mem_cons.2 ⟨storable, all⟩)

theorem yields_resolve {t : Term} (whole : t.Whole) (unrolled : t.isUnrolled = true)
    (within : ∀ us ∈ t.inner, Yields Session.Fits (fun ts => ∀ t ∈ ts, t.Kept) (resolveAll us)) :
    Yields Session.Fits Kept (resolve t) := by
  cases t with
  | group us flavor =>
      rw [resolve]
      exact yields_bind (within us List.mem_cons_self) fun ts kept =>
        yields_bind (yields_finish kept) fun _ _ => yields_pure (kept_number _ flavor)
  | call f args flavor =>
      rw [resolve]
      exact yields_bind (yields_evaluateLists within) fun results _ =>
        yields_bind (P := fun _ => True) (yields_ofCalc fun _ _ => trivial) fun total _ =>
          yields_pure (kept_number total flavor)
  | pool members modifiers results evaluated flavor =>
      cases evaluated with
      | true => cases unrolled
      | false =>
          rw [resolve]
          refine yields_bind (yields_evaluateLists within) fun results storable => ?_
          refine yields_bind (yields_applyPool whole.1 ?_) fun dice all => yields_pure ?_
          · exact List.forall_mem_map.2 fun result _ => fits_poolDie result.2
          · exact ⟨⟨whole.1, all⟩, List.forall_mem_map.2 fun result mem => (storable result mem).1⟩
  | number | operator | dice | fragment =>
      rw [resolve_alone rfl]
      exact yields_pure ⟨whole, List.forall_mem_nil _⟩

theorem yields_resolveAll {ts : List Term}
    (known : Everywhere (fun us => (∀ t ∈ us, t.Whole) ∧ Unrolled us) ts) :
    Yields Session.Fits (fun ts' => ∀ t ∈ ts', t.Kept) (resolveAll ts) := by
  induction known with
  | @intro ts here inside ih =>
      obtain ⟨whole, unrolled⟩ := here
      clear inside
      -- `ih` speaks of the formulas in the terms; the terms themselves are taken one by one
      induction ts with
      | nil =>
          rw [resolveAll]
          exact yields_pure (List.forall_mem_nil _)
      | cons t rest others =>
          obtain ⟨wholeFirst, wholeRest⟩ := List.forall_mem_cons.1 whole
          obtain ⟨unrolledFirst, unrolledRest⟩ := List.forall_mem_cons.1 unrolled
          obtain ⟨ihFirst, ihRest⟩ := List.forall_mem_cons.1 ih
          rw [resolveAll]
          exact yields_bind (yields_resolve wholeFirst unrolledFirst ihFirst) fun t' first =>
            yields_bind (others ihRest wholeRest unrolledRest) fun rest' behind =>
              yields_pure (List.forall_mem_cons.2 ⟨first, behind⟩)

/-- **Whatever a formula that was read comes to can be stored.** -/
theorem yields_evaluate {formula : String} {ts : List Term} (read : Formula.read formula = .ok ts) :
    Yields Session.Fits Storable (evaluate ts) :=
  yields_bind (yields_resolveAll ((Formula.whole_read read).and (Formula.unrolled_read read)))
    fun _ kept => yields_finish kept

end Evaluation

/-! ## Rolls -/

namespace Roll

/-- All that was evaluated can be stored. -/
structure Fits (r : Roll) : Prop where
  terms : Everywhere Fitting r.terms
  dice : ∀ rolled ∈ r.dice, rolled.Fits
  total : ∀ total, r.total = some total → total.isFinite = true

/-- **A roll that was evaluated can be stored.** -/
theorem fits_evaluate {formula : String} {roll roll' : Roll} {roller roller' : Roller}
    {total : Float} (read : Formula.read formula = .ok roll.terms)
    (ok : roll.evaluate roller = (.ok total, roll', roller')) (faces : roller.Fits) :
    roll'.Fits := by
  obtain ⟨ts, s, evaluates, rfl, rfl⟩ := evaluate_ok ok
  have fresh : Session.Fits ⟨roller, []⟩ := ⟨faces, List.forall_mem_nil _⟩
  have yields := Evaluation.yields_evaluate read _ fresh
  rw [evaluates] at yields
  obtain ⟨session, holds⟩ := yields
  obtain ⟨terms, finite⟩ := holds (ts, total) rfl
  exact ⟨terms, session.log, fun x same => Option.some.inj same ▸ finite⟩

end Roll

end DiceFormula
