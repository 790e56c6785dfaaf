/-
# DiceFormula.Proofs.Roll.Rerolls -- rerolling the dice of an outcome

A call to reroll a die comes out in one of four ways (`run_reroll`).  An amended outcome ignores
it, whatever the position.  A position where no kept die is, is refused.  Otherwise one die is
drawn and the outcome is amended, or none is left to draw, which is a fault.

`answers` are the calls that are made one after the other, up to a fault.  Until one of them is
applied the outcome stays as it is, and after it too (`Once`); so at most one is
(`answers_once`).  The number of successes is patched when a die is replaced, and it is what
counting the dice again would give (`rerolled_recounts`), unless they are more than can be counted
(`ofRoll_uncounted`).
-/
import DiceFormula.Proofs.Dice.Doubled
import DiceFormula.Proofs.Roll.Alone
import DiceFormula.Roll.Check

namespace DiceFormula

set_option autoImplicit false

namespace Die

/-- Whether the die is a success that counts. -/
def isCounted (d : Die) : Bool := d.isKept && d.isSuccess

theorem countP_isCounted_le (dice : List Die) : dice.countP isCounted ≤ dice.countP isKept :=
  List.countP_mono_left fun _ _ counted => (Bool.and_eq_true_iff.1 counted).1

end Die

namespace RollOutcome

/-! ## One call -/

/-- The modifier that is named as the cause when a die is rerolled. -/
def marker (old : Die) : Modifier := .reroll ⟨.equal, old.value⟩ false

/-- The die as it stays behind. -/
def retired (old : Die) : Die := { old with droppedBy := some (marker old) }

/-- The die that takes its place, judged by the condition of the outcome. -/
def successor (o : RollOutcome) (old : Die) (face : Int) : Die :=
  (Die.extra (marker old) face).score (o.condition.check face)

/-- The outcome after a die was rerolled. -/
def amend (o : RollOutcome) (index : Nat) (old : Die) (face : Int) : RollOutcome :=
  { o with
    dice := replaceAt index (retired old) (o.successor old face) o.dice
    successCount := recount o.successCount old (o.successor old face)
    state := .amended }

variable {o : RollOutcome} {index : Nat} {old : Die} {roller : Roller}

@[simp] theorem isKept_retired (old : Die) : (retired old).isKept = false := rfl

@[simp] theorem isDropped_retired (old : Die) : (retired old).isDropped = true := rfl

@[simp] theorem isCounted_retired (old : Die) : (retired old).isCounted = false := rfl

@[simp] theorem isKept_successor (o : RollOutcome) (old : Die) (face : Int) :
    (o.successor old face).isKept = true := rfl

@[simp] theorem isDropped_successor (o : RollOutcome) (old : Die) (face : Int) :
    (o.successor old face).isDropped = false := rfl

@[simp] theorem isCounted_successor (o : RollOutcome) (old : Die) (face : Int) :
    (o.successor old face).isCounted = (o.successor old face).isSuccess := rfl

@[simp] theorem state_amend (o : RollOutcome) (index : Nat) (old : Die) (face : Int) :
    (o.amend index old face).state = .amended := rfl

@[simp] theorem successCount_amend (o : RollOutcome) (index : Nat) (old : Die) (face : Int) :
    (o.amend index old face).successCount = recount o.successCount old (o.successor old face) :=
  rfl

theorem keptDie?_eq_some :
    o.keptDie? index = some old ↔ o.dice[index]? = some old ∧ old.isKept = true := by
  rw [keptDie?, Option.filter_eq_some_iff]

/-- The ways in which a call comes out. -/
inductive Comes (o : RollOutcome) (index : Nat) (roller : Roller) :
    Except RollFailure (Except StateError (Reroll × RollOutcome)) × Roller → Prop
  | ignored (amended : o.state = .amended) :
      Comes o index roller (.ok (.ok (.ignored, o)), roller)
  | refused (presented : o.state = .presented) (missing : o.keptDie? index = none) :
      Comes o index roller (.ok (.error (.invalidDie index)), roller)
  | spent {old : Die} (presented : o.state = .presented) (kept : o.keptDie? index = some old)
      (empty : roller.supply = 0) : Comes o index roller (.error (.fault .diceSpent), roller)
  | applied {old : Die} (presented : o.state = .presented) (kept : o.keptDie? index = some old)
      (supplied : 0 < roller.supply) :
      Comes o index roller
        (.ok (.ok (.applied (retired old) (o.successor old (roller.face roller.drawn o.sides)),
          o.amend index old (roller.face roller.drawn o.sides))), roller.after 1)

theorem rerollDie_eq (kept : old.isKept = true) :
    o.rerollDie index old = Rolling.draw o.sides >>= fun drawn =>
      Rolling.ofFault (drawn.add (marker old)) >>= fun added =>
        pure (.applied (retired old) (added.score (o.condition.check added.value)),
          { o with
            dice := replaceAt index (retired old)
              (added.score (o.condition.check added.value)) o.dice
            successCount := recount o.successCount old
              (added.score (o.condition.check added.value))
            state := .amended }) := by
  have dropped : old.drop (marker old) = .ok (retired old) := Die.drop_kept kept (marker old)
  rw [rerollDie]
  dsimp only
  rw [← marker, dropped]
  rfl

theorem run_reroll (o : RollOutcome) (index : Nat) (roller : Roller) :
    Comes o index roller ((o.reroll index).run.run roller) := by
  rw [reroll]
  cases state : o.state with
  | amended => exact .ignored state
  | presented =>
      cases found : o.keptDie? index with
      | none => exact .refused state found
      | some old =>
          dsimp only
          rw [rerollDie_eq (keptDie?_eq_some.1 found).2, run_bind, run_bind]
          rcases Nat.eq_zero_or_pos roller.supply with empty | supplied
          · rw [Rolling.run_draw_spent empty]
            exact .spent state found empty
          · rw [Rolling.run_draw supplied]
            exact .applied state found supplied

/-! ## Many calls -/

/-- A call to reroll that was answered. -/
structure Answer where
  index : Nat
  before : RollOutcome
  given : Roller
  result : Except StateError Reroll
  /-- the outcome afterwards -/
  after : RollOutcome
  /-- the roller afterwards -/
  left : Roller

/-- The answer to a call, unless it ends in a fault.  An outcome that refuses a call stays. -/
def answer? (o : RollOutcome) (index : Nat) (roller : Roller) : Option Answer :=
  match (o.reroll index).run.run roller with
  | (.ok (.ok (reroll, after)), left) => some ⟨index, o, roller, .ok reroll, after, left⟩
  | (.ok (.error e), left) => some ⟨index, o, roller, .error e, o, left⟩
  | (.error _, _) => none

/-- Rerolls dice one after the other, each in the outcome that the call before left, up to a
fault. -/
def answers (o : RollOutcome) : List (Nat × Roller) → List Answer
  | [] => []
  | (index, roller) :: rest =>
      match o.answer? index roller with
      | none => []
      | some a => a :: answers a.after rest

/-- The outcome after the calls. -/
def rerolled (o : RollOutcome) (calls : List (Nat × Roller)) : RollOutcome :=
  (o.answers calls).foldl (fun _ a => a.after) o

namespace Answer

def isApplied (a : Answer) : Bool :=
  match a.result with
  | .ok (.applied _ _) => true
  | _ => false

/-- The ways in which a call is answered. -/
inductive Of (o : RollOutcome) : Answer → Prop
  | ignored (index : Nat) (roller : Roller) (amended : o.state = .amended) :
      Of o ⟨index, o, roller, .ok .ignored, o, roller⟩
  | refused (index : Nat) (roller : Roller) (presented : o.state = .presented)
      (missing : o.keptDie? index = none) :
      Of o ⟨index, o, roller, .error (.invalidDie index), o, roller⟩
  | applied (index : Nat) (roller : Roller) {old : Die} (presented : o.state = .presented)
      (kept : o.keptDie? index = some old) (supplied : 0 < roller.supply) :
      Of o ⟨index, o, roller,
        .ok (.applied (retired old) (o.successor old (roller.face roller.drawn o.sides))),
        o.amend index old (roller.face roller.drawn o.sides), roller.after 1⟩

variable {o : RollOutcome} {a : Answer}

theorem Of.before_eq (of : Of o a) : a.before = o := by cases of <;> rfl

/-- An answer that is not applied leaves everything as it is. -/
theorem Of.still (of : Of o a) (unapplied : a.isApplied = false) :
    a.after = o ∧ a.left = a.given ∧
      (a.result = .ok .ignored ∨ a.result = .error (.invalidDie a.index)) := by
  cases of with
  | ignored => exact ⟨rfl, rfl, .inl rfl⟩
  | refused => exact ⟨rfl, rfl, .inr rfl⟩
  | applied => cases unapplied

theorem Of.applied_iff (of : Of o a) :
    a.isApplied = true ↔ o.state = .presented ∧
      ∃ old, o.dice[a.index]? = some old ∧ old.isKept = true := by
  simp_rw [← keptDie?_eq_some]
  cases of with
  | ignored index roller amended => simp [isApplied, amended]
  | refused index roller presented missing => simp [isApplied, missing]
  | applied index roller presented kept supplied => simp [isApplied, presented, kept]

theorem Of.draws (of : Of o a) (applied : a.isApplied = true) :
    ∃ throw, a.given.Draws [throw] a.left := by
  cases of with
  | ignored | refused => cases applied
  | applied index roller presented kept supplied => exact ⟨_, .one supplied o.sides⟩

/-- An answer that is applied amends the outcome. -/
theorem Of.amends (of : Of o a) (applied : a.isApplied = true) :
    ∃ old face, o.state = .presented ∧ o.keptDie? a.index = some old ∧
      a.result = .ok (.applied (retired old) (o.successor old face)) ∧
      a.after = o.amend a.index old face := by
  cases of with
  | ignored | refused => cases applied
  | applied index roller presented kept supplied => exact ⟨_, _, presented, kept, rfl, rfl⟩

theorem Of.amended_after (of : Of o a) (applied : a.isApplied = true) :
    a.after.state = .amended := by
  obtain ⟨old, face, -, -, -, after⟩ := of.amends applied
  rw [after, state_amend]

theorem Of.ignored_of_amended (of : Of o a) (amended : o.state = .amended) :
    a.result = .ok .ignored ∧ a.after = o := by
  cases of with
  | ignored => exact ⟨rfl, rfl⟩
  | refused index roller presented | applied index roller presented =>
      rw [presented] at amended
      cases amended

theorem unapplied_of_ignored (ignored : a.result = .ok .ignored) : a.isApplied = false := by
  rw [isApplied, ignored]

end Answer

open Answer

variable {calls : List (Nat × Roller)}

theorem of_answer? {a : Answer} (some : o.answer? index roller = some a) : Of o a := by
  have comes := o.run_reroll index roller
  rw [answer?] at some
  generalize (o.reroll index).run.run roller = outcome at comes some
  cases comes with
  | ignored amended => cases some; exact .ignored index roller amended
  | refused presented missing => cases some; exact .refused index roller presented missing
  | spent => cases some
  | applied presented kept supplied =>
      cases some
      exact .applied index roller presented kept supplied

/-- A call is answered if the roller has a die left. -/
theorem exists_answer? (o : RollOutcome) (index : Nat) (supplied : 0 < roller.supply) :
    ∃ a, o.answer? index roller = some a ∧ a.index = index := by
  have comes := o.run_reroll index roller
  rw [answer?]
  generalize (o.reroll index).run.run roller = outcome at comes
  cases comes with
  | ignored | refused | applied => exact ⟨_, rfl, rfl⟩
  | spent presented kept empty => omega

/-- Calls are all answered if every roller has a die left. -/
theorem index_answers (supplied : ∀ call ∈ calls, 0 < call.2.supply) (o : RollOutcome) :
    (o.answers calls).map Answer.index = calls.map Prod.fst := by
  induction calls generalizing o with
  | nil => rfl
  | cons call rest ih =>
      obtain ⟨first, others⟩ := List.forall_mem_cons.1 supplied
      obtain ⟨a, answered, same⟩ := o.exists_answer? call.1 first
      rw [answers, answered]
      dsimp only
      rw [List.map_cons, List.map_cons, ih others, same]

/-- Once an outcome is amended, all calls are ignored. -/
theorem answers_amended (amended : o.state = .amended) (calls : List (Nat × Roller)) :
    ∀ a ∈ o.answers calls, a.result = .ok .ignored ∧ a.after = o := by
  induction calls with
  | nil => exact List.forall_mem_nil _
  | cons call rest ih =>
      rw [answers]
      split
      · exact List.forall_mem_nil _
      · rename_i a answered
        obtain ⟨ignored, same⟩ := (of_answer? answered).ignored_of_amended amended
        rw [same]
        exact List.forall_mem_cons.2 ⟨⟨ignored, same⟩, ih⟩

/-- Answers of which at most one is applied: before it the outcome stays as it is, and after it
all are ignored. -/
inductive Once (o : RollOutcome) : List Answer → Prop
  | none : Once o []
  | still {a : Answer} {rest : List Answer} (of : Of o a) (unapplied : a.isApplied = false)
      (once : Once o rest) : Once o (a :: rest)
  | applied {a : Answer} {rest : List Answer} (of : Of o a) (applied : a.isApplied = true)
      (ignored : ∀ b ∈ rest, b.result = .ok .ignored ∧ b.after = a.after) : Once o (a :: rest)

theorem once_answers (o : RollOutcome) (calls : List (Nat × Roller)) :
    Once o (o.answers calls) := by
  induction calls with
  | nil => exact .none
  | cons call rest ih =>
      rw [answers]
      split
      · exact .none
      · rename_i a answered
        have of := of_answer? answered
        cases applied : a.isApplied with
        | true => exact .applied of applied (answers_amended (of.amended_after applied) rest)
        | false =>
            rw [(of.still applied).1]
            exact .still of applied ih

variable {all : List Answer}

theorem Once.countP_le (once : Once o all) : all.countP isApplied ≤ 1 := by
  induction once with
  | none => exact Nat.zero_le 1
  | still of unapplied once ih => rwa [List.countP_cons_of_neg (by simp [unapplied])]
  | @applied a rest of applied ignored =>
      have others : rest.countP isApplied = 0 :=
        List.countP_eq_zero.2 fun b mem => by simp [unapplied_of_ignored (ignored b mem).1]
      rw [List.countP_cons, others]
      split <;> omega

/-- After the answer that is applied, all are ignored. -/
theorem Once.later {early later : List Answer} {a : Answer} (once : Once o (early ++ a :: later))
    (applied : a.isApplied = true) : ∀ b ∈ later, b.result = .ok .ignored ∧ b.after = a.after := by
  induction early with
  | nil =>
      cases once with
      | still of unapplied once => rw [applied] at unapplied; cases unapplied
      | applied of applied ignored => exact ignored
  | cons first early ih =>
      cases once with
      | still of unapplied once => exact ih once
      | applied of applied' ignored =>
          have second := unapplied_of_ignored (ignored a (by simp)).1
          rw [applied] at second
          cases second

/-- The outcome after the calls is the one that was there, or the one that the answer that was
applied left. -/
theorem Once.last (once : Once o all) :
    ((∀ a ∈ all, a.isApplied = false) ∧ all.foldl (fun _ a => a.after) o = o) ∨
      ∃ a ∈ all, Of o a ∧ a.isApplied = true ∧ all.foldl (fun _ a => a.after) o = a.after := by
  induction once with
  | none => exact .inl ⟨List.forall_mem_nil _, rfl⟩
  | @still a rest of unapplied once ih =>
      rw [List.foldl_cons, (of.still unapplied).1]
      rcases ih with ⟨none, same⟩ | ⟨b, mem, ofB, applied, same⟩
      · exact .inl ⟨List.forall_mem_cons.2 ⟨unapplied, none⟩, same⟩
      · exact .inr ⟨b, List.mem_cons_of_mem a mem, ofB, applied, same⟩
  | @applied a rest of applied ignored =>
      refine .inr ⟨a, List.mem_cons_self, of, applied, ?_⟩
      rw [List.foldl_cons]
      exact List.foldlRecOn (motive := fun last => last = a.after) rest _ rfl
        fun _ _ b mem => (ignored b mem).2

/-- Every call is answered from the outcome that the call before left. -/
theorem of_answers (o : RollOutcome) (calls : List (Nat × Roller)) :
    ∀ a ∈ o.answers calls, Of a.before a := by
  induction calls generalizing o with
  | nil => exact List.forall_mem_nil _
  | cons call rest ih =>
      rw [answers]
      split
      · exact List.forall_mem_nil _
      · rename_i a answered
        have of := of_answer? answered
        exact List.forall_mem_cons.2 ⟨of.before_eq.symm ▸ of, ih a.after⟩

/-- **At most one reroll of an outcome is ever applied**, whatever the outcome, the positions and
the rollers.  It is applied if the outcome is as it was presented and the position is that of a
kept die; it draws that one die, and every later call is ignored, also one that would be refused
otherwise.  A call that is not applied changes nothing and draws nothing.  Calls are answered as
long as the rollers have dice. -/
theorem answers_once (o : RollOutcome) (calls : List (Nat × Roller)) :
    (o.answers calls).countP isApplied ≤ 1 ∧
      (∀ a ∈ o.answers calls,
        (a.isApplied = true ↔ a.before.state = .presented ∧
          ∃ old, a.before.dice[a.index]? = some old ∧ old.isKept = true) ∧
        (a.isApplied = true → ∃ throw, a.given.Draws [throw] a.left) ∧
        (a.isApplied = false → a.after = a.before ∧ a.left = a.given ∧
          (a.result = .ok .ignored ∨ a.result = .error (.invalidDie a.index)))) ∧
      (∀ early a later, o.answers calls = early ++ a :: later → a.isApplied = true →
        ∀ b ∈ later, b.result = .ok .ignored ∧ b.after = a.after) ∧
      ((∀ call ∈ calls, 0 < call.2.supply) →
        (o.answers calls).map Answer.index = calls.map Prod.fst) := by
  have once := o.once_answers calls
  refine ⟨once.countP_le, fun a mem => ?_, fun early a later parts applied => ?_,
    fun supplied => index_answers supplied o⟩
  · have of := o.of_answers calls a mem
    exact ⟨of.applied_iff, of.draws, of.still⟩
  · rw [parts] at once
    exact once.later applied

/-- A position that is missing, a kept die, and another missing position. -/
theorem answers_once_third :
    ∃ o : RollOutcome, o.state = .presented ∧
      (o.answers [(7, .tape [5]), (1, .tape [2, 6]), (7, .tape [1])]).map Answer.result =
        [.error (.invalidDie 7),
          .ok (.applied ⟨6, none, some (.reroll ⟨.equal, 6⟩ false), [], some false⟩
            ⟨2, some (.reroll ⟨.equal, 6⟩ false), none, [], some true⟩),
          .ok .ignored] ∧
      (o.answers [(7, .tape [5]), (1, .tape [2, 6]), (7, .tape [1])]).countP isApplied ≤ 1 := by
  let dice : List Die := [(Die.fresh 1).score true, (Die.fresh 6).score false]
  let o : RollOutcome := ⟨"Stealth", 3, 2, 6, ⟨.atMost, 3⟩, dice, 1, .presented⟩
  exact ⟨o, rfl, rfl, (answers_once o _).1⟩

/-! ## Counting the dice again -/

/-- The dice of an outcome before and after one of them is rerolled. -/
theorem dice_amend (kept : o.keptDie? index = some old) (face : Int) :
    ∃ front back, front.length = index ∧ o.dice = front ++ old :: back ∧
      (o.amend index old face).dice = front ++ retired old :: o.successor old face :: back := by
  obtain ⟨inside, there⟩ := List.getElem?_eq_some_iff.1 (keptDie?_eq_some.1 kept).1
  refine ⟨o.dice.take index, o.dice.drop (index + 1), ?_, ?_, rfl⟩
  · rw [List.length_take]
    omega
  · rw [← there, ← List.drop_eq_getElem_cons, List.take_append_drop]

theorem mem_amend (kept : o.keptDie? index = some old) {face : Int} {d : Die}
    (mem : d ∈ (o.amend index old face).dice) :
    d ∈ o.dice ∨ d = retired old ∨ d = o.successor old face := by
  obtain ⟨front, back, -, before, after⟩ := dice_amend kept face
  rw [after] at mem
  rw [before]
  simp only [List.mem_append, List.mem_cons] at mem ⊢
  tauto

/-- What is counted but for the die that is rerolled stays the same. -/
theorem countP_amend (kept : o.keptDie? index = some old) (face : Int) (p : Die → Bool) :
    ∃ others, o.dice.countP p = others + (p old).toNat ∧
      (o.amend index old face).dice.countP p =
        others + (p (retired old)).toNat + (p (o.successor old face)).toNat := by
  obtain ⟨front, back, -, before, after⟩ := dice_amend kept face
  rw [before, after]
  simp only [List.countP_append, List.countP_cons, Bool.toNat, Bool.cond_eq_ite]
  exact ⟨front.countP p + back.countP p, by omega, by omega⟩

/-- As many dice are kept as before. -/
theorem countP_isKept_amend (kept : o.keptDie? index = some old) (face : Int) :
    (o.amend index old face).dice.countP Die.isKept = o.dice.countP Die.isKept := by
  obtain ⟨others, before, after⟩ := countP_amend kept face Die.isKept
  simp [before, after, (keptDie?_eq_some.1 kept).2]

/-- The number of successes is that of the dice, as far as it is a count. -/
def Counts (o : RollOutcome) : Prop :=
  o.successCount = min (o.dice.countP Die.isCounted) Limit.mostCount

/-- It is exact for as many dice as can be counted. -/
theorem Counts.exact (counts : o.Counts) (few : o.dice.countP Die.isKept ≤ Limit.mostCount) :
    o.successCount = o.dice.countP Die.isCounted :=
  counts.trans (Nat.min_eq_left ((Die.countP_isCounted_le _).trans few))

/-- A count is patched by what the two dice are. -/
theorem recount_eq {count : Nat} (within : count ≤ Limit.mostCount) (old new : Die) :
    recount count old new =
      min (count - old.isSuccess.toNat + new.isSuccess.toNat) Limit.mostCount := by
  have less : count - old.isSuccess.toNat ≤ Limit.mostCount := (Nat.sub_le _ _).trans within
  unfold recount
  cases was : old.isSuccess <;> rw [was] at less <;> cases new.isSuccess
  · exact (Nat.min_eq_left less).symm
  · rfl
  · exact (Nat.min_eq_left less).symm
  · rfl

theorem Counts.amended (counts : o.Counts) (index : Nat) (old : Die) (face : Int) :
    (o.amend index old face).successCount =
      min (min (o.dice.countP Die.isCounted) Limit.mostCount - old.isSuccess.toNat +
        (o.successor old face).isSuccess.toNat) Limit.mostCount := by
  rw [successCount_amend, counts, recount_eq (Nat.min_le_right _ _)]

/-- The count that is patched stays right, if it was exact. -/
theorem counts_amend (counts : o.Counts) (few : o.dice.countP Die.isCounted ≤ Limit.mostCount)
    (kept : o.keptDie? index = some old) (face : Int) : (o.amend index old face).Counts := by
  obtain ⟨others, before, after⟩ := countP_amend kept face Die.isCounted
  have was : old.isCounted = old.isSuccess := by
    simp [Die.isCounted, (keptDie?_eq_some.1 kept).2]
  rw [was] at before
  simp only [isCounted_retired, isCounted_successor, Bool.toNat_false, Nat.add_zero] at after
  rw [Counts, counts.amended, Nat.min_eq_left few, before, after, Nat.add_sub_cancel]

/-! ## Outcomes of rolls -/

variable {label : String} {baseline : Nat} {roll : Roll}

/-- An outcome is that of the first dice of the roll that count successes. -/
theorem ofRoll_ok (made : ofRoll label baseline roll = .ok o) :
    ∃ rolled before later, roll.dice = before ++ rolled :: later ∧
      (∀ other ∈ before, other.dice.successCondition? = none) ∧
      rolled.dice.successCondition? = some o.condition ∧
      o = ⟨label, o.condition.bound, baseline, rolled.dice.sides, o.condition, rolled.rolls,
        rolled.successes, .presented⟩ := by
  unfold ofRoll at made
  split at made
  · cases made
  · split at made
    · cases made
    · rename_i rolled condition found
      cases made
      obtain ⟨before, first, later, dice, counts, others⟩ := List.findSome?_eq_some_iff.1 found
      obtain ⟨condition', counts, same⟩ := Option.map_eq_some_iff.1 counts
      cases same
      refine ⟨rolled, before, later, dice, fun other mem => ?_, counts, rfl⟩
      exact Option.map_eq_none_iff.1 (others other mem)

theorem counts_ofRoll (made : ofRoll label baseline roll = .ok o) : o.Counts := by
  obtain ⟨rolled, -, -, -, -, -, whole⟩ := ofRoll_ok made
  rw [whole]
  rfl

/-- What calls to reroll make of an outcome: it stays, or it is amended once. -/
theorem rerolled_cases (o : RollOutcome) (calls : List (Nat × Roller)) :
    ((∀ a ∈ o.answers calls, a.isApplied = false) ∧ o.rerolled calls = o) ∨
      ∃ a ∈ o.answers calls, ∃ old face, o.state = .presented ∧ o.keptDie? a.index = some old ∧
        a.result = .ok (.applied (retired old) (o.successor old face)) ∧
        o.rerolled calls = o.amend a.index old face := by
  rcases (o.once_answers calls).last with unmoved | ⟨a, mem, of, applied, last⟩
  · exact .inl unmoved
  · obtain ⟨old, face, presented, kept, result, after⟩ := of.amends applied
    exact .inr ⟨a, mem, old, face, presented, kept, result, last.trans after⟩

/-- Only the dice, the number of successes and the state ever change. -/
theorem rerolled_eq (o : RollOutcome) (calls : List (Nat × Roller)) :
    o.rerolled calls =
      { o with
        dice := (o.rerolled calls).dice
        successCount := (o.rerolled calls).successCount
        state := (o.rerolled calls).state } := by
  rcases o.rerolled_cases calls with ⟨-, same⟩ | ⟨a, -, old, face, -, -, -, amended⟩
  · rw [same]
  · rw [amended]
    rfl

theorem countP_isKept_rerolled (o : RollOutcome) (calls : List (Nat × Roller)) :
    (o.rerolled calls).dice.countP Die.isKept = o.dice.countP Die.isKept := by
  rcases o.rerolled_cases calls with ⟨-, same⟩ | ⟨a, -, old, face, -, kept, -, amended⟩
  · rw [same]
  · rw [amended, countP_isKept_amend kept face]

/-- If no die was dropped at first, one is as soon as the outcome is amended. -/
theorem amended_rerolled (presented : o.state = .presented)
    (whole : o.dice.countP Die.isDropped = 0) (calls : List (Nat × Roller)) :
    (o.rerolled calls).state = .amended ↔ (o.rerolled calls).dice.countP Die.isDropped = 1 := by
  rcases o.rerolled_cases calls with ⟨-, same⟩ | ⟨a, -, old, face, -, kept, -, amended⟩
  · rw [same, presented, whole]
    decide
  · obtain ⟨others, before, after⟩ := countP_amend kept face Die.isDropped
    have none : others = 0 := (Nat.add_eq_zero_iff.1 (before.symm.trans whole)).1
    simp [amended, after, none]

theorem counts_rerolled (counts : o.Counts) (few : o.dice.countP Die.isCounted ≤ Limit.mostCount)
    (calls : List (Nat × Roller)) : (o.rerolled calls).Counts := by
  rcases o.rerolled_cases calls with ⟨-, same⟩ | ⟨a, -, old, face, -, kept, -, amended⟩
  · rwa [same]
  · rw [amended]
    exact counts_amend counts few kept face

/-- For as many dice as can be counted the number of successes is exact, also after rerolls. -/
theorem exact_rerolled (counts : o.Counts) (few : o.dice.countP Die.isKept ≤ Limit.mostCount)
    (calls : List (Nat × Roller)) :
    (o.rerolled calls).successCount = (o.rerolled calls).dice.countP Die.isCounted := by
  have stays := counts_rerolled counts ((Die.countP_isCounted_le _).trans few) calls
  exact stays.exact ((o.countP_isKept_rerolled calls).trans_le few)

/-- **The number of successes is that of the dice, however an outcome was rerolled.**  It is a
count, which ends at the largest one, and it is patched: if the dice were counted exactly at first,
it is what counting them again gives, and for as many dice as can be counted it is exact.  The dice
are those of the roll, unless one was rerolled: this one is then marked as dropped, and directly
behind it stands the new one, marked as added by the same modifier. -/
theorem rerolled_recounts (made : ofRoll label baseline roll = .ok o)
    (calls : List (Nat × Roller)) :
    (o.dice.countP Die.isCounted ≤ Limit.mostCount → (o.rerolled calls).successCount =
        min ((o.rerolled calls).dice.countP Die.isCounted) Limit.mostCount) ∧
      (o.dice.countP Die.isKept ≤ Limit.mostCount →
        (o.rerolled calls).successCount = (o.rerolled calls).dice.countP Die.isCounted) ∧
      (((∀ a ∈ o.answers calls, a.isApplied = false) ∧ (o.rerolled calls).dice = o.dice ∧
          (o.rerolled calls).successCount =
            min (o.dice.countP Die.isCounted) Limit.mostCount) ∨
        ∃ a ∈ o.answers calls, ∃ front old back cause new,
          a.result = .ok (.applied { old with droppedBy := some cause } new) ∧
          front.length = a.index ∧ o.dice = front ++ old :: back ∧ old.isKept = true ∧
          (o.rerolled calls).dice =
            front ++ { old with droppedBy := some cause } :: new :: back ∧
          new.addedBy = some cause ∧ new.isKept = true ∧
          (o.rerolled calls).successCount =
            min (min (o.dice.countP Die.isCounted) Limit.mostCount - old.isSuccess.toNat +
              new.isSuccess.toNat) Limit.mostCount) := by
  have counts := counts_ofRoll made
  refine ⟨fun few => counts_rerolled counts few calls, fun few => exact_rerolled counts few calls, ?_⟩
  rcases o.rerolled_cases calls with
    ⟨unapplied, same⟩ | ⟨a, mem, old, face, -, kept, result, amended⟩
  · rw [same]
    exact .inl ⟨unapplied, rfl, counts⟩
  · obtain ⟨front, back, position, before, after⟩ := dice_amend kept face
    rw [amended]
    exact .inr ⟨a, mem, front, old, back, marker old, o.successor old face, result, position,
      before, (keptDie?_eq_some.1 kept).2, after, rfl, rfl, counts.amended a.index old face⟩

/-- A die that was dropped after it scored, and one that was added and did not score. -/
theorem rerolled_recounts_unscored :
    ∃ (roll roll' : Roll) (roller' : Roller) (total : Float) (o : RollOutcome),
      Roll.parse "4d6cs>=4cf=1r=2" = .ok roll ∧
        roll.evaluate (.tape [5, 2, 4, 1, 6]) = (.ok total, roll', roller') ∧
        ofRoll "Luck" 4 roll' = .ok o ∧
        (o.dice.map Die.success, o.successCount) =
          ([some true, some false, some true, some false, none], 2) ∧
        ((o.rerolled [(1, .tape [6]), (4, .tape [5])]).dice.map Die.success,
          (o.rerolled [(1, .tape [6]), (4, .tape [5])]).successCount) =
          ([some true, some false, some true, some false, none, some true], 3) ∧
        (o.rerolled [(1, .tape [6]), (4, .tape [5])]).successCount =
          (o.rerolled [(1, .tape [6]), (4, .tape [5])]).dice.countP Die.isCounted := by
  have comes : ∃ roll ∈ (Roll.parse "4d6cs>=4cf=1r=2").toOption,
      (roll.evaluate (.tape [5, 2, 4, 1, 6])).1.toOption.isSome = true ∧
        ∃ o ∈ (ofRoll "Luck" 4 (roll.evaluate (.tape [5, 2, 4, 1, 6])).2.1).toOption,
          o.dice.countP Die.isKept ≤ Limit.mostCount ∧
          (o.dice.map Die.success, o.successCount) =
            ([some true, some false, some true, some false, none], 2) ∧
          ((o.rerolled [(1, .tape [6]), (4, .tape [5])]).dice.map Die.success,
            (o.rerolled [(1, .tape [6]), (4, .tape [5])]).successCount) =
            ([some true, some false, some true, some false, none, some true], 3) := by
    decide +kernel
  obtain ⟨roll, parsed, ends, o, made, few, before, after⟩ := comes
  obtain ⟨total, outcome⟩ := ok_of_isSome ends
  have made := eq_ok_of_toOption made
  exact ⟨roll, _, _, total, o, eq_ok_of_toOption parsed, outcome, made, before, after,
    (rerolled_recounts made _).2.1 few⟩

/-- Ten thousand dice that double nineteen times are all successes, and more than can be counted. -/
theorem ofRoll_uncounted :
    ∃ (roll roll' : Roll) (roller' : Roller) (total : Float) (o : RollOutcome),
      Roll.parse ("10000d6" ++ String.join (.replicate 19 "xo>0") ++ "cs>0") = .ok roll ∧
        roll.evaluate (.highest Roller.plenty) = (.ok total, roll', roller') ∧
        ofRoll "Luck" 1 roll' = .ok o ∧ o.dice.countP Die.isCounted = 5242880000 ∧
        o.successCount = 4294967295 := by
  have written : Dice.swarm.text = "10000d6" ++ String.join (.replicate 19 "xo>0") ++ "cs>0" := by
    decide +kernel
  have writable : Dice.swarm.Writable := by
    refine ⟨by decide, by decide, List.forall_mem_append.2 ⟨fun m mem => ?_, ?_⟩⟩
    · rw [List.eq_of_mem_replicate mem]
      rintro c ⟨⟩
      exact ⟨by decide, by decide⟩
    · exact List.forall_mem_singleton.2 ⟨by decide, by decide⟩
  obtain ⟨rolled, r', comes, dice, length, all⟩ := Dice.exists_swarm
  have counted : rolled.rolls.countP Die.isCounted = 5242880000 := by
    refine (List.countP_eq_length.2 fun die mem => ?_).trans length
    obtain ⟨selected, success⟩ := all die mem
    simp [Die.isCounted, (Bool.and_eq_true_iff.1 selected).1, Die.isSuccess, success]
  have total : rolled.total = .ok (rolled.successes : Nat) := by
    refine Rolled.total_of_counting (c := ⟨.above, 0⟩) ?_
    rw [dice]
    decide
  obtain ⟨x, roll', evaluates, evaluated, logged⟩ := Roll.exists_evaluate_dice
    (r := { Roll.ofTerms [.ofDice Dice.swarm none] with formula := Dice.swarm.text }) rfl rfl comes
    total
  have condition : Dice.swarm.successCondition? = some ⟨.above, 0⟩ := by decide
  obtain ⟨o, made⟩ : ∃ o, ofRoll "Luck" 1 roll' = .ok o := by
    rw [ofRoll, evaluated, logged]
    simp [dice, condition]
  obtain ⟨first, before, later, split, -, -, whole⟩ := ofRoll_ok made
  have alone : first = rolled := by
    have mem : first ∈ roll'.dice := split ▸ List.mem_append_right _ List.mem_cons_self
    rw [logged] at mem
    exact List.mem_singleton.1 mem
  have counts := counts_ofRoll made
  have same : o.dice = rolled.rolls := by rw [whole, alone]
  rw [← written]
  refine ⟨_, roll', _, x, o, Roll.parse_dice writable, evaluates, made, by rw [same, counted], ?_⟩
  rw [counts, same, counted]
  rfl

end RollOutcome

end DiceFormula
