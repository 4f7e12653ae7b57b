import Opal.Dynarray.Refinement

/-!
# Runs of an array

A run starts with an empty array and makes any calls, whatever allocations fail.  Two calls break
what the others keep: a `dynarray_shrink_to` that exchanges the buffer while it holds more than
fits into the new one or less than the new size, and a `dynarray_remove` whose end wraps around.
-/

namespace Opal.Dynarray

open Opal.Library

section Calls

/-- The arguments are in range, in the arithmetic of numbers that do not wrap. -/
def InRange (ar : Dynarray) : Op → Prop
  | .reserve newCapacity => newCapacity < wordSize
  | .resize newSize => newSize < wordSize
  | .shrinkTo newSize => newSize < wordSize
  | .pushBack dataSize => ar.size + dataSize < wordSize
  | .popBack dataSize => dataSize ≤ ar.size
  | .insert pos dataSize => pos ≤ ar.size ∧ ar.size + dataSize < wordSize
  | .remove pos dataSize => pos + dataSize ≤ ar.size

instance (ar : Dynarray) : ∀ op, Decidable (InRange ar op)
  | .reserve newCapacity => inferInstanceAs (Decidable (newCapacity < wordSize))
  | .resize newSize => inferInstanceAs (Decidable (newSize < wordSize))
  | .shrinkTo newSize => inferInstanceAs (Decidable (newSize < wordSize))
  | .pushBack dataSize => inferInstanceAs (Decidable (ar.size + dataSize < wordSize))
  | .popBack dataSize => inferInstanceAs (Decidable (dataSize ≤ ar.size))
  | .insert pos dataSize =>
      inferInstanceAs (Decidable (pos ≤ ar.size ∧ ar.size + dataSize < wordSize))
  | .remove pos dataSize => inferInstanceAs (Decidable (pos + dataSize ≤ ar.size))

/-- What a call that reports success does to the bytes in use. -/
def Effect (ar ar' : Dynarray) : Op → Prop
  | .reserve newCapacity => Rehoused ar ar' newCapacity
  | .resize newSize => Resized ar ar' newSize
  | .shrinkTo newSize => Shrunk ar ar' newSize
  | .pushBack dataSize => Resized ar ar' (ar.size + dataSize)
  | .popBack dataSize => contents ar' = (contents ar).take (ar.size - dataSize)
  | .insert pos dataSize => Inserted ar ar' pos dataSize
  | .remove pos dataSize =>
      contents ar' = (contents ar).take pos ++ (contents ar).drop (pos + dataSize)

def Op.ShrinksSafely (ar : Dynarray) (mem : AllocOracle) : Op → Prop
  | .shrinkTo newSize => Dynarray.ShrinksSafely ar mem newSize
  | _ => True

instance (ar : Dynarray) (mem : AllocOracle) : ∀ op : Op, Decidable (op.ShrinksSafely ar mem)
  | .shrinkTo newSize => inferInstanceAs (Decidable (Dynarray.ShrinksSafely ar mem newSize))
  | .reserve _ | .resize _ | .pushBack _ | .popBack _ | .insert .. | .remove .. => .isTrue trivial

variable {ar ar' : Dynarray} {mem : AllocOracle} {op : Op}

theorem outcome_of_returns {post : Dynarray → Prop} {run : Run Dynarray}
    (returns : ∃ ar', run = .ok ar' ∧ Valid ar' ∧ post ar') :
    Ensures (· = .invalidSize) (Outcome ar post) (do
      let ar' ← run
      .ok ((true, ar'), mem)) := by
  obtain ⟨ar', rfl, valid', holds⟩ := returns
  exact ⟨valid', fun failed => absurd failed.symm Bool.false_ne_true, fun _ => holds⟩

theorem perform_spec (valid : Valid ar) (inRange : InRange ar op)
    (safely : op.ShrinksSafely ar mem) :
    Ensures (· = .invalidSize) (Outcome ar fun ar' => Effect ar ar' op) (perform ar mem op) := by
  cases op with
  | reserve newCapacity => exact dynarrayReserve_spec valid
  | resize newSize => exact dynarrayResize_spec valid
  | shrinkTo newSize => exact dynarrayShrinkTo_spec valid safely
  | pushBack dataSize => exact dynarrayPushBack_spec valid inRange
  | popBack dataSize => exact outcome_of_returns (dynarrayPopBack_spec valid inRange)
  | insert pos dataSize => exact dynarrayInsert_spec valid inRange.1 inRange.2
  | remove pos dataSize => exact outcome_of_returns (dynarrayRemove_spec valid inRange)

end Calls

section Guards

/-- One of the four functions that assert that their arguments are in range. -/
def Op.Guarded : Op → Prop
  | .reserve _ | .resize _ | .shrinkTo _ => False
  | .pushBack _ | .popBack _ | .insert .. | .remove .. => True

/-- The arguments are values of a `size_t`. -/
def Op.Words : Op → Prop
  | .reserve newCapacity => newCapacity < wordSize
  | .resize newSize => newSize < wordSize
  | .shrinkTo newSize => newSize < wordSize
  | .pushBack dataSize => dataSize < wordSize
  | .popBack dataSize => dataSize < wordSize
  | .insert pos dataSize => pos < wordSize ∧ dataSize < wordSize
  | .remove pos dataSize => pos < wordSize ∧ dataSize < wordSize

/-- The call fails an assertion, or its arguments are in range, it accesses no byte outside the
buffer and leaves the size within the capacity. -/
def Contained (ar : Dynarray) (mem : AllocOracle) (op : Op) : Prop :=
  Ensures Stop.Assertion (fun result => InRange ar op ∧ result.1.2.size ≤ result.1.2.capacity)
    (perform ar mem op)

/-- The end of the bytes to be removed wraps around to a position in the array. -/
def WrapsInside (ar : Dynarray) : Op → Prop
  | .remove pos dataSize => wordSize ≤ pos + dataSize ∧ pos + dataSize - wordSize ≤ ar.size
  | _ => False

variable {ar : Dynarray} {mem : AllocOracle} {op : Op}

theorem contained_of_inRange (valid : Valid ar) (guarded : op.Guarded) (inRange : InRange ar op) :
    Contained ar mem op := by
  have safely : op.ShrinksSafely ar mem := by
    cases op with
    | shrinkTo newSize => exact guarded.elim
    | reserve _ | resize _ | pushBack _ | popBack _ | insert _ _ | remove _ _ => trivial
  refine ((perform_spec valid inRange safely).mono fun result outcome => ?_).tolerate ?_
  · exact ⟨inRange, outcome.1.room⟩
  · rintro stop rfl
    exact Stop.noConfusion

theorem contained_of_fails {stop : Stop} (failed : perform ar mem op = .error stop)
    (assertion : stop.Assertion) : Contained ar mem op := by
  rw [Contained, failed]
  exact assertion

/-- Arguments that are out of range fail an assertion, unless they wrap around. -/
theorem contained_of_out (valid : Valid ar) (guarded : op.Guarded) (words : op.Words)
    (out : ¬InRange ar op) (straight : ¬WrapsInside ar op) : Contained ar mem op := by
  have small : ar.size < wordSize := Nat.lt_of_le_of_lt (Nat.le_trans valid.room valid.small)
    (by decide : kmallocMaxSize < wordSize)
  have word : wordSize = uintptrMax + 1 := by decide
  cases op with
  | reserve _ | resize _ | shrinkTo _ => exact guarded.elim
  | pushBack dataSize =>
      change ¬ar.size + dataSize < wordSize at out
      have failed : perform ar mem (.pushBack dataSize) = .error .pushBackOverflow := by
        rw [perform, dynarrayPushBack, kassert, if_neg (by omega)]
        rfl
      exact contained_of_fails failed Stop.noConfusion
  | popBack dataSize =>
      have large : ¬dataSize ≤ ar.size := out
      have failed : perform ar mem (.popBack dataSize) = .error .popBackBounds := by
        rw [perform, dynarrayPopBack, kassert, if_neg large]
        rfl
      exact contained_of_fails failed Stop.noConfusion
  | insert pos dataSize =>
      by_cases inside : pos ≤ ar.size
      · have large : ¬ar.size + dataSize < wordSize := fun fits => out ⟨inside, fits⟩
        have failed : perform ar mem (.insert pos dataSize) = .error .insertOverflow := by
          rw [perform, dynarrayInsert, kassert, if_pos inside, ok_bind, kassert, if_neg (by omega)]
          rfl
        exact contained_of_fails failed Stop.noConfusion
      · have failed : perform ar mem (.insert pos dataSize) = .error .insertBounds := by
          rw [perform, dynarrayInsert, kassert, if_neg inside]
          rfl
        exact contained_of_fails failed Stop.noConfusion
  | remove pos dataSize =>
      obtain ⟨posWord, dataWord⟩ := words
      change ¬pos + dataSize ≤ ar.size at out
      change ¬(wordSize ≤ pos + dataSize ∧ pos + dataSize - wordSize ≤ ar.size) at straight
      have beyond : ¬(pos + dataSize) % wordSize ≤ ar.size := by
        rcases Nat.lt_or_ge (pos + dataSize) wordSize with below | above
        · rw [Nat.mod_eq_of_lt below]
          exact out
        · rw [Nat.mod_eq_sub_mod above, Nat.mod_eq_of_lt (by omega)]
          exact fun inside => straight ⟨above, inside⟩
      have failed : perform ar mem (.remove pos dataSize) = .error .removeBounds := by
        unfold perform dynarrayRemove kassert
        dsimp only
        rw [if_neg beyond]
        rfl
      exact contained_of_fails failed Stop.noConfusion

theorem eq_stray_of_copyIf {condition : Prop} [Decidable condition] {pos start size : Nat}
    {source : Buffer} {stop : Stop}
    (stopped : copyIf condition ar pos source start size = .error stop) : stop = .stray := by
  unfold copyIf copyBytes at stopped
  split at stopped
  · split at stopped
    · cases stopped
      rfl
    · split at stopped
      · cases stopped
      · cases stopped
        rfl
  · cases stopped

/-- An end that wraps around passes the assertion. -/
theorem not_contained_of_wraps (valid : Valid ar) (words : op.Words) (wraps : WrapsInside ar op) :
    ¬Contained ar mem op := by
  have small : ar.size < wordSize := Nat.lt_of_le_of_lt (Nat.le_trans valid.room valid.small)
    (by decide : kmallocMaxSize < wordSize)
  cases op with
  | reserve _ | resize _ | shrinkTo _ | pushBack _ | popBack _ | insert _ _ => exact wraps.elim
  | remove pos dataSize =>
      obtain ⟨posWord, dataWord⟩ := words
      obtain ⟨above, inside⟩ := wraps
      have stop : (pos + dataSize) % wordSize ≤ ar.size := by
        rw [Nat.mod_eq_sub_mod above, Nat.mod_eq_of_lt (by omega)]
        exact inside
      intro contained
      unfold Contained perform dynarrayRemove kassert at contained
      dsimp only at contained
      rw [if_pos stop, ok_bind] at contained
      cases copied : copyIf ((pos + dataSize) % wordSize < ar.size) ar pos (ar.data.getD [])
          ((pos + dataSize) % wordSize)
          ((ar.size + wordSize - (pos + dataSize) % wordSize) % wordSize) with
      | error stop =>
          rw [copied] at contained
          exact contained (eq_stray_of_copyIf copied)
      | ok copiedArray =>
          rw [copied] at contained
          have inRange : pos + dataSize ≤ ar.size := contained.1
          omega

/-- The four functions that assert that their arguments are in range reject all others exactly
when the end of the bytes to be removed does not wrap around into the array. -/
theorem contained_iff (valid : Valid ar) (guarded : op.Guarded) (words : op.Words) :
    Contained ar mem op ↔ ¬WrapsInside ar op := by
  constructor
  · intro contained wraps
    exact not_contained_of_wraps valid words wraps contained
  · intro straight
    by_cases inRange : InRange ar op
    · exact contained_of_inRange valid guarded inRange
    · exact contained_of_out valid guarded words inRange straight

/-- Ten bytes are in use. -/
def tenBytes : Dynarray := ⟨some (List.replicate (allocSize 10) 0), 10, allocSize 10⟩

theorem contained_iff_tenBytes : Contained tenBytes .always (.insert 3 5) ↔
    ¬WrapsInside tenBytes (.insert 3 5) :=
  contained_iff ⟨by decide, List.length_replicate, by decide⟩ trivial ⟨by decide, by decide⟩

/-- Almost 2^64 bytes are removed from a position behind the end, and the array grows to 25. -/
theorem tenBytes_wraps : Valid tenBytes ∧
    (perform tenBytes .always (.remove 20 (2 ^ 64 - 15))).toOption.map (fun result =>
      result.1.2.size) = some 25 ∧
    ¬Contained tenBytes .always (.remove 20 (2 ^ 64 - 15)) := by
  have valid : Valid tenBytes := ⟨by decide, List.length_replicate, by decide⟩
  refine ⟨valid, by decide +kernel, not_contained_of_wraps valid ⟨by decide, by decide⟩ ?_⟩
  exact ⟨by decide, by decide⟩

end Guards

section Runs

/-- An array and the outcomes of the coming allocations. -/
abbrev System := Dynarray × AllocOracle

def step (system : System) (op : Op) : Run System := do
  let ((_, ar), mem) ← perform system.1 system.2 op
  .ok (ar, mem)

/-- The arguments are in range, and the call does not shrink the array in a way that goes wrong. -/
def admits (system : System) (op : Op) : Prop :=
  InRange system.1 op ∧ op.ShrinksSafely system.1 system.2

instance (system : System) (op : Op) : Decidable (admits system op) :=
  inferInstanceAs (Decidable (_ ∧ _))

variable {mem : AllocOracle} {system : System}

theorem valid_of_reached (reached : Reaches step admits (dynarrayInit, mem) system) :
    Valid system.1 := by
  refine @Reaches.invariant _ _ _ _ _ (· = .invalidSize) (fun system => Valid system.1) _ _
    valid_init ?_ reached
  intro before op valid admitted
  exact (perform_spec valid admitted.1 admitted.2).bind fun result outcome => outcome.1

/-- In every run whose calls are admitted the array is valid, every coming call copies within the
buffers and keeps all bytes it is not asked to change, and one that reports failure changes
nothing. -/
theorem run_refines (reached : Reaches step admits (dynarrayInit, mem) system) :
    Valid system.1 ∧ ∀ op, admits system op → Ensures (· = .invalidSize)
      (Outcome system.1 fun ar' => Effect system.1 ar' op) (perform system.1 system.2 op) := by
  have valid := valid_of_reached reached
  exact ⟨valid, fun op admitted => perform_spec valid admitted.1 admitted.2⟩

def exampleOps : List Op :=
  [.pushBack 100, .insert 40 900, .remove 0 10, .popBack 955, .shrinkTo 30, .resize 64]

theorem run_refines_example : ∃ system, Reaches step admits (dynarrayInit, .always) system ∧
    Valid system.1 ∧ ∀ op, admits system op → Ensures (· = .invalidSize)
      (Outcome system.1 fun ar' => Effect system.1 ar' op) (perform system.1 system.2 op) := by
  have returns : (runFrom step admits (dynarrayInit, .always) exampleOps).isSome = true := by
    decide +kernel
  obtain ⟨system, ran⟩ := Option.isSome_iff_exists.mp returns
  have reached := Reaches.start.of_runFrom ran
  exact ⟨system, reached, run_refines reached⟩

/-- The 1000 bytes in use are copied into a buffer that holds far fewer. -/
theorem shrinkTo_strays : ∃ system,
    Reaches step (fun system op => InRange system.1 op) (dynarrayInit, .always) system ∧
      InRange system.1 (.shrinkTo 10) ∧
      perform system.1 system.2 (.shrinkTo 10) = .error .stray := by
  have seen : (runFrom step (fun system op => InRange system.1 op) (dynarrayInit, .always)
      [.resize 1000]).map (fun system =>
        decide (InRange system.1 (.shrinkTo 10)) &&
          match perform system.1 system.2 (.shrinkTo 10) with
          | .error stop => decide (stop = .stray)
          | .ok _ => false) = some true := by
    decide +kernel
  obtain ⟨system, ran, strays⟩ := Option.map_eq_some_iff.mp seen
  obtain ⟨inRange, stray⟩ := Bool.and_eq_true_iff.mp strays
  refine ⟨system, Reaches.start.of_runFrom ran, of_decide_eq_true inRange, ?_⟩
  cases performed : perform system.1 system.2 (.shrinkTo 10) with
  | ok result =>
      rw [performed] at stray
      cases stray
  | error stop =>
      rw [performed] at stray
      exact congrArg Except.error (of_decide_eq_true stray)

end Runs

end Opal.Dynarray
