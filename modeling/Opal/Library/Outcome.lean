import Mathlib.Init

/-!
# Postconditions of computations that may stop

A program of the kernel either returns or stops in a named way: an assertion
fires, it panics, it follows a stray pointer.  `Ensures tolerated post` says that a
computation returns a value with `post`, or stops in a way that is tolerated.  The
rules follow the sequencing of `Except`; the last section lifts them to runs.
-/

namespace Opal

universe u v

variable {ε : Type u} {α β : Type v}

@[simp]
theorem ok_bind {value : α} {f : α → Except ε β} : ((.ok value : Except ε α) >>= f) = f value := rfl

/-- The computation returns a value with `post` or stops in a tolerated way. -/
def Ensures (tolerated : ε → Prop) (post : α → Prop) : Except ε α → Prop
  | .ok value => post value
  | .error stop => tolerated stop

namespace Ensures

variable {tolerated : ε → Prop} {post mid : α → Prop} {goal : β → Prop}

@[simp]
theorem ok_iff {value : α} : Ensures tolerated post (.ok value) ↔ post value := Iff.rfl

@[simp]
theorem error_iff {stop : ε} :
    Ensures tolerated post (.error stop : Except ε α) ↔ tolerated stop := Iff.rfl

theorem bind {x : Except ε α} {f : α → Except ε β} (first : Ensures tolerated mid x)
    (second : ∀ value, mid value → Ensures tolerated goal (f value)) :
    Ensures tolerated goal (x >>= f) := by
  cases x with
  | error stop => exact first
  | ok value => exact second value first

theorem mono {x : Except ε α} (weaken : ∀ value, mid value → post value)
    (ensured : Ensures tolerated mid x) : Ensures tolerated post x := by
  cases x with
  | error stop => exact ensured
  | ok value => exact weaken value ensured

theorem tolerate {x : Except ε α} {tolerated' : ε → Prop}
    (weaken : ∀ stop, tolerated stop → tolerated' stop) (ensured : Ensures tolerated post x) :
    Ensures tolerated' post x := by
  cases x with
  | error stop => exact weaken stop ensured
  | ok value => exact ensured

/-- What two postconditions say of one computation. -/
theorem and {x : Except ε α} {tolerated' : ε → Prop} (first : Ensures tolerated mid x)
    (second : Ensures tolerated' post x) :
    Ensures tolerated (fun value => mid value ∧ post value) x := by
  cases x with
  | error stop => exact first
  | ok value => exact ⟨first, second⟩

theorem of_returns {x : Except ε α} (returns : ∃ value, x = .ok value ∧ post value) :
    Ensures tolerated post x := by
  obtain ⟨value, rfl, holds⟩ := returns
  exact holds

theorem of_ok {x : Except ε α} {value : α} (ensured : Ensures tolerated post x)
    (returned : x = .ok value) : post value := by
  subst returned
  exact ensured

theorem of_error {x : Except ε α} {stop : ε} (ensured : Ensures tolerated post x)
    (stopped : x = .error stop) : tolerated stop := by
  subst stopped
  exact ensured

end Ensures

section Runs

variable {σ ι : Type v} {step : σ → ι → Except ε σ} {admits : σ → ι → Prop}

/-- The states reached from `init` by steps that return, each with an input its state admits. -/
inductive Reaches (step : σ → ι → Except ε σ) (admits : σ → ι → Prop) (init : σ) : σ → Prop where
  | start : Reaches step admits init init
  | step {before after : σ} {input : ι} (reached : Reaches step admits init before)
      (admitted : admits before input) (returned : step before input = .ok after) :
      Reaches step admits init after

/-- A property of the initial state that every admitted step ensures holds in every
state reached. -/
theorem Reaches.invariant {tolerated : ε → Prop} {Inv : σ → Prop} {init state : σ}
    (initially : Inv init)
    (preserved : ∀ before input, Inv before → admits before input →
      Ensures tolerated Inv (step before input))
    (reached : Reaches step admits init state) : Inv state := by
  induction reached with
  | start => exact initially
  | step _ admitted returned inductionHypothesis =>
      exact (preserved _ _ inductionHypothesis admitted).of_ok returned

/-- A run goes on with steps that a stricter condition admits. -/
theorem Reaches.extend {stricter : σ → ι → Prop} {init before after : σ}
    (weaken : ∀ state input, stricter state input → admits state input)
    (reached : Reaches step admits init before) (further : Reaches step stricter before after) :
    Reaches step admits init after := by
  induction further with
  | start => exact reached
  | step _ admitted returned inductionHypothesis =>
      exact inductionHypothesis.step (weaken _ _ admitted) returned

/-- Runs the inputs one after the other, as long as each is admitted. -/
def runFrom (step : σ → ι → Except ε σ) (admits : σ → ι → Prop)
    [∀ state input, Decidable (admits state input)] : σ → List ι → Option σ
  | state, [] => some state
  | state, input :: rest =>
      if admits state input then
        match step state input with
        | .ok after => runFrom step admits after rest
        | .error _ => none
      else none

theorem Reaches.of_runFrom [∀ state input, Decidable (admits state input)]
    {inputs : List ι} {init before after : σ} (reached : Reaches step admits init before)
    (ran : runFrom step admits before inputs = some after) : Reaches step admits init after := by
  induction inputs generalizing before with
  | nil =>
      cases ran
      exact reached
  | cons input rest inductionHypothesis =>
      unfold runFrom at ran
      split at ran
      · rename_i admitted
        split at ran
        · rename_i next returned
          exact inductionHypothesis (reached.step admitted returned) ran
        · cases ran
      · cases ran

end Runs

end Opal
