import Mathlib.Logic.Basic

/-!
# Operations that fail and keep their state

An operation on a state returns a value or an error; what it wrote before an error stays.
This is the discipline of functions that return an error code and are handed a structure
by reference, and the reason why such a function has to undo its own writes.
-/

namespace Opal

/-- A computation on `σ` that returns an `α` or fails with an `ε`, and leaves a state. -/
def Op (σ ε α : Type) : Type := σ → Except ε α × σ

namespace Op

variable {σ ε α β : Type} {s s' : σ}

instance : Monad (Op σ ε) where
  pure value := fun s => (.ok value, s)
  bind x f := fun s =>
    match x s with
    | (.ok value, s') => f value s'
    | (.error error, s') => (.error error, s')

def fail (error : ε) : Op σ ε α := fun s => (.error error, s)

def get : Op σ ε σ := fun s => (.ok s, s)

def modify (change : σ → σ) : Op σ ε Unit := fun s => (.ok (), change s)

@[simp]
theorem run_pure {value : α} : (pure value : Op σ ε α) s = (.ok value, s) := rfl

@[simp]
theorem run_fail {error : ε} : (fail error : Op σ ε α) s = (.error error, s) := rfl

@[simp]
theorem run_get : (get : Op σ ε σ) s = (.ok s, s) := rfl

@[simp]
theorem run_modify {change : σ → σ} : (modify change : Op σ ε Unit) s = (.ok (), change s) := rfl

theorem run_bind (x : Op σ ε α) (f : α → Op σ ε β) : (x >>= f) s =
    match x s with
    | (.ok value, s') => f value s'
    | (.error error, s') => (.error error, s') := rfl

@[simp]
theorem run_get_bind (f : σ → Op σ ε β) : ((get : Op σ ε σ) >>= f) s = f s s := rfl

@[simp]
theorem run_modify_bind {change : σ → σ} (f : Unit → Op σ ε β) :
    ((modify change : Op σ ε Unit) >>= f) s = f () (change s) := rfl

theorem run_bind_ok {x : Op σ ε α} {value : α} (ran : x s = (.ok value, s')) (f : α → Op σ ε β) :
    (x >>= f) s = f value s' := by
  rw [run_bind, ran]

theorem run_bind_error {x : Op σ ε α} {error : ε} (ran : x s = (.error error, s'))
    (f : α → Op σ ε β) : (x >>= f) s = (.error error, s') := by
  rw [run_bind, ran]

end Op

end Opal
