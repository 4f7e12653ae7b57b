import Opal.Library.Outcome
import Mathlib.Data.List.Basic
import Mathlib.Logic.Function.Basic

/-!
# Mutexes

Interrupts are off from the start of a call until it returns or blocks in `task_wait`, and
again from the moment a woken task runs until it has tried again, so a run is a sequence of
such segments.  Which of the tasks that are ready runs next is left open, so the segments of
different tasks come in any order.  The waits have no timeout, so `task_wait` returns once
the task is woken, with `true`.
-/

namespace Opal.Mutex

section Data

structure Mutex (Tid : Type) where
  waitList : List Tid
  owner : Option Tid

/-- Where a task is with respect to the mutex. -/
inductive Phase where
  | outside
  /-- In `task_wait`, in the wait list. -/
  | waiting
  /-- In `task_wait`, woken and ready. -/
  | woken
  /-- Past `mutex_lock` and not yet at `mutex_unlock`. -/
  | inside
  deriving DecidableEq, Repr

/-- A mutex with the tasks that use it. -/
structure System (Tid : Type) where
  mutex : Mutex Tid
  phase : Tid → Phase

inductive Stop where
  /-- `mutex: recursive lock`. -/
  | recursive
  /-- `mutex: unlock by non-owner`. -/
  | nonOwner
  deriving DecidableEq, Repr

end Data

variable {Tid : Type} [DecidableEq Tid]

section Calls

def System.setPhase (s : System Tid) (tid : Tid) (phase : Phase) : System Tid :=
  { s with phase := Function.update s.phase tid phase }

def mutexInit : Mutex Tid := { waitList := [], owner := none }

def tryAcquire (mutex : Mutex Tid) (current : Tid) : Except Stop (Mutex Tid × Bool) :=
  if mutex.owner = some current then .error .recursive
  else if mutex.owner.isSome then .ok (mutex, false)
  else .ok ({ mutex with owner := some current }, true)

/-- `task_wait` up to the point where another task runs. -/
def taskWait (s : System Tid) (current : Tid) : System Tid :=
  { s with mutex := { s.mutex with waitList := s.mutex.waitList ++ [current] } }.setPhase current
    .waiting

def waitListWakeOne (s : System Tid) : System Tid :=
  match s.mutex.waitList with
  | [] => s
  | tid :: rest => { s with mutex := { s.mutex with waitList := rest } }.setPhase tid .woken

/-- One try of `mutex_lock`, at the start of the call or behind `task_wait`. -/
def lockRound (s : System Tid) (current : Tid) : Except Stop (System Tid) := do
  let (mutex, acquired) ← tryAcquire s.mutex current
  if acquired then .ok ({ s with mutex := mutex }.setPhase current .inside)
  else .ok (taskWait s current)

def mutexUnlock (s : System Tid) (current : Tid) : Except Stop (System Tid) :=
  if s.mutex.owner = some current then
    .ok ((waitListWakeOne { s with mutex := { s.mutex with owner := none } }).setPhase current
      .outside)
  else .error .nonOwner

end Calls

section Runs

/-- One segment with interrupts off. -/
inductive Action (Tid : Type) where
  /-- The start of `mutex_lock`. -/
  | lock (current : Tid)
  /-- The task runs again behind `task_wait`. -/
  | retry (current : Tid)
  | unlock (current : Tid)
  deriving DecidableEq, Repr

def System.init : System Tid := { mutex := mutexInit, phase := fun _ => .outside }

def step (s : System Tid) : Action Tid → Except Stop (System Tid)
  | .lock current | .retry current => lockRound s current
  | .unlock current => mutexUnlock s current

/-- No task locks the mutex in a call of its own or while it has it, and only the owner
unlocks it. -/
def Admits (s : System Tid) : Action Tid → Prop
  | .lock current => s.phase current = .outside
  | .retry current => s.phase current = .woken
  | .unlock current => s.mutex.owner = some current

instance (s : System Tid) : (action : Action Tid) → Decidable (Admits s action)
  | .lock current => inferInstanceAs (Decidable (s.phase current = .outside))
  | .retry current => inferInstanceAs (Decidable (s.phase current = .woken))
  | .unlock current => inferInstanceAs (Decidable (s.mutex.owner = some current))

end Runs

end Opal.Mutex
