import Opal.Library.Outcome
import Mathlib.Data.List.Basic
import Mathlib.Logic.Function.Basic

/-!
# Coroutines and their worker

The worker is one task, so a handler runs at most once at a time, and everything but the
handler runs with interrupts disabled.  The auto-reset event that the worker waits for has
no other waiter.  A coroutine that is done gets another call of its handler to clean up,
which changes neither the queue nor a state.
-/

namespace Opal.Coroutine

section Data

/-- `co_state_t`. -/
inductive CoState where
  | deferred
  | ready
  | done
  deriving DecidableEq, Repr

/-- Where the worker is. -/
inductive Worker where
  /-- Before `event_wait`. -/
  | starting
  /-- In the wait list of the event. -/
  | waiting
  /-- Behind `event_wait`, before the loop over the queue. -/
  | awake
  /-- In a handler, without the lock. -/
  | running (co : Nat)
  deriving DecidableEq, Repr

/-- The coroutine whose handler runs. -/
def Worker.current : Worker → Option Nat
  | .running co => some co
  | _ => none

structure Pool where
  jobQueue : List Nat
  state : Nat → CoState
  signaled : Bool
  worker : Worker

inductive Stop where
  /-- A coroutine is linked that is in the queue already, which ruins the list. -/
  | linkedTwice
  deriving DecidableEq, Repr

end Data

section Queue

/-- `linkedlist_push_back`. -/
def linkedlistPushBack (jobQueue : List Nat) (co : Nat) : Except Stop (List Nat) :=
  if co ∈ jobQueue then .error .linkedTwice else .ok (jobQueue ++ [co])

/-- The loop over the queue up to the next handler run: the coroutine that is run, and the
queue behind it. -/
def popReady (state : Nat → CoState) : List Nat → Option Nat × List Nat
  | [] => (none, [])
  | co :: rest => if state co = .ready then (some co, rest) else popReady state rest

end Queue

section Calls

def coroutineWorkerInit : Pool :=
  { jobQueue := [], state := fun _ => .deferred, signaled := false, worker := .starting }

def coroutineInit (pool : Pool) (co : Nat) : Pool :=
  { pool with state := Function.update pool.state co .deferred }

/-- `event_signal` on `g_job_event`. -/
def eventSignal (pool : Pool) : Pool :=
  match pool.worker with
  | .waiting => { pool with worker := .awake, signaled := false }
  | _ => { pool with signaled := true }

def coroutineSetReady (pool : Pool) (co : Nat) : Except Stop Pool := do
  let jobQueue ← linkedlistPushBack pool.jobQueue co
  .ok (eventSignal
    { pool with state := Function.update pool.state co .ready, jobQueue := jobQueue })

/-- `event_wait` on `g_job_event`. -/
def eventWait (pool : Pool) : Pool :=
  if pool.signaled then { pool with worker := .awake, signaled := false }
  else { pool with worker := .waiting }

/-- The worker goes on with the queue, until it runs a handler or the queue is empty. -/
def drain (pool : Pool) : Pool :=
  match popReady pool.state pool.jobQueue with
  | (some co, rest) => { pool with jobQueue := rest, worker := .running co }
  | (none, rest) => { pool with jobQueue := rest, worker := .starting }

/-- What the worker does once a handler has returned. -/
def handlerReturns (pool : Pool) (co : Nat) (state : CoState) : Except Stop Pool :=
  let pool := { pool with state := Function.update pool.state co state }
  if state = .ready then do
    let jobQueue ← linkedlistPushBack pool.jobQueue co
    .ok (drain { pool with jobQueue := jobQueue })
  else .ok (drain pool)

end Calls

section Runs

/-- The coroutines with those that were set ready and have neither started to run since nor
been done. -/
structure World where
  pool : Pool
  owed : Nat → Bool

inductive Action where
  /-- `coroutine_init` on an object. -/
  | init (co : Nat)
  | setReady (co : Nat)
  /-- The worker calls `event_wait`. -/
  | wait
  /-- The worker takes the lock after `event_wait`. -/
  | wake
  /-- The handler that runs returns. -/
  | returns (state : CoState)
  deriving DecidableEq, Repr

def World.start : World := { pool := coroutineWorkerInit, owed := fun _ => false }

/-- A run that starts meets what was asked for. -/
def settle (owed : Nat → Bool) : Worker → Nat → Bool
  | .running co => Function.update owed co false
  | _ => owed

def step (world : World) : Action → Except Stop World
  | .init co => .ok { world with pool := coroutineInit world.pool co }
  | .setReady co => do
      let pool ← coroutineSetReady world.pool co
      .ok { pool := pool, owed := Function.update world.owed co true }
  | .wait => .ok { world with pool := eventWait world.pool }
  | .wake =>
      let pool := drain world.pool
      .ok { pool := pool, owed := settle world.owed pool.worker }
  | .returns state =>
      match world.pool.worker with
      | .running co => do
          let pool ← handlerReturns world.pool co state
          let owed := if state = .done then Function.update world.owed co false else world.owed
          .ok { pool := pool, owed := settle owed pool.worker }
      | _ => .ok world

/-- What callers and the worker may do next.  A coroutine is set ready that is neither in the
queue nor done, and initialized that is not in use. -/
def Admits (world : World) : Action → Prop
  | .init co => co ∉ world.pool.jobQueue ∧ world.pool.worker ≠ .running co
  | .setReady co => co ∉ world.pool.jobQueue ∧ world.pool.state co ≠ .done
  | .wait => world.pool.worker = .starting
  | .wake => world.pool.worker = .awake
  | .returns _ => world.pool.worker.current.isSome

/-- A handler returns something else than `CO_DONE` only if its coroutine was not set ready
while it ran. -/
def Kept (world : World) : Action → Prop
  | .returns state =>
      ∀ co ∈ world.pool.worker.current, co ∈ world.pool.jobQueue → state = .done
  | _ => True

instance (world : World) : (action : Action) → Decidable (Admits world action)
  | .init co =>
      inferInstanceAs (Decidable (co ∉ world.pool.jobQueue ∧ world.pool.worker ≠ .running co))
  | .setReady co =>
      inferInstanceAs (Decidable (co ∉ world.pool.jobQueue ∧ world.pool.state co ≠ .done))
  | .wait => inferInstanceAs (Decidable (world.pool.worker = .starting))
  | .wake => inferInstanceAs (Decidable (world.pool.worker = .awake))
  | .returns _ => inferInstanceAs (Decidable (world.pool.worker.current.isSome))

instance (world : World) : (action : Action) → Decidable (Kept world action)
  | .init _ | .setReady _ | .wait | .wake => inferInstanceAs (Decidable True)
  | .returns state => inferInstanceAs (Decidable (∀ co ∈ world.pool.worker.current,
      co ∈ world.pool.jobQueue → state = .done))

end Runs

end Opal.Coroutine
