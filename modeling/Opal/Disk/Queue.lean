import Opal.Library.Outcome
import Mathlib.Data.Nat.ModEq
import Mathlib.Logic.Function.Basic

/-!
# The request queue of a disk

A ring of request slots shared by all disks of a port.  `wpos` is where the next request
is submitted, `fpos` is the request the driver works on, `rpos` is the oldest request
whose slot has not been reclaimed.  A request is named by its slot, as the kernel names
it by the address of the slot.  Each function runs with interrupts off, so a run is a
sequence of calls.
-/

namespace Opal.Disk

section Data

abbrev Kerrno := Int

def opalOk : Kerrno := 0
def opalEio : Kerrno := -1
def opalEunknown : Kerrno := -1000

inductive RequestType where
  | read
  | write
  deriving DecidableEq, Repr

inductive RequestState where
  | queued
  | inflight
  | done
  | released
  deriving DecidableEq, Repr

structure RequestInfo where
  lba : Nat
  sectors : Nat
  buffer : Nat
  type : RequestType
  deriving DecidableEq, Repr

/-- A request slot; `disk` is which of the disks that share the queue it was submitted to. -/
structure Request where
  info : RequestInfo
  disk : Nat
  state : RequestState
  result : Kerrno
  deriving DecidableEq, Repr

structure ReqQueue where
  buffer : Nat → Request
  capacity : Nat
  countDoing : Nat
  countDone : Nat
  wpos : Nat
  fpos : Nat
  rpos : Nat

/-- The assertions of the queue. -/
inductive Assertion where
  | fetchNotQueued
  | popNothingDoing
  | popNotInflight
  | releaseNothingDone
  | releaseNotDone
  | invalidRequestToRelease
  deriving DecidableEq, Repr

end Data

section Operations

variable (queue : ReqQueue)

def diskReqQueueInit (buffer : Nat → Request) (capacity : Nat) : ReqQueue where
  buffer := buffer
  capacity := capacity
  countDoing := 0
  countDone := 0
  wpos := 0
  fpos := 0
  rpos := 0

def diskReqQueueIsFullUnlocked : Prop := queue.countDoing + queue.countDone ≥ queue.capacity

instance : Decidable (diskReqQueueIsFullUnlocked queue) :=
  inferInstanceAs (Decidable (_ ≥ _))

def setState (slot : Nat) (state : RequestState) : ReqQueue :=
  { queue with buffer :=
      Function.update queue.buffer slot { queue.buffer slot with state := state } }

/-- The part of `submit_request` under the lock; the slot of the new request is returned. -/
def submitRequest (disk : Nat) (reqinfo : RequestInfo) : Option (Nat × ReqQueue) :=
  if diskReqQueueIsFullUnlocked queue then none
  else
    let new : Request := ⟨reqinfo, disk, .queued, opalEunknown⟩
    some (queue.wpos, { queue with
      buffer := Function.update queue.buffer queue.wpos new
      wpos := (queue.wpos + 1) % queue.capacity
      countDoing := queue.countDoing + 1 })

def diskReqQueueFetch : Except Assertion (Option Nat × ReqQueue) :=
  if queue.countDoing = 0 then .ok (none, queue)
  else if (queue.buffer queue.fpos).state ≠ .queued then .error .fetchNotQueued
  else .ok (some queue.fpos, setState queue queue.fpos .inflight)

def diskReqQueuePopFetched (result : Kerrno) : Except Assertion ReqQueue :=
  if queue.countDoing = 0 then .error .popNothingDoing
  else if (queue.buffer queue.fpos).state ≠ .inflight then .error .popNotInflight
  else .ok { queue with
    buffer := Function.update queue.buffer queue.fpos
      { queue.buffer queue.fpos with state := .done, result := result }
    fpos := (queue.fpos + 1) % queue.capacity
    countDoing := queue.countDoing - 1
    countDone := queue.countDone + 1 }

/-- The first loop of `disk_request_release`: drops released requests from the head.
Returns the new `count_done` and `rpos` and whether `req` was among them. -/
def reclaim (buffer : Nat → Request) (capacity req : Nat) :
    Nat → Nat → Bool → Nat × Nat × Bool
  | 0, rpos, found => (0, rpos, found)
  | countDone + 1, rpos, found =>
      if (buffer rpos).state ≠ .released then (countDone + 1, rpos, found)
      else reclaim buffer capacity req countDone ((rpos + 1) % capacity) (found || rpos == req)

/-- The second loop: looks for `req` among the requests that stay. -/
def findRemaining (capacity req : Nat) : Nat → Nat → Bool
  | 0, _ => false
  | remaining + 1, pos =>
      pos == req || findRemaining capacity req remaining ((pos + 1) % capacity)

def diskRequestRelease (req : Nat) : Except Assertion (Kerrno × ReqQueue) :=
  if queue.countDone = 0 then .error .releaseNothingDone
  else if (queue.buffer req).state ≠ .done then .error .releaseNotDone
  else
    let queue := setState queue req .released
    match reclaim queue.buffer queue.capacity req queue.countDone queue.rpos false with
    | (countDone, rpos, found) =>
        if found || findRemaining queue.capacity req countDone rpos then
          .ok ((queue.buffer req).result, { queue with countDone := countDone, rpos := rpos })
        else .error .invalidRequestToRelease

end Operations

section Runs

/-- The queue with the requests it has been given, numbered in the order of their
submission.  No operation of the queue reads the rest. -/
structure System where
  queue : ReqQueue
  submitted : Nat
  /-- Every request that was accepted, with the disk it is for. -/
  requests : List (Nat × RequestInfo)
  /-- The number of the request that was last handed out in a slot. -/
  number : Nat → Option Nat
  fetched : List Nat
  completed : List Nat
  released : List Nat

def System.init (buffer : Nat → Request) (capacity : Nat) : System where
  queue := diskReqQueueInit buffer capacity
  submitted := 0
  requests := []
  number := fun _ => none
  fetched := []
  completed := []
  released := []

namespace System

variable (system : System)

def submit (disk : Nat) (reqinfo : RequestInfo) : System :=
  match submitRequest system.queue disk reqinfo with
  | none => system
  | some (slot, queue) => { system with
      queue := queue
      submitted := system.submitted + 1
      requests := system.requests ++ [(disk, reqinfo)]
      number := Function.update system.number slot (some system.submitted) }

def fetch : Except Assertion (Option Nat × System) := do
  let (slot, queue) ← diskReqQueueFetch system.queue
  pure (slot, { system with
    queue := queue
    fetched := system.fetched ++ (slot.bind system.number).toList })

def popFetched (result : Kerrno) : Except Assertion System := do
  let queue ← diskReqQueuePopFetched system.queue result
  pure { system with
    queue := queue
    completed := system.completed ++ (system.number system.queue.fpos).toList }

def release (req : Nat) : Except Assertion System := do
  let (_, queue) ← diskRequestRelease system.queue req
  pure { system with
    queue := queue
    released := system.released ++ (system.number req).toList }

/-- The driver has nothing in flight. -/
def Idle : Prop := system.fetched = system.completed

/-- The request in the slot was completed and its holder has not released it. -/
def Releasable (req : Nat) : Prop :=
  ∃ number ∈ system.number req, number ∈ system.completed ∧ number ∉ system.released

instance : Decidable system.Idle := inferInstanceAs (Decidable (_ = _))

instance (req : Nat) : Decidable (system.Releasable req) :=
  inferInstanceAs (Decidable (∃ number ∈ system.number req, _))

end System

inductive Call where
  | submit (disk : Nat) (reqinfo : RequestInfo)
  | fetch
  | popFetched (result : Kerrno)
  | release (req : Nat)
  deriving DecidableEq, Repr

def step (system : System) : Call → Except Assertion System
  | .submit disk reqinfo => .ok (system.submit disk reqinfo)
  | .fetch => Prod.snd <$> system.fetch
  | .popFetched result => system.popFetched result
  | .release req => system.release req

/-- The driver fetches when it has nothing in flight and completes what it fetched;
requests are released once, after they were completed. -/
def admits (system : System) : Call → Prop
  | .submit _ _ => True
  | .fetch => system.Idle
  | .popFetched _ => ¬ system.Idle
  | .release req => system.Releasable req

instance (system : System) (call : Call) : Decidable (admits system call) := by
  cases call <;> unfold admits <;> infer_instance

end Runs

end Opal.Disk
