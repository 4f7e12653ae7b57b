import Opal.Basic
import Opal.Library.Outcome
import Mathlib.Algebra.Group.Nat.Defs
import Mathlib.Logic.Function.Basic

/-!
# Tasks, processes and the scheduler state

Tasks and processes are named by their ids, which are never used twice.  The
intrusive lists are plain lists of ids, and the timeout tree is the list of its nodes
in order.  A function stops when an assertion fires or a pointer is stale; unlinking
a task from a list that does not hold it is a stop of its own, `corrupted`.
-/

namespace Opal.Scheduler

section Data

inductive TaskState where
  | ready
  | running
  | waiting
  | dead
  deriving DecidableEq, Repr

inductive Priority where
  | critical
  | kernel
  | highest
  | high
  | normal
  | low
  | lowest
  | idle
  deriving DecidableEq, Repr

namespace Priority

/-- The numbers of `enum task_priority`. -/
def toNat : Priority → Nat
  | critical => 0
  | kernel => 1
  | highest => 2
  | high => 3
  | normal => 4
  | low => 5
  | lowest => 6
  | idle => 7

/-- The order in which `ready_queue_top` looks at the ready queues. -/
def all : List Priority := [critical, kernel, highest, high, normal, low, lowest, idle]

theorem mem_all (priority : Priority) : priority ∈ all := by
  cases priority <;> decide

end Priority

/-- Where a task can wait: the join list of a task, the exit completion of a process,
the event of the interrupt queue, or a list of some other object. -/
inductive WaitList where
  | join (tid : Nat)
  | exitCompl (pid : Nat)
  | irqEvent
  | object (id : Nat)
  deriving DecidableEq, Repr

/-- What a task still runs with interrupts off once it is switched in again. -/
inductive Context where
  | returns
  | inTaskWait
  | inTaskExit
  deriving DecidableEq, Repr

structure Task where
  process : Nat
  refcount : Nat
  state : TaskState
  priority : Priority
  waitFor : Option WaitList
  hasTimeout : Bool
  waitTimeout : Nat
  kstack : Bool
  ctx : Context
  deriving DecidableEq, Repr

structure Process where
  refcount : Nat
  taskList : List Nat
  exitSignaled : Bool
  deriving DecidableEq, Repr

inductive IrqMsg where
  | drop
  | ps2Kbd (data : Nat)
  | ps2Mouse (data : Nat)
  | uartRx (data : Nat)
  | schedTimeout
  deriving DecidableEq, Repr

/-- What the trace of a run records. -/
inductive Event where
  | becameReady (tid : Nat)
  | woken (list : WaitList) (tid : Nat)
  | expired (tid : Nat)
  | switched (tid next : Nat)
  /-- `schedule` returned to a task that is not running, having found no other. -/
  | stalled (tid : Nat)
  | waitReturned (tid : Nat) (ok : Bool)
  deriving DecidableEq, Repr

structure Sched where
  tidNext : Nat
  tasks : Nat → Option Task
  readyQueue : Priority → List Nat
  deadList : List Nat
  timeoutQueue : List Nat
  soonestTimeout : Nat
  current : Nat
  waitQueue : WaitList → List Nat
  pidNext : Nat
  procs : Nat → Option Process
  tick : Nat
  msgQueue : List IrqMsg
  msgDrops : Nat
  msgDropEvent : Bool
  eventSignaled : Bool
  /-- The message `irqmsg_drain_loop` has popped and not handled yet. -/
  handling : Option IrqMsg
  /-- What happened so far, latest first; no operation reads it. -/
  trace : List Event

inductive Stop where
  | assertion
  | panic
  | dangling
  /-- A link is taken out of a list that does not hold it. -/
  | corrupted
  /-- The panic at the end of `task_exit`. -/
  | unreachable
  deriving DecidableEq, Repr

/-- `MAX_REFC`, `TID_END`, `PID_END`. -/
def intMax : Nat := 2 ^ 31 - 1

/-- `IRQ_QUEUE_SIZE`. -/
def irqQueueSize : Nat := 4096

def timeoutInfinity : Nat := uintptrMax

/-- The ids of `g_kernel` and `g_idle`. -/
def kernelTid : Nat := 0

def idleTid : Nat := 1

end Data

abbrev Run := Except Stop

/-- `kassert`. -/
def kassert (condition : Prop) [Decidable condition] : Run Unit :=
  if condition then .ok () else .error .assertion

/-- `linkedlist_remove` of the link of `tid`, and `rbtree_remove` of its node. -/
def unlink (tid : Nat) (queue : List Nat) : Run (List Nat) :=
  if tid ∈ queue then .ok (queue.erase tid) else .error .corrupted

namespace Sched

def getTask (s : Sched) (tid : Nat) : Run Task :=
  match s.tasks tid with
  | some task => .ok task
  | none => .error .dangling

def setTask (s : Sched) (tid : Nat) (task : Task) : Sched :=
  { s with tasks := Function.update s.tasks tid (some task) }

def getProc (s : Sched) (pid : Nat) : Run Process :=
  match s.procs pid with
  | some proc => .ok proc
  | none => .error .dangling

def setProc (s : Sched) (pid : Nat) (proc : Process) : Sched :=
  { s with procs := Function.update s.procs pid (some proc) }

def setReadyQueue (s : Sched) (priority : Priority) (queue : List Nat) : Sched :=
  { s with readyQueue := Function.update s.readyQueue priority queue }

def setWaitQueue (s : Sched) (list : WaitList) (queue : List Nat) : Sched :=
  { s with waitQueue := Function.update s.waitQueue list queue }

def record (s : Sched) (event : Event) : Sched := { s with trace := event :: s.trace }

end Sched

section Queues

def setRunning (s : Sched) (tid : Nat) : Run Sched := do
  let task ← s.getTask tid
  .ok (s.setTask tid { task with state := .running })

def setReady (s : Sched) (tid : Nat) : Run Sched := do
  let task ← s.getTask tid
  let s := s.setTask tid { task with state := .ready }
  let s := s.setReadyQueue task.priority (s.readyQueue task.priority ++ [tid])
  .ok (s.record (.becameReady tid))

def resetReady (s : Sched) (tid : Nat) : Run Sched := do
  let task ← s.getTask tid
  let queue ← unlink tid (s.readyQueue task.priority)
  .ok (s.setReadyQueue task.priority queue)

def resetWaitFor (s : Sched) (tid : Nat) : Run Sched := do
  let task ← s.getTask tid
  match task.waitFor with
  | none => .ok s
  | some list =>
      let queue ← unlink tid (s.waitQueue list)
      .ok ((s.setWaitQueue list queue).setTask tid { task with waitFor := none })

def resetTimeout (s : Sched) (tid : Nat) : Run Sched := do
  let task ← s.getTask tid
  if task.hasTimeout then
    let queue ← unlink tid s.timeoutQueue
    .ok ({ s with timeoutQueue := queue }.setTask tid { task with hasTimeout := false })
  else .ok s

def setWaitFor (s : Sched) (tid : Nat) (list : Option WaitList) : Run Sched := do
  let task ← s.getTask tid
  let s := s.setTask tid
    { task with state := .waiting, waitFor := list, hasTimeout := false }
  match list with
  | none => .ok s
  | some list => .ok (s.setWaitQueue list (s.waitQueue list ++ [tid]))

/-- `timeout_compare`: by deadline, then by id. -/
def timeoutBefore (deadline : Nat → Nat) (a b : Nat) : Bool :=
  deadline a < deadline b || (deadline a = deadline b && a < b)

/-- `rbtree_insert_timeout`. -/
def insertTimeout (deadline : Nat → Nat) (tid : Nat) : List Nat → List Nat
  | [] => [tid]
  | other :: rest =>
      if timeoutBefore deadline tid other then tid :: other :: rest
      else other :: insertTimeout deadline tid rest

def Sched.deadline (s : Sched) (tid : Nat) : Nat :=
  match s.tasks tid with
  | some task => task.waitTimeout
  | none => 0

def setWaitTimeout (s : Sched) (tid : Nat) (list : Option WaitList) (timeout : Nat) :
    Run Sched := do
  let s ← setWaitFor s tid list
  let task ← s.getTask tid
  let s := s.setTask tid { task with hasTimeout := true, waitTimeout := timeout }
  let s := { s with timeoutQueue := insertTimeout s.deadline tid s.timeoutQueue }
  .ok (if s.soonestTimeout > timeout then { s with soonestTimeout := timeout } else s)

def setDead (s : Sched) (tid : Nat) : Run Sched := do
  let task ← s.getTask tid
  .ok (s.setTask tid { task with state := .dead })

end Queues

end Opal.Scheduler
