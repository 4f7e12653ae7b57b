import Opal.Scheduler.State

/-!
# The operations of the scheduler

Interrupts are off inside every operation, so a run is a sequence of operations of
whichever task is current.  The one point where control passes to another task is
the context switch of `schedule`: what the task switched in still has to do before it
enables interrupts is kept in its `ctx` and run by `resume`.
-/

namespace Opal.Scheduler

section Waking

/-- `wait_list_wake_one`, with its result. -/
def waitListWakeOne (s : Sched) (list : WaitList) : Run (Sched × Bool) :=
  match s.waitQueue list with
  | [] => .ok (s, false)
  | tid :: rest => do
      let s := s.setWaitQueue list rest
      let task ← s.getTask tid
      let s := s.setTask tid { task with waitFor := none }
      let s ← if task.hasTimeout then resetTimeout s tid else .ok s
      let s ← setReady s tid
      .ok (s.record (.woken list tid), true)

/-- At most `fuel` rounds of the loop of `wait_list_wake_all`. -/
def wakeAllLoop (list : WaitList) : Nat → Sched → Run Sched
  | 0, s => .ok s
  | fuel + 1, s =>
      if s.waitQueue list = [] then .ok s
      else do
        let (s, _) ← waitListWakeOne s list
        wakeAllLoop list fuel s

/-- Every round of the loop takes one task out of the queue. -/
def waitListWakeAll (s : Sched) (list : WaitList) : Run Sched :=
  wakeAllLoop list (s.waitQueue list).length s

end Waking

section Interrupts

/-- `event_signal` on the event of the interrupt queue, which resets itself. -/
def eventSignal (s : Sched) : Run Sched := do
  let (s, waken) ← waitListWakeOne s .irqEvent
  .ok { s with eventSignaled := !waken }

def irqmsgPush (s : Sched) (msg : IrqMsg) : Run (Sched × Bool) :=
  if s.msgQueue.length = irqQueueSize then do
    let s ← eventSignal
      { s with msgDrops := (s.msgDrops + 1) % 2 ^ 32, msgDropEvent := true }
    .ok (s, false)
  else do
    let s ← eventSignal { s with msgQueue := s.msgQueue ++ [msg] }
    .ok (s, true)

/-- `irqmsg_pop`, with the message it stores if there is one. -/
def irqmsgPop (s : Sched) : Sched × Option IrqMsg :=
  if s.msgDropEvent then ({ s with msgDropEvent := false }, some .drop)
  else
    match s.msgQueue with
    | [] => (s, none)
    | msg :: rest => ({ s with msgQueue := rest }, some msg)

/-- The loop of `irqmsg_timeout`, from the given nodes of the timeout queue on. -/
def irqmsgTimeoutLoop : List Nat → Sched → Run Sched
  | [], s => .ok s
  | tid :: rest, s => do
      let task ← s.getTask tid
      if task.waitTimeout > s.tick then .ok { s with soonestTimeout := task.waitTimeout }
      else
        let queue ← unlink tid s.timeoutQueue
        let s ← resetWaitFor { s with timeoutQueue := queue } tid
        let s ← setReady s tid
        irqmsgTimeoutLoop rest (s.record (.expired tid))

/-- The flag `has_timeout` of a task that timed out stays set: `task_wait` reads it. -/
def irqmsgTimeout (s : Sched) : Run Sched := irqmsgTimeoutLoop s.timeoutQueue s

end Interrupts

section Switching

def readyQueueTop (s : Sched) : Option Nat :=
  Priority.all.findSome? fun priority => (s.readyQueue priority).head?

/-- `ready_queue_pop`, `set_running` and the context switch. -/
def switchTo (s : Sched) (next : Nat) : Run Sched := do
  let task ← s.getTask next
  let queue ← unlink next (s.readyQueue task.priority)
  let s ← setRunning (s.setReadyQueue task.priority queue) next
  .ok ({ s with current := next }.record (.switched s.current next))

/-- The first lines of `schedule`: ask for `irqmsg_timeout` once a deadline has passed. -/
def requestTimeout (s : Sched) : Run Sched :=
  if s.soonestTimeout ≤ s.tick then do
    let (s, pushed) ← irqmsgPush s .schedTimeout
    .ok (if pushed then { s with soonestTimeout := uintptrMax } else s)
  else .ok s

def schedule (s : Sched) : Run Sched := do
  let s ← requestTimeout s
  let current ← s.getTask s.current
  match readyQueueTop s with
  | none => .ok (if current.state = .running then s else s.record (.stalled s.current))
  | some next =>
      let nextTask ← s.getTask next
      if current.state = .running then
        if current.priority.toNat < nextTask.priority.toNat then .ok s
        else
          let s ← setReady s s.current
          switchTo s next
      else switchTo s next

/-- What the current task does after `schedule` returned to it. -/
def resume (s : Sched) : Run Sched := do
  let task ← s.getTask s.current
  match task.ctx with
  | .returns => .ok s
  | .inTaskWait =>
      let s := s.setTask s.current { task with hasTimeout := false, ctx := .returns }
      .ok (s.record (.waitReturned s.current (!task.hasTimeout)))
  | .inTaskExit => .error .unreachable

/-- Calls `schedule` from a function of the current task that goes on as `ctx` says. -/
def scheduleFrom (s : Sched) (ctx : Context) : Run Sched := do
  let task ← s.getTask s.current
  let s ← schedule (s.setTask s.current { task with ctx := ctx })
  resume s

end Switching

section Waits

/-- `task_wait` from its `irqlock_acquire` on. -/
def taskWaitLocked (s : Sched) (list : Option WaitList) (timeout : Nat) : Run Sched := do
  let s ← if timeout = timeoutInfinity then setWaitFor s s.current list
    else setWaitTimeout s s.current list timeout
  scheduleFrom s .inTaskWait

def taskWait (s : Sched) (list : Option WaitList) (timeout : Nat) : Run Sched :=
  if timeout ≤ s.tick then .ok s else taskWaitLocked s list timeout

def taskJoin (s : Sched) (tid timeout : Nat) : Run Sched := do
  kassert (tid ≠ s.current)
  let task ← s.getTask tid
  if task.state = .dead then .ok s
  else if timeout ≤ s.tick then .ok s
  else taskWait s (some (.join tid)) timeout

/-- `event_wait` on the event of the interrupt queue. -/
def eventWait (s : Sched) (timeout : Nat) : Run Sched :=
  if s.eventSignaled then .ok { s with eventSignaled := false }
  else taskWait s (some .irqEvent) timeout

/-- `completion_wait` on the exit completion of a process. -/
def processJoin (s : Sched) (pid timeout : Nat) : Run Sched := do
  let proc ← s.getProc pid
  if proc.exitSignaled then .ok s else taskWait s (some (.exitCompl pid)) timeout

end Waits

section Lifetime

/-- `completion_signal` on the exit completion of a process. -/
def completionSignal (s : Sched) (pid : Nat) : Run Sched := do
  let proc ← s.getProc pid
  waitListWakeAll (s.setProc pid { proc with exitSignaled := true }) (.exitCompl pid)

def processInit (s : Sched) : Run Sched := do
  kassert (s.pidNext < intMax)
  let s := s.setProc s.pidNext { refcount := 1, taskList := [], exitSignaled := false }
  let s := s.setWaitQueue (.exitCompl s.pidNext) []
  .ok { s with pidNext := s.pidNext + 1 }

def processRetain (s : Sched) (pid : Nat) : Run Sched := do
  let proc ← s.getProc pid
  kassert (proc.refcount < intMax)
  .ok (s.setProc pid { proc with refcount := proc.refcount + 1 })

/-- The part of `process_free` that touches the process tree. -/
def processFree (s : Sched) (pid : Nat) : Run Sched := do
  let proc ← s.getProc pid
  if proc.taskList = [] then .ok { s with procs := Function.update s.procs pid none }
  else .error .panic

def processRelease (s : Sched) (pid : Nat) : Run Sched := do
  let proc ← s.getProc pid
  kassert (proc.refcount > 0)
  let s := s.setProc pid { proc with refcount := proc.refcount - 1 }
  if proc.refcount - 1 = 0 then processFree s pid else .ok s

def taskInit (s : Sched) (pid : Nat) : Run Sched := do
  kassert (s.tidNext < intMax)
  let tid := s.tidNext
  let s ← processRetain s pid
  let s := s.setTask tid
    { process := pid, refcount := 1, state := .waiting, priority := .normal
      waitFor := none, hasTimeout := false, waitTimeout := 0, kstack := false, ctx := .returns }
  let proc ← s.getProc pid
  let s := s.setProc pid { proc with taskList := proc.taskList ++ [tid] }
  .ok { s.setWaitQueue (.join tid) [] with tidNext := tid + 1 }

/-- `task_create`; `stack` and `slab` are the outcomes of its two allocations.  The wait
for the exit completion has timeout zero, so it only reads the completion. -/
def taskCreate (s : Sched) (pid : Nat) (priority : Priority) (stack slab : Bool) :
    Run Sched :=
  if stack then do
    let proc ← s.getProc pid
    if proc.exitSignaled then .ok s
    else if slab then
      let tid := s.tidNext
      let s ← taskInit s pid
      let task ← s.getTask tid
      let s ← setWaitFor (s.setTask tid { task with priority := priority }) tid none
      let task ← s.getTask tid
      .ok (s.setTask tid { task with kstack := true })
    else .ok s
  else .ok s

def taskSuspend (s : Sched) (tid : Nat) : Run Sched :=
  if s.current = tid then do
    let s ← setWaitFor s tid none
    scheduleFrom s .returns
  else do
    let task ← s.getTask tid
    kassert (task.state = .ready)
    let s ← resetReady s tid
    setWaitFor s tid none

def taskResume (s : Sched) (tid : Nat) : Run Sched := do
  let task ← s.getTask tid
  kassert (task.state = .waiting)
  kassert (task.waitFor = none)
  kassert (task.hasTimeout = false)
  let s ← resetWaitFor s tid
  setReady s tid

def taskFreeStack (s : Sched) (tid : Nat) : Run Sched := do
  let task ← s.getTask tid
  .ok (s.setTask tid { task with kstack := false })

def taskFree (s : Sched) (tid : Nat) : Run Sched := do
  let s ← taskFreeStack s tid
  let task ← s.getTask tid
  let proc ← s.getProc task.process
  let tasks ← unlink tid proc.taskList
  let s := s.setProc task.process { proc with taskList := tasks }
  let s ← if tasks = [] then completionSignal s task.process else .ok s
  let s ← processRelease s task.process
  .ok { s with tasks := Function.update s.tasks tid none }

def taskRelease (s : Sched) (tid : Nat) : Run Sched := do
  let task ← s.getTask tid
  kassert (task.refcount > 0)
  let s := s.setTask tid { task with refcount := task.refcount - 1 }
  if task.refcount - 1 = 0 ∧ task.state = .dead then taskFree s tid else .ok s

/-- `task_retain`, and `task_from_id` where it finds the task. -/
def taskRetain (s : Sched) (tid : Nat) : Run Sched := do
  let task ← s.getTask tid
  kassert (task.refcount < intMax)
  .ok (s.setTask tid { task with refcount := task.refcount + 1 })

def taskBeforeDying (s : Sched) (tid : Nat) : Run Sched := do
  let s ← setDead s tid
  waitListWakeAll s (.join tid)

def taskTerminate (s : Sched) (tid : Nat) : Run Sched := do
  let task ← s.getTask tid
  let s ← match task.state with
    | .dead => .error .panic
    | .running => .error .panic
    | .ready => resetReady s tid
    | .waiting => do
        let s ← resetTimeout s tid
        resetWaitFor s tid
  let s ← taskBeforeDying s tid
  let s ← taskFreeStack s tid
  taskRelease s tid

def taskExit (s : Sched) : Run Sched := do
  let tid := s.current
  let s ← taskBeforeDying s tid
  let s ← taskRetain s tid
  let s := { s with deadList := s.deadList ++ [tid] }
  scheduleFrom s .inTaskExit

/-- One call of `drain_dead`. -/
def drainDead (s : Sched) : Run Sched :=
  match s.deadList with
  | [] => .ok s
  | tid :: rest => taskRelease { s with deadList := rest } tid

end Lifetime

section System

/-- `sched_init`, before its first task has run. -/
def schedInit : Run Sched := do
  let s : Sched :=
    { tidNext := 0, tasks := fun _ => none, readyQueue := fun _ => [], deadList := []
      timeoutQueue := [], soonestTimeout := uintptrMax, current := kernelTid
      waitQueue := fun _ => [], pidNext := 0, procs := fun _ => none, tick := 0
      msgQueue := [], msgDrops := 0, msgDropEvent := false, eventSignaled := false
      handling := none, trace := [] }
  let s ← processInit s
  let s ← taskInit s 0
  let task ← s.getTask kernelTid
  let s ← setRunning (s.setTask kernelTid { task with priority := .kernel }) kernelTid
  let s ← taskInit s 0
  let task ← s.getTask idleTid
  setReady (s.setTask idleTid { task with priority := .idle }) idleTid

/-- One call of the current task, or of an interrupt handler that interrupts it. -/
inductive Call where
  | taskCreate (pid : Nat) (priority : Priority) (stack slab : Bool)
  | taskSuspend (tid : Nat)
  | taskResume (tid : Nat)
  | taskWait (list : Option WaitList) (timeout : Nat)
  /-- The rest of a `task_wait` that was interrupted between its look at the tick and the lock. -/
  | taskWaitLocked (list : Option WaitList) (timeout : Nat)
  | taskJoin (tid timeout : Nat)
  | taskTerminate (tid : Nat)
  | taskExit
  | taskRetain (tid : Nat)
  | taskRelease (tid : Nat)
  | waitListWakeOne (list : WaitList)
  | waitListWakeAll (list : WaitList)
  | schedule
  | isrTimer
  | drainDead
  | irqmsgPush (msg : IrqMsg)
  | irqmsgPop
  | irqmsgHandle
  | irqmsgTimeout
  | eventWait (timeout : Nat)
  | processCreate (allocated : Bool)
  | processRetain (pid : Nat)
  | processRelease (pid : Nat)
  | processJoin (pid timeout : Nat)
  deriving DecidableEq, Repr

/-- The handlers of device messages reach the scheduler only through other calls. -/
def handle (s : Sched) : IrqMsg → Run Sched
  | .schedTimeout => irqmsgTimeout s
  | _ => .ok s

def exec (s : Sched) : Call → Run Sched
  | .taskCreate pid priority stack slab => taskCreate s pid priority stack slab
  | .taskSuspend tid => taskSuspend s tid
  | .taskResume tid => taskResume s tid
  | .taskWait list timeout => taskWait s list timeout
  | .taskWaitLocked list timeout => taskWaitLocked s list timeout
  | .taskJoin tid timeout => taskJoin s tid timeout
  | .taskTerminate tid => taskTerminate s tid
  | .taskExit => taskExit s
  | .taskRetain tid => taskRetain s tid
  | .taskRelease tid => taskRelease s tid
  | .waitListWakeOne list => do
      let (s, _) ← waitListWakeOne s list
      .ok s
  | .waitListWakeAll list => waitListWakeAll s list
  | .schedule => scheduleFrom s .returns
  | .isrTimer => scheduleFrom { s with tick := (s.tick + 1) % 2 ^ 64 } .returns
  | .drainDead => drainDead s
  | .irqmsgPush msg => do
      let (s, _) ← irqmsgPush s msg
      .ok s
  | .irqmsgPop =>
      let (s, msg) := irqmsgPop s
      .ok { s with handling := msg }
  | .irqmsgHandle =>
      match s.handling with
      | none => .ok s
      | some msg => do
          let s ← handle s msg
          .ok { s with handling := none }
  | .irqmsgTimeout => irqmsgTimeout s
  | .eventWait timeout => eventWait s timeout
  | .processCreate allocated => if allocated then processInit s else .ok s
  | .processRetain pid => processRetain s pid
  | .processRelease pid => processRelease s pid
  | .processJoin pid timeout => processJoin s pid timeout

/-- The object the list is part of has not been freed. -/
def WaitList.Live (s : Sched) : WaitList → Prop
  | .join tid => (s.tasks tid).isSome
  | .exitCompl pid => (s.procs pid).isSome
  | .irqEvent | .object _ => True

instance (s : Sched) (list : WaitList) : Decidable (list.Live s) := by
  cases list <;> (unfold WaitList.Live; infer_instance)

/-- The idle task itself is never suspended, waiting or terminated, a task waits on the
lists of live objects, and the drain loop pops a message only after it handled the one
before. -/
def Admits (s : Sched) : Call → Prop
  | .taskSuspend tid | .taskTerminate tid => tid ≠ idleTid
  | .taskWait list _ | .taskWaitLocked list _ => s.current ≠ idleTid ∧ ∀ l ∈ list, l.Live s
  | .taskJoin .. | .eventWait _ | .processJoin .. | .taskExit => s.current ≠ idleTid
  | .irqmsgPop => s.handling = none
  | _ => True

instance (s : Sched) (call : Call) : Decidable (Admits s call) := by
  cases call <;> (unfold Admits; infer_instance)

end System

end Opal.Scheduler
