import Opal.Scheduler.Timeouts
import Opal.Mutex.Exclusion
import Opal.Coroutine.Operations

/-!
# Mutexes and the coroutine worker on the tasks of the scheduler

The models of the mutex and of the worker keep a wait list of their own.  Here that list is
one of the scheduler: what the models do when they wait and wake is what `task_wait` and
`wait_list_wake_one` do to the list.  Between these calls any other call may come that leaves
the list alone, as one does that only switches tasks.
-/

namespace Opal.Scheduler

section Lists

variable {s : Sched} {tid : Nat} {list : WaitList} {ctx : Context}

/-- The computation changes no queue but the one of the list, if it returns. -/
abbrev SparesBut (list : WaitList) (s : Sched) : Run Sched → Prop :=
  Ensures (fun _ => True) fun s' => ∀ other ≠ list, s'.waitQueue other = s.waitQueue other

theorem SparesBut.then {x : Run Sched} {f : Sched → Run Sched} (first : SparesBut list s x)
    (second : ∀ s', SparesBut list s' (f s')) : SparesBut list s (x >>= f) := by
  refine Ensures.bind first fun s' spares => ?_
  exact (second s').mono fun s'' spares' other differs =>
    (spares' other differs).trans (spares other differs)

theorem setReady_spares (list : WaitList) : SparesBut list s (setReady s tid) :=
  any_getTask fun _ _ _ _ => rfl

theorem setRunning_spares (list : WaitList) : SparesBut list s (setRunning s tid) :=
  any_getTask fun _ _ _ _ => rfl

theorem resetTimeout_spares (list : WaitList) : SparesBut list s (resetTimeout s tid) := by
  unfold resetTimeout
  apply any_getTask
  intro task present
  split
  · exact any_unlink fun _ _ => rfl
  · exact fun _ _ => rfl

/-- The result tells whether a task was woken. -/
theorem waitListWakeOne_spares : Ensures (fun _ => True)
    (fun r => (∀ other ≠ list, r.1.waitQueue other = s.waitQueue other) ∧
      r.2 = !(s.waitQueue list).isEmpty) (waitListWakeOne s list) := by
  unfold waitListWakeOne
  cases s.waitQueue list with
  | nil => exact ⟨fun _ _ => rfl, rfl⟩
  | cons tid rest =>
      have popped (other : WaitList) (differs : other ≠ list) :
          (s.setWaitQueue list rest).waitQueue other = s.waitQueue other :=
        Function.update_of_ne differs ..
      apply any_getTask
      intro task present
      have ready (s₁ : Sched) (spares : ∀ other ≠ list, s₁.waitQueue other = s.waitQueue other) :
          Ensures (fun _ => True)
            (fun r => (∀ other ≠ list, r.1.waitQueue other = s.waitQueue other) ∧ r.2 = true)
            (setReady s₁ tid >>= fun s => .ok (s.record (.woken list tid), true)) := by
        refine Ensures.bind (setReady_spares list) fun s₂ spares₂ => ?_
        exact ⟨fun other differs => (spares₂ other differs).trans (spares other differs), rfl⟩
      dsimp only
      split
      · refine Ensures.bind (resetTimeout_spares list) fun s₁ spares₁ => ?_
        exact ready s₁ fun other differs => (spares₁ other differs).trans (popped other differs)
      · exact ready _ popped

theorem eventSignal_spares : SparesBut .irqEvent s (eventSignal s) := by
  refine Ensures.bind waitListWakeOne_spares ?_
  rintro ⟨s₁, waken⟩ ⟨spares, -⟩
  exact spares

theorem irqmsgPush_spares {msg : IrqMsg} : Ensures (fun _ => True)
    (fun r => ∀ other ≠ .irqEvent, r.1.waitQueue other = s.waitQueue other)
    (irqmsgPush s msg) := by
  unfold irqmsgPush
  split
  · exact Ensures.bind eventSignal_spares fun _ spares => spares
  · exact Ensures.bind eventSignal_spares fun _ spares => spares

theorem requestTimeout_spares : SparesBut .irqEvent s (requestTimeout s) := by
  unfold requestTimeout
  split
  · refine Ensures.bind irqmsgPush_spares ?_
    rintro ⟨s₁, pushed⟩ spares
    cases pushed with
    | true => exact spares
    | false => exact spares
  · exact fun _ _ => rfl

theorem switchTo_spares : SparesBut list s (switchTo s tid) := by
  unfold switchTo
  apply any_getTask
  intro task present
  apply any_unlink
  refine Ensures.bind (setRunning_spares list) fun s₁ spares => ?_
  exact spares

/-- A switch asks at most for the timeouts, which signals the event of the interrupt queue. -/
theorem schedule_spares : SparesBut .irqEvent s (schedule s) := by
  unfold schedule
  apply requestTimeout_spares.then
  intro s₁
  apply any_getTask
  intro current present
  cases readyQueueTop s₁ with
  | none =>
      dsimp only
      split
      · exact fun _ _ => rfl
      · exact fun _ _ => rfl
  | some next =>
      apply any_getTask
      intro nextTask found
      split
      · split
        · exact fun _ _ => rfl
        · exact (setReady_spares _).then fun s₂ => switchTo_spares
      · exact switchTo_spares

theorem resume_spares : SparesBut list s (resume s) := by
  unfold resume
  apply any_getTask
  intro task present
  cases task.ctx with
  | returns => exact fun _ _ => rfl
  | inTaskWait => exact fun _ _ => rfl
  | inTaskExit => trivial

theorem scheduleFrom_spares : SparesBut .irqEvent s (scheduleFrom s ctx) := by
  unfold scheduleFrom
  apply any_getTask
  intro task present
  refine Ensures.bind schedule_spares fun s₁ spares => ?_
  exact resume_spares.mono fun s₂ spares' other differs =>
    (spares' other differs).trans (spares other differs)

/-- A wait without timeout puts the current task at the end of the list. -/
theorem taskWait_appends (early : s.tick < timeoutInfinity) (differs : list ≠ .irqEvent) :
    Ensures (fun _ => True) (fun s' => s'.waitQueue list = s.waitQueue list ++ [s.current])
      (taskWait s (some list) timeoutInfinity) := by
  unfold taskWait taskWaitLocked
  rw [if_neg (Nat.not_le.mpr early), if_pos rfl]
  have appended : Ensures (fun _ => True)
      (fun s' : Sched => s'.waitQueue list = s.waitQueue list ++ [s.current])
      (setWaitFor s s.current (some list)) :=
    any_getTask fun _ _ => Function.update_self ..
  refine Ensures.bind appended fun s₁ queue => ?_
  exact scheduleFrom_spares.mono fun s₂ spares => (spares list differs).trans queue

/-- Who is in a list waits there. -/
theorem Settled.waits_iff (settled : Settled s) :
    tid ∈ s.waitQueue list ↔
      ∃ task, s.tasks tid = some task ∧ task.state = .waiting ∧ task.waitFor = some list := by
  rw [show s.waitQueue list = s.container (.wait list) from rfl, settled.1.mem_iff]
  exact and_iff_right nofun

theorem Settled.current_not_mem (settled : Settled s) : s.current ∉ s.waitQueue list := by
  rw [settled.waits_iff]
  rintro ⟨task, present, waiting, -⟩
  obtain ⟨value, found, runs⟩ := settled.2
  rw [present] at found
  cases found
  rw [waiting] at runs
  cases runs

/-- The result of a wake and the list without its first task, in a settled state. -/
theorem Settled.wakes (settled : Settled s) :
    Ensures Tolerated (fun r => Settled r.1 ∧ r.1.waitQueue list = (s.waitQueue list).tail ∧
      r.2 = !(s.waitQueue list).isEmpty) (waitListWakeOne s list) := by
  refine ((waitListWakeOne_ensures settled.1).and waitListWakeOne_spares).mono ?_
  rintro r ⟨⟨placed, wakes, tail⟩, -, result⟩
  exact ⟨⟨placed, wakes.currentRuns settled.2⟩, tail, result⟩

theorem Settled.waits {id : Nat} (settled : Settled s) (notIdle : s.current ≠ idleTid)
    (early : s.tick < timeoutInfinity) :
    Ensures Tolerated
      (fun s' => Settled s' ∧
        s'.waitQueue (.object id) = s.waitQueue (.object id) ++ [s.current])
      (taskWait s (some (.object id)) timeoutInfinity) := by
  refine (taskWait_ensures settled notIdle ?_).and (taskWait_appends early nofun)
  rintro list ⟨⟩
  trivial

end Lists

section Mutexes

variable {id : Nat} {s : Sched} {system : Mutex.System Nat}

theorem waitList_waitListWakeOne (system : Mutex.System Nat) :
    (Mutex.waitListWakeOne system).mutex.waitList = system.mutex.waitList.tail := by
  unfold Mutex.waitListWakeOne
  cases queue : system.mutex.waitList with
  | nil => exact queue
  | cons first rest => rfl

/-- The wait list of the mutex is the list of that id. -/
structure ShowsMutex (id : Nat) (system : Mutex.System Nat) (s : Sched) : Prop where
  settled : Settled s
  sound : Mutex.Sound system
  queue : s.waitQueue (.object id) = system.mutex.waitList

/-- The tasks that the mutex says wait are those that the scheduler keeps in its list. -/
theorem ShowsMutex.waiting_iff (shown : ShowsMutex id system s) (tid : Nat) :
    system.phase tid = .waiting ↔ ∃ task, s.tasks tid = some task ∧ task.state = .waiting ∧
      task.waitFor = some (.object id) := by
  rw [shown.sound.waiting, ← shown.queue, shown.settled.waits_iff]

/-- What the scheduler does in a try of `mutex_lock` that ends with the mutex in `after`. -/
def enterMutex (id : Nat) (s : Sched) (after : Mutex.System Nat) : Run Sched :=
  if after.mutex.owner = some s.current then .ok s
  else taskWait s (some (.object id)) timeoutInfinity

/-- A try of `mutex_lock` that does not get the mutex is a `task_wait` on its list. -/
theorem ShowsMutex.lockRound (shown : ShowsMutex id system s) (notIdle : s.current ≠ idleTid)
    (early : s.tick < timeoutInfinity)
    (tries : system.phase s.current = .outside ∨ system.phase s.current = .woken) :
    ∃ after, Mutex.lockRound system s.current = .ok after ∧
      Ensures Tolerated (ShowsMutex id after) (enterMutex id s after) := by
  obtain ⟨after, done, sound⟩ := Mutex.lockRound_spec shown.sound tries
  refine ⟨after, done, ?_⟩
  have other : system.mutex.owner ≠ some s.current := by
    intro owns
    have inside := (shown.sound.inside _).mpr owns
    rcases tries with phase | phase <;> rw [phase] at inside <;> cases inside
  unfold enterMutex
  unfold Mutex.lockRound Mutex.tryAcquire at done
  rw [if_neg other] at done
  cases owner : system.mutex.owner with
  | none =>
      rw [owner] at done
      cases done
      split
      · exact ⟨shown.settled, sound, shown.queue⟩
      · rename_i lost
        exact absurd rfl lost
  | some owns =>
      rw [owner] at done
      cases done
      rw [if_neg (show ¬(Mutex.taskWait system s.current).mutex.owner = some s.current from other)]
      refine (shown.settled.waits notIdle early).mono ?_
      rintro s' ⟨settled, queue⟩
      exact ⟨settled, sound, queue.trans (congrArg (· ++ [s.current]) shown.queue)⟩

/-- `mutex_unlock` is a `wait_list_wake_one` on the list. -/
theorem ShowsMutex.mutexUnlock (shown : ShowsMutex id system s)
    (owns : system.mutex.owner = some s.current) :
    ∃ after, Mutex.mutexUnlock system s.current = .ok after ∧
      Ensures Tolerated (fun r => ShowsMutex id after r.1)
        (waitListWakeOne s (.object id)) := by
  refine ⟨_, if_pos owns, ?_⟩
  refine shown.settled.wakes.mono ?_
  rintro r ⟨settled, tail, -⟩
  refine ⟨settled, shown.sound.release owns, ?_⟩
  rw [tail, shown.queue]
  exact (waitList_waitListWakeOne
    { system with mutex := { system.mutex with owner := none } }).symm

/-- A call about something else: it neither waits in the list nor takes a task out of it. -/
def Call.Spares (call : Call) (list : WaitList) (s : Sched) : Prop :=
  ∀ after, exec s call = .ok after → after.waitQueue list = s.waitQueue list

theorem spares_schedule : Call.schedule.Spares (.object id) s := by
  intro after returned
  exact scheduleFrom_spares.of_ok returned _ nofun

theorem spares_isrTimer : Call.isrTimer.Spares (.object id) s := by
  intro after returned
  exact scheduleFrom_spares.of_ok returned _ nofun

/-- What the current task does: a try of `mutex_lock`, `mutex_unlock` or some other call. -/
inductive MutexCall where
  | lock
  | unlock
  | other (call : Call)

/-- The mutex by its own model and its list by the scheduler. -/
def stepMutex (id : Nat) : Sched × Mutex.System Nat → MutexCall → Run (Sched × Mutex.System Nat)
  | (s, system), .lock =>
      match Mutex.lockRound system s.current with
      | .error _ => .error .panic
      | .ok after => do
          let s ← enterMutex id s after
          .ok (s, after)
  | (s, system), .unlock =>
      match Mutex.mutexUnlock system s.current with
      | .error _ => .error .panic
      | .ok after => do
          let (s, _) ← waitListWakeOne s (.object id)
          .ok (s, after)
  | (s, system), .other call => do
      let s ← exec s call
      .ok (s, system)

def AdmitsMutex (id : Nat) : Sched × Mutex.System Nat → MutexCall → Prop
  | (s, system), .lock =>
      (system.phase s.current = .outside ∨ system.phase s.current = .woken) ∧
        s.current ≠ idleTid ∧ s.tick < timeoutInfinity
  | (s, system), .unlock => system.mutex.owner = some s.current
  | (s, _), .other call => Admits s call ∧ call.Spares (.object id) s

/-- The mutex is in a state of its own model, and its list is the one of the scheduler. -/
def MutexConnected (id : Nat) (joint : Sched × Mutex.System Nat) : Prop :=
  ShowsMutex id joint.2 joint.1 ∧ Reaches Mutex.step Mutex.Admits Mutex.System.init joint.2

theorem MutexConnected.step {joint : Sched × Mutex.System Nat} {call : MutexCall}
    (connected : MutexConnected id joint) (admitted : AdmitsMutex id joint call) :
    Ensures Tolerated (MutexConnected id) (stepMutex id joint call) := by
  obtain ⟨s, system⟩ := joint
  have shown : ShowsMutex id system s := connected.1
  have reached : Reaches Mutex.step Mutex.Admits Mutex.System.init system := connected.2
  cases call with
  | lock =>
      obtain ⟨tries, notIdle, early⟩ := admitted
      obtain ⟨after, done, ensured⟩ := shown.lockRound notIdle early tries
      have reached' : Reaches Mutex.step Mutex.Admits Mutex.System.init after := by
        rcases tries with outside | woken
        · exact reached.step (show Mutex.Admits system (.lock s.current) from outside) done
        · exact reached.step (show Mutex.Admits system (.retry s.current) from woken) done
      simp only [stepMutex, done]
      exact ensured.bind fun s' shown' => ⟨shown', reached'⟩
  | unlock =>
      obtain ⟨after, done, ensured⟩ := shown.mutexUnlock admitted
      have reached' : Reaches Mutex.step Mutex.Admits Mutex.System.init after :=
        reached.step (show Mutex.Admits system (.unlock s.current) from admitted) done
      simp only [stepMutex, done]
      exact ensured.bind fun r shown' => ⟨shown', reached'⟩
  | other call =>
      obtain ⟨admitted, spares⟩ := admitted
      have ensured := exec_ensures shown.settled admitted
      simp only [stepMutex]
      cases returned : exec s call with
      | error stop => exact ensured.of_error returned
      | ok after =>
          have queue := (spares after returned).trans shown.queue
          exact ⟨⟨ensured.of_ok returned, shown.sound, queue⟩, reached⟩

/-- Every run of the mutex on the tasks of the scheduler is one of its model: the tasks that
the model says wait are those that wait in the list. -/
theorem runMutex_refines {joint : Sched × Mutex.System Nat}
    (reached : Reaches (stepMutex id) (AdmitsMutex id) (booted, Mutex.System.init) joint) :
    Reaches Mutex.step Mutex.Admits Mutex.System.init joint.2 ∧
      ∀ tid, joint.2.phase tid = .waiting ↔ ∃ task, joint.1.tasks tid = some task ∧
        task.state = .waiting ∧ task.waitFor = some (.object id) := by
  have connected : MutexConnected id joint :=
    reached.invariant ⟨⟨booted_settled, Mutex.init_sound, rfl⟩, .start⟩
      fun _ _ connected admitted => connected.step admitted
  exact ⟨connected.2, connected.1.waiting_iff⟩

end Mutexes

section Workers

variable {id worker : Nat} {s : Sched} {pool : Coroutine.Pool}

/-- The worker is in the list of its event where its model says that it waits. -/
structure ShowsWorker (id worker : Nat) (pool : Coroutine.Pool) (s : Sched) : Prop where
  settled : Settled s
  queue : s.waitQueue (.object id) = if pool.worker = .waiting then [worker] else []

/-- `event_signal` wakes the worker where it waits, and otherwise leaves the event signaled. -/
theorem ShowsWorker.eventSignal (shown : ShowsWorker id worker pool s) :
    Ensures Tolerated
      (fun r => ShowsWorker id worker (Coroutine.eventSignal pool) r.1 ∧
        (Coroutine.eventSignal pool).signaled = !r.2) (waitListWakeOne s (.object id)) := by
  refine shown.settled.wakes.mono ?_
  rintro r ⟨settled, tail, result⟩
  rw [shown.queue] at tail result
  by_cases waits : pool.worker = .waiting
  · rw [if_pos waits] at tail result
    have woken : Coroutine.eventSignal pool =
        { pool with worker := .awake, signaled := false } := by
      unfold Coroutine.eventSignal
      rw [waits]
    rw [woken, result]
    exact ⟨⟨settled, tail⟩, rfl⟩
  · rw [if_neg waits] at tail result
    have kept : Coroutine.eventSignal pool = { pool with signaled := true } := by
      unfold Coroutine.eventSignal
      split
      · exact absurd ‹_› waits
      · rfl
    rw [kept, result]
    exact ⟨⟨settled, tail.trans (if_neg waits).symm⟩, rfl⟩

/-- `event_wait` of the worker is a `task_wait` on the list unless the event is signaled. -/
theorem ShowsWorker.eventWait (shown : ShowsWorker id s.current pool s)
    (notIdle : s.current ≠ idleTid) (early : s.tick < timeoutInfinity) :
    Ensures Tolerated (ShowsWorker id s.current (Coroutine.eventWait pool))
      (if pool.signaled then .ok s else taskWait s (some (.object id)) timeoutInfinity) := by
  have empty : s.waitQueue (.object id) = [] := by
    have absent : s.current ∉ s.waitQueue (.object id) := shown.settled.current_not_mem
    rw [shown.queue] at absent ⊢
    refine if_neg fun waits => absent ?_
    rw [if_pos waits]
    exact List.mem_singleton_self _
  unfold Coroutine.eventWait
  split
  · exact ⟨shown.settled, empty⟩
  · refine (shown.settled.waits notIdle early).mono ?_
    rintro s' ⟨settled, queue⟩
    refine ⟨settled, ?_⟩
    rw [queue, empty]
    rfl

theorem ShowsWorker.congr {pool' : Coroutine.Pool} (shown : ShowsWorker id worker pool s)
    (same : pool'.worker = .waiting ↔ pool.worker = .waiting) : ShowsWorker id worker pool' s :=
  ⟨shown.settled, shown.queue.trans (by simp only [same])⟩

/-- What becomes of the tasks in an action that the model of the worker takes. -/
def actWorker (id : Nat) (s : Sched) (pool : Coroutine.Pool) : Coroutine.Action → Run Sched
  | .setReady _ => do
      let (s, _) ← waitListWakeOne s (.object id)
      .ok s
  | .wait => if pool.signaled then .ok s else taskWait s (some (.object id)) timeoutInfinity
  | _ => .ok s

/-- An action of the worker or on a coroutine, or some other call. -/
inductive WorkerCall where
  | act (action : Coroutine.Action)
  | other (call : Call)

/-- The coroutines by their own model and the list of the event by the scheduler. -/
def stepWorker (id : Nat) : Sched × Coroutine.World → WorkerCall → Run (Sched × Coroutine.World)
  | (s, world), .act action =>
      match Coroutine.step world action with
      | .error _ => .error .panic
      | .ok after => do
          let s ← actWorker id s world.pool action
          .ok (s, after)
  | (s, world), .other call => do
      let s ← exec s call
      .ok (s, world)

/-- It is the worker task that calls `event_wait`. -/
def AdmitsWorker (id worker : Nat) : Sched × Coroutine.World → WorkerCall → Prop
  | (s, world), .act action =>
      Coroutine.Admits world action ∧
        (action = .wait → s.current = worker ∧ worker ≠ idleTid ∧ s.tick < timeoutInfinity)
  | (s, _), .other call => Admits s call ∧ call.Spares (.object id) s

theorem drain_worker (pool : Coroutine.Pool) : (Coroutine.drain pool).worker ≠ .waiting := by
  unfold Coroutine.drain
  split
  · exact nofun
  · exact nofun

theorem handlerReturns_worker {pool' : Coroutine.Pool} {co : Nat} {state : Coroutine.CoState}
    (done : Coroutine.handlerReturns pool co state = .ok pool') : pool'.worker ≠ .waiting := by
  unfold Coroutine.handlerReturns at done
  dsimp only at done
  split at done
  · cases pushed : Coroutine.linkedlistPushBack pool.jobQueue co with
    | error stop =>
        rw [pushed] at done
        cases done
    | ok jobQueue =>
        rw [pushed] at done
        cases done
        exact drain_worker _
  · cases done
    exact drain_worker _

/-- The list of the event follows an action of the model. -/
theorem ShowsWorker.act {world after : Coroutine.World} {action : Coroutine.Action}
    (shown : ShowsWorker id worker world.pool s) (admitted : Coroutine.Admits world action)
    (waits : action = .wait → s.current = worker ∧ worker ≠ idleTid ∧ s.tick < timeoutInfinity)
    (done : Coroutine.step world action = .ok after) :
    Ensures Tolerated (ShowsWorker id worker after.pool) (actWorker id s world.pool action) := by
  cases action with
  | init co =>
      cases done
      exact shown.congr Iff.rfl
  | setReady co =>
      simp only [Coroutine.step, Coroutine.coroutineSetReady] at done
      cases pushed : Coroutine.linkedlistPushBack world.pool.jobQueue co with
      | error stop =>
          rw [pushed] at done
          cases done
      | ok jobQueue =>
          rw [pushed] at done
          cases done
          have queued : ShowsWorker id worker
              { world.pool with
                state := Function.update world.pool.state co .ready, jobQueue := jobQueue } s :=
            shown.congr Iff.rfl
          exact queued.eventSignal.bind fun r woken => woken.1
  | wait =>
      obtain ⟨rfl, notIdle, early⟩ := waits rfl
      cases done
      exact shown.eventWait notIdle early
  | wake =>
      cases done
      refine shown.congr (iff_of_false (drain_worker _) ?_)
      rw [show world.pool.worker = .awake from admitted]
      exact nofun
  | returns state =>
      simp only [Coroutine.step] at done
      cases place : world.pool.worker with
      | running co =>
          rw [place] at done
          dsimp only at done
          cases returned : Coroutine.handlerReturns world.pool co state with
          | error stop =>
              rw [returned] at done
              cases done
          | ok pool =>
              rw [returned] at done
              cases done
              refine shown.congr (iff_of_false (handlerReturns_worker returned) ?_)
              rw [place]
              exact nofun
      | starting | waiting | awake =>
          rw [place] at done
          cases done
          exact shown

/-- The worker is in a state of its own model, and waits in the list of the scheduler. -/
def WorkerConnected (id worker : Nat) (joint : Sched × Coroutine.World) : Prop :=
  ShowsWorker id worker joint.2.pool joint.1 ∧
    Reaches Coroutine.step Coroutine.Admits Coroutine.World.start joint.2

theorem WorkerConnected.step {joint : Sched × Coroutine.World} {call : WorkerCall}
    (connected : WorkerConnected id worker joint) (admitted : AdmitsWorker id worker joint call) :
    Ensures Tolerated (WorkerConnected id worker) (stepWorker id joint call) := by
  obtain ⟨s, world⟩ := joint
  have shown : ShowsWorker id worker world.pool s := connected.1
  have reached : Reaches Coroutine.step Coroutine.Admits Coroutine.World.start world := connected.2
  cases call with
  | act action =>
      obtain ⟨admitted, waits⟩ := admitted
      simp only [stepWorker]
      cases done : Coroutine.step world action with
      | error stop => exact ⟨nofun, nofun⟩
      | ok after =>
          refine (shown.act admitted waits done).bind fun s' shown' => ?_
          exact ⟨shown', reached.step admitted done⟩
  | other call =>
      obtain ⟨admitted, spares⟩ := admitted
      have ensured := exec_ensures shown.settled admitted
      simp only [stepWorker]
      cases returned : exec s call with
      | error stop => exact ensured.of_error returned
      | ok after =>
          have queue := (spares after returned).trans shown.queue
          exact ⟨⟨ensured.of_ok returned, queue⟩, reached⟩

/-- Every run of the worker on the tasks of the scheduler is one of its model, and the worker
is in the list of the event exactly where the model says that it waits. -/
theorem runWorker_refines {joint : Sched × Coroutine.World}
    (reached : Reaches (stepWorker id) (AdmitsWorker id worker) (booted, Coroutine.World.start)
      joint) :
    Reaches Coroutine.step Coroutine.Admits Coroutine.World.start joint.2 ∧
      ∀ tid, (∃ task, joint.1.tasks tid = some task ∧ task.state = .waiting ∧
          task.waitFor = some (.object id)) ↔
        tid = worker ∧ joint.2.pool.worker = .waiting := by
  have connected : WorkerConnected id worker joint :=
    reached.invariant ⟨⟨booted_settled, rfl⟩, .start⟩
      fun _ _ connected admitted => connected.step admitted
  refine ⟨connected.2, fun tid => ?_⟩
  rw [← connected.1.settled.waits_iff, connected.1.queue]
  split
  · rename_i waits
    simp [waits]
  · rename_i busy
    simp [busy]

end Workers

end Opal.Scheduler
