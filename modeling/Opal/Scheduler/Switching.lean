import Opal.Scheduler.Placement

/-!
# Waking tasks and switching between them

From a state where every task is in its place, the functions that wake tasks end in
such a state and change waiting tasks only, and `schedule` ends in one whose current
task runs.
-/

namespace Opal.Scheduler

section Frames

variable {s s' s'' : Sched} {tid : Nat} {task task' : Task}

/-- Only waiting tasks change. -/
structure Wakes (s s' : Sched) : Prop where
  current : s'.current = s.current
  tasks : ∀ other value, s.tasks other = some value → value.state ≠ .waiting →
    s'.tasks other = some value

theorem Wakes.refl : Wakes s s := ⟨rfl, fun _ _ present _ => present⟩

theorem Wakes.trans (first : Wakes s s') (second : Wakes s' s'') : Wakes s s'' where
  current := second.current.trans first.current
  tasks := fun other value present notWaiting =>
    second.tasks other value (first.tasks other value present notWaiting) notWaiting

theorem Moved.wakes (moved : Moved s s' tid task') (present : s.tasks tid = some task)
    (waiting : task.state = .waiting) : Wakes s s' where
  current := moved.current
  tasks := by
    intro other value found notWaiting
    by_cases same : other = tid
    · subst same
      rw [present] at found
      cases found
      exact absurd waiting notWaiting
    · rw [moved.of_ne same]
      exact found

/-- The current task is known and runs. -/
def CurrentRuns (s : Sched) : Prop :=
  ∃ task, s.tasks s.current = some task ∧ task.state = .running

theorem Wakes.currentRuns (wakes : Wakes s s') (runs : CurrentRuns s) : CurrentRuns s' := by
  obtain ⟨task, present, running⟩ := runs
  refine ⟨task, ?_, running⟩
  rw [wakes.current]
  exact wakes.tasks _ _ present (by simp [running])

/-- The state between two operations. -/
def Settled (s : Sched) : Prop := Placed none none s ∧ CurrentRuns s

section Access

variable {α : Type} {tolerated : Stop → Prop} {goal : α → Prop}

theorem Sched.getTask_bind {f : Task → Run α} (stops : tolerated .dangling)
    (continues : ∀ task, s.tasks tid = some task → Ensures tolerated goal (f task)) :
    Ensures tolerated goal (s.getTask tid >>= f) := by
  unfold Sched.getTask
  cases present : s.tasks tid with
  | none => exact stops
  | some task => exact continues task present

theorem Sched.getProc_bind {pid : Nat} {f : Process → Run α} (stops : tolerated .dangling)
    (continues : ∀ proc, s.procs pid = some proc → Ensures tolerated goal (f proc)) :
    Ensures tolerated goal (s.getProc pid >>= f) := by
  unfold Sched.getProc
  cases present : s.procs pid with
  | none => exact stops
  | some proc => exact continues proc present

theorem kassert_bind {condition : Prop} [Decidable condition] {f : Unit → Run α}
    (stops : tolerated .assertion) (continues : condition → Ensures tolerated goal (f ())) :
    Ensures tolerated goal (kassert condition >>= f) := by
  unfold kassert
  split
  · exact continues ‹_›
  · exact stops

theorem unlink_bind {queue : List Nat} {f : List Nat → Run α} (stops : tolerated .corrupted)
    (continues : Ensures tolerated goal (f (queue.erase tid))) :
    Ensures tolerated goal (unlink tid queue >>= f) := by
  unfold unlink
  split
  · exact continues
  · exact stops

end Access

theorem ensures_getTask {goal : Sched → Prop} {f : Task → Run Sched}
    (continues : ∀ task, s.tasks tid = some task → Ensures Tolerated goal (f task)) :
    Ensures Tolerated goal (s.getTask tid >>= f) := Sched.getTask_bind ⟨nofun, nofun⟩ continues

theorem ensures_getProc {pid : Nat} {goal : Sched → Prop} {f : Process → Run Sched}
    (continues : ∀ proc, s.procs pid = some proc → Ensures Tolerated goal (f proc)) :
    Ensures Tolerated goal (s.getProc pid >>= f) := Sched.getProc_bind ⟨nofun, nofun⟩ continues

theorem ensures_kassert {condition : Prop} [Decidable condition] {goal : Sched → Prop}
    {f : Unit → Run Sched} (continues : condition → Ensures Tolerated goal (f ())) :
    Ensures Tolerated goal (kassert condition >>= f) := kassert_bind ⟨nofun, nofun⟩ continues

end Frames

section Waking

variable {unlisted : Option Nat} {s : Sched} {list : WaitList}

theorem Placed.record {loose : Option Nat} {event : Event} (placed : Placed loose unlisted s)
    (quiet : ∀ tid, event ≠ .stalled tid) : Placed loose unlisted (s.record event) := by
  refine placed.congr rfl (container_record s event) ⟨rfl, rfl, rfl, rfl, ?_⟩ rfl
  intro tid member
  exact (List.mem_cons.mp member).resolve_left fun same => quiet tid same.symm

/-- A task that waits on nothing any more is made ready. -/
theorem ready_ensures {tid : Nat} {task : Task} (placed : Placed none unlisted s)
    (present : s.tasks tid = some task) (waiting : task.state = .waiting)
    (notQueued : task.waitFor = none) (untimed : task.hasTimeout = false) :
    Ensures Tolerated (fun s' => Placed none unlisted s' ∧ Wakes s s' ∧
      s'.waitQueue = s.waitQueue) (setReady s tid) := by
  have loose := placed.loosen present fun c => by
    cases c <;> simp [Task.Belongs, waiting, notQueued, untimed]
  apply (setReady_ensures loose present (by simp [waiting])).mono
  rintro s' ⟨placed', moved, waitQueue, -⟩
  exact ⟨placed', moved.wakes present waiting, waitQueue⟩

theorem waitListWakeOne_ensures (placed : Placed none unlisted s) :
    Ensures Tolerated (fun r => Placed none unlisted r.1 ∧ Wakes s r.1 ∧
      r.1.waitQueue list = (s.waitQueue list).tail) (waitListWakeOne s list) := by
  unfold waitListWakeOne
  cases queue : s.waitQueue list with
  | nil => exact ⟨placed, Wakes.refl, by simp [queue]⟩
  | cons tid rest =>
      have member : tid ∈ s.container (.wait list) := by simp [Sched.container, queue]
      obtain ⟨-, task, present, waiting, waits⟩ := (placed.mem_iff _ _).mp member
      have erased : (s.waitQueue list).erase tid = rest := by simp [queue]
      -- popping the head of the list is what `reset_wait_for` does to the task
      have popped : resetWaitFor s tid =
          .ok ((s.setWaitQueue list rest).setTask tid { task with waitFor := none }) := by
        unfold resetWaitFor
        simp only [Sched.getTask_of present, bind, Except.bind, waits]
        rw [unlink_of_mem (by simpa [Sched.container] using member), erased]
      have kept := resetWaitFor_ensures placed present waiting
      rw [popped] at kept
      obtain ⟨placed', moved, -⟩ := kept
      have present' := moved.self
      have wakes := moved.wakes present waiting
      have waitQueue : ((s.setWaitQueue list rest).setTask tid
          { task with waitFor := none }).waitQueue list = rest := Function.update_self ..
      have found : (s.setWaitQueue list rest).getTask tid = .ok task := Sched.getTask_of present
      simp only [found, bind, Except.bind]
      split
      · apply (resetTimeout_ensures placed' present' waiting).bind
        rintro s₂ ⟨placed₂, moved₂, waitQueue₂⟩
        apply (ready_ensures placed₂ moved₂.self waiting rfl rfl).bind
        rintro s₃ ⟨placed₃, wakes₃, waitQueue₃⟩
        have wakes₂ := wakes.trans ((moved₂.wakes present' waiting).trans wakes₃)
        refine ⟨placed₃.record (by simp), ⟨wakes₂.current, wakes₂.tasks⟩, ?_⟩
        exact (congrFun (waitQueue₃.trans waitQueue₂) list).trans waitQueue
      · rename_i untimed
        apply (ready_ensures placed' present' waiting rfl (by simpa using untimed)).bind
        rintro s₃ ⟨placed₃, wakes₃, waitQueue₃⟩
        have wakes₂ := wakes.trans wakes₃
        refine ⟨placed₃.record (by simp), ⟨wakes₂.current, wakes₂.tasks⟩, ?_⟩
        exact (congrFun waitQueue₃ list).trans waitQueue

theorem wakeAllLoop_ensures (fuel : Nat) (placed : Placed none unlisted s)
    (enough : (s.waitQueue list).length ≤ fuel) :
    Ensures Tolerated (fun s' => Placed none unlisted s' ∧ Wakes s s' ∧ s'.waitQueue list = [])
      (wakeAllLoop list fuel s) := by
  induction fuel generalizing s with
  | zero =>
      exact ⟨placed, Wakes.refl, List.eq_nil_of_length_eq_zero (Nat.le_zero.mp enough)⟩
  | succ fuel inductionHypothesis =>
      unfold wakeAllLoop
      split
      · rename_i empty
        exact ⟨placed, Wakes.refl, empty⟩
      · apply (waitListWakeOne_ensures placed).bind
        rintro ⟨s₁, waken⟩ ⟨placed₁, wakes₁, shorter⟩
        have enough₁ : (s₁.waitQueue list).length ≤ fuel := by
          rw [shorter, List.length_tail]
          omega
        apply (inductionHypothesis placed₁ enough₁).mono
        rintro s₂ ⟨placed₂, wakes₂, empty⟩
        exact ⟨placed₂, wakes₁.trans wakes₂, empty⟩

/-- The loop stops with an empty queue: the fuel is enough. -/
theorem waitListWakeAll_ensures (placed : Placed none unlisted s) :
    Ensures Tolerated (fun s' => Placed none unlisted s' ∧ Wakes s s' ∧ s'.waitQueue list = [])
      (waitListWakeAll s list) :=
  wakeAllLoop_ensures _ placed le_rfl

theorem eventSignal_ensures (placed : Placed none unlisted s) :
    Ensures Tolerated (fun s' => Placed none unlisted s' ∧ Wakes s s') (eventSignal s) := by
  unfold eventSignal
  apply (waitListWakeOne_ensures placed).bind
  rintro ⟨s₁, waken⟩ ⟨placed₁, wakes₁, -⟩
  exact ⟨placed₁.congr rfl rfl ⟨rfl, rfl, rfl, rfl, fun _ => id⟩ rfl, wakes₁.current, wakes₁.tasks⟩

theorem irqmsgPush_ensures {msg : IrqMsg} (placed : Placed none unlisted s) :
    Ensures Tolerated (fun r => Placed none unlisted r.1 ∧ Wakes s r.1) (irqmsgPush s msg) := by
  unfold irqmsgPush
  split
  · have placed' : Placed none unlisted
        { s with msgDrops := (s.msgDrops + 1) % 2 ^ 32, msgDropEvent := true } :=
      placed.congr rfl rfl ⟨rfl, rfl, rfl, rfl, fun _ => id⟩ rfl
    apply (eventSignal_ensures placed').bind
    rintro s₁ ⟨placed₁, wakes₁⟩
    exact ⟨placed₁, wakes₁.current, wakes₁.tasks⟩
  · have placed' : Placed none unlisted { s with msgQueue := s.msgQueue ++ [msg] } :=
      placed.congr rfl rfl ⟨rfl, rfl, rfl, rfl, fun _ => id⟩ rfl
    apply (eventSignal_ensures placed').bind
    rintro s₁ ⟨placed₁, wakes₁⟩
    exact ⟨placed₁, wakes₁.current, wakes₁.tasks⟩

/-- The two queues of a task are independent of each other. -/
theorem resetWaitFor_setTimeoutQueue (tid : Nat) (queue : List Nat) :
    resetWaitFor { s with timeoutQueue := queue } tid =
      (resetWaitFor s tid >>= fun s' => .ok { s' with timeoutQueue := queue }) := by
  unfold resetWaitFor Sched.getTask
  cases s.tasks tid with
  | none => rfl
  | some task =>
      cases waits : task.waitFor with
      | none => simp [bind, Except.bind, waits]
      | some list =>
          simp only [bind, Except.bind, waits]
          cases unlink tid (s.waitQueue list) <;> rfl

/-- The step of `irqmsg_timeout` for a task whose deadline has passed. -/
theorem expire_ensures {tid : Nat} {task : Task} (placed : Placed none unlisted s)
    (present : s.tasks tid = some task) (waiting : task.state = .waiting) :
    Ensures Tolerated (fun s' => Placed none unlisted s' ∧ Wakes s s' ∧
      s'.timeoutQueue = s.timeoutQueue.erase tid)
      (resetWaitFor { s with timeoutQueue := s.timeoutQueue.erase tid } tid >>=
        fun s' => setReady s' tid) := by
  rw [resetWaitFor_setTimeoutQueue, bind_assoc]
  apply (resetWaitFor_ensures placed present waiting).bind
  rintro s₁ ⟨placed₁, moved₁, timeoutQueue₁⟩
  have present₁ := moved₁.self
  have loose : Placed (some tid) unlisted
      { s₁ with timeoutQueue := s.timeoutQueue.erase tid } := by
    refine placed₁.pull .timeout present₁ (update_of_present present₁).symm ?_ ?_
      (fun _ => ne_some_of_ne) ⟨rfl, rfl, rfl, rfl, fun _ => id⟩ ?_ placed₁.running
    · rw [container_setTimeoutQueue]
      simp only [Sched.container, timeoutQueue₁]
    · intro c
      cases c <;> simp [Task.Belongs, waiting]
    · refine placed₁.compatible present₁ (by simp [waiting]) rfl rfl ?_ (by simp [Task.Belongs])
      intro same
      exact absurd same (placed.ne_idle present (by simp [waiting]) (by simp [waiting]))
  apply (setReady_ensures loose present₁ (by simp [waiting])).mono
  rintro s₂ ⟨placed₂, moved₂, -, timeoutQueue₂⟩
  refine ⟨placed₂, ?_, timeoutQueue₂⟩
  have first := moved₁.wakes present waiting
  have second := moved₂.wakes present₁ waiting
  exact first.trans ⟨second.current, second.tasks⟩

/-- The remaining nodes are still in the queue when the loop comes to them. -/
theorem irqmsgTimeoutLoop_ensures {nodes : List Nat} (placed : Placed none unlisted s)
    (queued : ∀ tid ∈ nodes, tid ∈ s.timeoutQueue) (nodup : nodes.Nodup) :
    Ensures Tolerated (fun s' => Placed none unlisted s' ∧ Wakes s s')
      (irqmsgTimeoutLoop nodes s) := by
  induction nodes generalizing s with
  | nil => exact ⟨placed, Wakes.refl⟩
  | cons tid rest inductionHypothesis =>
      unfold irqmsgTimeoutLoop
      have member : tid ∈ s.timeoutQueue := queued tid List.mem_cons_self
      obtain ⟨-, task, present, waiting, -⟩ := (placed.mem_iff .timeout tid).mp member
      obtain ⟨later, nodup'⟩ := List.nodup_cons.mp nodup
      simp only [Sched.getTask_of present, bind, Except.bind]
      split
      · refine ⟨placed.congr rfl rfl ⟨rfl, rfl, rfl, rfl, fun _ => id⟩ rfl, rfl, ?_⟩
        exact fun _ _ found _ => found
      · rw [unlink_of_mem member]
        have expired := expire_ensures placed present waiting
        refine (?_ : Ensures _ _ (resetWaitFor _ tid >>= fun s' => setReady s' tid >>= _))
        rw [← bind_assoc]
        apply expired.bind
        rintro s₁ ⟨placed₁, wakes₁, timeoutQueue₁⟩
        have queued₁ : ∀ other ∈ rest, other ∈ (s₁.record (.expired tid)).timeoutQueue := by
          intro other inRest
          have differs : other ≠ tid := fun same => later (same ▸ inRest)
          refine timeoutQueue₁ ▸ (List.mem_erase_of_ne differs).mpr ?_
          exact queued other (List.mem_cons_of_mem _ inRest)
        have recorded : Placed none unlisted (s₁.record (.expired tid)) := placed₁.record nofun
        apply (inductionHypothesis recorded queued₁ nodup').mono
        rintro s₂ ⟨placed₂, wakes₂⟩
        exact ⟨placed₂, wakes₁.trans ⟨wakes₂.current, wakes₂.tasks⟩⟩

theorem irqmsgTimeout_ensures (placed : Placed none unlisted s) :
    Ensures Tolerated (fun s' => Placed none unlisted s' ∧ Wakes s s') (irqmsgTimeout s) :=
  irqmsgTimeoutLoop_ensures placed (fun _ => id) (placed.nodup .timeout)

end Waking

section Switching

variable {unlisted : Option Nat} {s : Sched} {tid : Nat} {task : Task}

theorem requestTimeout_ensures (placed : Placed none unlisted s) :
    Ensures Tolerated (fun s' => Placed none unlisted s' ∧ Wakes s s') (requestTimeout s) := by
  unfold requestTimeout
  split
  · apply (irqmsgPush_ensures placed).bind
    rintro ⟨s₁, pushed⟩ ⟨placed₁, wakes₁⟩
    cases pushed with
    | true =>
        refine ⟨placed₁.congr rfl rfl ⟨rfl, rfl, rfl, rfl, fun _ => id⟩ rfl, ?_⟩
        exact ⟨wakes₁.current, wakes₁.tasks⟩
    | false => exact ⟨placed₁, wakes₁⟩
  · exact ⟨placed, Wakes.refl⟩

theorem Placed.of_readyQueueTop (placed : Placed none unlisted s)
    (top : readyQueueTop s = some tid) :
    ∃ task, s.tasks tid = some task ∧ task.state = .ready := by
  obtain ⟨priority, -, head⟩ := List.exists_of_findSome?_eq_some top
  have member : tid ∈ s.container (.ready priority) := List.mem_of_head? head
  obtain ⟨-, task, present, ready, -⟩ := (placed.mem_iff _ _).mp member
  exact ⟨task, present, ready⟩

/-- As long as the idle task is ready there is a task to switch to. -/
theorem Placed.readyQueueTop_ne_none (placed : Placed none unlisted s)
    (idle : ∃ task, s.tasks idleTid = some task ∧ task.state = .ready) :
    readyQueueTop s ≠ none := by
  obtain ⟨task, present, ready⟩ := idle
  have member : idleTid ∈ s.readyQueue task.priority :=
    (placed.mem_iff (.ready task.priority) _).mpr ⟨nofun, task, present, ready, rfl⟩
  intro empty
  have none := List.findSome?_eq_none_iff.mp empty task.priority (Priority.mem_all _)
  rw [List.head?_eq_none_iff.mp none] at member
  exact absurd member List.not_mem_nil

theorem switchTo_ensures (placed : Placed none unlisted s) (present : s.tasks tid = some task)
    (ready : task.state = .ready)
    (noneRuns : ∀ other value, s.tasks other = some value → value.state ≠ .running) :
    Ensures Tolerated (fun s' => Placed none unlisted s' ∧ CurrentRuns s') (switchTo s tid) := by
  have member : tid ∈ s.readyQueue task.priority :=
    (placed.mem_iff (.ready task.priority) tid).mpr ⟨(by simp), task, present, ready, rfl⟩
  have found : (s.setReadyQueue task.priority ((s.readyQueue task.priority).erase tid)).getTask tid
      = .ok task := Sched.getTask_of present
  have compatible : Compatible s tid task { task with state := .running } :=
    placed.compatible present (by simp [ready]) rfl rfl (fun _ => .inr rfl)
      (by simp [Task.Belongs])
  unfold switchTo setRunning
  simp only [Sched.getTask_of present, unlink_of_mem member, bind, Except.bind, found]
  refine ⟨Placed.record ?_ (by simp), _, Function.update_self .., rfl⟩
  refine placed.pull (.ready task.priority) present rfl ?_ ?_ (by simp)
    ⟨rfl, rfl, rfl, rfl, fun _ => id⟩ compatible ?_
  · exact container_setReadyQueue s _ _
  · intro c
    cases c <;> simp [Task.Belongs, ready, @eq_comm _ task.priority]
  · intro other value found' runs
    by_contra differs
    have old : s.tasks other = some value := by
      rw [← found']
      exact (Function.update_of_ne differs ..).symm
    exact noneRuns other value old runs

theorem schedule_ensures (placed : Placed none unlisted s) :
    Ensures Tolerated (fun s' => Placed none unlisted s' ∧ CurrentRuns s') (schedule s) := by
  unfold schedule
  apply (requestTimeout_ensures placed).bind
  rintro s₁ ⟨placed₁, -⟩
  apply ensures_getTask
  intro current present
  cases top : readyQueueTop s₁ with
  | none =>
      by_cases runs : current.state = .running
      · simp only [runs, if_true]
        exact ⟨placed₁, current, present, runs⟩
      · -- the idle task is ready: it cannot be the current one, which does not run
        exfalso
        refine placed₁.readyQueueTop_ne_none ?_ top
        obtain ⟨idle, found, ready | running⟩ := placed₁.idle
        · exact ⟨idle, found, ready⟩
        · have same := placed₁.running _ _ found running
          rw [same, present] at found
          cases found
          exact absurd running runs
  | some next =>
      obtain ⟨nextTask, found, ready⟩ := placed₁.of_readyQueueTop top
      simp only [Sched.getTask_of found, bind, Except.bind]
      split
      · rename_i runs
        split
        · exact ⟨placed₁, current, present, runs⟩
        · have loose := placed₁.loosen present fun c =>
            Task.not_belongs (by simp [runs]) (by simp [runs])
          apply (setReady_ensures loose present (by simp [runs])).bind
          rintro s₂ ⟨placed₂, moved₂, -, -⟩
          have differs : next ≠ s₁.current := by
            rintro rfl
            rw [present] at found
            cases found
            exact absurd ready (by simp [runs])
          refine switchTo_ensures placed₂ (moved₂.of_ne differs ▸ found) ready ?_
          intro other value found' runs'
          have same := placed₂.running _ _ found' runs'
          rw [same, moved₂.current, moved₂.self] at found'
          cases found'
          cases runs'
      · rename_i stopped
        refine switchTo_ensures placed₁ found ready ?_
        intro other value found' runs'
        have same := placed₁.running _ _ found' runs'
        rw [same, present] at found'
        cases found'
        exact stopped runs'

end Switching

end Opal.Scheduler
