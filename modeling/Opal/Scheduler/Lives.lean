import Opal.Scheduler.Consistency

/-!
# What scheduling leaves alone

Waking, waiting and switching move tasks between the containers.  They neither create nor
free a task or a process, change no reference count, and no task dies or comes back to life.
-/

namespace Opal.Scheduler

section Relation

variable {s s' s'' : Sched} {tid : Nat} {task task' : Task}

/-- Both belong to one process, have the same references, and are dead together. -/
structure Task.Alike (task task' : Task) : Prop where
  process : task'.process = task.process
  refcount : task'.refcount = task.refcount
  dead : task'.state = .dead ↔ task.state = .dead

structure SameLife (s s' : Sched) : Prop where
  present : ∀ tid task, s.tasks tid = some task → ∃ task', s'.tasks tid = some task' ∧
    task.Alike task'
  absent : ∀ tid, s.tasks tid = none → s'.tasks tid = none
  procs : s'.procs = s.procs
  deadList : s'.deadList = s.deadList
  tidNext : s'.tidNext = s.tidNext
  pidNext : s'.pidNext = s.pidNext

theorem Task.Alike.refl : task.Alike task := ⟨rfl, rfl, Iff.rfl⟩

theorem SameLife.of_tasks (tasks : s'.tasks = s.tasks) (procs : s'.procs = s.procs)
    (deadList : s'.deadList = s.deadList) (tidNext : s'.tidNext = s.tidNext)
    (pidNext : s'.pidNext = s.pidNext) : SameLife s s' where
  present := fun _ task found => ⟨task, tasks ▸ found, .refl⟩
  absent := fun _ gone => tasks ▸ gone
  procs := procs
  deadList := deadList
  tidNext := tidNext
  pidNext := pidNext

theorem SameLife.refl : SameLife s s := .of_tasks rfl rfl rfl rfl rfl

theorem SameLife.trans (first : SameLife s s') (second : SameLife s' s'') : SameLife s s'' where
  present := by
    intro tid task found
    obtain ⟨task', found', alike⟩ := first.present tid task found
    obtain ⟨task'', found'', alike'⟩ := second.present tid task' found'
    exact ⟨task'', found'', alike'.process.trans alike.process,
      alike'.refcount.trans alike.refcount, alike'.dead.trans alike.dead⟩
  absent := fun tid gone => second.absent tid (first.absent tid gone)
  procs := second.procs.trans first.procs
  deadList := second.deadList.trans first.deadList
  tidNext := second.tidNext.trans first.tidNext
  pidNext := second.pidNext.trans first.pidNext

theorem SameLife.setTask (found : s.tasks tid = some task) (alike : task.Alike task') :
    SameLife s (s.setTask tid task') where
  present := by
    intro other value found'
    by_cases same : other = tid
    · subst same
      rw [found] at found'
      cases found'
      exact ⟨task', Function.update_self .., alike⟩
    · exact ⟨value, (Function.update_of_ne same ..).trans found', .refl⟩
  absent := by
    intro other gone
    have differs : other ≠ tid := by
      rintro rfl
      rw [found] at gone
      cases gone
    exact (Function.update_of_ne differs ..).trans gone
  procs := rfl
  deadList := rfl
  tidNext := rfl
  pidNext := rfl

/-- No task of that id is dead. -/
def Alive (s : Sched) (tid : Nat) : Prop := ∀ task, s.tasks tid = some task → task.state ≠ .dead

theorem SameLife.alive (same : SameLife s s') (alive : Alive s tid) : Alive s' tid := by
  intro task' found' dead
  cases found : s.tasks tid with
  | none =>
      rw [same.absent tid found] at found'
      cases found'
  | some task =>
      obtain ⟨value, found'', alike⟩ := same.present tid task found
      rw [found'] at found''
      cases found''
      exact alive task found (alike.dead.mp dead)

/-- Every stop but a panic. -/
def Quiet (stop : Stop) : Prop := stop ≠ .panic

/-- The function does not panic, and what it returns has the lives of the given state. -/
abbrev Calm (s : Sched) (run : Run Sched) : Prop := Ensures Quiet (SameLife s) run

theorem Calm.bind {run : Run Sched} {f : Sched → Run Sched} (first : Calm s run)
    (next : ∀ s', SameLife s s' → Calm s' (f s')) : Calm s (run >>= f) :=
  Ensures.bind first fun s' same => (next s' same).mono fun _ same' => same.trans same'

theorem Calm.ok (same : SameLife s s') : Calm s (.ok s') := same

theorem Calm.after {run : Run Sched} (same : SameLife s s') (calm : Calm s' run) : Calm s run :=
  calm.mono fun _ same' => same.trans same'

variable {α : Type} {goal : α → Prop}

theorem quiet_getTask {f : Task → Run α}
    (continues : ∀ task, s.tasks tid = some task → Ensures Quiet goal (f task)) :
    Ensures Quiet goal (s.getTask tid >>= f) := Sched.getTask_bind nofun continues

theorem quiet_getProc {pid : Nat} {f : Process → Run α}
    (continues : ∀ proc, s.procs pid = some proc → Ensures Quiet goal (f proc)) :
    Ensures Quiet goal (s.getProc pid >>= f) := Sched.getProc_bind nofun continues

theorem quiet_kassert {condition : Prop} [Decidable condition] {f : Unit → Run α}
    (continues : condition → Ensures Quiet goal (f ())) :
    Ensures Quiet goal (kassert condition >>= f) := kassert_bind nofun continues

theorem quiet_unlink {queue : List Nat} {f : List Nat → Run α}
    (continues : ∀ queue', Ensures Quiet goal (f queue')) :
    Ensures Quiet goal (unlink tid queue >>= f) := unlink_bind nofun (continues _)

end Relation

section Primitives

variable {s : Sched} {tid : Nat}

theorem alike_of_state {task : Task} {state : TaskState} (alive : task.state ≠ .dead)
    (notDead : state ≠ .dead) : task.Alike { task with state := state } :=
  ⟨rfl, rfl, ⟨fun dead => absurd dead notDead, fun dead => absurd dead alive⟩⟩

theorem setRunning_calm (alive : Alive s tid) : Calm s (setRunning s tid) := by
  unfold setRunning
  apply quiet_getTask
  intro task found
  exact .setTask found (alike_of_state (alive task found) nofun)

theorem setReady_calm (alive : Alive s tid) : Calm s (setReady s tid) := by
  unfold setReady
  apply quiet_getTask
  intro task found
  have same : SameLife s (s.setTask tid { task with state := .ready }) :=
    .setTask found (alike_of_state (alive task found) nofun)
  exact same.trans (.of_tasks rfl rfl rfl rfl rfl)

theorem resetReady_calm : Calm s (resetReady s tid) := by
  unfold resetReady
  apply quiet_getTask
  intro task _
  apply quiet_unlink
  intro queue
  exact .of_tasks rfl rfl rfl rfl rfl

theorem resetWaitFor_calm : Calm s (resetWaitFor s tid) := by
  unfold resetWaitFor
  apply quiet_getTask
  intro task found
  split
  · exact .refl
  · apply quiet_unlink
    intro queue
    have same : SameLife s (s.setTask tid { task with waitFor := none }) :=
      .setTask found ⟨rfl, rfl, Iff.rfl⟩
    exact same.trans (.of_tasks rfl rfl rfl rfl rfl)

theorem resetTimeout_calm : Calm s (resetTimeout s tid) := by
  unfold resetTimeout
  apply quiet_getTask
  intro task found
  split
  · apply quiet_unlink
    intro queue
    have same : SameLife s (s.setTask tid { task with hasTimeout := false }) :=
      .setTask found ⟨rfl, rfl, Iff.rfl⟩
    exact same.trans (.of_tasks rfl rfl rfl rfl rfl)
  · exact SameLife.refl

theorem setWaitFor_calm {list : Option WaitList} (alive : Alive s tid) :
    Calm s (setWaitFor s tid list) := by
  unfold setWaitFor
  apply quiet_getTask
  intro task found
  have same : SameLife s (s.setTask tid
      { task with state := .waiting, waitFor := list, hasTimeout := false }) :=
    .setTask found ⟨rfl, rfl, ⟨nofun, fun dead => absurd dead (alive task found)⟩⟩
  dsimp only
  split
  · exact same
  · exact same.trans (.of_tasks rfl rfl rfl rfl rfl)

theorem setWaitTimeout_calm {list : Option WaitList} {timeout : Nat} (alive : Alive s tid) :
    Calm s (setWaitTimeout s tid list timeout) := by
  unfold setWaitTimeout
  apply (setWaitFor_calm alive).bind
  intro s' _
  apply quiet_getTask
  intro task found
  have same : SameLife s' (s'.setTask tid
      { task with hasTimeout := true, waitTimeout := timeout }) :=
    .setTask found ⟨rfl, rfl, Iff.rfl⟩
  dsimp only
  split
  · exact same.trans (.of_tasks rfl rfl rfl rfl rfl)
  · exact same.trans (.of_tasks rfl rfl rfl rfl rfl)

end Primitives

section Waking

variable {unlisted : Option Nat} {s : Sched} {tid : Nat}

theorem alive_of_waiting {task : Task} (found : s.tasks tid = some task)
    (waiting : task.state = .waiting) : Alive s tid := by
  intro value found' dead
  rw [found] at found'
  cases found'
  rw [waiting] at dead
  cases dead

theorem waitListWakeOne_calm {list : WaitList} (placed : Placed none unlisted s) :
    Ensures Quiet (fun r => SameLife s r.1) (waitListWakeOne s list) := by
  unfold waitListWakeOne
  cases queue : s.waitQueue list with
  | nil => exact SameLife.refl
  | cons tid rest =>
      have member : tid ∈ s.container (.wait list) := by simp [Sched.container, queue]
      obtain ⟨-, task, present, waiting, -⟩ := (placed.mem_iff _ _).mp member
      have found : (s.setWaitQueue list rest).getTask tid = .ok task := Sched.getTask_of present
      have queued : SameLife s (s.setWaitQueue list rest) := .of_tasks rfl rfl rfl rfl rfl
      have same :
        SameLife s ((s.setWaitQueue list rest).setTask tid { task with waitFor := none }) :=
        queued.trans (.setTask present ⟨rfl, rfl, Iff.rfl⟩)
      have alive := alive_of_waiting present waiting
      simp only [found, bind, Except.bind]
      split
      · apply Ensures.bind (resetTimeout_calm.after same)
        intro s₁ same₁
        apply Ensures.bind ((setReady_calm (same₁.alive alive)).after same₁)
        intro s₂ same₂
        exact same₂.trans (.of_tasks rfl rfl rfl rfl rfl)
      · apply Ensures.bind ((setReady_calm (same.alive alive)).after same)
        intro s₁ same₁
        exact same₁.trans (.of_tasks rfl rfl rfl rfl rfl)

/-- One round of waking, with the places of the tasks. -/
theorem waitListWakeOne_both {list : WaitList} (placed : Placed none unlisted s) :
    Ensures Quiet (fun r => SameLife s r.1 ∧ Placed none unlisted r.1)
      (waitListWakeOne s list) :=
  ((waitListWakeOne_calm placed).and (waitListWakeOne_ensures placed)).mono
    fun _ both => ⟨both.1, both.2.1⟩

theorem wakeAllLoop_calm {list : WaitList} (fuel : Nat) (placed : Placed none unlisted s) :
    Calm s (wakeAllLoop list fuel s) := by
  induction fuel generalizing s with
  | zero => exact SameLife.refl
  | succ fuel inductionHypothesis =>
      unfold wakeAllLoop
      split
      · exact SameLife.refl
      · apply (waitListWakeOne_both placed).bind
        rintro ⟨s₁, waken⟩ ⟨same₁, placed₁⟩
        exact (inductionHypothesis placed₁).after same₁

theorem waitListWakeAll_calm {list : WaitList} (placed : Placed none unlisted s) :
    Calm s (waitListWakeAll s list) := wakeAllLoop_calm _ placed

theorem eventSignal_calm (placed : Placed none unlisted s) : Calm s (eventSignal s) := by
  unfold eventSignal
  apply (waitListWakeOne_calm placed).bind
  rintro ⟨s₁, waken⟩ same₁
  exact same₁.trans (.of_tasks rfl rfl rfl rfl rfl)

theorem irqmsgPush_calm {msg : IrqMsg} (placed : Placed none unlisted s) :
    Ensures Quiet (fun r => SameLife s r.1) (irqmsgPush s msg) := by
  unfold irqmsgPush
  split
  · have placed' : Placed none unlisted
        { s with msgDrops := (s.msgDrops + 1) % 2 ^ 32, msgDropEvent := true } :=
      placed.congr rfl rfl ⟨rfl, rfl, rfl, rfl, fun _ => id⟩ rfl
    have counted : SameLife s
        { s with msgDrops := (s.msgDrops + 1) % 2 ^ 32, msgDropEvent := true } :=
      .of_tasks rfl rfl rfl rfl rfl
    apply Ensures.bind ((eventSignal_calm placed').after counted)
    intro s₁ same₁
    exact same₁
  · have placed' : Placed none unlisted { s with msgQueue := s.msgQueue ++ [msg] } :=
      placed.congr rfl rfl ⟨rfl, rfl, rfl, rfl, fun _ => id⟩ rfl
    have queued : SameLife s { s with msgQueue := s.msgQueue ++ [msg] } :=
      .of_tasks rfl rfl rfl rfl rfl
    apply Ensures.bind ((eventSignal_calm placed').after queued)
    intro s₁ same₁
    exact same₁

theorem irqmsgTimeoutLoop_calm {nodes : List Nat} (placed : Placed none unlisted s)
    (queued : ∀ tid ∈ nodes, tid ∈ s.timeoutQueue) (nodup : nodes.Nodup) :
    Calm s (irqmsgTimeoutLoop nodes s) := by
  induction nodes generalizing s with
  | nil => exact SameLife.refl
  | cons tid rest inductionHypothesis =>
      unfold irqmsgTimeoutLoop
      have member : tid ∈ s.timeoutQueue := queued tid List.mem_cons_self
      obtain ⟨-, task, present, waiting, -⟩ := (placed.mem_iff .timeout tid).mp member
      obtain ⟨later, nodup'⟩ := List.nodup_cons.mp nodup
      simp only [Sched.getTask_of present, bind, Except.bind]
      split
      · exact SameLife.of_tasks rfl rfl rfl rfl rfl
      · rw [unlink_of_mem member]
        have expired := expire_ensures placed present waiting
        have unqueued : SameLife s { s with timeoutQueue := s.timeoutQueue.erase tid } :=
          .of_tasks rfl rfl rfl rfl rfl
        have calm : Calm s (resetWaitFor { s with timeoutQueue := s.timeoutQueue.erase tid } tid >>=
            fun s' => setReady s' tid) :=
          (resetWaitFor_calm.after unqueued).bind fun s' same =>
            setReady_calm (same.alive (alive_of_waiting present waiting))
        refine (?_ : Ensures _ _ (resetWaitFor _ tid >>= fun s' => setReady s' tid >>= _))
        rw [← bind_assoc]
        apply (Ensures.and calm expired).bind
        rintro s₁ ⟨same₁, placed₁, -, timeoutQueue₁⟩
        have queued₁ : ∀ other ∈ rest, other ∈ (s₁.record (.expired tid)).timeoutQueue := by
          intro other inRest
          have differs : other ≠ tid := fun same => later (same ▸ inRest)
          refine timeoutQueue₁ ▸ (List.mem_erase_of_ne differs).mpr ?_
          exact queued other (List.mem_cons_of_mem _ inRest)
        have recorded : Placed none unlisted (s₁.record (.expired tid)) := placed₁.record (by simp)
        have same₂ : SameLife s (s₁.record (.expired tid)) :=
          same₁.trans (.of_tasks rfl rfl rfl rfl rfl)
        exact (inductionHypothesis recorded queued₁ nodup').after same₂

theorem irqmsgTimeout_calm (placed : Placed none unlisted s) : Calm s (irqmsgTimeout s) :=
  irqmsgTimeoutLoop_calm placed (fun _ => id) (placed.nodup .timeout)

end Waking

section Switching

variable {unlisted : Option Nat} {s : Sched} {tid : Nat}

theorem requestTimeout_calm (placed : Placed none unlisted s) : Calm s (requestTimeout s) := by
  unfold requestTimeout
  split
  · apply (irqmsgPush_calm placed).bind
    rintro ⟨s₁, pushed⟩ same₁
    cases pushed with
    | true => exact same₁.trans (.of_tasks rfl rfl rfl rfl rfl)
    | false => exact same₁
  · exact SameLife.refl

theorem switchTo_calm (alive : Alive s tid) : Calm s (switchTo s tid) := by
  unfold switchTo
  apply quiet_getTask
  intro task _
  apply quiet_unlink
  intro queue
  have same : SameLife s (s.setReadyQueue task.priority queue) := .of_tasks rfl rfl rfl rfl rfl
  apply Ensures.bind ((setRunning_calm (same.alive alive)).after same)
  intro s₁ same₁
  exact same₁.trans (.of_tasks rfl rfl rfl rfl rfl)

theorem schedule_calm (placed : Placed none unlisted s) : Calm s (schedule s) := by
  unfold schedule
  apply ((requestTimeout_calm placed).and (requestTimeout_ensures placed)).bind
  rintro s₁ ⟨same₁, placed₁, -⟩
  apply Calm.after same₁
  apply quiet_getTask
  intro current present
  cases top : readyQueueTop s₁ with
  | none =>
      dsimp only
      split
      · exact SameLife.refl
      · exact SameLife.of_tasks rfl rfl rfl rfl rfl
  | some next =>
      obtain ⟨nextTask, found, ready⟩ := placed₁.of_readyQueueTop top
      have alive : Alive s₁ next := by
        intro value found' dead
        rw [found] at found'
        cases found'
        rw [ready] at dead
        cases dead
      dsimp only
      apply quiet_getTask
      intro value _
      split
      · rename_i runs
        split
        · exact SameLife.refl
        · have currentAlive : Alive s₁ s₁.current := by
            intro value found' dead
            rw [present] at found'
            cases found'
            rw [runs] at dead
            cases dead
          apply (setReady_calm currentAlive).bind
          intro s₂ same₂
          exact switchTo_calm (same₂.alive alive)
      · exact switchTo_calm alive

theorem resume_calm : Calm s (resume s) := by
  unfold resume
  apply quiet_getTask
  intro task present
  split
  · exact SameLife.refl
  · have same :
      SameLife s (s.setTask s.current { task with hasTimeout := false, ctx := .returns }) :=
      .setTask present ⟨rfl, rfl, Iff.rfl⟩
    exact same.trans (.of_tasks rfl rfl rfl rfl rfl)
  · nofun

theorem scheduleFrom_calm {ctx : Context} (placed : Placed none none s)
    (context : ctx = .inTaskExit → ∀ task, s.tasks s.current = some task → task.state = .dead) :
    Calm s (scheduleFrom s ctx) := by
  unfold scheduleFrom
  apply quiet_getTask
  intro task present
  have adjusted : Placed none none (s.setTask s.current { task with ctx := ctx }) := by
    refine placed.adjust present rfl ?_ rfl fun exits => context exits task present
    intro c
    cases c <;> rfl
  have same : SameLife s (s.setTask s.current { task with ctx := ctx }) :=
    .setTask present ⟨rfl, rfl, Iff.rfl⟩
  apply ((schedule_calm adjusted).after same).bind
  intro s₁ _
  exact resume_calm

end Switching

section Calls

variable {s : Sched} {tid : Nat}

theorem Settled.alive_current (settled : Settled s) : Alive s s.current := by
  obtain ⟨task, present, runs⟩ := settled.2
  intro value found dead
  rw [present] at found
  cases found
  rw [runs] at dead
  cases dead

theorem taskWaitLocked_calm {list : Option WaitList} {timeout : Nat} (settled : Settled s)
    (notIdle : s.current ≠ idleTid) (known : ∀ l ∈ list, l.Known s) :
    Calm s (taskWaitLocked s list timeout) := by
  obtain ⟨task, present, runs⟩ := settled.2
  have loose := (settled.loosen present).1
  have alive : task.state ≠ .dead := by simp [runs]
  unfold taskWaitLocked
  split
  · apply (Ensures.and (setWaitFor_calm settled.alive_current)
      (setWaitFor_ensures loose present alive notIdle known)).bind
    rintro s₁ ⟨same₁, placed₁, -⟩
    apply Calm.after same₁
    exact scheduleFrom_calm placed₁ nofun
  · apply (Ensures.and (setWaitTimeout_calm settled.alive_current)
      (setWaitTimeout_ensures loose present alive notIdle known)).bind
    rintro s₁ ⟨same₁, placed₁, -⟩
    apply Calm.after same₁
    exact scheduleFrom_calm placed₁ nofun

theorem taskWait_calm {list : Option WaitList} {timeout : Nat} (settled : Settled s)
    (notIdle : s.current ≠ idleTid) (known : ∀ l ∈ list, l.Known s) :
    Calm s (taskWait s list timeout) := by
  unfold taskWait
  split
  · exact SameLife.refl
  · exact taskWaitLocked_calm settled notIdle known

theorem taskJoin_calm {timeout : Nat} (settled : Settled s) (notIdle : s.current ≠ idleTid) :
    Calm s (taskJoin s tid timeout) := by
  unfold taskJoin
  apply quiet_kassert
  intro _
  apply quiet_getTask
  intro task present
  split
  · exact SameLife.refl
  · split
    · exact SameLife.refl
    · apply taskWait_calm settled notIdle
      intro list same
      cases same
      exact (settled.1.fresh _ _ present).1

theorem eventWait_calm {timeout : Nat} (settled : Settled s) (notIdle : s.current ≠ idleTid) :
    Calm s (eventWait s timeout) := by
  unfold eventWait
  split
  · exact SameLife.of_tasks rfl rfl rfl rfl rfl
  · apply taskWait_calm settled notIdle
    intro list same
    cases same
    trivial

theorem processJoin_calm {pid timeout : Nat} (settled : Settled s)
    (notIdle : s.current ≠ idleTid) : Calm s (processJoin s pid timeout) := by
  unfold processJoin
  apply quiet_getProc
  intro proc present
  split
  · exact SameLife.refl
  · apply taskWait_calm settled notIdle
    intro list same
    cases same
    exact settled.1.procs _ _ present

theorem taskSuspend_calm (settled : Settled s) (notIdle : tid ≠ idleTid) :
    Calm s (taskSuspend s tid) := by
  unfold taskSuspend
  split
  · rename_i own
    subst own
    obtain ⟨task, present, runs⟩ := settled.2
    have loose := (settled.loosen present).1
    apply (Ensures.and (setWaitFor_calm settled.alive_current)
      (setWaitFor_ensures loose present (by simp [runs]) notIdle (by simp))).bind
    rintro s₁ ⟨same₁, placed₁, -⟩
    apply Calm.after same₁
    exact scheduleFrom_calm placed₁ (by simp)
  · apply quiet_getTask
    intro task present
    apply quiet_kassert
    intro ready
    apply resetReady_calm.bind
    intro s₁ same₁
    refine setWaitFor_calm (same₁.alive fun value found dead => ?_)
    rw [present] at found
    cases found
    rw [ready] at dead
    cases dead

theorem taskResume_calm : Calm s (taskResume s tid) := by
  unfold taskResume
  apply quiet_getTask
  intro task present
  apply quiet_kassert
  intro waiting
  apply quiet_kassert
  intro _
  apply quiet_kassert
  intro _
  apply resetWaitFor_calm.bind
  intro s₁ same₁
  exact setReady_calm (same₁.alive (alive_of_waiting present waiting))

end Calls

end Opal.Scheduler
