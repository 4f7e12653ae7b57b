import Opal.Scheduler.Arrivals

/-!
# Which task `schedule` chooses

A call is split where it calls `schedule`.  From every state in which a run comes there, the
current task stays or the ready task that runs next has the least priority number and, of all
ready tasks with this number, has been ready longest.
-/

namespace Opal.Scheduler

section Entry

variable {s : Sched} {call : Call}

/-- The call of `schedule` is reached, from a function that goes on as `ctx` says. -/
def callSchedule (s : Sched) (ctx : Context) : Run (Sched × Bool) := do
  let task ← s.getTask s.current
  .ok (s.setTask s.current { task with ctx := ctx }, true)

/-- `task_wait` from its `irqlock_acquire` up to its call of `schedule`. -/
def enterLocked (s : Sched) (list : Option WaitList) (timeout : Nat) : Run (Sched × Bool) := do
  let s ← if timeout = timeoutInfinity then setWaitFor s s.current list
    else setWaitTimeout s s.current list timeout
  callSchedule s .inTaskWait

/-- `task_wait` up to its call of `schedule`. -/
def enterWait (s : Sched) (list : Option WaitList) (timeout : Nat) : Run (Sched × Bool) :=
  if timeout ≤ s.tick then .ok (s, false) else enterLocked s list timeout

/-- A call of the current task up to where it calls `schedule`; or the whole call, with
`false`, if it does not. -/
def enter (s : Sched) : Call → Run (Sched × Bool)
  | .schedule => callSchedule s .returns
  | .isrTimer => callSchedule { s with tick := (s.tick + 1) % 2 ^ 64 } .returns
  | .taskWait list timeout => enterWait s list timeout
  | .taskWaitLocked list timeout => enterLocked s list timeout
  | .taskJoin tid timeout => do
      kassert (tid ≠ s.current)
      let task ← s.getTask tid
      if task.state = .dead then .ok (s, false)
      else if timeout ≤ s.tick then .ok (s, false)
      else enterWait s (some (.join tid)) timeout
  | .eventWait timeout =>
      if s.eventSignaled then .ok ({ s with eventSignaled := false }, false)
      else enterWait s (some .irqEvent) timeout
  | .processJoin pid timeout => do
      let proc ← s.getProc pid
      if proc.exitSignaled then .ok (s, false) else enterWait s (some (.exitCompl pid)) timeout
  | .taskSuspend tid =>
      if s.current = tid then do
        let s ← setWaitFor s tid none
        callSchedule s .returns
      else do
        let s ← exec s (.taskSuspend tid)
        .ok (s, false)
  | .taskExit => do
      let tid := s.current
      let s ← taskBeforeDying s tid
      let s ← taskRetain s tid
      callSchedule { s with deadList := s.deadList ++ [tid] } .inTaskExit
  | call => do
      let s ← exec s call
      .ok (s, false)

/-- The rest of a call. -/
def leave : Sched × Bool → Run Sched
  | (s, true) => schedule s >>= resume
  | (s, false) => .ok s

theorem callSchedule_leave {ctx : Context} :
    callSchedule s ctx >>= leave = scheduleFrom s ctx := by
  unfold callSchedule scheduleFrom
  rw [bind_assoc]
  rfl

theorem enterLocked_leave {list : Option WaitList} {timeout : Nat} :
    enterLocked s list timeout >>= leave = taskWaitLocked s list timeout := by
  unfold enterLocked taskWaitLocked
  split
  · rw [bind_assoc]
    simp only [callSchedule_leave]
  · rw [bind_assoc]
    simp only [callSchedule_leave]

theorem enterWait_leave {list : Option WaitList} {timeout : Nat} :
    enterWait s list timeout >>= leave = taskWait s list timeout := by
  unfold enterWait taskWait
  split
  · rfl
  · exact enterLocked_leave

/-- A call is what it does before `schedule` and what it does from there on. -/
theorem enter_leave : enter s call >>= leave = exec s call := by
  cases call with
  | schedule => exact callSchedule_leave
  | isrTimer => exact callSchedule_leave
  | taskWait list timeout => exact enterWait_leave
  | taskWaitLocked list timeout => exact enterLocked_leave
  | taskJoin tid timeout =>
      simp only [enter, exec, taskJoin, bind_assoc]
      congr 1
      funext _
      congr 1
      funext task
      split
      · rfl
      · split
        · rfl
        · exact enterWait_leave
  | eventWait timeout =>
      simp only [enter, exec, eventWait]
      split
      · rfl
      · exact enterWait_leave
  | processJoin pid timeout =>
      simp only [enter, exec, processJoin, bind_assoc]
      congr 1
      funext proc
      split
      · rfl
      · exact enterWait_leave
  | taskSuspend tid =>
      simp only [enter, exec]
      split
      · rename_i own
        rw [bind_assoc, taskSuspend, if_pos own]
        simp only [callSchedule_leave]
      · rw [bind_assoc]
        exact bind_pure _
  | taskExit =>
      simp only [enter, exec, taskExit, bind_assoc, callSchedule_leave]
  | _ =>
      simp only [enter, bind_assoc]
      exact bind_pure _

end Entry

section Choice

variable {unlisted : Option Nat} {s s' : Sched} {next : Nat} {priority : Priority}

/-- The task at the head of the first ready queue that holds any. -/
structure Top (s : Sched) (next : Nat) (priority : Priority) : Prop where
  head : (s.readyQueue priority).head? = some next
  least : ∀ other, s.readyQueue other ≠ [] → priority.toNat ≤ other.toNat

theorem Priority.all_ascending : Priority.all.Pairwise fun a b => a.toNat < b.toNat := by decide

theorem readyQueueTop_top (top : readyQueueTop s = some next) :
    ∃ priority, Top s next priority := by
  obtain ⟨before, priority, behind, split, head, none⟩ := List.findSome?_eq_some_iff.mp top
  refine ⟨priority, head, fun other nonempty => ?_⟩
  have ascending := Priority.all_ascending
  have member := Priority.mem_all other
  rw [split] at ascending member
  obtain ⟨-, ascending, -⟩ := List.pairwise_append.mp ascending
  rcases List.mem_append.mp member with early | late
  · exact absurd (List.head?_eq_none_iff.mp (none other early)) nonempty
  · rcases List.mem_cons.mp late with rfl | later
    · exact le_rfl
    · exact Nat.le_of_lt ((List.pairwise_cons.mp ascending).1 other later)

theorem Top.member (top : Top s next priority) : next ∈ s.readyQueue priority :=
  List.mem_of_head? top.head

/-- The current task is put back behind. -/
theorem Top.readied {tid : Nat} {task : Task} (top : Top s next priority)
    (above : priority.toNat ≤ task.priority.toNat) : Top (s.readied tid task) next priority := by
  have queue (other : Priority) : (s.readied tid task).readyQueue other =
      if other = task.priority then s.readyQueue task.priority ++ [tid] else s.readyQueue other :=
    Function.update_apply ..
  refine ⟨?_, fun other nonempty => ?_⟩
  · rw [queue]
    split
    · rename_i same
      rw [List.head?_append, ← same, top.head]
      rfl
    · exact top.head
  · rw [queue] at nonempty
    split at nonempty
    · rename_i same
      exact same ▸ above
    · exact top.least other nonempty

/-- The state goes on with the task that was current, which was running, and every ready task
has a larger priority number. -/
structure Kept (before after : Sched) : Prop where
  current : after.current = before.current
  running : ∃ task, before.tasks before.current = some task ∧ task.state = .running ∧
    after.tasks before.current = some task ∧ ∀ tid other, after.tasks tid = some other →
      other.state = .ready → task.priority.toNat < other.priority.toNat

/-- `schedule` switches to a task that no other one of its priority was ready before. -/
structure Chosen (before after : Sched) : Prop where
  switched : ∃ earlier, after.trace = .switched before.current after.current :: earlier ∧
    before.trace <:+ earlier
  longest : ∀ current tid task, after.tasks after.current = some current →
    after.tasks tid = some task → task.state = .ready → task.priority = current.priority →
    readySince after.trace after.current < readySince after.trace tid

/-- No ready task has a priority above that of the current one, which was chosen among those of
its priority as the one ready longest unless it was running already; and the tasks that were
ready before are ready since the same time, but for the one chosen. -/
structure Policy (before after : Sched) : Prop where
  highest : ∃ current, after.tasks after.current = some current ∧
    ∀ tid task, after.tasks tid = some task → task.state = .ready →
      current.priority.toNat ≤ task.priority.toNat
  choice : Kept before after ∨ Chosen before after
  waits : ∀ tid task, before.tasks tid = some task → task.state = .ready →
    readySince after.trace tid = readySince before.trace tid ∧
      (tid = after.current ∨ after.tasks tid = some task)

/-- Every ready task is in a ready queue and therefore not above the top. -/
theorem Placed.least {tid : Nat} {task : Task} (placed : Placed none unlisted s)
    (top : Top s next priority) (present : s.tasks tid = some task) (ready : task.state = .ready) :
    priority.toNat ≤ task.priority.toNat := by
  have member : tid ∈ s.readyQueue task.priority :=
    (placed.mem_container present (.ready task.priority)).mpr ⟨ready, rfl⟩
  exact top.least _ (List.ne_nil_of_mem member)

/-- The context switch to the top. -/
theorem switchTo_chooses (placed : Placed none unlisted s) (lined : Lined s)
    (top : Top s next priority) : Ensures (fun _ => True) (fun after => Lined after ∧
      after.current = next ∧ after.trace = .switched s.current next :: s.trace ∧
      (∃ current, after.tasks next = some current ∧ current.priority = priority) ∧
      (∀ tid ≠ next, after.tasks tid = s.tasks tid) ∧
      ∀ tid task, after.tasks tid = some task → task.state = .ready →
        priority.toNat ≤ task.priority.toNat ∧
          (task.priority = priority → readySince s.trace next < readySince s.trace tid))
      (switchTo s next) := by
  obtain ⟨-, task, present, ready, home⟩ := (placed.mem_iff (.ready priority) next).mp top.member
  subst home
  unfold switchTo setRunning
  simp only [Sched.getTask_of present, ok_bind]
  apply any_unlink
  have found : (s.setReadyQueue task.priority
      ((s.readyQueue task.priority).erase next)).getTask next = .ok task :=
    Sched.getTask_of present
  rw [found]
  refine ⟨?_, rfl, rfl, ⟨_, Function.update_self .., rfl⟩, ?_, ?_⟩
  · refine Lined.record (lined.sublist (fun other => ?_) rfl) (by simp [NoArrival])
    show (Function.update s.readyQueue task.priority _ other).Sublist _
    by_cases same : other = task.priority
    · subst same
      rw [Function.update_self]
      exact List.erase_sublist
    · simp only [Function.update_of_ne same]
      exact List.Sublist.refl _
  · exact fun tid differs => Function.update_of_ne differs ..
  · intro tid value found ready'
    have differs : tid ≠ next := by
      rintro rfl
      cases (Function.update_self ..).symm.trans found
      cases ready'
    have present' : s.tasks tid = some value := (Function.update_of_ne differs ..).symm.trans found
    refine ⟨placed.least top present' ready', fun same => ?_⟩
    have member : tid ∈ s.readyQueue task.priority :=
      (placed.mem_container present' (.ready task.priority)).mpr ⟨ready', same⟩
    obtain ⟨rest, queue⟩ := List.head?_eq_some_iff.mp top.head
    have sorted := lined task.priority
    rw [queue] at sorted member
    exact (List.pairwise_cons.mp sorted).1 tid ((List.mem_cons.mp member).resolve_left differs)

/-- The ready tasks of the first state are ready in the second since the same time. -/
structure Awaits (s s' : Sched) : Prop where
  current : s'.current = s.current
  trace : s.trace <:+ s'.trace
  ready : ∀ tid task, s.tasks tid = some task → task.state = .ready →
    s'.tasks tid = some task ∧ readySince s'.trace tid = readySince s.trace tid

theorem Rouses.awaits (rouses : Rouses s s') (wakes : Wakes s s') : Awaits s s' where
  current := wakes.current
  trace := rouses.trace
  ready tid task present ready := by
    have awake : task.state ≠ .waiting := by simp [ready]
    exact ⟨wakes.tasks tid task present awake, rouses.since tid task present awake⟩

theorem Awaits.readied {tid : Nat} {task : Task} (awaits : Awaits s s')
    (present : s'.tasks tid = some task) (notReady : task.state ≠ .ready) :
    Awaits s (s'.readied tid task) where
  current := awaits.current
  trace := awaits.trace.trans (List.suffix_cons ..)
  ready other value found ready := by
    obtain ⟨found', since⟩ := awaits.ready other value found ready
    have differs : other ≠ tid := by
      rintro rfl
      cases present.symm.trans found'
      exact notReady ready
    exact ⟨(Function.update_of_ne differs ..).trans found',
      (readySince_readied differs).trans since⟩

theorem switchTo_policy (awaits : Awaits s s') (placed : Placed none unlisted s')
    (lined : Lined s') (top : Top s' next priority) :
    Ensures (fun _ => True) (fun after => Lined after ∧ Policy s after) (switchTo s' next) := by
  refine (switchTo_chooses placed lined top).mono ?_
  rintro after ⟨lined', rfl, trace, ⟨current, found, rfl⟩, others, above⟩
  have since (tid : Nat) : readySince after.trace tid = readySince s'.trace tid := by
    rw [trace]
    exact readySince_of_ne (by simp)
  refine ⟨lined', ⟨⟨current, found, fun tid task present ready => (above tid task present ready).1⟩,
    .inr ⟨⟨s'.trace, ?_, awaits.trace⟩, ?_⟩, ?_⟩⟩
  · rw [trace, awaits.current]
  · intro value tid task found' present ready same
    cases found.symm.trans found'
    rw [since, since]
    exact (above tid task present ready).2 same
  · intro tid task present ready
    obtain ⟨present', since'⟩ := awaits.ready tid task present ready
    refine ⟨(since tid).trans since', ?_⟩
    by_cases own : tid = after.current
    · exact .inl own
    · exact .inr ((others tid own).trans present')

end Choice

section Waking

variable {unlisted : Option Nat} {s s' s'' : Sched} {tid : Nat} {task task' : Task}

/-- No task runs that did not run before. -/
def NoneStarts (s s' : Sched) : Prop :=
  ∀ tid task', s'.tasks tid = some task' → task'.state = .running →
    ∃ task, s.tasks tid = some task ∧ task.state = .running

theorem NoneStarts.trans (first : NoneStarts s s') (second : NoneStarts s' s'') :
    NoneStarts s s'' := by
  intro tid task'' present running
  obtain ⟨task', present', running'⟩ := second tid task'' present running
  exact first tid task' present' running'

theorem NoneStarts.of_tasks (tasks : s'.tasks = s.tasks) : NoneStarts s s' :=
  fun _ task present running => ⟨task, tasks ▸ present, running⟩

theorem NoneStarts.of_update (present : s.tasks tid = some task)
    (tasks : s'.tasks = Function.update s.tasks tid (some task'))
    (state : task'.state = .running → task.state = .running) : NoneStarts s s' := by
  intro other value found running
  by_cases own : other = tid
  · subst own
    rw [tasks, Function.update_self] at found
    cases found
    exact ⟨task, present, state running⟩
  · rw [tasks, Function.update_of_ne own] at found
    exact ⟨value, found, running⟩

theorem setReady_noneStarts : Ensures (fun _ => True) (NoneStarts s) (setReady s tid) :=
  any_getTask fun _ present => .of_update present rfl nofun

theorem resetTimeout_noneStarts : Ensures (fun _ => True) (NoneStarts s) (resetTimeout s tid) := by
  unfold resetTimeout
  apply any_getTask
  intro task present
  split
  · apply any_unlink
    exact .of_update present rfl id
  · exact .of_tasks rfl

theorem waitListWakeOne_noneStarts {list : WaitList} :
    Ensures (fun _ => True) (fun woken => NoneStarts s woken.1) (waitListWakeOne s list) := by
  unfold waitListWakeOne
  cases s.waitQueue list with
  | nil => exact .of_tasks rfl
  | cons tid rest =>
      dsimp only
      apply any_getTask
      intro task present
      have present' : s.tasks tid = some task := present
      have taken : NoneStarts s
          ((s.setWaitQueue list rest).setTask tid { task with waitFor := none }) :=
        .of_update present' rfl id
      split
      · apply (resetTimeout_noneStarts).bind
        intro s₁ none₁
        apply setReady_noneStarts.bind
        intro s₂ none₂
        exact taken.trans (none₁.trans none₂)
      · apply setReady_noneStarts.bind
        intro s₂ none₂
        exact taken.trans none₂

theorem requestTimeout_noneStarts :
    Ensures (fun _ => True) (NoneStarts s) (requestTimeout s) := by
  have signals (s : Sched) : Ensures (fun _ => True) (NoneStarts s) (eventSignal s) := by
    unfold eventSignal
    apply waitListWakeOne_noneStarts.bind
    exact fun _ none => none
  have pushes : Ensures (fun _ => True) (fun pushed => NoneStarts s pushed.1)
      (irqmsgPush s .schedTimeout) := by
    unfold irqmsgPush
    split
    · exact (signals _).bind fun _ none => none
    · exact (signals _).bind fun _ none => none
  unfold requestTimeout
  split
  · apply pushes.bind
    rintro ⟨s₁, pushed⟩ none
    cases pushed with
    | true => exact none
    | false => exact none
  · exact .of_tasks rfl

end Waking

section Schedule

variable {unlisted : Option Nat} {s s' : Sched}

/-- Where no task is ready the idle task runs. -/
theorem Placed.current_runs {task : Task} (placed : Placed none unlisted s)
    (empty : readyQueueTop s = none) (present : s.tasks s.current = some task) :
    task.state = .running := by
  obtain ⟨idle, found, ready | running⟩ := placed.idle
  · exact absurd empty (placed.readyQueueTop_ne_none ⟨idle, found, ready⟩)
  · rw [placed.running _ _ found running, present] at found
    cases found
    exact running

theorem Placed.none_ready {tid : Nat} {task : Task} (placed : Placed none unlisted s)
    (empty : readyQueueTop s = none) (present : s.tasks tid = some task) : task.state ≠ .ready := by
  intro ready
  have member : tid ∈ s.readyQueue task.priority :=
    (placed.mem_container present (.ready task.priority)).mpr ⟨ready, rfl⟩
  have none := List.findSome?_eq_none_iff.mp empty task.priority (Priority.mem_all _)
  rw [List.head?_eq_none_iff.mp none] at member
  exact absurd member List.not_mem_nil

theorem schedule_policy (placed : Placed none unlisted s) (lined : Lined s) :
    Ensures (fun _ => True) (fun after => Lined after ∧ Policy s after) (schedule s) := by
  unfold schedule
  apply (((requestTimeout_rouses placed).and requestTimeout_noneStarts).and
    (requestTimeout_ensures placed)).bind
  rintro s₁ ⟨⟨rouses, none⟩, placed₁, wakes⟩
  have lined₁ := rouses.lined lined
  have awaits := rouses.awaits wakes
  apply any_getTask
  intro current present
  -- what holds when the running task stays the current one
  have stays (running : current.state = .running)
      (highest : ∀ tid task, s₁.tasks tid = some task → task.state = .ready →
        current.priority.toNat < task.priority.toNat) : Lined s₁ ∧ Policy s s₁ := by
    refine ⟨lined₁, ⟨current, present, fun tid task found ready =>
      Nat.le_of_lt (highest tid task found ready)⟩, .inl ⟨wakes.current, ?_⟩, ?_⟩
    · obtain ⟨task, found, running'⟩ := none s₁.current current present running
      have found' := wakes.tasks _ task found (by simp [running'])
      cases present.symm.trans found'
      rw [wakes.current] at found found'
      exact ⟨current, found, running', found', highest⟩
    · intro tid task found ready
      obtain ⟨found', since⟩ := awaits.ready tid task found ready
      exact ⟨since, .inr found'⟩
  cases top : readyQueueTop s₁ with
  | none =>
      have running := placed₁.current_runs top present
      simp only [running, if_true]
      exact stays running fun tid task found ready => absurd ready (placed₁.none_ready top found)
  | some next =>
      obtain ⟨priority, top'⟩ := readyQueueTop_top top
      obtain ⟨-, nextTask, found, -, home⟩ :=
        (placed₁.mem_iff (.ready priority) next).mp top'.member
      subst home
      simp only [Sched.getTask_of found, ok_bind]
      split
      · rename_i running
        split
        · rename_i below
          refine stays running fun tid task found' ready => ?_
          exact Nat.lt_of_lt_of_le below (placed₁.least top' found' ready)
        · rename_i above
          have loose := placed₁.loosen present fun c =>
            Task.not_belongs (by simp [running]) (by simp [running])
          have put := setReady_ensures loose present (by simp [running])
          rw [setReady_eq present] at put ⊢
          have absent := placed₁.absent present (by simp [running])
          exact switchTo_policy (awaits.readied present (by simp [running])) put.1
            (lined₁.readied absent) (top'.readied (Nat.le_of_not_lt above))
      · exact switchTo_policy awaits placed₁ lined₁ top'

theorem resume_lined (lined : Lined s) : Lining (resume s) := by
  unfold resume
  apply any_getTask
  intro task present
  cases task.ctx with
  | returns => exact lined
  | inTaskWait =>
      refine Lined.record ?_ (by simp [NoArrival])
      exact lined.sublist (fun _ => List.Sublist.refl _) rfl
  | inTaskExit => trivial

end Schedule

section Lifetime

variable {unlisted : Option Nat} {s : Sched} {pid tid : Nat} {task : Task}

theorem completionSignal_lined (placed : Placed none unlisted s) (lined : Lined s) :
    Lining (completionSignal s pid) := by
  unfold completionSignal
  apply any_getProc
  intro proc present
  have signaled : Placed none unlisted (s.setProc pid { proc with exitSignaled := true }) :=
    placed.setProc present (fun _ member _ => member) (fun _ => id)
  exact (waitListWakeAll_rouses signaled).mono fun _ rouses => rouses.lined lined

theorem taskFree_lined (settled : Settled s) (lined : Lined s) : Lining (taskFree s tid) := by
  unfold taskFree
  apply (taskFreeStack_aside.and (taskFreeStack_ensures settled)).bind
  rintro s₁ ⟨aside₁, ⟨placed₁, -⟩, -⟩
  apply any_getTask
  intro task₁ present₁
  apply any_getProc
  intro proc procPresent
  apply any_unlink
  have unlisted : Placed none (some tid) (s₁.setProc task₁.process
      { proc with taskList := proc.taskList.erase tid }) := by
    refine placed₁.setProc procPresent ?_ (by simp)
    intro other member differs
    exact (List.mem_erase_of_ne fun same => differs (congrArg some same.symm)).mpr member
  have lined₁ := aside₁.lined lined
  have removes (s₂ : Sched) (lined₂ : Lined s₂) : Lining (processRelease s₂ task₁.process >>=
      fun s₃ => .ok { s₃ with tasks := Function.update s₃.tasks tid none }) := by
    apply processRelease_aside.bind
    intro s₃ aside₃
    exact aside₃.lined lined₂
  refine (?_ : Ensures _ _ (if proc.taskList.erase tid = [] then _ else _))
  split
  · apply (completionSignal_lined unlisted lined₁).bind
    exact removes
  · exact removes _ lined₁

theorem taskRelease_lined (settled : Settled s) (lined : Lined s) :
    Lining (taskRelease s tid) := by
  unfold taskRelease
  apply any_getTask
  intro task present
  apply any_kassert
  intro _
  dsimp only
  split
  · refine taskFree_lined ?_ lined
    exact settled.adjust present rfl (fun c => by cases c <;> rfl) rfl rfl
  · exact lined

theorem taskBeforeDying_lined (loose : Placed (some tid) none s)
    (present : s.tasks tid = some task) (notIdle : tid ≠ idleTid) (lined : Lined s) :
    Lining (taskBeforeDying s tid) := by
  unfold taskBeforeDying
  apply (setDead_aside.and (setDead_ensures loose present notIdle)).bind
  rintro s₁ ⟨aside₁, placed₁, -⟩
  exact (waitListWakeAll_rouses placed₁).mono fun _ rouses => rouses.lined (aside₁.lined lined)

/-- The end of `task_terminate`, once the task is in no container. -/
theorem die_lined (loose : Placed (some tid) none s) (present : s.tasks tid = some task)
    (notIdle : tid ≠ idleTid) (differs : s.current ≠ tid) (runs : CurrentRuns s)
    (lined : Lined s) : Lining (taskBeforeDying s tid >>= fun s' =>
      taskFreeStack s' tid >>= fun s'' => taskRelease s'' tid) := by
  apply ((taskBeforeDying_lined loose present notIdle lined).and
    (taskBeforeDying_ensures loose present notIdle)).bind
  rintro s₁ ⟨lined₁, placed₁, -, -, keeps₁⟩
  apply (taskFreeStack_aside.and (taskFreeStack_ensures ⟨placed₁, keeps₁ differs runs⟩)).bind
  rintro s₂ ⟨aside₂, settled₂, -⟩
  exact taskRelease_lined settled₂ (aside₂.lined lined₁)

theorem taskTerminate_lined (settled : Settled s) (notIdle : tid ≠ idleTid) (lined : Lined s) :
    Lining (taskTerminate s tid) := by
  unfold taskTerminate
  apply any_getTask
  intro task present
  have differs (stopped : task.state ≠ .running) : s.current ≠ tid := by
    rintro rfl
    exact stopped (settled.loosen present).2
  cases state : task.state with
  | dead => trivial
  | running => trivial
  | ready =>
      apply ((resetReady_lined lined).and (resetReady_ensures settled.1 present state)).bind
      rintro s₁ ⟨lined₁, loose₁, moved₁⟩
      have apart := differs (by simp [state])
      exact die_lined loose₁ moved₁.self notIdle (moved₁.current ▸ apart)
        (moved₁.currentRuns settled.2 apart) lined₁
  | waiting =>
      apply (resetTimeout_aside.and (resetTimeout_ensures settled.1 present state)).bind
      rintro s₁ ⟨aside₁, placed₁, moved₁, -⟩
      apply (resetWaitFor_aside.and (resetWaitFor_ensures placed₁ moved₁.self state)).bind
      rintro s₂ ⟨aside₂, placed₂, moved₂, -⟩
      have wakes := (moved₁.wakes present state).trans (moved₂.wakes moved₁.self state)
      have loose₂ := placed₂.loosen moved₂.self fun c => by
        cases c <;> simp [Task.Belongs, state]
      exact die_lined loose₂ moved₂.self notIdle (wakes.current ▸ differs (by simp [state]))
        (wakes.currentRuns settled.2) ((aside₁.trans aside₂).lined lined)

theorem taskResume_lined (settled : Settled s) (lined : Lined s) : Lining (taskResume s tid) := by
  unfold taskResume
  apply any_getTask
  intro task present
  apply any_kassert
  intro waiting
  apply any_kassert
  intro _
  apply any_kassert
  intro _
  apply resetWaitFor_aside.bind
  intro s₁ aside₁
  refine (setReady_rouses settled.1 present waiting aside₁).mono fun _ rouses => ?_
  exact rouses.lined lined

theorem drainDead_lined (settled : Settled s) (lined : Lined s) : Lining (drainDead s) := by
  unfold drainDead
  cases queue : s.deadList with
  | nil => exact lined
  | cons tid rest =>
      refine taskRelease_lined ⟨settled.1.setDeadList ?_, settled.2⟩ lined
      intro other member
      exact settled.1.dead other (queue ▸ List.mem_cons_of_mem _ member)

end Lifetime

section Runs

variable {s : Sched} {tid : Nat} {task : Task} {call : Call}

/-- The ready queues are in order, and where `schedule` is called every task is in its place. -/
def Entered (entry : Sched × Bool) : Prop :=
  Lined entry.1 ∧ (entry.2 = true → Placed none none entry.1)

abbrev Entering (run : Run (Sched × Bool)) : Prop := Ensures (fun _ => True) Entered run

theorem Lined.stay (lined : Lined s) : Entered (s, false) := ⟨lined, by simp⟩

theorem callSchedule_entered {ctx : Context} (placed : Placed none none s)
    (context : ctx = .inTaskExit → ∀ task, s.tasks s.current = some task → task.state = .dead)
    (lined : Lined s) : Entering (callSchedule s ctx) := by
  unfold callSchedule
  apply any_getTask
  intro task present
  refine ⟨lined, fun _ => placed.adjust present rfl ?_ rfl fun exits => context exits task present⟩
  intro c
  cases c <;> rfl

theorem enterLocked_entered {list : Option WaitList} {timeout : Nat} (settled : Settled s)
    (notIdle : s.current ≠ idleTid) (known : ∀ l ∈ list, l.Known s) (lined : Lined s) :
    Entering (enterLocked s list timeout) := by
  obtain ⟨task, present, runs⟩ := settled.2
  have loose := (settled.loosen present).1
  have alive : task.state ≠ .dead := by simp [runs]
  unfold enterLocked
  split
  · apply (setWaitFor_aside.and
      (setWaitFor_ensures loose present alive notIdle known)).bind
    rintro s₁ ⟨aside₁, placed₁, -⟩
    exact callSchedule_entered placed₁ (by simp) (aside₁.lined lined)
  · apply (setWaitTimeout_aside.and
      (setWaitTimeout_ensures loose present alive notIdle known)).bind
    rintro s₁ ⟨aside₁, placed₁, -⟩
    exact callSchedule_entered placed₁ (by simp) (aside₁.lined lined)

theorem enterWait_entered {list : Option WaitList} {timeout : Nat} (settled : Settled s)
    (notIdle : s.current ≠ idleTid) (known : ∀ l ∈ list, l.Known s) (lined : Lined s) :
    Entering (enterWait s list timeout) := by
  unfold enterWait
  split
  · exact lined.stay
  · exact enterLocked_entered settled notIdle known lined

theorem Lining.whole {run : Run Sched} (lining : Lining run) :
    Entering (run >>= fun s' => .ok (s', false)) := by
  apply lining.bind
  exact fun s' lined => lined.stay

theorem enterTaskExit_entered (settled : Settled s) (notIdle : s.current ≠ idleTid)
    (lined : Lined s) : Entering (enter s .taskExit) := by
  obtain ⟨task, present, runs⟩ := settled.2
  have loose := (settled.loosen present).1
  unfold enter taskRetain
  apply ((taskBeforeDying_lined loose present notIdle lined).and
    (taskBeforeDying_ensures loose present notIdle)).bind
  rintro s₁ ⟨lined₁, placed₁, current₁, ⟨task₁, present₁, dead₁⟩, -⟩
  rw [bind_assoc]
  apply any_getTask
  intro value found
  cases present₁.symm.trans found
  rw [bind_assoc]
  apply any_kassert
  intro _
  refine callSchedule_entered (placed₁.bury present₁ dead₁) ?_ lined₁
  rintro - value found
  have own : Function.update s₁.tasks s.current
      (some { task₁ with refcount := task₁.refcount + 1 }) s₁.current = some value := found
  rw [current₁, Function.update_self] at own
  cases own
  exact dead₁

theorem enter_entered (settled : Settled s) (admitted : Admits s call) (lined : Lined s) :
    Entering (enter s call) := by
  cases call with
  | schedule => exact callSchedule_entered settled.1 (by simp) lined
  | isrTimer =>
      refine callSchedule_entered ?_ (by simp) lined
      exact settled.1.congr rfl rfl ⟨rfl, rfl, rfl, rfl, fun _ => id⟩ rfl
  | taskWait list timeout =>
      exact enterWait_entered settled admitted.1
        (fun l member => (admitted.2 l member).known settled.1) lined
  | taskWaitLocked list timeout =>
      exact enterLocked_entered settled admitted.1
        (fun l member => (admitted.2 l member).known settled.1) lined
  | taskJoin tid timeout =>
      unfold enter
      apply any_kassert
      intro _
      apply any_getTask
      intro task present
      split
      · exact lined.stay
      · split
        · exact lined.stay
        · refine enterWait_entered settled admitted ?_ lined
          intro list same
          cases same
          exact (settled.1.fresh _ _ present).1
  | eventWait timeout =>
      simp only [enter]
      split
      · exact Lined.stay lined
      · refine enterWait_entered settled admitted ?_ lined
        intro list same
        cases same
        trivial
  | processJoin pid timeout =>
      unfold enter
      apply any_getProc
      intro proc present
      split
      · exact lined.stay
      · refine enterWait_entered settled admitted ?_ lined
        intro list same
        cases same
        exact settled.1.procs _ _ present
  | taskSuspend tid =>
      simp only [enter]
      split
      · rename_i own
        subst own
        obtain ⟨task, present, runs⟩ := settled.2
        have loose := (settled.loosen present).1
        apply (setWaitFor_aside.and
          (setWaitFor_ensures loose present (by simp [runs]) admitted (by simp))).bind
        rintro s₁ ⟨aside₁, placed₁, -⟩
        exact callSchedule_entered placed₁ (by simp) (aside₁.lined lined)
      · rename_i differs
        apply Lining.whole
        simp only [exec, taskSuspend, if_neg differs]
        apply any_getTask
        intro task present
        apply any_kassert
        intro _
        apply (resetReady_lined lined).bind
        intro s₁ lined₁
        exact setWaitFor_aside.lining lined₁
  | taskExit => exact enterTaskExit_entered settled admitted lined
  | taskCreate pid priority stack slab => exact Lining.whole (taskCreate_aside.lining lined)
  | taskResume tid => exact Lining.whole (taskResume_lined settled lined)
  | taskTerminate tid => exact Lining.whole (taskTerminate_lined settled admitted lined)
  | taskRetain tid => exact Lining.whole (taskRetain_aside.lining lined)
  | taskRelease tid => exact Lining.whole (taskRelease_lined settled lined)
  | waitListWakeOne list =>
      apply Lining.whole
      apply (waitListWakeOne_rouses settled.1).bind
      rintro ⟨s₁, waken⟩ rouses₁
      exact rouses₁.lined lined
  | waitListWakeAll list =>
      apply Lining.whole
      exact (waitListWakeAll_rouses settled.1).mono fun _ rouses => rouses.lined lined
  | drainDead => exact Lining.whole (drainDead_lined settled lined)
  | irqmsgPush msg =>
      apply Lining.whole
      apply (irqmsgPush_rouses settled.1).bind
      rintro ⟨s₁, pushed⟩ rouses₁
      exact rouses₁.lined lined
  | irqmsgPop =>
      have popped : Aside s (irqmsgPop s).1 := by
        unfold irqmsgPop
        split
        · exact ⟨rfl, rfl⟩
        · split
          · exact ⟨rfl, rfl⟩
          · exact ⟨rfl, rfl⟩
      exact Lined.stay (popped.lined lined)
  | irqmsgHandle =>
      apply Lining.whole
      cases pending : s.handling with
      | none =>
          simp only [exec, pending]
          exact lined
      | some msg =>
          simp only [exec, pending]
          have handled : Ensures (fun _ => True) (Rouses s) (handle s msg) := by
            unfold handle
            split
            · exact irqmsgTimeout_rouses settled.1
            · exact .refl
          apply handled.bind
          intro s₁ rouses₁
          exact rouses₁.lined lined
  | irqmsgTimeout =>
      apply Lining.whole
      exact (irqmsgTimeout_rouses settled.1).mono fun _ rouses => rouses.lined lined
  | processCreate allocated =>
      cases allocated with
      | true => exact Lining.whole (processInit_aside.lining lined)
      | false => exact Lining.whole lined
  | processRetain pid => exact Lining.whole (processRetain_aside.lining lined)
  | processRelease pid => exact Lining.whole (processRelease_aside.lining lined)

/-- Every task is in its place, and the ready ones in the order of their arrival. -/
structure InOrder (s : Sched) : Prop where
  settled : Settled s
  lined : Lined s

theorem exec_inOrder (inOrder : InOrder s) (admitted : Admits s call) :
    Ensures (fun _ => True) InOrder (exec s call) := by
  obtain ⟨settled, lined⟩ := inOrder
  have lining : Lining (exec s call) := by
    rw [← enter_leave]
    apply (enter_entered settled admitted lined).bind
    rintro ⟨s₁, calls⟩ ⟨lined₁, placed₁⟩
    cases calls with
    | false => exact lined₁
    | true =>
        apply (schedule_policy (placed₁ rfl) lined₁).bind
        rintro s₂ ⟨lined₂, -⟩
        exact resume_lined lined₂
  exact (lining.and (exec_ensures settled admitted)).mono fun _ both => ⟨both.2, both.1⟩

theorem booted_inOrder : InOrder booted := by
  refine ⟨booted_settled, fun priority => ?_⟩
  cases priority <;> decide

/-- Wherever a call comes to `schedule` in whatever run, the priorities and the order of arrival
decide which task runs next. -/
theorem run_policy {init before after : Sched} (started : schedInit = .ok init)
    (reached : Reaches exec Admits init s) (admitted : Admits s call)
    (entered : enter s call = .ok (before, true)) (returned : schedule before = .ok after) :
    Policy before after := by
  cases started.symm.trans schedInit_eq
  have inOrder : InOrder s :=
    reached.invariant booted_inOrder fun _ _ inOrder admitted => exec_inOrder inOrder admitted
  obtain ⟨lined, placed⟩ := (enter_entered inOrder.settled admitted inOrder.lined).of_ok entered
  exact ((schedule_policy (placed rfl) lined).of_ok returned).2

/-- Two tasks of the same priority become ready one after the other, and the kernel task waits. -/
def twoWorkers : List Call :=
  [.taskCreate 0 .high true true, .taskCreate 0 .high true true, .taskResume 3, .taskResume 2]

theorem run_policy_twoWorkers : ∃ init s before after, schedInit = .ok init ∧
    runFrom exec Admits init twoWorkers = some s ∧
    enter s (.taskWait (some (.object 0)) uintptrMax) = .ok (before, true) ∧
    schedule before = .ok after ∧ after.current = 3 ∧ Policy before after := by
  have runs : ((runFrom exec Admits booted twoWorkers).bind fun s =>
      (enter s (.taskWait (some (.object 0)) uintptrMax)).toOption.bind fun entry =>
        (schedule entry.1).toOption.map fun after => (s.current, entry.2, after.current)) =
      some (0, true, 3) := by decide +kernel
  obtain ⟨s, ran, rest⟩ := Option.bind_eq_some_iff.mp runs
  obtain ⟨⟨before, calls⟩, entering, rest⟩ := Option.bind_eq_some_iff.mp rest
  obtain ⟨after, returning, same⟩ := Option.map_eq_some_iff.mp rest
  obtain ⟨current, rfl, chosen⟩ : s.current = 0 ∧ calls = true ∧ after.current = 3 := by
    simpa using same
  have entered := returned_of_toOption entering
  have returned := returned_of_toOption returning
  have admitted : Admits s (.taskWait (some (.object 0)) uintptrMax) := by
    refine ⟨by rw [current]; decide, fun list member => ?_⟩
    cases member
    trivial
  exact ⟨booted, s, before, after, schedInit_eq, ran, entered, returned, chosen,
    run_policy schedInit_eq (Reaches.start.of_runFrom ran) admitted entered returned⟩

end Runs

end Opal.Scheduler
