import Opal.Scheduler.Switching

/-!
# Every run of the scheduler keeps its tasks in place

One lemma for each operation: from a settled state, where every task is in its place
and the current one runs, the operation ends in a settled state.
-/

namespace Opal.Scheduler

section Waits

variable {s : Sched} {tid : Nat} {task task' : Task}

/-- The fields that no container reads may change, and a context stays inside a living
task. -/
theorem Placed.adjust {unlisted : Option Nat} (placed : Placed none unlisted s)
    (present : s.tasks tid = some task) (state : task'.state = task.state)
    (same : ∀ c, task'.Belongs c ↔ task.Belongs c) (process : task'.process = task.process)
    (context : task'.ctx = .inTaskExit → task.state = .dead) :
    Placed none unlisted (s.setTask tid task') := by
  refine placed.setTask present (fun _ _ => nofun) (fun c _ => same c) ?_ ?_
  · refine ⟨process, fun dead => state.trans dead, ?_, fun exits => state.trans (context exits), ?_⟩
    · rintro rfl
      obtain ⟨idle, found, states⟩ := placed.idle
      rw [present] at found
      cases found
      rwa [state]
    · exact fun list belongs => placed.known_of_belongs present ((same _).mp belongs)
  · intro runs
    exact placed.running _ _ present (state.symm.trans runs)

theorem resume_ensures (settled : Settled s) : Ensures Tolerated Settled (resume s) := by
  obtain ⟨placed, task, present, runs⟩ := settled
  unfold resume
  rw [Sched.getTask_of present]
  cases ctx : task.ctx with
  | returns =>
      simp only [bind, Except.bind, ctx]
      exact ⟨placed, task, present, runs⟩
  | inTaskWait =>
      simp only [bind, Except.bind, ctx]
      have adjusted : Placed none none
          (s.setTask s.current { task with hasTimeout := false, ctx := .returns }) := by
        refine placed.adjust present rfl ?_ rfl (by simp)
        intro c
        cases c <;> simp [Task.Belongs, runs]
      exact ⟨adjusted.record (by simp), _, Function.update_self .., runs⟩
  | inTaskExit =>
      exact absurd (placed.context _ _ present ctx) (by simp [runs])

/-- The current task may be in any state when it calls `schedule`. -/
theorem scheduleFrom_ensures {ctx : Context} (placed : Placed none none s)
    (context : ctx = .inTaskExit → ∀ task, s.tasks s.current = some task → task.state = .dead) :
    Ensures Tolerated Settled (scheduleFrom s ctx) := by
  unfold scheduleFrom
  apply ensures_getTask
  intro task present
  have adjusted : Placed none none (s.setTask s.current { task with ctx := ctx }) := by
    refine placed.adjust present rfl ?_ rfl fun exits => context exits task present
    intro c
    cases c <;> rfl
  apply (schedule_ensures adjusted).bind
  intro s' settled
  exact resume_ensures settled

theorem Settled.loosen (settled : Settled s) (present : s.tasks s.current = some task) :
    Placed (some s.current) none s ∧ task.state = .running := by
  obtain ⟨placed, value, found, runs⟩ := settled
  rw [present] at found
  cases found
  exact ⟨placed.loosen present fun c => Task.not_belongs (by simp [runs]) (by simp [runs]), runs⟩

theorem taskWaitLocked_ensures {list : Option WaitList} {timeout : Nat} (settled : Settled s)
    (notIdle : s.current ≠ idleTid) (known : ∀ l ∈ list, l.Known s) :
    Ensures Tolerated Settled (taskWaitLocked s list timeout) := by
  obtain ⟨task, present, runs⟩ := settled.2
  have loose := (settled.loosen present).1
  have alive : task.state ≠ .dead := by simp [runs]
  unfold taskWaitLocked
  split
  · apply (setWaitFor_ensures loose present alive notIdle known).bind
    rintro s' ⟨placed, -⟩
    exact scheduleFrom_ensures placed nofun
  · apply (setWaitTimeout_ensures loose present alive notIdle known).bind
    rintro s' ⟨placed, -⟩
    exact scheduleFrom_ensures placed nofun

theorem taskWait_ensures {list : Option WaitList} {timeout : Nat} (settled : Settled s)
    (notIdle : s.current ≠ idleTid) (known : ∀ l ∈ list, l.Known s) :
    Ensures Tolerated Settled (taskWait s list timeout) := by
  unfold taskWait
  split
  · exact settled
  · exact taskWaitLocked_ensures settled notIdle known

theorem taskJoin_ensures {timeout : Nat} (settled : Settled s) (notIdle : s.current ≠ idleTid) :
    Ensures Tolerated Settled (taskJoin s tid timeout) := by
  unfold taskJoin
  apply ensures_kassert
  intro _
  apply ensures_getTask
  intro task present
  split
  · exact settled
  · split
    · exact settled
    · apply taskWait_ensures settled notIdle
      intro list same
      cases same
      exact (settled.1.fresh _ _ present).1

theorem eventWait_ensures {timeout : Nat} (settled : Settled s) (notIdle : s.current ≠ idleTid) :
    Ensures Tolerated Settled (eventWait s timeout) := by
  unfold eventWait
  split
  · exact ⟨settled.1.congr rfl rfl ⟨rfl, rfl, rfl, rfl, fun _ => id⟩ rfl, settled.2⟩
  · apply taskWait_ensures settled notIdle
    intro list same
    cases same
    trivial

theorem processJoin_ensures {pid timeout : Nat} (settled : Settled s)
    (notIdle : s.current ≠ idleTid) : Ensures Tolerated Settled (processJoin s pid timeout) := by
  unfold processJoin
  apply ensures_getProc
  intro proc present
  split
  · exact settled
  · apply taskWait_ensures settled notIdle
    intro list same
    cases same
    exact settled.1.procs _ _ present

end Waits

section Processes

variable {loose unlisted unlisted' : Option Nat} {s : Sched} {pid : Nat} {proc proc' : Process}

theorem Placed.setProcs {procs : Nat → Option Process} (placed : Placed loose unlisted s)
    (known : ∀ other value, procs other = some value → other < s.pidNext)
    (listed : ∀ tid task value, s.tasks tid = some task → unlisted' ≠ some tid →
      procs task.process = some value → tid ∈ value.taskList) :
    Placed loose unlisted' { s with procs := procs } where
  mem_iff := placed.mem_iff
  nodup := placed.nodup
  known := placed.known
  fresh := placed.fresh
  dead := placed.dead
  running := placed.running
  idle := placed.idle
  context := placed.context
  listed := listed
  procs := known
  unstalled := placed.unstalled

/-- A process changes without losing a task. -/
theorem Placed.setProc (placed : Placed loose unlisted s) (present : s.procs pid = some proc)
    (keeps : ∀ tid ∈ proc.taskList, unlisted' ≠ some tid → tid ∈ proc'.taskList)
    (weaker : ∀ tid, unlisted = some tid → unlisted' = some tid) :
    Placed loose unlisted' (s.setProc pid proc') := by
  apply placed.setProcs
  · intro other value found
    by_cases same : other = pid
    · subst same
      exact placed.procs _ _ present
    · rw [Function.update_of_ne same] at found
      exact placed.procs _ _ found
  · intro tid task value taskPresent stays found
    have before : unlisted ≠ some tid := fun same => stays (weaker tid same)
    by_cases same : task.process = pid
    · subst same
      rw [Function.update_self] at found
      cases found
      exact keeps tid (placed.listed _ _ _ taskPresent before present) stays
    · rw [Function.update_of_ne same] at found
      exact placed.listed _ _ _ taskPresent before found

theorem processRetain_ensures (placed : Placed loose unlisted s) :
    Ensures Tolerated (fun s' => Placed loose unlisted s' ∧ s'.tasks = s.tasks ∧
      s'.current = s.current ∧ s'.tidNext = s.tidNext) (processRetain s pid) := by
  unfold processRetain
  apply ensures_getProc
  intro proc present
  apply ensures_kassert
  intro _
  exact ⟨placed.setProc present (fun _ member _ => member) (fun _ => id), rfl, rfl, rfl⟩

theorem processRelease_ensures (placed : Placed loose unlisted s) :
    Ensures Tolerated (fun s' => Placed loose unlisted s' ∧ s'.tasks = s.tasks ∧
      s'.current = s.current) (processRelease s pid) := by
  unfold processRelease
  apply ensures_getProc
  intro proc present
  apply ensures_kassert
  intro _
  have placed' :
    Placed loose unlisted (s.setProc pid { proc with refcount := proc.refcount - 1 }) :=
    placed.setProc present (fun _ member _ => member) (fun _ => id)
  dsimp only
  split
  · unfold processFree
    apply ensures_getProc
    intro value found
    split
    · refine ⟨placed'.setProcs ?_ ?_, rfl, rfl⟩
      · intro other kept member
        by_cases same : other = pid
        · subst same
          simp at member
        · rw [Function.update_of_ne same] at member
          exact placed'.procs _ _ member
      · intro tid task kept taskPresent stays member
        by_cases same : task.process = pid
        · subst same
          simp at member
        · rw [Function.update_of_ne same] at member
          exact placed'.listed _ _ _ taskPresent stays member
    · exact ⟨nofun, nofun⟩
  · exact ⟨placed', rfl, rfl⟩

theorem completionSignal_ensures (placed : Placed none unlisted s) :
    Ensures Tolerated (fun s' => Placed none unlisted s' ∧ Wakes s s')
      (completionSignal s pid) := by
  unfold completionSignal
  apply ensures_getProc
  intro proc present
  have placed' : Placed none unlisted (s.setProc pid { proc with exitSignaled := true }) :=
    placed.setProc present (fun _ member _ => member) (fun _ => id)
  apply (waitListWakeAll_ensures placed').mono
  rintro s' ⟨placed'', wakes, -⟩
  exact ⟨placed'', wakes.current, wakes.tasks⟩

theorem WaitList.Known.mono {s' : Sched} {list : WaitList} (known : list.Known s)
    (tids : s.tidNext ≤ s'.tidNext) (pids : s.pidNext ≤ s'.pidNext) : list.Known s' := by
  cases list with
  | join tid => exact lt_of_lt_of_le known tids
  | exitCompl pid => exact lt_of_lt_of_le known pids
  | irqEvent => trivial
  | object id => trivial

/-- Emptying the list of an object that did not exist changes no container. -/
theorem Placed.container_setWaitQueue_nil {list : WaitList} (placed : Placed loose unlisted s)
    (unknown : ¬ list.Known s) : (s.setWaitQueue list []).container = s.container := by
  have unused : s.container (.wait list) = [] := by
    by_contra nonempty
    exact unknown (placed.known list nonempty)
  rw [container_setWaitQueue, ← unused, Function.update_eq_self]

/-- The new process has the next id, so no task names it yet. -/
theorem processInit_ensures (settled : Settled s) :
    Ensures Tolerated Settled (processInit s) := by
  unfold processInit
  apply ensures_kassert
  intro _
  have placed := settled.1
  have containers : (s.setWaitQueue (.exitCompl s.pidNext) []).container = s.container :=
    placed.container_setWaitQueue_nil (lt_irrefl s.pidNext)
  refine ⟨?_, settled.2⟩
  exact {
    mem_iff := fun c => containers ▸ placed.mem_iff c
    nodup := fun c => containers ▸ placed.nodup c
    known := by
      intro list nonempty
      have same := congrFun containers (.wait list)
      exact (placed.known list fun empty => nonempty (same.trans empty)).mono le_rfl
        (Nat.le_succ _)
    fresh := fun tid task present =>
      ⟨(placed.fresh tid task present).1, Nat.lt_succ_of_lt (placed.fresh tid task present).2⟩
    dead := placed.dead
    running := placed.running
    idle := placed.idle
    context := placed.context
    listed := by
      intro tid task proc present stays found
      have differs : task.process ≠ s.pidNext := ne_of_lt (placed.fresh tid task present).2
      exact placed.listed tid task proc present stays
        ((Function.update_of_ne differs ..).symm.trans found)
    procs := by
      intro pid proc found
      by_cases same : pid = s.pidNext
      · exact same ▸ Nat.lt_succ_self _
      · exact Nat.lt_succ_of_lt
          (placed.procs pid proc ((Function.update_of_ne same ..).symm.trans found))
    unstalled := placed.unstalled }

end Processes

section Lifetime

variable {s s' : Sched} {tid pid : Nat} {task task' : Task}

theorem CurrentRuns.of_ne (runs : CurrentRuns s) (current : s'.current = s.current)
    (same : s'.tasks s.current = s.tasks s.current) : CurrentRuns s' := by
  obtain ⟨value, found, running⟩ := runs
  exact ⟨value, by rw [current, same, found], running⟩

theorem Moved.currentRuns (moved : Moved s s' tid task') (runs : CurrentRuns s)
    (differs : s.current ≠ tid) : CurrentRuns s' :=
  runs.of_ne moved.current (moved.of_ne differs)

/-- A field of a task that the scheduler does not read is written. -/
theorem Settled.adjust (settled : Settled s) (present : s.tasks tid = some task)
    (state : task'.state = task.state) (same : ∀ c, task'.Belongs c ↔ task.Belongs c)
    (process : task'.process = task.process) (ctx : task'.ctx = task.ctx) :
    Settled (s.setTask tid task') := by
  obtain ⟨placed, value, found, runs⟩ := settled
  refine ⟨placed.adjust present state same process ?_, ?_⟩
  · exact fun exits => placed.context _ _ present (ctx.symm.trans exits)
  · by_cases own : s.current = tid
    · subst own
      rw [present] at found
      cases found
      exact ⟨task', Function.update_self .., state.trans runs⟩
    · exact ⟨value, (Function.update_of_ne own ..).trans found, runs⟩

theorem taskRetain_ensures (settled : Settled s) :
    Ensures Tolerated Settled (taskRetain s tid) := by
  unfold taskRetain
  apply ensures_getTask
  intro task present
  apply ensures_kassert
  intro _
  exact settled.adjust present rfl (fun c => by cases c <;> rfl) rfl rfl

/-- A task with the next id that belongs nowhere yet, listed by its process. -/
theorem Placed.create {proc : Process} (placed : Placed none none s)
    (present : s.procs pid = some proc) (process : task.process = pid)
    (waiting : task.state = .waiting) (nowhere : ∀ c, ¬ task.Belongs c)
    (ctx : task.ctx = .returns)
    (tasks : s'.tasks = Function.update s.tasks s.tidNext (some task))
    (containers : s'.container = s.container) (tidNext : s'.tidNext = s.tidNext + 1)
    (pidNext : s'.pidNext = s.pidNext) (deadList : s'.deadList = s.deadList)
    (procs : s'.procs = Function.update s.procs pid
      (some { proc with taskList := proc.taskList ++ [s.tidNext] }))
    (current : s'.current = s.current) (trace : s'.trace = s.trace) :
    Placed none none s' := by
  have keeps : ∀ other, other ≠ s.tidNext → s'.tasks other = s.tasks other := by
    intro other differs
    rw [tasks, Function.update_of_ne differs]
  have becomes : s'.tasks s.tidNext = some task := by rw [tasks, Function.update_self]
  have unborn : ∀ c, s.tidNext ∉ s.container c := by
    intro c member
    obtain ⟨-, value, found, -⟩ := (placed.mem_iff c _).mp member
    exact absurd (placed.fresh _ _ found).1 (lt_irrefl _)
  refine ⟨?_, containers ▸ placed.nodup, ?_, ?_, ?_, ?_, ?_, ?_, ?_, ?_, trace ▸ placed.unstalled⟩
  · intro c other
    rw [containers]
    by_cases same : other = s.tidNext
    · subst same
      rw [becomes]
      simp [unborn c, nowhere c]
    · rw [keeps other same]
      exact placed.mem_iff c other
  · intro list nonempty
    have same := congrFun containers (.wait list)
    exact (placed.known list fun empty => nonempty (same.trans empty)).mono
      (tidNext ▸ Nat.le_succ _) (le_of_eq pidNext.symm)
  · intro other value found
    rw [tidNext, pidNext]
    by_cases same : other = s.tidNext
    · subst same
      rw [becomes] at found
      cases found
      exact ⟨Nat.lt_succ_self _, process ▸ placed.procs _ _ present⟩
    · rw [keeps other same] at found
      exact ⟨Nat.lt_succ_of_lt (placed.fresh _ _ found).1, (placed.fresh _ _ found).2⟩
  · rw [deadList, tidNext]
    intro other member
    obtain ⟨bounded, dead⟩ := placed.dead other member
    rw [keeps other (ne_of_lt bounded)]
    exact ⟨Nat.lt_succ_of_lt bounded, dead⟩
  · intro other value found runs
    rw [current]
    by_cases same : other = s.tidNext
    · subst same
      rw [becomes] at found
      cases found
      exact absurd runs (by simp [waiting])
    · rw [keeps other same] at found
      exact placed.running _ _ found runs
  · obtain ⟨idle, found, states⟩ := placed.idle
    exact ⟨idle, by rw [keeps _ (ne_of_lt (placed.fresh _ _ found).1), found], states⟩
  · intro other value found exits
    by_cases same : other = s.tidNext
    · subst same
      rw [becomes] at found
      cases found
      exact absurd exits (by simp [ctx])
    · rw [keeps other same] at found
      exact placed.context _ _ found exits
  · intro other value proc' found stays member
    rw [procs] at member
    by_cases same : other = s.tidNext
    · subst same
      rw [becomes] at found
      cases found
      rw [process, Function.update_self] at member
      cases member
      simp
    · rw [keeps other same] at found
      by_cases home : value.process = pid
      · rw [home, Function.update_self] at member
        cases member
        have old := placed.listed _ _ _ found stays (home ▸ present)
        simp [old]
      · rw [Function.update_of_ne home] at member
        exact placed.listed _ _ _ found stays member
  · intro other value found
    rw [pidNext]
    rw [procs] at found
    by_cases same : other = pid
    · subst same
      exact placed.procs _ _ present
    · rw [Function.update_of_ne same] at found
      exact placed.procs _ _ found

theorem taskInit_ensures (placed : Placed none none s) :
    Ensures Tolerated (fun s' => Placed none none s' ∧ s'.current = s.current ∧
      ∃ task, s'.tasks = Function.update s.tasks s.tidNext (some task) ∧
        task.state = .waiting ∧ task.waitFor = none ∧ task.hasTimeout = false)
      (taskInit s pid) := by
  unfold taskInit
  apply ensures_kassert
  intro _
  apply (processRetain_ensures placed).bind
  rintro s₁ ⟨placed₁, tasks₁, current₁, tidNext₁⟩
  refine (?_ : Ensures _ _ ((Sched.setTask _ _ _).getProc pid >>= _))
  apply ensures_getProc
  intro proc present
  refine ⟨?_, current₁, _, congrArg (Function.update · _ _) tasks₁, rfl, rfl, rfl⟩
  rw [← tidNext₁]
  have containers : (s₁.setWaitQueue (.join s₁.tidNext) []).container = s₁.container :=
    placed₁.container_setWaitQueue_nil (lt_irrefl s₁.tidNext)
  refine placed₁.create present ?_ ?_ ?_ ?_ rfl containers rfl rfl rfl rfl rfl rfl
  · rfl
  · rfl
  · intro c
    cases c <;> simp [Task.Belongs]
  · rfl

theorem taskCreate_ensures {priority : Priority} {stack slab : Bool} (settled : Settled s) :
    Ensures Tolerated Settled (taskCreate s pid priority stack slab) := by
  unfold taskCreate
  split
  · apply ensures_getProc
    intro proc _
    split
    · exact settled
    · split
      · apply (taskInit_ensures settled.1).bind
        rintro s₁ ⟨placed₁, current₁, task, tasks₁, waiting, notQueued, untimed⟩
        have present : s₁.tasks s.tidNext = some task := by rw [tasks₁, Function.update_self]
        have differs : s.current ≠ s.tidNext := by
          obtain ⟨_, found, _⟩ := settled.2
          exact ne_of_lt (settled.1.fresh _ _ found).1
        have notIdle : s.tidNext ≠ idleTid := by
          obtain ⟨_, found, _⟩ := settled.1.idle
          exact (ne_of_lt (settled.1.fresh _ _ found).1).symm
        have runs : CurrentRuns s₁ :=
          settled.2.of_ne current₁ (by rw [tasks₁, Function.update_of_ne differs])
        apply ensures_getTask
        intro value found
        rw [present] at found
        cases found
        have settled₂ : Settled (s₁.setTask s.tidNext { task with priority := priority }) := by
          refine Settled.adjust ⟨placed₁, runs⟩ present rfl (fun c => ?_) rfl rfl
          cases c <;> simp [Task.Belongs, waiting]
        have present₂ : (s₁.setTask s.tidNext { task with priority := priority }).tasks s.tidNext =
            some { task with priority := priority } := Function.update_self ..
        have loose := settled₂.1.loosen present₂ fun c => by
          cases c <;> simp [Task.Belongs, waiting, notQueued, untimed]
        apply (setWaitFor_ensures loose present₂ (by simp [waiting]) notIdle (by simp)).bind
        rintro s₃ ⟨placed₃, moved₃⟩
        have settled₃ : Settled s₃ :=
          ⟨placed₃, moved₃.currentRuns settled₂.2 (current₁.symm ▸ differs)⟩
        apply ensures_getTask
        intro value found
        exact settled₃.adjust found rfl (fun c => by cases c <;> rfl) rfl rfl
      · exact settled
  · exact settled

theorem taskSuspend_ensures (settled : Settled s) (notIdle : tid ≠ idleTid) :
    Ensures Tolerated Settled (taskSuspend s tid) := by
  unfold taskSuspend
  split
  · rename_i own
    subst own
    obtain ⟨task, present, runs⟩ := settled.2
    have loose := (settled.loosen present).1
    apply (setWaitFor_ensures loose present (by simp [runs]) notIdle (by simp)).bind
    rintro s₁ ⟨placed₁, -⟩
    exact scheduleFrom_ensures placed₁ nofun
  · rename_i differs
    apply ensures_getTask
    intro task present
    apply ensures_kassert
    intro ready
    apply (resetReady_ensures settled.1 present ready).bind
    rintro s₁ ⟨placed₁, moved₁⟩
    apply (setWaitFor_ensures placed₁ moved₁.self (by simp [ready]) notIdle (by simp)).mono
    rintro s₂ ⟨placed₂, moved₂⟩
    have runs₁ := moved₁.currentRuns settled.2 differs
    exact ⟨placed₂, moved₂.currentRuns runs₁ (moved₁.current.symm ▸ differs)⟩

theorem taskResume_ensures (settled : Settled s) :
    Ensures Tolerated Settled (taskResume s tid) := by
  unfold taskResume
  apply ensures_getTask
  intro task present
  apply ensures_kassert
  intro waiting
  apply ensures_kassert
  intro notQueued
  apply ensures_kassert
  intro untimed
  apply (resetWaitFor_ensures settled.1 present waiting).bind
  rintro s₁ ⟨placed₁, moved₁, -⟩
  apply (ready_ensures placed₁ moved₁.self waiting rfl untimed).mono
  rintro s₂ ⟨placed₂, wakes₂, -⟩
  exact ⟨placed₂, wakes₂.currentRuns ((moved₁.wakes present waiting).currentRuns settled.2)⟩

theorem taskFreeStack_ensures (settled : Settled s) :
    Ensures Tolerated (fun s' => Settled s' ∧ s'.current = s.current ∧
      ∀ task, s.tasks tid = some task → ∃ task', s'.tasks tid = some task' ∧
        task'.state = task.state ∧ task'.process = task.process) (taskFreeStack s tid) := by
  unfold taskFreeStack
  apply ensures_getTask
  intro task present
  refine ⟨settled.adjust present rfl (fun c => by cases c <;> rfl) rfl rfl, rfl, ?_⟩
  intro value found
  rw [present] at found
  cases found
  exact ⟨_, Function.update_self .., rfl, rfl⟩

/-- A dead task that its process does not list any more is removed. -/
theorem Placed.remove (placed : Placed none (some tid) s) (present : s.tasks tid = some task)
    (dead : task.state = .dead) :
    Placed none none { s with tasks := Function.update s.tasks tid none } := by
  have gone : Function.update s.tasks tid none tid = none := Function.update_self ..
  have keeps : ∀ other, other ≠ tid → Function.update s.tasks tid none other = s.tasks other :=
    fun other differs => Function.update_of_ne differs ..
  have ne_of_some : ∀ {other value}, Function.update s.tasks tid none other = some value →
      other ≠ tid := by
    rintro other value found rfl
    rw [gone] at found
    cases found
  have old : ∀ {other value}, Function.update s.tasks tid none other = some value →
      s.tasks other = some value := fun found => (keeps _ (ne_of_some found)).symm.trans found
  refine ⟨?_, placed.nodup, placed.known, fun other value found => placed.fresh _ _ (old found),
    ?_, fun other value found => placed.running _ _ (old found), ?_,
    fun other value found => placed.context _ _ (old found), ?_, placed.procs, placed.unstalled⟩
  · intro c other
    refine (placed.mem_iff c other).trans ?_
    constructor
    · rintro ⟨-, value, found, belongs⟩
      refine ⟨nofun, value, (keeps other ?_).trans found, belongs⟩
      rintro rfl
      rw [present] at found
      cases found
      exact Task.not_belongs (by simp [dead]) (by simp [dead]) belongs
    · rintro ⟨-, value, found, belongs⟩
      exact ⟨nofun, value, old found, belongs⟩
  · intro other member
    exact ⟨(placed.dead other member).1, fun value found =>
      (placed.dead other member).2 _ (old found)⟩
  · obtain ⟨idle, found, states⟩ := placed.idle
    have notIdle := placed.ne_idle present (by simp [dead]) (by simp [dead])
    exact ⟨idle, (keeps _ notIdle.symm).trans found, states⟩
  · intro other value proc found _ member
    exact placed.listed _ _ _ (old found) (ne_some_of_ne (ne_of_some found)) member

/-- The end of `task_free`, once the process does not list the task any more. -/
theorem releaseAndRemove_ensures (placed : Placed none (some tid) s) (runs : CurrentRuns s)
    (present : s.tasks tid = some task) (dead : task.state = .dead) :
    Ensures Tolerated Settled (processRelease s pid >>= fun s' =>
      .ok { s' with tasks := Function.update s'.tasks tid none }) := by
  apply (processRelease_ensures placed).bind
  rintro s₁ ⟨placed₁, tasks₁, current₁⟩
  have present₁ : s₁.tasks tid = some task := tasks₁ ▸ present
  refine ⟨placed₁.remove present₁ dead, ?_⟩
  obtain ⟨value, found, running⟩ := runs
  have differs : s.current ≠ tid := by
    rintro rfl
    rw [present] at found
    cases found
    exact absurd running (by simp [dead])
  exact CurrentRuns.of_ne ⟨value, found, running⟩ current₁
    ((Function.update_of_ne differs ..).trans (congrFun tasks₁ _))

theorem taskFree_ensures (settled : Settled s) (present : s.tasks tid = some task)
    (dead : task.state = .dead) : Ensures Tolerated Settled (taskFree s tid) := by
  unfold taskFree
  apply (taskFreeStack_ensures settled).bind
  rintro s₁ ⟨⟨placed₁, runs₁⟩, -, keeps₁⟩
  obtain ⟨task₁, present₁, state₁, -⟩ := keeps₁ task present
  have dead₁ : task₁.state = .dead := state₁.trans dead
  apply ensures_getTask
  intro value found
  rw [present₁] at found
  cases found
  apply ensures_getProc
  intro proc procPresent
  rw [unlink_of_mem (placed₁.listed _ _ _ present₁ nofun procPresent)]
  have unlisted : Placed none (some tid) (s₁.setProc task₁.process
      { proc with taskList := proc.taskList.erase tid }) := by
    refine placed₁.setProc procPresent ?_ (by simp)
    intro other member differs
    exact (List.mem_erase_of_ne fun same => differs (congrArg some same.symm)).mpr member
  refine (?_ : Ensures _ _ (if proc.taskList.erase tid = [] then _ else _))
  split
  · apply (completionSignal_ensures unlisted).bind
    rintro s₂ ⟨placed₂, wakes₂⟩
    have present₂ := wakes₂.tasks tid task₁ present₁ (by simp [dead₁])
    exact releaseAndRemove_ensures placed₂ (wakes₂.currentRuns runs₁) present₂ dead₁
  · exact releaseAndRemove_ensures unlisted runs₁ present₁ dead₁

theorem taskRelease_ensures (settled : Settled s) :
    Ensures Tolerated Settled (taskRelease s tid) := by
  unfold taskRelease
  apply ensures_getTask
  intro task present
  apply ensures_kassert
  intro _
  have settled' : Settled (s.setTask tid { task with refcount := task.refcount - 1 }) :=
    settled.adjust present rfl (fun c => by cases c <;> rfl) rfl rfl
  dsimp only
  split
  · rename_i last
    exact taskFree_ensures settled' (Function.update_self ..) last.2
  · exact settled'

/-- The task is dead afterwards, and its waiters are ready. -/
theorem taskBeforeDying_ensures (loose : Placed (some tid) none s)
    (present : s.tasks tid = some task) (notIdle : tid ≠ idleTid) :
    Ensures Tolerated (fun s' => Placed none none s' ∧ s'.current = s.current ∧
      (∃ task', s'.tasks tid = some task' ∧ task'.state = .dead) ∧
      (s.current ≠ tid → CurrentRuns s → CurrentRuns s')) (taskBeforeDying s tid) := by
  unfold taskBeforeDying
  apply (setDead_ensures loose present notIdle).bind
  rintro s₁ ⟨placed₁, moved₁⟩
  apply (waitListWakeAll_ensures placed₁).mono
  rintro s₂ ⟨placed₂, wakes₂, -⟩
  refine ⟨placed₂, wakes₂.current.trans moved₁.current, ?_, ?_⟩
  · exact ⟨_, wakes₂.tasks tid _ moved₁.self (by simp), rfl⟩
  · intro differs runs
    exact wakes₂.currentRuns (moved₁.currentRuns runs differs)

/-- The end of `task_terminate`, once the task is in no container. -/
theorem die_ensures (loose : Placed (some tid) none s) (present : s.tasks tid = some task)
    (notIdle : tid ≠ idleTid) (differs : s.current ≠ tid) (runs : CurrentRuns s) :
    Ensures Tolerated Settled (taskBeforeDying s tid >>= fun s' =>
      taskFreeStack s' tid >>= fun s'' => taskRelease s'' tid) := by
  apply (taskBeforeDying_ensures loose present notIdle).bind
  rintro s₁ ⟨placed₁, -, -, keeps₁⟩
  apply (taskFreeStack_ensures ⟨placed₁, keeps₁ differs runs⟩).bind
  rintro s₂ ⟨settled₂, -⟩
  exact taskRelease_ensures settled₂

theorem taskTerminate_ensures (settled : Settled s) (notIdle : tid ≠ idleTid) :
    Ensures Tolerated Settled (taskTerminate s tid) := by
  unfold taskTerminate
  apply ensures_getTask
  intro task present
  have differs (stopped : task.state ≠ .running) : s.current ≠ tid := by
    rintro rfl
    exact stopped (settled.loosen present).2
  cases state : task.state with
  | dead => exact ⟨nofun, nofun⟩
  | running => exact ⟨nofun, nofun⟩
  | ready =>
      apply (resetReady_ensures settled.1 present state).bind
      rintro s₁ ⟨loose₁, moved₁⟩
      have apart := differs (by simp [state])
      exact die_ensures loose₁ moved₁.self notIdle (moved₁.current ▸ apart)
        (moved₁.currentRuns settled.2 apart)
  | waiting =>
      apply (resetTimeout_ensures settled.1 present state).bind
      rintro s₁ ⟨placed₁, moved₁, -⟩
      apply (resetWaitFor_ensures placed₁ moved₁.self state).bind
      rintro s₂ ⟨placed₂, moved₂, -⟩
      have wakes := (moved₁.wakes present state).trans (moved₂.wakes moved₁.self state)
      have loose₂ := placed₂.loosen moved₂.self fun c => by
        cases c <;> simp [Task.Belongs, state]
      exact die_ensures loose₂ moved₂.self notIdle
        (wakes.current ▸ differs (by simp [state])) (wakes.currentRuns settled.2)

theorem Placed.setDeadList {deadList : List Nat} (placed : Placed none none s)
    (dead : ∀ other ∈ deadList, other < s.tidNext ∧
      ∀ value, s.tasks other = some value → value.state = .dead) :
    Placed none none { s with deadList := deadList } :=
  { placed with mem_iff := placed.mem_iff, nodup := placed.nodup, known := placed.known
                dead := dead }

/-- A dead task goes onto the dead list with a reference of its own. -/
theorem Placed.bury (placed : Placed none none s) (present : s.tasks tid = some task)
    (dead : task.state = .dead) :
    Placed none none { s.setTask tid { task with refcount := task.refcount + 1 } with
      deadList := s.deadList ++ [tid] } := by
  have adjusted : Placed none none (s.setTask tid { task with refcount := task.refcount + 1 }) :=
    placed.adjust present rfl (fun c => by cases c <;> rfl) rfl fun _ => dead
  apply adjusted.setDeadList
  intro other member
  rcases List.mem_append.mp member with old | new
  · exact adjusted.dead other old
  · rw [List.mem_singleton.mp new]
    refine ⟨(adjusted.fresh _ _ (Function.update_self ..)).1, ?_⟩
    intro value found
    cases (Function.update_self ..).symm.trans found
    exact dead

theorem taskExit_ensures (settled : Settled s) (notIdle : s.current ≠ idleTid) :
    Ensures Tolerated Settled (taskExit s) := by
  obtain ⟨task, present, runs⟩ := settled.2
  have loose := (settled.loosen present).1
  unfold taskExit taskRetain
  apply (taskBeforeDying_ensures loose present notIdle).bind
  rintro s₁ ⟨placed₁, current₁, ⟨task₁, present₁, dead₁⟩, -⟩
  rw [bind_assoc]
  apply ensures_getTask
  intro value found
  rw [present₁] at found
  cases found
  rw [bind_assoc]
  apply ensures_kassert
  intro _
  refine scheduleFrom_ensures (placed₁.bury present₁ dead₁) ?_
  rintro - value found
  have own : Function.update s₁.tasks s.current
      (some { task₁ with refcount := task₁.refcount + 1 }) s₁.current = some value := found
  rw [current₁, Function.update_self] at own
  cases own
  exact dead₁

theorem drainDead_ensures (settled : Settled s) : Ensures Tolerated Settled (drainDead s) := by
  unfold drainDead
  cases queue : s.deadList with
  | nil => exact settled
  | cons tid rest =>
      refine taskRelease_ensures ⟨settled.1.setDeadList ?_, settled.2⟩
      intro other member
      exact settled.1.dead other (queue ▸ List.mem_cons_of_mem _ member)

end Lifetime

section System

variable {s : Sched}

theorem WaitList.Live.known {list : WaitList} (live : list.Live s) (placed : Placed none none s) :
    list.Known s := by
  cases list with
  | join tid =>
      obtain ⟨task, present⟩ := Option.isSome_iff_exists.mp live
      exact (placed.fresh _ _ present).1
  | exitCompl pid =>
      obtain ⟨proc, present⟩ := Option.isSome_iff_exists.mp live
      exact placed.procs _ _ present
  | irqEvent => trivial
  | object id => trivial

theorem exec_ensures {call : Call} (settled : Settled s) (admitted : Admits s call) :
    Ensures Tolerated Settled (exec s call) := by
  cases call with
  | taskCreate pid priority stack slab => exact taskCreate_ensures settled
  | taskSuspend tid => exact taskSuspend_ensures settled admitted
  | taskResume tid => exact taskResume_ensures settled
  | taskWait list timeout =>
      exact taskWait_ensures settled admitted.1 fun l member =>
        (admitted.2 l member).known settled.1
  | taskWaitLocked list timeout =>
      exact taskWaitLocked_ensures settled admitted.1 fun l member =>
        (admitted.2 l member).known settled.1
  | taskJoin tid timeout => exact taskJoin_ensures settled admitted
  | taskTerminate tid => exact taskTerminate_ensures settled admitted
  | taskExit => exact taskExit_ensures settled admitted
  | taskRetain tid => exact taskRetain_ensures settled
  | taskRelease tid => exact taskRelease_ensures settled
  | waitListWakeOne list =>
      apply (waitListWakeOne_ensures settled.1).bind
      rintro ⟨s₁, waken⟩ ⟨placed₁, wakes₁, -⟩
      exact ⟨placed₁, wakes₁.currentRuns settled.2⟩
  | waitListWakeAll list =>
      apply (waitListWakeAll_ensures settled.1).mono
      rintro s₁ ⟨placed₁, wakes₁, -⟩
      exact ⟨placed₁, wakes₁.currentRuns settled.2⟩
  | schedule => exact scheduleFrom_ensures settled.1 nofun
  | isrTimer =>
      refine scheduleFrom_ensures ?_ nofun
      exact settled.1.congr rfl rfl ⟨rfl, rfl, rfl, rfl, fun _ => id⟩ rfl
  | drainDead => exact drainDead_ensures settled
  | irqmsgPush msg =>
      apply (irqmsgPush_ensures settled.1).bind
      rintro ⟨s₁, pushed⟩ ⟨placed₁, wakes₁⟩
      exact ⟨placed₁, wakes₁.currentRuns settled.2⟩
  | irqmsgPop =>
      have popped : ∀ msg, Settled { (irqmsgPop s).1 with handling := msg } := by
        intro msg
        unfold irqmsgPop
        split
        · exact ⟨settled.1.congr rfl rfl ⟨rfl, rfl, rfl, rfl, fun _ => id⟩ rfl, settled.2⟩
        · split
          · exact ⟨settled.1.congr rfl rfl ⟨rfl, rfl, rfl, rfl, fun _ => id⟩ rfl, settled.2⟩
          · exact ⟨settled.1.congr rfl rfl ⟨rfl, rfl, rfl, rfl, fun _ => id⟩ rfl, settled.2⟩
      exact popped _
  | irqmsgHandle =>
      cases pending : s.handling with
      | none =>
          simp only [exec, pending]
          exact settled
      | some msg =>
          simp only [exec, pending]
          have handled : Ensures Tolerated (fun s' => Placed none none s' ∧ Wakes s s')
              (handle s msg) := by
            unfold handle
            split
            · exact irqmsgTimeout_ensures settled.1
            · exact ⟨settled.1, Wakes.refl⟩
          apply handled.bind
          rintro s₁ ⟨placed₁, wakes₁⟩
          exact ⟨placed₁.congr rfl rfl ⟨rfl, rfl, rfl, rfl, fun _ => id⟩ rfl,
            wakes₁.currentRuns settled.2⟩
  | irqmsgTimeout =>
      apply (irqmsgTimeout_ensures settled.1).mono
      rintro s₁ ⟨placed₁, wakes₁⟩
      exact ⟨placed₁, wakes₁.currentRuns settled.2⟩
  | eventWait timeout => exact eventWait_ensures settled admitted
  | processCreate allocated =>
      cases allocated with
      | true => exact processInit_ensures settled
      | false => exact settled
  | processRetain pid =>
      apply (processRetain_ensures settled.1).mono
      rintro s₁ ⟨placed₁, tasks₁, current₁, -⟩
      exact ⟨placed₁, settled.2.of_ne current₁ (congrFun tasks₁ _)⟩
  | processRelease pid =>
      apply (processRelease_ensures settled.1).mono
      rintro s₁ ⟨placed₁, tasks₁, current₁⟩
      exact ⟨placed₁, settled.2.of_ne current₁ (congrFun tasks₁ _)⟩
  | processJoin pid timeout => exact processJoin_ensures settled admitted

/-- The state after `sched_init`: the kernel task runs, the idle task is ready. -/
def booted : Sched where
  tidNext := 2
  tasks
    | 0 => some { process := 0, refcount := 1, state := .running, priority := .kernel
                  waitFor := none, hasTimeout := false, waitTimeout := 0, kstack := false
                  ctx := .returns }
    | 1 => some { process := 0, refcount := 1, state := .ready, priority := .idle
                  waitFor := none, hasTimeout := false, waitTimeout := 0, kstack := false
                  ctx := .returns }
    | _ + 2 => none
  readyQueue priority := if priority = .idle then [1] else []
  deadList := []
  timeoutQueue := []
  soonestTimeout := uintptrMax
  current := 0
  waitQueue _ := []
  pidNext := 1
  procs
    | 0 => some { refcount := 3, taskList := [0, 1], exitSignaled := false }
    | _ + 1 => none
  tick := 0
  msgQueue := []
  msgDrops := 0
  msgDropEvent := false
  eventSignaled := false
  handling := none
  trace := [.becameReady 1]

theorem schedInit_eq : schedInit = .ok booted := by
  refine congrArg Except.ok (?_ : (_ : Sched) = booted)
  unfold booted Sched.record Sched.setReadyQueue
  congr 1
  · funext tid
    rcases tid with _ | _ | tid <;> rfl
  · funext priority
    cases priority <;> rfl
  · funext list
    simp [Sched.setTask, Sched.setWaitQueue, Sched.setProc]
  · funext pid
    cases pid <;> rfl

theorem booted_settled : Settled booted := by
  refine ⟨⟨?_, ?_, fun list waiting => absurd rfl waiting, ?_, (by simp [booted]), ?_,
    ⟨_, rfl, .inl rfl⟩, ?_, ?_, ?_, ?_⟩, _, rfl, rfl⟩
  · intro c tid
    rcases tid with _ | _ | tid
    · cases c <;> simp [booted, Sched.container, Task.Belongs]
    · cases c <;> simp [booted, Sched.container, Task.Belongs, @eq_comm _ Priority.idle]
    · cases c <;> simp [booted, Sched.container]
  · intro c
    cases c with
    | ready priority =>
        by_cases idle : priority = .idle <;> simp [booted, Sched.container, idle]
    | wait list => simp [booted, Sched.container]
    | timeout => simp [booted, Sched.container]
  · intro tid task present
    rcases tid with _ | _ | tid
    · cases present; decide
    · cases present; decide
    · cases present
  · intro tid task present runs
    rcases tid with _ | _ | tid
    · rfl
    · cases present
      cases runs
    · cases present
  · intro tid task present exits
    rcases tid with _ | _ | tid
    · cases present; cases exits
    · cases present; cases exits
    · cases present
  · intro tid task proc present _ listed
    rcases tid with _ | _ | tid
    · cases present; cases listed; decide
    · cases present; cases listed; decide
    · cases present
  · intro pid proc present
    cases pid with
    | zero => decide
    | succ pid => cases present
  · intro tid
    simp [booted]

/-- What the state of a task says about where it is. -/
structure Consistent (s : Sched) : Prop where
  current : ∃ task, s.tasks s.current = some task ∧ task.state = .running
  running : ∀ tid task, s.tasks tid = some task → task.state = .running →
    tid = s.current ∧ (∀ priority, tid ∉ s.readyQueue priority) ∧
      (∀ list, tid ∉ s.waitQueue list) ∧ tid ∉ s.timeoutQueue ∧ tid ∉ s.deadList
  ready : ∀ tid task, s.tasks tid = some task → task.state = .ready →
    (s.readyQueue task.priority).count tid = 1 ∧
      (∀ priority ≠ task.priority, tid ∉ s.readyQueue priority) ∧
      (∀ list, tid ∉ s.waitQueue list) ∧ tid ∉ s.timeoutQueue ∧ tid ∉ s.deadList
  waiting : ∀ tid task, s.tasks tid = some task → task.state = .waiting →
    (∀ list, (s.waitQueue list).count tid = if task.waitFor = some list then 1 else 0) ∧
      s.timeoutQueue.count tid = (if task.hasTimeout then 1 else 0) ∧
      (∀ priority, tid ∉ s.readyQueue priority) ∧ tid ∉ s.deadList
  dead : ∀ tid task, s.tasks tid = some task → task.state = .dead →
    (∀ priority, tid ∉ s.readyQueue priority) ∧ (∀ list, tid ∉ s.waitQueue list) ∧
      tid ∉ s.timeoutQueue
  /-- Whenever `schedule` ran with a current task that is not running, it found a next one. -/
  scheduled : ∀ tid, Event.stalled tid ∉ s.trace

theorem Settled.consistent (settled : Settled s) : Consistent s := by
  obtain ⟨placed, runs⟩ := settled
  have alive {tid : Nat} {task : Task} (present : s.tasks tid = some task)
      (notDead : task.state ≠ .dead) : tid ∉ s.deadList :=
    fun member => notDead ((placed.dead tid member).2 task present)
  have absent {tid : Nat} {task : Task} (present : s.tasks tid = some task) {c : Container}
      (elsewhere : ¬ task.Belongs c) : tid ∉ s.container c :=
    fun member => elsewhere ((placed.mem_container present c).mp member)
  refine ⟨runs, ?_, ?_, ?_, ?_, placed.unstalled⟩
  · intro tid task present state
    have nowhere (c : Container) : tid ∉ s.container c :=
      absent present (Task.not_belongs (by simp [state]) (by simp [state]))
    exact ⟨placed.running _ _ present state, fun priority => nowhere (.ready priority),
      fun list => nowhere (.wait list), nowhere .timeout, alive present (by simp [state])⟩
  · intro tid task present state
    refine ⟨?_, ?_, ?_, ?_, alive present (by simp [state])⟩
    · have member : tid ∈ s.container (.ready task.priority) :=
        (placed.mem_container present _).mpr ⟨state, rfl⟩
      exact ((placed.nodup (.ready task.priority)).count).trans (if_pos member)
    · intro priority differs
      exact absent (c := .ready priority) present fun belongs => differs belongs.2.symm
    · intro list
      exact absent (c := .wait list) present fun belongs => by simp [Task.Belongs, state] at belongs
    · exact absent (c := .timeout) present fun belongs => by simp [Task.Belongs, state] at belongs
  · intro tid task present state
    refine ⟨?_, ?_, ?_, alive present (by simp [state])⟩
    · intro list
      refine ((placed.nodup (.wait list)).count).trans ?_
      simp only [placed.mem_container present, Task.Belongs, state, true_and]
    · refine ((placed.nodup .timeout).count).trans ?_
      simp only [placed.mem_container present, Task.Belongs, state, true_and]
    · intro priority
      exact absent (c := .ready priority) present fun belongs => by
        simp [Task.Belongs, state] at belongs
  · intro tid task present state
    have nowhere (c : Container) : tid ∉ s.container c :=
      absent present (Task.not_belongs (by simp [state]) (by simp [state]))
    exact ⟨fun priority => nowhere (.ready priority), fun list => nowhere (.wait list),
      nowhere .timeout⟩

/-- In every state that calls of any tasks in any order reach, every task is in exactly
the containers its state names and `schedule` has always found a task to run; and no call
made there unlinks a task from a list that does not hold it or returns from `task_exit`. -/
theorem run_consistent {init s : Sched} (started : schedInit = .ok init)
    (reached : Reaches exec Admits init s) :
    Consistent s ∧ ∀ call, Admits s call → ∀ stop, exec s call = .error stop →
      stop ≠ .corrupted ∧ stop ≠ .unreachable := by
  cases started.symm.trans schedInit_eq
  have settled : Settled s :=
    reached.invariant booted_settled fun _ _ settled admitted => exec_ensures settled admitted
  refine ⟨settled.consistent, ?_⟩
  intro call admitted stop stopped
  exact (exec_ensures settled admitted).of_error stopped

/-- A worker is created, waits with a deadline, times out, is suspended while it is ready
and terminated; the kernel task is woken from its own wait in between. -/
def timedWaits : List Call :=
  [.taskCreate 0 .high true true, .taskResume 2, .taskWait (some (.object 0)) uintptrMax,
    .taskWait (some (.object 1)) 1, .isrTimer, .irqmsgPop, .waitListWakeOne (.object 0),
    .irqmsgHandle, .taskSuspend 2, .schedule, .taskTerminate 2]

theorem run_consistent_timedWaits : ∃ init s, schedInit = .ok init ∧
    runFrom exec Admits init timedWaits = some s ∧ Consistent s := by
  have runs : (runFrom exec Admits booted timedWaits).isSome = true := by decide +kernel
  obtain ⟨s, ran⟩ := Option.isSome_iff_exists.mp runs
  exact ⟨booted, s, schedInit_eq, ran,
    (run_consistent schedInit_eq (Reaches.start.of_runFrom ran)).1⟩

end System

end Opal.Scheduler
