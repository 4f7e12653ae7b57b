import Opal.Scheduler.Operations

/-!
# Where the tasks are

`Placed` says that every task is in exactly the containers its state names, with the
facts about ids, the dead list and the idle task that the operations need to keep it
so.  Inside an operation one task may be `loose`, in no container whatever its state
says, and one may be `unlisted`, taken out of the task list of its process.
-/

namespace Opal.Scheduler

section Containers

inductive Container where
  | ready (priority : Priority)
  | wait (list : WaitList)
  | timeout
  deriving DecidableEq, Repr

def Sched.container (s : Sched) : Container → List Nat
  | .ready priority => s.readyQueue priority
  | .wait list => s.waitQueue list
  | .timeout => s.timeoutQueue

/-- The state of the task names the container. -/
def Task.Belongs (task : Task) : Container → Prop
  | .ready priority => task.state = .ready ∧ task.priority = priority
  | .wait list => task.state = .waiting ∧ task.waitFor = some list
  | .timeout => task.state = .waiting ∧ task.hasTimeout = true

/-- The object the list is part of has been created. -/
def WaitList.Known (s : Sched) : WaitList → Prop
  | .join tid => tid < s.tidNext
  | .exitCompl pid => pid < s.pidNext
  | .irqEvent | .object _ => True

structure Placed (loose unlisted : Option Nat) (s : Sched) : Prop where
  mem_iff : ∀ c tid, tid ∈ s.container c ↔
    loose ≠ some tid ∧ ∃ task, s.tasks tid = some task ∧ task.Belongs c
  nodup : ∀ c, (s.container c).Nodup
  known : ∀ list, s.waitQueue list ≠ [] → list.Known s
  fresh : ∀ tid task, s.tasks tid = some task → tid < s.tidNext ∧ task.process < s.pidNext
  dead : ∀ tid ∈ s.deadList, tid < s.tidNext ∧
    ∀ task, s.tasks tid = some task → task.state = .dead
  running : ∀ tid task, s.tasks tid = some task → task.state = .running → tid = s.current
  idle : ∃ task, s.tasks idleTid = some task ∧ (task.state = .ready ∨ task.state = .running)
  context : ∀ tid task, s.tasks tid = some task → task.ctx = .inTaskExit → task.state = .dead
  listed : ∀ tid task proc, s.tasks tid = some task → unlisted ≠ some tid →
    s.procs task.process = some proc → tid ∈ proc.taskList
  procs : ∀ pid proc, s.procs pid = some proc → pid < s.pidNext
  unstalled : ∀ tid, Event.stalled tid ∉ s.trace

/-- No list is unlinked from twice, and `task_exit` does not come back. -/
def Tolerated (stop : Stop) : Prop := stop ≠ .corrupted ∧ stop ≠ .unreachable

end Containers

section Change

variable {loose loose' unlisted : Option Nat} {s s' : Sched} {tid : Nat} {task task' : Task}

/-- The parts of the state that moving a task leaves alone. -/
structure SameRest (s s' : Sched) : Prop where
  tidNext : s'.tidNext = s.tidNext
  pidNext : s'.pidNext = s.pidNext
  deadList : s'.deadList = s.deadList
  procs : s'.procs = s.procs
  stalled : ∀ other, Event.stalled other ∈ s'.trace → Event.stalled other ∈ s.trace

/-- What a new value of a task has to respect besides the containers. -/
structure Compatible (s : Sched) (tid : Nat) (task task' : Task) : Prop where
  process : task'.process = task.process
  dead : task.state = .dead → task'.state = .dead
  idle : tid = idleTid → task'.state = .ready ∨ task'.state = .running
  context : task'.ctx = .inTaskExit → task'.state = .dead
  known : ∀ list, task'.Belongs (.wait list) → list.Known s

theorem WaitList.Known.congr {list : WaitList} (known : list.Known s)
    (rest : SameRest s s') : list.Known s' := by
  cases list with
  | join other => exact lt_of_lt_of_eq known rest.tidNext.symm
  | exitCompl pid => exact lt_of_lt_of_eq known rest.pidNext.symm
  | irqEvent => trivial
  | object id => trivial

/-- One task gets a new value and is put into the containers the value names, or into
none of them when it is loose afterwards. -/
theorem Placed.change (placed : Placed loose unlisted s)
    (was : s.tasks tid = some task)
    (tasks : s'.tasks = Function.update s.tasks tid (some task'))
    (others : ∀ c other, other ≠ tid → (other ∈ s'.container c ↔ other ∈ s.container c))
    (own : ∀ c, tid ∈ s'.container c ↔ loose' ≠ some tid ∧ task'.Belongs c)
    (wasTight : ∀ other ≠ tid, loose ≠ some other) (isTight : ∀ other ≠ tid, loose' ≠ some other)
    (nodup : ∀ c, (s'.container c).Nodup) (rest : SameRest s s')
    (compatible : Compatible s tid task task')
    (running : ∀ other value, s'.tasks other = some value → value.state = .running →
      other = s'.current) :
    Placed loose' unlisted s' := by
  have keeps : ∀ other, other ≠ tid → s'.tasks other = s.tasks other := by
    intro other differs
    rw [tasks, Function.update_of_ne differs]
  have becomes : s'.tasks tid = some task' := by
    rw [tasks, Function.update_self]
  refine ⟨?_, nodup, ?_, ?_, ?_, running, ?_, ?_, ?_, ?_, ?_⟩
  · intro c other
    by_cases same : other = tid
    · subst same
      rw [own c, becomes]
      simp
    · rw [others c other same, placed.mem_iff, keeps other same]
      simp [wasTight other same, isTight other same]
  · intro list nonempty
    obtain ⟨other, member⟩ := List.exists_mem_of_ne_nil _ nonempty
    by_cases same : other = tid
    · subst same
      exact (compatible.known list ((own (.wait list)).mp member).2).congr rest
    · have old : other ∈ s.waitQueue list := (others (.wait list) other same).mp member
      exact (placed.known list (List.ne_nil_of_mem old)).congr rest
  · intro other value present
    rw [rest.tidNext, rest.pidNext]
    by_cases same : other = tid
    · subst same
      rw [becomes] at present
      cases present
      rw [compatible.process]
      exact placed.fresh _ _ was
    · rw [keeps other same] at present
      exact placed.fresh _ _ present
  · rw [rest.deadList, rest.tidNext]
    intro other member
    obtain ⟨bounded, dead⟩ := placed.dead other member
    refine ⟨bounded, ?_⟩
    intro value present
    by_cases same : other = tid
    · subst same
      rw [becomes] at present
      cases present
      exact compatible.dead (dead _ was)
    · rw [keeps other same] at present
      exact dead _ present
  · by_cases same : idleTid = tid
    · exact ⟨task', same ▸ becomes, compatible.idle same.symm⟩
    · rw [keeps idleTid same]
      exact placed.idle
  · intro other value present
    by_cases same : other = tid
    · subst same
      rw [becomes] at present
      cases present
      exact compatible.context
    · rw [keeps other same] at present
      exact placed.context _ _ present
  · rw [rest.procs]
    intro other value proc present
    by_cases same : other = tid
    · subst same
      rw [becomes] at present
      cases present
      rw [compatible.process]
      exact placed.listed _ _ _ was
    · rw [keeps other same] at present
      exact placed.listed _ _ _ present
  · rw [rest.procs, rest.pidNext]
    exact placed.procs
  · intro other member
    exact placed.unstalled other (rest.stalled other member)

/-- The running task is known after the change when the changed task is not it, or is
the current one. -/
theorem Placed.running_of_update (placed : Placed loose unlisted s)
    (tasks : s'.tasks = Function.update s.tasks tid (some task'))
    (current : s'.current = s.current)
    (mayRun : task'.state = .running → tid = s.current) :
    ∀ other value, s'.tasks other = some value → value.state = .running →
      other = s'.current := by
  intro other value present runs
  rw [current]
  by_cases same : other = tid
  · subst same
    rw [tasks, Function.update_self] at present
    cases present
    exact mayRun runs
  · rw [tasks, Function.update_of_ne same] at present
    exact placed.running _ _ present runs

end Change

section Views

variable (s : Sched) (tid : Nat) (task : Task)

theorem Sched.getTask_of {s : Sched} {tid : Nat} {task : Task}
    (present : s.tasks tid = some task) : s.getTask tid = .ok task := by
  simp [Sched.getTask, present]

@[simp]
theorem container_setTask : (s.setTask tid task).container = s.container := by
  funext c
  cases c <;> rfl

@[simp]
theorem container_record (event : Event) : (s.record event).container = s.container := by
  funext c
  cases c <;> rfl

@[simp]
theorem container_setReadyQueue (priority : Priority) (queue : List Nat) :
    (s.setReadyQueue priority queue).container =
      Function.update s.container (.ready priority) queue := by
  funext c
  cases c with
  | ready other =>
      by_cases same : other = priority <;>
        simp [Sched.container, Sched.setReadyQueue, same]
  | wait list => simp [Sched.container, Sched.setReadyQueue]
  | timeout => simp [Sched.container, Sched.setReadyQueue]

@[simp]
theorem container_setWaitQueue (list : WaitList) (queue : List Nat) :
    (s.setWaitQueue list queue).container =
      Function.update s.container (.wait list) queue := by
  funext c
  cases c with
  | ready priority => simp [Sched.container, Sched.setWaitQueue]
  | wait other => by_cases same : other = list <;> simp [Sched.container, Sched.setWaitQueue, same]
  | timeout => simp [Sched.container, Sched.setWaitQueue]

@[simp]
theorem container_setTimeoutQueue (queue : List Nat) :
    ({ s with timeoutQueue := queue } : Sched).container =
      Function.update s.container .timeout queue := by
  funext c
  cases c with
  | ready priority => simp [Sched.container]
  | wait list => simp [Sched.container]
  | timeout => simp [Sched.container]

end Views

section Moves

variable {unlisted : Option Nat} {s : Sched} {tid : Nat} {task : Task}

theorem Task.not_belongs {c : Container} (neither : task.state ≠ .ready)
    (nor : task.state ≠ .waiting) : ¬ task.Belongs c := by
  cases c <;> simp [Task.Belongs, neither, nor]

/-- A task that belongs nowhere may be taken for loose, and back. -/
theorem Placed.loosen (placed : Placed none unlisted s) (present : s.tasks tid = some task)
    (nowhere : ∀ c, ¬ task.Belongs c) : Placed (some tid) unlisted s := by
  refine { placed with mem_iff := ?_ }
  intro c other
  rw [placed.mem_iff]
  constructor
  · rintro ⟨-, value, found, belongs⟩
    refine ⟨?_, value, found, belongs⟩
    rintro same
    cases same
    rw [present] at found
    cases found
    exact nowhere c belongs
  · rintro ⟨-, value, found, belongs⟩
    exact ⟨nofun, value, found, belongs⟩

theorem Placed.not_mem (placed : Placed (some tid) unlisted s) (c : Container) :
    tid ∉ s.container c := fun member => ((placed.mem_iff c tid).mp member).1 rfl

theorem Placed.mem_container (placed : Placed none unlisted s)
    (present : s.tasks tid = some task) (c : Container) :
    tid ∈ s.container c ↔ task.Belongs c := by
  rw [placed.mem_iff, present]
  simp

/-- A loose task that belongs nowhere is in its place. -/
theorem Placed.tighten (placed : Placed (some tid) unlisted s)
    (present : s.tasks tid = some task) (nowhere : ∀ c, ¬ task.Belongs c) :
    Placed none unlisted s := by
  refine { placed with mem_iff := ?_ }
  intro c other
  rw [placed.mem_iff]
  constructor
  · rintro ⟨-, found⟩
    exact ⟨nofun, found⟩
  · rintro ⟨-, value, found, belongs⟩
    refine ⟨?_, value, found, belongs⟩
    intro same
    cases same
    rw [present] at found
    cases found
    exact nowhere c belongs

theorem ne_some_of_ne {other : Nat} (differs : other ≠ tid) : some tid ≠ some other := by
  intro equal
  cases equal
  exact differs rfl

/-- Fields that no container and no task reads may change. -/
theorem Placed.congr {loose : Option Nat} {s' : Sched} (placed : Placed loose unlisted s)
    (tasks : s'.tasks = s.tasks) (containers : s'.container = s.container)
    (rest : SameRest s s') (current : s'.current = s.current) : Placed loose unlisted s' where
  mem_iff := by
    rw [tasks, containers]
    exact placed.mem_iff
  nodup := by
    rw [containers]
    exact placed.nodup
  known := by
    intro list nonempty
    have same : s'.waitQueue list = s.waitQueue list := congrFun containers (.wait list)
    exact (placed.known list (same ▸ nonempty)).congr rest
  fresh := by
    rw [tasks, rest.tidNext, rest.pidNext]
    exact placed.fresh
  dead := by
    rw [tasks, rest.tidNext, rest.deadList]
    exact placed.dead
  running := by
    rw [tasks, current]
    exact placed.running
  idle := by
    rw [tasks]
    exact placed.idle
  context := by
    rw [tasks]
    exact placed.context
  listed := by
    rw [tasks, rest.procs]
    exact placed.listed
  procs := by
    rw [rest.procs, rest.pidNext]
    exact placed.procs
  unstalled := fun other member => placed.unstalled other (rest.stalled other member)

theorem sameRest_setTask : SameRest s (s.setTask tid task) :=
  ⟨rfl, rfl, rfl, rfl, fun _ => id⟩

/-- A task is changed in place: it belongs where it belonged. -/
theorem Placed.setTask {loose : Option Nat} {task' : Task} (placed : Placed loose unlisted s)
    (was : s.tasks tid = some task) (tight : ∀ other ≠ tid, loose ≠ some other)
    (same : ∀ c, loose ≠ some tid → (task'.Belongs c ↔ task.Belongs c))
    (compatible : Compatible s tid task task')
    (mayRun : task'.state = .running → tid = s.current) :
    Placed loose unlisted (s.setTask tid task') := by
  apply placed.change was rfl ?_ ?_ tight tight ?_ sameRest_setTask compatible
  · exact placed.running_of_update rfl rfl mayRun
  · intro c other _
    rw [container_setTask]
  · intro c
    rw [container_setTask, placed.mem_iff, was]
    constructor
    · rintro ⟨tied, value, found, belongs⟩
      cases found
      exact ⟨tied, (same c tied).mpr belongs⟩
    · rintro ⟨tied, belongs⟩
      exact ⟨tied, task, rfl, (same c tied).mp belongs⟩
  · intro c
    rw [container_setTask]
    exact placed.nodup c

/-- A task gets a new value and is pushed into one container, the only one the value
names beside those the task is in. -/
theorem Placed.push {loose : Option Nat} {task' : Task} {s' : Sched} {queue : List Nat}
    (home : Container) (placed : Placed loose unlisted s) (was : s.tasks tid = some task)
    (tasks : s'.tasks = Function.update s.tasks tid (some task'))
    (containers : s'.container = Function.update s.container home queue)
    (pushed : queue.Perm (tid :: s.container home)) (absent : tid ∉ s.container home)
    (adds : ∀ c, task'.Belongs c ↔ tid ∈ s.container c ∨ c = home)
    (tight : ∀ other ≠ tid, loose ≠ some other) (rest : SameRest s s')
    (compatible : Compatible s tid task task')
    (current : s'.current = s.current)
    (mayRun : task'.state = .running → tid = s.current) :
    Placed none unlisted s' := by
  apply placed.change was tasks ?_ ?_ tight (by simp) ?_ rest compatible
  · exact placed.running_of_update tasks current mayRun
  · intro c other differs
    rw [containers]
    by_cases same : c = home
    · subst same
      rw [Function.update_self, pushed.mem_iff, List.mem_cons]
      simp [differs]
    · rw [Function.update_of_ne same]
  · intro c
    rw [containers, adds]
    by_cases same : c = home
    · subst same
      rw [Function.update_self, pushed.mem_iff]
      simp
    · rw [Function.update_of_ne same]
      simp [same]
  · intro c
    rw [containers]
    by_cases same : c = home
    · subst same
      rw [Function.update_self, pushed.nodup_iff]
      exact List.nodup_cons.mpr ⟨absent, placed.nodup _⟩
    · rw [Function.update_of_ne same]
      exact placed.nodup c

/-- A task is taken out of one container and gets a value that names the others it was
in. -/
theorem Placed.pull {loose' : Option Nat} {task' : Task} {s' : Sched} (home : Container)
    (placed : Placed none unlisted s) (was : s.tasks tid = some task)
    (tasks : s'.tasks = Function.update s.tasks tid (some task'))
    (containers : s'.container = Function.update s.container home ((s.container home).erase tid))
    (left : ∀ c, (loose' ≠ some tid ∧ task'.Belongs c) ↔ task.Belongs c ∧ c ≠ home)
    (tight : ∀ other ≠ tid, loose' ≠ some other) (rest : SameRest s s')
    (compatible : Compatible s tid task task')
    (running : ∀ other value, s'.tasks other = some value → value.state = .running →
      other = s'.current) :
    Placed loose' unlisted s' := by
  apply placed.change was tasks ?_ ?_ (fun _ _ => nofun) tight ?_ rest compatible running
  · intro c other differs
    rw [containers]
    by_cases same : c = home
    · subst same
      rw [Function.update_self, List.mem_erase_of_ne differs]
    · rw [Function.update_of_ne same]
  · intro c
    rw [containers, left]
    by_cases same : c = home
    · subst same
      rw [Function.update_self]
      simp [(placed.nodup _).not_mem_erase]
    · rw [Function.update_of_ne same, placed.mem_iff, was]
      simp [same]
  · intro c
    rw [containers]
    by_cases same : c = home
    · subst same
      rw [Function.update_self]
      exact (placed.nodup _).erase tid
    · rw [Function.update_of_ne same]
      exact placed.nodup c

end Moves

section Primitives

variable {unlisted : Option Nat} {s : Sched} {tid : Nat} {task : Task}

/-- The outcome of moving one task: it has the given value, every other task its own. -/
structure Moved (s s' : Sched) (tid : Nat) (task' : Task) : Prop where
  tasks : s'.tasks = Function.update s.tasks tid (some task')
  current : s'.current = s.current

theorem Moved.self {s' : Sched} {task' : Task} (moved : Moved s s' tid task') :
    s'.tasks tid = some task' := by
  rw [moved.tasks, Function.update_self]

theorem Moved.of_ne {s' : Sched} {task' : Task} {other : Nat} (moved : Moved s s' tid task')
    (differs : other ≠ tid) : s'.tasks other = s.tasks other := by
  rw [moved.tasks, Function.update_of_ne differs]

theorem Placed.not_inTaskExit {loose : Option Nat} (placed : Placed loose unlisted s)
    (present : s.tasks tid = some task) (alive : task.state ≠ .dead) :
    task.ctx ≠ .inTaskExit := fun context => alive (placed.context _ _ present context)

theorem Placed.ne_idle {loose : Option Nat} (placed : Placed loose unlisted s)
    (present : s.tasks tid = some task) (notReady : task.state ≠ .ready)
    (notRunning : task.state ≠ .running) : tid ≠ idleTid := by
  rintro rfl
  obtain ⟨idle, found, ready | running⟩ := placed.idle
  all_goals
    rw [present] at found
    cases found
  · exact notReady ready
  · exact notRunning running

theorem Placed.known_of_belongs (placed : Placed none unlisted s)
    (present : s.tasks tid = some task) {list : WaitList} (belongs : task.Belongs (.wait list)) :
    list.Known s := by
  have member : tid ∈ s.waitQueue list :=
    (placed.mem_iff (.wait list) tid).mpr ⟨nofun, task, present, belongs⟩
  exact placed.known list (List.ne_nil_of_mem member)

/-- A living task may change its state as long as it keeps its process and its context. -/
theorem Placed.compatible {loose : Option Nat} {task' : Task} (placed : Placed loose unlisted s)
    (present : s.tasks tid = some task) (alive : task.state ≠ .dead)
    (process : task'.process = task.process) (ctx : task'.ctx = task.ctx)
    (idle : tid = idleTid → task'.state = .ready ∨ task'.state = .running)
    (known : ∀ list, task'.Belongs (.wait list) → list.Known s) :
    Compatible s tid task task' where
  process := process
  dead := fun dead => absurd dead alive
  idle := idle
  context := fun context => absurd (ctx ▸ context) (placed.not_inTaskExit present alive)
  known := known

theorem setReady_ensures (placed : Placed (some tid) unlisted s)
    (present : s.tasks tid = some task) (alive : task.state ≠ .dead) :
    Ensures Tolerated (fun s' => Placed none unlisted s' ∧
      Moved s s' tid { task with state := .ready } ∧
      s'.waitQueue = s.waitQueue ∧ s'.timeoutQueue = s.timeoutQueue) (setReady s tid) := by
  have compatible : Compatible s tid task { task with state := .ready } :=
    placed.compatible present alive rfl rfl (fun _ => .inl rfl) (by simp [Task.Belongs])
  unfold setReady
  rw [Sched.getTask_of present]
  refine ⟨?_, ⟨rfl, rfl⟩, rfl, rfl⟩
  refine placed.push (.ready task.priority) present rfl ?_
    (List.perm_append_singleton tid (s.readyQueue task.priority)) (placed.not_mem _) ?_
    (fun _ => ne_some_of_ne) ?_ compatible rfl nofun
  · simp only [container_record, container_setReadyQueue, container_setTask]
    rfl
  · intro c
    cases c <;> simp [Task.Belongs, placed.not_mem, @eq_comm _ task.priority]
  · exact ⟨rfl, rfl, rfl, rfl, fun _ => by simp [Sched.record, Sched.setReadyQueue, Sched.setTask]⟩

theorem unlink_of_mem {queue : List Nat} (member : tid ∈ queue) :
    unlink tid queue = .ok (queue.erase tid) := if_pos member

theorem update_of_present (present : s.tasks tid = some task) :
    Function.update s.tasks tid (some task) = s.tasks := by
  rw [← present, Function.update_eq_self]

/-- A ready task is unlinked and kept loose. -/
theorem resetReady_ensures (placed : Placed none unlisted s)
    (present : s.tasks tid = some task) (ready : task.state = .ready) :
    Ensures Tolerated (fun s' => Placed (some tid) unlisted s' ∧ Moved s s' tid task)
      (resetReady s tid) := by
  have member : tid ∈ s.readyQueue task.priority :=
    (placed.mem_iff (.ready task.priority) tid).mpr ⟨nofun, task, present, ready, rfl⟩
  have compatible : Compatible s tid task task :=
    placed.compatible present (by simp [ready]) rfl rfl (fun _ => .inl ready)
      (by simp [Task.Belongs, ready])
  unfold resetReady
  simp only [Sched.getTask_of present, unlink_of_mem member, bind, Except.bind]
  refine ⟨?_, (update_of_present present).symm, rfl⟩
  refine placed.pull (.ready task.priority) present (update_of_present present).symm
    (container_setReadyQueue s _ _) ?_ ?_ ⟨rfl, rfl, rfl, rfl, fun _ => id⟩ compatible
    placed.running
  · intro c
    cases c <;> simp [Task.Belongs, ready, @eq_comm _ task.priority]
  · exact fun _ => ne_some_of_ne

/-- The timeout of a waiting task is cancelled. -/
theorem resetTimeout_ensures (placed : Placed none unlisted s)
    (present : s.tasks tid = some task) (waiting : task.state = .waiting) :
    Ensures Tolerated (fun s' => Placed none unlisted s' ∧
      Moved s s' tid { task with hasTimeout := false } ∧ s'.waitQueue = s.waitQueue)
      (resetTimeout s tid) := by
  unfold resetTimeout
  simp only [Sched.getTask_of present, bind, Except.bind]
  by_cases timed : task.hasTimeout = true
  · have member : tid ∈ s.timeoutQueue :=
      (placed.mem_iff .timeout tid).mpr ⟨nofun, task, present, waiting, timed⟩
    have compatible : Compatible s tid task { task with hasTimeout := false } := by
      refine placed.compatible present (by simp [waiting]) rfl rfl ?_ ?_
      · intro same
        exact absurd same (placed.ne_idle present (by simp [waiting]) (by simp [waiting]))
      · exact fun list belongs => placed.known_of_belongs present belongs
    simp only [timed, if_true, unlink_of_mem member]
    refine ⟨?_, ⟨rfl, rfl⟩, rfl⟩
    refine placed.pull .timeout present rfl ?_ ?_ (fun _ _ => nofun)
      ⟨rfl, rfl, rfl, rfl, fun _ => id⟩ compatible ?_
    · rw [container_setTask, container_setTimeoutQueue]
      rfl
    · intro c
      cases c <;> simp [Task.Belongs]
    · exact placed.running_of_update rfl rfl fun runs => absurd runs (by simp [waiting])
  · have same : { task with hasTimeout := false } = task := by
      cases task
      simp_all
    simp only [timed]
    exact ⟨placed, ⟨by rw [same, update_of_present present], rfl⟩, rfl⟩

/-- A waiting task leaves the list it waits on; a timeout it may have is not touched. -/
theorem resetWaitFor_ensures (placed : Placed none unlisted s)
    (present : s.tasks tid = some task) (waiting : task.state = .waiting) :
    Ensures Tolerated (fun s' => Placed none unlisted s' ∧
      Moved s s' tid { task with waitFor := none } ∧ s'.timeoutQueue = s.timeoutQueue)
      (resetWaitFor s tid) := by
  unfold resetWaitFor
  simp only [Sched.getTask_of present, bind, Except.bind]
  cases waits : task.waitFor with
  | none =>
      have same : { task with waitFor := none } = task := by
        cases task
        simp_all
      exact ⟨placed, ⟨by rw [same, update_of_present present], rfl⟩, rfl⟩
  | some list =>
      have member : tid ∈ s.waitQueue list :=
        (placed.mem_iff (.wait list) tid).mpr ⟨nofun, task, present, waiting, waits⟩
      have compatible : Compatible s tid task { task with waitFor := none } := by
        refine placed.compatible present (by simp [waiting]) rfl rfl ?_ (by simp [Task.Belongs])
        intro same
        exact absurd same (placed.ne_idle present (by simp [waiting]) (by simp [waiting]))
      simp only [unlink_of_mem member]
      refine ⟨?_, ⟨rfl, rfl⟩, rfl⟩
      refine placed.pull (.wait list) present rfl ?_ ?_ (fun _ _ => nofun)
        ⟨rfl, rfl, rfl, rfl, fun _ => id⟩ compatible ?_
      · rw [container_setTask, container_setWaitQueue]
        rfl
      · intro c
        cases c <;> simp [Task.Belongs, waits, waiting, @eq_comm _ list]
      · exact placed.running_of_update rfl rfl fun runs => absurd runs (by simp [waiting])

theorem setWaitFor_ensures {list : Option WaitList} (placed : Placed (some tid) unlisted s)
    (present : s.tasks tid = some task) (alive : task.state ≠ .dead) (notIdle : tid ≠ idleTid)
    (known : ∀ l ∈ list, l.Known s) :
    Ensures Tolerated (fun s' => Placed none unlisted s' ∧
      Moved s s' tid { task with state := .waiting, waitFor := list, hasTimeout := false })
      (setWaitFor s tid list) := by
  have compatible : Compatible s tid task
      { task with state := .waiting, waitFor := list, hasTimeout := false } := by
    refine placed.compatible present alive rfl rfl (fun same => absurd same notIdle) ?_
    intro l belongs
    exact known l belongs.2
  unfold setWaitFor
  simp only [Sched.getTask_of present, bind, Except.bind]
  cases list with
  | none =>
      refine ⟨?_, rfl, rfl⟩
      have loose := placed.setTask present (fun _ => ne_some_of_ne)
        (fun _ differs => absurd rfl differs) compatible nofun
      refine loose.tighten (Function.update_self ..) ?_
      intro c
      cases c <;> simp [Task.Belongs]
  | some list =>
      refine ⟨?_, rfl, rfl⟩
      refine placed.push (.wait list) present rfl ?_
        (List.perm_append_singleton tid (s.waitQueue list)) (placed.not_mem _) ?_
        (fun _ => ne_some_of_ne) ⟨rfl, rfl, rfl, rfl, fun _ => id⟩ compatible rfl nofun
      · rw [container_setWaitQueue, container_setTask]
        rfl
      · intro c
        cases c <;> simp [Task.Belongs, placed.not_mem, @eq_comm _ list]

theorem insertTimeout_perm (deadline : Nat → Nat) (queue : List Nat) :
    (insertTimeout deadline tid queue).Perm (tid :: queue) := by
  induction queue with
  | nil => exact List.Perm.refl _
  | cons other rest inductionHypothesis =>
      unfold insertTimeout
      split
      · exact List.Perm.refl _
      · exact (inductionHypothesis.cons other).trans (List.Perm.swap ..)

/-- A waiting task without a timeout is entered in the timeout queue. -/
theorem Placed.enterTimeout {s' : Sched} {timeout : Nat} {queue : List Nat}
    (placed : Placed none unlisted s) (present : s.tasks tid = some task)
    (waiting : task.state = .waiting) (untimed : task.hasTimeout = false)
    (tasks : s'.tasks = Function.update s.tasks tid
      (some { task with hasTimeout := true, waitTimeout := timeout }))
    (containers : s'.container = Function.update s.container .timeout queue)
    (pushed : queue.Perm (tid :: s.timeoutQueue))
    (rest : SameRest s s') (current : s'.current = s.current) : Placed none unlisted s' := by
  have compatible : Compatible s tid task
      { task with hasTimeout := true, waitTimeout := timeout } := by
    refine placed.compatible present (by simp [waiting]) rfl rfl ?_ ?_
    · intro same
      exact absurd same (placed.ne_idle present (by simp [waiting]) (by simp [waiting]))
    · exact fun list belongs => placed.known_of_belongs present belongs
  refine placed.push .timeout present tasks containers pushed ?_ ?_
    (fun _ _ => nofun) rest compatible current ?_
  · rw [placed.mem_container present]
    simp [Task.Belongs, untimed]
  · intro c
    rw [placed.mem_container present]
    cases c <;> simp [Task.Belongs, waiting, untimed]
  · exact fun runs => absurd runs (by simp [waiting])

theorem setWaitTimeout_ensures {list : Option WaitList} {timeout : Nat}
    (placed : Placed (some tid) unlisted s) (present : s.tasks tid = some task)
    (alive : task.state ≠ .dead) (notIdle : tid ≠ idleTid) (known : ∀ l ∈ list, l.Known s) :
    Ensures Tolerated (fun s' => Placed none unlisted s' ∧ s'.current = s.current ∧
      ∃ task', s'.tasks tid = some task' ∧ task'.state = .waiting)
      (setWaitTimeout s tid list timeout) := by
  unfold setWaitTimeout
  apply (setWaitFor_ensures placed present alive notIdle known).bind
  rintro s' ⟨placed', moved⟩
  have waits := moved.self
  simp only [Sched.getTask_of waits, bind, Except.bind, Ensures.ok_iff]
  split
  all_goals
    refine ⟨?_, moved.current, _, Function.update_self .., rfl⟩
    exact placed'.enterTimeout waits rfl rfl rfl
      (container_setTimeoutQueue (s'.setTask tid _) (insertTimeout _ tid s'.timeoutQueue))
      (insertTimeout_perm _ _) ⟨rfl, rfl, rfl, rfl, fun _ => id⟩ rfl

theorem setDead_ensures (placed : Placed (some tid) unlisted s)
    (present : s.tasks tid = some task) (notIdle : tid ≠ idleTid) :
    Ensures Tolerated (fun s' => Placed none unlisted s' ∧
      Moved s s' tid { task with state := .dead }) (setDead s tid) := by
  have compatible : Compatible s tid task { task with state := .dead } :=
    ⟨rfl, fun _ => rfl, fun same => absurd same notIdle, fun _ => rfl, by simp [Task.Belongs]⟩
  unfold setDead
  rw [Sched.getTask_of present]
  refine ⟨?_, rfl, rfl⟩
  have loose := placed.setTask present (fun _ => ne_some_of_ne)
    (fun _ differs => absurd rfl differs) compatible nofun
  refine loose.tighten (Function.update_self ..) ?_
  exact fun c => Task.not_belongs nofun nofun

end Primitives

end Opal.Scheduler
