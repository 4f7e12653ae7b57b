import Opal.Scheduler.Lifetime

/-!
# Every holder releases once

A run carries with it who holds references: the creator of a task or a process, and whoever
retained it or looked it up by its id.  A call that gives a reference away is made only by a
holder.  In every such run each task and each process is freed once, when nothing needs it.
-/

namespace Opal.Scheduler

section System

structure Custody where
  sched : Sched
  taskHeld : Nat → Nat
  procHeld : Nat → Nat
  /-- How many tasks were created in a process. -/
  created : Nat → Nat
  taskFrees : Nat → Nat
  procFrees : Nat → Nat

def taskFromId (s : Sched) (tid : Nat) : Run Sched :=
  match s.tasks tid with
  | none => .ok s
  | some _ => taskRetain s tid

def processFromId (s : Sched) (pid : Nat) : Run Sched :=
  match s.procs pid with
  | none => .ok s
  | some _ => processRetain s pid

inductive Move where
  | call (call : Call)
  | taskFromId (tid : Nat)
  | processFromId (pid : Nat)
  deriving DecidableEq, Repr

def Move.exec (s : Sched) : Move → Run Sched
  | .call request => Scheduler.exec s request
  | .taskFromId tid => Scheduler.taskFromId s tid
  | .processFromId pid => Scheduler.processFromId s pid

variable (k : Custody) (s' : Sched)

/-- `task_create` gives its caller a reference if there is a new task, and
`task_terminate` takes one as `task_release` does. -/
def Custody.taskHeldAfter : Move → Nat → Nat
  | .call (.taskCreate ..) =>
      if s'.tidNext = k.sched.tidNext then k.taskHeld
      else Function.update k.taskHeld k.sched.tidNext 1
  | .call (.taskRetain tid) => Function.update k.taskHeld tid (k.taskHeld tid + 1)
  | .taskFromId tid =>
      if (k.sched.tasks tid).isSome then Function.update k.taskHeld tid (k.taskHeld tid + 1)
      else k.taskHeld
  | .call (.taskRelease tid) | .call (.taskTerminate tid) =>
      Function.update k.taskHeld tid (k.taskHeld tid - 1)
  | _ => k.taskHeld

def Custody.procHeldAfter : Move → Nat → Nat
  | .call (.processCreate true) => Function.update k.procHeld k.sched.pidNext 1
  | .call (.processRetain pid) => Function.update k.procHeld pid (k.procHeld pid + 1)
  | .processFromId pid =>
      if (k.sched.procs pid).isSome then Function.update k.procHeld pid (k.procHeld pid + 1)
      else k.procHeld
  | .call (.processRelease pid) => Function.update k.procHeld pid (k.procHeld pid - 1)
  | _ => k.procHeld

def Custody.createdAfter : Move → Nat → Nat
  | .call (.taskCreate pid ..) =>
      if s'.tidNext = k.sched.tidNext then k.created
      else Function.update k.created pid (k.created pid + 1)
  | _ => k.created

def Custody.after (move : Move) : Custody where
  sched := s'
  taskHeld := k.taskHeldAfter s' move
  procHeld := k.procHeldAfter move
  created := k.createdAfter s' move
  taskFrees := countFrees k.taskFrees k.sched.tasks s'.tasks
  procFrees := countFrees k.procFrees k.sched.procs s'.procs

def act (k : Custody) (move : Move) : Run Custody := do
  let s' ← move.exec k.sched
  .ok (k.after s' move)

/-- Whoever gives a reference away holds it. -/
def Owns (k : Custody) : Call → Prop
  | .taskRelease tid | .taskTerminate tid => 0 < k.taskHeld tid
  | .processRelease pid => 0 < k.procHeld pid
  | _ => True

instance (k : Custody) : ∀ call, Decidable (Owns k call)
  | .taskRelease tid | .taskTerminate tid => inferInstanceAs (Decidable (0 < k.taskHeld tid))
  | .processRelease pid => inferInstanceAs (Decidable (0 < k.procHeld pid))
  | .taskCreate .. | .taskSuspend _ | .taskResume _ | .taskWait .. | .taskWaitLocked ..
  | .taskJoin .. | .taskExit | .taskRetain _ | .waitListWakeOne _ | .waitListWakeAll _
  | .schedule | .isrTimer | .drainDead | .irqmsgPush _ | .irqmsgPop | .irqmsgHandle
  | .irqmsgTimeout | .eventWait _ | .processCreate _ | .processRetain _
  | .processJoin .. => .isTrue trivial

def Allowed (k : Custody) : Move → Prop
  | .call call => Admits k.sched call ∧ Owns k call
  | _ => True

instance (k : Custody) (move : Move) : Decidable (Allowed k move) := by
  cases move <;> (unfold Allowed; infer_instance)

/-- The kernel holds its first process and the two tasks that `sched_init` makes in it. -/
def Custody.start (init : Sched) : Custody where
  sched := init
  taskHeld tid := if tid < 2 then 1 else 0
  procHeld pid := if pid < 1 then 1 else 0
  created pid := if pid < 1 then 2 else 0
  taskFrees _ := 0
  procFrees _ := 0

/-- The dead list holds a reference to each of its tasks. -/
def Custody.ledger (k : Custody) : Ledger where
  taskRefs tid := k.taskHeld tid + k.sched.deadList.count tid
  procRefs := k.procHeld
  created := k.created

end System

section Steps

variable {k : Custody}

/-- The books after the move balance, lives passed as they may, and a new task is in a process
that has not ended. -/
structure Proper (k : Custody) (move : Move) (s' : Sched) : Prop where
  books : Books s'.census (k.after s' move).ledger
  created : ∀ pid, k.createdAfter s' move pid ≠ k.created pid →
    (∃ proc, k.sched.procs pid = some proc ∧ proc.exitSignaled = false) ∧
      ∃ tid life, s'.census.lives tid = some life ∧ life.process = pid
  passes : Passes k.sched.census s'.census (fun tid => move = .call (.taskTerminate tid))
    (AwaitedNoMore s')

theorem Passes.mono {c c' : Census} {killed killed' awaitedNoMore : Nat → Prop}
    (weaken : ∀ tid, killed tid → killed' tid) (passes : Passes c c' killed awaitedNoMore) :
    Passes c c' killed' awaitedNoMore :=
  { passes with
    freed := fun tid life found gone =>
      ⟨(passes.freed tid life found gone).1.imp_right (weaken tid),
        (passes.freed tid life found gone).2⟩ }

theorem SameLife.proper {move : Move} {s' : Sched} (books : Books k.sched.census k.ledger)
    (same : SameLife k.sched s') (taskHeld : k.taskHeldAfter s' move = k.taskHeld)
    (procHeld : k.procHeldAfter move = k.procHeld)
    (created : k.createdAfter s' move = k.created) : Proper k move s' where
  books := by
    have ledger : (k.after s' move).ledger = k.ledger := by
      unfold Custody.ledger Custody.after
      rw [taskHeld, procHeld, created, same.deadList]
    rw [ledger, same.census]
    exact books
  created := fun pid differs => absurd (congrFun created pid) differs
  passes := by
    rw [same.census]
    exact .refl

/-- A panic is the one of `task_terminate`, called on a task that is dead or running. -/
def Blamed (k : Custody) (move : Move) (stop : Stop) : Prop :=
  stop = .panic → ∃ tid task, move = .call (.taskTerminate tid) ∧ k.sched.tasks tid = some task ∧
    (task.state = .dead ∨ task.state = .running)

theorem Quiet.blamed {move : Move} (stop : Stop) (quiet : Quiet stop) : Blamed k move stop :=
  fun panics => absurd panics quiet

/-- One task gained or lost a reference. -/
theorem Proper.of_task {s' : Sched} {move : Move} {tid count : Nat} {killed : Nat → Prop}
    (changed : k.taskHeldAfter s' move tid + s'.deadList.count tid = count)
    (others : ∀ other ≠ tid, k.taskHeldAfter s' move other + s'.deadList.count other =
      k.taskHeld other + k.sched.deadList.count other)
    (procHeld : k.procHeldAfter move = k.procHeld) (created : k.createdAfter s' move = k.created)
    (books : Books s'.census (k.ledger.setTaskRefs tid count))
    (passes : Passes k.sched.census s'.census killed (AwaitedNoMore s'))
    (kills : ∀ tid, killed tid → move = .call (.taskTerminate tid)) : Proper k move s' where
  books := by
    have ledger : (k.after s' move).ledger = k.ledger.setTaskRefs tid count := by
      apply Ledger.ext
      · funext other
        by_cases same : other = tid
        · subst same
          exact changed.trans Ledger.setTaskRefs_self.symm
        · rw [Ledger.setTaskRefs_of_ne same]
          exact others other same
      · exact procHeld
      · exact created
    rw [ledger]
    exact books
  created := fun pid differs => absurd (congrFun created pid) differs
  passes := passes.mono kills

/-- A caller gained or lost a reference to a task. -/
theorem Proper.of_taskHeld {s' : Sched} {move : Move} {tid held count : Nat} {killed : Nat → Prop}
    (changed : k.taskHeldAfter s' move = Function.update k.taskHeld tid held)
    (deadList : s'.deadList = k.sched.deadList)
    (counted : held + k.sched.deadList.count tid = count)
    (procHeld : k.procHeldAfter move = k.procHeld) (created : k.createdAfter s' move = k.created)
    (books : Books s'.census (k.ledger.setTaskRefs tid count))
    (passes : Passes k.sched.census s'.census killed (AwaitedNoMore s'))
    (kills : ∀ tid, killed tid → move = .call (.taskTerminate tid)) : Proper k move s' := by
  refine .of_task ?_ ?_ procHeld created books passes kills
  · rw [changed, deadList, Function.update_self]
    exact counted
  · intro other differs
    rw [changed, deadList, Function.update_of_ne differs]

/-- A caller gained or lost a reference to a process. -/
theorem Proper.of_procHeld {s' : Sched} {move : Move} {pid held : Nat}
    (changed : k.procHeldAfter move = Function.update k.procHeld pid held)
    (deadList : s'.deadList = k.sched.deadList)
    (taskHeld : k.taskHeldAfter s' move = k.taskHeld)
    (created : k.createdAfter s' move = k.created)
    (books : Books s'.census (k.ledger.setProcRefs pid held))
    (passes : Passes k.sched.census s'.census (fun _ => False) (AwaitedNoMore s')) :
    Proper k move s' where
  books := by
    have ledger : (k.after s' move).ledger = k.ledger.setProcRefs pid held := by
      unfold Custody.ledger Custody.after Ledger.setProcRefs
      rw [changed, taskHeld, created, deadList]
    rw [ledger]
    exact books
  created := fun pid differs => absurd (congrFun created pid) differs
  passes := passes.mono fun _ => False.elim

theorem taskRelease_proper {tid : Nat} (settled : Settled k.sched)
    (books : Books k.sched.census k.ledger) (held : 0 < k.taskHeld tid) :
    ∃ s', taskRelease k.sched tid = .ok s' ∧ Proper k (.call (.taskRelease tid)) s' := by
  have counted : 0 < k.ledger.taskRefs tid := Nat.add_pos_left held _
  obtain ⟨s', returned, deadList, books', passes⟩ := taskRelease_spec settled.1 books counted
  have fewer : k.taskHeld tid - 1 + k.sched.deadList.count tid = k.ledger.taskRefs tid - 1 :=
    (Nat.sub_add_comm held).symm
  exact ⟨s', returned, .of_taskHeld rfl deadList fewer rfl rfl books' passes fun _ => False.elim⟩

theorem taskTerminate_proper {tid : Nat} (settled : Settled k.sched)
    (books : Books k.sched.census k.ledger) (notIdle : tid ≠ idleTid)
    (held : 0 < k.taskHeld tid) :
    Ensures (Blamed k (.call (.taskTerminate tid))) (Proper k (.call (.taskTerminate tid)))
      (taskTerminate k.sched tid) := by
  have counted : 0 < k.ledger.taskRefs tid := Nat.add_pos_left held _
  have fewer : k.taskHeld tid - 1 + k.sched.deadList.count tid = k.ledger.taskRefs tid - 1 :=
    (Nat.sub_add_comm held).symm
  refine ((taskTerminate_quiet settled books notIdle counted).mono ?_).tolerate ?_
  · rintro s' ⟨deadList, books', passes⟩
    refine .of_taskHeld rfl deadList fewer rfl rfl books' passes ?_
    rintro _ rfl
    rfl
  · intro stop blames panics
    obtain ⟨task, present, states⟩ := blames panics
    exact ⟨tid, task, rfl, present, states⟩

theorem taskExit_proper (settled : Settled k.sched) (books : Books k.sched.census k.ledger)
    (notIdle : k.sched.current ≠ idleTid) :
    Ensures (Blamed k (.call .taskExit)) (Proper k (.call .taskExit)) (taskExit k.sched) := by
  refine ((taskExit_quiet settled books notIdle).mono ?_).tolerate Quiet.blamed
  rintro s' ⟨deadList, books', passes⟩
  refine .of_task ?_ ?_ rfl rfl books' passes fun _ => False.elim
  · rw [deadList, List.count_append, List.count_singleton_self, ← Nat.add_assoc]
    rfl
  · intro other differs
    rw [deadList, List.count_append, List.count_singleton]
    simp [differs.symm, Custody.taskHeldAfter]

theorem taskRetain_proper {move : Move} {tid : Nat} (books : Books k.sched.census k.ledger)
    (held : ∀ s', k.taskHeldAfter s' move = Function.update k.taskHeld tid (k.taskHeld tid + 1))
    (procHeld : k.procHeldAfter move = k.procHeld)
    (created : ∀ s', k.createdAfter s' move = k.created) :
    Ensures (Blamed k move) (Proper k move) (taskRetain k.sched tid) := by
  refine ((taskRetain_quiet books).mono ?_).tolerate Quiet.blamed
  rintro s' ⟨deadList, books', passes⟩
  refine .of_taskHeld (held s') deadList ?_ procHeld (created s') books' passes fun _ => False.elim
  exact Nat.add_right_comm ..

theorem processRetain_proper {move : Move} {pid : Nat} (books : Books k.sched.census k.ledger)
    (held : k.procHeldAfter move = Function.update k.procHeld pid (k.procHeld pid + 1))
    (taskHeld : ∀ s', k.taskHeldAfter s' move = k.taskHeld)
    (created : ∀ s', k.createdAfter s' move = k.created) :
    Ensures (Blamed k move) (Proper k move) (processRetain k.sched pid) := by
  refine ((processRetain_quiet books).mono ?_).tolerate Quiet.blamed
  rintro s' ⟨deadList, books', passes⟩
  exact .of_procHeld held deadList (taskHeld s') (created s') books' passes

theorem processRelease_proper {pid : Nat} (books : Books k.sched.census k.ledger)
    (held : 0 < k.procHeld pid) :
    ∃ s', processRelease k.sched pid = .ok s' ∧ Proper k (.call (.processRelease pid)) s' := by
  obtain ⟨s', returned, deadList, books', passes⟩ := processRelease_spec books held
  exact ⟨s', returned, .of_procHeld rfl deadList rfl rfl books' passes⟩

theorem drainDead_proper (settled : Settled k.sched) (books : Books k.sched.census k.ledger) :
    ∃ s', drainDead k.sched = .ok s' ∧ Proper k (.call .drainDead) s' := by
  unfold drainDead
  cases queue : k.sched.deadList with
  | nil => exact ⟨k.sched, rfl, SameLife.refl.proper books rfl rfl rfl⟩
  | cons tid rest =>
      have placed : Placed none none { k.sched with deadList := rest } :=
        settled.1.setDeadList fun other member =>
          settled.1.dead other (queue ▸ List.mem_cons_of_mem _ member)
      have counted : k.ledger.taskRefs tid = k.taskHeld tid + rest.count tid + 1 := by
        simp [Custody.ledger, queue, Nat.add_assoc]
      obtain ⟨s', returned, deadList, books', passes⟩ :=
        taskRelease_spec placed books (lt_of_lt_of_eq (Nat.succ_pos _) counted.symm)
      refine ⟨s', returned, .of_task ?_ ?_ rfl rfl books' passes fun _ => False.elim⟩
      · rw [deadList, counted]
        rfl
      · intro other differs
        rw [deadList, queue, List.count_cons_of_ne differs.symm]
        rfl

theorem taskCreate_proper {pid : Nat} {priority : Priority} {stack slab : Bool}
    (settled : Settled k.sched) (books : Books k.sched.census k.ledger) :
    Ensures (Blamed k (.call (.taskCreate pid priority stack slab)))
      (Proper k (.call (.taskCreate pid priority stack slab)))
      (taskCreate k.sched pid priority stack slab) := by
  refine (taskCreate_quiet.mono ?_).tolerate Quiet.blamed
  rintro s' (rfl | ⟨deadList, proc, present, silent, census⟩)
  · exact SameLife.refl.proper books (if_pos rfl) rfl (if_pos rfl)
  · have next : s'.tidNext = k.sched.tidNext + 1 := congrArg Census.tidNext census
    have made : s'.tidNext ≠ k.sched.tidNext := by omega
    have unlisted : k.sched.deadList.count k.sched.tidNext = 0 := by
      apply List.count_eq_zero_of_not_mem
      exact fun member => lt_irrefl _ (settled.1.dead _ member).1
    have ledger : (k.after s' (.call (.taskCreate pid priority stack slab))).ledger =
        { k.ledger.setTaskRefs k.sched.tidNext 1 with
          created := Function.update k.created pid (k.created pid + 1) } := by
      apply Ledger.ext
      · funext other
        by_cases same : other = k.sched.tidNext
        · subst same
          simp [Custody.ledger, Custody.after, Custody.taskHeldAfter, made, deadList, unlisted,
            Ledger.setTaskRefs]
        · simp [Custody.ledger, Custody.after, Custody.taskHeldAfter, made, deadList, same,
            Ledger.setTaskRefs]
      · rfl
      · simp [Custody.ledger, Custody.after, Custody.createdAfter, made]
    refine ⟨?_, ?_, ?_⟩
    · rw [ledger, census]
      exact books.create present silent
    · intro other differs
      have same : other = pid := by
        by_contra apart
        exact differs (by simp [Custody.createdAfter, made, apart])
      subst same
      refine ⟨⟨proc, present, silent⟩, k.sched.tidNext, ⟨other, 1, false⟩, ?_, rfl⟩
      rw [census]
      exact Function.update_self ..
    · rw [census]
      exact .create present books.fresh

theorem processCreate_proper (books : Books k.sched.census k.ledger) :
    Ensures (Blamed k (.call (.processCreate true))) (Proper k (.call (.processCreate true)))
      (processInit k.sched) := by
  unfold processInit
  refine Ensures.tolerate Quiet.blamed ?_
  apply quiet_kassert
  intro _
  refine .of_procHeld rfl rfl rfl rfl books.createProc (.of_procs .add rfl rfl ?_)
  intro pid proc proc' found found' ended
  have differs : pid ≠ k.sched.pidNext := ne_of_lt (books.procFresh pid proc found)
  exact ended_refl pid proc proc' found ((Function.update_of_ne differs ..).symm.trans found') ended

theorem exec_proper {move : Move} (settled : Settled k.sched)
    (books : Books k.sched.census k.ledger) (allowed : Allowed k move) :
    Ensures (Blamed k move) (Proper k move) (move.exec k.sched) := by
  have calmly {move : Move} {run : Run Sched} (calm : Calm k.sched run)
      (taskHeld : ∀ s', k.taskHeldAfter s' move = k.taskHeld)
      (procHeld : k.procHeldAfter move = k.procHeld)
      (created : ∀ s', k.createdAfter s' move = k.created) :
      Ensures (Blamed k move) (Proper k move) run :=
    (calm.mono fun s' same => same.proper books (taskHeld s') procHeld (created s')).tolerate
      Quiet.blamed
  cases move with
  | taskFromId tid =>
      simp only [Move.exec, taskFromId]
      cases present : k.sched.tasks tid with
      | none => exact SameLife.refl.proper books (if_neg (by simp [present])) rfl rfl
      | some task =>
          exact taskRetain_proper books (fun _ => if_pos (by simp [present])) rfl fun _ => rfl
  | processFromId pid =>
      simp only [Move.exec, processFromId]
      cases present : k.sched.procs pid with
      | none => exact SameLife.refl.proper books rfl (if_neg (by simp [present])) rfl
      | some proc =>
          exact processRetain_proper books (if_pos (by simp [present])) (fun _ => rfl) fun _ => rfl
  | call request =>
      obtain ⟨admitted, owns⟩ := allowed
      cases request with
      | taskCreate pid priority stack slab => exact taskCreate_proper settled books
      | taskSuspend tid =>
          exact calmly (taskSuspend_calm settled admitted) (fun _ => rfl) rfl fun _ => rfl
      | taskResume tid => exact calmly taskResume_calm (fun _ => rfl) rfl fun _ => rfl
      | taskWait list timeout =>
          refine calmly (taskWait_calm settled admitted.1 ?_) (fun _ => rfl) rfl fun _ => rfl
          exact fun l member => (admitted.2 l member).known settled.1
      | taskWaitLocked list timeout =>
          refine calmly (taskWaitLocked_calm settled admitted.1 ?_) (fun _ => rfl) rfl fun _ => rfl
          exact fun l member => (admitted.2 l member).known settled.1
      | taskJoin tid timeout =>
          exact calmly (taskJoin_calm settled admitted) (fun _ => rfl) rfl fun _ => rfl
      | taskTerminate tid => exact taskTerminate_proper settled books admitted owns
      | taskExit => exact taskExit_proper settled books admitted
      | taskRetain tid => exact taskRetain_proper books (fun _ => rfl) rfl fun _ => rfl
      | taskRelease tid =>
          exact .of_returns (taskRelease_proper settled books owns)
      | waitListWakeOne list =>
          refine calmly ?_ (fun _ => rfl) rfl fun _ => rfl
          apply (waitListWakeOne_calm settled.1).bind
          exact fun _ same => same
      | waitListWakeAll list =>
          exact calmly (waitListWakeAll_calm settled.1) (fun _ => rfl) rfl fun _ => rfl
      | schedule =>
          exact calmly (scheduleFrom_calm settled.1 nofun) (fun _ => rfl) rfl fun _ => rfl
      | isrTimer =>
          refine calmly ?_ (fun _ => rfl) rfl fun _ => rfl
          have ticked : SameLife k.sched { k.sched with tick := (k.sched.tick + 1) % 2 ^ 64 } :=
            .of_tasks rfl rfl rfl rfl rfl
          apply Calm.after ticked
          refine scheduleFrom_calm ?_ nofun
          exact settled.1.congr rfl rfl ⟨rfl, rfl, rfl, rfl, fun _ => id⟩ rfl
      | drainDead => exact .of_returns (drainDead_proper settled books)
      | irqmsgPush msg =>
          refine calmly ?_ (fun _ => rfl) rfl fun _ => rfl
          apply (irqmsgPush_calm settled.1).bind
          exact fun _ same => same
      | irqmsgPop =>
          refine calmly ?_ (fun _ => rfl) rfl fun _ => rfl
          have popped : ∀ msg, SameLife k.sched { (irqmsgPop k.sched).1 with handling := msg } := by
            intro msg
            unfold irqmsgPop
            split
            · exact .of_tasks rfl rfl rfl rfl rfl
            · split
              · exact .of_tasks rfl rfl rfl rfl rfl
              · exact .of_tasks rfl rfl rfl rfl rfl
          exact popped _
      | irqmsgHandle =>
          refine calmly ?_ (fun _ => rfl) rfl fun _ => rfl
          cases pending : k.sched.handling with
          | none =>
              simp only [Move.exec, exec, pending]
              exact SameLife.refl
          | some msg =>
              simp only [Move.exec, exec, pending]
              have handled : Calm k.sched (handle k.sched msg) := by
                unfold handle
                split
                · exact irqmsgTimeout_calm settled.1
                · exact SameLife.refl
              apply handled.bind
              intro s₁ _
              exact SameLife.of_tasks rfl rfl rfl rfl rfl
      | irqmsgTimeout =>
          exact calmly (irqmsgTimeout_calm settled.1) (fun _ => rfl) rfl fun _ => rfl
      | eventWait timeout =>
          exact calmly (eventWait_calm settled admitted) (fun _ => rfl) rfl fun _ => rfl
      | processCreate allocated =>
          cases allocated with
          | true => exact processCreate_proper books
          | false => exact SameLife.refl.proper books rfl rfl rfl
      | processRetain pid => exact processRetain_proper books rfl (fun _ => rfl) fun _ => rfl
      | processRelease pid => exact .of_returns (processRelease_proper books owns)
      | processJoin pid timeout =>
          exact calmly (processJoin_calm settled admitted) (fun _ => rfl) rfl fun _ => rfl

end Steps

section Runs

variable {k k' : Custody}

/-- Every task and process there is has the references that are held, and was not freed; every
one there was is held by nobody and was freed once.  The exit of a process is signaled when it
has had tasks and they are all gone. -/
structure Lifetimes (k : Custody) : Prop where
  task : ∀ tid task, k.sched.tasks tid = some task → k.taskFrees tid = 0 ∧
    task.refcount = k.taskHeld tid + k.sched.deadList.count tid ∧
    (task.state = .dead → 0 < task.refcount)
  freedTask : ∀ tid, k.sched.tasks tid = none →
    k.taskFrees tid = (if tid < k.sched.tidNext then 1 else 0) ∧
    k.taskHeld tid = 0 ∧ tid ∉ k.sched.deadList
  process : ∀ pid proc, k.sched.procs pid = some proc → k.procFrees pid = 0 ∧
    proc.refcount = k.procHeld pid + proc.taskList.length ∧ 0 < proc.refcount ∧
    (∀ tid, tid ∈ proc.taskList ↔ ∃ task, k.sched.tasks tid = some task ∧ task.process = pid) ∧
    (proc.exitSignaled = true ↔ k.created pid ≠ 0 ∧
      ∀ tid task, k.sched.tasks tid = some task → task.process ≠ pid)
  freedProcess : ∀ pid, k.sched.procs pid = none →
    k.procFrees pid = (if pid < k.sched.pidNext then 1 else 0) ∧ k.procHeld pid = 0 ∧
    ∀ tid task, k.sched.tasks tid = some task → task.process ≠ pid

/-- The move frees the last task of the process. -/
def FreesLast (k k' : Custody) (pid : Nat) : Prop :=
  (∃ tid task, k.sched.tasks tid = some task ∧ task.process = pid ∧ k'.sched.tasks tid = none) ∧
    ∀ tid task, k'.sched.tasks tid = some task → task.process ≠ pid

/-- What one move may do. -/
structure Orderly (k : Custody) (move : Move) (k' : Custody) : Prop where
  freed : ∀ tid task, k.sched.tasks tid = some task → k'.sched.tasks tid = none →
    task.state = .dead ∨ move = .call (.taskTerminate tid)
  dead : ∀ tid task task', k.sched.tasks tid = some task → k'.sched.tasks tid = some task' →
    task.state = .dead → task'.state = .dead
  signaled : ∀ pid proc proc', k.sched.procs pid = some proc → k'.sched.procs pid = some proc' →
    (proc'.exitSignaled = true ↔ proc.exitSignaled = true ∨ FreesLast k k' pid)
  woken : ∀ pid, FreesLast k k' pid → k'.sched.waitQueue (.exitCompl pid) = []
  closed : ∀ pid, (∀ proc, k.sched.procs pid = some proc → proc.exitSignaled = true) →
    k'.created pid = k.created pid

/-- What holds of every state reached. -/
structure Balanced (k : Custody) : Prop where
  settled : Settled k.sched
  books : Books k.sched.census k.ledger
  tasks : FreedOnce k.taskFrees k.sched.tidNext k.sched.tasks
  procs : FreedOnce k.procFrees k.sched.pidNext k.sched.procs

theorem tasks_eq_none {s : Sched} {tid : Nat} : s.census.lives tid = none ↔ s.tasks tid = none :=
  Option.map_eq_none_iff

theorem Balanced.lifetimes (balanced : Balanced k) : Lifetimes k := by
  obtain ⟨settled, books, tasks, procs⟩ := balanced
  refine ⟨?_, ?_, ?_, ?_⟩
  · intro tid task present
    have alive := census_lives present
    refine ⟨by simp [tasks tid, present], books.references tid _ alive, fun dead => ?_⟩
    exact books.needed tid _ alive (by simp [Task.life, dead])
  · intro tid gone
    have unreferenced : k.taskHeld tid + k.sched.deadList.count tid = 0 :=
      books.unreferenced tid (tasks_eq_none.mpr gone)
    obtain ⟨unheld, unlisted⟩ := Nat.add_eq_zero_iff.mp unreferenced
    exact ⟨by simp [tasks tid, gone], unheld, List.count_eq_zero.mp unlisted⟩
  · intro pid proc present
    have listed : ∀ tid, tid ∈ proc.taskList ↔
        ∃ task, k.sched.tasks tid = some task ∧ task.process = pid := by
      intro tid
      constructor
      · intro member
        obtain ⟨life, alive, process⟩ := books.listed pid proc present tid member
        obtain ⟨task, found, rfl⟩ := tasks_of_lives alive
        exact ⟨task, found, process⟩
      · rintro ⟨task, found, rfl⟩
        exact settled.1.listed tid task proc found (by simp) present
    refine ⟨by simp [procs pid, present], books.procReferences pid proc present,
      books.procNeeded pid proc present, listed, ?_⟩
    rw [books.signaled pid proc present, List.eq_nil_iff_forall_not_mem]
    refine and_congr_right fun _ => forall_congr' fun tid => ?_
    rw [listed tid]
    constructor
    · intro none_of task found process
      exact none_of ⟨task, found, process⟩
    · rintro others ⟨task, found, process⟩
      exact others task found process
  · intro pid gone
    refine ⟨by simp [procs pid, gone], books.procUnreferenced pid gone, ?_⟩
    rintro tid task found rfl
    obtain ⟨proc, present, -⟩ := books.home tid _ (census_lives found)
    cases gone.symm.trans present

theorem Move.exec_ensures {move : Move} (settled : Settled k.sched) (allowed : Allowed k move) :
    Ensures Tolerated Settled (move.exec k.sched) := by
  cases move with
  | call request => exact Scheduler.exec_ensures settled allowed.1
  | taskFromId tid =>
      simp only [Move.exec, Scheduler.taskFromId]
      cases k.sched.tasks tid with
      | none => exact settled
      | some task => exact taskRetain_ensures settled
  | processFromId pid =>
      simp only [Move.exec, Scheduler.processFromId]
      cases k.sched.procs pid with
      | none => exact settled
      | some proc =>
          apply (processRetain_ensures settled.1).mono
          rintro s' ⟨placed, tasks, current, -⟩
          exact ⟨placed, settled.2.of_ne current (congrFun tasks _)⟩

theorem Ages.tasks {next next' : Nat} {s s' : Sched}
    (ages : Ages next next' s.census.lives s'.census.lives) :
    Ages next next' s.tasks s'.tasks where
  le := ages.le
  old := fun id known gone => tasks_eq_none.mp (ages.old id known (tasks_eq_none.mpr gone))
  new := fun id above below gone => ages.new id above below (tasks_eq_none.mpr gone)

theorem Proper.balanced {move : Move} {s' : Sched} (balanced : Balanced k) (settled : Settled s')
    (proper : Proper k move s') : Balanced (k.after s' move) where
  settled := settled
  books := proper.books
  tasks := by
    apply proper.passes.tasks.tasks.freedOnce _ balanced.tasks
    intro tid above
    cases found : k.sched.tasks tid with
    | none => rfl
    | some task => exact absurd (balanced.settled.1.fresh tid task found).1 (not_lt.mpr above)
  procs := by
    apply proper.passes.procs.freedOnce _ balanced.procs
    intro pid above
    cases found : k.sched.procs pid with
    | none => exact found
    | some proc => exact absurd (balanced.settled.1.procs pid proc found) (not_lt.mpr above)

/-- The tasks of a process stay in it. -/
theorem Proper.stays {move : Move} {s' : Sched} {tid : Nat} {task task' : Task}
    (proper : Proper k move s') (found : k.sched.tasks tid = some task)
    (found' : s'.tasks tid = some task') : task'.process = task.process :=
  (proper.passes.kept tid _ _ (census_lives found) (census_lives found')).1

theorem Proper.orderly {move : Move} {s' : Sched} (balanced : Balanced k) (settled : Settled s')
    (proper : Proper k move s') : Orderly k move (k.after s' move) := by
  have after := (proper.balanced balanced settled).lifetimes
  have before := balanced.lifetimes
  refine ⟨?_, ?_, ?_, ?_, ?_⟩
  · intro tid task found gone
    have freed := proper.passes.freed tid _ (census_lives found) (tasks_eq_none.mpr gone)
    exact freed.1.imp_left of_decide_eq_true
  · intro tid task task' found found' dead
    have kept := proper.passes.kept tid _ _ (census_lives found) (census_lives found')
    exact of_decide_eq_true (kept.2 (by simp [Task.life, dead]))
  · intro pid proc proc' present present'
    have signaled := (before.process pid proc present).2.2.2.2
    have signaled' := (after.process pid proc' present').2.2.2.2
    constructor
    · intro ended'
      obtain ⟨some_created, none_left⟩ := signaled'.mp ended'
      by_cases ended : proc.exitSignaled = true
      · exact .inl ended
      have occupied : ∃ tid task, k.sched.tasks tid = some task ∧ task.process = pid := by
        by_contra unoccupied
        push Not at unoccupied
        have uncreated : k.created pid = 0 := by
          by_contra created
          exact ended (signaled.mpr ⟨created, unoccupied⟩)
        obtain ⟨-, tid, life, alive, process⟩ :=
          proper.created pid fun same => some_created (same.trans uncreated)
        obtain ⟨task, found, rfl⟩ := tasks_of_lives alive
        exact none_left tid task found process
      obtain ⟨tid, task, found, process⟩ := occupied
      refine .inr ⟨⟨tid, task, found, process, ?_⟩, none_left⟩
      cases found' : s'.tasks tid with
      | none => exact found'
      | some task' =>
          have stays := proper.stays found found'
          exact absurd (stays.trans process) (none_left tid task' found')
    · rintro (ended | ⟨⟨tid, task, found, process, -⟩, none_left⟩)
      · exact proper.passes.ended pid proc proc' present present' ended
      · refine signaled'.mpr ⟨?_, none_left⟩
        have unchanged : k.createdAfter s' move pid = k.created pid := by
          by_contra differs
          obtain ⟨-, other, life, alive, home⟩ := proper.created pid differs
          obtain ⟨task', found', rfl⟩ := tasks_of_lives alive
          exact none_left other task' found' home
        have member := ((before.process pid proc present).2.2.2.1 tid).mpr ⟨task, found, process⟩
        have populated := balanced.books.populated pid proc present
        have positive := List.length_pos_of_mem member
        intro zero
        have uncreated : k.created pid = 0 := unchanged.symm.trans zero
        exact absurd (lt_of_lt_of_le positive populated) (uncreated ▸ lt_irrefl _)
  · rintro pid ⟨⟨tid, task, found, rfl, gone⟩, none_left⟩
    have freed := proper.passes.freed tid _ (census_lives found) (tasks_eq_none.mpr gone)
    apply freed.2
    intro other life alive
    obtain ⟨task', found', rfl⟩ := tasks_of_lives alive
    exact none_left other task' found'
  · intro pid ended
    by_contra differs
    obtain ⟨⟨proc, present, silent⟩, -⟩ := proper.created pid differs
    rw [ended proc present] at silent
    cases silent

theorem act_ensures {move : Move} (balanced : Balanced k) (allowed : Allowed k move) :
    Ensures (Blamed k move) (fun k' => Balanced k' ∧ Orderly k move k') (act k move) := by
  unfold act
  apply (Ensures.and (exec_proper balanced.settled balanced.books allowed)
    (Move.exec_ensures balanced.settled allowed)).bind
  rintro s' ⟨proper, settled⟩
  exact ⟨proper.balanced balanced settled, proper.orderly balanced settled⟩

theorem start_books : Books booted.census (Custody.start booted).ledger := by
  refine ⟨?_, ?_, ?_, ?_, ?_, ?_, ?_, ?_, ?_, ?_, ?_, ?_, ?_, ?_⟩
  · intro tid life alive
    rcases tid with _ | _ | tid
    · cases alive; rfl
    · cases alive; rfl
    · cases alive
  · intro tid life alive dead
    rcases tid with _ | _ | tid
    · cases alive; cases dead
    · cases alive; cases dead
    · cases alive
  · intro tid gone
    rcases tid with _ | _ | tid
    · cases gone
    · cases gone
    · simp [Custody.start, Custody.ledger, booted]
  · intro tid life alive
    rcases tid with _ | _ | tid
    · cases alive; exact ⟨_, rfl, by decide⟩
    · cases alive; exact ⟨_, rfl, by decide⟩
    · cases alive
  · intro pid proc present tid member
    cases pid with
    | succ pid => cases present
    | zero =>
        cases present
        have listed : tid = 0 ∨ tid = 1 := by simpa using member
        rcases listed with rfl | rfl
        · exact ⟨_, rfl, rfl⟩
        · exact ⟨_, rfl, rfl⟩
  · intro pid proc present
    cases pid with
    | zero => cases present; decide
    | succ pid => cases present
  · intro pid proc present
    cases pid with
    | zero => cases present; rfl
    | succ pid => cases present
  · intro pid proc present
    cases pid with
    | zero => cases present; decide
    | succ pid => cases present
  · intro pid gone
    cases pid with
    | zero => cases gone
    | succ pid => simp [Custody.start, Custody.ledger]
  · intro pid proc present
    cases pid with
    | zero => cases present; decide
    | succ pid => cases present
  · intro pid proc present
    cases pid with
    | zero => cases present; decide
    | succ pid => cases present
  · intro tid life alive
    rcases tid with _ | _ | tid
    · decide
    · decide
    · cases alive
  · intro pid proc present
    cases pid with
    | zero => decide
    | succ pid => cases present
  · intro pid above
    have later : 1 ≤ pid := above
    simp [Custody.start, Custody.ledger, Nat.ne_of_gt later]

theorem start_balanced : Balanced (.start booted) where
  settled := booted_settled
  books := start_books
  tasks := by
    intro tid
    rcases tid with _ | _ | tid
    · rfl
    · rfl
    · simp [Custody.start, booted]
  procs := by
    intro pid
    cases pid with
    | zero => rfl
    | succ pid => simp [Custody.start, booted]

/-- In every run in which each holder of a reference gives it away at most once: the lifetimes
are in order in every state reached, whoever holds a reference can release it, the dead list can
be drained, every move is orderly, and the only panic is that of terminating a task that is
dead or running. -/
theorem run_lifetimes {init : Sched} {k : Custody} (started : schedInit = .ok init)
    (reached : Reaches act Allowed (.start init) k) :
    Lifetimes k ∧
      (∀ tid, 0 < k.taskHeld tid → ∃ s', taskRelease k.sched tid = .ok s') ∧
      (∀ pid, 0 < k.procHeld pid → ∃ s', processRelease k.sched pid = .ok s') ∧
      (∃ s', drainDead k.sched = .ok s') ∧
      ∀ move, Allowed k move →
        (∀ k', act k move = .ok k' → Orderly k move k') ∧
        (act k move = .error .panic → ∃ tid task, move = .call (.taskTerminate tid) ∧
          k.sched.tasks tid = some task ∧ (task.state = .dead ∨ task.state = .running)) := by
  cases started.symm.trans schedInit_eq
  have balanced : Balanced k := reached.invariant start_balanced
    fun _ _ balanced allowed =>
      ((act_ensures balanced allowed).mono fun _ both => both.1).tolerate fun _ _ => trivial
  refine ⟨balanced.lifetimes, ?_, ?_, ?_, ?_⟩
  · intro tid held
    obtain ⟨s', returned, -⟩ := taskRelease_proper balanced.settled balanced.books held
    exact ⟨s', returned⟩
  · intro pid held
    obtain ⟨s', returned, -⟩ := processRelease_proper balanced.books held
    exact ⟨s', returned⟩
  · obtain ⟨s', returned, -⟩ := drainDead_proper balanced.settled balanced.books
    exact ⟨s', returned⟩
  · intro move allowed
    have ensured := act_ensures balanced allowed
    exact ⟨fun k' returned => (ensured.of_ok returned).2, fun panics => ensured.of_error panics rfl⟩

/-- A task is created in a process of its own and detached, runs and exits, and is looked up
while it is on the dead list; the reference taken there is the last one, and with the task
goes its process. -/
def detachedTask : List Move :=
  [.call (.processCreate true), .call (.taskCreate 1 .high true true),
    .call (.processRelease 1), .call (.taskResume 2), .call (.taskRelease 2),
    .call (.taskWait (some (.object 0)) uintptrMax), .taskFromId 2, .call .taskExit,
    .call .drainDead, .call (.taskRelease 2)]

theorem run_lifetimes_detachedTask : ∃ k, runFrom act Allowed
    (.start booted) detachedTask = some k ∧
    Lifetimes k ∧ k.taskFrees 2 = 1 ∧ k.procFrees 1 = 1 := by
  have runs : (runFrom act Allowed (.start booted) detachedTask).any
      (fun k => k.taskFrees 2 = 1 ∧ k.procFrees 1 = 1) = true := by decide +kernel
  obtain ⟨k, ran, frees⟩ := (Option.any_eq_true _ _).mp runs
  exact ⟨k, ran, (run_lifetimes schedInit_eq (Reaches.start.of_runFrom ran)).1,
    of_decide_eq_true frees⟩

end Runs

end Opal.Scheduler
