import Opal.Scheduler.Census

/-!
# What the calls do to lives

The calls that give away a reference that is held never stop.  Each call that creates, kills,
retains or releases does to the census what the events of a life do, and keeps the books.
-/

namespace Opal.Scheduler

section Freeing

variable {unlisted : Option Nat} {s s' : Sched} {tid pid : Nat} {task : Task} {proc : Process}
  {list : WaitList}

theorem SameLife.census (same : SameLife s s') : s'.census = s.census := by
  have lives : s'.census.lives = s.census.lives := by
    funext tid
    cases found : s.tasks tid with
    | none => simp [Sched.census, found, same.absent tid found]
    | some task =>
        obtain ⟨task', found', process, refcount, dead⟩ := same.present tid task found
        simp [Sched.census, found, found', Task.life, process, refcount, dead]
  have procs : s'.census.procs = s.census.procs := same.procs
  have tidNext : s'.census.tidNext = s.census.tidNext := same.tidNext
  have pidNext : s'.census.pidNext = s.census.pidNext := same.pidNext
  calc s'.census
      = ⟨s'.census.lives, s'.census.procs, s'.census.tidNext, s'.census.pidNext⟩ := rfl
    _ = s.census := by rw [lives, procs, tidNext, pidNext]

theorem census_tasks (s : Sched) (tid : Nat) (value : Option Task) :
    ({ s with tasks := Function.update s.tasks tid value } : Sched).census =
      s.census.setLife tid (value.map Task.life) := by
  unfold Census.setLife Sched.census
  congr 1
  exact Function.comp_update (Option.map Task.life) s.tasks tid value

theorem census_setTask : (s.setTask tid task).census = s.census.setLife tid (some task.life) :=
  census_tasks s tid (some task)

theorem census_setProc : (s.setProc pid proc).census = s.census.setProc pid (some proc) := rfl

theorem setReady_returns (present : s.tasks tid = some task) : ∃ s', setReady s tid = .ok s' := by
  unfold setReady
  rw [Sched.getTask_of present]
  exact ⟨_, rfl⟩

theorem resetTimeout_returns (present : s.tasks tid = some task)
    (queued : task.hasTimeout = true → tid ∈ s.timeoutQueue) :
    ∃ s' task', resetTimeout s tid = .ok s' ∧ s'.tasks tid = some task' := by
  unfold resetTimeout
  rw [Sched.getTask_of present]
  by_cases timed : task.hasTimeout = true
  · simp only [timed, if_true, unlink_of_mem (queued timed), ok_bind]
    exact ⟨_, _, rfl, Function.update_self ..⟩
  · simp only [timed, ok_bind]
    exact ⟨s, task, rfl, present⟩

theorem waitListWakeOne_returns (placed : Placed none unlisted s) :
    ∃ r, waitListWakeOne s list = .ok r := by
  unfold waitListWakeOne
  cases queue : s.waitQueue list with
  | nil => exact ⟨_, rfl⟩
  | cons tid rest =>
      have member : tid ∈ s.container (.wait list) := by simp [Sched.container, queue]
      obtain ⟨-, task, present, waiting, -⟩ := (placed.mem_iff _ _).mp member
      have found : (s.setWaitQueue list rest).getTask tid = .ok task := Sched.getTask_of present
      have own : ((s.setWaitQueue list rest).setTask tid { task with waitFor := none }).tasks tid =
          some { task with waitFor := none } := Function.update_self ..
      simp only [found, ok_bind]
      split
      · rename_i timed
        have queued : tid ∈ s.timeoutQueue :=
          (placed.mem_iff .timeout tid).mpr ⟨(by simp), task, present, waiting, timed⟩
        obtain ⟨s₁, task₁, returned₁, present₁⟩ := resetTimeout_returns own fun _ => queued
        obtain ⟨s₂, returned₂⟩ := setReady_returns present₁
        rw [returned₁, ok_bind, returned₂]
        exact ⟨_, rfl⟩
      · obtain ⟨s₂, returned₂⟩ := setReady_returns own
        rw [returned₂]
        exact ⟨_, rfl⟩

theorem wakeAllLoop_returns (fuel : Nat) (placed : Placed none unlisted s) :
    ∃ s', wakeAllLoop list fuel s = .ok s' := by
  induction fuel generalizing s with
  | zero => exact ⟨s, rfl⟩
  | succ fuel inductionHypothesis =>
      unfold wakeAllLoop
      split
      · exact ⟨s, rfl⟩
      · obtain ⟨⟨s₁, waken⟩, returned⟩ := waitListWakeOne_returns placed
        rw [returned]
        exact inductionHypothesis ((waitListWakeOne_ensures placed).of_ok returned).1

/-- The waiters are woken, and nothing happens to any life. -/
theorem waitListWakeAll_spec (list : WaitList) (placed : Placed none unlisted s) :
    ∃ s', waitListWakeAll s list = .ok s' ∧ SameLife s s' ∧ s'.waitQueue list = [] := by
  obtain ⟨s', returned⟩ := wakeAllLoop_returns (s.waitQueue list).length placed
  exact ⟨s', returned, (waitListWakeAll_calm placed).of_ok returned,
    ((waitListWakeAll_ensures placed).of_ok returned).2.2⟩

theorem Sched.getProc_of (present : s.procs pid = some proc) : s.getProc pid = .ok proc := by
  simp [Sched.getProc, present]

theorem processFree_eq (present : s.procs pid = some proc) (empty : proc.taskList = []) :
    processFree s pid = .ok { s with procs := Function.update s.procs pid none } := by
  unfold processFree
  rw [Sched.getProc_of present, ok_bind, if_pos empty]

theorem processRelease_eq (present : s.procs pid = some proc) (counted : 0 < proc.refcount)
    (unused : proc.refcount = 1 → proc.taskList = []) :
    processRelease s pid = .ok { s with procs := Function.update s.procs pid proc.released } := by
  unfold processRelease Process.released kassert
  rw [Sched.getProc_of present, ok_bind, if_pos counted, ok_bind]
  by_cases last : proc.refcount = 1
  · have zero : proc.refcount - 1 = 0 := by rw [last]
    have own : (s.setProc pid { proc with refcount := proc.refcount - 1 }).procs pid =
        some { proc with refcount := proc.refcount - 1 } := Function.update_self ..
    rw [if_pos zero, if_pos last, processFree_eq own (unused last)]
    simp [Sched.setProc]
  · have some_left : proc.refcount - 1 ≠ 0 := by omega
    rw [if_neg some_left, if_neg last]
    rfl

/-- The process does not list the task any more; the last task out signals the exit. -/
theorem delist_spec {delisted : Sched} (tid : Nat) (placed : Placed none none s)
    (home : s.procs pid = some proc)
    (erased : delisted = s.setProc pid { proc with taskList := proc.taskList.erase tid }) :
    ∃ s', (proc.taskList.erase tid = [] → completionSignal delisted pid = .ok s') ∧
      (proc.taskList.erase tid ≠ [] → delisted = s') ∧
      SameLife (s.setProc pid (proc.without tid)) s' ∧
      (proc.taskList.erase tid = [] → s'.waitQueue (.exitCompl pid) = []) := by
  have unlisted : Placed none (some tid) (s.setProc pid (proc.without tid)) := by
    refine placed.setProc home ?_ (by simp)
    intro other member differs
    exact (List.mem_erase_of_ne fun same => differs (congrArg some same.symm)).mpr member
  subst erased
  by_cases last : proc.taskList.erase tid = []
  · obtain ⟨s', returned, same, woken⟩ := waitListWakeAll_spec (.exitCompl pid) unlisted
    refine ⟨s', fun _ => ?_, fun others => absurd last others, same, fun _ => woken⟩
    unfold completionSignal
    rw [Sched.getProc_of (Function.update_self ..), ok_bind, ← returned]
    simp [Sched.setProc, Process.without, last]
  · refine ⟨_, fun none_left => absurd none_left last, fun _ => rfl, ?_, fun none_left =>
      absurd none_left last⟩
    have silent : proc.without tid = { proc with taskList := proc.taskList.erase tid } := by
      simp [Process.without, last]
    rw [silent]
    exact .refl

/-- A dead task is freed, with its hold on the process. -/
theorem taskFree_spec (placed : Placed none none s) (present : s.tasks tid = some task)
    (home : s.procs task.process = some proc) (counted : 0 < proc.refcount)
    (unused : proc.refcount = 1 → proc.taskList.erase tid = []) :
    ∃ s', taskFree s tid = .ok s' ∧ s'.deadList = s.deadList ∧
      s'.census = s.census.free tid task.process proc ∧
      (proc.taskList.erase tid = [] → s'.waitQueue (.exitCompl task.process) = []) := by
  have member : tid ∈ proc.taskList := placed.listed tid task proc present nofun home
  have unstacked : Placed none none (s.setTask tid { task with kstack := false }) :=
    placed.adjust present rfl (fun c => by cases c <;> rfl) rfl (placed.context tid task present)
  have home₁ : (s.setTask tid { task with kstack := false }).procs task.process = some proc := home
  obtain ⟨s₁, signals, others, same, woken⟩ := delist_spec tid unstacked home₁ rfl
  have present₁ : s₁.procs task.process = some (proc.without tid) := by
    rw [same.procs]
    exact Function.update_self ..
  have released := processRelease_eq present₁ counted unused
  refine ⟨{ s₁ with
    procs := Function.update s₁.procs task.process (proc.without tid).released
    tasks := Function.update s₁.tasks tid none }, ?_, same.deadList, ?_, woken⟩
  · unfold taskFree taskFreeStack
    rw [Sched.getTask_of present, ok_bind, ok_bind, Sched.getTask_of (Function.update_self ..),
      ok_bind, Sched.getProc_of home₁, ok_bind, unlink_of_mem member, ok_bind]
    by_cases last : proc.taskList.erase tid = []
    · simp only [if_pos last]
      rw [signals last, ok_bind, released, ok_bind]
    · simp only [if_neg last]
      rw [others last, ok_bind, released, ok_bind]
  · have kept : SameLife s (s.setTask tid { task with kstack := false }) :=
      .setTask present ⟨rfl, rfl, Iff.rfl⟩
    have counted₁ : s₁.census = s.census.setProc task.process (some (proc.without tid)) := by
      rw [same.census, census_setProc, kept.census]
    calc _ = (s₁.census.setProc task.process (proc.without tid).released).setLife tid none :=
          census_tasks { s₁ with
            procs := Function.update s₁.procs task.process (proc.without tid).released } tid none
      _ = s.census.free tid task.process proc := by
          rw [counted₁]
          simp [Census.setProc, Census.setLife, Census.free]

end Freeing

section References

variable {s : Sched} {ledger : Ledger} {tid pid : Nat} {task : Task}

def AwaitedNoMore (s : Sched) (pid : Nat) : Prop := s.waitQueue (.exitCompl pid) = []

theorem census_lives (present : s.tasks tid = some task) :
    s.census.lives tid = some task.life := by
  simp [Sched.census, present]

theorem tasks_of_lives {life : Life} (present : s.census.lives tid = some life) :
    ∃ task, s.tasks tid = some task ∧ task.life = life := Option.map_eq_some_iff.mp present

/-- A reference that is held can be given away: the call returns, and if it was the last one
to a dead task, the task is freed. -/
theorem taskRelease_spec (placed : Placed none none s) (books : Books s.census ledger)
    (held : 0 < ledger.taskRefs tid) :
    ∃ s', taskRelease s tid = .ok s' ∧ s'.deadList = s.deadList ∧
      Books s'.census (ledger.setTaskRefs tid (ledger.taskRefs tid - 1)) ∧
      Passes s.census s'.census (fun _ => False) (AwaitedNoMore s') := by
  cases alive : s.census.lives tid with
  | none => exact absurd (books.unreferenced tid alive) (Nat.ne_of_gt held)
  | some life =>
      obtain ⟨task, present, rfl⟩ := tasks_of_lives alive
      obtain ⟨proc, home, member⟩ := books.home tid _ alive
      have references : task.refcount = ledger.taskRefs tid := books.references tid _ alive
      have counted : task.refcount > 0 := references ▸ held
      have lowered : Placed none none (s.setTask tid { task with refcount := task.refcount - 1 }) :=
        placed.adjust present rfl (fun c => by cases c <;> rfl) rfl
          (placed.context tid task present)
      have census : (s.setTask tid { task with refcount := task.refcount - 1 }).census =
          s.census.setLife tid (some { task.life with refcount := task.refcount - 1 }) :=
        census_setTask
      unfold taskRelease kassert
      rw [Sched.getTask_of present, ok_bind, if_pos counted, ok_bind]
      by_cases last : task.refcount - 1 = 0 ∧ task.state = .dead
      · have procCounted := books.procReferences _ proc home
        have unused : proc.refcount = 1 → proc.taskList.erase tid = [] := by
          intro single
          have short : proc.taskList.length ≤ 1 := by omega
          apply List.eq_nil_of_length_eq_zero
          rw [List.length_erase_of_mem member]
          omega
        obtain ⟨s', freed, deadList, census', woken⟩ :=
          taskFree_spec lowered (Function.update_self ..) home (books.procNeeded _ proc home) unused
        have same : s'.census = s.census.free tid task.life.process proc := by
          rw [census', census]
          simp [Census.free, Census.setLife, Census.setProc, Task.life]
        have gone : ledger.taskRefs tid - 1 = 0 := by omega
        refine ⟨s', by rw [if_pos last, freed], deadList, ?_, ?_⟩
        · rw [gone, same]
          exact books.free alive home
        · rw [same]
          exact .free alive home (by simp [Task.life, last.2]) fun others =>
            woken (books.erase_eq_nil home others)
      · refine ⟨_, if_neg last, rfl, ?_, ?_⟩
        · rw [census, ← references]
          refine books.setLife alive rfl fun dead => ?_
          have isDead : task.state = .dead := of_decide_eq_true dead
          have positive : task.refcount - 1 ≠ 0 := fun zero => last ⟨zero, isDead⟩
          exact Nat.pos_of_ne_zero positive
        · rw [census]
          exact .setLife alive rfl id

theorem processRelease_spec (books : Books s.census ledger) (held : 0 < ledger.procRefs pid) :
    ∃ s', processRelease s pid = .ok s' ∧ s'.deadList = s.deadList ∧
      Books s'.census (ledger.setProcRefs pid (ledger.procRefs pid - 1)) ∧
      Passes s.census s'.census (fun _ => False) (AwaitedNoMore s') := by
  cases alive : s.procs pid with
  | none => exact absurd (books.procUnreferenced pid alive) (Nat.ne_of_gt held)
  | some proc =>
      have counted := books.procReferences pid proc alive
      have unused : proc.refcount = 1 → proc.taskList = [] := by
        intro single
        apply List.eq_nil_of_length_eq_zero
        omega
      refine ⟨_, processRelease_eq alive (books.procNeeded pid proc alive) unused, rfl, ?_, ?_⟩
      · exact books.releaseProc alive held
      · exact .of_procs (.update alive) rfl rfl
          (ended_update alive fun _ => Process.released_ended)

theorem taskRetain_quiet (books : Books s.census ledger) :
    Ensures Quiet (fun s' => s'.deadList = s.deadList ∧
      Books s'.census (ledger.setTaskRefs tid (ledger.taskRefs tid + 1)) ∧
      Passes s.census s'.census (fun _ => False) (AwaitedNoMore s')) (taskRetain s tid) := by
  unfold taskRetain
  apply quiet_getTask
  intro task present
  apply quiet_kassert
  intro _
  have alive := census_lives present
  have references : task.refcount = ledger.taskRefs tid := books.references tid _ alive
  have census : (s.setTask tid { task with refcount := task.refcount + 1 }).census =
      s.census.setLife tid (some { task.life with refcount := task.refcount + 1 }) := census_setTask
  refine ⟨rfl, ?_, ?_⟩
  · rw [census, ← references]
    exact books.setLife alive rfl fun _ => Nat.succ_pos _
  · rw [census]
    exact .setLife alive rfl id

theorem processRetain_quiet (books : Books s.census ledger) :
    Ensures Quiet (fun s' => s'.deadList = s.deadList ∧
      Books s'.census (ledger.setProcRefs pid (ledger.procRefs pid + 1)) ∧
      Passes s.census s'.census (fun _ => False) (AwaitedNoMore s')) (processRetain s pid) := by
  unfold processRetain
  apply quiet_getProc
  intro proc present
  apply quiet_kassert
  intro _
  have counted : proc.refcount + 1 = ledger.procRefs pid + 1 + proc.taskList.length := by
    rw [books.procReferences pid proc present]
    omega
  refine ⟨rfl, ?_, .of_procs (.update present) rfl rfl (ended_update present ?_)⟩
  · rw [census_setProc, counted]
    exact books.setProc present (by omega)
  · intro proc' same ended
    cases same
    exact ended

theorem taskInit_quiet :
    Ensures Quiet (fun s' => s'.deadList = s.deadList ∧ Alive s' s.tidNext ∧
      ∃ proc, s.procs pid = some proc ∧ s'.census = s.census.create pid proc) (taskInit s pid) := by
  unfold taskInit processRetain
  apply quiet_kassert
  intro _
  rw [bind_assoc]
  apply quiet_getProc
  intro proc present
  rw [bind_assoc]
  apply quiet_kassert
  intro _
  rw [ok_bind]
  apply quiet_getProc
  intro value found
  cases (Function.update_self ..).symm.trans found
  refine ⟨rfl, ?_, proc, present, ?_⟩
  · intro task own dead
    cases (Function.update_self ..).symm.trans own
    cases dead
  · unfold Census.create Sched.census
    congr 1
    · exact Function.comp_update (Option.map Task.life) s.tasks s.tidNext _
    · exact Function.update_idem ..

/-- Either nothing happens or the process, which has not ended, gets a new task. -/
theorem taskCreate_quiet {priority : Priority} {stack slab : Bool} :
    Ensures Quiet (fun s' => s' = s ∨ (s'.deadList = s.deadList ∧
      ∃ proc, s.procs pid = some proc ∧ proc.exitSignaled = false ∧
        s'.census = s.census.create pid proc)) (taskCreate s pid priority stack slab) := by
  unfold taskCreate
  split
  · apply quiet_getProc
    intro proc present
    split
    · exact .inl rfl
    · rename_i silent
      split
      · apply taskInit_quiet.bind
        rintro s₁ ⟨deadList₁, alive₁, value, found, census₁⟩
        rw [present] at found
        cases found
        have settles : ∀ s', SameLife s₁ s' → s'.deadList = s.deadList ∧
            ∃ proc, s.procs pid = some proc ∧ proc.exitSignaled = false ∧
              s'.census = s.census.create pid proc := by
          intro s' same
          exact ⟨same.deadList.trans deadList₁, proc, present, Bool.not_eq_true _ ▸ silent,
            same.census.trans census₁⟩
        refine Ensures.mono (fun s' same => .inr (settles s' same)) (?_ : Calm s₁ _)
        apply quiet_getTask
        intro task found
        have same : SameLife s₁ (s₁.setTask s.tidNext { task with priority := priority }) :=
          .setTask found ⟨rfl, rfl, Iff.rfl⟩
        apply ((setWaitFor_calm (same.alive alive₁)).after same).bind
        intro s₂ _
        apply quiet_getTask
        intro task₂ found₂
        exact .setTask found₂ ⟨rfl, rfl, Iff.rfl⟩
      · exact .inl rfl
  · exact .inl rfl

theorem taskBeforeDying_spec (loose : Placed (some tid) none s) (present : s.tasks tid = some task)
    (notIdle : tid ≠ idleTid) :
    ∃ s', taskBeforeDying s tid = .ok s' ∧ Placed none none s' ∧ s'.current = s.current ∧
      s'.deadList = s.deadList ∧
      s'.census = s.census.setLife tid (some { task.life with dead := true }) := by
  unfold taskBeforeDying setDead
  have died := setDead_ensures loose present notIdle
  unfold setDead at died
  rw [Sched.getTask_of present, ok_bind] at died ⊢
  obtain ⟨placed, -⟩ := died
  obtain ⟨s', returned, same, -⟩ := waitListWakeAll_spec (.join tid) placed
  have woken := (waitListWakeAll_ensures placed).of_ok returned
  refine ⟨s', returned, woken.1, woken.2.1.current, same.deadList, ?_⟩
  rw [same.census, census_setTask]
  simp [Task.life]

/-- A held task that is neither dead nor running is killed, and one reference is given away. -/
theorem die_quiet (loose : Placed (some tid) none s) (books : Books s.census ledger)
    (present : s.tasks tid = some task) (notIdle : tid ≠ idleTid)
    (held : 0 < ledger.taskRefs tid) :
    Ensures Quiet (fun s' => s'.deadList = s.deadList ∧
      Books s'.census (ledger.setTaskRefs tid (ledger.taskRefs tid - 1)) ∧
      Passes s.census s'.census (· = tid) (AwaitedNoMore s'))
      (taskBeforeDying s tid >>= fun s' => taskFreeStack s' tid >>= fun s'' =>
        taskRelease s'' tid) := by
  obtain ⟨s₁, died, placed₁, -, deadList₁, census₁⟩ := taskBeforeDying_spec loose present notIdle
  rw [died, ok_bind]
  have alive := census_lives present
  have references : task.refcount = ledger.taskRefs tid := books.references tid _ alive
  have same : ledger.setTaskRefs tid task.refcount = ledger := by
    rw [references]
    simp [Ledger.setTaskRefs]
  have books₁ : Books s₁.census ledger := by
    rw [census₁, ← same]
    refine books.setLife alive rfl fun _ => ?_
    exact lt_of_lt_of_eq held references.symm
  unfold taskFreeStack
  rw [bind_assoc]
  apply quiet_getTask
  intro task₁ present₁
  rw [ok_bind]
  have unstacked : SameLife s₁ (s₁.setTask tid { task₁ with kstack := false }) :=
    .setTask present₁ ⟨rfl, rfl, Iff.rfl⟩
  have placed₂ : Placed none none (s₁.setTask tid { task₁ with kstack := false }) :=
    placed₁.adjust present₁ rfl (fun c => by cases c <;> rfl) rfl
      (placed₁.context tid task₁ present₁)
  obtain ⟨s', released, deadList', books', passes⟩ :=
    taskRelease_spec placed₂ (unstacked.census ▸ books₁) held
  rw [released]
  refine ⟨deadList'.trans (unstacked.deadList.trans deadList₁), books', ?_⟩
  rw [unstacked.census, census₁] at passes
  exact .kill alive passes

theorem taskTerminate_quiet (settled : Settled s) (books : Books s.census ledger)
    (notIdle : tid ≠ idleTid) (held : 0 < ledger.taskRefs tid) :
    Ensures (fun stop => stop = .panic → ∃ task, s.tasks tid = some task ∧
        (task.state = .dead ∨ task.state = .running))
      (fun s' => s'.deadList = s.deadList ∧
        Books s'.census (ledger.setTaskRefs tid (ledger.taskRefs tid - 1)) ∧
        Passes s.census s'.census (· = tid) (AwaitedNoMore s')) (taskTerminate s tid) := by
  have quietly : ∀ stop, Quiet stop → stop = .panic → ∃ task, s.tasks tid = some task ∧
      (task.state = .dead ∨ task.state = .running) := fun _ quiet panics => absurd panics quiet
  cases present : s.tasks tid with
  | none =>
      unfold taskTerminate Sched.getTask
      rw [present]
      nofun
  | some task =>
      unfold taskTerminate
      rw [Sched.getTask_of present, ok_bind]
      cases state : task.state with
      | dead => exact fun _ => ⟨task, rfl, .inl state⟩
      | running => exact fun _ => ⟨task, rfl, .inr state⟩
      | ready =>
          refine Ensures.tolerate (present ▸ quietly) ?_
          apply (Ensures.and resetReady_calm (resetReady_ensures settled.1 present state)).bind
          rintro s₁ ⟨same₁, loose₁, moved₁⟩
          have died := die_quiet loose₁ (same₁.census ▸ books) moved₁.self notIdle held
          rw [same₁.census, same₁.deadList] at died
          exact died
      | waiting =>
          refine Ensures.tolerate (present ▸ quietly) ?_
          apply (Ensures.and resetTimeout_calm (resetTimeout_ensures settled.1 present state)).bind
          rintro s₁ ⟨same₁, placed₁, moved₁, -⟩
          apply (Ensures.and resetWaitFor_calm
            (resetWaitFor_ensures placed₁ moved₁.self state)).bind
          rintro s₂ ⟨same₂, placed₂, moved₂, -⟩
          have same := same₁.trans same₂
          have loose₂ := placed₂.loosen moved₂.self fun c => by
            cases c <;> simp [Task.Belongs, state]
          have died := die_quiet loose₂ (same.census ▸ books) moved₂.self notIdle held
          rw [same.census, same.deadList] at died
          exact died

theorem taskExit_quiet (settled : Settled s) (books : Books s.census ledger)
    (notIdle : s.current ≠ idleTid) :
    Ensures Quiet (fun s' => s'.deadList = s.deadList ++ [s.current] ∧
      Books s'.census (ledger.setTaskRefs s.current (ledger.taskRefs s.current + 1)) ∧
      Passes s.census s'.census (fun _ => False) (AwaitedNoMore s')) (taskExit s) := by
  obtain ⟨task, present, runs⟩ := settled.2
  have loose := (settled.loosen present).1
  obtain ⟨s₁, died, placed₁, current₁, deadList₁, census₁⟩ :=
    taskBeforeDying_spec loose present notIdle
  unfold taskExit taskRetain
  dsimp only
  rw [died, ok_bind, bind_assoc]
  apply quiet_getTask
  intro task₁ present₁
  rw [bind_assoc]
  apply quiet_kassert
  intro _
  rw [ok_bind]
  have alive := census_lives present
  have references : task.refcount = ledger.taskRefs s.current := books.references _ _ alive
  have life₁ : task₁.life = { task.life with dead := true } := by
    have found := census_lives present₁
    rw [census₁, Census.setLife_self] at found
    exact (Option.some.inj found).symm
  have process₁ : task₁.process = task.process := congrArg Life.process life₁
  have dead₁ : task₁.state = .dead := of_decide_eq_true (congrArg Life.dead life₁)
  have refcount₁ : task₁.refcount = task.refcount := congrArg Life.refcount life₁
  have raised : (s₁.setTask s.current { task₁ with refcount := task₁.refcount + 1 }).census =
      s.census.setLife s.current
        (some { task.life with dead := true, refcount := task.refcount + 1 }) := by
    have life₂ : { task₁ with refcount := task₁.refcount + 1 }.life =
        { task.life with dead := true, refcount := task.refcount + 1 } := by
      simp [Task.life, dead₁, refcount₁, process₁]
    rw [census_setTask, life₂, census₁]
    simp [Census.setLife]
  refine Ensures.mono (fun s' same => ?_) (scheduleFrom_calm (placed₁.bury present₁ dead₁) ?_)
  · have census' := same.census.trans raised
    refine ⟨same.deadList.trans (congrArg (· ++ [s.current]) deadList₁), ?_, ?_⟩
    · rw [census', ← references]
      exact books.setLife alive rfl fun _ => Nat.succ_pos _
    · rw [census']
      exact .setLife alive rfl fun _ => rfl
  · rintro - value found
    have own : Function.update s₁.tasks s.current
        (some { task₁ with refcount := task₁.refcount + 1 }) s₁.current = some value := found
    rw [current₁, Function.update_self] at own
    cases own
    exact dead₁

end References

end Opal.Scheduler
