import Opal.Scheduler.Consistency

/-!
# Deadlines are watched

`soonest_timeout` caches the earliest deadline of the timeout queue.  It may be later
than a deadline only while a message that makes `irqmsg_timeout` look at the queue is on
its way.  Every operation but two keeps the queue, up to removals, and the deadlines in
it; the two are the insertion of a waiter and `irqmsg_timeout` itself.
-/

namespace Opal.Scheduler

section Frame

variable {s s' s'' : Sched} {tid : Nat} {task task' : Task}

/-- A message that makes `irqmsg_timeout` run is queued, or popped and about to be handled. -/
def Notified (s : Sched) : Prop :=
  .schedTimeout ∈ s.msgQueue ∨ s.handling = some .schedTimeout

/-- No deadline is added or changed, and no notification is lost. -/
structure Keeps (s s' : Sched) : Prop where
  queue : s'.timeoutQueue.Sublist s.timeoutQueue
  bound : s.tidNext ≤ s'.tidNext
  deadlines : ∀ tid task', s'.tasks tid = some task' → s.tidNext ≤ tid ∨
    ∃ task, s.tasks tid = some task ∧ task.waitTimeout = task'.waitTimeout
  soonest : s'.soonestTimeout = s.soonestTimeout ∨ Notified s'
  notified : Notified s → Notified s'

theorem Keeps.refl : Keeps s s :=
  ⟨List.Sublist.refl _, le_rfl, fun _ task present => .inr ⟨task, present, rfl⟩, .inl rfl, id⟩

theorem Keeps.trans (first : Keeps s s') (second : Keeps s' s'') : Keeps s s'' where
  queue := second.queue.trans first.queue
  bound := Nat.le_trans first.bound second.bound
  deadlines := by
    intro tid task'' present
    rcases second.deadlines tid task'' present with new | ⟨task', present', same'⟩
    · exact .inl (Nat.le_trans first.bound new)
    · rcases first.deadlines tid task' present' with new | ⟨task, present, same⟩
      · exact .inl new
      · exact .inr ⟨task, present, same.trans same'⟩
  soonest := by
    rcases second.soonest with same' | notified
    · rcases first.soonest with same | notified
      · exact .inl (same'.trans same)
      · exact .inr (second.notified notified)
    · exact .inr notified
  notified := second.notified ∘ first.notified

/-- The parts of the state that the frame is about. -/
theorem Keeps.of_eq (queue : s'.timeoutQueue = s.timeoutQueue) (bound : s'.tidNext = s.tidNext)
    (tasks : s'.tasks = s.tasks) (soonest : s'.soonestTimeout = s.soonestTimeout)
    (messages : s'.msgQueue = s.msgQueue) (handling : s'.handling = s.handling) : Keeps s s' where
  queue := queue ▸ List.Sublist.refl _
  bound := Nat.le_of_eq bound.symm
  deadlines := fun _ task present => .inr ⟨task, tasks ▸ present, rfl⟩
  soonest := .inl soonest
  notified := by
    unfold Notified
    rw [messages, handling]
    exact id

theorem Keeps.setTask (present : s.tasks tid = some task)
    (tasks : s'.tasks = Function.update s.tasks tid (some task'))
    (same : task'.waitTimeout = task.waitTimeout) (queue : s'.timeoutQueue = s.timeoutQueue)
    (bound : s'.tidNext = s.tidNext) (soonest : s'.soonestTimeout = s.soonestTimeout)
    (messages : s'.msgQueue = s.msgQueue) (handling : s'.handling = s.handling) : Keeps s s' := by
  have rest : Keeps s { s' with tasks := s.tasks } :=
    .of_eq queue bound rfl soonest messages handling
  refine { rest with deadlines := fun other value found => ?_ }
  rw [tasks] at found
  by_cases own : other = tid
  · subst own
    cases (Function.update_self ..).symm.trans found
    exact .inr ⟨task, present, same.symm⟩
  · exact .inr ⟨value, (Function.update_of_ne own ..).symm.trans found, rfl⟩

/-- The computation keeps the deadlines of `s` if it returns. -/
abbrev Keeping (s : Sched) : Run Sched → Prop := Ensures (fun _ => True) (Keeps s)

theorem Keeping.seq {x : Run Sched} {f : Sched → Run Sched} (first : Keeping s x)
    (second : ∀ s', Keeping s' (f s')) : Keeping s (x >>= f) := by
  refine Ensures.bind first fun s' keeps => ?_
  exact (second s').mono fun s'' keeps' => keeps.trans keeps'

theorem Keeping.after {x : Run Sched} (rest : Keeping s' x) (keeps : Keeps s s') : Keeping s x :=
  rest.mono fun _ keeps' => keeps.trans keeps'

variable {α : Type} {goal : α → Prop}

theorem any_getTask {f : Task → Run α}
    (continues : ∀ task, s.tasks tid = some task → Ensures (fun _ => True) goal (f task)) :
    Ensures (fun _ => True) goal (s.getTask tid >>= f) := Sched.getTask_bind trivial continues

theorem any_getProc {pid : Nat} {f : Process → Run α}
    (continues : ∀ proc, s.procs pid = some proc → Ensures (fun _ => True) goal (f proc)) :
    Ensures (fun _ => True) goal (s.getProc pid >>= f) := Sched.getProc_bind trivial continues

theorem any_kassert {condition : Prop} [Decidable condition] {f : Unit → Run α}
    (continues : condition → Ensures (fun _ => True) goal (f ())) :
    Ensures (fun _ => True) goal (kassert condition >>= f) := kassert_bind trivial continues

theorem any_unlink {queue : List Nat} {f : List Nat → Run α}
    (continues : Ensures (fun _ => True) goal (f (queue.erase tid))) :
    Ensures (fun _ => True) goal (unlink tid queue >>= f) := unlink_bind trivial continues

end Frame

section Queues

variable {s : Sched} {tid : Nat}

theorem setReady_keeps : Keeping s (setReady s tid) := by
  refine any_getTask fun task present => ?_
  exact .setTask present rfl rfl rfl rfl rfl rfl rfl

theorem setRunning_keeps : Keeping s (setRunning s tid) :=
  any_getTask fun _ present => .setTask present rfl rfl rfl rfl rfl rfl rfl

theorem setDead_keeps : Keeping s (setDead s tid) :=
  any_getTask fun _ present => .setTask present rfl rfl rfl rfl rfl rfl rfl

theorem resetReady_keeps : Keeping s (resetReady s tid) :=
  any_getTask fun _ _ => any_unlink (.of_eq rfl rfl rfl rfl rfl rfl)

theorem resetWaitFor_keeps : Keeping s (resetWaitFor s tid) := by
  refine any_getTask fun task present => ?_
  cases waits : task.waitFor with
  | none => exact Keeps.refl
  | some list =>
      refine any_unlink ?_
      exact .setTask present rfl rfl rfl rfl rfl rfl rfl

theorem resetTimeout_keeps : Keeping s (resetTimeout s tid) := by
  refine any_getTask fun task present => ?_
  split
  · refine any_unlink ?_
    have removed : Keeps s { s with timeoutQueue := s.timeoutQueue.erase tid } :=
      { Keeps.refl with queue := List.erase_sublist }
    exact removed.trans (.setTask present rfl rfl rfl rfl rfl rfl rfl)
  · exact Keeps.refl

theorem setWaitFor_keeps {list : Option WaitList} : Keeping s (setWaitFor s tid list) := by
  refine any_getTask fun task present => ?_
  cases list with
  | none => exact .setTask present rfl rfl rfl rfl rfl rfl rfl
  | some list => exact .setTask present rfl rfl rfl rfl rfl rfl rfl

end Queues

section Waking

variable {s : Sched} {list : WaitList}

theorem waitListWakeOne_keeps :
    Ensures (fun _ => True) (fun woken => Keeps s woken.1) (waitListWakeOne s list) := by
  unfold waitListWakeOne
  split
  · exact Keeps.refl
  · rename_i tid rest _
    refine any_getTask fun task present => ?_
    have taken : Keeps s ((s.setWaitQueue list rest).setTask tid { task with waitFor := none }) :=
      .setTask present rfl rfl rfl rfl rfl rfl rfl
    have ready : ∀ s₁, Keeps s s₁ → Ensures (fun _ => True) (fun woken => Keeps s woken.1)
        (setReady s₁ tid >>= fun s₂ => .ok (s₂.record (.woken list tid), true)) := by
      intro s₁ keeps
      refine Ensures.bind setReady_keeps fun s₂ keeps' => ?_
      exact (keeps.trans keeps').trans (.of_eq rfl rfl rfl rfl rfl rfl)
    simp only
    split
    · exact Ensures.bind resetTimeout_keeps fun s₁ keeps => ready s₁ (taken.trans keeps)
    · exact ready _ taken

theorem wakeAllLoop_keeps (fuel : Nat) : Keeping s (wakeAllLoop list fuel s) := by
  induction fuel generalizing s with
  | zero => exact Keeps.refl
  | succ fuel inductionHypothesis =>
      unfold wakeAllLoop
      split
      · exact Keeps.refl
      · exact waitListWakeOne_keeps.bind fun _ keeps => inductionHypothesis.after keeps

theorem waitListWakeAll_keeps : Keeping s (waitListWakeAll s list) := wakeAllLoop_keeps _

theorem eventSignal_keeps : Keeping s (eventSignal s) :=
  waitListWakeOne_keeps.bind fun _ keeps => keeps.trans (.of_eq rfl rfl rfl rfl rfl rfl)

theorem irqmsgPush_keeps {msg : IrqMsg} : Ensures (fun _ => True)
    (fun pushed => Keeps s pushed.1 ∧ (pushed.2 = true → msg = .schedTimeout → Notified pushed.1))
    (irqmsgPush s msg) := by
  unfold irqmsgPush
  split
  · refine Ensures.bind eventSignal_keeps fun s₁ keeps => ⟨Keeps.trans ?_ keeps, nofun⟩
    exact .of_eq rfl rfl rfl rfl rfl rfl
  · refine Ensures.bind eventSignal_keeps fun s₁ keeps => ⟨Keeps.trans ?_ keeps, fun _ same => ?_⟩
    · refine { Keeps.refl with notified := fun notified => ?_ }
      exact notified.imp_left (List.mem_append_left _)
    · exact keeps.notified (.inl (List.mem_append_right _ (List.mem_singleton.mpr same.symm)))

/-- A message is popped only when the one before has been handled. -/
theorem irqmsgPop_keeps (handled : s.handling = none) :
    Keeps s { (irqmsgPop s).1 with handling := (irqmsgPop s).2 } := by
  have lost : s.handling ≠ some .schedTimeout := by simp [handled]
  unfold irqmsgPop
  split
  · refine { Keeps.refl with notified := fun notified => ?_ }
    exact .inl (notified.resolve_right lost)
  · split
    · exact .of_eq rfl rfl rfl rfl rfl handled.symm
    · rename_i msg rest queue
      refine { Keeps.refl with notified := fun notified => ?_ }
      have member := notified.resolve_right lost
      rw [queue] at member
      rcases List.mem_cons.mp member with head | later
      · exact .inr (congrArg some head.symm)
      · exact .inl later

end Waking

section Switching

variable {s : Sched} {tid : Nat}

/-- `soonest_timeout` is given up only for a message. -/
theorem requestTimeout_keeps : Keeping s (requestTimeout s) := by
  unfold requestTimeout
  split
  · refine irqmsgPush_keeps.bind ?_
    rintro ⟨s₁, pushed⟩ ⟨keeps, sent⟩
    cases pushed with
    | true =>
        have notified : Notified s₁ := sent rfl rfl
        exact keeps.trans { Keeps.refl with soonest := .inr notified }
    | false => exact keeps
  · exact Keeps.refl

theorem switchTo_keeps : Keeping s (switchTo s tid) := by
  refine any_getTask fun task present => any_unlink ?_
  have popped : Keeps s (s.setReadyQueue task.priority ((s.readyQueue task.priority).erase tid)) :=
    .of_eq rfl rfl rfl rfl rfl rfl
  refine Ensures.bind setRunning_keeps fun s₁ keeps => ?_
  exact (popped.trans keeps).trans (.of_eq rfl rfl rfl rfl rfl rfl)

theorem schedule_keeps : Keeping s (schedule s) := by
  refine requestTimeout_keeps.seq fun s₁ => ?_
  refine any_getTask fun current _ => ?_
  split
  · show Keeps s₁ (if _ then _ else _)
    split
    · exact Keeps.refl
    · exact .of_eq rfl rfl rfl rfl rfl rfl
  · refine any_getTask fun next _ => ?_
    split
    · split
      · exact Keeps.refl
      · exact setReady_keeps.seq fun _ => switchTo_keeps
    · exact switchTo_keeps

theorem resume_keeps : Keeping s (resume s) := by
  refine any_getTask fun task present => ?_
  cases task.ctx with
  | returns => exact Keeps.refl
  | inTaskWait => exact .setTask present rfl rfl rfl rfl rfl rfl rfl
  | inTaskExit => trivial

theorem scheduleFrom_keeps {ctx : Context} : Keeping s (scheduleFrom s ctx) := by
  refine any_getTask fun task present => ?_
  have adjusted : Keeps s (s.setTask s.current { task with ctx := ctx }) :=
    .setTask present rfl rfl rfl rfl rfl rfl rfl
  exact (schedule_keeps.seq fun _ => resume_keeps).after adjusted

end Switching

section Lifetime

variable {s : Sched} {pid tid : Nat}

theorem completionSignal_keeps : Keeping s (completionSignal s pid) :=
  any_getProc fun _ _ => waitListWakeAll_keeps.after (.of_eq rfl rfl rfl rfl rfl rfl)

theorem processInit_keeps : Keeping s (processInit s) :=
  any_kassert fun _ => (.of_eq rfl rfl rfl rfl rfl rfl)

theorem processRetain_keeps : Keeping s (processRetain s pid) :=
  any_getProc fun _ _ => any_kassert fun _ => (.of_eq rfl rfl rfl rfl rfl rfl)

theorem processFree_keeps : Keeping s (processFree s pid) := by
  refine any_getProc fun proc _ => ?_
  split
  · exact Keeps.of_eq rfl rfl rfl rfl rfl rfl
  · trivial

theorem processRelease_keeps : Keeping s (processRelease s pid) := by
  refine any_getProc fun proc _ => any_kassert fun _ => ?_
  have released : Keeps s (s.setProc pid { proc with refcount := proc.refcount - 1 }) :=
    .of_eq rfl rfl rfl rfl rfl rfl
  show Keeping s (if _ then _ else _)
  split
  · exact processFree_keeps.after released
  · exact released

/-- The new task takes the next id. -/
theorem taskInit_keeps : Keeping s (taskInit s pid) := by
  refine any_kassert fun _ => Ensures.bind processRetain_keeps fun s₁ keeps => ?_
  refine any_getProc fun proc _ => ?_
  refine ⟨keeps.queue, Nat.le_succ _, fun other value found => ?_, keeps.soonest, keeps.notified⟩
  by_cases own : other = s.tidNext
  · exact .inl (Nat.le_of_eq own.symm)
  · exact keeps.deadlines other value ((Function.update_of_ne own ..).symm.trans found)

theorem taskFreeStack_keeps : Keeping s (taskFreeStack s tid) :=
  any_getTask fun _ present => .setTask present rfl rfl rfl rfl rfl rfl rfl

theorem taskRetain_keeps : Keeping s (taskRetain s tid) :=
  any_getTask fun _ present => any_kassert fun _ => (.setTask present rfl rfl rfl rfl rfl rfl rfl)

theorem taskBeforeDying_keeps : Keeping s (taskBeforeDying s tid) :=
  setDead_keeps.seq fun _ => waitListWakeAll_keeps

/-- A deadline may go away with its task. -/
theorem Keeps.removeTask : Keeps s { s with tasks := Function.update s.tasks tid none } := by
  refine { Keeps.refl with deadlines := fun other value found => ?_ }
  have differs : other ≠ tid := by
    rintro rfl
    cases (Function.update_self ..).symm.trans found
  exact .inr ⟨value, (Function.update_of_ne differs ..).symm.trans found, rfl⟩

theorem taskFree_keeps : Keeping s (taskFree s tid) := by
  refine taskFreeStack_keeps.seq fun s₁ => any_getTask fun task _ => any_getProc fun proc _ => ?_
  refine any_unlink ?_
  have unlisted : Keeps s₁ (s₁.setProc task.process
      { proc with taskList := proc.taskList.erase tid }) := .of_eq rfl rfl rfl rfl rfl rfl
  have freed : ∀ s₂, Keeping s₂ (processRelease s₂ task.process >>= fun s₃ =>
      .ok { s₃ with tasks := Function.update s₃.tasks tid none }) :=
    fun s₂ => processRelease_keeps.seq fun s₃ => Keeps.removeTask
  show Keeping s₁ (if _ then _ else _)
  split
  · exact (completionSignal_keeps.seq freed).after unlisted
  · exact (freed _).after unlisted

theorem taskRelease_keeps : Keeping s (taskRelease s tid) := by
  refine any_getTask fun task present => any_kassert fun _ => ?_
  have released : Keeps s (s.setTask tid { task with refcount := task.refcount - 1 }) :=
    .setTask present rfl rfl rfl rfl rfl rfl rfl
  show Keeping s (if _ then _ else _)
  split
  · exact taskFree_keeps.after released
  · exact released

theorem taskCreate_keeps {priority : Priority} {stack slab : Bool} :
    Keeping s (taskCreate s pid priority stack slab) := by
  unfold taskCreate
  split
  · refine any_getProc fun proc _ => ?_
    split
    · exact Keeps.refl
    · split
      · refine taskInit_keeps.seq fun s₁ => any_getTask fun task present => ?_
        have named : Keeps s₁ (s₁.setTask s.tidNext { task with priority := priority }) :=
          .setTask present rfl rfl rfl rfl rfl rfl rfl
        refine (setWaitFor_keeps.seq fun s₂ => ?_).after named
        exact any_getTask fun task present => .setTask present rfl rfl rfl rfl rfl rfl rfl
      · exact Keeps.refl
  · exact Keeps.refl

theorem taskSuspend_keeps : Keeping s (taskSuspend s tid) := by
  unfold taskSuspend
  split
  · exact setWaitFor_keeps.seq fun _ => scheduleFrom_keeps
  · refine any_getTask fun task _ => any_kassert fun _ => ?_
    exact resetReady_keeps.seq fun _ => setWaitFor_keeps

theorem taskResume_keeps : Keeping s (taskResume s tid) := by
  refine any_getTask fun task _ => any_kassert fun _ => ?_
  refine any_kassert fun _ => any_kassert fun _ => ?_
  exact resetWaitFor_keeps.seq fun _ => setReady_keeps

theorem taskTerminate_keeps : Keeping s (taskTerminate s tid) := by
  refine any_getTask fun task _ => ?_
  have dies : ∀ s₁, Keeping s₁ (taskBeforeDying s₁ tid >>= fun s₂ =>
      taskFreeStack s₂ tid >>= fun s₃ => taskRelease s₃ tid) :=
    fun s₁ => taskBeforeDying_keeps.seq fun _ => taskFreeStack_keeps.seq fun _ => taskRelease_keeps
  cases task.state with
  | dead => trivial
  | running => trivial
  | ready => exact resetReady_keeps.seq dies
  | waiting => exact resetTimeout_keeps.seq fun _ => resetWaitFor_keeps.seq dies

theorem taskExit_keeps : Keeping s (taskExit s) := by
  refine taskBeforeDying_keeps.seq fun s₁ => taskRetain_keeps.seq fun s₂ => ?_
  exact scheduleFrom_keeps.after (.of_eq rfl rfl rfl rfl rfl rfl)

theorem drainDead_keeps : Keeping s (drainDead s) := by
  unfold drainDead
  split
  · exact Keeps.refl
  · exact taskRelease_keeps.after (.of_eq rfl rfl rfl rfl rfl rfl)

end Lifetime

section Guarded

variable {s s' : Sched} {tid : Nat} {task : Task} {loose loose' unlisted unlisted' : Option Nat}

/-- The queue is in the order of its deadlines, and no deadline in it goes unwatched. -/
structure Guarded (s : Sched) : Prop where
  sorted : s.timeoutQueue.Pairwise fun a b => s.deadline a ≤ s.deadline b
  watched : Notified s ∨ ∀ tid ∈ s.timeoutQueue, s.soonestTimeout ≤ s.deadline tid

theorem Keeps.deadline (keeps : Keeps s s') (placed : Placed loose unlisted s)
    (placed' : Placed loose' unlisted' s') (member : tid ∈ s'.timeoutQueue) :
    s'.deadline tid = s.deadline tid := by
  obtain ⟨-, task', present', -⟩ := (placed'.mem_iff .timeout tid).mp member
  obtain ⟨-, old, present, -⟩ := (placed.mem_iff .timeout tid).mp (keeps.queue.subset member)
  have older := (placed.fresh tid old present).1
  rcases keeps.deadlines tid task' present' with new | ⟨task, found, same⟩
  · omega
  · simp only [Sched.deadline, present', found, same]

theorem Guarded.keeps (guarded : Guarded s) (keeps : Keeps s s')
    (placed : Placed loose unlisted s) (placed' : Placed loose' unlisted' s') : Guarded s' where
  sorted := by
    refine (guarded.sorted.sublist keeps.queue).imp_of_mem fun first second ordered => ?_
    rw [keeps.deadline placed placed' first, keeps.deadline placed placed' second]
    exact ordered
  watched := by
    rcases keeps.soonest with same | notified
    · refine guarded.watched.imp keeps.notified fun watched tid member => ?_
      rw [same, keeps.deadline placed placed' member]
      exact watched tid (keeps.queue.subset member)
    · exact .inl notified

theorem insertTimeout_sorted {deadline : Nat → Nat} {queue : List Nat}
    (sorted : queue.Pairwise fun a b => deadline a ≤ deadline b) :
    (insertTimeout deadline tid queue).Pairwise fun a b => deadline a ≤ deadline b := by
  induction queue with
  | nil => exact List.pairwise_singleton _ _
  | cons other rest inductionHypothesis =>
      obtain ⟨least, ordered⟩ := List.pairwise_cons.mp sorted
      unfold insertTimeout
      split
      · rename_i before
        have le : deadline tid ≤ deadline other := by
          simp only [timeoutBefore, Bool.or_eq_true, Bool.and_eq_true, decide_eq_true_eq] at before
          omega
        refine List.pairwise_cons.mpr ⟨fun later member => ?_, sorted⟩
        rcases List.mem_cons.mp member with rfl | inRest
        · exact le
        · exact Nat.le_trans le (least later inRest)
      · rename_i after
        refine List.pairwise_cons.mpr ⟨fun later member => ?_, inductionHypothesis ordered⟩
        rcases List.mem_cons.mp ((insertTimeout_perm deadline rest).mem_iff.mp member)
          with rfl | old
        · simp only [timeoutBefore, Bool.or_eq_true, Bool.and_eq_true, decide_eq_true_eq] at after
          omega
        · exact least later old

/-- A new deadline is entered at its place and lowers `soonest_timeout` if it is earlier. -/
theorem Guarded.enter (guarded : Guarded s) (outside : tid ∉ s.timeoutQueue)
    (tasks : s'.tasks = Function.update s.tasks tid (some task))
    (queue : s'.timeoutQueue = insertTimeout s'.deadline tid s.timeoutQueue)
    (earlier : s'.soonestTimeout ≤ task.waitTimeout)
    (soonest : s'.soonestTimeout ≤ s.soonestTimeout) (notified : Notified s → Notified s') :
    Guarded s' := by
  have own : s'.deadline tid = task.waitTimeout := by
    simp only [Sched.deadline, tasks, Function.update_self]
  have others : ∀ other ∈ s.timeoutQueue, s'.deadline other = s.deadline other := by
    intro other member
    have differs : other ≠ tid := fun same => outside (same ▸ member)
    simp only [Sched.deadline, tasks, Function.update_of_ne differs]
  constructor
  · rw [queue]
    refine insertTimeout_sorted (guarded.sorted.imp_of_mem fun first second ordered => ?_)
    rw [others _ first, others _ second]
    exact ordered
  · refine guarded.watched.imp notified fun watched other member => ?_
    rw [queue] at member
    rcases List.mem_cons.mp ((insertTimeout_perm _ _).mem_iff.mp member) with rfl | old
    · exact own ▸ earlier
    · rw [others other old]
      exact Nat.le_trans soonest (watched other old)

theorem setWaitTimeout_guarded {list : Option WaitList} {timeout : Nat} (guarded : Guarded s)
    (placed : Placed (some tid) unlisted s) (present : s.tasks tid = some task)
    (alive : task.state ≠ .dead) (notIdle : tid ≠ idleTid) (known : ∀ l ∈ list, l.Known s) :
    Ensures Tolerated Guarded (setWaitTimeout s tid list timeout) := by
  unfold setWaitTimeout
  apply ((setWaitFor_ensures placed present alive notIdle known).and setWaitFor_keeps).bind
  rintro s₁ ⟨⟨placed₁, moved₁⟩, keeps₁⟩
  have guarded₁ := guarded.keeps keeps₁ placed placed₁
  have present₁ := moved₁.self
  have outside : tid ∉ s₁.timeoutQueue := by
    intro member
    obtain ⟨-, value, found, -, timed⟩ := (placed₁.mem_iff .timeout tid).mp member
    rw [present₁] at found
    cases found
    cases timed
  simp only [Sched.getTask_of present₁, bind, Except.bind, Ensures.ok_iff]
  split
  · rename_i later
    exact guarded₁.enter outside rfl rfl (Nat.le_refl timeout) (Nat.le_of_lt later) id
  · rename_i early
    exact guarded₁.enter outside rfl rfl (Nat.le_of_not_lt early) (Nat.le_refl _) id

theorem taskWaitLocked_guarded {list : Option WaitList} {timeout : Nat} (guarded : Guarded s)
    (settled : Settled s) (notIdle : s.current ≠ idleTid) (known : ∀ l ∈ list, l.Known s) :
    Ensures Tolerated Guarded (taskWaitLocked s list timeout) := by
  obtain ⟨task, present, runs⟩ := settled.2
  have loose := (settled.loosen present).1
  have alive : task.state ≠ .dead := by simp [runs]
  have waits : ∀ s₁, Guarded s₁ → Placed none none s₁ →
      Ensures Tolerated Guarded (scheduleFrom s₁ .inTaskWait) := by
    intro s₁ guarded₁ placed₁
    have ensured : Ensures Tolerated Settled (scheduleFrom s₁ .inTaskWait) :=
      scheduleFrom_ensures placed₁ nofun
    refine (ensured.and scheduleFrom_keeps).mono fun s₂ both => ?_
    exact guarded₁.keeps both.2 placed₁ both.1.1
  unfold taskWaitLocked
  split
  · apply ((setWaitFor_ensures loose present alive notIdle known).and setWaitFor_keeps).bind
    rintro s₁ ⟨⟨placed₁, -⟩, keeps₁⟩
    exact waits s₁ (guarded.keeps keeps₁ loose placed₁) placed₁
  · have entered : Ensures Tolerated Guarded (setWaitTimeout s s.current list timeout) :=
      setWaitTimeout_guarded guarded loose present alive notIdle known
    apply ((setWaitTimeout_ensures loose present alive notIdle known).and entered).bind
    rintro s₁ ⟨⟨placed₁, -⟩, guarded₁⟩
    exact waits s₁ guarded₁ placed₁

theorem taskWait_guarded {list : Option WaitList} {timeout : Nat} (guarded : Guarded s)
    (settled : Settled s) (notIdle : s.current ≠ idleTid) (known : ∀ l ∈ list, l.Known s) :
    Ensures Tolerated Guarded (taskWait s list timeout) := by
  unfold taskWait
  split
  · exact guarded
  · exact taskWaitLocked_guarded guarded settled notIdle known

theorem expire_keeps : Keeping s
    (resetWaitFor { s with timeoutQueue := s.timeoutQueue.erase tid } tid >>=
      fun s' => setReady s' tid) := by
  have removed : Keeps s { s with timeoutQueue := s.timeoutQueue.erase tid } :=
    { Keeps.refl with queue := List.erase_sublist }
  exact (resetWaitFor_keeps.seq fun _ => setReady_keeps).after removed

/-- `irqmsg_timeout` looks at the queue in the order of the deadlines, so the one it stops
at is the earliest left. -/
theorem irqmsgTimeoutLoop_guarded {nodes : List Nat} (placed : Placed none unlisted s)
    (all : s.timeoutQueue = nodes)
    (sorted : s.timeoutQueue.Pairwise fun a b => s.deadline a ≤ s.deadline b) :
    Ensures (fun _ => True) (fun s' =>
      (s'.timeoutQueue.Pairwise fun a b => s'.deadline a ≤ s'.deadline b) ∧
        ∀ tid ∈ s'.timeoutQueue, s'.soonestTimeout ≤ s'.deadline tid)
      (irqmsgTimeoutLoop nodes s) := by
  induction nodes generalizing s with
  | nil =>
      refine ⟨sorted, fun tid member => ?_⟩
      rw [all] at member
      exact absurd member List.not_mem_nil
  | cons tid rest inductionHypothesis =>
      unfold irqmsgTimeoutLoop
      have member : tid ∈ s.timeoutQueue := all ▸ List.mem_cons_self
      obtain ⟨-, task, present, waiting, -⟩ := (placed.mem_iff .timeout tid).mp member
      have own : s.deadline tid = task.waitTimeout := by simp only [Sched.deadline, present]
      simp only [Sched.getTask_of present, bind, Except.bind]
      split
      · refine ⟨sorted, fun other among => ?_⟩
        rw [all] at sorted
        change other ∈ s.timeoutQueue at among
        change task.waitTimeout ≤ s.deadline other
        rw [all] at among
        rcases List.mem_cons.mp among with rfl | later
        · exact Nat.le_of_eq own.symm
        · exact own ▸ (List.pairwise_cons.mp sorted).1 other later
      · rw [unlink_of_mem member]
        refine (?_ : Ensures _ _ (resetWaitFor _ tid >>= fun s' => setReady s' tid >>= _))
        rw [← bind_assoc]
        apply (expire_keeps.and (expire_ensures placed present waiting)).bind
        rintro s₁ ⟨keeps₁, placed₁, -, queue₁⟩
        have left : s₁.timeoutQueue = rest := by
          rw [queue₁, all, List.erase_cons_head]
        have recorded : Placed none unlisted (s₁.record (.expired tid)) := placed₁.record (by simp)
        refine inductionHypothesis recorded left ?_
        refine (sorted.sublist keeps₁.queue).imp_of_mem fun first second ordered => ?_
        rw [← keeps₁.deadline placed placed₁ first, ← keeps₁.deadline placed placed₁ second]
          at ordered
        exact ordered

theorem irqmsgTimeout_guarded (guarded : Guarded s) (placed : Placed none unlisted s) :
    Ensures (fun _ => True) (fun s' => Guarded s' ∧
      ∀ tid ∈ s'.timeoutQueue, s'.soonestTimeout ≤ s'.deadline tid) (irqmsgTimeout s) :=
  (irqmsgTimeoutLoop_guarded placed rfl guarded.sorted).mono
    fun _ both => ⟨⟨both.1, .inr both.2⟩, both.2⟩

end Guarded

section Asking

variable {s s' s'' : Sched} {tid : Nat} {list : WaitList}

/-- The messages and the cached deadline are those of before. -/
structure Silent (s s' : Sched) : Prop where
  messages : s'.msgQueue = s.msgQueue
  soonest : s'.soonestTimeout = s.soonestTimeout

theorem Silent.refl : Silent s s := ⟨rfl, rfl⟩

theorem Silent.trans (first : Silent s s') (second : Silent s' s'') : Silent s s'' where
  messages := second.messages.trans first.messages
  soonest := second.soonest.trans first.soonest

theorem setReady_silent : Ensures (fun _ => True) (Silent s) (setReady s tid) :=
  any_getTask fun _ _ => ⟨rfl, rfl⟩

theorem setRunning_silent : Ensures (fun _ => True) (Silent s) (setRunning s tid) :=
  any_getTask fun _ _ => ⟨rfl, rfl⟩

theorem resetTimeout_silent : Ensures (fun _ => True) (Silent s) (resetTimeout s tid) := by
  refine any_getTask fun task _ => ?_
  split
  · exact any_unlink ⟨rfl, rfl⟩
  · exact Silent.refl

theorem waitListWakeOne_silent :
    Ensures (fun _ => True) (fun woken => Silent s woken.1) (waitListWakeOne s list) := by
  unfold waitListWakeOne
  split
  · exact Silent.refl
  · rename_i tid rest _
    refine any_getTask fun task _ => ?_
    have taken : Silent s
        ((s.setWaitQueue list rest).setTask tid { task with waitFor := none }) := ⟨rfl, rfl⟩
    have readied (s₁ : Sched) (silent : Silent s s₁) :
        Ensures (fun _ => True) (fun woken => Silent s woken.1)
          (setReady s₁ tid >>= fun s₂ => .ok (s₂.record (.woken list tid), true)) :=
      setReady_silent.bind fun _ silent' => (silent.trans silent').trans ⟨rfl, rfl⟩
    dsimp only
    split
    · exact resetTimeout_silent.bind fun s₁ silent => readied s₁ (taken.trans silent)
    · exact readied _ taken

theorem eventSignal_silent : Ensures (fun _ => True) (Silent s) (eventSignal s) :=
  waitListWakeOne_silent.bind fun _ silent => silent.trans ⟨rfl, rfl⟩

theorem switchTo_silent : Ensures (fun _ => True) (Silent s) (switchTo s tid) := by
  refine any_getTask fun task _ => any_unlink ?_
  have popped : Silent s
      (s.setReadyQueue task.priority ((s.readyQueue task.priority).erase tid)) := ⟨rfl, rfl⟩
  exact setRunning_silent.bind fun _ silent => (popped.trans silent).trans ⟨rfl, rfl⟩

/-- A message asks for `irqmsg_timeout`, or the queue is full and `soonest_timeout` is left for
the next time. -/
def Asked (before after : Sched) : Prop :=
  .schedTimeout ∈ after.msgQueue ∨
    (before.msgQueue.length = irqQueueSize ∧ after.soonestTimeout = before.soonestTimeout)

theorem Asked.silent (asked : Asked s s') (silent : Silent s' s'') : Asked s s'' := by
  rcases asked with queued | ⟨full, soonest⟩
  · exact .inl (silent.messages.symm ▸ queued)
  · exact .inr ⟨full, silent.soonest.trans soonest⟩

theorem requestTimeout_asks (passed : s.soonestTimeout ≤ s.tick) :
    Ensures (fun _ => True) (Asked s) (requestTimeout s) := by
  unfold requestTimeout irqmsgPush
  rw [if_pos passed]
  split
  · rename_i full
    rw [bind_assoc]
    refine eventSignal_silent.bind fun s₁ silent => ?_
    exact .inr ⟨full, silent.soonest⟩
  · rw [bind_assoc]
    refine eventSignal_silent.bind fun s₁ silent => .inl ?_
    show .schedTimeout ∈ s₁.msgQueue
    rw [silent.messages]
    exact List.mem_append_right _ List.mem_cons_self

/-- Once a deadline has passed `schedule` asks for `irqmsg_timeout`. -/
theorem schedule_asks (passed : s.soonestTimeout ≤ s.tick) :
    Ensures (fun _ => True) (Asked s) (schedule s) := by
  unfold schedule
  refine (requestTimeout_asks passed).bind fun s₁ asked => ?_
  refine any_getTask fun current _ => ?_
  split
  · show Asked s (if _ then _ else _)
    split
    · exact asked
    · exact asked.silent ⟨rfl, rfl⟩
  · refine any_getTask fun next _ => ?_
    split
    · split
      · exact asked
      · refine setReady_silent.bind fun s₂ readied => ?_
        exact switchTo_silent.mono fun _ switched => asked.silent (readied.trans switched)
    · exact switchTo_silent.mono fun _ switched => asked.silent switched

end Asking

section System

variable {s : Sched}

theorem taskJoin_guarded {tid timeout : Nat} (guarded : Guarded s) (settled : Settled s)
    (notIdle : s.current ≠ idleTid) : Ensures Tolerated Guarded (taskJoin s tid timeout) := by
  unfold taskJoin
  apply ensures_kassert
  intro _
  apply ensures_getTask
  intro task present
  split
  · exact guarded
  · split
    · exact guarded
    · apply taskWait_guarded guarded settled notIdle
      intro list same
      cases same
      exact (settled.1.fresh _ _ present).1

theorem eventWait_guarded {timeout : Nat} (guarded : Guarded s) (settled : Settled s)
    (notIdle : s.current ≠ idleTid) : Ensures Tolerated Guarded (eventWait s timeout) := by
  unfold eventWait
  split
  · have reset : Keeps s { s with eventSignaled := false } := .of_eq rfl rfl rfl rfl rfl rfl
    exact guarded.keeps reset settled.1
      (settled.1.congr rfl rfl ⟨rfl, rfl, rfl, rfl, fun _ => id⟩ rfl)
  · apply taskWait_guarded guarded settled notIdle
    intro list same
    cases same
    trivial

theorem processJoin_guarded {pid timeout : Nat} (guarded : Guarded s) (settled : Settled s)
    (notIdle : s.current ≠ idleTid) : Ensures Tolerated Guarded (processJoin s pid timeout) := by
  unfold processJoin
  apply ensures_getProc
  intro proc present
  split
  · exact guarded
  · apply taskWait_guarded guarded settled notIdle
    intro list same
    cases same
    exact settled.1.procs _ _ present

/-- The timeout message is given up only once the queue has been looked at. -/
theorem handle_guarded {msg : IrqMsg} (guarded : Guarded s) (placed : Placed none none s)
    (pending : s.handling = some msg) :
    Ensures Tolerated Guarded
      (handle s msg >>= fun s' => .ok { s' with handling := none }) := by
  by_cases timeout : msg = .schedTimeout
  · subst timeout
    apply ((irqmsgTimeout_ensures placed).and (irqmsgTimeout_guarded guarded placed)).bind
    rintro s₁ ⟨-, guarded₁, watched₁⟩
    exact ⟨guarded₁.sorted, .inr watched₁⟩
  · have nothing : handle s msg = .ok s := by
      cases msg with
      | schedTimeout => exact absurd rfl timeout
      | _ => rfl
    rw [nothing]
    refine ⟨guarded.sorted, guarded.watched.imp_left fun notified => .inl ?_⟩
    refine notified.resolve_right fun same => timeout ?_
    rw [pending] at same
    exact Option.some.inj same

theorem exec_guarded {call : Call} (guarded : Guarded s) (settled : Settled s)
    (admitted : Admits s call) : Ensures Tolerated Guarded (exec s call) := by
  have ensured := exec_ensures settled admitted
  -- all calls but the waits and `irqmsg_timeout` are frames
  have keeping (keeps : Keeping s (exec s call)) : Ensures Tolerated Guarded (exec s call) :=
    (ensured.and keeps).mono fun _ both => guarded.keeps both.2 settled.1 both.1.1
  cases call with
  | taskCreate pid priority stack slab => exact keeping taskCreate_keeps
  | taskSuspend tid => exact keeping taskSuspend_keeps
  | taskResume tid => exact keeping taskResume_keeps
  | taskWait list timeout =>
      exact taskWait_guarded guarded settled admitted.1
        fun l member => (admitted.2 l member).known settled.1
  | taskWaitLocked list timeout =>
      exact taskWaitLocked_guarded guarded settled admitted.1
        fun l member => (admitted.2 l member).known settled.1
  | taskJoin tid timeout => exact taskJoin_guarded guarded settled admitted
  | taskTerminate tid => exact keeping taskTerminate_keeps
  | taskExit => exact keeping taskExit_keeps
  | taskRetain tid => exact keeping taskRetain_keeps
  | taskRelease tid => exact keeping taskRelease_keeps
  | waitListWakeOne list => exact keeping (waitListWakeOne_keeps.bind fun _ => id)
  | waitListWakeAll list => exact keeping waitListWakeAll_keeps
  | schedule => exact keeping scheduleFrom_keeps
  | isrTimer => exact keeping (scheduleFrom_keeps.after (.of_eq rfl rfl rfl rfl rfl rfl))
  | drainDead => exact keeping drainDead_keeps
  | irqmsgPush msg => exact keeping (irqmsgPush_keeps.bind fun _ both => both.1)
  | irqmsgPop => exact keeping (irqmsgPop_keeps admitted)
  | irqmsgHandle =>
      cases pending : s.handling with
      | none =>
          simp only [exec, pending]
          exact guarded
      | some msg =>
          simp only [exec, pending]
          exact handle_guarded guarded settled.1 pending
  | irqmsgTimeout =>
      exact ((irqmsgTimeout_ensures settled.1).and (irqmsgTimeout_guarded guarded settled.1)).mono
        fun _ both => both.2.1
  | eventWait timeout => exact eventWait_guarded guarded settled admitted
  | processCreate allocated =>
      cases allocated with
      | true => exact keeping processInit_keeps
      | false => exact guarded
  | processRetain pid => exact keeping processRetain_keeps
  | processRelease pid => exact keeping processRelease_keeps
  | processJoin pid timeout => exact processJoin_guarded guarded settled admitted

/-- In every state that calls of any tasks in any order reach, no deadline is earlier than
`soonest_timeout` unless a message that makes `irqmsg_timeout` run is queued, or popped and
about to be handled; and at a tick that has come to `soonest_timeout` `schedule` queues the
message, or keeps `soonest_timeout` where the queue is full. -/
theorem run_timeouts_watched {init s : Sched} (started : schedInit = .ok init)
    (reached : Reaches exec Admits init s) :
    ((∀ tid ∈ s.timeoutQueue, ∃ task, s.tasks tid = some task ∧ task.state = .waiting ∧
        s.soonestTimeout ≤ task.waitTimeout) ∨
      .schedTimeout ∈ s.msgQueue ∨ s.handling = some .schedTimeout) ∧
    ∀ tick after, s.soonestTimeout ≤ tick → schedule { s with tick := tick } = .ok after →
      .schedTimeout ∈ after.msgQueue ∨
        (s.msgQueue.length = irqQueueSize ∧ after.soonestTimeout = s.soonestTimeout) := by
  refine ⟨?_, fun tick after passed returned => ?_⟩
  rotate_left
  · have asked := @schedule_asks { s with tick := tick } passed
    exact asked.of_ok returned
  cases started.symm.trans schedInit_eq
  have both : Settled s ∧ Guarded s := by
    induction reached with
    | start => exact ⟨booted_settled, List.Pairwise.nil, .inr nofun⟩
    | step _ admitted returned both =>
        have ensured := exec_ensures both.1 admitted
        exact (ensured.and (exec_guarded both.2 both.1 admitted)).of_ok returned
  rcases both.2.watched with notified | watched
  · exact .inr notified
  · refine .inl fun tid member => ?_
    obtain ⟨-, task, present, waiting, -⟩ := (both.1.1.mem_iff .timeout tid).mp member
    have soon := watched tid member
    simp only [Sched.deadline, present] at soon
    exact ⟨task, present, waiting, soon⟩

theorem returned_of_toOption {α : Type} {run : Run α} {value : α}
    (returns : run.toOption = some value) : run = .ok value := by
  cases run with
  | error stop => cases returns
  | ok result =>
      cases returns
      rfl

/-- A worker waits for a deadline that the next tick passes. -/
def missedDeadline : List Call :=
  [.taskCreate 0 .high true true, .taskResume 2, .taskWait (some (.object 0)) uintptrMax,
    .taskWait (some (.object 1)) 1]

theorem run_timeouts_watched_missedDeadline : ∃ init s after, schedInit = .ok init ∧
    runFrom exec Admits init missedDeadline = some s ∧
    schedule { s with tick := 1 } = .ok after ∧
    ((∀ tid ∈ s.timeoutQueue, ∃ task, s.tasks tid = some task ∧ task.state = .waiting ∧
        s.soonestTimeout ≤ task.waitTimeout) ∨
      .schedTimeout ∈ s.msgQueue ∨ s.handling = some .schedTimeout) ∧
    .schedTimeout ∈ after.msgQueue := by
  have runs : (runFrom exec Admits booted missedDeadline).any (fun s =>
      s.soonestTimeout = 1 ∧ s.msgQueue = [] ∧
        (schedule { s with tick := 1 }).toOption.isSome) = true := by decide +kernel
  obtain ⟨s, ran, holds⟩ := (Option.any_eq_true _ _).mp runs
  obtain ⟨soonest, empty, returns⟩ := of_decide_eq_true holds
  obtain ⟨after, returned⟩ := Option.isSome_iff_exists.mp returns
  have returned := returned_of_toOption returned
  obtain ⟨watched, asked⟩ := run_timeouts_watched schedInit_eq (Reaches.start.of_runFrom ran)
  refine ⟨booted, s, after, schedInit_eq, ran, returned, watched, ?_⟩
  refine (asked 1 after (Nat.le_of_eq soonest) returned).resolve_right fun full => ?_
  rw [empty] at full
  cases full.1

end System

end Opal.Scheduler
