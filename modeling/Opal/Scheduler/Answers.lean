import Opal.Scheduler.Endings

/-!
# `task_wait` tells a wake from a timeout

One lemma for each operation: it leaves every task able to tell how its wait ended.  Two
calls do so only under a condition, `Undisturbed`: `task_suspend` resets `has_timeout`,
which a task that timed out has not read yet, and `task_resume` cannot tell a suspended
task from one that waits on nothing without a deadline.
-/

namespace Opal.Scheduler

section Waking

variable {unlisted : Option Nat} {s : Sched} {tid : Nat}

/-- The computation leaves every task able to tell how its wait ended, if it returns. -/
abbrev Marking (run : Run Sched) : Prop := Ensures (fun _ => True) (Marks none) run

theorem tight_self : ∀ other ≠ tid, some tid ≠ some other := fun _ => ne_some_of_ne

theorem tight_none : ∀ other ≠ tid, none ≠ some other := fun _ _ => nofun

theorem waitListWakeOne_marks {list : WaitList} (placed : Placed none unlisted s)
    (marks : Marks none s) :
    Ensures (fun _ => True) (fun woken => Marks none woken.1) (waitListWakeOne s list) := by
  unfold waitListWakeOne
  cases queue : s.waitQueue list with
  | nil => exact marks
  | cons tid rest =>
      have member : tid ∈ s.container (.wait list) := by simp [Sched.container, queue]
      obtain ⟨-, task, present, waiting, waits⟩ := (placed.mem_iff _ _).mp member
      obtain ⟨pending, inside⟩ :=
        (marks.told tid task present (by simp)).of_waiting waiting (.inl (by simp [waits]))
      have known := (placed.fresh tid task present).1
      have taken : Edits s ((s.setWaitQueue list rest).setTask tid { task with waitFor := none })
          tid { task with waitFor := none } := ⟨⟨rfl, rfl⟩, rfl, .refl⟩
      have woken : ∀ s₁, Edits s s₁ tid { task with waitFor := none, hasTimeout := false } →
          Ensures (fun _ => True) (fun woken => Marks none woken.1)
            (setReady s₁ tid >>= fun s₂ => .ok (s₂.record (.woken list tid), true)) := by
        intro s₁ edits₁
        apply (setReady_edits edits₁.self).bind
        intro s₂ edits₂
        have edits := edits₁.trans edits₂
        have ends : endsOf tid s₂.trace = [] := (edits.ends.ends tid).trans pending
        apply (marks.edit_loose tight_none edits).conclude (.woken list tid) true
          (edits.tidNext ▸ known) (if_pos rfl) (fun other differs => if_neg differs.symm) (by simp)
          edits.self ends
        exact .ended inside rfl rfl (.inl rfl)
      have found : (s.setWaitQueue list rest).getTask tid = .ok task := Sched.getTask_of present
      simp only [found, bind, Except.bind]
      split
      · apply (resetTimeout_edits taken.self).bind
        intro s₁ edits₁
        exact woken s₁ (taken.trans edits₁)
      · rename_i timed
        have untimed : task.hasTimeout = false := by simpa using timed
        have same : ({ task with waitFor := none, hasTimeout := false } : Task) =
            { task with waitFor := none } := by rw [untimed]
        refine woken _ ?_
        rw [same]
        exact taken

theorem wakeAllLoop_marks {list : WaitList} (fuel : Nat) (placed : Placed none unlisted s)
    (marks : Marks none s) : Marking (wakeAllLoop list fuel s) := by
  induction fuel generalizing s with
  | zero => exact marks
  | succ fuel inductionHypothesis =>
      unfold wakeAllLoop
      split
      · exact marks
      · apply ((waitListWakeOne_marks placed marks).and (waitListWakeOne_ensures placed)).bind
        rintro ⟨s₁, waken⟩ ⟨marks₁, placed₁, -⟩
        exact inductionHypothesis placed₁ marks₁

theorem waitListWakeAll_marks {list : WaitList} (placed : Placed none unlisted s)
    (marks : Marks none s) : Marking (waitListWakeAll s list) := wakeAllLoop_marks _ placed marks

theorem eventSignal_marks (placed : Placed none unlisted s) (marks : Marks none s) :
    Marking (eventSignal s) := by
  unfold eventSignal
  apply (waitListWakeOne_marks placed marks).bind
  rintro ⟨s₁, waken⟩ marks₁
  exact marks₁.congr rfl rfl .refl

theorem irqmsgPush_marks {msg : IrqMsg} (placed : Placed none unlisted s)
    (marks : Marks none s) :
    Ensures (fun _ => True) (fun pushed => Marks none pushed.1) (irqmsgPush s msg) := by
  unfold irqmsgPush
  split
  · refine Ensures.bind (@eventSignal_marks unlisted _ ?_ ?_) fun _ => id
    · exact placed.congr rfl rfl ⟨rfl, rfl, rfl, rfl, fun _ => id⟩ rfl
    · exact marks.congr rfl rfl .refl
  · refine Ensures.bind (@eventSignal_marks unlisted _ ?_ ?_) fun _ => id
    · exact placed.congr rfl rfl ⟨rfl, rfl, rfl, rfl, fun _ => id⟩ rfl
    · exact marks.congr rfl rfl .refl

/-- A task whose deadline passes keeps its flag, which is the answer. -/
theorem expire_edits {task : Task} (present : s.tasks tid = some task) :
    Editing s tid { task with waitFor := none, state := .ready }
      (resetWaitFor { s with timeoutQueue := s.timeoutQueue.erase tid } tid >>=
        fun s' => setReady s' tid) := by
  have present' : ({ s with timeoutQueue := s.timeoutQueue.erase tid } : Sched).tasks tid =
      some task := present
  apply (resetWaitFor_edits present').bind
  intro s₁ edits₁
  refine (setReady_edits edits₁.self).mono fun s₂ edits₂ => ?_
  exact (edits₁.trans edits₂).before rfl rfl rfl rfl

theorem irqmsgTimeoutLoop_marks {nodes : List Nat} (placed : Placed none unlisted s)
    (queued : ∀ tid ∈ nodes, tid ∈ s.timeoutQueue) (nodup : nodes.Nodup) (marks : Marks none s) :
    Marking (irqmsgTimeoutLoop nodes s) := by
  induction nodes generalizing s with
  | nil => exact marks
  | cons tid rest inductionHypothesis =>
      unfold irqmsgTimeoutLoop
      have member : tid ∈ s.timeoutQueue := queued tid List.mem_cons_self
      obtain ⟨-, task, present, waiting, timed⟩ := (placed.mem_iff .timeout tid).mp member
      obtain ⟨pending, inside⟩ :=
        (marks.told tid task present (by simp)).of_waiting waiting (.inr timed)
      have known := (placed.fresh tid task present).1
      obtain ⟨later, nodup'⟩ := List.nodup_cons.mp nodup
      simp only [Sched.getTask_of present, bind, Except.bind]
      split
      · exact marks.congr rfl rfl .refl
      · rw [unlink_of_mem member]
        refine (?_ : Ensures _ _ (resetWaitFor _ tid >>= fun s' => setReady s' tid >>= _))
        rw [← bind_assoc]
        apply ((expire_edits present).and (expire_ensures placed present waiting)).bind
        rintro s₁ ⟨edits, placed₁, -, timeoutQueue₁⟩
        have queued₁ : ∀ other ∈ rest, other ∈ (s₁.record (.expired tid)).timeoutQueue := by
          intro other inRest
          have differs : other ≠ tid := fun same => later (same ▸ inRest)
          refine timeoutQueue₁ ▸ (List.mem_erase_of_ne differs).mpr ?_
          exact queued other (List.mem_cons_of_mem _ inRest)
        have recorded : Placed none unlisted (s₁.record (.expired tid)) := placed₁.record (by simp)
        refine inductionHypothesis recorded queued₁ nodup' ?_
        have ends : endsOf tid s₁.trace = [] := (edits.ends.ends tid).trans pending
        apply (marks.edit_loose tight_none edits).conclude (.expired tid) false
          (edits.tidNext ▸ known) (if_pos rfl) (fun other differs => if_neg differs.symm) (by simp)
          edits.self ends
        exact .ended inside rfl timed (.inl rfl)

theorem irqmsgTimeout_marks (placed : Placed none unlisted s) (marks : Marks none s) :
    Marking (irqmsgTimeout s) :=
  irqmsgTimeoutLoop_marks placed (fun _ => id) (placed.nodup .timeout) marks

end Waking

section Switching

variable {unlisted : Option Nat} {s : Sched} {tid : Nat} {task : Task}

/-- The state after the context switch: the task switched in may still have to tell how its
wait ended, as it could when it was ready. -/
structure Resumable (s : Sched) : Prop where
  others : Marks (some s.current) s
  current : ∀ task, s.tasks s.current = some task → task.state = .running →
    Told { task with state := .ready } (endsOf s.current s.trace)

theorem Marks.resumable (marks : Marks none s) : Resumable s :=
  ⟨marks.loosen, fun task present runs => (marks.told _ task present nofun).ready runs⟩

theorem requestTimeout_marks (placed : Placed none unlisted s) (marks : Marks none s) :
    Marking (requestTimeout s) := by
  unfold requestTimeout
  split
  · apply (irqmsgPush_marks placed marks).bind
    rintro ⟨s₁, pushed⟩ marks₁
    cases pushed with
    | true => exact marks₁.congr rfl rfl .refl
    | false => exact marks₁
  · exact marks

theorem switchTo_resumable (marks : Marks none s) (present : s.tasks tid = some task)
    (ready : task.state = .ready) : Ensures (fun _ => True) Resumable (switchTo s tid) := by
  unfold switchTo
  simp only [Sched.getTask_of present, ok_bind]
  apply any_unlink
  have present' : (s.setReadyQueue task.priority
      ((s.readyQueue task.priority).erase tid)).tasks tid = some task := present
  apply (setRunning_edits present').bind
  intro s₁ edits₁
  have edits : Edits s s₁ tid { task with state := .running } :=
    edits₁.before rfl rfl rfl rfl
  have switched := sameEnds_switched s₁.current tid s₁.trace
  refine ⟨(marks.edit_loose tight_none edits).congr rfl rfl switched, ?_⟩
  intro value found _
  cases edits.self.symm.trans found
  have told : Told task (endsOf tid s₁.trace) :=
    edits.ends.ends tid ▸ marks.told tid task present nofun
  exact told.congr rfl rfl rfl ready.symm

theorem schedule_resumable (placed : Placed none unlisted s) (marks : Marks none s) :
    Ensures (fun _ => True) Resumable (schedule s) := by
  unfold schedule
  apply ((requestTimeout_marks placed marks).and (requestTimeout_ensures placed)).bind
  rintro s₁ ⟨marks₁, placed₁, -⟩
  apply any_getTask
  intro current present
  cases top : readyQueueTop s₁ with
  | none =>
      dsimp only
      split
      · exact marks₁.resumable
      · have stalled := sameEnds_stalled s₁.current s₁.trace
        exact Marks.resumable (marks₁.congr rfl rfl stalled)
  | some next =>
      obtain ⟨nextTask, found, ready⟩ := placed₁.of_readyQueueTop top
      simp only [Sched.getTask_of found, ok_bind]
      split
      · rename_i runs
        split
        · exact marks₁.resumable
        · have told := marks₁.told _ current present nofun
          apply (setReady_edits present).bind
          intro s₂ edits₂
          have differs : next ≠ s₁.current := by
            rintro rfl
            cases present.symm.trans found
            exact absurd ready (by simp [runs])
          have marks₂ := marks₁.edit tight_none edits₂ (told.ready runs)
          exact switchTo_resumable marks₂ ((edits₂.of_ne differs).trans found) ready
      · exact switchTo_resumable marks₁ found ready

/-- `task_wait` returns how the wait ended. -/
theorem resume_marks (runs : CurrentRuns s) (resumable : Resumable s) : Marking (resume s) := by
  obtain ⟨task, present, running⟩ := runs
  have told := resumable.current task present running
  unfold resume
  simp only [Sched.getTask_of present, ok_bind]
  cases ctx : task.ctx with
  | returns =>
      refine resumable.others.tighten fun value found => ?_
      cases present.symm.trans found
      generalize endsOf s.current s.trace = answers at told
      cases told with
      | outside apart free untimed => exact .outside apart free untimed
      | pending inside _ => simp [ctx] at inside
      | ended inside _ _ _ => simp [ctx] at inside
  | inTaskExit => trivial
  | inTaskWait =>
      generalize ends : endsOf s.current s.trace = answers at told
      cases told with
      | outside apart _ _ => exact absurd ctx apart
      | pending _ parked => simp at parked
      | @ended ok _ free flag _ =>
          have returned : endsOf s.current
              (.waitReturned s.current (!task.hasTimeout) :: s.trace) = [] := if_pos rfl
          have others : ∀ other ≠ s.current,
              endsOf other (.waitReturned s.current (!task.hasTimeout) :: s.trace) =
                endsOf other s.trace := fun other differs => if_neg differs.symm
          have edits : Edits s
              (s.setTask s.current { task with hasTimeout := false, ctx := .returns }) s.current
              { task with hasTimeout := false, ctx := .returns } := edits_setTask
          have marks := resumable.others.edit_loose tight_self edits
          refine @Marks.tighten _ s.current ⟨?_, ?_, ?_⟩ ?_
          · intro other value found differs
            have apart : other ≠ s.current := fun same => differs (congrArg some same.symm)
            exact others other apart ▸ marks.told other value found differs
          · intro other later
            by_cases own : other = s.current
            · exact own ▸ returned
            · exact (others other own).trans (marks.fresh other later)
          · refine resumable.others.truthful.cons fun other answer same => ?_
            cases same
            have answered : task.hasTimeout = !ok := flag
            rw [answered, Bool.not_not]
            exact ends
          · intro value found
            cases (Function.update_self ..).symm.trans found
            exact returned ▸ .outside nofun free rfl

/-- The current task may tell nothing of a wait yet when it calls `schedule`. -/
theorem scheduleFrom_marks {ctx : Context} (placed : Placed none none s)
    (context : ctx = .inTaskExit → ∀ task, s.tasks s.current = some task → task.state = .dead)
    (marks : Marks (some s.current) s)
    (told : ∀ task, s.tasks s.current = some task →
      Told { task with ctx := ctx } (endsOf s.current s.trace)) : Marking (scheduleFrom s ctx) := by
  unfold scheduleFrom
  apply any_getTask
  intro task present
  have adjusted : Placed none none (s.setTask s.current { task with ctx := ctx }) := by
    refine placed.adjust present rfl ?_ rfl fun exits => context exits task present
    intro c
    cases c <;> rfl
  have marks' := marks.edit tight_self edits_setTask (told task present)
  apply ((schedule_resumable adjusted marks').and (schedule_ensures adjusted)).bind
  rintro s₁ ⟨resumable, -, runs⟩
  exact resume_marks runs resumable

end Switching

section Processes

variable {unlisted : Option Nat} {s s' : Sched} {pid tid : Nat} {task : Task}

/-- No task changes, and nothing is recorded. -/
structure Untouched (s s' : Sched) : Prop where
  tasks : s'.tasks = s.tasks
  tidNext : s'.tidNext = s.tidNext
  trace : s'.trace = s.trace

theorem Marks.untouched {loose : Option Nat} (marks : Marks loose s)
    (untouched : Untouched s s') : Marks loose s' :=
  marks.congr untouched.tasks untouched.tidNext (untouched.trace ▸ .refl)

theorem processInit_untouched : Ensures (fun _ => True) (Untouched s) (processInit s) :=
  any_kassert fun _ => ⟨rfl, rfl, rfl⟩

theorem processRetain_untouched : Ensures (fun _ => True) (Untouched s) (processRetain s pid) :=
  any_getProc fun _ _ => any_kassert fun _ => ⟨rfl, rfl, rfl⟩

theorem processRelease_untouched : Ensures (fun _ => True) (Untouched s)
    (processRelease s pid) := by
  refine any_getProc fun proc _ => any_kassert fun _ => ?_
  dsimp only
  split
  · refine any_getProc fun value _ => ?_
    split
    · exact ⟨rfl, rfl, rfl⟩
    · trivial
  · exact ⟨rfl, rfl, rfl⟩

theorem completionSignal_marks (placed : Placed none unlisted s) (marks : Marks none s) :
    Marking (completionSignal s pid) := by
  unfold completionSignal
  apply any_getProc
  intro proc present
  have signaled : Placed none unlisted (s.setProc pid { proc with exitSignaled := true }) :=
    placed.setProc present (fun _ member _ => member) (fun _ => id)
  exact waitListWakeAll_marks signaled (marks.untouched ⟨rfl, rfl, rfl⟩)

end Processes

section Lifetime

variable {s s' : Sched} {pid tid : Nat} {task task' : Task}

/-- The new task has the next id, about which nothing has been recorded. -/
theorem Marks.create (marks : Marks none s)
    (tasks : s'.tasks = Function.update s.tasks s.tidNext (some task))
    (tidNext : s'.tidNext = s.tidNext + 1) (trace : s'.trace = s.trace)
    (told : Told task []) : Marks none s' where
  told := by
    intro other value found _
    rw [trace]
    by_cases own : other = s.tidNext
    · subst own
      rw [tasks, Function.update_self] at found
      cases found
      exact marks.fresh s.tidNext le_rfl ▸ told
    · rw [tasks, Function.update_of_ne own] at found
      exact marks.told other value found nofun
  fresh := by
    intro other later
    rw [trace]
    exact marks.fresh other (Nat.le_of_succ_le (le_of_eq_of_le tidNext.symm later))
  truthful := trace ▸ marks.truthful

theorem taskInit_marks (marks : Marks none s) :
    Ensures (fun _ => True) (fun s' => Marks none s' ∧
      ∃ task, s'.tasks s.tidNext = some task ∧ task.ctx = .returns) (taskInit s pid) := by
  unfold taskInit
  apply any_kassert
  intro _
  apply processRetain_untouched.bind
  intro s₁ untouched
  apply any_getProc
  intro proc _
  have tasks (task : Task) : Function.update s₁.tasks s.tidNext (some task) =
      Function.update s.tasks s.tidNext (some task) := by rw [untouched.tasks]
  refine ⟨marks.create (tasks _) rfl untouched.trace ?_, _, Function.update_self .., rfl⟩
  exact .outside nofun rfl rfl

theorem taskFreeStack_marks (marks : Marks none s) : Marking (taskFreeStack s tid) := by
  unfold taskFreeStack
  apply any_getTask
  intro task present
  exact marks.setTask present rfl rfl rfl rfl

theorem taskCreate_marks {priority : Priority} {stack slab : Bool} (marks : Marks none s) :
    Marking (taskCreate s pid priority stack slab) := by
  unfold taskCreate
  split
  · apply any_getProc
    intro proc _
    split
    · exact marks
    · split
      · apply (taskInit_marks marks).bind
        rintro s₁ ⟨marks₁, task, present, returns⟩
        simp only [Sched.getTask_of present, ok_bind]
        have marks₂ : Marks none (s₁.setTask s.tidNext { task with priority := priority }) :=
          marks₁.setTask present rfl rfl rfl rfl
        have present₂ : (s₁.setTask s.tidNext { task with priority := priority }).tasks s.tidNext =
            some { task with priority := priority } := Function.update_self ..
        have apart : task.ctx ≠ .inTaskWait := by simp [returns]
        apply (setWaitFor_edits present₂).bind
        intro s₃ edits₃
        have marks₃ : Marks none s₃ :=
          marks₂.edit tight_none edits₃ ((marks₂.told _ _ present₂ nofun).aside apart apart rfl rfl)
        simp only [Sched.getTask_of edits₃.self, ok_bind]
        exact marks₃.setTask edits₃.self rfl rfl rfl rfl
      · exact marks
  · exact marks

theorem Marks.remove (marks : Marks none s) :
    Marks none { s with tasks := Function.update s.tasks tid none } where
  told := by
    intro other value found tight
    have differs : other ≠ tid := by
      rintro rfl
      cases (Function.update_self ..).symm.trans found
    exact marks.told other value ((Function.update_of_ne differs ..).symm.trans found) tight
  fresh := marks.fresh
  truthful := marks.truthful

theorem releaseAndRemove_marks (marks : Marks none s) :
    Marking (processRelease s pid >>= fun s' =>
      .ok { s' with tasks := Function.update s'.tasks tid none }) := by
  apply processRelease_untouched.bind
  intro s₁ untouched
  exact (marks.untouched untouched).remove

theorem taskFree_marks (settled : Settled s) (marks : Marks none s) :
    Marking (taskFree s tid) := by
  unfold taskFree
  apply ((taskFreeStack_marks marks).and (taskFreeStack_ensures settled)).bind
  rintro s₁ ⟨marks₁, ⟨placed₁, -⟩, -⟩
  apply any_getTask
  intro task₁ present₁
  apply any_getProc
  intro proc procPresent
  apply any_unlink
  have unlisted : Placed none (some tid) (s₁.setProc task₁.process
      { proc with taskList := proc.taskList.erase tid }) := by
    refine placed₁.setProc procPresent ?_ (by simp)
    intro other member differs
    exact (List.mem_erase_of_ne fun same => differs (congrArg some same.symm)).mpr member
  have marks₂ : Marks none (s₁.setProc task₁.process
      { proc with taskList := proc.taskList.erase tid }) := marks₁.untouched ⟨rfl, rfl, rfl⟩
  refine (?_ : Ensures _ _ (if proc.taskList.erase tid = [] then _ else _))
  split
  · apply (completionSignal_marks unlisted marks₂).bind
    intro s₂ marks₃
    exact releaseAndRemove_marks marks₃
  · exact releaseAndRemove_marks marks₂

theorem taskRelease_marks (settled : Settled s) (marks : Marks none s) :
    Marking (taskRelease s tid) := by
  unfold taskRelease
  apply any_getTask
  intro task present
  apply any_kassert
  intro _
  have settled' : Settled (s.setTask tid { task with refcount := task.refcount - 1 }) :=
    settled.adjust present rfl (fun c => by cases c <;> rfl) rfl rfl
  have marks' : Marks none (s.setTask tid { task with refcount := task.refcount - 1 }) :=
    marks.setTask present rfl rfl rfl rfl
  dsimp only
  split
  · exact taskFree_marks settled' marks'
  · exact marks'

theorem taskRetain_marks (marks : Marks none s) : Marking (taskRetain s tid) := by
  unfold taskRetain
  apply any_getTask
  intro task present
  apply any_kassert
  intro _
  exact marks.setTask present rfl rfl rfl rfl

/-- A task dies with the ends it could tell, which nobody reads. -/
theorem taskBeforeDying_marks (loose : Placed (some tid) none s)
    (present : s.tasks tid = some task) (notIdle : tid ≠ idleTid) (marks : Marks (some tid) s)
    (told : Told task (endsOf tid s.trace)) :
    Ensures (fun _ => True) (fun s' => Marks none s' ∧
      s'.tasks tid = some { task with state := .dead }) (taskBeforeDying s tid) := by
  unfold taskBeforeDying
  apply ((setDead_edits present).and (setDead_ensures loose present notIdle)).bind
  rintro s₁ ⟨edits₁, placed₁, moved₁⟩
  have marks₁ := marks.edit tight_self edits₁ told.die
  refine ((waitListWakeAll_marks placed₁ marks₁).and (waitListWakeAll_ensures placed₁)).mono ?_
  rintro s₂ ⟨marks₂, -, wakes₂, -⟩
  exact ⟨marks₂, wakes₂.tasks tid _ moved₁.self (by simp)⟩

/-- The end of `task_terminate`, once the task is in no container. -/
theorem die_marks (loose : Placed (some tid) none s) (present : s.tasks tid = some task)
    (notIdle : tid ≠ idleTid) (differs : s.current ≠ tid) (runs : CurrentRuns s)
    (marks : Marks (some tid) s) (told : Told task (endsOf tid s.trace)) :
    Marking (taskBeforeDying s tid >>= fun s' =>
      taskFreeStack s' tid >>= fun s'' => taskRelease s'' tid) := by
  apply ((taskBeforeDying_marks loose present notIdle marks told).and
    (taskBeforeDying_ensures loose present notIdle)).bind
  rintro s₁ ⟨⟨marks₁, -⟩, placed₁, -, -, keeps₁⟩
  apply ((taskFreeStack_marks marks₁).and
    (taskFreeStack_ensures ⟨placed₁, keeps₁ differs runs⟩)).bind
  rintro s₂ ⟨marks₂, settled₂, -⟩
  exact taskRelease_marks settled₂ marks₂

theorem taskTerminate_marks (settled : Settled s) (notIdle : tid ≠ idleTid)
    (marks : Marks none s) : Marking (taskTerminate s tid) := by
  unfold taskTerminate
  apply any_getTask
  intro task present
  have told := marks.told tid task present nofun
  have differs (stopped : task.state ≠ .running) : s.current ≠ tid := by
    rintro rfl
    exact stopped (settled.loosen present).2
  cases state : task.state with
  | dead => trivial
  | running => trivial
  | ready =>
      have apart := differs (by simp [state])
      apply ((resetReady_edits present).and (resetReady_ensures settled.1 present state)).bind
      rintro s₁ ⟨edits₁, loose₁, moved₁⟩
      exact die_marks loose₁ moved₁.self notIdle (moved₁.current ▸ apart)
        (moved₁.currentRuns settled.2 apart) (marks.edit_loose tight_none edits₁)
        (edits₁.ends.ends tid ▸ told)
  | waiting =>
      apply ((resetTimeout_edits present).and
        (resetTimeout_ensures settled.1 present state)).bind
      rintro s₁ ⟨edits₁, placed₁, moved₁, -⟩
      apply ((resetWaitFor_edits moved₁.self).and
        (resetWaitFor_ensures placed₁ moved₁.self state)).bind
      rintro s₂ ⟨edits₂, placed₂, moved₂, -⟩
      have wakes := (moved₁.wakes present state).trans (moved₂.wakes moved₁.self state)
      have loose₂ := placed₂.loosen moved₂.self fun c => by
        cases c <;> simp [Task.Belongs, state]
      have edits := edits₁.trans edits₂
      exact die_marks loose₂ moved₂.self notIdle
        (wakes.current ▸ differs (by simp [state])) (wakes.currentRuns settled.2)
        (marks.edit_loose tight_none edits) (edits.ends.ends tid ▸ told.cancel state)

theorem taskExit_marks (settled : Settled s) (notIdle : s.current ≠ idleTid)
    (marks : Marks none s) : Marking (taskExit s) := by
  obtain ⟨task, present, runs⟩ := settled.2
  have loose := (settled.loosen present).1
  have told := marks.told _ task present nofun
  unfold taskExit taskRetain
  apply ((taskBeforeDying_marks loose present notIdle marks.loosen told).and
    (taskBeforeDying_ensures loose present notIdle)).bind
  rintro s₁ ⟨⟨marks₁, present₁⟩, placed₁, current₁, -⟩
  rw [bind_assoc]
  apply any_getTask
  intro value found
  cases present₁.symm.trans found
  rw [bind_assoc]
  apply any_kassert
  intro _
  obtain ⟨-, apart, free, untimed⟩ := told.of_running runs
  have own : Function.update s₁.tasks s.current
      (some { task with state := .dead, refcount := task.refcount + 1 }) s₁.current =
      some { task with state := .dead, refcount := task.refcount + 1 } := by
    rw [current₁, Function.update_self]
  have marks₂ : Marks none
      (s₁.setTask s.current { task with state := .dead, refcount := task.refcount + 1 }) :=
    marks₁.setTask present₁ rfl rfl rfl rfl
  refine scheduleFrom_marks (placed₁.bury present₁ rfl) ?_ (marks₂.loosen.congr rfl rfl .refl) ?_
  · rintro - value found
    cases own.symm.trans found
    rfl
  · intro value found
    cases own.symm.trans found
    have told₁ : Told { task with state := .dead } (endsOf s₁.current s₁.trace) :=
      current₁.symm ▸ marks₁.told _ _ present₁ nofun
    exact told₁.aside apart nofun free untimed

theorem drainDead_marks (settled : Settled s) (marks : Marks none s) :
    Marking (drainDead s) := by
  unfold drainDead
  cases queue : s.deadList with
  | nil => exact marks
  | cons tid rest =>
      refine taskRelease_marks ⟨settled.1.setDeadList ?_, settled.2⟩ (marks.congr rfl rfl .refl)
      intro other member
      exact settled.1.dead other (queue ▸ List.mem_cons_of_mem _ member)

end Lifetime

section Waits

variable {s s' : Sched} {tid : Nat} {task task' : Task}

/-- The current task goes to `schedule` from a new value of its own. -/
theorem scheduleFrom_edited {ctx : Context} (marks : Marks none s) (placed : Placed none none s')
    (edits : Edits s s' s.current task') (context : ctx ≠ .inTaskExit)
    (told : Told { task' with ctx := ctx } (endsOf s.current s.trace)) :
    Marking (scheduleFrom s' ctx) := by
  have loose := marks.edit_loose tight_none edits
  rw [← edits.current] at loose
  refine scheduleFrom_marks placed (fun exits => absurd exits context) loose ?_
  intro value found
  have own := edits.self
  rw [← edits.current] at own told
  cases own.symm.trans found
  rw [edits.ends.ends]
  exact told

theorem taskWaitLocked_marks {list : Option WaitList} {timeout : Nat} (settled : Settled s)
    (notIdle : s.current ≠ idleTid) (known : ∀ l ∈ list, l.Known s) (marks : Marks none s) :
    Marking (taskWaitLocked s list timeout) := by
  obtain ⟨task, present, runs⟩ := settled.2
  have loose := (settled.loosen present).1
  have alive : task.state ≠ .dead := by simp [runs]
  obtain ⟨none, -⟩ := (marks.told _ task present nofun).of_running runs
  unfold taskWaitLocked
  split
  · apply ((setWaitFor_edits present).and
      (setWaitFor_ensures loose present alive notIdle known)).bind
    rintro s₁ ⟨edits₁, placed₁, -⟩
    exact scheduleFrom_edited marks placed₁ edits₁ nofun (none ▸ .pending rfl (.inl rfl))
  · apply ((setWaitTimeout_edits present).and
      (setWaitTimeout_ensures loose present alive notIdle known)).bind
    rintro s₁ ⟨edits₁, placed₁, -⟩
    exact scheduleFrom_edited marks placed₁ edits₁ nofun (none ▸ .pending rfl (.inl rfl))

theorem taskWait_marks {list : Option WaitList} {timeout : Nat} (settled : Settled s)
    (notIdle : s.current ≠ idleTid) (known : ∀ l ∈ list, l.Known s) (marks : Marks none s) :
    Marking (taskWait s list timeout) := by
  unfold taskWait
  split
  · exact marks
  · exact taskWaitLocked_marks settled notIdle known marks

theorem taskJoin_marks {timeout : Nat} (settled : Settled s) (notIdle : s.current ≠ idleTid)
    (marks : Marks none s) : Marking (taskJoin s tid timeout) := by
  unfold taskJoin
  apply any_kassert
  intro _
  apply any_getTask
  intro task present
  split
  · exact marks
  · split
    · exact marks
    · refine taskWait_marks settled notIdle ?_ marks
      intro list same
      cases same
      exact (settled.1.fresh _ _ present).1

theorem eventWait_marks {timeout : Nat} (settled : Settled s) (notIdle : s.current ≠ idleTid)
    (marks : Marks none s) : Marking (eventWait s timeout) := by
  unfold eventWait
  split
  · exact marks.congr rfl rfl .refl
  · refine taskWait_marks settled notIdle ?_ marks
    intro list same
    cases same
    trivial

theorem processJoin_marks {pid timeout : Nat} (settled : Settled s)
    (notIdle : s.current ≠ idleTid) (marks : Marks none s) :
    Marking (processJoin s pid timeout) := by
  unfold processJoin
  apply any_getProc
  intro proc present
  split
  · exact marks
  · refine taskWait_marks settled notIdle ?_ marks
    intro list same
    cases same
    exact settled.1.procs _ _ present

/-- `task_schedule` and the timer: the current task is outside of `task_wait`. -/
theorem scheduleFrom_returns_marks (placed : Placed none none s) (runs : CurrentRuns s)
    (marks : Marks none s) : Marking (scheduleFrom s .returns) := by
  obtain ⟨task, present, running⟩ := runs
  refine scheduleFrom_marks placed nofun marks.loosen fun value found => ?_
  cases present.symm.trans found
  have told := marks.told _ task present nofun
  obtain ⟨-, apart, free, untimed⟩ := told.of_running running
  exact told.aside apart nofun free untimed

/-- The task suspended must not have timed out in a `task_wait` that has not returned. -/
theorem taskSuspend_marks (settled : Settled s) (notIdle : tid ≠ idleTid)
    (untimed : ∀ task ∈ s.tasks tid, task.hasTimeout = false) (marks : Marks none s) :
    Marking (taskSuspend s tid) := by
  unfold taskSuspend
  split
  · rename_i own
    subst own
    obtain ⟨task, present, runs⟩ := settled.2
    have loose := (settled.loosen present).1
    have told := marks.told _ task present (by simp)
    have apart := (told.of_running runs).2.1
    apply ((setWaitFor_edits present).and
      (setWaitFor_ensures loose present (by simp [runs]) notIdle (by simp))).bind
    rintro s₁ ⟨edits₁, placed₁, -⟩
    exact scheduleFrom_edited marks placed₁ edits₁ (by simp) (told.aside apart (by simp) rfl rfl)
  · apply any_getTask
    intro task present
    apply any_kassert
    intro ready
    have told := marks.told tid task present (by simp)
    apply (resetReady_edits present).bind
    intro s₁ edits₁
    refine (setWaitFor_edits edits₁.self).mono fun s₂ edits₂ => ?_
    exact marks.edit tight_none (edits₁.trans edits₂) (told.suspend ready (untimed task present))

/-- The task resumed must not wait for a wake that has not come. -/
theorem taskResume_marks
    (answered : ∀ task ∈ s.tasks tid, task.ctx = .inTaskWait → endsOf tid s.trace ≠ [])
    (marks : Marks none s) : Marking (taskResume s tid) := by
  unfold taskResume
  apply any_getTask
  intro task present
  apply any_kassert
  intro _
  apply any_kassert
  intro _
  apply any_kassert
  intro _
  apply (resetWaitFor_edits present).bind
  intro s₁ edits₁
  refine (setReady_edits edits₁.self).mono fun s₂ edits₂ => ?_
  have told := marks.told tid task present nofun
  exact marks.edit tight_none (edits₁.trans edits₂) (told.resume (answered task present))

end Waits

section System

variable {s : Sched}

/-- The call neither suspends a task that timed out before its `task_wait` returned nor
resumes one that is inside a `task_wait` nothing has ended. -/
def Undisturbed (s : Sched) : Call → Prop
  | .taskSuspend tid => ∀ task ∈ s.tasks tid, task.hasTimeout = false
  | .taskResume tid => ∀ task ∈ s.tasks tid, task.ctx = .inTaskWait → endsOf tid s.trace ≠ []
  | _ => True

instance (s : Sched) : ∀ call, Decidable (Undisturbed s call)
  | .taskSuspend tid => inferInstanceAs (Decidable (∀ task ∈ s.tasks tid, task.hasTimeout = false))
  | .taskResume tid => inferInstanceAs (Decidable
      (∀ task ∈ s.tasks tid, task.ctx = .inTaskWait → endsOf tid s.trace ≠ []))
  | .taskCreate .. | .taskWait .. | .taskWaitLocked .. | .taskJoin .. | .taskTerminate _
  | .taskExit | .taskRetain _ | .taskRelease _ | .waitListWakeOne _ | .waitListWakeAll _
  | .schedule | .isrTimer | .drainDead | .irqmsgPush _ | .irqmsgPop | .irqmsgHandle
  | .irqmsgTimeout | .eventWait _ | .processCreate _ | .processRetain _ | .processRelease _
  | .processJoin .. => .isTrue trivial

theorem exec_marks {call : Call} (settled : Settled s) (admitted : Admits s call)
    (undisturbed : Undisturbed s call) (marks : Marks none s) : Marking (exec s call) := by
  cases call with
  | taskCreate pid priority stack slab => exact taskCreate_marks marks
  | taskSuspend tid => exact taskSuspend_marks settled admitted undisturbed marks
  | taskResume tid => exact taskResume_marks undisturbed marks
  | taskWait list timeout =>
      exact taskWait_marks settled admitted.1
        (fun l member => (admitted.2 l member).known settled.1) marks
  | taskWaitLocked list timeout =>
      exact taskWaitLocked_marks settled admitted.1
        (fun l member => (admitted.2 l member).known settled.1) marks
  | taskJoin tid timeout => exact taskJoin_marks settled admitted marks
  | taskTerminate tid => exact taskTerminate_marks settled admitted marks
  | taskExit => exact taskExit_marks settled admitted marks
  | taskRetain tid => exact taskRetain_marks marks
  | taskRelease tid => exact taskRelease_marks settled marks
  | waitListWakeOne list => exact (waitListWakeOne_marks settled.1 marks).bind fun _ => id
  | waitListWakeAll list => exact waitListWakeAll_marks settled.1 marks
  | schedule => exact scheduleFrom_returns_marks settled.1 settled.2 marks
  | isrTimer =>
      have ticked : Placed none none { s with tick := (s.tick + 1) % 2 ^ 64 } :=
        settled.1.congr rfl rfl ⟨rfl, rfl, rfl, rfl, fun _ => id⟩ rfl
      exact scheduleFrom_returns_marks ticked settled.2 (marks.congr rfl rfl .refl)
  | drainDead => exact drainDead_marks settled marks
  | irqmsgPush msg => exact (irqmsgPush_marks settled.1 marks).bind fun _ => id
  | irqmsgPop =>
      have popped : ∀ msg, Marks none { (irqmsgPop s).1 with handling := msg } := by
        intro msg
        unfold irqmsgPop
        split
        · exact marks.congr rfl rfl .refl
        · split
          · exact marks.congr rfl rfl .refl
          · exact marks.congr rfl rfl .refl
      exact popped _
  | irqmsgHandle =>
      cases pending : s.handling with
      | none =>
          simp only [exec, pending]
          exact marks
      | some msg =>
          simp only [exec, pending]
          have handled : Marking (handle s msg) := by
            unfold handle
            split
            · exact irqmsgTimeout_marks settled.1 marks
            · exact marks
          exact handled.bind fun s₁ marks₁ => marks₁.congr rfl rfl .refl
  | irqmsgTimeout => exact irqmsgTimeout_marks settled.1 marks
  | eventWait timeout => exact eventWait_marks settled admitted marks
  | processCreate allocated =>
      cases allocated with
      | true => exact processInit_untouched.mono fun _ untouched => marks.untouched untouched
      | false => exact marks
  | processRetain pid =>
      exact processRetain_untouched.mono fun _ untouched => marks.untouched untouched
  | processRelease pid =>
      exact processRelease_untouched.mono fun _ untouched => marks.untouched untouched
  | processJoin pid timeout => exact processJoin_marks settled admitted marks

theorem booted_marks : Marks none booted := by
  refine ⟨fun tid task present _ => ?_, fun _ _ => rfl, ?_⟩
  · match tid with
    | 0 =>
        cases present
        exact .outside nofun rfl rfl
    | 1 =>
        cases present
        exact .outside nofun rfl rfl
  · have silent : Truthful [] := fun tid ok earlier suffix => by simp at suffix
    exact silent.cons nofun

/-- Calls of any tasks in any order, each as `Undisturbed` allows. -/
def Admissible (s : Sched) (call : Call) : Prop := Admits s call ∧ Undisturbed s call

instance (s : Sched) (call : Call) : Decidable (Admissible s call) := by
  unfold Admissible
  infer_instance

/-- Every `task_wait` that returned had been ended once since it began, and returned `false`
if its deadline expired and `true` if it was woken from its wait list. -/
theorem run_answers {init s : Sched} (started : schedInit = .ok init)
    (reached : Reaches exec Admissible init s) :
    (∀ tid ok earlier, .waitReturned tid ok :: earlier <:+ s.trace → endsOf tid earlier = [ok]) ∧
      ∀ tid task, s.tasks tid = some task → task.state = .running → endsOf tid s.trace = [] := by
  cases started.symm.trans schedInit_eq
  have both : Settled s ∧ Marks none s := by
    induction reached with
    | start => exact ⟨booted_settled, booted_marks⟩
    | step _ admitted returned both =>
        have settled := exec_ensures both.1 admitted.1
        have marks := exec_marks both.1 admitted.1 admitted.2 both.2
        exact (settled.and marks).of_ok returned
  refine ⟨both.2.truthful, fun tid task present runs => ?_⟩
  exact ((both.2.told tid task present nofun).of_running runs).1

/-- Two tasks wait and are woken, and the second wait of the kernel task times out. -/
def wokenAndExpired : List Call :=
  [.taskCreate 0 .high true true, .taskResume 2, .taskWait (some (.object 0)) uintptrMax,
    .taskWait (some (.object 1)) 5, .waitListWakeOne (.object 1), .waitListWakeOne (.object 0),
    .schedule, .taskWait (some (.object 1)) 1, .isrTimer, .irqmsgTimeout, .schedule]

theorem run_answers_wokenAndExpired : ∃ init s, schedInit = .ok init ∧
    runFrom exec Admissible init wokenAndExpired = some s ∧
    (∀ tid ok earlier, .waitReturned tid ok :: earlier <:+ s.trace → endsOf tid earlier = [ok]) ∧
      ∀ tid task, s.tasks tid = some task → task.state = .running → endsOf tid s.trace = [] := by
  have runs : (runFrom exec Admissible booted wokenAndExpired).isSome = true := by
    decide +kernel
  obtain ⟨s, ran⟩ := Option.isSome_iff_exists.mp runs
  exact ⟨booted, s, schedInit_eq, ran, run_answers schedInit_eq (Reaches.start.of_runFrom ran)⟩

/-- A worker times out, and the kernel task suspends and resumes it before it runs. -/
def expiredAndSuspended : List Call :=
  [.taskCreate 0 .high true true, .taskResume 2, .taskWait (some (.object 0)) 100,
    .taskWait (some (.object 1)) 1, .isrTimer, .waitListWakeOne (.object 0), .schedule,
    .irqmsgTimeout, .taskSuspend 2, .taskResume 2, .taskWait (some (.object 0)) 100]

/-- The worker is told that it was woken, although its deadline had expired. -/
theorem timeout_lost_expiredAndSuspended : ¬ ∀ init s, schedInit = .ok init →
    Reaches exec Admits init s → ∀ tid ok earlier, .waitReturned tid ok :: earlier <:+ s.trace →
      endsOf tid earlier = [ok] := by
  intro claimed
  have runs : ((runFrom exec Admits booted expiredAndSuspended).map fun s =>
      (s.trace.head?, endsOf 2 s.trace.tail)) = some (some (.waitReturned 2 true), [false]) := by
    decide +kernel
  obtain ⟨s, ran, seen⟩ := Option.map_eq_some_iff.mp runs
  obtain ⟨head, ends⟩ := Prod.mk.inj seen
  obtain ⟨earlier, latest⟩ := List.head?_eq_some_iff.mp head
  have told := claimed booted s schedInit_eq (Reaches.start.of_runFrom ran) 2 true earlier
    (latest ▸ List.suffix_rfl)
  rw [latest, List.tail_cons] at ends
  rw [ends] at told
  cases told

end System

end Opal.Scheduler
