import Opal.Scheduler.Timeouts

/-!
# What a wait can tell of its end

The trace says how the waits of a task ended.  The task itself keeps only the flag
`has_timeout`, which is set from the insertion into the timeout queue on and read when the
task next runs.  `Told` relates the two: outside of `task_wait` a task has no end to tell,
a task whose wait is pending does not run, and after the end of a wait the flag is the
answer, as long as the task stays awake or its answer is the one a suspension leaves.
-/

namespace Opal.Scheduler

section Ends

/-- The ends of the waits of a task since its `task_wait` last returned, latest first:
`true` for a wake from its wait list, `false` for the expiry of its deadline. -/
def endsOf (tid : Nat) : List Event → List Bool
  | [] => []
  | .woken _ other :: earlier =>
      if other = tid then true :: endsOf tid earlier else endsOf tid earlier
  | .expired other :: earlier =>
      if other = tid then false :: endsOf tid earlier else endsOf tid earlier
  | .waitReturned other _ :: earlier => if other = tid then [] else endsOf tid earlier
  | .becameReady _ :: earlier => endsOf tid earlier
  | .switched _ _ :: earlier => endsOf tid earlier
  | .stalled _ :: earlier => endsOf tid earlier

/-- Every wait that returned had ended once, in the way it told. -/
def Truthful (trace : List Event) : Prop :=
  ∀ tid ok earlier, .waitReturned tid ok :: earlier <:+ trace → endsOf tid earlier = [ok]

theorem Truthful.cons {trace : List Event} {event : Event} (truthful : Truthful trace)
    (answer : ∀ tid ok, event = .waitReturned tid ok → endsOf tid trace = [ok]) :
    Truthful (event :: trace) := by
  intro tid ok earlier suffix
  rcases List.suffix_cons_iff.mp suffix with whole | within
  · obtain ⟨same, rfl⟩ := List.cons.inj whole
    exact answer tid ok same.symm
  · exact truthful tid ok earlier within

/-- The later trace says no more about waits than the earlier one. -/
structure SameEnds (trace trace' : List Event) : Prop where
  ends : ∀ tid, endsOf tid trace' = endsOf tid trace
  truthful : Truthful trace → Truthful trace'

theorem SameEnds.refl {trace : List Event} : SameEnds trace trace := ⟨fun _ => rfl, id⟩

theorem SameEnds.trans {trace trace' trace'' : List Event} (first : SameEnds trace trace')
    (second : SameEnds trace' trace'') : SameEnds trace trace'' :=
  ⟨fun tid => (second.ends tid).trans (first.ends tid), second.truthful ∘ first.truthful⟩

theorem sameEnds_becameReady (tid : Nat) (trace : List Event) :
    SameEnds trace (.becameReady tid :: trace) :=
  ⟨fun _ => rfl, fun truthful => truthful.cons nofun⟩

theorem sameEnds_switched (tid next : Nat) (trace : List Event) :
    SameEnds trace (.switched tid next :: trace) :=
  ⟨fun _ => rfl, fun truthful => truthful.cons nofun⟩

theorem sameEnds_stalled (tid : Nat) (trace : List Event) :
    SameEnds trace (.stalled tid :: trace) :=
  ⟨fun _ => rfl, fun truthful => truthful.cons nofun⟩

end Ends

section Telling

variable {task task' : Task} {ends : List Bool}

/-- What the task can tell of the ends of its wait. -/
inductive Told (task : Task) : List Bool → Prop where
  | outside (apart : task.ctx ≠ .inTaskWait) (free : task.waitFor = none)
      (untimed : task.hasTimeout = false) : Told task []
  | pending (inside : task.ctx = .inTaskWait)
      (parked : task.state = .waiting ∨ task.state = .dead) : Told task []
  | ended {ok : Bool} (inside : task.ctx = .inTaskWait) (free : task.waitFor = none)
      (flag : task.hasTimeout = !ok)
      (stays : task.state = .ready ∨ task.state = .dead ∨ task.state = .waiting ∧ ok = true) :
      Told task [ok]

theorem Told.congr (told : Told task ends) (ctx : task'.ctx = task.ctx)
    (waitFor : task'.waitFor = task.waitFor) (hasTimeout : task'.hasTimeout = task.hasTimeout)
    (state : task'.state = task.state) : Told task' ends := by
  cases told with
  | outside apart free untimed =>
      exact .outside (ctx ▸ apart) (waitFor.trans free) (hasTimeout.trans untimed)
  | pending inside parked => exact .pending (ctx.trans inside) (state ▸ parked)
  | ended inside free flag stays =>
      exact .ended (ctx.trans inside) (waitFor.trans free) (hasTimeout.trans flag) (state ▸ stays)

theorem Told.die (told : Told task ends) : Told { task with state := .dead } ends := by
  cases told with
  | outside apart free untimed => exact .outside apart free untimed
  | pending inside _ => exact .pending inside (.inr rfl)
  | ended inside free flag _ => exact .ended inside free flag (.inr (.inl rfl))

/-- A task that runs is outside of `task_wait`. -/
theorem Told.of_running (told : Told task ends) (runs : task.state = .running) :
    ends = [] ∧ task.ctx ≠ .inTaskWait ∧ task.waitFor = none ∧ task.hasTimeout = false := by
  cases told with
  | outside apart free untimed => exact ⟨rfl, apart, free, untimed⟩
  | pending _ parked => simp [runs] at parked
  | ended _ _ _ stays => simp [runs] at stays

/-- Outside of `task_wait` only the list and the flag matter. -/
theorem Told.aside (told : Told task ends) (apart : task.ctx ≠ .inTaskWait)
    (apart' : task'.ctx ≠ .inTaskWait) (free : task'.waitFor = none)
    (untimed : task'.hasTimeout = false) : Told task' ends := by
  cases told with
  | outside _ _ _ => exact .outside apart' free untimed
  | pending inside _ => exact absurd inside apart
  | ended inside _ _ _ => exact absurd inside apart

theorem Told.ready (told : Told task ends) (runs : task.state = .running) :
    Told { task with state := .ready } ends := by
  obtain ⟨rfl, apart, free, untimed⟩ := told.of_running runs
  exact .outside apart free untimed

/-- A task in a wait list or with a deadline has no end to tell yet. -/
theorem Told.of_waiting (told : Told task ends) (waiting : task.state = .waiting)
    (waits : task.waitFor ≠ none ∨ task.hasTimeout = true) :
    ends = [] ∧ task.ctx = .inTaskWait := by
  cases told with
  | outside _ free untimed => simp [free, untimed] at waits
  | pending inside _ => exact ⟨rfl, inside⟩
  | ended _ free flag stays =>
      have woken := (stays.resolve_left (by simp [waiting])).resolve_left (by simp [waiting])
      simp [free, flag, woken.2] at waits

/-- The wait of a task is taken back, as before it dies. -/
theorem Told.cancel (told : Told task ends) (waiting : task.state = .waiting) :
    Told { task with hasTimeout := false, waitFor := none } ends := by
  cases told with
  | outside apart _ _ => exact .outside apart rfl rfl
  | pending inside _ => exact .pending inside (.inl waiting)
  | ended inside _ _ stays =>
      have woken := (stays.resolve_left (by simp [waiting])).resolve_left (by simp [waiting])
      exact .ended inside rfl (by simp [woken.2]) stays

/-- Suspending a task that is ready resets its flag: the answer must be the other one. -/
theorem Told.suspend (told : Told task ends) (ready : task.state = .ready)
    (untimed : task.hasTimeout = false) :
    Told { task with state := .waiting, waitFor := none, hasTimeout := false } ends := by
  cases told with
  | outside apart _ _ => exact .outside apart rfl rfl
  | pending _ parked => simp [ready] at parked
  | ended inside _ flag _ =>
      have woken := flag.symm.trans untimed
      exact .ended inside rfl woken.symm (.inr (.inr ⟨rfl, by simpa using woken⟩))

theorem Told.resume (told : Told task ends)
    (answered : task.ctx = .inTaskWait → ends ≠ []) :
    Told { task with waitFor := none, state := .ready } ends := by
  cases told with
  | outside apart _ untimed => exact .outside apart rfl untimed
  | pending inside _ => exact absurd rfl (answered inside)
  | ended inside _ flag _ => exact .ended inside rfl flag (.inl rfl)

end Telling

section Marks

variable {loose : Option Nat} {s s' s'' : Sched} {tid : Nat} {task task' task'' : Task}

/-- Every task but the loose one can tell the ends of its wait. -/
structure Marks (loose : Option Nat) (s : Sched) : Prop where
  told : ∀ tid task, s.tasks tid = some task → loose ≠ some tid → Told task (endsOf tid s.trace)
  fresh : ∀ tid, s.tidNext ≤ tid → endsOf tid s.trace = []
  truthful : Truthful s.trace

theorem Marks.loosen (marks : Marks none s) : Marks (some tid) s :=
  ⟨fun other task present _ => marks.told other task present nofun, marks.fresh, marks.truthful⟩

/-- The parts of the state that say how waits ended. -/
theorem Marks.congr (marks : Marks loose s) (tasks : s'.tasks = s.tasks)
    (tidNext : s'.tidNext = s.tidNext) (ends : SameEnds s.trace s'.trace) : Marks loose s' where
  told := by
    intro tid task present tight
    rw [ends.ends]
    exact marks.told tid task (tasks ▸ present) tight
  fresh := by
    intro tid later
    rw [ends.ends]
    exact marks.fresh tid (tidNext ▸ later)
  truthful := ends.truthful marks.truthful

/-- One task gets a new value, and nothing is recorded about waits. -/
structure Edits (s s' : Sched) (tid : Nat) (task' : Task) : Prop extends Moved s s' tid task' where
  tidNext : s'.tidNext = s.tidNext
  ends : SameEnds s.trace s'.trace

theorem edits_setTask : Edits s (s.setTask tid task') tid task' := ⟨⟨rfl, rfl⟩, rfl, .refl⟩

theorem Edits.trans (first : Edits s s' tid task') (second : Edits s' s'' tid task'') :
    Edits s s'' tid task'' where
  tasks := by rw [second.tasks, first.tasks, Function.update_idem]
  current := second.current.trans first.current
  tidNext := second.tidNext.trans first.tidNext
  ends := first.ends.trans second.ends

theorem Edits.before (second : Edits s' s'' tid task'') (tasks : s'.tasks = s.tasks)
    (current : s'.current = s.current) (tidNext : s'.tidNext = s.tidNext)
    (trace : s'.trace = s.trace) : Edits s s'' tid task'' :=
  ⟨⟨tasks ▸ second.tasks, second.current.trans current⟩, second.tidNext.trans tidNext,
    trace ▸ second.ends⟩

theorem Marks.edit_loose (marks : Marks loose s) (tight : ∀ other ≠ tid, loose ≠ some other)
    (edits : Edits s s' tid task') : Marks (some tid) s' where
  told := by
    intro other value found differs
    have apart : other ≠ tid := fun same => differs (congrArg some same.symm)
    rw [edits.ends.ends]
    exact marks.told other value (edits.of_ne apart ▸ found) (tight other apart)
  fresh := by
    intro other later
    rw [edits.ends.ends]
    exact marks.fresh other (edits.tidNext ▸ later)
  truthful := edits.ends.truthful marks.truthful

theorem Marks.tighten (marks : Marks (some tid) s)
    (told : ∀ task, s.tasks tid = some task → Told task (endsOf tid s.trace)) : Marks none s := by
  refine ⟨fun other value found _ => ?_, marks.fresh, marks.truthful⟩
  by_cases same : other = tid
  · subst same
    exact told value found
  · exact marks.told other value found (ne_some_of_ne same)

theorem Marks.edit (marks : Marks loose s) (tight : ∀ other ≠ tid, loose ≠ some other)
    (edits : Edits s s' tid task') (told : Told task' (endsOf tid s.trace)) : Marks none s' := by
  refine (marks.edit_loose tight edits).tighten fun value found => ?_
  cases edits.self.symm.trans found
  rw [edits.ends.ends]
  exact told

/-- A task that its change leaves with the same answer. -/
theorem Marks.setTask (marks : Marks none s) (present : s.tasks tid = some task)
    (ctx : task'.ctx = task.ctx) (waitFor : task'.waitFor = task.waitFor)
    (hasTimeout : task'.hasTimeout = task.hasTimeout) (state : task'.state = task.state) :
    Marks none (s.setTask tid task') :=
  marks.edit (fun _ _ => nofun) edits_setTask
    ((marks.told tid task present nofun).congr ctx waitFor hasTimeout state)

/-- The event that ends the wait of a task is recorded. -/
theorem Marks.conclude (event : Event) (ok : Bool) (marks : Marks (some tid) s)
    (known : tid < s.tidNext) (own : endsOf tid (event :: s.trace) = ok :: endsOf tid s.trace)
    (others : ∀ other ≠ tid, endsOf other (event :: s.trace) = endsOf other s.trace)
    (silent : ∀ other answer, event ≠ .waitReturned other answer)
    (present : s.tasks tid = some task) (pending : endsOf tid s.trace = [])
    (told : Told task [ok]) : Marks none (s.record event) := by
  refine @Marks.tighten _ tid ⟨?_, ?_, ?_⟩ ?_
  · intro other value found differs
    have apart : other ≠ tid := fun same => differs (congrArg some same.symm)
    exact others other apart ▸ marks.told other value found differs
  · intro other later
    have apart : other ≠ tid := fun same => absurd later (Nat.not_le_of_lt (same ▸ known))
    exact (others other apart).trans (marks.fresh other later)
  · exact marks.truthful.cons fun other answer same => absurd same (silent other answer)
  · intro value found
    cases present.symm.trans found
    refine (own.trans (congrArg _ pending) : endsOf tid (event :: s.trace) = [ok]) ▸ told

end Marks

section Primitives

variable {s : Sched} {tid : Nat} {task : Task}

/-- The computation gives one task a new value if it returns. -/
abbrev Editing (s : Sched) (tid : Nat) (task' : Task) : Run Sched → Prop :=
  Ensures (fun _ => True) fun s' => Edits s s' tid task'

theorem setReady_edits (present : s.tasks tid = some task) :
    Editing s tid { task with state := .ready } (setReady s tid) := by
  unfold setReady
  rw [Sched.getTask_of present]
  exact ⟨⟨rfl, rfl⟩, rfl, sameEnds_becameReady tid s.trace⟩

theorem setRunning_edits (present : s.tasks tid = some task) :
    Editing s tid { task with state := .running } (setRunning s tid) := by
  unfold setRunning
  rw [Sched.getTask_of present]
  exact edits_setTask

theorem setDead_edits (present : s.tasks tid = some task) :
    Editing s tid { task with state := .dead } (setDead s tid) := by
  unfold setDead
  rw [Sched.getTask_of present]
  exact edits_setTask

theorem resetReady_edits (present : s.tasks tid = some task) :
    Editing s tid task (resetReady s tid) := by
  unfold resetReady
  rw [Sched.getTask_of present]
  exact any_unlink ⟨⟨(update_of_present present).symm, rfl⟩, rfl, .refl⟩

theorem resetWaitFor_edits (present : s.tasks tid = some task) :
    Editing s tid { task with waitFor := none } (resetWaitFor s tid) := by
  unfold resetWaitFor
  simp only [Sched.getTask_of present, bind, Except.bind]
  cases waits : task.waitFor with
  | none =>
      have same : { task with waitFor := none } = task := by
        cases task
        simp_all
      exact ⟨⟨by rw [same, update_of_present present], rfl⟩, rfl, .refl⟩
  | some list => exact any_unlink ⟨⟨rfl, rfl⟩, rfl, .refl⟩

theorem untime_eq (untimed : task.hasTimeout = false) :
    { task with hasTimeout := false } = task := by
  cases task
  simp_all

theorem resetTimeout_edits (present : s.tasks tid = some task) :
    Editing s tid { task with hasTimeout := false } (resetTimeout s tid) := by
  unfold resetTimeout
  simp only [Sched.getTask_of present, bind, Except.bind]
  split
  · exact any_unlink ⟨⟨rfl, rfl⟩, rfl, .refl⟩
  · rename_i untimed
    have same := @untime_eq task (by simpa using untimed)
    exact ⟨⟨by rw [same, update_of_present present], rfl⟩, rfl, .refl⟩

theorem setWaitFor_edits {list : Option WaitList} (present : s.tasks tid = some task) :
    Editing s tid { task with state := .waiting, waitFor := list, hasTimeout := false }
      (setWaitFor s tid list) := by
  unfold setWaitFor
  simp only [Sched.getTask_of present, bind, Except.bind]
  cases list with
  | none => exact edits_setTask
  | some list => exact ⟨⟨rfl, rfl⟩, rfl, .refl⟩

theorem setWaitTimeout_edits {list : Option WaitList} {timeout : Nat}
    (present : s.tasks tid = some task) :
    Editing s tid { task with state := .waiting, waitFor := list, hasTimeout := true
                              waitTimeout := timeout } (setWaitTimeout s tid list timeout) := by
  unfold setWaitTimeout
  apply (setWaitFor_edits present).bind
  intro s₁ edits
  simp only [Sched.getTask_of edits.self, bind, Except.bind, Ensures.ok_iff]
  split
  · exact edits.trans ⟨⟨rfl, rfl⟩, rfl, .refl⟩
  · exact edits.trans ⟨⟨rfl, rfl⟩, rfl, .refl⟩

end Primitives

end Opal.Scheduler
