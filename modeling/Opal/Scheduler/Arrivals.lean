import Opal.Scheduler.Answers

/-!
# Ready queues are in the order of arrival

The trace says since when a task is ready.  Tasks join a ready queue at its end and only when
they are in none, so every ready queue is sorted by that time, whatever preempts, wakes, times
out, resumes, suspends or terminates tasks in between.
-/

namespace Opal.Scheduler

section Since

variable {trace trace' : List Event} {event : Event} {tid : Nat}

/-- How many events had been recorded when the task last became ready, that one included. -/
def readySince : List Event → Nat → Nat
  | [], _ => 0
  | event :: earlier, tid =>
      if event = .becameReady tid then earlier.length + 1 else readySince earlier tid

theorem readySince_le : readySince trace tid ≤ trace.length := by
  induction trace with
  | nil => exact le_rfl
  | cons event earlier inductionHypothesis =>
      unfold readySince
      split
      · exact le_rfl
      · exact Nat.le_trans inductionHypothesis (Nat.le_succ _)

theorem readySince_self : readySince (.becameReady tid :: trace) tid = trace.length + 1 :=
  if_pos rfl

theorem readySince_of_ne (differs : event ≠ .becameReady tid) :
    readySince (event :: trace) tid = readySince trace tid := if_neg differs

/-- The event is not about a task that becomes ready. -/
def NoArrival (event : Event) : Prop := ∀ tid, event ≠ .becameReady tid

end Since

section Order

variable {unlisted : Option Nat} {s s' s'' : Sched} {tid : Nat} {task : Task} {event : Event}

/-- Who became ready first is first in every ready queue. -/
def Lined (s : Sched) : Prop :=
  ∀ priority, (s.readyQueue priority).Pairwise
    fun a b => readySince s.trace a < readySince s.trace b

abbrev Lining (run : Run Sched) : Prop := Ensures (fun _ => True) Lined run

theorem Lined.sublist (lined : Lined s)
    (queues : ∀ priority, (s'.readyQueue priority).Sublist (s.readyQueue priority))
    (trace : s'.trace = s.trace) : Lined s' := by
  intro priority
  rw [trace]
  exact (lined priority).sublist (queues priority)

theorem Lined.record (lined : Lined s) (quiet : NoArrival event) : Lined (s.record event) := by
  intro priority
  refine (lined priority).imp fun {a b} earlier => ?_
  have since (other : Nat) : readySince (s.record event).trace other = readySince s.trace other :=
    readySince_of_ne (quiet other)
  rw [since, since]
  exact earlier

/-- What `set_ready` makes of the state. -/
def Sched.readied (s : Sched) (tid : Nat) (task : Task) : Sched :=
  ((s.setTask tid { task with state := .ready }).setReadyQueue task.priority
    (s.readyQueue task.priority ++ [tid])).record (.becameReady tid)

theorem setReady_eq (present : s.tasks tid = some task) :
    setReady s tid = .ok (s.readied tid task) := by
  unfold setReady
  rw [Sched.getTask_of present]
  rfl

theorem readySince_readied {other : Nat} (differs : other ≠ tid) :
    readySince (s.readied tid task).trace other = readySince s.trace other := by
  apply readySince_of_ne
  rintro same
  cases same
  exact differs rfl

/-- A task that is in no ready queue joins one at the end. -/
theorem Lined.readied (absent : ∀ priority, tid ∉ s.readyQueue priority) (lined : Lined s) :
    Lined (s.readied tid task) := by
  intro priority
  have kept (priority : Priority) : (s.readyQueue priority).Pairwise fun a b =>
      readySince (s.readied tid task).trace a < readySince (s.readied tid task).trace b := by
    refine (lined priority).imp_of_mem fun {a b} first second earlier => ?_
    have older {other : Nat} (member : other ∈ s.readyQueue priority) :
        readySince (s.readied tid task).trace other = readySince s.trace other := by
      apply readySince_readied
      rintro rfl
      exact absent priority member
    rw [older first, older second]
    exact earlier
  by_cases same : priority = task.priority
  · subst same
    have queue : (s.readied tid task).readyQueue task.priority =
        s.readyQueue task.priority ++ [tid] := Function.update_self ..
    rw [queue]
    refine List.pairwise_append.mpr ⟨kept _, List.pairwise_singleton .., ?_⟩
    intro a member b last
    have newest : readySince (s.readied tid task).trace tid = s.trace.length + 1 :=
      readySince_self
    have differs : a ≠ tid := by
      rintro rfl
      exact absent _ member
    rw [List.mem_singleton.mp last, newest, readySince_readied differs]
    exact Nat.lt_succ_of_le readySince_le
  · have queue : (s.readied tid task).readyQueue priority = s.readyQueue priority :=
      Function.update_of_ne same ..
    rw [queue]
    exact kept priority

theorem Placed.absent (placed : Placed none unlisted s) (present : s.tasks tid = some task)
    (notReady : task.state ≠ .ready) (priority : Priority) : tid ∉ s.readyQueue priority :=
  fun member => notReady ((placed.mem_container present (.ready priority)).mp member).1

theorem resetReady_lined (lined : Lined s) : Lining (resetReady s tid) := by
  unfold resetReady
  apply any_getTask
  intro task present
  apply any_unlink
  refine lined.sublist (fun priority => ?_) rfl
  show (Function.update s.readyQueue task.priority _ priority).Sublist _
  by_cases same : priority = task.priority
  · subst same
    rw [Function.update_self]
    exact List.erase_sublist
  · simp only [Function.update_of_ne same]
    exact List.Sublist.refl _

/-- No ready queue changes, and nothing is recorded. -/
structure Aside (s s' : Sched) : Prop where
  readyQueue : s'.readyQueue = s.readyQueue
  trace : s'.trace = s.trace

theorem Aside.refl : Aside s s := ⟨rfl, rfl⟩

theorem Aside.trans (first : Aside s s') (second : Aside s' s'') : Aside s s'' :=
  ⟨second.readyQueue.trans first.readyQueue, second.trace.trans first.trace⟩

theorem Aside.lined (aside : Aside s s') (lined : Lined s) : Lined s' :=
  lined.sublist (fun priority => by simp [aside.readyQueue]) aside.trace

/-- The computation leaves the ready queues alone, if it returns. -/
abbrev Asides (s : Sched) (run : Run Sched) : Prop := Ensures (fun _ => True) (Aside s) run

theorem Asides.lining {run : Run Sched} (asides : Asides s run) (lined : Lined s) : Lining run :=
  asides.mono fun _ aside => aside.lined lined

theorem Asides.then {run : Run Sched} {f : Sched → Run Sched} (first : Asides s run)
    (second : ∀ s', Asides s' (f s')) : Asides s (run >>= f) := by
  refine Ensures.bind first fun s' aside => ?_
  exact (second s').mono fun s'' aside' => aside.trans aside'

theorem resetWaitFor_aside : Asides s (resetWaitFor s tid) := by
  unfold resetWaitFor
  apply any_getTask
  intro task present
  cases waits : task.waitFor with
  | none => exact .refl
  | some list =>
      apply any_unlink
      exact ⟨rfl, rfl⟩

theorem resetTimeout_aside : Asides s (resetTimeout s tid) := by
  unfold resetTimeout
  apply any_getTask
  intro task present
  split
  · apply any_unlink
    exact ⟨rfl, rfl⟩
  · exact .refl

theorem setWaitFor_aside {list : Option WaitList} : Asides s (setWaitFor s tid list) := by
  unfold setWaitFor
  apply any_getTask
  intro task present
  cases list with
  | none => exact ⟨rfl, rfl⟩
  | some list => exact ⟨rfl, rfl⟩

theorem setWaitTimeout_aside {list : Option WaitList} {timeout : Nat} :
    Asides s (setWaitTimeout s tid list timeout) := by
  unfold setWaitTimeout
  apply setWaitFor_aside.then
  intro s₁
  apply any_getTask
  intro task present
  dsimp only
  split
  · exact ⟨rfl, rfl⟩
  · exact ⟨rfl, rfl⟩

theorem setDead_aside : Asides s (setDead s tid) :=
  any_getTask fun _ _ => ⟨rfl, rfl⟩

theorem taskFreeStack_aside : Asides s (taskFreeStack s tid) :=
  any_getTask fun _ _ => ⟨rfl, rfl⟩

theorem taskRetain_aside : Asides s (taskRetain s tid) :=
  any_getTask fun _ _ => any_kassert fun _ => ⟨rfl, rfl⟩

theorem processInit_aside : Asides s (processInit s) := any_kassert fun _ => ⟨rfl, rfl⟩

theorem processRetain_aside {pid : Nat} : Asides s (processRetain s pid) :=
  any_getProc fun _ _ => any_kassert fun _ => ⟨rfl, rfl⟩

theorem processRelease_aside {pid : Nat} : Asides s (processRelease s pid) := by
  refine any_getProc fun proc _ => any_kassert fun _ => ?_
  dsimp only
  split
  · refine any_getProc fun value _ => ?_
    split
    · exact ⟨rfl, rfl⟩
    · trivial
  · exact ⟨rfl, rfl⟩

theorem taskInit_aside {pid : Nat} : Asides s (taskInit s pid) := by
  unfold taskInit
  apply any_kassert
  intro _
  apply processRetain_aside.then
  intro s₁
  apply any_getProc
  intro proc present
  exact ⟨rfl, rfl⟩

theorem taskCreate_aside {pid : Nat} {priority : Priority} {stack slab : Bool} :
    Asides s (taskCreate s pid priority stack slab) := by
  unfold taskCreate
  split
  · apply any_getProc
    intro proc present
    split
    · exact .refl
    · split
      · apply taskInit_aside.then
        intro s₁
        apply any_getTask
        intro task found
        have renamed : Aside s₁ (s₁.setTask s.tidNext { task with priority := priority }) :=
          ⟨rfl, rfl⟩
        refine Ensures.bind setWaitFor_aside fun s₂ aside₂ => ?_
        apply any_getTask
        intro task₂ found₂
        exact renamed.trans (aside₂.trans ⟨rfl, rfl⟩)
      · exact .refl
  · exact .refl

end Order

section Waking

variable {unlisted : Option Nat} {s s' s'' : Sched} {tid : Nat} {list : WaitList}

/-- What waking does to the order: only tasks that waited become ready. -/
structure Rouses (s s' : Sched) : Prop where
  lined : Lined s → Lined s'
  since : ∀ tid task, s.tasks tid = some task → task.state ≠ .waiting →
    readySince s'.trace tid = readySince s.trace tid
  trace : s.trace <:+ s'.trace

theorem Rouses.refl : Rouses s s := ⟨id, fun _ _ _ _ => rfl, List.suffix_refl _⟩

theorem Aside.rouses (aside : Aside s s') : Rouses s s' :=
  ⟨aside.lined, fun _ _ _ _ => by rw [aside.trace], aside.trace ▸ List.suffix_refl _⟩

theorem Rouses.trans (first : Rouses s s') (wakes : Wakes s s') (second : Rouses s' s'') :
    Rouses s s'' where
  lined := second.lined ∘ first.lined
  since tid task present awake :=
    (second.since tid task (wakes.tasks tid task present awake) awake).trans
      (first.since tid task present awake)
  trace := first.trace.trans second.trace

theorem Rouses.record {event : Event} (rouses : Rouses s s') (quiet : NoArrival event) :
    Rouses s (s'.record event) where
  lined lined := (rouses.lined lined).record quiet
  since tid task present awake :=
    (readySince_of_ne (quiet tid)).trans (rouses.since tid task present awake)
  trace := rouses.trace.trans (List.suffix_cons ..)

/-- A task that waited becomes ready, after changes that no ready queue notices. -/
theorem setReady_rouses {task : Task} (placed : Placed none unlisted s)
    (present : s.tasks tid = some task) (waiting : task.state = .waiting) (aside : Aside s s') :
    Ensures (fun _ => True) (Rouses s) (setReady s' tid) := by
  have absent (priority : Priority) : tid ∉ s'.readyQueue priority := by
    rw [aside.readyQueue]
    exact placed.absent present (by simp [waiting]) priority
  apply any_getTask
  intro task' _
  show Rouses s (s'.readied tid task')
  refine ⟨fun lined => (aside.lined lined).readied absent, ?_, ?_⟩
  · intro other value found awake
    rw [readySince_readied, aside.trace]
    rintro rfl
    cases present.symm.trans found
    exact awake waiting
  · exact aside.trace ▸ List.suffix_cons ..

theorem waitListWakeOne_rouses (placed : Placed none unlisted s) :
    Ensures (fun _ => True) (fun woken => Rouses s woken.1) (waitListWakeOne s list) := by
  unfold waitListWakeOne
  cases queue : s.waitQueue list with
  | nil => exact .refl
  | cons tid rest =>
      have member : tid ∈ s.container (.wait list) := by simp [Sched.container, queue]
      obtain ⟨-, task, present, waiting, -⟩ := (placed.mem_iff _ _).mp member
      have found : (s.setWaitQueue list rest).getTask tid = .ok task := Sched.getTask_of present
      have taken : Aside s ((s.setWaitQueue list rest).setTask tid { task with waitFor := none }) :=
        ⟨rfl, rfl⟩
      have readies : ∀ s₁, Aside s s₁ → Ensures (fun _ => True) (fun woken => Rouses s woken.1)
          (setReady s₁ tid >>= fun s₂ => .ok (s₂.record (.woken list tid), true)) := by
        intro s₁ aside
        apply (setReady_rouses placed present waiting aside).bind
        intro s₂ rouses
        exact rouses.record (by simp [NoArrival])
      simp only [found, ok_bind]
      split
      · apply resetTimeout_aside.bind
        intro s₁ aside
        exact readies s₁ (taken.trans aside)
      · exact readies _ taken

theorem wakeAllLoop_rouses (fuel : Nat) (placed : Placed none unlisted s) :
    Ensures (fun _ => True) (Rouses s) (wakeAllLoop list fuel s) := by
  induction fuel generalizing s with
  | zero => exact .refl
  | succ fuel inductionHypothesis =>
      unfold wakeAllLoop
      split
      · exact .refl
      · apply ((waitListWakeOne_rouses placed).and (waitListWakeOne_ensures placed)).bind
        rintro ⟨s₁, waken⟩ ⟨rouses₁, placed₁, wakes₁, -⟩
        refine (inductionHypothesis placed₁).mono fun s₂ rouses₂ => ?_
        exact rouses₁.trans wakes₁ rouses₂

theorem waitListWakeAll_rouses (placed : Placed none unlisted s) :
    Ensures (fun _ => True) (Rouses s) (waitListWakeAll s list) := wakeAllLoop_rouses _ placed

/-- The ready queues and the trace are all that `Rouses` reads of the states. -/
theorem Rouses.congr {t t' : Sched} (rouses : Rouses s s') (tasks : s.tasks = t.tasks)
    (before : Aside t s) (after : Aside s' t') : Rouses t t' where
  lined := after.lined ∘ rouses.lined ∘ before.lined
  since := by
    intro tid task present awake
    rw [after.trace, rouses.since tid task (tasks ▸ present) awake, before.trace]
  trace := by
    rw [after.trace, ← before.trace]
    exact rouses.trace

theorem eventSignal_rouses (placed : Placed none unlisted s) :
    Ensures (fun _ => True) (Rouses s) (eventSignal s) := by
  unfold eventSignal
  apply (waitListWakeOne_rouses placed).bind
  rintro ⟨s₁, waken⟩ rouses₁
  exact rouses₁.congr rfl .refl ⟨rfl, rfl⟩

theorem irqmsgPush_rouses {msg : IrqMsg} (placed : Placed none unlisted s) :
    Ensures (fun _ => True) (fun pushed => Rouses s pushed.1) (irqmsgPush s msg) := by
  unfold irqmsgPush
  split
  · refine Ensures.bind (@eventSignal_rouses unlisted _ ?_) fun s₁ rouses₁ => ?_
    · exact placed.congr rfl rfl ⟨rfl, rfl, rfl, rfl, fun _ => id⟩ rfl
    · exact rouses₁.congr rfl ⟨rfl, rfl⟩ .refl
  · refine Ensures.bind (@eventSignal_rouses unlisted _ ?_) fun s₁ rouses₁ => ?_
    · exact placed.congr rfl rfl ⟨rfl, rfl, rfl, rfl, fun _ => id⟩ rfl
    · exact rouses₁.congr rfl ⟨rfl, rfl⟩ .refl

theorem irqmsgTimeoutLoop_rouses {nodes : List Nat} (placed : Placed none unlisted s)
    (queued : ∀ tid ∈ nodes, tid ∈ s.timeoutQueue) (nodup : nodes.Nodup) :
    Ensures (fun _ => True) (Rouses s) (irqmsgTimeoutLoop nodes s) := by
  induction nodes generalizing s with
  | nil => exact .refl
  | cons tid rest inductionHypothesis =>
      unfold irqmsgTimeoutLoop
      have member : tid ∈ s.timeoutQueue := queued tid List.mem_cons_self
      obtain ⟨-, task, present, waiting, -⟩ := (placed.mem_iff .timeout tid).mp member
      obtain ⟨later, nodup'⟩ := List.nodup_cons.mp nodup
      simp only [Sched.getTask_of present, bind, Except.bind]
      split
      · exact Aside.rouses ⟨rfl, rfl⟩
      · rw [unlink_of_mem member]
        have expires : Ensures (fun _ => True) (Rouses s)
            (resetWaitFor { s with timeoutQueue := s.timeoutQueue.erase tid } tid >>=
              fun s' => setReady s' tid) := by
          apply resetWaitFor_aside.bind
          intro s₁ aside
          exact setReady_rouses placed present waiting ⟨aside.readyQueue, aside.trace⟩
        refine (?_ : Ensures _ _ (resetWaitFor _ tid >>= fun s' => setReady s' tid >>= _))
        rw [← bind_assoc]
        apply (expires.and (expire_ensures placed present waiting)).bind
        rintro s₁ ⟨rouses₁, placed₁, wakes₁, timeoutQueue₁⟩
        have queued₁ : ∀ other ∈ rest, other ∈ (s₁.record (.expired tid)).timeoutQueue := by
          intro other inRest
          have differs : other ≠ tid := fun same => later (same ▸ inRest)
          refine timeoutQueue₁ ▸ (List.mem_erase_of_ne differs).mpr ?_
          exact queued other (List.mem_cons_of_mem _ inRest)
        have recorded : Placed none unlisted (s₁.record (.expired tid)) := placed₁.record (by simp)
        have wakes : Wakes s (s₁.record (.expired tid)) := ⟨wakes₁.current, wakes₁.tasks⟩
        refine (inductionHypothesis recorded queued₁ nodup').mono fun s₂ rouses₂ => ?_
        exact (rouses₁.record (by simp [NoArrival])).trans wakes rouses₂

theorem irqmsgTimeout_rouses (placed : Placed none unlisted s) :
    Ensures (fun _ => True) (Rouses s) (irqmsgTimeout s) :=
  irqmsgTimeoutLoop_rouses placed (fun _ => id) (placed.nodup .timeout)

theorem requestTimeout_rouses (placed : Placed none unlisted s) :
    Ensures (fun _ => True) (Rouses s) (requestTimeout s) := by
  unfold requestTimeout
  split
  · apply (irqmsgPush_rouses placed).bind
    rintro ⟨s₁, pushed⟩ rouses₁
    cases pushed with
    | true => exact rouses₁.congr rfl .refl ⟨rfl, rfl⟩
    | false => exact rouses₁
  · exact .refl

end Waking

end Opal.Scheduler
