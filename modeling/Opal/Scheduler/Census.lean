import Opal.Scheduler.Lives

/-!
# The census of tasks and processes

The census keeps of a scheduler state what lifetimes depend on: which tasks and processes
there are and how many references each counts.  A ledger says who holds these references.
`Books` relates the two, and every event in the life of a task or a process keeps it.
-/

namespace Opal.Scheduler

section Data

structure Life where
  process : Nat
  refcount : Nat
  dead : Bool
  deriving DecidableEq, Repr

structure Census where
  lives : Nat → Option Life
  procs : Nat → Option Process
  tidNext : Nat
  pidNext : Nat

def Task.life (task : Task) : Life where
  process := task.process
  refcount := task.refcount
  dead := task.state = .dead

def Sched.census (s : Sched) : Census where
  lives tid := (s.tasks tid).map Task.life
  procs := s.procs
  tidNext := s.tidNext
  pidNext := s.pidNext

@[ext]
structure Ledger where
  /-- The references to a task, those of the dead list included. -/
  taskRefs : Nat → Nat
  /-- The references to a process besides the one that each of its tasks has. -/
  procRefs : Nat → Nat
  /-- How many tasks were created in a process. -/
  created : Nat → Nat

structure Books (c : Census) (ledger : Ledger) : Prop where
  references : ∀ tid life, c.lives tid = some life → life.refcount = ledger.taskRefs tid
  needed : ∀ tid life, c.lives tid = some life → life.dead = true → 0 < life.refcount
  unreferenced : ∀ tid, c.lives tid = none → ledger.taskRefs tid = 0
  home : ∀ tid life, c.lives tid = some life → ∃ proc, c.procs life.process = some proc ∧
    tid ∈ proc.taskList
  listed : ∀ pid proc, c.procs pid = some proc → ∀ tid ∈ proc.taskList,
    ∃ life, c.lives tid = some life ∧ life.process = pid
  nodup : ∀ pid proc, c.procs pid = some proc → proc.taskList.Nodup
  procReferences : ∀ pid proc, c.procs pid = some proc →
    proc.refcount = ledger.procRefs pid + proc.taskList.length
  procNeeded : ∀ pid proc, c.procs pid = some proc → 0 < proc.refcount
  procUnreferenced : ∀ pid, c.procs pid = none → ledger.procRefs pid = 0
  signaled : ∀ pid proc, c.procs pid = some proc →
    (proc.exitSignaled = true ↔ ledger.created pid ≠ 0 ∧ proc.taskList = [])
  populated : ∀ pid proc, c.procs pid = some proc → proc.taskList.length ≤ ledger.created pid
  fresh : ∀ tid life, c.lives tid = some life → tid < c.tidNext
  procFresh : ∀ pid proc, c.procs pid = some proc → pid < c.pidNext
  unborn : ∀ pid, c.pidNext ≤ pid → ledger.created pid = 0

end Data

section Events

variable {c : Census} {ledger : Ledger} {tid pid : Nat} {life life' : Life} {proc : Process}

def Census.setLife (c : Census) (tid : Nat) (life : Option Life) : Census :=
  { c with lives := Function.update c.lives tid life }

def Census.setProc (c : Census) (pid : Nat) (proc : Option Process) : Census :=
  { c with procs := Function.update c.procs pid proc }

def Ledger.setTaskRefs (ledger : Ledger) (tid count : Nat) : Ledger :=
  { ledger with taskRefs := Function.update ledger.taskRefs tid count }

def Ledger.setProcRefs (ledger : Ledger) (pid count : Nat) : Ledger :=
  { ledger with procRefs := Function.update ledger.procRefs pid count }

/-- What is left of a process without one of its references. -/
def Process.released (proc : Process) : Option Process :=
  if proc.refcount = 1 then none else some { proc with refcount := proc.refcount - 1 }

/-- The process once the task is out of its list; the last task out signals the exit. -/
def Process.without (proc : Process) (tid : Nat) : Process :=
  { proc with taskList := proc.taskList.erase tid
              exitSignaled := proc.exitSignaled || proc.taskList.erase tid = [] }

/-- A new task, listed by its process, which it keeps alive. -/
def Census.create (c : Census) (pid : Nat) (proc : Process) : Census where
  lives := Function.update c.lives c.tidNext (some ⟨pid, 1, false⟩)
  procs := Function.update c.procs pid (some { proc with
    refcount := proc.refcount + 1, taskList := proc.taskList ++ [c.tidNext] })
  tidNext := c.tidNext + 1
  pidNext := c.pidNext

def Census.free (c : Census) (tid pid : Nat) (proc : Process) : Census :=
  (c.setLife tid none).setProc pid (proc.without tid).released

def Census.createProc (c : Census) : Census :=
  { c.setProc c.pidNext (some { refcount := 1, taskList := [], exitSignaled := false }) with
    pidNext := c.pidNext + 1 }

theorem update_cases {α : Type} {f : Nat → α} {value result : α} {key other : Nat}
    (at_other : Function.update f key value other = result) :
    (other = key ∧ value = result) ∨ (other ≠ key ∧ f other = result) := by
  by_cases same : other = key
  · subst same
    rw [Function.update_self] at at_other
    exact .inl ⟨rfl, at_other⟩
  · rw [Function.update_of_ne same] at at_other
    exact .inr ⟨same, at_other⟩

@[simp]
theorem Census.setLife_self {value : Option Life} : (c.setLife tid value).lives tid = value := by
  simp [Census.setLife]

@[simp]
theorem Ledger.setTaskRefs_self {count : Nat} :
    (ledger.setTaskRefs tid count).taskRefs tid = count := by
  simp [Ledger.setTaskRefs]

theorem Ledger.setTaskRefs_of_ne {count other : Nat} (differs : other ≠ tid) :
    (ledger.setTaskRefs tid count).taskRefs other = ledger.taskRefs other := by
  simp [Ledger.setTaskRefs, differs]

@[simp]
theorem Ledger.setProcRefs_self {count : Nat} :
    (ledger.setProcRefs pid count).procRefs pid = count := by
  simp [Ledger.setProcRefs]

theorem Ledger.setProcRefs_of_ne {count other : Nat} (differs : other ≠ pid) :
    (ledger.setProcRefs pid count).procRefs other = ledger.procRefs other := by
  simp [Ledger.setProcRefs, differs]

/-- A task stays in its process; its references are counted anew. -/
theorem Books.setLife (books : Books c ledger) (found : c.lives tid = some life)
    (process : life'.process = life.process) (needed : life'.dead = true → 0 < life'.refcount) :
    Books (c.setLife tid (some life')) (ledger.setTaskRefs tid life'.refcount) where
  references := by
    intro other value present
    rcases update_cases present with ⟨rfl, same⟩ | ⟨differs, old⟩
    · cases same
      exact Ledger.setTaskRefs_self.symm
    · exact (books.references other value old).trans (Ledger.setTaskRefs_of_ne differs).symm
  needed := by
    intro other value present
    rcases update_cases present with ⟨rfl, same⟩ | ⟨differs, old⟩
    · cases same
      exact needed
    · exact books.needed other value old
  unreferenced := by
    intro other gone
    rcases update_cases gone with ⟨-, same⟩ | ⟨differs, old⟩
    · cases same
    · exact (Ledger.setTaskRefs_of_ne differs).trans (books.unreferenced other old)
  home := by
    intro other value present
    rcases update_cases present with ⟨rfl, same⟩ | ⟨differs, old⟩
    · cases same
      rw [process]
      exact books.home other life found
    · exact books.home other value old
  listed := by
    intro pid proc present other member
    obtain ⟨value, old, home⟩ := books.listed pid proc present other member
    by_cases same : other = tid
    · subst same
      rw [found] at old
      cases old
      exact ⟨life', Function.update_self .., process.trans home⟩
    · exact ⟨value, (Function.update_of_ne same ..).trans old, home⟩
  nodup := books.nodup
  procReferences := books.procReferences
  procNeeded := books.procNeeded
  procUnreferenced := books.procUnreferenced
  signaled := books.signaled
  populated := books.populated
  fresh := by
    intro other value present
    rcases update_cases present with ⟨rfl, -⟩ | ⟨-, old⟩
    · exact books.fresh other life found
    · exact books.fresh other value old
  procFresh := books.procFresh
  unborn := books.unborn

/-- A process stays with its tasks; its references are counted anew. -/
theorem Books.setProc {refs : Nat} (books : Books c ledger) (found : c.procs pid = some proc)
    (needed : 0 < refs + proc.taskList.length) :
    Books (c.setProc pid (some { proc with refcount := refs + proc.taskList.length }))
      (ledger.setProcRefs pid refs) where
  references := books.references
  needed := books.needed
  unreferenced := books.unreferenced
  home := by
    intro tid life present
    obtain ⟨value, old, member⟩ := books.home tid life present
    by_cases same : life.process = pid
    · subst same
      rw [found] at old
      cases old
      exact ⟨_, Function.update_self .., member⟩
    · exact ⟨value, (Function.update_of_ne same ..).trans old, member⟩
  listed := by
    intro other value present
    rcases update_cases present with ⟨rfl, same⟩ | ⟨-, old⟩
    · cases same
      exact books.listed other proc found
    · exact books.listed other value old
  nodup := by
    intro other value present
    rcases update_cases present with ⟨rfl, same⟩ | ⟨-, old⟩
    · cases same
      exact books.nodup other proc found
    · exact books.nodup other value old
  procReferences := by
    intro other value present
    rcases update_cases present with ⟨rfl, same⟩ | ⟨differs, old⟩
    · cases same
      rw [Ledger.setProcRefs_self]
    · rw [Ledger.setProcRefs_of_ne differs]
      exact books.procReferences other value old
  procNeeded := by
    intro other value present
    rcases update_cases present with ⟨rfl, same⟩ | ⟨-, old⟩
    · cases same
      exact needed
    · exact books.procNeeded other value old
  procUnreferenced := by
    intro other gone
    rcases update_cases gone with ⟨-, same⟩ | ⟨differs, old⟩
    · cases same
    · exact (Ledger.setProcRefs_of_ne differs).trans (books.procUnreferenced other old)
  signaled := by
    intro other value present
    rcases update_cases present with ⟨rfl, same⟩ | ⟨-, old⟩
    · cases same
      exact books.signaled other proc found
    · exact books.signaled other value old
  populated := by
    intro other value present
    rcases update_cases present with ⟨rfl, same⟩ | ⟨-, old⟩
    · cases same
      exact books.populated other proc found
    · exact books.populated other value old
  fresh := books.fresh
  procFresh := by
    intro other value present
    rcases update_cases present with ⟨rfl, -⟩ | ⟨-, old⟩
    · exact books.procFresh other proc found
    · exact books.procFresh other value old
  unborn := books.unborn

theorem Books.removeProc (books : Books c ledger) (found : c.procs pid = some proc)
    (empty : proc.taskList = []) : Books (c.setProc pid none) (ledger.setProcRefs pid 0) where
  references := books.references
  needed := books.needed
  unreferenced := books.unreferenced
  home := by
    intro tid life present
    obtain ⟨value, old, member⟩ := books.home tid life present
    have differs : life.process ≠ pid := by
      rintro rfl
      rw [found] at old
      cases old
      rw [empty] at member
      cases member
    exact ⟨value, (Function.update_of_ne differs ..).trans old, member⟩
  listed := by
    intro other value present
    rcases update_cases present with ⟨-, same⟩ | ⟨-, old⟩
    · cases same
    · exact books.listed other value old
  nodup := by
    intro other value present
    rcases update_cases present with ⟨-, same⟩ | ⟨-, old⟩
    · cases same
    · exact books.nodup other value old
  procReferences := by
    intro other value present
    rcases update_cases present with ⟨-, same⟩ | ⟨differs, old⟩
    · cases same
    · rw [Ledger.setProcRefs_of_ne differs]
      exact books.procReferences other value old
  procNeeded := by
    intro other value present
    rcases update_cases present with ⟨-, same⟩ | ⟨-, old⟩
    · cases same
    · exact books.procNeeded other value old
  procUnreferenced := by
    intro other gone
    rcases update_cases gone with ⟨rfl, -⟩ | ⟨differs, old⟩
    · exact Ledger.setProcRefs_self
    · exact (Ledger.setProcRefs_of_ne differs).trans (books.procUnreferenced other old)
  signaled := by
    intro other value present
    rcases update_cases present with ⟨-, same⟩ | ⟨-, old⟩
    · cases same
    · exact books.signaled other value old
  populated := by
    intro other value present
    rcases update_cases present with ⟨-, same⟩ | ⟨-, old⟩
    · cases same
    · exact books.populated other value old
  fresh := books.fresh
  procFresh := by
    intro other value present
    rcases update_cases present with ⟨-, same⟩ | ⟨-, old⟩
    · cases same
    · exact books.procFresh other value old
  unborn := books.unborn

theorem Books.releaseProc (books : Books c ledger) (found : c.procs pid = some proc)
    (held : 0 < ledger.procRefs pid) :
    Books (c.setProc pid proc.released) (ledger.setProcRefs pid (ledger.procRefs pid - 1)) := by
  have references := books.procReferences pid proc found
  unfold Process.released
  split
  · rename_i last
    have empty : proc.taskList = [] := List.eq_nil_of_length_eq_zero (by omega)
    have none_left : ledger.procRefs pid - 1 = 0 := by omega
    rw [none_left]
    exact books.removeProc found empty
  · have counted : proc.refcount - 1 = ledger.procRefs pid - 1 + proc.taskList.length := by omega
    rw [counted]
    exact books.setProc found (by omega)

/-- The task leaves its process; the reference it had to the process is still there. -/
theorem Books.delist (books : Books c ledger) (found : c.lives tid = some life)
    (home : c.procs life.process = some proc) :
    Books ((c.setLife tid none).setProc life.process (some (proc.without tid)))
      ((ledger.setTaskRefs tid 0).setProcRefs life.process
        (ledger.procRefs life.process + 1)) where
  references := by
    intro other value present
    rcases update_cases present with ⟨-, same⟩ | ⟨differs, old⟩
    · cases same
    · exact (books.references other value old).trans (Ledger.setTaskRefs_of_ne differs).symm
  needed := by
    intro other value present
    rcases update_cases present with ⟨-, same⟩ | ⟨-, old⟩
    · cases same
    · exact books.needed other value old
  unreferenced := by
    intro other gone
    rcases update_cases gone with ⟨rfl, -⟩ | ⟨differs, old⟩
    · exact Ledger.setTaskRefs_self
    · exact (Ledger.setTaskRefs_of_ne differs).trans (books.unreferenced other old)
  home := by
    intro other value present
    rcases update_cases present with ⟨-, same⟩ | ⟨differs, old⟩
    · cases same
    obtain ⟨value', procOld, member⟩ := books.home other value old
    by_cases same : value.process = life.process
    · rw [same, home] at procOld
      cases procOld
      refine ⟨proc.without tid, same ▸ Function.update_self .., ?_⟩
      exact (List.mem_erase_of_ne differs).mpr member
    · exact ⟨value', (Function.update_of_ne same ..).trans procOld, member⟩
  listed := by
    intro pid value present other member
    have notSelf : other ≠ tid ∧ ∃ life, c.lives other = some life ∧ life.process = pid := by
      rcases update_cases present with ⟨rfl, same⟩ | ⟨differs, old⟩
      · cases same
        have apart := (List.Nodup.mem_erase_iff (books.nodup _ proc home)).mp member
        exact ⟨apart.1, books.listed _ proc home other apart.2⟩
      · obtain ⟨value', present', process'⟩ := books.listed pid value old other member
        refine ⟨?_, value', present', process'⟩
        rintro rfl
        rw [found] at present'
        cases present'
        exact differs process'.symm
    obtain ⟨differs, value', present', process'⟩ := notSelf
    exact ⟨value', (Function.update_of_ne differs ..).trans present', process'⟩
  nodup := by
    intro pid value present
    rcases update_cases present with ⟨rfl, same⟩ | ⟨-, old⟩
    · cases same
      exact (books.nodup _ proc home).erase tid
    · exact books.nodup pid value old
  procReferences := by
    intro pid value present
    rcases update_cases present with ⟨rfl, same⟩ | ⟨differs, old⟩
    · cases same
      obtain ⟨value', procOld, member⟩ := books.home tid life found
      rw [home] at procOld
      cases procOld
      have counted := books.procReferences life.process proc home
      have positive : 0 < proc.taskList.length := List.length_pos_of_mem member
      rw [Ledger.setProcRefs_self]
      simp only [Process.without, List.length_erase_of_mem member]
      omega
    · rw [Ledger.setProcRefs_of_ne differs]
      exact books.procReferences pid value old
  procNeeded := by
    intro pid value present
    rcases update_cases present with ⟨rfl, same⟩ | ⟨-, old⟩
    · cases same
      exact books.procNeeded _ proc home
    · exact books.procNeeded pid value old
  procUnreferenced := by
    intro pid gone
    rcases update_cases gone with ⟨-, same⟩ | ⟨differs, old⟩
    · cases same
    · exact (Ledger.setProcRefs_of_ne differs).trans (books.procUnreferenced pid old)
  signaled := by
    intro pid value present
    rcases update_cases present with ⟨rfl, same⟩ | ⟨-, old⟩
    · cases same
      obtain ⟨value', procOld, member⟩ := books.home tid life found
      rw [home] at procOld
      cases procOld
      have nonempty := List.ne_nil_of_mem member
      have silent : proc.exitSignaled = false := by
        rw [← Bool.not_eq_true, books.signaled _ proc home]
        exact fun both => nonempty both.2
      have created : ledger.created life.process ≠ 0 := by
        have bound := books.populated _ proc home
        have positive := List.length_pos_of_mem member
        omega
      simp only [Process.without, silent, Bool.false_or, decide_eq_true_eq]
      exact ⟨fun empty => ⟨created, empty⟩, fun both => both.2⟩
    · exact books.signaled pid value old
  populated := by
    intro pid value present
    rcases update_cases present with ⟨rfl, same⟩ | ⟨-, old⟩
    · cases same
      exact le_trans List.length_erase_le (books.populated _ proc home)
    · exact books.populated pid value old
  fresh := by
    intro other value present
    rcases update_cases present with ⟨-, same⟩ | ⟨-, old⟩
    · cases same
    · exact books.fresh other value old
  procFresh := by
    intro pid value present
    rcases update_cases present with ⟨rfl, -⟩ | ⟨-, old⟩
    · exact books.procFresh _ proc home
    · exact books.procFresh pid value old
  unborn := books.unborn

/-- The last reference to a dead task goes, and with the task its hold on the process. -/
theorem Books.free (books : Books c ledger) (found : c.lives tid = some life)
    (home : c.procs life.process = some proc) :
    Books (c.free tid life.process proc) (ledger.setTaskRefs tid 0) := by
  have delisted := books.delist found home
  have present : ((c.setLife tid none).setProc life.process (some (proc.without tid))).procs
      life.process = some (proc.without tid) := Function.update_self ..
  have released := delisted.releaseProc present (by simp)
  have census : ((c.setLife tid none).setProc life.process (some (proc.without tid))).setProc
      life.process (proc.without tid).released = c.free tid life.process proc := by
    simp [Census.free, Census.setProc, Census.setLife]
  have refs : ((ledger.setTaskRefs tid 0).setProcRefs life.process
      (ledger.procRefs life.process + 1)).setProcRefs life.process
      (((ledger.setTaskRefs tid 0).setProcRefs life.process
        (ledger.procRefs life.process + 1)).procRefs life.process - 1) =
      ledger.setTaskRefs tid 0 := by
    simp [Ledger.setProcRefs, Ledger.setTaskRefs]
  rwa [census, refs] at released

/-- A process is without tasks once none of the others belongs to it. -/
theorem Books.erase_eq_nil (books : Books c ledger) (home : c.procs pid = some proc)
    (others : ∀ other value, (c.free tid pid proc).lives other = some value →
      value.process ≠ pid) : proc.taskList.erase tid = [] := by
  apply List.eq_nil_iff_forall_not_mem.mpr
  intro other member
  have apart := (List.Nodup.mem_erase_iff (books.nodup pid proc home)).mp member
  obtain ⟨value, present, process⟩ := books.listed pid proc home other apart.2
  exact others other value ((Function.update_of_ne apart.1 ..).trans present) process

theorem Books.create (books : Books c ledger) (found : c.procs pid = some proc)
    (running : proc.exitSignaled = false) :
    Books (c.create pid proc) { ledger.setTaskRefs c.tidNext 1 with
      created := Function.update ledger.created pid (ledger.created pid + 1) } where
  references := by
    intro other value present
    rcases update_cases present with ⟨rfl, same⟩ | ⟨differs, old⟩
    · cases same
      exact Ledger.setTaskRefs_self.symm
    · exact (books.references other value old).trans (Ledger.setTaskRefs_of_ne differs).symm
  needed := by
    intro other value present
    rcases update_cases present with ⟨rfl, same⟩ | ⟨-, old⟩
    · cases same
      nofun
    · exact books.needed other value old
  unreferenced := by
    intro other gone
    rcases update_cases gone with ⟨rfl, same⟩ | ⟨differs, old⟩
    · cases same
    · exact (Ledger.setTaskRefs_of_ne differs).trans (books.unreferenced other old)
  home := by
    intro other value present
    rcases update_cases present with ⟨rfl, same⟩ | ⟨-, old⟩
    · cases same
      exact ⟨_, Function.update_self .., by simp⟩
    · obtain ⟨value', procOld, member⟩ := books.home other value old
      by_cases same : value.process = pid
      · subst same
        rw [found] at procOld
        cases procOld
        exact ⟨_, Function.update_self .., List.mem_append_left _ member⟩
      · exact ⟨value', (Function.update_of_ne same ..).trans procOld, member⟩
  listed := by
    intro other value present tid member
    have known : ∀ tid life, c.lives tid = some life →
        (c.create pid proc).lives tid = some life := by
      intro tid life old
      have differs : tid ≠ c.tidNext := ne_of_lt (books.fresh tid life old)
      exact (Function.update_of_ne differs ..).trans old
    rcases update_cases present with ⟨rfl, same⟩ | ⟨-, old⟩
    · cases same
      rcases List.mem_append.mp member with earlier | new
      · obtain ⟨life, old, process⟩ := books.listed other proc found tid earlier
        exact ⟨life, known tid life old, process⟩
      · rw [List.mem_singleton.mp new]
        exact ⟨_, Function.update_self .., rfl⟩
    · obtain ⟨life, present', process⟩ := books.listed other value old tid member
      exact ⟨life, known tid life present', process⟩
  nodup := by
    intro other value present
    rcases update_cases present with ⟨rfl, same⟩ | ⟨-, old⟩
    · cases same
      have unlisted : c.tidNext ∉ proc.taskList := by
        intro member
        obtain ⟨life, present', -⟩ := books.listed other proc found _ member
        exact lt_irrefl _ (books.fresh _ life present')
      refine List.nodup_append.mpr ⟨books.nodup other proc found, by simp, ?_⟩
      rintro tid member last single rfl
      exact unlisted (List.mem_singleton.mp single ▸ member)
    · exact books.nodup other value old
  procReferences := by
    intro other value present
    rcases update_cases present with ⟨rfl, same⟩ | ⟨-, old⟩
    · cases same
      have counted := books.procReferences other proc found
      rw [List.length_append, List.length_singleton, counted]
      rfl
    · exact books.procReferences other value old
  procNeeded := by
    intro other value present
    rcases update_cases present with ⟨rfl, same⟩ | ⟨-, old⟩
    · cases same
      exact Nat.succ_pos _
    · exact books.procNeeded other value old
  procUnreferenced := by
    intro other gone
    rcases update_cases gone with ⟨-, same⟩ | ⟨-, old⟩
    · cases same
    · exact books.procUnreferenced other old
  signaled := by
    intro other value present
    rcases update_cases present with ⟨rfl, same⟩ | ⟨differs, old⟩
    · cases same
      simp [running]
    · rw [books.signaled other value old]
      simp [differs]
  populated := by
    intro other value present
    rcases update_cases present with ⟨rfl, same⟩ | ⟨differs, old⟩
    · cases same
      have bound := books.populated other proc found
      simpa using bound
    · have bound := books.populated other value old
      simpa [differs] using bound
  fresh := by
    intro other value present
    rcases update_cases present with ⟨rfl, -⟩ | ⟨-, old⟩
    · exact Nat.lt_succ_self _
    · exact Nat.lt_succ_of_lt (books.fresh other value old)
  procFresh := by
    intro other value present
    rcases update_cases present with ⟨rfl, -⟩ | ⟨-, old⟩
    · exact books.procFresh other proc found
    · exact books.procFresh other value old
  unborn := by
    intro other above
    have differs : other ≠ pid := by
      rintro rfl
      exact absurd (books.procFresh other proc found) (not_lt.mpr above)
    exact (Function.update_of_ne differs ..).trans (books.unborn other above)

theorem Books.createProc (books : Books c ledger) :
    Books c.createProc (ledger.setProcRefs c.pidNext 1) where
  references := books.references
  needed := books.needed
  unreferenced := books.unreferenced
  home := by
    intro tid life present
    obtain ⟨value, old, member⟩ := books.home tid life present
    have differs : life.process ≠ c.pidNext := ne_of_lt (books.procFresh _ value old)
    exact ⟨value, (Function.update_of_ne differs ..).trans old, member⟩
  listed := by
    intro other value present
    rcases update_cases present with ⟨-, same⟩ | ⟨-, old⟩
    · cases same
      nofun
    · exact books.listed other value old
  nodup := by
    intro other value present
    rcases update_cases present with ⟨-, same⟩ | ⟨-, old⟩
    · cases same
      exact List.nodup_nil
    · exact books.nodup other value old
  procReferences := by
    intro other value present
    rcases update_cases present with ⟨rfl, same⟩ | ⟨differs, old⟩
    · cases same
      rw [Ledger.setProcRefs_self]
      rfl
    · rw [Ledger.setProcRefs_of_ne differs]
      exact books.procReferences other value old
  procNeeded := by
    intro other value present
    rcases update_cases present with ⟨-, same⟩ | ⟨-, old⟩
    · cases same
      exact Nat.one_pos
    · exact books.procNeeded other value old
  procUnreferenced := by
    intro other gone
    rcases update_cases gone with ⟨-, same⟩ | ⟨differs, old⟩
    · cases same
    · exact (Ledger.setProcRefs_of_ne differs).trans (books.procUnreferenced other old)
  signaled := by
    intro other value present
    rcases update_cases present with ⟨rfl, same⟩ | ⟨-, old⟩
    · cases same
      simp [Ledger.setProcRefs, books.unborn c.pidNext le_rfl]
    · exact books.signaled other value old
  populated := by
    intro other value present
    rcases update_cases present with ⟨-, same⟩ | ⟨-, old⟩
    · cases same
      exact Nat.zero_le _
    · exact books.populated other value old
  fresh := books.fresh
  procFresh := by
    intro other value present
    rcases update_cases present with ⟨rfl, -⟩ | ⟨-, old⟩
    · exact Nat.lt_succ_self _
    · exact Nat.lt_succ_of_lt (books.procFresh other value old)
  unborn := fun other above => books.unborn other (Nat.le_of_succ_le above)

end Events

section Time

variable {α : Type} {next next' : Nat} {who who' : Nat → Option α}

/-- Ids are given out in order and none comes back. -/
structure Ages (next next' : Nat) (who who' : Nat → Option α) : Prop where
  le : next ≤ next'
  old : ∀ id < next, who id = none → who' id = none
  new : ∀ id, next ≤ id → id < next' → who' id ≠ none

theorem Ages.of_isNone (same : ∀ id < next, who id = none → who' id = none) :
    Ages next next who who' :=
  ⟨le_rfl, same, fun _ above below => absurd below (not_lt.mpr above)⟩

/-- Every id given out and not in use any more was freed once. -/
def FreedOnce (frees : Nat → Nat) (next : Nat) (who : Nat → Option α) : Prop :=
  ∀ id, frees id = if id < next ∧ who id = none then 1 else 0

/-- Counts one more free of every id that goes out of use. -/
def countFrees (frees : Nat → Nat) (who who' : Nat → Option α) (id : Nat) : Nat :=
  if (who id).isSome ∧ who' id = none then frees id + 1 else frees id

theorem Ages.freedOnce {frees : Nat → Nat} (ages : Ages next next' who who')
    (fresh : ∀ id, next ≤ id → who id = none) (once : FreedOnce frees next who) :
    FreedOnce (countFrees frees who who') next' who' := by
  intro id
  unfold countFrees
  rw [once id]
  by_cases known : id < next
  · have known' : id < next' := lt_of_lt_of_le known ages.le
    cases was : who id with
    | none => simp [known, known', ages.old id known was]
    | some value => simp [known']
  · have was := fresh id (not_lt.mp known)
    by_cases known' : id < next'
    · simp [known, was, ages.new id (not_lt.mp known) known']
    · simp [known, known', was]

/-- What a call may do to lives: ids are not used again, a task stays in its process and stays
dead, only a dead task or one that is killed is freed, when the last task of a process goes,
nobody is left waiting for the exit, and the exit stays signaled. -/
structure Passes (c c' : Census) (killed awaitedNoMore : Nat → Prop) : Prop where
  tasks : Ages c.tidNext c'.tidNext c.lives c'.lives
  procs : Ages c.pidNext c'.pidNext c.procs c'.procs
  kept : ∀ tid life life', c.lives tid = some life → c'.lives tid = some life' →
    life'.process = life.process ∧ (life.dead = true → life'.dead = true)
  freed : ∀ tid life, c.lives tid = some life → c'.lives tid = none →
    (life.dead = true ∨ killed tid) ∧
      ((∀ other value, c'.lives other = some value → value.process ≠ life.process) →
        awaitedNoMore life.process)
  ended : ∀ pid proc proc', c.procs pid = some proc → c'.procs pid = some proc' →
    proc.exitSignaled = true → proc'.exitSignaled = true

variable {c c' : Census} {killed awaitedNoMore : Nat → Prop} {tid pid : Nat} {life life' : Life}
  {proc : Process}

theorem Ages.refl : Ages next next who who := .of_isNone fun _ _ => id

theorem Ages.update {key : Nat} {value : α} {value' : Option α} (found : who key = some value) :
    Ages next next who (Function.update who key value') := by
  apply Ages.of_isNone
  intro id _ gone
  have differs : id ≠ key := by
    rintro rfl
    rw [found] at gone
    cases gone
  exact (Function.update_of_ne differs ..).trans gone

theorem Ages.add {value : α} :
    Ages next (next + 1) who (Function.update who next (some value)) where
  le := Nat.le_succ _
  old := fun id known gone => (Function.update_of_ne (ne_of_lt known) ..).trans gone
  new := by
    intro id above below
    have same : id = next := le_antisymm (Nat.le_of_lt_succ below) above
    subst same
    rw [Function.update_self]
    nofun

/-- Only processes change. -/
theorem Passes.of_procs (procs : Ages c.pidNext c'.pidNext c.procs c'.procs)
    (tidNext : c'.tidNext = c.tidNext) (lives : c'.lives = c.lives)
    (ended : ∀ pid proc proc', c.procs pid = some proc → c'.procs pid = some proc' →
      proc.exitSignaled = true → proc'.exitSignaled = true) :
    Passes c c' killed awaitedNoMore where
  tasks := by
    rw [tidNext, lives]
    exact .refl
  procs := procs
  kept := by
    intro tid life life' found found'
    rw [lives, found] at found'
    cases found'
    exact ⟨rfl, id⟩
  freed := by
    intro tid life found gone
    rw [lives, found] at gone
    cases gone
  ended := ended

theorem ended_refl {procs : Nat → Option Process} (pid : Nat) (proc proc' : Process)
    (found : procs pid = some proc) (found' : procs pid = some proc')
    (ended : proc.exitSignaled = true) : proc'.exitSignaled = true := by
  rw [found] at found'
  cases found'
  exact ended

theorem ended_update {procs : Nat → Option Process} {pid : Nat} {proc : Process}
    {value : Option Process} (found : procs pid = some proc)
    (keeps : ∀ proc', value = some proc' → proc.exitSignaled = true → proc'.exitSignaled = true)
    (other : Nat) (old new : Process) (before : procs other = some old)
    (after : Function.update procs pid value other = some new)
    (ended : old.exitSignaled = true) : new.exitSignaled = true := by
  rcases update_cases after with ⟨rfl, same⟩ | ⟨-, still⟩
  · rw [found] at before
    cases before
    exact keeps new same ended
  · exact ended_refl other old new before still ended

theorem Process.released_ended {proc' : Process} (released : proc.released = some proc')
    (ended : proc.exitSignaled = true) : proc'.exitSignaled = true := by
  unfold Process.released at released
  split at released
  · cases released
  · cases released
    exact ended

theorem Passes.refl : Passes c c killed awaitedNoMore := .of_procs .refl rfl rfl ended_refl

/-- One task changes. -/
theorem Passes.setLife (found : c.lives tid = some life) (process : life'.process = life.process)
    (dead : life.dead = true → life'.dead = true) :
    Passes c (c.setLife tid (some life')) killed awaitedNoMore where
  tasks := .update found
  procs := .refl
  kept := by
    intro other value value' old new
    rcases update_cases new with ⟨rfl, same⟩ | ⟨-, still⟩
    · cases same
      rw [found] at old
      cases old
      exact ⟨process, dead⟩
    · rw [old] at still
      cases still
      exact ⟨rfl, id⟩
  freed := by
    intro other value old gone
    rcases update_cases gone with ⟨-, same⟩ | ⟨-, still⟩
    · cases same
    · rw [old] at still
      cases still
  ended := ended_refl

theorem Passes.create (found : c.procs pid = some proc)
    (fresh : ∀ tid life, c.lives tid = some life → tid < c.tidNext) :
    Passes c (c.create pid proc) killed awaitedNoMore where
  tasks := .add
  procs := .update found
  kept := by
    intro other value value' old new
    rcases update_cases new with ⟨rfl, -⟩ | ⟨-, still⟩
    · exact absurd (fresh _ value old) (lt_irrefl _)
    · rw [old] at still
      cases still
      exact ⟨rfl, id⟩
  freed := by
    intro other value old gone
    rcases update_cases gone with ⟨-, same⟩ | ⟨-, still⟩
    · cases same
    · rw [old] at still
      cases still
  ended := by
    refine ended_update found ?_
    intro proc' same ended
    cases same
    exact ended

theorem Passes.free (found : c.lives tid = some life) (home : c.procs life.process = some proc)
    (dead : life.dead = true)
    (quiet : (∀ other value, (c.free tid life.process proc).lives other = some value →
      value.process ≠ life.process) → awaitedNoMore life.process) :
    Passes c (c.free tid life.process proc) killed awaitedNoMore where
  tasks := .update found
  procs := .update home
  kept := by
    intro other value value' old new
    rcases update_cases new with ⟨-, same⟩ | ⟨-, still⟩
    · cases same
    · rw [old] at still
      cases still
      exact ⟨rfl, id⟩
  freed := by
    intro other value old gone
    rcases update_cases gone with ⟨rfl, -⟩ | ⟨-, still⟩
    · rw [found] at old
      cases old
      exact ⟨.inl dead, quiet⟩
    · rw [old] at still
      cases still
  ended := by
    refine ended_update home ?_
    intro proc' same ended
    exact Process.released_ended same (by simp [Process.without, ended])

/-- A call that kills one task first and then gives away a reference to it. -/
theorem Passes.kill (found : c.lives tid = some life)
    (passes : Passes (c.setLife tid (some { life with dead := true })) c' (fun _ => False)
      awaitedNoMore) :
    Passes c c' (· = tid) awaitedNoMore where
  tasks := by
    refine ⟨passes.tasks.le, ?_, passes.tasks.new⟩
    intro id known gone
    have differs : id ≠ tid := by
      rintro rfl
      rw [found] at gone
      cases gone
    exact passes.tasks.old id known ((Function.update_of_ne differs ..).trans gone)
  procs := passes.procs
  kept := by
    intro other value value' old new
    by_cases same : other = tid
    · subst same
      rw [found] at old
      cases old
      have kept := passes.kept other _ value' (Function.update_self ..) new
      exact ⟨kept.1, fun _ => kept.2 rfl⟩
    · exact passes.kept other value value' ((Function.update_of_ne same ..).trans old) new
  freed := by
    intro other value old gone
    by_cases same : other = tid
    · subst same
      rw [found] at old
      cases old
      have freed := passes.freed other _ (Function.update_self ..) gone
      exact ⟨.inr rfl, freed.2⟩
    · have freed := passes.freed other value ((Function.update_of_ne same ..).trans old) gone
      exact ⟨freed.1.imp_right False.elim, freed.2⟩
  ended := passes.ended

end Time

end Opal.Scheduler
