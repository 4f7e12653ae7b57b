import Opal.FileTable.Invariant

/-!
# Runs of calls on file tables

Every call keeps the tables well formed, whichever of its allocations fail.  A call that
fails leaves the files of its table alone; one that succeeds changes one slot, or gives a
child the files of its parent.
-/

namespace Opal.FileTable

variable {File : Type} {table : Filetable File}

section Insert

/-- What `filetable_insert` returns and leaves. -/
def InsertSound (table : Filetable File) (file : File) (done : Done File (Option Nat)) : Prop :=
  match done.result with
  | some fd => LeastFree table fd ∧ done.table.files = Function.update table.files fd (some file)
  | none => table.count = table.capacity ∧ done.table.files = table.files

theorem files_putFile (table : Filetable File) (idx : Nat) (file : File) :
    (putFile table idx file).files = Function.update table.files idx (some file) := by
  rw [putFile_eq]

/-- The least free slot is filled, and the hint moves behind it. -/
theorem Wf.fill (wf : Wf table) {idx : Nat} (file : File) (inside : idx < table.capacity)
    (least : LeastFree table idx) : Wf (updateNextFd (putFile table idx file) idx) := by
  refine (wf.put file inside least.1).moveHint fun i lower => ?_
  rw [files_putFile, isSome_update]
  split
  · rfl
  · exact least.2 i (by omega)

theorem Wf.insert (wf : Wf table) (file : File) (mem : Blocks) :
    Wf (filetableInsert table file mem).table ∧
      InsertSound table file (filetableInsert table file mem) := by
  unfold filetableInsert
  by_cases full : table.count = table.capacity
  · rw [if_pos full]
    have all := wf.count_eq_iff.mp full
    by_cases last : table.endFd > fdMax
    · rw [if_pos last]
      exact ⟨wf, full, rfl⟩
    · rw [if_neg last]
      cases grows : realloc table (table.endFd + 1) mem with
      | mk outcome mem' =>
          cases outcome with
          | none => exact ⟨wf, full, rfl⟩
          | some grown =>
              have growth := wf.grow (congrArg Prod.fst grows)
              have least : LeastFree table table.endFd := by
                refine ⟨?_, fun i lower => all i (Nat.lt_of_lt_of_le lower wf.endLe)⟩
                refine Option.not_isSome_iff_eq_none.mp fun present => ?_
                exact absurd (wf.below _ present) (Nat.lt_irrefl _)
              have least' : LeastFree grown table.endFd := by
                unfold LeastFree
                rw [growth.files]
                exact least
              refine ⟨growth.wf.fill file growth.capacity least', least, ?_⟩
              show (putFile grown table.endFd file).files = _
              rw [files_putFile, growth.files]
  · rw [if_neg full]
    obtain ⟨fd, found, inside, least⟩ := wf.findsSlot full
    simp only [found, Option.getD_some]
    refine ⟨wf.fill file inside least, least, ?_⟩
    exact files_putFile table fd file

end Insert

section InsertAt

/-- What `filetable_insert_at` returns and leaves. -/
def InsertAtSound (table : Filetable File) (fd : Int) (file : File) (done : Done File Kerrno) :
    Prop :=
  if done.result = .ok then 0 ≤ fd ∧ fd ≤ fdMax ∧ table.files fd.toNat = none ∧
    done.table.files = Function.update table.files fd.toNat (some file)
  else done.table.files = table.files

/-- The end of `filetable_insert_at`, once the slot is there. -/
theorem Wf.fillAt (wf : Wf table) {idx : Nat} (file : File) (inside : idx < table.capacity)
    (free : table.files idx = none) :
    Wf (if (putFile table idx file).nextFd = idx then updateNextFd (putFile table idx file) idx
      else putFile table idx file) := by
  split
  · rename_i hint
    rw [putFile_eq] at hint
    refine wf.fill file inside ⟨free, fun i lower => wf.next i ?_⟩
    exact hint ▸ lower
  · exact wf.put file inside free

theorem apply_ite_files {condition : Prop} [Decidable condition] {idx : Nat} :
    (if condition then updateNextFd table idx else table).files = table.files := by
  split <;> rfl

theorem Wf.insertAt (wf : Wf table) (fd : Int) (file : File) (mem : Blocks) :
    Wf (filetableInsertAt table fd file mem).table ∧
      InsertAtSound table fd file (filetableInsertAt table fd file mem) := by
  unfold filetableInsertAt
  by_cases outside : fd < 0 ∨ fd > fdMax
  · rw [if_pos outside]
    exact ⟨wf, rfl⟩
  · rw [if_neg outside]
    have slot : ∀ grown mem', (if fd.toNat ≥ table.capacity then
        realloc table (fd.toNat + 1) mem else (some table, mem)) = (some grown, mem') →
        Wf grown ∧ grown.files = table.files ∧ fd.toNat < grown.capacity := by
      intro grown mem' same
      split at same
      · have growth := wf.grow (congrArg Prod.fst same)
        exact ⟨growth.wf, growth.files, growth.capacity⟩
      · cases same
        exact ⟨wf, rfl, by omega⟩
    dsimp only
    split
    · exact ⟨wf, rfl⟩
    · rename_i grown mem' same
      obtain ⟨wf', files, inside⟩ := slot grown mem' same
      split
      · exact ⟨wf', files⟩
      · rename_i free
        have none := Option.not_isSome_iff_eq_none.mp free
        refine ⟨wf'.fillAt file inside none, by omega, by omega, files ▸ none, ?_⟩
        rw [← files, ← files_putFile]
        exact apply_ite_files

end InsertAt

section Remove

/-- What `filetable_remove` returns and leaves. -/
def RemoveSound (table : Filetable File) (fd : Int) (done : Filetable File × Bool) : Prop :=
  if done.2 then 0 ≤ fd ∧ (table.files fd.toNat).isSome ∧
    done.1.files = Function.update table.files fd.toNat none
  else done.1.files = table.files

theorem Wf.removeAny (wf : Wf table) (fd : Int) :
    Wf (filetableRemove table fd).1 ∧ RemoveSound table fd (filetableRemove table fd) := by
  by_cases outside : fd < 0 ∨ fd ≥ table.endFd
  · have nothing : filetableRemove table fd = (table, false) := if_pos outside
    rw [nothing]
    exact ⟨wf, rfl⟩
  · obtain ⟨idx, rfl⟩ := Int.eq_ofNat_of_zero_le (show 0 ≤ fd by omega)
    by_cases present : (table.files idx).isSome
    · obtain ⟨wf', files⟩ := wf.remove present
      refine ⟨wf', ?_⟩
      have done : (filetableRemove table idx).2 = true := by
        rw [filetableRemove_eq present (by omega)]
      unfold RemoveSound
      rw [if_pos done]
      exact ⟨Int.natCast_nonneg idx, present, files⟩
    · have none := Option.not_isSome_iff_eq_none.mp present
      have nothing : filetableRemove table idx = (table, false) := by
        unfold filetableRemove
        rw [if_neg outside]
        simp only [Int.toNat_natCast, none]
      rw [nothing]
      exact ⟨wf, rfl⟩

end Remove

section Clone

variable {src dst : Filetable File}

/-- The slots have been copied one after the other, or the copy failed and the table is
empty again. -/
structure Copied (src : Filetable File) (slots : List Nat) (dst : Filetable File)
    (done : Done File Kerrno) : Prop where
  wf : Wf done.table
  ok : done.result = .ok → ∀ i, done.table.files i =
    if i ∈ slots then src.files i else dst.files i
  failed : done.result ≠ .ok → done.table = filetableInit

theorem cloneLoop_copied (slots : List Nat) (mem : Blocks) (wf : Wf dst)
    (distinct : slots.Nodup) (empty : ∀ i ∈ slots, dst.files i = none) :
    Copied src slots dst (cloneLoop src slots dst mem) := by
  induction slots generalizing dst mem with
  | nil => exact ⟨wf, fun _ i => (if_neg List.not_mem_nil).symm, fun failed => absurd rfl failed⟩
  | cons idx rest inductionHypothesis =>
      obtain ⟨later, distinct'⟩ := List.nodup_cons.mp distinct
      have own : dst.files idx = none := empty idx List.mem_cons_self
      have empty' : ∀ i ∈ rest, dst.files i = none :=
        fun i member => empty i (List.mem_cons_of_mem _ member)
      cases slot : src.files idx with
      | none =>
          have skips : cloneLoop src (idx :: rest) dst mem = cloneLoop src rest dst mem := by
            simp only [cloneLoop, slot]
          have copied := inductionHypothesis mem wf distinct' empty'
          rw [skips]
          refine ⟨copied.wf, fun ok i => ?_, copied.failed⟩
          rw [copied.ok ok i]
          by_cases here : i = idx
          · rw [here, if_neg later, if_pos List.mem_cons_self, slot, own]
          · simp only [List.mem_cons, here, false_or]
      | some file =>
          obtain ⟨inserted, eq⟩ : ∃ inserted, filetableInsertAt dst idx file mem = inserted :=
            ⟨_, rfl⟩
          obtain ⟨wf₁, sound⟩ := wf.insertAt (idx : Int) file mem
          rw [eq] at wf₁ sound
          unfold InsertAtSound at sound
          split at sound
          · rename_i ok
            have files := sound.2.2.2
            rw [Int.toNat_natCast] at files
            have goesOn : cloneLoop src (idx :: rest) dst mem =
                cloneLoop src rest inserted.table inserted.mem := by
              simp only [cloneLoop, slot, eq, ok, if_true]
            have kept : ∀ i, i ≠ idx → inserted.table.files i = dst.files i := by
              intro i differs
              rw [files, Function.update_of_ne differs]
            have copied := inductionHypothesis inserted.mem wf₁ distinct' fun i member =>
              (kept i fun here => later (here ▸ member)).trans (empty' i member)
            rw [goesOn]
            refine ⟨copied.wf, fun done i => ?_, copied.failed⟩
            rw [copied.ok done i]
            by_cases here : i = idx
            · rw [here, if_neg later, if_pos List.mem_cons_self, slot, files, Function.update_self]
            · simp only [List.mem_cons, here, false_or, kept i here]
          · rename_i failed
            have givesUp : cloneLoop src (idx :: rest) dst mem =
                { inserted with table := filetableInit } := by
              simp only [cloneLoop, slot, eq, failed, if_false]
            rw [givesUp]
            exact ⟨filetableInit_wf, fun ok => absurd ok failed, fun _ => rfl⟩

/-- What `filetable_clone` returns and leaves. -/
def CloneSound (src : Filetable File) (done : Done File Kerrno) : Prop :=
  if done.result = .ok then done.table.files = src.files else ∀ i, done.table.files i = none

theorem Wf.clone (wf : Wf src) (mem : Blocks) :
    Wf (filetableClone src mem).table ∧ CloneSound src (filetableClone src mem) := by
  obtain ⟨cloned, eq⟩ : ∃ cloned, cloneLoop src (List.range src.endFd) filetableInit mem = cloned :=
    ⟨_, rfl⟩
  have copied : Copied src (List.range src.endFd) filetableInit cloned :=
    eq ▸ cloneLoop_copied _ mem filetableInit_wf List.nodup_range fun _ _ => rfl
  unfold filetableClone CloneSound
  simp only [eq]
  by_cases ok : cloned.result = .ok
  · have files : cloned.table.files = src.files := by
      funext i
      rw [copied.ok ok i]
      split
      · rfl
      · rename_i outside
        rw [List.mem_range] at outside
        exact (Option.not_isSome_iff_eq_none.mp fun present => outside (wf.below i present)).symm
    simp only [ok, if_true]
    refine ⟨{ copied.wf with count := copied.wf.count, next := fun i lower => ?_ }, files⟩
    dsimp only at lower ⊢
    rw [files]
    exact wf.next i lower
  · simp only [ok, if_false]
    refine ⟨copied.wf, fun i => ?_⟩
    rw [copied.failed ok]
    rfl

end Clone

section Runs

theorem exec_wf {tables : Tables File} {call : Call File} (wf : ∀ pid, Wf (tables pid)) :
    Ensures (fun _ => True) (fun after => ∀ pid, Wf (after pid)) (exec tables call) := by
  have updated : ∀ pid (after : Filetable File), Wf after →
      ∀ other, Wf (Function.update tables pid after other) := by
    intro pid after wf' other
    by_cases same : other = pid
    · subst same
      rw [Function.update_self]
      exact wf'
    · rw [Function.update_of_ne same]
      exact wf other
  cases call with
  | insert pid file mem => exact updated pid _ ((wf pid).insert file mem).1
  | insertAt pid fd file mem => exact updated pid _ ((wf pid).insertAt fd file mem).1
  | remove pid fd => exact updated pid _ ((wf pid).removeAny fd).1
  | clone child parent mem => exact updated child _ ((wf parent).clone mem).1

/-- In every state that calls reach, whichever allocations fail, the bitmap, the count and
the bounds of each table describe its open fds.  There `filetable_insert` returns the least
free fd, and fails only when no slot is free; and a call that fails leaves the open fds and
their files as they were. -/
theorem run_filetables {tables : Tables File}
    (reached : Reaches exec Admits (fun _ => filetableInit) tables) :
    (∀ pid, Wf (tables pid)) ∧
      (∀ pid file mem, InsertSound (tables pid) file (filetableInsert (tables pid) file mem)) ∧
      (∀ pid fd file mem,
        InsertAtSound (tables pid) fd file (filetableInsertAt (tables pid) fd file mem)) ∧
      (∀ pid fd, RemoveSound (tables pid) fd (filetableRemove (tables pid) fd)) ∧
      ∀ child parent mem, Admits tables (.clone child parent mem) →
        CloneSound (tables parent) (filetableClone (tables parent) mem) ∧
          ((filetableClone (tables parent) mem).result ≠ .ok →
            (filetableClone (tables parent) mem).table.files = (tables child).files) := by
  have wf : ∀ pid, Wf (tables pid) := by
    induction reached with
    | start => exact fun _ => filetableInit_wf
    | step _ _ returned wf => exact (exec_wf wf).of_ok returned
  refine ⟨wf, fun pid file mem => ((wf pid).insert file mem).2,
    fun pid fd file mem => ((wf pid).insertAt fd file mem).2,
    fun pid fd => ((wf pid).removeAny fd).2, fun child parent mem admitted => ?_⟩
  have sound := ((wf parent).clone mem).2
  refine ⟨sound, fun failed => ?_⟩
  unfold CloneSound at sound
  rw [if_neg failed] at sound
  funext i
  rw [sound i, admitted.2 i]

/-- Two files are opened and the first one is closed again, without any memory. -/
def openedOne : Tables Nat :=
  Function.update (fun _ => filetableInit) 0
    (filetableInsert filetableInit 7 (Stream'.const none)).table

def openedTwo : Tables Nat :=
  Function.update openedOne 0 (filetableInsert (openedOne 0) 8 (Stream'.const none)).table

def closedFirst : Tables Nat :=
  Function.update openedTwo 0 (filetableRemove (openedTwo 0) 0).1

theorem run_filetables_closedFirst :
    InsertSound (closedFirst 0) 9 (filetableInsert (closedFirst 0) 9 (Stream'.const none)) := by
  have one : Reaches exec Admits (fun _ => filetableInit) openedOne :=
    Reaches.start.step (show Admits _ (.insert 0 7 (Stream'.const none)) from trivial) rfl
  have two : Reaches exec Admits (fun _ => filetableInit) openedTwo :=
    one.step (show Admits _ (.insert 0 8 (Stream'.const none)) from trivial) rfl
  have closed : Reaches exec Admits (fun _ => filetableInit) closedFirst :=
    two.step (show Admits _ (.remove 0 0) from trivial) rfl
  exact (run_filetables closed).2.1 0 9 (Stream'.const none)

end Runs

end Opal.FileTable
