import Opal.Descriptors.Operations
import Opal.FileTable.Runs
import Mathlib.Algebra.BigOperators.Group.Finset.Basic

/-!
# Counting references

Every reference to a file is a slot of a table or is held by a call in progress.  Each
section of the kernel keeps the books: what it adds to a reference count it adds to a
slot or to what its call holds.
-/

namespace Opal.Descriptors

open FileTable

section Slots

variable {files : Nat → Option Nat} {idx file : Nat}

/-- How many of the first `n` slots hold the file. -/
def countIn (n : Nat) (files : Nat → Option Nat) (file : Nat) : Nat :=
  (List.range n).countP fun i => files i = some file

/-- The slots of a table that hold the file. -/
def slotCount (table : Filetable Nat) (file : Nat) : Nat := countIn (fdMax + 1) table.files file

theorem countIn_succ (n : Nat) : countIn (n + 1) files file =
    countIn n files file + if files n = some file then 1 else 0 := by
  unfold countIn
  rw [List.range_succ, List.countP_append, List.countP_singleton]
  simp only [decide_eq_true_eq]

theorem countIn_congr {files' : Nat → Option Nat} {n : Nat}
    (same : ∀ i < n, files' i = some file ↔ files i = some file) :
    countIn n files' file = countIn n files file := by
  induction n with
  | zero => rfl
  | succ n inductionHypothesis =>
      rw [countIn_succ, countIn_succ, inductionHypothesis fun i lower =>
        same i (Nat.lt_succ_of_lt lower)]
      simp only [same n (Nat.lt_succ_self n)]

/-- One slot changes. -/
theorem countIn_update {n : Nat} (inside : idx < n) (slot : Option Nat) :
    countIn n (Function.update files idx slot) file + (if files idx = some file then 1 else 0) =
      countIn n files file + if slot = some file then 1 else 0 := by
  induction n with
  | zero => exact absurd inside (Nat.not_lt_zero _)
  | succ n inductionHypothesis =>
      rw [countIn_succ, countIn_succ]
      by_cases last : idx = n
      · subst last
        have before : countIn idx (Function.update files idx slot) file = countIn idx files file :=
          countIn_congr fun i lower => by rw [Function.update_of_ne (Nat.ne_of_lt lower)]
        rw [before, Function.update_self]
        omega
      · have earlier := inductionHypothesis (by omega)
        rw [Function.update_of_ne (Ne.symm last)]
        omega

/-- Slots behind the open ones count nothing. -/
theorem countIn_extend {n m : Nat} (le : n ≤ m) (empty : ∀ i, n ≤ i → files i = none) :
    countIn m files file = countIn n files file := by
  induction m with
  | zero =>
      obtain rfl := Nat.le_zero.mp le
      rfl
  | succ m inductionHypothesis =>
      by_cases last : n = m + 1
      · rw [last]
      · rw [countIn_succ, inductionHypothesis (by omega), if_neg, Nat.add_zero]
        rw [empty m (by omega)]
        exact fun absurd => nomatch absurd

theorem slotCount_init : slotCount filetableInit file = 0 := by
  have none : countIn (fdMax + 1) (filetableInit : Filetable Nat).files file = countIn 0 _ file :=
    countIn_extend (Nat.zero_le _) fun _ _ => rfl
  exact none

theorem slotCount_eq_endFd {table : Filetable Nat} (wf : Wf table) :
    slotCount table file = countIn table.endFd table.files file := by
  have endLe := wf.endLe
  have capacityLe := wf.capacityLe
  refine countIn_extend (by omega) fun i above => ?_
  exact Option.not_isSome_iff_eq_none.mp fun present => absurd (wf.below i present) (by omega)

end Slots

section Books

/-- Every table is well formed, and every reference beyond `held` is a slot of a process. -/
structure Balanced (store : Store) (processes : Finset Nat) (held : Nat → Nat) : Prop where
  wf : ∀ pid, Wf (store.tables pid)
  count : ∀ file, store.refcount file =
    ∑ pid ∈ processes, slotCount (store.tables pid) file + held file

variable {store : Store} {processes : Finset Nat} {held : Nat → Nat} {pid file : Nat}

/-- One more reference to a file is held. -/
def plus (held : Nat → Nat) (file : Nat) : Nat → Nat :=
  fun other => held other + if other = file then 1 else 0

@[simp]
theorem tables_setTable_self (table : Filetable Nat) :
    (store.setTable pid table).tables pid = table := Function.update_self ..

theorem tables_setTable_of_ne {p : Nat} (other : p ≠ pid) (table : Filetable Nat) :
    (store.setTable pid table).tables p = store.tables p := Function.update_of_ne other ..

theorem sum_setTable (member : pid ∈ processes) (table : Filetable Nat) (other : Nat) :
    ∑ p ∈ processes, slotCount ((store.setTable pid table).tables p) other +
        slotCount (store.tables pid) other =
      ∑ p ∈ processes, slotCount (store.tables p) other + slotCount table other := by
  have rest : ∑ p ∈ processes.erase pid, slotCount ((store.setTable pid table).tables p) other =
      ∑ p ∈ processes.erase pid, slotCount (store.tables p) other :=
    Finset.sum_congr rfl fun p inside => by
      rw [tables_setTable_of_ne (Finset.ne_of_mem_erase inside)]
  rw [← Finset.add_sum_erase _ _ member, ← Finset.add_sum_erase _ _ member, rest,
    tables_setTable_self]
  omega

theorem wf_setTable (wf : ∀ p, Wf (store.tables p)) {table : Filetable Nat} (wf' : Wf table)
    (p : Nat) : Wf ((store.setTable pid table).tables p) := by
  by_cases same : p = pid
  · subst same
    rw [tables_setTable_self]
    exact wf'
  · rw [tables_setTable_of_ne same]
    exact wf p

/-- A table is exchanged, with the references that its slots add. -/
theorem Balanced.setTable {refcount : Nat → Nat} {table : Filetable Nat} {held' : Nat → Nat}
    (balanced : Balanced store processes held) (member : pid ∈ processes) (wf : Wf table)
    (counts : ∀ other, refcount other + slotCount (store.tables pid) other + held other =
      store.refcount other + slotCount table other + held' other) :
    Balanced (Store.setTable { store with refcount := refcount } pid table) processes held' where
  wf := wf_setTable balanced.wf wf
  count := by
    intro other
    have sum := @sum_setTable { store with refcount := refcount } processes pid member table other
    have before := balanced.count other
    have change := counts other
    show refcount other = _
    dsimp only at sum
    omega

end Books

section References

variable {store : Store} {processes : Finset Nat} {held : Nat → Nat} {pid file : Nat}

/-- The one way a section stops: a file has too many references. -/
def Overflow (stop : Stop) : Prop := stop = .tooManyReferences

/-- The references of the stores differ by one on the file. -/
theorem retain_spec (balanced : Balanced store processes held) :
    Ensures Overflow (fun after => Balanced after processes (plus held file) ∧
      after.tables = store.tables ∧
      after.refcount = Function.update store.refcount file (store.refcount file + 1))
      (fileRetain store file) := by
  unfold fileRetain
  split
  · exact rfl
  · refine ⟨⟨balanced.wf, fun other => ?_⟩, rfl, rfl⟩
    dsimp only
    unfold plus
    have before := balanced.count other
    by_cases same : other = file
    · subst same
      rw [Function.update_self, if_pos rfl]
      omega
    · rw [Function.update_of_ne same, if_neg same]
      exact before

theorem release_spec (balanced : Balanced store processes (plus held file)) :
    ∃ after, fileRelease store file = .ok after ∧ Balanced after processes held ∧
      after.tables = store.tables := by
  have own := balanced.count file
  unfold plus at own
  rw [if_pos rfl] at own
  unfold fileRelease
  rw [if_neg (by omega)]
  refine ⟨_, rfl, ⟨balanced.wf, fun other => ?_⟩, rfl⟩
  dsimp only
  by_cases same : other = file
  · subst same
    rw [Function.update_self]
    omega
  · have before := balanced.count other
    unfold plus at before
    rw [Function.update_of_ne same]
    rw [if_neg same] at before
    exact before

/-- A file that is created has the reference of its creator. -/
theorem Balanced.create (balanced : Balanced store processes held)
    (fresh : store.refcount file = 0) :
      Balanced (store.create file) processes (plus held file) := by
  refine ⟨balanced.wf, fun other => ?_⟩
  have before := balanced.count other
  unfold Store.create plus
  dsimp only
  by_cases same : other = file
  · subst same
    rw [Function.update_self, if_pos rfl]
    omega
  · rw [Function.update_of_ne same, if_neg same]
    exact before

/-- The references say how the tables and the calls hold a file, so equal tables mean
equal counts. -/
theorem Balanced.refcount_eq {after : Store} (balanced : Balanced store processes held)
    (balanced' : Balanced after processes held)
    (same : ∀ p ∈ processes, (after.tables p).files = (store.tables p).files) :
    after.refcount = store.refcount := by
  funext other
  have sums : ∑ p ∈ processes, slotCount (after.tables p) other =
      ∑ p ∈ processes, slotCount (store.tables p) other :=
    Finset.sum_congr rfl fun p member => by
      unfold slotCount
      rw [same p member]
  rw [balanced.count, balanced'.count, sums]

end References

end Opal.Descriptors
