import Opal.Descriptors.Counting

/-!
# The sections of the descriptor calls

What each section does to the slots of its process, and that it keeps the books.
-/

namespace Opal.Descriptors

open FileTable

section Install

variable {store : Store} {processes : Finset Nat} {held : Nat → Nat} {pid file : Nat} {fd : Int}
  {mem : Blocks}

/-- The file was put into a free slot of the process. -/
structure Put (store : Store) (pid : Nat) (fd : Int) (file : Nat) (after : Store) : Prop where
  nonneg : 0 ≤ fd
  free : (store.tables pid).files fd.toNat = none
  files : (after.tables pid).files =
    Function.update (store.tables pid).files fd.toNat (some file)
  others : ∀ p, p ≠ pid → after.tables p = store.tables p

/-- Every descriptor still refers to its file. -/
def SameFiles (store after : Store) : Prop :=
  ∀ p, (after.tables p).files = (store.tables p).files

/-- There is a slot for a new file, or the table can grow. -/
def Installable (table : Filetable Nat) (fd : Int) (mem : Blocks) : Prop :=
  if fd = fdInvalid then
    table.count ≠ table.capacity ∨
      table.endFd ≤ fdMax ∧ (realloc table (table.endFd + 1) mem).1.isSome
  else
    0 ≤ fd ∧ fd ≤ fdMax ∧ table.files fd.toNat = none ∧
      (fd.toNat < table.capacity ∨ (realloc table (fd.toNat + 1) mem).1.isSome)

theorem fd_lt_of_present {table : Filetable Nat} (wf : Wf table) {idx : Nat}
    (present : (table.files idx).isSome) : idx < fdMax + 1 := by
  have := wf.below idx present
  have := wf.endLe
  have := wf.capacityLe
  omega

theorem sameFiles_setTable {table : Filetable Nat}
    (files : table.files = (store.tables pid).files) :
    SameFiles store (store.setTable pid table) := by
  intro p
  by_cases same : p = pid
  · subst same
    rw [tables_setTable_self, files]
  · rw [tables_setTable_of_ne same]

/-- A table that was only rearranged. -/
theorem Balanced.rearrange {table : Filetable Nat} (balanced : Balanced store processes held)
    (member : pid ∈ processes) (wf : Wf table) (files : table.files = (store.tables pid).files) :
    Balanced (store.setTable pid table) processes held := by
  refine balanced.setTable member wf fun other => ?_
  unfold slotCount
  rw [files]

/-- A slot is filled, and the reference of the slot is taken. -/
theorem Balanced.fill {table : Filetable Nat} {idx : Nat}
    (balanced : Balanced store processes held) (member : pid ∈ processes) (wf : Wf table)
    (free : (store.tables pid).files idx = none)
    (files : table.files = Function.update (store.tables pid).files idx (some file)) :
    Balanced (Store.setTable { store with
      refcount := Function.update store.refcount file (store.refcount file + 1) } pid table)
      processes held := by
  have present : (table.files idx).isSome := by
    rw [files, Function.update_self]
    rfl
  refine balanced.setTable member wf fun other => ?_
  have change :=
    @countIn_update (store.tables pid).files idx other (fdMax + 1) (fd_lt_of_present wf present)
    (some file)
  unfold slotCount
  rw [files]
  rw [free, if_neg nofun] at change
  by_cases same : other = file
  · subst same
    rw [Function.update_self]
    rw [if_pos rfl] at change
    omega
  · rw [Function.update_of_ne same]
    rw [if_neg (fun equal => same (Option.some.inj equal).symm)] at change
    omega

/-- What `process_open_file` leaves. -/
def Opened (store : Store) (pid file : Nat) (fd : Int) (after : Store) : Prop :=
  Put store pid fd file after ∨ fd = fdInvalid ∧ SameFiles store after

theorem filetableInsert_isSome (table : Filetable Nat) :
    (filetableInsert table file mem).result.isSome ↔ Installable table fdInvalid mem := by
  unfold filetableInsert Installable
  rw [if_pos rfl]
  by_cases full : table.count = table.capacity
  · rw [if_pos full]
    by_cases last : table.endFd > fdMax
    · rw [if_pos last]
      refine ⟨nofun, fun either => ?_⟩
      rcases either with room | ⟨bounded, _⟩
      · exact absurd full room
      · exact absurd bounded (Nat.not_le.mpr last)
    · rw [if_neg last]
      split
      · rename_i failed
        rw [failed]
        refine ⟨nofun, fun either => ?_⟩
        rcases either with room | ⟨_, grown⟩
        · exact absurd full room
        · cases grown
      · rename_i grew
        rw [grew]
        exact ⟨fun _ => .inr ⟨Nat.le_of_not_lt last, rfl⟩, fun _ => rfl⟩
  · rw [if_neg full]
    exact ⟨fun _ => .inl full, fun _ => rfl⟩

theorem filetableInsertAt_ok {table : Filetable Nat} (wf : Wf table) (known : fd ≠ fdInvalid) :
    (filetableInsertAt table fd file mem).result = .ok ↔ Installable table fd mem := by
  unfold filetableInsertAt Installable
  rw [if_neg known]
  by_cases outside : fd < 0 ∨ fd > fdMax
  · rw [if_pos outside]
    refine ⟨nofun, fun inside => ?_⟩
    omega
  · rw [if_neg outside]
    dsimp only
    by_cases large : fd.toNat ≥ table.capacity
    · have free : table.files fd.toNat = none := by
        refine Option.not_isSome_iff_eq_none.mp fun present => ?_
        have := wf.below _ present
        have := wf.endLe
        omega
      rw [if_pos large]
      cases grows : realloc table (fd.toNat + 1) mem with
      | mk outcome mem' =>
          cases outcome with
          | none =>
              refine ⟨nofun, fun inside => ?_⟩
              rcases inside.2.2.2 with small | grown
              · omega
              · cases grown
          | some grown =>
              have growth := wf.grow (congrArg Prod.fst grows)
              dsimp only
              rw [growth.files, free, if_neg nofun]
              exact ⟨fun _ => ⟨by omega, by omega, rfl, .inr rfl⟩, fun _ => rfl⟩
    · rw [if_neg large]
      dsimp only
      cases slot : table.files fd.toNat with
      | none => exact ⟨fun _ => ⟨by omega, by omega, rfl, .inl (by omega)⟩, fun _ => rfl⟩
      | some present =>
          refine ⟨nofun, fun inside => ?_⟩
          cases inside.2.2.1

theorem insertFile_spec (balanced : Balanced store processes held) (member : pid ∈ processes) :
    Ensures Overflow (fun done => Balanced done.2 processes held ∧
      Opened store pid file done.1 done.2 ∧
      (0 ≤ done.1 ↔ Installable (store.tables pid) fdInvalid mem))
      (insertFile store pid file mem) := by
  obtain ⟨wf, sound⟩ := (balanced.wf pid).insert file mem
  have exactly := @filetableInsert_isSome file mem (store.tables pid)
  unfold insertFile
  unfold InsertSound at sound
  cases result : (filetableInsert (store.tables pid) file mem).result with
  | none =>
      dsimp only
      rw [result] at sound exactly ⊢
      refine ⟨balanced.rearrange member wf sound.2, .inr ⟨rfl, sameFiles_setTable sound.2⟩, ?_⟩
      refine ⟨fun nonneg => absurd nonneg (show ¬ (0 : Int) ≤ fdInvalid by decide), fun can => ?_⟩
      cases exactly.mpr can
  | some fd =>
      dsimp only
      rw [result] at sound exactly ⊢
      refine (retain_spec balanced).bind fun after retained => ?_
      obtain ⟨_, tables, refcount⟩ := retained
      have filled := balanced.fill member wf sound.1.1 sound.2
      have same : after = { store with
          refcount := Function.update store.refcount file (store.refcount file + 1) } := by
        rw [← tables, ← refcount]
      rw [← same] at filled
      refine ⟨filled, .inl ⟨Int.natCast_nonneg fd, sound.1.1, ?_, ?_⟩, ?_⟩
      · dsimp only
        rw [tables_setTable_self]
        exact sound.2
      · intro p other
        dsimp only
        rw [tables_setTable_of_ne other, tables]
      · exact ⟨fun _ => exactly.mp rfl, fun _ => Int.natCast_nonneg fd⟩

theorem insertFileAt_spec (balanced : Balanced store processes held) (member : pid ∈ processes)
    (known : fd ≠ fdInvalid) :
    Ensures Overflow (fun done => Balanced done.2 processes held ∧
      (if done.1 = .ok then Put store pid fd file done.2 else SameFiles store done.2) ∧
      (done.1 = .ok ↔ Installable (store.tables pid) fd mem))
      (insertFileAt store pid fd file mem) := by
  obtain ⟨wf, sound⟩ := (balanced.wf pid).insertAt fd file mem
  have exactly := @filetableInsertAt_ok file fd mem (store.tables pid) (balanced.wf pid) known
  unfold insertFileAt
  unfold InsertAtSound at sound
  by_cases ok : (filetableInsertAt (store.tables pid) fd file mem).result = .ok
  · dsimp only
    rw [if_pos ok] at sound ⊢
    obtain ⟨nonneg, _, free, files⟩ := sound
    refine (retain_spec balanced).bind fun after retained => ?_
    obtain ⟨_, tables, refcount⟩ := retained
    have filled := balanced.fill member wf free files
    have same : after = { store with
        refcount := Function.update store.refcount file (store.refcount file + 1) } := by
      rw [← tables, ← refcount]
    rw [← same] at filled
    refine ⟨filled, ?_, exactly⟩
    dsimp only
    rw [if_pos ok]
    refine ⟨nonneg, free, ?_, ?_⟩
    · rw [tables_setTable_self]
      exact files
    · intro p other
      rw [tables_setTable_of_ne other, tables]
  · dsimp only
    rw [if_neg ok] at sound ⊢
    refine ⟨balanced.rearrange member wf sound, ?_, exactly⟩
    dsimp only
    rw [if_neg ok]
    exact sameFiles_setTable sound

/-- `process_open_file` takes a reference exactly when it installs the file. -/
theorem processOpenFile_spec (balanced : Balanced store processes held)
    (member : pid ∈ processes) :
    Ensures Overflow (fun done => Balanced done.2 processes held ∧
      Opened store pid file done.1 done.2 ∧
      (0 ≤ done.1 ↔ Installable (store.tables pid) fd mem))
      (processOpenFile store pid fd file mem) := by
  unfold processOpenFile
  by_cases any : fd = fdInvalid
  · rw [if_pos any, any]
    exact insertFile_spec balanced member
  · rw [if_neg any]
    refine (insertFileAt_spec balanced member any).bind fun done spec => ?_
    obtain ⟨result, after⟩ := done
    obtain ⟨balanced', effect, exactly⟩ := spec
    refine ⟨balanced', ?_, ?_⟩
    · dsimp only at effect ⊢
      split at effect
      · rename_i ok
        rw [if_pos ok]
        exact .inl effect
      · rename_i failed
        rw [if_neg failed]
        exact .inr ⟨rfl, effect⟩
    · dsimp only at effect exactly ⊢
      rw [← exactly]
      split
      · rename_i ok
        rw [if_pos ok] at effect
        exact ⟨fun _ => ok, fun _ => effect.nonneg⟩
      · rename_i failed
        exact ⟨fun nonneg => absurd nonneg (by decide), fun ok => absurd ok failed⟩

end Install

section Close

variable {store : Store} {processes : Finset Nat} {held : Nat → Nat} {pid file : Nat} {fd : Int}
  {mem : Blocks}

theorem filetableGet_eq_some {table : Filetable Nat} (found : filetableGet table fd = some file) :
    0 ≤ fd ∧ table.files fd.toNat = some file := by
  unfold filetableGet at found
  split at found
  · cases found
  · exact ⟨by omega, found⟩

theorem Balanced.referenced (balanced : Balanced store processes held) (member : pid ∈ processes)
    {idx : Nat} (present : (store.tables pid).files idx = some file) :
    0 < store.refcount file := by
  have inside : idx < fdMax + 1 :=
    fd_lt_of_present (balanced.wf pid) (by rw [present]; rfl)
  have change := @countIn_update (store.tables pid).files idx file (fdMax + 1) inside none
  have nothing : ¬ (none : Option Nat) = some file := nofun
  rw [if_pos present, if_neg nothing] at change
  have count := balanced.count file
  rw [← Finset.add_sum_erase _ _ member] at count
  unfold slotCount at count
  omega

/-- A slot is emptied, and the reference of the slot is dropped. -/
theorem Balanced.empty {table : Filetable Nat} {idx : Nat}
    (balanced : Balanced store processes held) (member : pid ∈ processes) (wf : Wf table)
    (present : (store.tables pid).files idx = some file)
    (files : table.files = Function.update (store.tables pid).files idx none) :
    Balanced (Store.setTable { store with
      refcount := Function.update store.refcount file (store.refcount file - 1) } pid table)
      processes held := by
  have inside : idx < fdMax + 1 :=
    fd_lt_of_present (balanced.wf pid) (by rw [present]; rfl)
  have positive := balanced.referenced member present
  refine balanced.setTable member wf fun other => ?_
  have change := @countIn_update (store.tables pid).files idx other (fdMax + 1) inside none
  unfold slotCount
  rw [files]
  have nothing : ¬ (none : Option Nat) = some other := nofun
  rw [present, if_neg nothing] at change
  by_cases same : other = file
  · subst same
    rw [Function.update_self]
    rw [if_pos rfl] at change
    omega
  · rw [Function.update_of_ne same]
    rw [if_neg (fun equal => same (Option.some.inj equal).symm)] at change
    omega

/-- What `process_close_file` leaves. -/
structure Closed (store : Store) (pid : Nat) (fd : Int) (after : Store) : Prop where
  files : (after.tables pid).files = Function.update (store.tables pid).files fd.toNat none
  others : ∀ p, p ≠ pid → after.tables p = store.tables p

theorem processCloseFile_spec (balanced : Balanced store processes held)
    (member : pid ∈ processes) : ∃ done, processCloseFile store pid fd = .ok done ∧
      Balanced done.2 processes held ∧
      match filetableGet (store.tables pid) fd with
      | none => done = (false, store)
      | some _ => done.1 = true ∧ Closed store pid fd done.2 := by
  unfold processCloseFile
  cases found : filetableGet (store.tables pid) fd with
  | none => exact ⟨_, rfl, balanced, rfl⟩
  | some file =>
      obtain ⟨nonneg, present⟩ := filetableGet_eq_some found
      obtain ⟨idx, rfl⟩ := Int.eq_ofNat_of_zero_le nonneg
      rw [Int.toNat_natCast] at present
      obtain ⟨wf, files⟩ := (balanced.wf pid).remove (by rw [present]; rfl)
      have positive := balanced.referenced member present
      unfold fileRelease
      dsimp only
      rw [if_neg (not_not_intro positive)]
      refine ⟨_, rfl, balanced.empty member wf present files, rfl, ?_, ?_⟩
      · dsimp only
        rw [tables_setTable_self, Int.toNat_natCast]
        exact files
      · intro p other
        dsimp only
        rw [tables_setTable_of_ne other]

theorem processGetFile_spec (balanced : Balanced store processes held) :
    Ensures Overflow (fun done => done.1 = filetableGet (store.tables pid) fd ∧
      done.2.tables = store.tables ∧
      Balanced done.2 processes (done.1.elim held (plus held)))
      (processGetFile store pid fd) := by
  unfold processGetFile
  cases found : filetableGet (store.tables pid) fd with
  | none => exact ⟨rfl, rfl, balanced⟩
  | some file =>
      refine (retain_spec balanced).bind fun after retained => ?_
      exact ⟨rfl, retained.2.1, retained.1⟩

/-- What `process_dup_fd` returns and leaves. -/
def Duplicated (store : Store) (pid : Nat) (oldfd ret : Int) (after : Store) : Prop :=
  (∃ file, filetableGet (store.tables pid) oldfd = some file ∧ 0 ≤ ret ∧
    (after.tables pid).files ret.toNat = some file) ∨ ret < 0 ∧ SameFiles store after

theorem processDupFd_spec {oldfd newfd : Int} (balanced : Balanced store processes held)
    (member : pid ∈ processes) :
    Ensures Overflow (fun done => Balanced done.2 processes held ∧
      Duplicated store pid oldfd done.1 done.2) (processDupFd store pid oldfd newfd mem) := by
  unfold processDupFd
  refine (@processGetFile_spec store processes held pid oldfd balanced).bind fun got spec => ?_
  obtain ⟨found, store₁⟩ := got
  obtain ⟨same, tables, balanced₁⟩ := spec
  cases found with
  | none =>
      refine ⟨balanced₁, .inr ⟨show fdInvalid < 0 by decide, fun p => ?_⟩⟩
      dsimp only at tables ⊢
      rw [tables]
  | some file =>
      dsimp only at same tables balanced₁ ⊢
      obtain ⟨nonneg, present⟩ := filetableGet_eq_some same.symm
      by_cases itself : newfd = oldfd
      · rw [if_pos itself]
        obtain ⟨after, released, balanced', tables'⟩ := release_spec balanced₁
        simp only [pure, Except.pure, ok_bind]
        rw [released]
        refine ⟨balanced', .inl ⟨file, same.symm, ?_, ?_⟩⟩
        · dsimp only
          rw [itself]
          exact nonneg
        · dsimp only
          rw [tables', tables, itself]
          exact present
      · rw [if_neg itself]
        refine (@processOpenFile_spec store₁ processes _ pid file newfd mem balanced₁ member).bind
          fun opened spec' => ?_
        obtain ⟨ret, store₂⟩ := opened
        obtain ⟨balanced₂, effect, _⟩ := spec'
        obtain ⟨after, released, balanced', tables'⟩ := release_spec balanced₂
        dsimp only
        rw [released]
        refine ⟨balanced', ?_⟩
        rcases effect with put | ⟨failed, kept⟩
        · refine .inl ⟨file, same.symm, put.nonneg, ?_⟩
          dsimp only
          rw [tables', put.files, Function.update_self]
        · refine .inr ⟨?_, fun p => ?_⟩
          · show ret < 0
            rw [show ret = fdInvalid from failed]
            decide
          · dsimp only
            rw [tables', kept p, tables]

end Close

section Tables

variable {store : Store} {processes : Finset Nat} {held : Nat → Nat} {pid child parent : Nat}
  {src table : Filetable Nat} {mem : Blocks}

/-- The loop of `filetable_destroy` drops one reference for each slot. -/
theorem releaseSlots_spec (slots : List Nat) (enough : ∀ file,
      slots.countP (fun i => table.files i = some file) ≤ store.refcount file) :
    ∃ after, releaseSlots table slots store = .ok after ∧ after.tables = store.tables ∧
      ∀ file, after.refcount file + slots.countP (fun i => table.files i = some file) =
        store.refcount file := by
  induction slots generalizing store with
  | nil => exact ⟨store, rfl, rfl, fun _ => rfl⟩
  | cons idx rest inductionHypothesis =>
      unfold releaseSlots
      cases slot : table.files idx with
      | none =>
          have skips : ∀ file, (idx :: rest).countP (fun i => table.files i = some file) =
              rest.countP fun i => table.files i = some file := by
            intro file
            rw [List.countP_cons_of_neg (by rw [slot, decide_eq_true_eq]; exact nofun)]
          simp only [skips] at enough ⊢
          exact inductionHypothesis enough
      | some file =>
          have own := enough file
          rw [List.countP_cons_of_pos (by rw [slot, decide_eq_true_eq])] at own
          have released : fileRelease store file = .ok { store with
              refcount := Function.update store.refcount file (store.refcount file - 1) } := by
            unfold fileRelease
            exact if_neg (by omega)
          have step : ∀ other, Function.update store.refcount file (store.refcount file - 1) other +
              (idx :: rest).countP (fun i => table.files i = some other) =
                store.refcount other + rest.countP (fun i => table.files i = some other) := by
            intro other
            by_cases same : other = file
            · subst same
              rw [Function.update_self,
                List.countP_cons_of_pos (by rw [slot, decide_eq_true_eq])]
              omega
            · have differs : ¬ some file = some other :=
                fun equal => same (Option.some.inj equal).symm
              rw [Function.update_of_ne same, List.countP_cons_of_neg (by
                rw [slot, decide_eq_true_eq]
                exact differs)]
          dsimp only
          rw [released, ok_bind]
          obtain ⟨after, ran, tables, counts⟩ := @inductionHypothesis { store with
            refcount := Function.update store.refcount file (store.refcount file - 1) }
            fun other => by
              have := step other
              have := enough other
              dsimp only
              omega
          refine ⟨after, ran, tables, fun other => ?_⟩
          have := step other
          have := counts other
          dsimp only at this
          omega

/-- The references of all slots of a table are dropped, and the table is empty. -/
theorem destroySlots_spec (balanced : Balanced store processes held) (member : pid ∈ processes) :
    ∃ after, releaseSlots (store.tables pid) (List.range (store.tables pid).endFd) store =
        .ok after ∧ after.tables = store.tables ∧
      Balanced (after.setTable pid filetableInit) processes held := by
  have counted : ∀ file, (List.range (store.tables pid).endFd).countP
      (fun i => (store.tables pid).files i = some file) = slotCount (store.tables pid) file :=
    fun file => (slotCount_eq_endFd (balanced.wf pid)).symm
  have most : ∀ file, slotCount (store.tables pid) file ≤ store.refcount file := by
    intro file
    have count := balanced.count file
    rw [← Finset.add_sum_erase _ _ member] at count
    omega
  obtain ⟨after, ran, tables, counts⟩ :=
    @releaseSlots_spec store (store.tables pid) (List.range (store.tables pid).endFd)
      fun file => (counted file).trans_le (most file)
  refine ⟨after, ran, tables, ?_⟩
  have same : after = { store with refcount := after.refcount } := by rw [← tables]
  rw [same]
  refine balanced.setTable member filetableInit_wf fun other => ?_
  have change := counts other
  rw [counted] at change
  rw [slotCount_init]
  omega

theorem destroyFiles_spec (balanced : Balanced store processes held) (member : pid ∈ processes) :
    ∃ after, destroyFiles store pid = .ok after ∧
      Balanced after (processes.erase pid) held := by
  obtain ⟨after, ran, tables, balanced'⟩ := destroySlots_spec balanced member
  refine ⟨after.setTable pid filetableInit, ?_, balanced'.wf, fun other => ?_⟩
  · unfold destroyFiles
    dsimp only
    rw [ran]
    rfl
  · rw [balanced'.count, ← Finset.add_sum_erase _ _ member, tables_setTable_self, slotCount_init,
      Nat.zero_add]

/-- A process that starts with an empty table. -/
theorem Balanced.spawn (balanced : Balanced store processes held) (fresh : child ∉ processes) :
    Balanced (store.setTable child filetableInit) (insert child processes) held := by
  refine ⟨wf_setTable balanced.wf filetableInit_wf, fun other => ?_⟩
  have rest : ∑ p ∈ processes, slotCount ((store.setTable child filetableInit).tables p) other =
      ∑ p ∈ processes, slotCount (store.tables p) other :=
    Finset.sum_congr rfl fun p inside => by
      rw [tables_setTable_of_ne (ne_of_mem_of_not_mem inside fresh)]
  rw [Finset.sum_insert fresh, tables_setTable_self, slotCount_init, Nat.zero_add, rest]
  exact balanced.count other

theorem insertFileAt_tables {fd : Int} {file : Nat} : Ensures Overflow (fun done =>
      done.1 = (filetableInsertAt (store.tables pid) fd file mem).result ∧
      done.2.tables = Function.update store.tables pid
        (filetableInsertAt (store.tables pid) fd file mem).table)
      (insertFileAt store pid fd file mem) := by
  unfold insertFileAt
  dsimp only
  split
  · unfold fileRetain
    split
    · exact rfl
    · exact ⟨rfl, rfl⟩
  · exact ⟨rfl, rfl⟩

/-- The loop of `filetable_clone` with the references is the loop of the table. -/
theorem cloneSlots_spec (slots : List Nat) (balanced : Balanced store processes held)
    (member : child ∈ processes) : Ensures Overflow (fun done =>
      Balanced done.2 processes held ∧
      done.1 = (cloneLoop src slots (store.tables child) mem).result ∧
      done.2.tables = Function.update store.tables child
        (cloneLoop src slots (store.tables child) mem).table)
      (cloneSlots src child slots store mem) := by
  induction slots generalizing store mem with
  | nil => exact ⟨balanced, rfl, (Function.update_eq_self child store.tables).symm⟩
  | cons idx rest inductionHypothesis =>
      unfold cloneSlots cloneLoop
      cases slot : src.files idx with
      | none => exact inductionHypothesis balanced
      | some file =>
          dsimp only
          have known : (idx : Int) ≠ fdInvalid := by
            unfold fdInvalid
            omega
          refine Ensures.bind ((insertFileAt_spec balanced member known).and
            (@insertFileAt_tables store child mem idx file)) fun done spec => ?_
          obtain ⟨result, inserted⟩ := done
          obtain ⟨⟨balanced₁, _, _⟩, returned, tables⟩ := spec
          dsimp only at balanced₁ returned tables ⊢
          have own : inserted.tables child =
              (filetableInsertAt (store.tables child) idx file mem).table := by
            rw [tables, Function.update_self]
          rw [← returned]
          by_cases ok : result = .ok
          · rw [if_pos ok, if_pos ok, ← own]
            refine (inductionHypothesis balanced₁).mono fun after spec => ?_
            obtain ⟨balanced', returned', tables'⟩ := spec
            refine ⟨balanced', returned', ?_⟩
            rw [tables', tables, Function.update_idem]
          · rw [if_neg ok, if_neg ok]
            obtain ⟨destroyed, ran, tables', balanced'⟩ := destroySlots_spec balanced₁ member
            rw [ran]
            refine ⟨balanced', rfl, ?_⟩
            show Function.update destroyed.tables child filetableInit = _
            rw [tables', tables, Function.update_idem]

/-- `filetable_clone` gives the child the table and takes the references of its slots. -/
theorem cloneFiles_spec (balanced : Balanced store processes held) (fresh : child ∉ processes) :
    Ensures Overflow (fun done => Balanced done.2 (insert child processes) held ∧
      done.1 = (filetableClone (store.tables parent) mem).result ∧
      done.2.tables = Function.update store.tables child
        (filetableClone (store.tables parent) mem).table)
      (cloneFiles store child parent mem) := by
  have member : child ∈ insert child processes := Finset.mem_insert_self _ _
  unfold cloneFiles
  refine (cloneSlots_spec _ (balanced.spawn fresh) member).bind fun done spec => ?_
  obtain ⟨result, cloned⟩ := done
  obtain ⟨balanced₁, returned, tables⟩ := spec
  have wf := ((balanced.wf parent).clone mem).1
  unfold filetableClone at wf ⊢
  dsimp only at returned tables wf ⊢
  rw [tables_setTable_self] at returned tables
  rw [← returned] at wf ⊢
  have own : cloned.tables child = (cloneLoop (store.tables parent)
      (List.range (store.tables parent).endFd) filetableInit mem).table := by
    rw [tables, Function.update_self]
  have rest (table : Filetable Nat) : Function.update cloned.tables child table =
      Function.update store.tables child table := by
    rw [tables, Function.update_idem]
    exact Function.update_idem ..
  by_cases ok : result = .ok
  · rw [if_pos ok] at wf ⊢
    rw [if_pos ok]
    refine ⟨balanced₁.rearrange member (own ▸ wf) rfl, rfl, ?_⟩
    show Function.update cloned.tables child _ = _
    rw [rest, own]
  · rw [if_neg ok, if_neg ok]
    refine ⟨balanced₁, returned, ?_⟩
    rw [tables]
    exact Function.update_idem ..

end Tables

end Opal.Descriptors
