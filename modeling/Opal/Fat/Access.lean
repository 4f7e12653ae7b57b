import Opal.Fat.Entries

/-!
# Reading and changing entries

Where the table can be read and holds an entry, `table_at` returns what is stored in it
and `table_set` is the change of the buffer followed by the writes to the copies.
-/

namespace Opal.Fat

section Loading

variable {fat : FatTable}

/-- The table is in the buffer, or its memory can be allocated and its sectors read. -/
def FatTable.Readable (fat : FatTable) : Prop :=
  fat.buffer = none → fat.mem.head = true ∧ fat.reads.head = none

/-- The state once the table is in the buffer. -/
def FatTable.loaded (fat : FatTable) : FatTable :=
  match fat.buffer with
  | some _ => fat
  | none =>
      { fat with buffer := some (fat.copies 0), mem := fat.mem.tail, reads := fat.reads.tail }

@[simp]
theorem loaded_buffer : fat.loaded.buffer = some fat.view := by
  unfold FatTable.loaded FatTable.view
  cases present : fat.buffer with
  | some buffer => exact present
  | none => rfl

@[simp]
theorem loaded_layout : fat.loaded.layout = fat.layout := by
  unfold FatTable.loaded
  cases fat.buffer <;> rfl

@[simp]
theorem loaded_copies : fat.loaded.copies = fat.copies := by
  unfold FatTable.loaded
  cases fat.buffer <;> rfl

theorem view_of_buffer {buffer : Memory} (present : fat.buffer = some buffer) :
    fat.view = buffer := by
  unfold FatTable.view
  rw [present, Option.getD_some]

@[simp]
theorem loaded_view : fat.loaded.view = fat.view := view_of_buffer loaded_buffer

theorem loaded_of_buffer {buffer : Memory} (present : fat.buffer = some buffer) :
    fat.loaded = fat := by
  unfold FatTable.loaded
  rw [present]

/-- The state with another table in the buffer. -/
def FatTable.withBuffer (fat : FatTable) (buffer : Memory) : FatTable :=
  { fat with buffer := some buffer }

@[simp]
theorem loaded_writes : fat.loaded.writes = fat.writes := by
  unfold FatTable.loaded
  cases fat.buffer <;> rfl

theorem readable_of_buffer {buffer : Memory} (present : fat.buffer = some buffer) :
    fat.Readable := by
  intro missing
  rw [missing] at present
  cases present

theorem fatTableReadall_eq (readable : fat.Readable) :
    fatTableReadall fat = (.ok fat.view, fat.loaded) := by
  unfold fatTableReadall FatTable.view FatTable.loaded
  rw [Op.run_get_bind]
  cases present : fat.buffer with
  | some buffer => rfl
  | none =>
      obtain ⟨allocated, read⟩ := readable present
      have first : kzalloc fat = (.ok (), { fat with mem := fat.mem.tail }) := by
        unfold kzalloc
        rw [if_pos allocated]
      have second : readTable { fat with mem := fat.mem.tail } =
          (.ok (fat.copies 0), { fat with mem := fat.mem.tail, reads := fat.reads.tail }) := by
        unfold readTable
        simp only [read]
      dsimp only
      rw [Op.run_bind_ok first, Op.run_bind_ok second, Op.run_modify_bind]
      rfl

/-- A table that cannot be read is reported, and never as one without a free entry. -/
theorem fatTableReadall_fails (unreadable : ¬fat.Readable) :
    ∃ error after, fatTableReadall fat = (.error error, after) ∧ error ≠ .enospc := by
  unfold FatTable.Readable at unreadable
  obtain ⟨missing, failing⟩ := Classical.not_imp.mp unreadable
  unfold fatTableReadall
  rw [Op.run_get_bind, missing]
  by_cases allocated : fat.mem.head = true
  · have first : kzalloc fat = (.ok (), { fat with mem := fat.mem.tail }) := by
      unfold kzalloc
      rw [if_pos allocated]
    dsimp only
    rw [Op.run_bind_ok first]
    cases outcome : fat.reads.head with
    | none => exact absurd ⟨allocated, outcome⟩ failing
    | some error =>
        refine ⟨error.fault, { fat with mem := fat.mem.tail, reads := fat.reads.tail }, ?_, ?_⟩
        · apply Op.run_bind_error
          unfold readTable
          simp only [outcome]
        · cases error <;> decide
  · refine ⟨.enomem, { fat with mem := fat.mem.tail }, ?_, by decide⟩
    apply Op.run_bind_error
    unfold kzalloc
    rw [if_neg allocated]

end Loading

section Places

variable {layout : Layout} {cluster cluster' : Nat}

/-- The table has an entry for every cluster, and the two before them. -/
def Layout.Holds (layout : Layout) : Prop :=
  (layout.clusterCount + 2) * layout.width.halves ≤ 2 * layout.fatBytes

/-- The first byte of the sectors that a change of an entry is written with. -/
def Layout.front (layout : Layout) (cluster : Nat) : Nat :=
  layout.width.pos cluster / diskSectorSize * diskSectorSize

/-- The number of the sectors that a change of an entry is written with. -/
def Layout.sectors (layout : Layout) (cluster : Nat) : Nat :=
  (layout.width.pos cluster - layout.front cluster + layout.width.bytes + diskSectorSize - 1) /
    diskSectorSize

theorem fatBytes_lt (layout : Layout) : layout.fatBytes < 2 ^ 32 := Nat.mod_lt _ (by decide)

theorem bits_of_fat12 (narrow : layout.width = .fat12) : layout.bits = 12 := by
  unfold Layout.width at narrow
  by_contra wide
  rw [if_neg wide] at narrow
  split at narrow <;> cases narrow

/-- The place of an entry is computed without wrapping around. -/
theorem half_eq (tabular : layout.Tabular) (holds : layout.Holds)
    (entry : cluster < layout.clusterCount + 2) :
    layout.width.half cluster = cluster * layout.width.halves := by
  have bound := fatBytes_lt layout
  unfold Layout.Holds at holds
  cases width : layout.width with
  | fat12 =>
      have few := tabular.narrow (bits_of_fat12 width)
      unfold fat12MaxClusters at few
      show cluster * 3 % 2 ^ 32 = cluster * 3
      exact Nat.mod_eq_of_lt (by omega)
  | fat16 =>
      rw [width] at holds
      show 2 * (cluster * 2 % 2 ^ 32) = cluster * 4
      dsimp only [Width.halves] at holds
      rw [Nat.mod_eq_of_lt (by omega)]
      omega
  | fat32 =>
      rw [width] at holds
      show 2 * (cluster * 4 % 2 ^ 32) = cluster * 8
      dsimp only [Width.halves] at holds
      rw [Nat.mod_eq_of_lt (by omega)]
      omega

/-- An entry lies in the table. -/
theorem entry_inside (tabular : layout.Tabular) (holds : layout.Holds)
    (entry : cluster < layout.clusterCount + 2) :
    layout.width.pos cluster + layout.width.bytes ≤ layout.fatBytes := by
  have place := half_eq tabular holds entry
  have enough : (cluster + 1) * layout.width.halves ≤ 2 * layout.fatBytes :=
    (Nat.mul_le_mul_right _ entry).trans holds
  cases width : layout.width with
  | fat12 =>
      rw [width] at place enough
      show Width.half .fat12 cluster / 2 + 2 ≤ layout.fatBytes
      dsimp only [Width.halves] at place enough
      rw [place]
      omega
  | fat16 =>
      rw [width] at place enough
      dsimp only [Width.half, Width.halves, Width.bytes] at place enough ⊢
      omega
  | fat32 =>
      rw [width] at place enough
      dsimp only [Width.half, Width.halves, Width.bytes] at place enough ⊢
      omega

/-- The entries of two clusters have no half byte in common. -/
theorem apart_of_ne (tabular : layout.Tabular) (holds : layout.Holds)
    (entry : cluster < layout.clusterCount + 2) (entry' : cluster' < layout.clusterCount + 2)
    (different : cluster' ≠ cluster) : layout.width.Apart cluster cluster' := by
  unfold Width.Apart
  rw [half_eq tabular holds entry, half_eq tabular holds entry', ← Nat.succ_mul, ← Nat.succ_mul]
  rcases Nat.lt_or_gt_of_ne different with less | greater
  · exact Or.inr (Nat.mul_le_mul_right _ less)
  · exact Or.inl (Nat.mul_le_mul_right _ greater)

end Places

section Reading

variable {fat : FatTable} {cluster pos size : Nat}

theorem fatTableRead_eq (readable : fat.Readable) (inside : pos + size ≤ fat.layout.fatBytes)
    (positive : 0 < size) : fatTableRead pos size fat =
      (.ok (size, fat.view.region pos), fat.loaded) := by
  have start : ¬pos > fat.layout.fatBytes := by omega
  have whole : min size (fat.layout.fatBytes - pos) = size := by omega
  unfold fatTableRead
  rw [Op.run_get_bind, if_neg start, whole, if_neg positive.ne',
    Op.run_bind_ok (fatTableReadall_eq readable)]
  rfl

theorem wordTableAt_eq {width limit : Nat} (readable : fat.Readable)
    (inside : cluster * width % 2 ^ 32 + width ≤ fat.layout.fatBytes) (positive : 0 < width) :
    wordTableAt width limit cluster fat =
      (.ok (extendMark limit (fat.view.word (cluster * width % 2 ^ 32) width)), fat.loaded) := by
  unfold wordTableAt
  rw [Op.run_bind_ok (fatTableRead_eq readable inside positive)]
  dsimp only
  rw [if_neg (not_not_intro rfl), Op.run_pure]
  refine congrArg (fun value => (Except.ok (extendMark limit value), fat.loaded)) ?_
  exact Memory.word_congr fun i _ => by simp [Memory.region]

/-- `table_at` returns what an entry inside the table stores. -/
theorem tableAt_of_inside (readable : fat.Readable)
    (inside : fat.layout.width.pos cluster + fat.layout.width.bytes ≤ fat.layout.fatBytes) :
    tableAt cluster fat =
      (.ok (extendMark fat.layout.width.limit (fat.layout.width.stored fat.view cluster)),
        fat.loaded) := by
  unfold tableAt
  rw [Op.run_get_bind]
  cases width : fat.layout.width with
  | fat12 =>
      rw [width] at inside
      have read : fatTableRead (cluster * 3 % 2 ^ 32 / 2) 2 fat =
          (.ok (2, fat.view.region (cluster * 3 % 2 ^ 32 / 2)), fat.loaded) :=
        fatTableRead_eq readable inside (by decide)
      show fat12TableAt cluster fat = _
      unfold fat12TableAt
      rw [Op.run_bind_ok read]
      rfl
  | fat16 =>
      rw [width] at inside
      exact wordTableAt_eq readable inside (by decide)
  | fat32 =>
      rw [width] at inside
      exact wordTableAt_eq readable inside (by decide)

/-- `table_at` returns what the entry stores. -/
theorem tableAt_eq (readable : fat.Readable) (holds : fat.layout.Holds)
    (entry : cluster < fat.layout.clusterCount + 2) : tableAt cluster fat =
      (.ok (extendMark fat.layout.width.limit (fat.layout.width.stored fat.view cluster)),
        fat.loaded) :=
  tableAt_of_inside readable (entry_inside fat.tabular holds entry)

/-- Only what lies in a table that could be read is read whole. -/
theorem readable_of_fatTableRead {n : Nat} {bytes : Memory} {after : FatTable}
    (positive : 0 < size) (read : fatTableRead pos size fat = (.ok (n, bytes), after))
    (whole : n = size) : fat.Readable ∧ pos + size ≤ fat.layout.fatBytes := by
  subst whole
  unfold fatTableRead at read
  rw [Op.run_get_bind] at read
  split at read
  · cases read
  · rename_i start
    dsimp only at read
    split at read
    · cases read
      omega
    · rename_i some_left
      by_cases readable : fat.Readable
      · rw [Op.run_bind_ok (fatTableReadall_eq readable)] at read
        have same := congrArg Prod.fst (Except.ok.inj (Prod.mk.inj read).1)
        exact ⟨readable, by simp only at same; omega⟩
      · obtain ⟨error, after', failed, -⟩ := fatTableReadall_fails readable
        rw [Op.run_bind_error failed] at read
        cases read

/-- What `table_at` returns is an entry inside a table that could be read. -/
theorem inside_of_tableAt {value : Nat} {after : FatTable}
    (found : tableAt cluster fat = (.ok value, after)) : fat.Readable ∧
      fat.layout.width.pos cluster + fat.layout.width.bytes ≤ fat.layout.fatBytes := by
  have whole {pos size : Nat} {rest : Nat × Memory → FatOp Nat} (positive : 0 < size)
      (strict : ∀ n bytes, n ≠ size → rest (n, bytes) = Op.fail .erange)
      (found : (fatTableRead pos size >>= rest) fat = (.ok value, after)) :
      fat.Readable ∧ pos + size ≤ fat.layout.fatBytes := by
    cases read : fatTableRead pos size fat with
    | mk outcome fat₁ =>
        cases outcome with
        | error error =>
            rw [Op.run_bind_error read] at found
            cases found
        | ok got =>
            obtain ⟨n, bytes⟩ := got
            refine readable_of_fatTableRead positive read ?_
            by_contra short
            rw [Op.run_bind_ok read, strict n bytes short] at found
            cases found
  unfold tableAt at found
  rw [Op.run_get_bind] at found
  cases width : fat.layout.width with
  | fat12 =>
      rw [width] at found
      exact whole (by decide) (fun n bytes short => if_pos short) found
  | fat16 =>
      rw [width] at found
      exact whole (by decide) (fun n bytes short => if_pos short) found
  | fat32 =>
      rw [width] at found
      exact whole (by decide) (fun n bytes short => if_pos short) found

end Reading

section Writing

variable {fat after : FatTable} {front sectors left first cluster value pos size : Nat}
  {buffer source : Memory}

/-- The copies of the table once the sectors of some of them are written. -/
def copied (copies : Nat → Memory) (front sectors : Nat) (buffer : Memory) (first left : Nat) :
    Nat → Memory := fun i =>
  if first ≤ i ∧ i < first + left then
    (copies i).copyInto front (sectors * diskSectorSize) (buffer.region front)
  else copies i

theorem copied_succ (copies : Nat → Memory) :
    copied (Function.update copies first
      ((copies first).copyInto front (sectors * diskSectorSize) (buffer.region front)))
      front sectors buffer (first + 1) left =
        copied copies front sectors buffer first (left + 1) := by
  funext i
  unfold copied
  by_cases isFirst : i = first
  · subst isFirst
    rw [if_neg (by omega), if_pos (by omega), Function.update_self]
  · rw [Function.update_of_ne isFirst]
    exact if_congr (by omega) rfl rfl

theorem writeCopies_ok (wrote : writeCopies front sectors buffer left first fat = (.ok (), after)) :
    after = { fat with
      copies := copied fat.copies front sectors buffer first left
      writes := fat.writes.drop left } := by
  induction left generalizing first fat with
  | zero =>
      have none : copied fat.copies front sectors buffer first 0 = fat.copies := by
        funext i
        exact if_neg (by omega)
      rw [none]
      exact (Prod.mk.inj wrote).2.symm
  | succ left inductionHypothesis =>
      unfold writeCopies at wrote
      cases outcome : fat.writes.head with
      | none =>
          have head : writeCopy first front sectors buffer fat = (.ok (), { fat with
              writes := fat.writes.tail
              copies := Function.update fat.copies first
                ((fat.copies first).copyInto front (sectors * diskSectorSize)
                  (buffer.region front)) }) := by
            unfold writeCopy
            simp only [outcome]
          rw [Op.run_bind_ok head] at wrote
          rw [inductionHypothesis wrote, copied_succ]
          rfl
      | some failure =>
          have head : ∃ error after, writeCopy first front sectors buffer fat =
              (.error error, after) := by
            unfold writeCopy
            simp only [outcome]
            exact ⟨_, _, rfl⟩
          obtain ⟨error, _, failed⟩ := head
          rw [Op.run_bind_error failed] at wrote
          cases wrote

theorem writeCopies_succeeds (succeeds : ∀ i < left, fat.writes.get i = none) :
    ∃ after, writeCopies front sectors buffer left first fat = (.ok (), after) := by
  induction left generalizing first fat with
  | zero => exact ⟨fat, rfl⟩
  | succ left inductionHypothesis =>
      have outcome : fat.writes.head = none := succeeds 0 (Nat.succ_pos left)
      have head : writeCopy first front sectors buffer fat = (.ok (), { fat with
          writes := fat.writes.tail
          copies := Function.update fat.copies first
            ((fat.copies first).copyInto front (sectors * diskSectorSize)
              (buffer.region front)) }) := by
        unfold writeCopy
        simp only [outcome]
      unfold writeCopies
      rw [Op.run_bind_ok head]
      exact inductionHypothesis fun i lower => succeeds (i + 1) (Nat.succ_lt_succ lower)

/-- The writes never report a table without a free entry. -/
theorem writeCopies_ne_enospc :
    (writeCopies front sectors buffer left first fat).1 ≠ .error .enospc := by
  induction left generalizing first fat with
  | zero => exact nofun
  | succ left inductionHypothesis =>
      unfold writeCopies
      rw [Op.run_bind]
      split
      · exact inductionHypothesis
      · rename_i error after failed
        intro same
        unfold writeCopy at failed
        cases outcome : fat.writes.head with
        | none =>
            simp only [outcome] at failed
            cases failed
        | some failure =>
            simp only [outcome] at failed
            obtain ⟨_, error⟩ := failure
            cases error <;> cases failed <;> cases same

theorem fatTableWrite_eq (readable : fat.Readable) (inside : pos + size ≤ fat.layout.fatBytes)
    (positive : 0 < size) : fatTableWrite pos source size fat =
      (writeCopies (pos / diskSectorSize * diskSectorSize)
        ((pos - pos / diskSectorSize * diskSectorSize + size + diskSectorSize - 1) / diskSectorSize)
        (fat.view.copyInto pos size source) fat.layout.numFats 0 >>= fun _ => pure size)
        (fat.loaded.withBuffer (fat.view.copyInto pos size source)) := by
  have bound := fatBytes_lt fat.layout
  have small : ¬size > fsSsizeMax := by
    unfold fsSsizeMax
    omega
  have start : ¬pos > fat.layout.fatBytes := by omega
  have whole : min size (fat.layout.fatBytes - pos) = size := by omega
  unfold fatTableWrite
  rw [Op.run_get_bind, if_neg small, if_neg start, whole, if_neg positive.ne',
    Op.run_bind_ok (fatTableReadall_eq readable), Op.run_modify_bind]
  rfl

/-- An entry is written whole, or the write of a copy fails. -/
theorem writeEntry_eq (readable : fat.Readable) (inside : pos + size ≤ fat.layout.fatBytes)
    (positive : 0 < size) :
    (fatTableWrite pos source size >>= fun n =>
      if n ≠ size then Op.fail .erange else pure ()) fat =
      writeCopies (pos / diskSectorSize * diskSectorSize)
        ((pos - pos / diskSectorSize * diskSectorSize + size + diskSectorSize - 1) / diskSectorSize)
        (fat.view.copyInto pos size source) fat.layout.numFats 0
        (fat.loaded.withBuffer (fat.view.copyInto pos size source)) := by
  rw [Op.run_bind, fatTableWrite_eq readable inside positive, Op.run_bind]
  generalize writeCopies _ _ _ _ _ _ = ran
  obtain ⟨outcome, after⟩ := ran
  cases outcome with
  | error error => rfl
  | ok done =>
      show (if size ≠ size then Op.fail .erange else pure () : FatOp Unit) after = _
      rw [if_neg (not_not_intro rfl)]
      rfl

/-- `table_set` changes the buffer and writes the sectors around an entry in the table. -/
theorem tableSet_of_inside (readable : fat.Readable)
    (inside : fat.layout.width.pos cluster + fat.layout.width.bytes ≤ fat.layout.fatBytes) :
    tableSet cluster value fat =
      writeCopies (fat.layout.front cluster) (fat.layout.sectors cluster)
        (fat.layout.width.encode fat.view cluster value) fat.layout.numFats 0
        (fat.loaded.withBuffer (fat.layout.width.encode fat.view cluster value)) := by
  unfold tableSet Layout.sectors Layout.front
  rw [Op.run_get_bind]
  cases width : fat.layout.width with
  | fat12 =>
      rw [width] at inside
      have read : fatTableRead (cluster * 3 % 2 ^ 32 / 2) 2 fat =
          (.ok (2, fat.view.region (cluster * 3 % 2 ^ 32 / 2)), fat.loaded) :=
        fatTableRead_eq readable inside (by decide)
      show fat12TableSet cluster value fat = _
      unfold fat12TableSet
      rw [Op.run_bind_ok read]
      have loaded : fat.loaded.Readable := readable_of_buffer loaded_buffer
      refine (writeEntry_eq loaded (by rw [loaded_layout]; exact inside) (by decide)).trans ?_
      rw [loaded_layout, loaded_view, loaded_of_buffer loaded_buffer]
      rfl
  | fat16 =>
      rw [width] at inside
      show wordTableSet 2 cluster value fat = _
      exact writeEntry_eq readable inside (by decide)
  | fat32 =>
      rw [width] at inside
      show wordTableSet 4 cluster value fat = _
      exact writeEntry_eq readable inside (by decide)

/-- `table_set` changes the buffer and writes the sectors around the entry. -/
theorem tableSet_eq (readable : fat.Readable) (holds : fat.layout.Holds)
    (entry : cluster < fat.layout.clusterCount + 2) : tableSet cluster value fat =
      writeCopies (fat.layout.front cluster) (fat.layout.sectors cluster)
        (fat.layout.width.encode fat.view cluster value) fat.layout.numFats 0
        (fat.loaded.withBuffer (fat.layout.width.encode fat.view cluster value)) :=
  tableSet_of_inside readable (entry_inside fat.tabular holds entry)

theorem fatTableRead_fails (unreadable : ¬fat.Readable)
    (inside : pos + size ≤ fat.layout.fatBytes) (positive : 0 < size) :
    ∃ error after, fatTableRead pos size fat = (.error error, after) := by
  obtain ⟨error, after, failed, -⟩ := fatTableReadall_fails unreadable
  have start : ¬pos > fat.layout.fatBytes := by omega
  have whole : min size (fat.layout.fatBytes - pos) = size := by omega
  refine ⟨error, after, ?_⟩
  unfold fatTableRead
  rw [Op.run_get_bind, if_neg start, whole, if_neg positive.ne', Op.run_bind_error failed]

theorem fatTableWrite_fails (unreadable : ¬fat.Readable)
    (inside : pos + size ≤ fat.layout.fatBytes) (positive : 0 < size) :
    ∃ error after, fatTableWrite pos source size fat = (.error error, after) := by
  obtain ⟨error, after, failed, -⟩ := fatTableReadall_fails unreadable
  have bound := fatBytes_lt fat.layout
  have small : ¬size > fsSsizeMax := by
    unfold fsSsizeMax
    omega
  have start : ¬pos > fat.layout.fatBytes := by omega
  have whole : min size (fat.layout.fatBytes - pos) = size := by omega
  refine ⟨error, after, ?_⟩
  unfold fatTableWrite
  rw [Op.run_get_bind, if_neg small, if_neg start, whole, if_neg positive.ne',
    Op.run_bind_error failed]

/-- An entry is only changed in a table that could be read. -/
theorem readable_of_tableSet (holds : fat.layout.Holds)
    (entry : cluster < fat.layout.clusterCount + 2)
    (changed : tableSet cluster value fat = (.ok (), after)) : fat.Readable := by
  by_contra unreadable
  have inside := entry_inside fat.tabular holds entry
  have fails : ∃ error after, tableSet cluster value fat = (.error error, after) := by
    unfold tableSet
    rw [Op.run_get_bind]
    cases width : fat.layout.width with
    | fat12 =>
        rw [width] at inside
        obtain ⟨error, after, failed⟩ := fatTableRead_fails unreadable inside (by decide)
        exact ⟨error, after, Op.run_bind_error failed _⟩
    | fat16 =>
        rw [width] at inside
        obtain ⟨error, after, failed⟩ := fatTableWrite_fails unreadable inside (by decide)
        exact ⟨error, after, Op.run_bind_error failed _⟩
    | fat32 =>
        rw [width] at inside
        obtain ⟨error, after, failed⟩ := fatTableWrite_fails unreadable inside (by decide)
        exact ⟨error, after, Op.run_bind_error failed _⟩
  obtain ⟨error, _, failed⟩ := fails
  rw [changed] at failed
  cases failed

/-- The table that `table_set` leaves, and the copies of it. -/
structure Changed (fat : FatTable) (cluster value : Nat) (after : FatTable) : Prop where
  layout : after.layout = fat.layout
  buffer : after.buffer = some (fat.layout.width.encode fat.view cluster value)
  copies : after.copies = copied fat.copies (fat.layout.front cluster) (fat.layout.sectors cluster)
    (fat.layout.width.encode fat.view cluster value) 0 fat.layout.numFats

theorem changed_of_inside (readable : fat.Readable)
    (inside : fat.layout.width.pos cluster + fat.layout.width.bytes ≤ fat.layout.fatBytes)
    (changed : tableSet cluster value fat = (.ok (), after)) :
    Changed fat cluster value after := by
  rw [tableSet_of_inside readable inside] at changed
  rw [writeCopies_ok changed]
  refine ⟨loaded_layout, rfl, ?_⟩
  show copied fat.loaded.copies _ _ _ _ _ = _
  rw [loaded_copies]

theorem tableSet_changed (readable : fat.Readable) (holds : fat.layout.Holds)
    (entry : cluster < fat.layout.clusterCount + 2)
    (changed : tableSet cluster value fat = (.ok (), after)) :
    Changed fat cluster value after :=
  changed_of_inside readable (entry_inside fat.tabular holds entry) changed

section Entries

variable (change : Changed fat cluster value after) (holds : fat.layout.Holds)
  (entry : cluster < fat.layout.clusterCount + 2)

include change holds

/-- Every entry can be read once one is changed. -/
theorem Changed.tableAt_eq {other : Nat} (inside : other < fat.layout.clusterCount + 2) :
    (tableAt other after).1 = .ok (extendMark fat.layout.width.limit
      (fat.layout.width.stored (fat.layout.width.encode fat.view cluster value) other)) := by
  have layout := change.layout
  rw [Fat.tableAt_eq (readable_of_buffer change.buffer) (by rw [layout]; exact holds)
    (by rw [layout]; exact inside), view_of_buffer change.buffer, layout]

theorem Changed.tableAt_self (inside : cluster < fat.layout.clusterCount + 2) :
    (tableAt cluster after).1 =
      .ok (extendMark fat.layout.width.limit (value % fat.layout.width.values)) := by
  rw [change.tableAt_eq holds inside, Width.stored_encode]

include entry

theorem Changed.tableAt_other {other : Nat} (inside : other < fat.layout.clusterCount + 2)
    (different : other ≠ cluster) : (tableAt other after).1 =
      .ok (extendMark fat.layout.width.limit (fat.layout.width.stored fat.view other)) := by
  have apart := apart_of_ne fat.tabular holds entry inside different
  rw [change.tableAt_eq holds inside, Width.stored_encode_apart _ apart]

end Entries

end Writing

end Opal.Fat
