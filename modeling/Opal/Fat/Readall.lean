import Opal.Fat.Walk

/-!
# The file before the write

`fat_inode_readall` changes neither the entries nor the clusters, and once it has succeeded
there is nothing left to read: `fat_inode_write` does from there what it does from the start.
-/

namespace Opal.Fat

section Recovery

variable {fat after : FatTable} {cluster pos size : Nat}

/-- The table once the allocations and transfers succeed. -/
def FatTable.recovered (fat : FatTable) : FatTable :=
  fat.withOutcomes AllocOracle.always (Stream'.const none) (Stream'.const none)

theorem recovered_readable (fat : FatTable) : fat.recovered.Readable := fun _ => ⟨rfl, rfl⟩

/-- A read that reaches behind the table does not return all that was asked for. -/
theorem fatTableRead_short (readable : fat.Readable)
    (outside : fat.layout.fatBytes < pos + size) :
    (fatTableRead pos size fat).1 = .error .erange ∨
      ∃ n bytes, n ≠ size ∧ (fatTableRead pos size fat).1 = .ok (n, bytes) := by
  unfold fatTableRead
  rw [Op.run_get_bind]
  split
  · exact Or.inl rfl
  · rename_i start
    dsimp only
    have less : min size (fat.layout.fatBytes - pos) ≠ size := by omega
    split
    · rename_i none_left
      exact Or.inr ⟨0, fun _ => 0, none_left ▸ less, rfl⟩
    · rw [Op.run_bind_ok (fatTableReadall_eq readable)]
      exact Or.inr ⟨_, _, less, rfl⟩

theorem tableAt_of_outside (readable : fat.Readable)
    (outside : fat.layout.fatBytes < fat.layout.width.pos cluster + fat.layout.width.bytes) :
    (tableAt cluster fat).1 = .error .erange := by
  have refused {pos size : Nat} {rest : Nat × Memory → FatOp Nat}
      (outside : fat.layout.fatBytes < pos + size)
      (strict : ∀ n bytes, n ≠ size → rest (n, bytes) = Op.fail .erange) :
      ((fatTableRead pos size >>= rest) fat).1 = .error .erange := by
    have short := fatTableRead_short readable outside
    rw [Op.run_bind]
    generalize fatTableRead pos size fat = outcome at short ⊢
    obtain ⟨result, middle⟩ := outcome
    rcases short with failed | ⟨n, bytes, less, read⟩
    · cases failed
      rfl
    · cases read
      dsimp only
      rw [strict n bytes less]
      rfl
  unfold tableAt
  rw [Op.run_get_bind]
  cases width : fat.layout.width with
  | fat12 =>
      rw [width] at outside
      exact refused outside fun n bytes short => if_pos short
  | fat16 =>
      rw [width] at outside
      exact refused outside fun n bytes short => if_pos short
  | fat32 =>
      rw [width] at outside
      exact refused outside fun n bytes short => if_pos short

/-- What `table_at` returns of a table that can be read depends on its entries only. -/
theorem tableAt_congr (readable : fat.Readable) (readable' : after.Readable)
    (view : after.view = fat.view) (layout : after.layout = fat.layout) :
    (tableAt cluster after).1 = (tableAt cluster fat).1 := by
  by_cases inside : fat.layout.width.pos cluster + fat.layout.width.bytes ≤ fat.layout.fatBytes
  · rw [tableAt_of_inside readable inside, tableAt_of_inside readable' (by rwa [layout]), view,
      layout]
  · have outside := Nat.lt_of_not_le inside
    rw [tableAt_of_outside readable outside, tableAt_of_outside readable' (by rwa [layout])]

/-- What the entries of the clusters are, as `table_at` returns them when nothing fails. -/
def SameEntries (fat after : FatTable) : Prop :=
  ∀ cluster, (tableAt cluster after.recovered).1 = (tableAt cluster fat.recovered).1

theorem Still.sameEntries (still : Still fat after) : SameEntries fat after := fun _ =>
  tableAt_congr (recovered_readable fat) (recovered_readable after) still.view still.layout

theorem extendMark_inj {width : Width} {value value' : Nat} (fits : value < width.values)
    (fits' : value' < width.values)
    (same : extendMark width.limit value = extendMark width.limit value') : value = value' := by
  unfold extendMark at same
  have top : width.limit = width.values ∨
      width.limit + 16 = width.values ∧ width.values % 16 = 0 ∧ width.values ≤ 0xfffffff0 := by
    cases width <;> decide
  split_ifs at same <;> omega

/-- A stored number that differs is seen. -/
theorem SameEntries.stored_of_inside (same : SameEntries fat after)
    (layout : after.layout = fat.layout)
    (inside : fat.layout.width.pos cluster + fat.layout.width.bytes ≤ fat.layout.fatBytes) :
    after.stored cluster = fat.stored cluster := by
  have read := same cluster
  have inside' := inside
  rw [← layout] at inside'
  rw [@tableAt_of_inside fat.recovered cluster (recovered_readable fat) inside,
    @tableAt_of_inside after.recovered cluster (recovered_readable after) inside'] at read
  have values := Except.ok.inj read
  have fits := @Width.stored_lt fat.view cluster fat.layout.width
  have fits' := @Width.stored_lt after.view cluster after.layout.width
  rw [layout] at fits'
  unfold FatTable.stored
  apply @extendMark_inj fat.layout.width _ _ ?_ fits
  · have seen : after.recovered.layout = fat.layout := layout
    rw [seen] at values
    rw [layout]
    exact values
  · rw [layout]
    exact fits'

theorem SameEntries.stored_eq (same : SameEntries fat after) (holds : fat.layout.Holds)
    (layout : after.layout = fat.layout) (entry : cluster < fat.layout.clusterCount + 2) :
    after.stored cluster = fat.stored cluster :=
  same.stored_of_inside layout (entry_inside fat.tabular holds entry)

end Recovery

section Reading

variable {α β : Type} {inode file : Inode}

/-- What a step of the reading leaves as it was. -/
structure Rests (before after : Inode) : Prop where
  view : after.table.view = before.table.view
  layout : after.layout = before.layout
  clusters : after.clusters = before.clusters
  dentry : after.dentry = before.dentry
  firstCluster : after.firstCluster = before.firstCluster
  pos : after.pos = before.pos

theorem Rests.refl (inode : Inode) : Rests inode inode := ⟨rfl, rfl, rfl, rfl, rfl, rfl⟩

theorem Rests.trans {before middle after : Inode} (first : Rests before middle)
    (second : Rests middle after) : Rests before after where
  view := second.view.trans first.view
  layout := second.layout.trans first.layout
  clusters := second.clusters.trans first.clusters
  dentry := second.dentry.trans first.dentry
  firstCluster := second.firstCluster.trans first.firstCluster
  pos := second.pos.trans first.pos

/-- The operation leaves the file, whatever comes of it. -/
def Looks (op : InodeOp α) : Prop := ∀ inode, Rests inode (op inode).2

theorem Looks.pure (value : α) : Looks (pure value : InodeOp α) := Rests.refl

theorem Looks.get : Looks (Op.get : InodeOp Inode) := Rests.refl

theorem Looks.bind {op : InodeOp α} {next : α → InodeOp β} (first : Looks op)
    (second : ∀ value, Looks (next value)) : Looks (op >>= next) := by
  intro inode
  rw [Op.run_bind]
  have before := first inode
  cases ran : op inode with
  | mk outcome after =>
      rw [ran] at before
      cases outcome with
      | ok value => exact before.trans (second value after)
      | error fault => exact before

theorem allocate_looks : Looks allocate := fun _ => ⟨rfl, rfl, rfl, rfl, rfl, rfl⟩

theorem readCluster_looks (cluster : Nat) : Looks (readCluster cluster) := by
  intro inode
  unfold readCluster
  dsimp only
  split <;> exact ⟨rfl, rfl, rfl, rfl, rfl, rfl⟩

theorem onTable_looks {op : FatOp α} (keeps : Keeps op) : Looks (onTable op) := fun inode =>
  ⟨(keeps inode.table).1, (keeps inode.table).2, rfl, rfl, rfl, rfl⟩

theorem readLoop_looks (filesize rounds size cluster : Nat) (buffer : Memory) :
    Looks (readLoop filesize rounds size cluster buffer) := by
  induction rounds generalizing size cluster buffer with
  | zero => exact .pure _
  | succ rounds inductionHypothesis =>
      unfold readLoop
      apply Looks.bind .get
      intro inode
      split
      · exact .pure _
      · apply Looks.bind allocate_looks
        intro _
        apply Looks.bind (readCluster_looks cluster)
        intro data
        apply Looks.bind (onTable_looks (tableAt_keeps cluster))
        intro entry
        exact inductionHypothesis _ _ _

theorem fatInodeReadall_looks : Looks fatInodeReadall := by
  apply Looks.bind .get
  intro inode
  split
  · exact .pure _
  · dsimp only
    split
    · exact fun _ => ⟨rfl, rfl, rfl, rfl, rfl, rfl⟩
    · apply Looks.bind (readLoop_looks _ _ _ _ _)
      rintro ⟨size, buffer⟩ _
      exact ⟨rfl, rfl, rfl, rfl, rfl, rfl⟩

end Reading

section Settling

variable {inode file : Inode}

/-- The outcomes of the coming allocations and transfers. -/
structure Outcomes where
  mem : AllocOracle
  reads : Stream' (Option TransferError)
  writes : Stream' (Option (Nat × TransferError))
  entries : Stream' (Option Fault)
  tableMem : AllocOracle
  tableReads : Stream' (Option TransferError)
  tableWrites : Stream' (Option (Nat × TransferError))

/-- The file with other outcomes of the coming allocations and transfers. -/
def Inode.withOutcomes (inode : Inode) (outcomes : Outcomes) : Inode :=
  { inode with
    table :=
      inode.table.withOutcomes outcomes.tableMem outcomes.tableReads outcomes.tableWrites
    mem := outcomes.mem
    reads := outcomes.reads
    writes := outcomes.writes
    entries := outcomes.entries }

def Inode.outcomes (inode : Inode) : Outcomes where
  mem := inode.mem
  reads := inode.reads
  writes := inode.writes
  entries := inode.entries
  tableMem := inode.table.mem
  tableReads := inode.table.reads
  tableWrites := inode.table.writes

/-- The loop reads a cluster unless there is none. -/
theorem readLoop_size {filesize rounds size size' cluster : Nat} {buffer buffer' : Memory}
    (positive : 0 < inode.layout.bpc)
    (read : readLoop filesize rounds size cluster buffer inode = (.ok (size', buffer'), file)) :
    size ≤ size' ∧ (size' = size → rounds = 0 ∨ inode.layout.Ends cluster ∨ filesize ≤ size) := by
  induction rounds generalizing size cluster buffer inode with
  | zero =>
      cases read
      exact ⟨le_rfl, fun _ => Or.inl rfl⟩
  | succ rounds inductionHypothesis =>
      unfold readLoop at read
      rw [Op.run_get_bind] at read
      split at read
      · rename_i last
        cases read
        exact ⟨le_rfl, fun _ => Or.inr last⟩
      · cases allocated : allocate inode with
        | mk outcome inode₁ =>
            have first := allocate_looks inode
            rw [allocated] at first
            cases outcome with
            | error fault =>
                rw [Op.run_bind_error allocated] at read
                cases read
            | ok done =>
                rw [Op.run_bind_ok allocated] at read
                cases data : readCluster cluster inode₁ with
                | mk outcome inode₂ =>
                    have second := readCluster_looks cluster inode₁
                    rw [data] at second
                    cases outcome with
                    | error fault =>
                        rw [Op.run_bind_error data] at read
                        cases read
                    | ok bytes =>
                        rw [Op.run_bind_ok data] at read
                        cases entry : onTable (tableAt cluster) inode₂ with
                        | mk outcome inode₃ =>
                            have third := onTable_looks (tableAt_keeps cluster) inode₂
                            rw [entry] at third
                            cases outcome with
                            | error fault =>
                                rw [Op.run_bind_error entry] at read
                                cases read
                            | ok value =>
                                rw [Op.run_bind_ok entry] at read
                                have same : inode₃.layout = inode.layout :=
                                  third.layout.trans (second.layout.trans first.layout)
                                have rest := inductionHypothesis (by rwa [same]) read
                                omega

/-- The size that the entry of the directory declares. -/
def Inode.declared (inode : Inode) : Option Nat :=
  (inode.dentry.filter (·.hasSize)).map (·.fileSize)

/-- A file without a buffer is empty, and is seen to be so when it is read again. -/
def Inode.Settled (inode : Inode) : Prop :=
  inode.buffer = none → inode.filesize = 0 ∧
    (inode.declared = some 0 ∨ inode.layout.Ends (maskEntry inode.firstCluster))

theorem settled_of_fatInodeReadall (positive : 0 < inode.layout.bpc)
    (read : fatInodeReadall inode = (.ok (), file)) : file.Settled := by
  have looks := fatInodeReadall_looks inode
  rw [read] at looks
  unfold fatInodeReadall at read
  rw [Op.run_get_bind] at read
  cases present : inode.buffer with
  | some buffer =>
      rw [present] at read
      cases read
      exact fun missing => absurd (present.symm.trans missing) (by simp)
  | none =>
      rw [present] at read
      dsimp only at read
      split at read
      · rename_i empty
        cases read
        refine fun _ => ⟨rfl, Or.inl ?_⟩
        unfold Inode.declared
        cases declared : (inode.dentry.filter (·.hasSize)).map (·.fileSize) with
        | none =>
            rw [declared] at empty
            exact absurd empty (by decide)
        | some fileSize =>
            rw [declared] at empty
            exact congrArg some empty
      · rename_i nonempty
        generalize declared : (inode.dentry.filter (·.hasSize)).map (·.fileSize) = fileSize at *
        cases ran : readLoop (fileSize.getD uint32Max)
            ((fileSize.getD uint32Max + inode.layout.bpc - 1) / inode.layout.bpc) 0
            (maskEntry inode.firstCluster) (fun _ => 0) inode with
        | mk outcome after =>
            cases outcome with
            | error fault =>
                rw [Op.run_bind_error ran] at read
                cases read
            | ok got =>
                obtain ⟨size, buffer⟩ := got
                rw [Op.run_bind_ok ran] at read
                cases read
                intro missing
                have zero : size = 0 := by
                  by_contra some_read
                  simp only [if_neg some_read] at missing
                  cases missing
                subst zero
                obtain ⟨-, why⟩ := readLoop_size positive ran
                refine ⟨by cases fileSize <;> simp, Or.inr ?_⟩
                rcases why rfl with none_left | last | covered
                · have whole : inode.layout.bpc ≤
                      fileSize.getD uint32Max + inode.layout.bpc - 1 := by omega
                  exact absurd none_left (Nat.ne_of_gt (Nat.div_pos whole positive))
                · rw [looks.layout, looks.firstCluster]
                  exact last
                · omega

/-- Once the file is read, reading it again does nothing. -/
theorem Inode.Settled.fatInodeReadall_eq (settled : file.Settled) :
    fatInodeReadall file = (.ok (), file) := by
  unfold fatInodeReadall
  rw [Op.run_get_bind]
  cases present : file.buffer with
  | some buffer => rfl
  | none =>
      obtain ⟨empty, why⟩ := settled present
      dsimp only
      have same : ({ file with filesize := 0 } : Inode) = file := by rw [← empty]
      split
      · rw [Op.run_modify, same]
      · rename_i nonzero
        have declared : (file.dentry.filter (·.hasSize)).map (·.fileSize) = file.declared := rfl
        rw [declared] at nonzero ⊢
        have last : file.layout.Ends (maskEntry file.firstCluster) := by
          refine why.resolve_left fun zero => nonzero ?_
          rw [zero]
          rfl
        have stop : ∀ rounds filesize, readLoop filesize rounds 0
            (maskEntry file.firstCluster) (fun _ => 0) file = (.ok (0, fun _ => 0), file) := by
          intro rounds filesize
          cases rounds with
          | zero => rfl
          | succ rounds =>
              unfold readLoop
              rw [Op.run_get_bind, if_pos (Or.inl last)]
              rfl
        rw [Op.run_bind_ok (stop _ _)]
        dsimp only
        rw [Op.run_modify, if_pos rfl]
        have zero : (file.declared.map (min · 0)).getD 0 = 0 := by
          cases file.declared <;> simp
        rw [zero, ← present, same]

theorem Inode.Settled.withOutcomes (settled : file.Settled) (outcomes : Outcomes) :
    (file.withOutcomes outcomes).Settled := settled

/-- `fat_inode_write` starts where `fat_inode_readall` has ended. -/
theorem fatInodeWrite_of_fatInodeReadall {source : Memory} {size : Nat} {append : Bool}
    (positive : 0 < inode.layout.bpc) (read : fatInodeReadall inode = (.ok (), file)) :
    fatInodeWrite source size append inode = fatInodeWrite source size append file := by
  unfold fatInodeWrite
  rw [read, (settled_of_fatInodeReadall positive read).fatInodeReadall_eq]

end Settling

end Opal.Fat
