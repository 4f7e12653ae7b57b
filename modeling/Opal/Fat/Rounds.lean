import Opal.Fat.Readall

/-!
# The rounds of the walk

A round of the loop of `fat_inode_write` writes a cluster and steps to the next one.  Whatever
it comes to, the directory and the fields of the inode are left to the end of the write.
-/

namespace Opal.Fat

section Rounds

variable {layout : Layout} {newbuf : Memory} {writePos writeEnd rounds byteIndex cluster : Nat}
  {inode after : Inode}

/-- What a round of the walk comes to. -/
inductive Round (layout : Layout) (newbuf : Memory)
    (writePos writeEnd rounds byteIndex cluster : Nat) (inode : Inode) :
    (Nat × Option Cause) × Inode → Prop where
  | broken {error : TransferError} {after : Inode}
      (put : putCluster layout newbuf writePos byteIndex cluster inode = (.error error, after)) :
      Round layout newbuf writePos writeEnd rounds byteIndex cluster inode
        ((byteIndex, some (.transfer error)), after)
  | done {after : Inode}
      (put : putCluster layout newbuf writePos byteIndex cluster inode = (.ok (), after))
      (last : (byteIndex + layout.bpc) % 2 ^ 32 ≥ writeEnd) :
      Round layout newbuf writePos writeEnd rounds byteIndex cluster inode
        (((byteIndex + layout.bpc) % 2 ^ 32, none), after)
  | stopped {after : Inode} {cause : Cause} {table : FatTable}
      (put : putCluster layout newbuf writePos byteIndex cluster inode = (.ok (), after))
      (more : (byteIndex + layout.bpc) % 2 ^ 32 < writeEnd)
      (step : stepCluster cluster after.table = (.error cause, table)) :
      Round layout newbuf writePos writeEnd rounds byteIndex cluster inode
        (((byteIndex + layout.bpc) % 2 ^ 32, some cause), { after with table := table })
  | goes {after : Inode} {next : Nat} {table : FatTable}
      (put : putCluster layout newbuf writePos byteIndex cluster inode = (.ok (), after))
      (more : (byteIndex + layout.bpc) % 2 ^ 32 < writeEnd)
      (step : stepCluster cluster after.table = (.ok next, table)) :
      Round layout newbuf writePos writeEnd rounds byteIndex cluster inode
        (writeLoop layout newbuf writePos writeEnd rounds ((byteIndex + layout.bpc) % 2 ^ 32) next
          { after with table := table })

theorem writeLoop_round : Round layout newbuf writePos writeEnd rounds byteIndex cluster inode
    (writeLoop layout newbuf writePos writeEnd (rounds + 1) byteIndex cluster inode) := by
  rw [writeLoop]
  cases put : putCluster layout newbuf writePos byteIndex cluster inode with
  | mk result after =>
      cases result with
      | error error => exact .broken put
      | ok done =>
          dsimp only
          split
          · rename_i last
            exact .done put last
          · rename_i more
            cases step : stepCluster cluster after.table with
            | mk next table =>
                cases next with
                | error cause => exact .stopped put (Nat.lt_of_not_le more) step
                | ok next => exact .goes put (Nat.lt_of_not_le more) step

/-- What the walk leaves to the end of the write. -/
structure SameFile (before after : Inode) : Prop where
  dentry : after.dentry = before.dentry
  firstCluster : after.firstCluster = before.firstCluster
  filesize : after.filesize = before.filesize
  buffer : after.buffer = before.buffer
  entries : after.entries = before.entries

theorem SameFile.refl (inode : Inode) : SameFile inode inode := ⟨rfl, rfl, rfl, rfl, rfl⟩

theorem SameFile.trans {before middle after : Inode} (first : SameFile before middle)
    (second : SameFile middle after) : SameFile before after where
  dentry := second.dentry.trans first.dentry
  firstCluster := second.firstCluster.trans first.firstCluster
  filesize := second.filesize.trans first.filesize
  buffer := second.buffer.trans first.buffer
  entries := second.entries.trans first.entries

theorem SameFile.withTable (same : SameFile inode after) (table : FatTable) :
    SameFile inode { after with table := table } := by
  obtain ⟨dentry, firstCluster, filesize, buffer, entries⟩ := same
  exact ⟨dentry, firstCluster, filesize, buffer, entries⟩

theorem putCluster_sameFile {result : Except TransferError Unit}
    (put : putCluster layout newbuf writePos byteIndex cluster inode = (result, after)) :
    SameFile inode after ∧ after.table = inode.table := by
  unfold putCluster at put
  split at put
  · unfold writeCluster at put
    dsimp only at put
    split at put <;> cases put <;> exact ⟨⟨rfl, rfl, rfl, rfl, rfl⟩, rfl⟩
  · cases put
    exact ⟨.refl _, rfl⟩

/-- Before the position nothing is written. -/
theorem putCluster_of_le (before : byteIndex + layout.bpc ≤ writePos) :
    putCluster layout newbuf writePos byteIndex cluster inode = (.ok (), inode) := by
  unfold putCluster
  rw [if_neg (Nat.not_lt.mpr before)]

theorem putCluster_breaks {written : Nat} {error : TransferError}
    (broken : inode.writes.head = some (written, error))
    (inside : byteIndex + layout.bpc > writePos) :
    ∃ after, putCluster layout newbuf writePos byteIndex cluster inode = (.error error, after) := by
  unfold putCluster writeCluster
  rw [if_pos inside, broken]
  exact ⟨_, rfl⟩

theorem writeLoop_sameFile {result : Nat × Option Cause}
    (ran : writeLoop layout newbuf writePos writeEnd rounds byteIndex cluster inode =
      (result, after)) : SameFile inode after := by
  induction rounds generalizing byteIndex cluster inode with
  | zero =>
      cases ran
      exact .refl _
  | succ rounds inductionHypothesis =>
      have round := @writeLoop_round layout newbuf writePos writeEnd rounds byteIndex cluster inode
      rw [ran] at round
      generalize outcome : (result, after) = reached at round
      cases round with
      | broken put =>
          cases outcome
          exact (putCluster_sameFile put).1
      | done put last =>
          cases outcome
          exact (putCluster_sameFile put).1
      | stopped put more step =>
          cases outcome
          exact (putCluster_sameFile put).1.withTable _
      | goes put more step =>
          exact ((putCluster_sameFile put).1.withTable _).trans (inductionHypothesis outcome.symm)

theorem next_index {bpc j : Nat} (small : (j + 1) * bpc < 2 ^ 32) :
    (j * bpc + bpc) % 2 ^ 32 = (j + 1) * bpc := by
  rw [← Nat.succ_mul]
  exact Nat.mod_eq_of_lt small

/-- The walk goes on from cluster to cluster. -/
theorem writeLoop_index {j : Nat} {index : Nat} {ended : Option Cause}
    (small : (j + rounds) * layout.bpc < 2 ^ 32)
    (ran : writeLoop layout newbuf writePos writeEnd rounds (j * layout.bpc) cluster inode =
      ((index, ended), after)) : ∃ e, j ≤ e ∧ index = e * layout.bpc := by
  induction rounds generalizing j cluster inode with
  | zero =>
      cases ran
      exact ⟨j, le_rfl, rfl⟩
  | succ rounds inductionHypothesis =>
      have next : (j * layout.bpc + layout.bpc) % 2 ^ 32 = (j + 1) * layout.bpc :=
        next_index ((Nat.mul_le_mul_right _ (by omega)).trans_lt small)
      have round := @writeLoop_round layout newbuf writePos writeEnd rounds (j * layout.bpc) cluster
        inode
      rw [ran] at round
      generalize outcome : ((index, ended), after) = reached at round
      cases round with
      | broken put =>
          cases outcome
          exact ⟨j, le_rfl, rfl⟩
      | done put last =>
          cases outcome
          exact ⟨j + 1, Nat.le_succ j, next⟩
      | stopped put more step =>
          cases outcome
          exact ⟨j + 1, Nat.le_succ j, next⟩
      | goes put more step =>
          rw [next] at outcome
          obtain ⟨e, less, same⟩ := inductionHypothesis (by
            rwa [Nat.add_right_comm, Nat.add_assoc]) outcome.symm
          exact ⟨e, by omega, same⟩

end Rounds

section Clusters

variable {newbuf : Memory} {inode : Inode} {rounds writePos size fsz c : Nat}
  {table : FatTable} {cause : Cause}

theorem writeClusters_of_error
    (first : firstOf (maskEntry inode.firstCluster) inode.table = (.error cause, table)) :
    writeClusters newbuf rounds writePos size fsz inode =
      (.error (.refused cause), { inode with table := table }) := by
  unfold writeClusters
  rw [first]

theorem writeClusters_of_ok
    (first : firstOf (maskEntry inode.firstCluster) inode.table = (.ok c, table)) :
    writeClusters newbuf rounds writePos size fsz inode =
      finish table.layout newbuf c writePos size fsz
        (writeLoop table.layout newbuf writePos (writePos + size) rounds 0 c
          { inode with table := table }) := by
  unfold writeClusters
  rw [first]
  rfl

end Clusters

section Write

variable {source : Memory} {file after : Inode} {size : Nat} {append : Bool}
  {result : Except Failure Nat}

theorem bpc_pos {bdevSectors : Nat} {layout : Layout} (placed : layout.Placed bdevSectors) :
    0 < layout.bpc := by
  have whole : 0 < diskSectorSize * layout.lsec := Nat.mul_pos (by decide) placed.lsec
  rw [← placed.bps] at whole
  exact Nat.mul_pos whole placed.spc

/-- The variable `write_pos`. -/
def Inode.writePos (append : Bool) (inode : Inode) : Nat :=
  if append then inode.filesize else inode.pos

/-- The variable `newlen`. -/
def Inode.newlen (size : Nat) (append : Bool) (inode : Inode) : Nat :=
  (max inode.filesize (inode.writePos append + size) + inode.layout.bpc - 1) /
    inode.layout.bpc * inode.layout.bpc

/-- The write gets to the clusters when the memory for the buffer is allocated. -/
structure Inode.Begins (size : Nat) (append : Bool) (inode : Inode) : Prop where
  pos : inode.writePos append ≤ uint32Max
  fits : size ≤ uint32Max - inode.writePos append
  some_bytes : size ≠ 0
  buffer : inode.newlen size append ≤ kmallocMaxSize

/-- The state that a write starts the walk with. -/
def Inode.begun (inode : Inode) : Inode := { inode with mem := inode.mem.tail }

/-- The walk of a write and what follows it. -/
def Inode.walk (source : Memory) (size : Nat) (append : Bool) (inode : Inode) :
    Except Failure Nat × Inode :=
  writeClusters (newBuffer inode (inode.writePos append) source size)
    (inode.newlen size append / inode.layout.bpc) (inode.writePos append) size
    (max inode.filesize (inode.writePos append + size)) inode.begun

/-- The rounds of the walk lie in the buffer. -/
theorem Inode.Begins.rounds_le (begins : file.Begins size append) :
    (0 + file.newlen size append / file.layout.bpc) * file.layout.bpc < 2 ^ 32 := by
  rw [Nat.zero_add]
  exact ((Nat.div_mul_le_self _ _).trans begins.buffer).trans_lt (by decide)

/-- The buffer holds all that is written. -/
theorem Inode.le_newlen (positive : 0 < file.layout.bpc) :
    max file.filesize (file.writePos append + size) ≤
      file.newlen size append / file.layout.bpc * file.layout.bpc := by
  unfold Inode.newlen
  rw [Nat.mul_div_cancel _ positive]
  have cut := Nat.lt_div_mul_add
    (a := max file.filesize (file.writePos append + size) + file.layout.bpc - 1) positive
  omega

theorem fatInodeWrite_of_begins (settled : file.Settled) (begins : file.Begins size append)
    (allocated : file.mem.head = true) :
    fatInodeWrite source size append file = some (file.walk source size append) := by
  have pos := begins.pos
  have fits := begins.fits
  have buffer : ¬(max file.filesize (file.writePos append + size) + file.layout.bpc - 1) /
      file.layout.bpc * file.layout.bpc > kmallocMaxSize := Nat.not_lt.mpr begins.buffer
  have memory : allocate file = (.ok (), file.begun) := by
    unfold allocate
    rw [if_pos allocated]
    rfl
  unfold fatInodeWrite
  rw [settled.fatInodeReadall_eq]
  dsimp only
  have writePos : (if append then file.filesize else file.pos) = file.writePos append := rfl
  rw [writePos, if_neg (by omega), if_neg begins.some_bytes, if_neg buffer, memory]
  rfl

/-- A write fails early, does nothing, or walks along the clusters. -/
theorem fatInodeWrite_cases (settled : file.Settled)
    (ran : fatInodeWrite source size append file = some (result, after)) :
    (∃ fault, result = .error (.early fault)) ∨ result = .ok 0 ∨
      file.Begins size append ∧ file.walk source size append = (result, after) := by
  unfold fatInodeWrite at ran
  rw [settled.fatInodeReadall_eq] at ran
  dsimp only at ran
  have writePos : (if append then file.filesize else file.pos) = file.writePos append := rfl
  rw [writePos] at ran
  split at ran
  · cases ran
    exact Or.inl ⟨_, rfl⟩
  · rename_i fits
    obtain ⟨pos, size'⟩ := not_or.mp fits
    split at ran
    · cases ran
      exact Or.inr (Or.inl rfl)
    · rename_i some_bytes
      split at ran
      · cases ran
      · rename_i allocatable
        unfold allocate at ran
        split at ran
        · cases ran
          exact Or.inl ⟨_, rfl⟩
        · rename_i middle allocated
          split at allocated
          · cases allocated
            exact Or.inr (Or.inr ⟨⟨by omega, by omega, some_bytes, Nat.le_of_not_lt allocatable⟩,
              Option.some.inj ran⟩)
          · cases allocated

end Write

section Sample

/-- A file on a small volume, with its first cluster, its size, and the bytes of the table. -/
def smallFile (firstCluster fileSize : Nat) (bytes : List UInt8) : Inode where
  table :=
    { layout := (shortTable 200).layout
      tabular := ⟨by decide, fun _ => by decide⟩
      buffer := some fun i => bytes.getD i 0
      copies := fun _ i => bytes.getD i 0
      mem := AllocOracle.always
      reads := Stream'.const none
      writes := Stream'.const none }
  clusters := fun _ _ => 0
  dentry := some { attr := 0x20, firstCluster := firstCluster, fileSize := fileSize }
  firstCluster := firstCluster
  filesize := fileSize
  buffer := if fileSize = 0 then none else some fun _ => 0
  pos := 0
  mem := AllocOracle.always
  reads := Stream'.const none
  writes := Stream'.const none
  entries := Stream'.const none

end Sample

end Opal.Fat
