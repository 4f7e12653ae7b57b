import Opal.Fat.Bounds
import Opal.Fat.Truncate

/-!
# Writing to a file

`fat_inode_write` reads the file into a buffer, builds the buffer of the longer file, follows
the chain of clusters and extends it where it ends, and writes every cluster from the one at
the position on.  The outcomes of the coming allocations and transfers are part of the state;
where a write fails, some sectors of the cluster may have been written.
-/

namespace Opal.Fat

section State

def fatAttrVlabel : Nat := 0x08
def fatAttrDirectory : Nat := 0x10

/-- The fields of `struct fat_dentry` that are read and written with a file. -/
structure Dentry where
  attr : Nat
  firstCluster : Nat
  fileSize : Nat
  deriving DecidableEq, Repr

/-- The entry has a file size. -/
def Dentry.hasSize (dentry : Dentry) : Bool :=
  dentry.attr &&& (fatAttrVlabel ||| fatAttrDirectory) = 0

/-- `struct fat_inode` with its volume, its entry in the parent and the position of the
caller.  `clusters` is what the device holds, `entries` the outcomes of the coming
`write_dentry`, which either changes the entry or fails. -/
structure Inode where
  table : FatTable
  clusters : Nat → Memory
  dentry : Option Dentry
  firstCluster : Nat
  filesize : Nat
  buffer : Option Memory
  pos : Nat
  mem : AllocOracle
  reads : Stream' (Option TransferError)
  writes : Stream' (Option (Nat × TransferError))
  entries : Stream' (Option Fault)

abbrev InodeOp (α : Type) := Op Inode Fault α

def Inode.layout (inode : Inode) : Layout := inode.table.layout

/-- The variable `bpc`, which is `pspc * DISK_SECTOR_SIZE` as well. -/
def Layout.bpc (layout : Layout) : Nat := layout.bytesPerSector * layout.sectorsPerCluster

/-- What the buffer of the file holds; there is none for a file without clusters. -/
def Inode.cached (inode : Inode) : Memory := inode.buffer.getD fun _ => 0

end State

section Steps

/-- An operation on the table of the volume. -/
def onTable {α : Type} (op : FatOp α) : InodeOp α := fun inode =>
  ((op inode.table).1, { inode with table := (op inode.table).2 })

/-- `kzalloc` and `dynarray_push_back`: whether the next allocation succeeds. -/
def allocate : InodeOp Unit := fun inode =>
  (if inode.mem.head then .ok () else .error .enomem, { inode with mem := inode.mem.tail })

/-- `fat_read_sectors` of one cluster. -/
def readCluster (cluster : Nat) : InodeOp Memory := fun inode =>
  let after := { inode with reads := inode.reads.tail }
  match inode.reads.head with
  | none => (.ok (inode.clusters cluster), after)
  | some error => (.error error.fault, after)

/-- `fat_write_sectors` of one cluster, from a place in the buffer on. -/
def writeCluster (layout : Layout) (cluster : Nat) (source : Memory) (inode : Inode) :
    Except TransferError Unit × Inode :=
  let after (count : Nat) : Inode := { inode with
    writes := inode.writes.tail
    clusters := Function.update inode.clusters cluster
      ((inode.clusters cluster).copyInto 0 (count * diskSectorSize) source) }
  let pspc := layout.sectorsPerCluster * layout.lsec
  match inode.writes.head with
  | none => (.ok (), after pspc)
  | some (written, error) => (.error error, after (min written pspc))

/-- `write_dentry` of the parent. -/
def writeDentry (dentry : Dentry) : InodeOp Unit := fun inode =>
  let after := { inode with entries := inode.entries.tail }
  match inode.entries.head with
  | none => (.ok (), { after with dentry := some dentry })
  | some fault => (.error fault, after)

def dentrySetFirstCluster (bits cluster : Nat) (dentry : Dentry) : Dentry :=
  { dentry with
    firstCluster :=
      if bits = 12 then cluster % 2 ^ 12 else if bits = 32 then cluster % 2 ^ 32
      else cluster % 2 ^ 16 }

end Steps

section Read

/-- The loop of `fat_inode_readall`: the number of bytes that were read, and the bytes. -/
def readLoop (filesize : Nat) : Nat → Nat → Nat → Memory → InodeOp (Nat × Memory)
  | 0, size, _, buffer => pure (size, buffer)
  | rounds + 1, size, cluster, buffer => do
      let inode ← Op.get
      if isClusterEof inode.layout cluster ∨ filesize ≤ size then pure (size, buffer)
      else
        allocate
        let data ← readCluster cluster
        let entry ← onTable (tableAt cluster)
        let bpc := inode.layout.bpc
        readLoop filesize rounds (size + bpc) (maskEntry entry) (buffer.copyInto size bpc data)

/-- `fat_inode_readall`.  An allocation that is larger than `KMALLOC_MAX_SIZE` stops the
kernel; it is left out here, for `fat_inode_write` makes one at least as large. -/
def fatInodeReadall : InodeOp Unit := do
  let inode ← Op.get
  match inode.buffer with
  | some _ => pure ()
  | none =>
      let fileSize := (inode.dentry.filter (·.hasSize)).map (·.fileSize)
      let filesize := fileSize.getD uint32Max
      if filesize = 0 then Op.modify fun inode => { inode with filesize := 0 }
      else
        let bpc := inode.layout.bpc
        let (size, buffer) ← readLoop filesize ((filesize + bpc - 1) / bpc) 0
          (maskEntry inode.firstCluster) fun _ => 0
        Op.modify fun inode => { inode with
          filesize := (fileSize.map (min · size)).getD size
          buffer := if size = 0 then none else some buffer }

end Read

section Write

/-- Where the walk along the clusters ends before all is written. -/
inductive Cause where
  | allocation (fault : Fault)
  | transfer (error : TransferError)
  | link (fault : Fault)
  | extension (fault : Fault)
  deriving DecidableEq, Repr

/-- The variable `result` at the end of the walk. -/
def Cause.fault : Cause → Fault
  | allocation fault => fault
  | transfer error => error.fault
  | link fault => fault
  | extension _ => .enospc

/-- How `fat_inode_write` fails: before the walk, at the exit `err` with the cause, or when
bytes are accepted and the entry of the directory is not written. -/
inductive Failure where
  | early (fault : Fault)
  | refused (cause : Cause)
  | unrecorded (fault : Fault)
  deriving DecidableEq, Repr

/-- The number that is returned. -/
def Failure.fault : Failure → Fault
  | early fault => fault
  | refused cause => cause.fault
  | unrecorded fault => fault

/-- The cluster behind one in the walk: the next of the chain, or a new one. -/
def stepCluster (cluster : Nat) (fat : FatTable) : Except Cause Nat × FatTable :=
  match tableAt cluster fat with
  | (.error fault, fat) => (.error (.link fault), fat)
  | (.ok entry, fat) =>
      let nextCluster := maskEntry entry
      if isClusterEof fat.layout nextCluster then
        match fatTableAppend cluster fat with
        | (.error fault, fat) => (.error (.extension fault), fat)
        | (.ok nextCluster, fat) => (.ok nextCluster, fat)
      else (.ok nextCluster, fat)

/-- The first cluster of the file, or a new one. -/
def firstOf (firstCluster : Nat) (fat : FatTable) : Except Cause Nat × FatTable :=
  if isClusterEof fat.layout firstCluster then
    match tableAlloc fat with
    | (.error fault, fat) => (.error (.allocation fault), fat)
    | (.ok firstCluster, fat) => (.ok firstCluster, fat)
  else (.ok firstCluster, fat)

/-- The write of a round of the walk: the clusters before the position are left out. -/
def putCluster (layout : Layout) (newbuf : Memory) (writePos byteIndex cluster : Nat)
    (inode : Inode) : Except TransferError Unit × Inode :=
  if byteIndex + layout.bpc > writePos then
    writeCluster layout cluster (newbuf.region byteIndex) inode
  else (.ok (), inode)

/-- The loop of `fat_inode_write`: `byte_index` at its end, and what ended it. -/
def writeLoop (layout : Layout) (newbuf : Memory) (writePos writeEnd : Nat) :
    Nat → Nat → Nat → Inode → (Nat × Option Cause) × Inode
  | 0, byteIndex, _, inode => ((byteIndex, none), inode)
  | rounds + 1, byteIndex, cluster, inode =>
      match putCluster layout newbuf writePos byteIndex cluster inode with
      | (.error error, inode) => ((byteIndex, some (.transfer error)), inode)
      | (.ok (), inode) =>
          let byteIndex := (byteIndex + layout.bpc) % 2 ^ 32
          if byteIndex ≥ writeEnd then ((byteIndex, none), inode)
          else
            let (next, table) := stepCluster cluster inode.table
            let inode := { inode with table := table }
            match next with
            | .error cause => ((byteIndex, some cause), inode)
            | .ok cluster =>
                writeLoop layout newbuf writePos writeEnd rounds byteIndex cluster inode

/-- The entry of the directory at the end of the write: the variable `result`. -/
def updateDentry (layout : Layout) (firstCluster fsz : Nat) (ended : Option Cause)
    (inode : Inode) : Except Fault Unit × Inode :=
  match inode.dentry with
  | none =>
      match ended with
      | none => (.ok (), inode)
      | some cause => (.error cause.fault, inode)
  | some dentry =>
      let moved := firstCluster ≠ maskEntry inode.firstCluster
      let resized := fsz ≠ inode.filesize ∧ dentry.hasSize
      let newDentry :=
        if moved then dentrySetFirstCluster layout.bits firstCluster dentry else dentry
      let newDentry := if resized then { newDentry with fileSize := fsz } else newDentry
      if moved ∨ resized then writeDentry newDentry inode else (.ok (), inode)

/-- The end of `fat_inode_write`, with the number of bytes, the size of the file and the
position that the walk has come to. -/
def commit (layout : Layout) (newbuf : Memory) (firstCluster size fsz writeEnd : Nat)
    (ended : Option Cause) (inode : Inode) : Except Failure Nat × Inode :=
  let (result, inode) := updateDentry layout firstCluster fsz ended inode
  let inode := { inode with
    firstCluster := firstCluster
    filesize := fsz
    buffer := some newbuf
    pos := writeEnd }
  match result with
  | .ok () => (.ok size, inode)
  | .error fault => (.error (.unrecorded fault), inode)

/-- What follows the walk: the write is refused, or ends where the walk has come to. -/
def finish (layout : Layout) (newbuf : Memory) (firstCluster writePos size fsz : Nat) :
    (Nat × Option Cause) × Inode → Except Failure Nat × Inode
  | ((byteIndex, some cause), inode) =>
      if byteIndex ≤ writePos then (.error (.refused cause), inode)
      else
        commit layout newbuf firstCluster (byteIndex - writePos) byteIndex byteIndex
          (some cause) inode
  | ((_, none), inode) =>
      commit layout newbuf firstCluster size fsz (writePos + size) none inode

/-- The walk of `fat_inode_write` and what follows it. -/
def writeClusters (newbuf : Memory) (rounds writePos size fsz : Nat) (inode : Inode) :
    Except Failure Nat × Inode :=
  let (first, table) := firstOf (maskEntry inode.firstCluster) inode.table
  let inode := { inode with table := table }
  match first with
  | .error cause => (.error (.refused cause), inode)
  | .ok firstCluster =>
      finish inode.layout newbuf firstCluster writePos size fsz
        (writeLoop inode.layout newbuf writePos (writePos + size) rounds 0 firstCluster inode)

/-- The buffer of the file after the write: the old bytes, zeros up to the position, and the
new bytes. -/
def newBuffer (inode : Inode) (writePos : Nat) (source : Memory) (size : Nat) : Memory :=
  (Memory.copyInto (fun _ => 0) 0 inode.filesize inode.cached).copyInto writePos size source

/-- `fat_inode_write`; `none` says that an allocation stops the kernel. -/
def fatInodeWrite (source : Memory) (size : Nat) (append : Bool) (inode : Inode) :
    Option (Except Failure Nat × Inode) :=
  match fatInodeReadall inode with
  | (.error fault, inode) => some (.error (.early fault), inode)
  | (.ok (), inode) =>
      let writePos := if append then inode.filesize else inode.pos
      if writePos > uint32Max ∨ size > uint32Max - writePos then
        some (.error (.early .enospc), inode)
      else
        let fsz := max inode.filesize (writePos + size)
        if size = 0 then some (.ok 0, inode)
        else
          let bpc := inode.layout.bpc
          let newlen := (fsz + bpc - 1) / bpc * bpc
          if newlen > kmallocMaxSize then none
          else
            let newbuf := newBuffer inode writePos source size
            match allocate inode with
            | (.error fault, inode) => some (.error (.early fault), inode)
            | (.ok (), inode) =>
                some (writeClusters newbuf (newlen / bpc) writePos size fsz inode)

end Write

end Opal.Fat
