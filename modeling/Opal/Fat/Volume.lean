import Opal.Dirent.FileSystems
import Opal.Fat.Inode

/-!
# Files of a volume

The files of the fixed root directory share the table and the clusters of the volume.  Each has an
inode with a buffer of its own while it is in use, and every handle of a file has a position.  The
device does not fail; memory may be short.
-/

namespace Opal.Fat

open Opal.Dirent (fatDentrySize fatDentryAt dentryIsEnd dentryIsSpecial)

section State

/-- The fields of `struct fat_inode` that belong to one file. -/
structure Node where
  firstCluster : Nat
  filesize : Nat
  buffer : Option Memory

/-- `struct file`: the flags `FILE_READ`, `FILE_WRITE` and `FILE_APPEND` and the position. -/
structure Handle where
  idx : Nat
  readable : Bool
  writable : Bool
  append : Bool
  pos : Nat
  deriving DecidableEq, Repr

/-- `struct fat_sb` with the root directory, the inodes by the index of their entry and the files
that have been opened.  `sectors` is what the device holds of the directory. -/
structure Volume where
  table : FatTable
  clusters : Nat → Memory
  sectors : Memory
  root : Option Memory
  nodes : Nat → Option Node
  handles : List (Option Handle)
  mem : AllocOracle

abbrev VolumeOp (α : Type) := Op Volume Fault α

def Volume.layout (v : Volume) : Layout := v.table.layout

/-- The number of entries of the fixed root directory. -/
def Layout.rootEntries (layout : Layout) : Nat :=
  match layout.root with
  | .fixed _ entries => entries
  | .cluster _ => 0

end State

section Directory

/-- An entry of the directory, as bytes. -/
def dentryBytes (dentries : Memory) (idx : Nat) : Memory := dentries.region (fatDentrySize * idx)

/-- The fields of an entry.  Only the root directory of FAT32, which is a file, has entries that
use the upper half of the first cluster. -/
def Dentry.ofBytes (bytes : Memory) : Dentry where
  attr := (bytes 11).toNat
  firstCluster := bytes.word 26 2
  fileSize := bytes.word 28 4

/-- An entry with other fields. -/
def Dentry.intoBytes (dentry : Dentry) (bytes : Memory) : Memory :=
  (bytes.copyInto 26 2 (Memory.bytesOf dentry.firstCluster)).copyInto 28 4
    (Memory.bytesOf dentry.fileSize)

/-- `get_dentry`. -/
def getDentry (root : Memory) (idx : Nat) : Dentry := .ofBytes (dentryBytes root idx)

/-- `kzalloc` of an inode or a file. -/
def kzallocObject : VolumeOp Unit := fun v =>
  (if v.mem.head then .ok () else .error .enomem, { v with mem := v.mem.tail })

def rootInodeReadall : VolumeOp Memory := fun v =>
  let (result, inode) := Dirent.rootInodeReadall {
    sectors := v.sectors
    entries := v.layout.rootEntries
    buffer := v.root
    mem := v.mem
    reads := Stream'.const none }
  (result, { v with root := inode.buffer, mem := inode.mem })

/-- `root_inode_write_dentry`: the sector of the entry is written. -/
def rootInodeWriteDentry (dentry : Memory) (index : Nat) : VolumeOp Unit := do
  let buffer ← rootInodeReadall
  let v ← Op.get
  if index > v.layout.rootEntries then Op.fail .erange
  else if index = v.layout.rootEntries then Op.fail .enospc
  else
    let buffer := buffer.copyInto (fatDentrySize * index) fatDentrySize dentry
    let deSec := fatDentrySize * index / diskSectorSize
    Op.modify fun v => { v with
      root := some buffer
      sectors := v.sectors.copyInto (deSec * diskSectorSize) diskSectorSize
        (buffer.region (deSec * diskSectorSize)) }

/-- The entry is not in use. -/
def dentryIsFree (root : Memory) (idx : Nat) : Bool :=
  root (fatDentrySize * idx) = 0 ∨ root (fatDentrySize * idx) = 0xe5

def rootInodeAllocDentry : VolumeOp Nat := do
  let buffer ← rootInodeReadall
  let v ← Op.get
  match (List.range v.layout.rootEntries).find? (dentryIsFree buffer) with
  | some idx => pure idx
  | none => Op.fail .enospc

/-- `fat_inode_init` of a file. -/
def Volume.withNode (v : Volume) (idx firstCluster : Nat) : Volume :=
  { v with nodes := Function.update v.nodes idx (some {
      firstCluster := firstCluster
      filesize := 0
      buffer := none }) }

/-- The entry of a new file. -/
def newDentry (name : List UInt8) : Memory := fun i => if i < 11 then name.getD i 0 else 0

/-- `fat_inode_create_child` of a file in the root directory. -/
def fatInodeCreateChild (name : List UInt8) : VolumeOp Nat :=
  match packFilename name with
  | none => Op.fail .einval
  | some name => do
      kzallocObject
      let didx ← rootInodeAllocDentry
      rootInodeWriteDentry (newDentry name) didx
      Op.modify fun v => v.withNode didx 0
      pure didx

/-- The entry is there and is no end mark, no deleted entry and no label. -/
def dentryIsVisible (root : Memory) (idx : Nat) : Bool :=
  !dentryIsEnd (fatDentryAt root idx) && !dentryIsSpecial (fatDentryAt root idx)

def dentryGetChild (root : Memory) (direntId : Nat) : VolumeOp Unit := do
  let v ← Op.get
  if direntId ≥ v.layout.rootEntries then Op.fail .erange
  else if ¬dentryIsVisible root direntId then Op.fail .enoent
  else
    kzallocObject
    Op.modify fun v => v.withNode direntId (getDentry root direntId).firstCluster

/-- `path_entry_lookup` of the name of an entry: the inode is kept once it has been made. -/
def lookupEntry (idx : Nat) : VolumeOp Unit := do
  let v ← Op.get
  if (v.nodes idx).isSome then pure ()
  else
    let root ← rootInodeReadall
    dentryGetChild root idx

end Directory

section Files

/-- The inode of a file with what the files share. -/
def Volume.inode (v : Volume) (node : Node) (dentry : Dentry) (pos : Nat) : Inode where
  table := v.table
  clusters := v.clusters
  dentry := some dentry
  firstCluster := node.firstCluster
  filesize := node.filesize
  buffer := node.buffer
  pos := pos
  mem := v.mem
  reads := Stream'.const none
  writes := Stream'.const none
  entries := Stream'.const none

/-- The volume behind an operation on an inode. -/
def Volume.withInode (v : Volume) (idx : Nat) (inode : Inode) : Volume :=
  { v with
    table := inode.table
    clusters := inode.clusters
    nodes := Function.update v.nodes idx (some {
      firstCluster := inode.firstCluster
      filesize := inode.filesize
      buffer := inode.buffer })
    mem := inode.mem }

inductive FsSeek where
  | set
  | ends
  deriving DecidableEq, Repr

variable (idx : Nat) (node : Node) (root : Memory)

def fatFileSeek (offset : Int) (origin : FsSeek) : VolumeOp Nat := fun v =>
  let dentry := getDentry root idx
  if dentry.attr &&& fatAttrDirectory ≠ 0 then (.error .eisdir, v)
  else
    match fatInodeReadall (v.inode node dentry 0) with
    | (.error fault, inode) => (.error fault, v.withInode idx inode)
    | (.ok (), inode) =>
        let v := v.withInode idx inode
        match origin with
        | .set =>
            if offset < 0 ∨ offset > inode.filesize then (.error .erange, v)
            else (.ok offset.toNat, v)
        | .ends =>
            if offset > 0 ∨ offset < -inode.filesize then (.error .erange, v)
            else (.ok (inode.filesize + offset).toNat, v)

def fatFileRead (pos size : Nat) : VolumeOp (List UInt8) := fun v =>
  let dentry := getDentry root idx
  if dentry.attr &&& fatAttrDirectory ≠ 0 then (.error .eisdir, v)
  else
    match fatInodeReadall (v.inode node dentry pos) with
    | (.error fault, inode) => (.error fault, v.withInode idx inode)
    | (.ok (), inode) =>
        let v := v.withInode idx inode
        if pos > inode.filesize then (.error .erange, v)
        else
          let size := min size (inode.filesize - pos)
          (.ok ((List.range size).map fun i => inode.cached (pos + i)), v)

/-- The entry of a file behind a write, where `write_dentry` has been called. -/
def Volume.recorded (v : Volume) (inode : Inode) : Volume :=
  match inode.dentry with
  | none => v
  | some dentry =>
      if dentry = getDentry root idx then v
      else (rootInodeWriteDentry (dentry.intoBytes (dentryBytes root idx)) idx v).2

/-- `fat_file_write`, with the number of bytes and the position; `none` says that an allocation
stops the kernel. -/
def fatFileWrite (pos : Nat) (source : List UInt8) (append : Bool) (v : Volume) :
    Option (Except Fault (Nat × Nat) × Volume) :=
  let dentry := getDentry root idx
  if dentry.attr &&& fatAttrDirectory ≠ 0 then some (.error .eisdir, v)
  else
    let bytes := fun i => source.getD i 0
    match fatInodeWrite bytes source.length append (v.inode node dentry pos) with
    | none => none
    | some (result, inode) =>
        let v := (v.withInode idx inode).recorded idx root inode
        match result with
        | .ok n => some (.ok (n, inode.pos), v)
        | .error failure => some (.error failure.fault, v)

/-- `fat_file_truncate`; `none` says that the loop has not ended. -/
def fatFileTruncate (size : Nat) (v : Volume) : Option (Except Fault Unit × Volume) :=
  let dentry := getDentry root idx
  if dentry.attr &&& fatAttrDirectory ≠ 0 then some (.error .eisdir, v)
  else if size ≠ 0 then some (.error .einval, v)
  else
    let newDentry := { dentrySetFirstCluster v.layout.bits 0 dentry with fileSize := 0 }
    match rootInodeWriteDentry (newDentry.intoBytes (dentryBytes root idx)) idx v with
    | (.error fault, v) => some (.error fault, v)
    | (.ok (), v) =>
        match freeChain (v.layout.clusterCount + 4) (maskEntry node.firstCluster) v.table with
        | none => none
        | some (result, table) => some (result, { v with
            table := table
            nodes := Function.update v.nodes idx (some {
              firstCluster := 0
              filesize := 0
              buffer := none }) })

end Files

section Requests

/-- A component of a path, which is a C string. -/
def FileName : Type := { name : List UInt8 // (0 : UInt8) ∉ name }

/-- What the kernel is asked for; handles are named by their numbers. -/
inductive Request where
  | create (name : FileName)
  | lookup (idx : Nat)
  | openFile (idx : Nat) (readable writable append : Bool)
  | seek (h : Nat) (offset : Int) (origin : FsSeek)
  | read (h size : Nat)
  | write (h : Nat) (source : List UInt8)
  | truncate (h size : Nat)
  | close (h : Nat)
  /-- The inode of a file without handles is given back. -/
  | forget (idx : Nat)
  /-- The volume is unmounted and mounted again. -/
  | mount

inductive Answer where
  | failed (fault : Fault)
  /-- `ENOTSUPP`. -/
  | notSupported
  | done
  | entry (idx : Nat)
  | handle (h : Nat)
  | position (pos : Nat)
  | bytes (bytes : List UInt8)
  | count (n : Nat)
  deriving DecidableEq, Repr

/-- The file of a handle. -/
def Volume.opened (v : Volume) (h : Nat) : Option (Handle × Node × Memory) :=
  match v.handles[h]?.join with
  | none => none
  | some handle =>
      match v.nodes handle.idx, v.root with
      | some node, some root => some (handle, node, root)
      | _, _ => none

/-- The position of a handle. -/
def Volume.moved (v : Volume) (h pos : Nat) : Volume :=
  { v with handles := v.handles.modify h (Option.map fun handle => { handle with pos := pos }) }

/-- `fat_inode_open`. -/
def fatInodeOpen (idx : Nat) (root : Memory) (readable writable append : Bool) : VolumeOp Nat := do
  if (getDentry root idx).attr &&& fatAttrDirectory ≠ 0 ∧ (writable ∨ append) then Op.fail .eisdir
  else
    kzallocObject
    let v ← Op.get
    Op.modify fun v => { v with
      handles := v.handles ++ [some { idx, readable, writable, append, pos := 0 }] }
    pure v.handles.length

def answered {α : Type} (answer : α → Answer) : Except Fault α × Volume → Answer × Volume
  | (.ok value, v) => (answer value, v)
  | (.error fault, v) => (.failed fault, v)

/-- A request for a handle that is not open is no step, nor is a read of a directory, which lists
its entries. -/
def step (v : Volume) : Request → Option (Answer × Volume)
  | .create name => some (answered .entry (fatInodeCreateChild name.1 v))
  | .lookup idx => some (answered (fun _ => .done) (lookupEntry idx v))
  | .openFile idx readable writable append =>
      match v.nodes idx, v.root with
      | some _, some root =>
          some (answered .handle (fatInodeOpen idx root readable writable append v))
      | _, _ => none
  | .seek h offset origin =>
      (v.opened h).map fun (handle, node, root) =>
        match fatFileSeek handle.idx node root offset origin v with
        | (.ok pos, v) => (.position pos, v.moved h pos)
        | (.error fault, v) => (.failed fault, v)
  | .read h size =>
      match v.opened h with
      | none => none
      | some (handle, node, root) =>
          if ¬handle.readable then some (.notSupported, v)
          else if (getDentry root handle.idx).attr &&& fatAttrDirectory ≠ 0 then none
          else
            match fatFileRead handle.idx node root handle.pos size v with
            | (.ok bytes, v) => some (.bytes bytes, v.moved h (handle.pos + bytes.length))
            | (.error fault, v) => some (.failed fault, v)
  | .write h source =>
      match v.opened h with
      | none => none
      | some (handle, node, root) =>
          if ¬handle.writable then some (.notSupported, v)
          else
            match fatFileWrite handle.idx node root handle.pos source handle.append v with
            | none => none
            | some (.ok (n, pos), v) => some (.count n, v.moved h pos)
            | some (.error fault, v) => some (.failed fault, v)
  | .truncate h size =>
      match v.opened h with
      | none => none
      | some (handle, node, root) =>
          if ¬handle.writable then some (.notSupported, v)
          else
            match fatFileTruncate handle.idx node root size v with
            | none => none
            | some (.ok (), v) => some (.done, v.moved h 0)
            | some (.error fault, v) => some (.failed fault, v)
  | .close h => some (.done, { v with handles := v.handles.set h none })
  | .forget idx =>
      if v.handles.any fun handle => handle.any (·.idx = idx) then none
      else some (.done, { v with nodes := Function.update v.nodes idx none })
  | .mount =>
      if v.handles.any Option.isSome then none
      else some (.done, { v with
        table := { v.table with buffer := none }
        root := none
        nodes := fun _ => none })

/-- Requests one after the other. -/
def run : Volume → List Request → Option (List Answer × Volume)
  | v, [] => some ([], v)
  | v, request :: rest =>
      match step v request with
      | none => none
      | some (answer, v) => (run v rest).map fun (answers, v) => (answer :: answers, v)

end Requests

end Opal.Fat
