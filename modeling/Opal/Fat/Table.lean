import Opal.Basic
import Opal.Fat.Layout
import Opal.Library.Bytes
import Opal.Library.Operation

/-!
# The file allocation table

The operations of `fat_table.c`: the table is read into a buffer once, every change is
made in the buffer and then written to each copy of the table on the device.  The
outcomes of the coming allocations, reads and writes are part of the state; where a write
fails, some of its sectors may have been written.
-/

namespace Opal.Fat

/-- How a call fails: with an error code, or by a scan that leaves its buffer. -/
inductive Fault where
  | einval
  | enomem
  | erange
  | enospc
  | enoent
  | enotdir
  | eisdir
  | ebusy
  | eio
  | stray
  deriving DecidableEq, Repr

/-- How a transfer fails: the request is refused, or the device reports an error. -/
inductive TransferError where
  | ebusy
  | eio
  deriving DecidableEq, Repr

def TransferError.fault : TransferError → Fault
  | ebusy => .ebusy
  | eio => .eio

/-- What a mount guarantees of the layout for the table. -/
structure Layout.Tabular (layout : Layout) : Prop where
  bps : isValidBps layout.bytesPerSector = true
  narrow : layout.bits = 12 → layout.clusterCount ≤ fat12MaxClusters

theorem parseBpb_tabular {bdevSectors : Nat} {bpb : Bpb} {layout : Layout}
    (parsed : parseBpb bdevSectors bpb = some layout) : layout.Tabular := by
  unfold parseBpb at parsed
  split at parsed
  · rename_i accepted
    cases parsed
    refine ⟨accepted.bps, fun narrow => ?_⟩
    simp only [Bpb.layout, Bpb.bits] at narrow
    split at narrow
    · cases narrow
    · split at narrow
      · rename_i few
        exact few
      · cases narrow
  · cases parsed

/-- `struct fat_table` with the layout of its volume and what the device holds. -/
structure FatTable where
  layout : Layout
  tabular : layout.Tabular
  buffer : Option Memory
  copies : Nat → Memory
  mem : AllocOracle
  reads : Stream' (Option TransferError)
  writes : Stream' (Option (Nat × TransferError))

abbrev FatOp (α : Type) := Op FatTable Fault α

/-- `FS_SSIZE_MAX`. -/
def fsSsizeMax : Nat := 2 ^ 63 - 1

def Layout.fatBytes (layout : Layout) : Nat := layout.fatSectors * layout.bytesPerSector % 2 ^ 32

section File

/-- `kzalloc`: whether the next allocation succeeds. -/
def kzalloc : FatOp Unit := fun fat =>
  (if fat.mem.head then .ok () else .error .enomem, { fat with mem := fat.mem.tail })

/-- `fat_read_sectors` on the first copy of the table. -/
def readTable : FatOp Memory := fun fat =>
  let after := { fat with reads := fat.reads.tail }
  match fat.reads.head with
  | none => (.ok (fat.copies 0), after)
  | some error => (.error error.fault, after)

/-- `fat_table_readall`; the buffer is returned for the caller. -/
def fatTableReadall : FatOp Memory := do
  let fat ← Op.get
  match fat.buffer with
  | some buffer => pure buffer
  | none =>
      kzalloc
      let table ← readTable
      Op.modify fun fat => { fat with buffer := some table }
      pure table

/-- `fat_table_read`: the number of bytes read, and the bytes. -/
def fatTableRead (pos size : Nat) : FatOp (Nat × Memory) := do
  let fat ← Op.get
  if pos > fat.layout.fatBytes then Op.fail .erange
  else
    let size := min size (fat.layout.fatBytes - pos)
    if size = 0 then pure (0, fun _ => 0)
    else
      let buffer ← fatTableReadall
      pure (size, buffer.region pos)

/-- `fat_write_sectors` on one copy of the table, the sectors coming from the buffer. -/
def writeCopy (fati frontPos sectors : Nat) (buffer : Memory) : FatOp Unit := fun fat =>
  let after (count : Nat) : FatTable := { fat with
    writes := fat.writes.tail
    copies := Function.update fat.copies fati
      ((fat.copies fati).copyInto frontPos (count * diskSectorSize) (buffer.region frontPos)) }
  match fat.writes.head with
  | none => (.ok (), after sectors)
  | some (written, error) => (.error error.fault, after (min written sectors))

/-- The loop of `fat_table_write` over the copies from `fati` on. -/
def writeCopies (frontPos sectors : Nat) (buffer : Memory) : Nat → Nat → FatOp Unit
  | 0, _ => pure ()
  | left + 1, fati => do
      writeCopy fati frontPos sectors buffer
      writeCopies frontPos sectors buffer left (fati + 1)

/-- `fat_table_write`: the number of bytes written. -/
def fatTableWrite (pos : Nat) (source : Memory) (size : Nat) : FatOp Nat := do
  let fat ← Op.get
  if size > fsSsizeMax then Op.fail .einval
  else if pos > fat.layout.fatBytes then Op.fail .erange
  else
    let size := min size (fat.layout.fatBytes - pos)
    if size = 0 then pure 0
    else
      let buffer ← fatTableReadall
      let buffer := buffer.copyInto pos size source
      Op.modify fun fat => { fat with buffer := some buffer }
      let sectorPos := pos / diskSectorSize
      let frontPos := sectorPos * diskSectorSize
      let frontGap := pos - frontPos
      let sectors := (frontGap + size + diskSectorSize - 1) / diskSectorSize
      writeCopies frontPos sectors buffer fat.layout.numFats 0
      pure size

end File

section Entries

/-- The end marks of the narrow tables are widened to those of the wide one. -/
def extendMark (limit value : Nat) : Nat :=
  if limit ≤ value then 0xfffffff0 + value % 16 else value

def fat12TableAt (cluster : Nat) : FatOp Nat := do
  let (n, entry) ← fatTableRead (cluster * 3 % 2 ^ 32 / 2) 2
  if n ≠ 2 then Op.fail .erange
  else
    let value :=
      if cluster % 2 = 0 then (entry 0).toNat + (entry 1).toNat % 16 * 256
      else (entry 0).toNat / 16 + (entry 1).toNat * 16
    pure (extendMark 0xff0 value)

def fat12TableSet (cluster value : Nat) : FatOp Unit := do
  let pos := cluster * 3 % 2 ^ 32 / 2
  let (n, entry) ← fatTableRead pos 2
  if n ≠ 2 then Op.fail .erange
  else
    let entry : Memory :=
      if cluster % 2 = 0 then fun i =>
        if i = 0 then UInt8.ofNat value
        else UInt8.ofNat ((entry 1).toNat / 16 * 16 + value / 256 % 16)
      else fun i =>
        if i = 0 then UInt8.ofNat ((entry 0).toNat % 16 + value % 16 * 16)
        else UInt8.ofNat (value / 16)
    let n ← fatTableWrite pos entry 2
    if n ≠ 2 then Op.fail .erange else pure ()

/-- `table_at` of the tables whose entries are whole words. -/
def wordTableAt (width limit cluster : Nat) : FatOp Nat := do
  let (n, entry) ← fatTableRead (cluster * width % 2 ^ 32) width
  if n ≠ width then Op.fail .erange else pure (extendMark limit (entry.word 0 width))

/-- `table_set` of the tables whose entries are whole words. -/
def wordTableSet (width cluster value : Nat) : FatOp Unit := do
  let n ← fatTableWrite (cluster * width % 2 ^ 32) (Memory.bytesOf value) width
  if n ≠ width then Op.fail .erange else pure ()

def fat16TableAt (cluster : Nat) : FatOp Nat := wordTableAt 2 0xfff0 cluster

def fat16TableSet (cluster value : Nat) : FatOp Unit := wordTableSet 2 cluster value

/-- No entry of 32 bits is widened. -/
def fat32TableAt (cluster : Nat) : FatOp Nat := wordTableAt 4 (2 ^ 32) cluster

def fat32TableSet (cluster value : Nat) : FatOp Unit := wordTableSet 4 cluster value

/-- The first cluster behind the last one, as the loops of the scans compute it. -/
def Layout.clusterEnd (layout : Layout) : Nat := (layout.clusterCount + 2) % 2 ^ 32

/-- The loop of `fat12_table_alloc`: it stops at the first pair with a free entry. -/
def fat12Scan (buffer : Memory) (clusterEnd : Nat) : Option Nat :=
  let e1 (cluster2 : Nat) :=
    (buffer (cluster2 * 3)).toNat + (buffer (cluster2 * 3 + 1)).toNat % 16 * 256
  let e2 (cluster2 : Nat) :=
    (buffer (cluster2 * 3 + 1)).toNat / 16 + (buffer (cluster2 * 3 + 2)).toNat * 16
  match (List.range' 1 ((clusterEnd + 1) / 2 - 1)).find? fun cluster2 =>
      e1 cluster2 = 0 ∨ e2 cluster2 = 0 with
  | none => none
  | some cluster2 =>
      if e1 cluster2 = 0 then some (cluster2 * 2)
      else if cluster2 * 2 + 1 < clusterEnd then some (cluster2 * 2 + 1)
      else none

/-- The loops of `fat16_table_alloc` and `fat32_table_alloc`. -/
def wordScan (width : Nat) (buffer : Memory) (clusterEnd : Nat) : Option Nat :=
  (List.range' 2 (clusterEnd - 2)).find? fun cluster => buffer.word (cluster * width) width = 0

/-- What the three `table_alloc` have in common: the mark goes to the entry that the scan
found.  `bound` is the end of that entry; a scan that has got behind the end of the buffer
has read memory that is not the table's. -/
def tableAllocBy (scan : Memory → Nat → Option Nat) (bound : Nat → Nat)
    (set : Nat → Nat → FatOp Unit) (mark : Nat) : FatOp Nat := do
  let buffer ← fatTableReadall
  let fat ← Op.get
  match scan buffer fat.layout.clusterEnd with
  | none => Op.fail .enospc
  | some cluster =>
      if bound cluster ≤ fat.layout.fatBytes then
        set cluster mark
        pure cluster
      else Op.fail .stray

def fat12TableAlloc : FatOp Nat :=
  tableAllocBy fat12Scan (fun cluster => cluster * 3 / 2 + 2) fat12TableSet 0xfff

def fat16TableAlloc : FatOp Nat :=
  tableAllocBy (wordScan 2) (fun cluster => (cluster + 1) * 2) fat16TableSet 0xffff

def fat32TableAlloc : FatOp Nat :=
  tableAllocBy (wordScan 4) (fun cluster => (cluster + 1) * 4) fat32TableSet 0x0fffffff

/-- The operations that `fat_table_init` chooses by the width of the entries. -/
inductive Width where
  | fat12
  | fat16
  | fat32
  deriving DecidableEq, Repr

def Layout.width (layout : Layout) : Width :=
  if layout.bits = 12 then .fat12 else if layout.bits = 16 then .fat16 else .fat32

def tableAt (cluster : Nat) : FatOp Nat := do
  let fat ← Op.get
  match fat.layout.width with
  | .fat12 => fat12TableAt cluster
  | .fat16 => fat16TableAt cluster
  | .fat32 => fat32TableAt cluster

def tableSet (cluster value : Nat) : FatOp Unit := do
  let fat ← Op.get
  match fat.layout.width with
  | .fat12 => fat12TableSet cluster value
  | .fat16 => fat16TableSet cluster value
  | .fat32 => fat32TableSet cluster value

def tableAlloc : FatOp Nat := do
  let fat ← Op.get
  match fat.layout.width with
  | .fat12 => fat12TableAlloc
  | .fat16 => fat16TableAlloc
  | .fat32 => fat32TableAlloc

/-- `fat_table_append`: a new cluster behind the last one of a chain.  When the link
cannot be written the new cluster is given back, whatever comes of that. -/
def fatTableAppend (cluster : Nat) : FatOp Nat := do
  let entry ← tableAt cluster
  if entry % 2 ^ 28 < 0x0ffffff8 then Op.fail .einval
  else
    let newCluster ← tableAlloc
    fun fat =>
      match tableSet cluster newCluster fat with
      | (.ok (), fat) => (.ok newCluster, fat)
      | (.error error, fat) => (.error error, (tableSet newCluster 0 fat).2)

end Entries

end Opal.Fat
