import Mathlib.Data.Stream.Init
import Opal.Library.Bytes

/-!
# The partition table of a disk

The four entries of a master boot record and the two functions that read and change them:
`build_part_table` turns the record into block devices, and `modify_partition` checks a
request and writes its entry.  Sums are taken at the width the source has at each place.
-/

namespace Opal.Partition

section Data

def partitionTableOffset : Nat := 0x1be

/-- `struct mbr_part_entry`. -/
structure MbrPartEntry where
  attr : UInt8
  chsStart : UInt8 × UInt8 × UInt8
  type : UInt8
  chsEnd : UInt8 × UInt8 × UInt8
  lba : UInt32
  sectors : UInt32
  deriving DecidableEq, Repr

/-- `sizeof(struct mbr_part_entry)`. -/
def mbrPartEntrySize : Nat := 16

inductive Kerrno where
  | einval
  | enoent
  | eexist
  | erange
  | ebusy
  | enomem
  deriving DecidableEq, Repr

/-- The assertions of `block_device_create` and `block_device_retain`. -/
inductive Assertion where
  | emptyDevice
  | outsideDisk
  | tooManyReferences
  deriving DecidableEq, Repr

structure BlockDevice where
  name : String
  offset : UInt64
  sectors : UInt64
  refcount : Nat
  deriving DecidableEq, Repr

structure PartitionEntry where
  index : Nat
  bdev : BlockDevice
  deriving DecidableEq, Repr

/-- `sizeof(struct partition_entry)`. -/
def partitionEntrySize : Nat := 16

/-- The dynamic array `disk->partitions`; its capacity is in bytes. -/
structure Partitions where
  capacity : Nat
  entries : List PartitionEntry
  deriving DecidableEq, Repr

/-- A disk; `queueFull` is what `disk_req_queue_is_full_unlocked` says of its queue. -/
structure Disk where
  name : String
  sectors : UInt64
  partTableSectors : Option Memory
  partitions : Partitions
  queueFull : Bool

/-- What the coming allocations return (the bytes a block has beyond those asked for, or
`none` where there is no memory), and the number of block devices. -/
structure Pool where
  blocks : Stream' (Option Nat)
  devicesCount : Nat

def maxDevices : Nat := 2 ^ 31 - 1
def maxRefc : Nat := 2 ^ 31 - 1

end Data

section Entries

variable (mbr : Memory) (entry : MbrPartEntry) (index : Nat)

/-- Where an entry of the table lies in the boot record. -/
def entryOffset : Nat := partitionTableOffset + index * mbrPartEntrySize

/-- The sixteen bytes of an entry. -/
def MbrPartEntry.bytes : Memory
  | 0 => entry.attr
  | 1 => entry.chsStart.1
  | 2 => entry.chsStart.2.1
  | 3 => entry.chsStart.2.2
  | 4 => entry.type
  | 5 => entry.chsEnd.1
  | 6 => entry.chsEnd.2.1
  | 7 => entry.chsEnd.2.2
  | offset + 8 =>
      if offset < 4 then Memory.bytesOf entry.lba.toNat offset
      else Memory.bytesOf entry.sectors.toNat (offset - 4)

/-- The entry in sixteen bytes. -/
def decodeEntry (bytes : Memory) : MbrPartEntry :=
  { attr := bytes 0
    chsStart := (bytes 1, bytes 2, bytes 3)
    type := bytes 4
    chsEnd := (bytes 5, bytes 6, bytes 7)
    lba := UInt32.ofNat (bytes.word 8 4)
    sectors := UInt32.ofNat (bytes.word 12 4) }

/-- `table[index]` after the table was copied out of the boot record. -/
def tableEntry : MbrPartEntry := decodeEntry (mbr.region (entryOffset index))

/-- `memcpy(mbr_entry, &table[index], sizeof(*table))`. -/
def putEntry : Memory := mbr.copyInto (entryOffset index) mbrPartEntrySize entry.bytes

/-- The two bytes at the end of a boot record. -/
def sign : Memory := fun i => if i = 510 then 0x55 else if i = 511 then 0xaa else mbr i

end Entries

section Devices

variable (disk : Disk)

def Pool.take (pool : Pool) : Option Nat × Pool :=
  (pool.blocks.head, { pool with blocks := pool.blocks.tail })

def allocPartName (index : Nat) (pool : Pool) : Option String × Pool :=
  match pool.take with
  | (some _, pool) => (some (disk.name ++ ":" ++ toString index), pool)
  | (none, pool) => (none, pool)

/-- The bytes the array takes with one more element. -/
def pushedSize (partitions : Partitions) : Nat :=
  (partitions.entries.length + 1) * partitionEntrySize

/-- `dynarray_push_back` followed by the assignment to the new element. -/
def pushBack (partitions : Partitions) (entry : PartitionEntry) (pool : Pool) :
    Option Partitions × Pool :=
  if pushedSize partitions ≤ partitions.capacity then
    (some { partitions with entries := partitions.entries ++ [entry] }, pool)
  else match pool.take with
    | (some extra, pool) =>
        (some
          { capacity := pushedSize partitions + extra
            entries := partitions.entries ++ [entry] }, pool)
    | (none, pool) => (none, pool)

def blockDeviceCreate (name : String) (offset sectors : UInt64) (pool : Pool) :
    Except Assertion (Option BlockDevice × Pool) :=
  let last := offset + sectors
  if last ≤ offset then .error .emptyDevice
  else if disk.sectors < last then .error .outsideDisk
  else if maxDevices ≤ pool.devicesCount then .ok (none, pool)
  else match pool.take with
    | (some _, pool) =>
        .ok (some { name, offset, sectors, refcount := 0 },
          { pool with devicesCount := pool.devicesCount + 1 })
    | (none, pool) => .ok (none, pool)

end Devices

section Build

variable (disk : Disk) (table : Nat → MbrPartEntry)

/-- The test of `build_part_table` on an entry that is in use, taken in 32 bits. -/
def broken (entry : MbrPartEntry) : Bool :=
  let last := entry.lba + entry.sectors
  entry.lba = 0 || last ≤ entry.lba || disk.sectors < last.toUInt64

/-- What the loop does with an entry that is in use and not broken; the answer `false` is
the `break` at a failed allocation. -/
def registerEntry (i : Nat) (partitions : Partitions) (pool : Pool) :
    Except Assertion (Bool × Partitions × Pool) :=
  match allocPartName disk i pool with
  | (none, pool) => .ok (false, partitions, pool)
  | (some name, pool) =>
      let offset := (table i).lba.toUInt64
      let sectors := (table i).sectors.toUInt64
      -- the slot is taken first and given back when there is no device
      match pushBack partitions ⟨i, ⟨name, offset, sectors, 0⟩⟩ pool with
      | (none, pool) => .ok (false, partitions, pool)
      | (some pushed, pool) =>
          match blockDeviceCreate disk name offset sectors pool with
          | .error assertion => .error assertion
          | .ok (none, pool) => .ok (false, { pushed with entries := partitions.entries }, pool)
          | .ok (some _, pool) => .ok (true, pushed, pool)

/-- The loop over the entries that are left. -/
def buildEntries : (left i : Nat) → Partitions → Pool → Except Assertion (Partitions × Pool)
  | 0, _, partitions, pool => .ok (partitions, pool)
  | left + 1, i, partitions, pool =>
      if (table i).type = 0 ∨ broken disk (table i) then
        buildEntries left (i + 1) partitions pool
      else match registerEntry disk table i partitions pool with
        | .error assertion => .error assertion
        | .ok (false, partitions, pool) => .ok (partitions, pool)
        | .ok (true, partitions, pool) => buildEntries left (i + 1) partitions pool

def buildPartTable (pool : Pool) : Except Assertion (Disk × Pool) :=
  match disk.partTableSectors with
  | none => .ok (disk, pool)
  | some mbr => do
      let mbr := sign mbr
      let (partitions, pool) ←
        buildEntries disk (tableEntry mbr) 4 0 { disk.partitions with entries := [] } pool
      .ok ({ disk with partTableSectors := some mbr, partitions }, pool)

end Build

section Modify

def isRangeOverlap (aStart aEnd bStart bEnd : UInt64) : Bool := aStart < bEnd && bStart < aEnd

/-- What `apply_create_part` tests for each entry of the table. -/
def overlaps (table : Nat → MbrPartEntry) (lba last : UInt64) (i : Nat) : Bool :=
  if (table i).type = 0 then false
  else
    let eStart := (table i).lba.toUInt64
    isRangeOverlap lba last eStart (eStart + (table i).sectors.toUInt64)

def applyCreatePart (disk : Disk) (table : Nat → MbrPartEntry) (index : Nat)
    (lba sectors : UInt64) (type : UInt8) : Except Kerrno MbrPartEntry :=
  let last := lba + sectors
  if lba = 0 then .error .erange
  else if disk.sectors < last then .error .erange
  else if (table index).type ≠ 0 then .error .eexist
  else if (List.range 4).any (overlaps table lba last) then .error .erange
  else .ok
    { attr := 0
      chsStart := (0xfe, 0xff, 0xff)
      type
      chsEnd := (0xfe, 0xff, 0xff)
      lba := lba.toUInt32
      sectors := sectors.toUInt32 }

/-- `struct co_part_modify`: what the request leaves for its handler. -/
structure CoPartModify where
  entry : Option PartitionEntry
  oldMbrEntry : MbrPartEntry
  partname : Option String
  index : Nat
  lba : UInt64
  sectors : UInt64
  deriving Repr

/-- A request is refused with a code, or its boot record is handed to the disk. -/
inductive Answer where
  | refused (result : Kerrno)
  | accepted (disk : Disk) (mbr : Memory) (ctx : CoPartModify)

/-- `block_device_retain` on the partition with an index. -/
def retain (partitions : Partitions) (entry : PartitionEntry) : Except Assertion Partitions :=
  if maxRefc ≤ entry.bdev.refcount then .error .tooManyReferences
  else .ok { partitions with
    entries := partitions.entries.map fun other =>
      if other.index = entry.index then
        { other with bdev := { other.bdev with refcount := other.bdev.refcount + 1 } }
      else other }

/-- The part of `modify_partition` that runs with interrupts off. -/
def modifyLocked (disk : Disk) (index : Nat) (lba sectors : UInt64) (type : UInt8)
    (removal : Bool) (pool : Pool) : Except Assertion Answer :=
  match disk.partTableSectors with
  | none => .ok (.refused .einval)
  | some mbr =>
      let entry := disk.partitions.entries.find? (·.index = index)
      if removal ∧ entry.isNone then .ok (.refused .enoent)
      else if ¬removal ∧ entry.isSome then .ok (.refused .eexist)
      else
        let (partname, _) :=
          if entry.isNone then allocPartName disk index pool else (none, pool)
        if entry.isNone ∧ partname.isNone then .ok (.refused .enomem)
        else if disk.queueFull then .ok (.refused .ebusy)
        else do
          let partitions ← match entry with
            | some entry => retain disk.partitions entry
            | none => .ok disk.partitions
          let table := tableEntry mbr
          let ctx : CoPartModify :=
            { entry, oldMbrEntry := table index, partname, index, lba, sectors }
          if removal then
            let mbr := mbr.fill (entryOffset index) mbrPartEntrySize 0
            .ok (.accepted { disk with partTableSectors := some mbr, partitions } mbr ctx)
          else match applyCreatePart disk table index lba sectors type with
            | .error result => .ok (.refused result)
            | .ok created =>
                let mbr := putEntry mbr created index
                .ok (.accepted { disk with partTableSectors := some mbr, partitions } mbr ctx)

def modifyPartition (disk : Disk) (index : Nat) (lba sectors : UInt64) (type : UInt8)
    (removal : Bool) (pool : Pool) : Except Assertion Answer :=
  if ¬removal ∧ (type = 0 ∨ lba + sectors ≤ lba) then .ok (.refused .einval)
  else if 4 ≤ index then .ok (.refused .enoent)
  else match pool.take with
    | (none, _) => .ok (.refused .enomem)
    | (some _, pool) => modifyLocked disk index lba sectors type removal pool

def diskCreatePartition (disk : Disk) (index : Nat) (lba sectors : UInt64) (type : UInt8)
    (pool : Pool) : Except Assertion Answer :=
  modifyPartition disk index lba sectors type false pool

def diskRemovePartition (disk : Disk) (index : Nat) (pool : Pool) : Except Assertion Answer :=
  modifyPartition disk index 0 0 0 true pool

end Modify

end Opal.Partition
