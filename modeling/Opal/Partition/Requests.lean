import Opal.Library.Outcome
import Opal.Partition.Table

/-!
# Requests in flight

`modify_partition` changes the boot record in memory, hands it to the disk and returns;
`co_modify_handler` runs once the disk has answered.  Until then the request keeps a pointer
into the array of partitions: the allocation that holds the array, by number, and a slot.
-/

namespace Opal.Partition

section Data

/-- A pointer into `disk->partitions`. -/
structure EntryPtr where
  buffer : Nat
  slot : Nat
  deriving DecidableEq, Repr

/-- `struct co_part_modify` while the disk works on it. -/
structure Request where
  entry : Option EntryPtr
  oldMbrEntry : MbrPartEntry
  partname : Option String
  index : Nat
  lba : UInt64
  sectors : UInt64
  deriving DecidableEq, Repr

/-- What a caller asks for. -/
inductive Change where
  | create (index : Nat) (lba sectors : UInt64)
  | remove (index : Nat)
  deriving DecidableEq, Repr

/-- How the kernel stops: an assertion fires, or a pointer is followed that does not lead
into the array any more. -/
inductive Stop where
  | assertion (assertion : Assertion)
  /-- `block_device_release` of a device without a reference. -/
  | noReference
  /-- `dynarray: remove out of bounds`. -/
  | removeBounds
  | stray
  deriving DecidableEq, Repr

/-- A disk, the allocation its array lies in, the requests that wait for the disk, and the
requests that were answered, with what they were told. -/
structure System where
  disk : Disk
  buffer : Nat
  pending : List Request
  answers : List (Change × Bool)

/-- A call of one of the two functions, or the answer of the disk to a request that waits.
Each comes with the allocations it will make. -/
inductive Event where
  | create (index : Nat) (lba sectors : UInt64) (type : UInt8) (queueFull : Bool) (pool : Pool)
  | remove (index : Nat) (queueFull : Bool) (pool : Pool)
  | complete (k : Nat) (succeeded : Bool) (pool : Pool)

end Data

section Handler

variable (disk : Disk) (buffer : Nat)

/-- `block_device_release(ctx->entry->bdev)`. -/
def releaseEntry (ptr : EntryPtr) : Except Stop Partitions :=
  if ptr.buffer ≠ buffer then .error .stray
  else match disk.partitions.entries[ptr.slot]? with
    | none => .error .stray
    | some entry =>
        if entry.bdev.refcount = 0 then .error .noReference
        else .ok { disk.partitions with
          entries := disk.partitions.entries.set ptr.slot
            { entry with bdev := { entry.bdev with refcount := entry.bdev.refcount - 1 } } }

/-- `destroy_partition(ctx->entry->bdev)` and `dynarray_remove_at`. -/
def removeEntry (ptr : EntryPtr) : Except Stop Partitions :=
  if ptr.buffer ≠ buffer then .error .stray
  else if ptr.slot < disk.partitions.entries.length then
    .ok { disk.partitions with entries := disk.partitions.entries.eraseIdx ptr.slot }
  else .error .removeBounds

/-- The branch of `co_modify_handler` for a new partition; a new allocation holds the array
once it has grown. -/
def registerRequest (ctx : Request) (pool : Pool) : Except Stop (Bool × Disk × Nat) :=
  let name := ctx.partname.getD ""
  match pushBack disk.partitions ⟨ctx.index, ⟨name, ctx.lba, ctx.sectors, 0⟩⟩ pool with
  | (none, _) => .ok (false, disk, buffer)
  | (some pushed, pool) =>
      let buffer :=
        if pushedSize disk.partitions ≤ disk.partitions.capacity then buffer else buffer + 1
      match blockDeviceCreate disk name ctx.lba ctx.sectors pool with
      | .error assertion => .error (.assertion assertion)
      | .ok (none, _) =>
          .ok (false,
            { disk with partitions := { pushed with entries := disk.partitions.entries } }, buffer)
      | .ok (some _, _) => .ok (true, { disk with partitions := pushed }, buffer)

/-- `co_modify_handler`, with the answer of the disk: whether the request succeeded, and what
it leaves. -/
def coModifyHandler (ctx : Request) (succeeded : Bool) (pool : Pool) :
    Except Stop (Bool × Disk × Nat) :=
  if succeeded then
    match ctx.entry with
    | some ptr => do
        let partitions ← removeEntry disk buffer ptr
        .ok (true, { disk with partitions }, buffer)
    | none => registerRequest disk buffer ctx pool
  else match disk.partTableSectors with
    | none => .error .stray
    | some mbr =>
        let mbr := putEntry mbr ctx.oldMbrEntry ctx.index
        match ctx.entry with
        | none => .ok (false, { disk with partTableSectors := some mbr }, buffer)
        | some ptr => do
            let partitions ← releaseEntry disk buffer ptr
            .ok (false, { disk with partTableSectors := some mbr, partitions }, buffer)

end Handler

section Steps

/-- The request as it waits; `entry` points to the element that was found. -/
def CoPartModify.request (ctx : CoPartModify) (system : System) : Request :=
  { entry := ctx.entry.map fun _ =>
      { buffer := system.buffer
        slot := system.disk.partitions.entries.findIdx (·.index = ctx.index) }
    oldMbrEntry := ctx.oldMbrEntry
    partname := ctx.partname
    index := ctx.index
    lba := ctx.lba
    sectors := ctx.sectors }

def Request.change (ctx : Request) : Change :=
  match ctx.entry with
  | none => .create ctx.index ctx.lba ctx.sectors
  | some _ => .remove ctx.index

/-- What a call of one of the two functions leaves. -/
def submit (system : System) (change : Change) : Except Assertion Answer → Except Stop System
  | .error assertion => .error (.assertion assertion)
  | .ok (.refused _) => .ok { system with answers := system.answers ++ [(change, false)] }
  | .ok (.accepted disk _ ctx) =>
      .ok { system with disk, pending := system.pending ++ [ctx.request system] }

def step (system : System) : Event → Except Stop System
  | .create index lba sectors type queueFull pool =>
      submit system (.create index lba sectors)
        (diskCreatePartition { system.disk with queueFull } index lba sectors type pool)
  | .remove index queueFull pool =>
      submit system (.remove index)
        (diskRemovePartition { system.disk with queueFull } index pool)
  | .complete k succeeded pool =>
      match system.pending[k]? with
      | none => .ok system
      | some ctx => do
          let (answer, disk, buffer) ←
            coModifyHandler system.disk system.buffer ctx succeeded pool
          .ok
            { disk, buffer
              pending := system.pending.eraseIdx k
              answers := system.answers ++ [(ctx.change, answer)] }

end Steps

section Tables

/-- What a table of partitions says: the range of each index in use. -/
abbrev Table := Nat → Option (UInt64 × UInt64)

def Change.index : Change → Nat
  | .create index _ _ => index
  | .remove index => index

/-- The table after a change took effect. -/
def Change.apply : Change → Table → Table
  | .create index lba sectors, table => Function.update table index (some (lba, sectors))
  | .remove index, table => Function.update table index none

/-- The table after the changes that were answered with success, one after the other. -/
def replay (table : Table) (answers : List (Change × Bool)) : Table :=
  answers.foldl (fun table answer => if answer.2 then answer.1.apply table else table) table

/-- A change that can take effect: a new partition at a free index, or one that is removed. -/
def Change.Legal (table : Table) : Change → Prop
  | .create index _ _ => table index = none
  | .remove index => table index ≠ none

/-- Every success was due when it was answered. -/
def LegalAnswers (table : Table) : List (Change × Bool) → Prop
  | [] => True
  | (change, true) :: rest => change.Legal table ∧ LegalAnswers (change.apply table) rest
  | (_, false) :: rest => LegalAnswers table rest

/-- The range of an entry in use. -/
def MbrPartEntry.range (entry : MbrPartEntry) : Option (UInt64 × UInt64) :=
  if entry.type = 0 then none else some (entry.lba.toUInt64, entry.sectors.toUInt64)

/-- What the boot record in memory says. -/
def Disk.recorded (disk : Disk) : Table := fun i =>
  match disk.partTableSectors with
  | none => none
  | some mbr => if i < 4 then (tableEntry mbr i).range else none

/-- The list of partitions says the same as a table: an element for each index in use. -/
structure Lists (entries : List PartitionEntry) (table : Table) : Prop where
  distinct : (entries.map (·.index)).Nodup
  range : ∀ i range,
    table i = some range ↔ ∃ entry ∈ entries, entry.index = i ∧
      (entry.bdev.offset, entry.bdev.sectors) = range

end Tables

end Opal.Partition
