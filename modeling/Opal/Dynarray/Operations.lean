import Opal.Basic
import Opal.Library.Outcome
import Opal.Library.Splice

/-!
# Arrays of bytes that grow

A buffer is the list of the bytes that `kzalloc_span` gave out, so its length is the size of the
allocation.  A copy that reads or writes outside its buffer stops; positions are offsets from
`ar->data`, modulo the size of an address.
-/

namespace Opal.Dynarray

open Opal.Library

inductive Stop where
  /-- `invalid size`. -/
  | invalidSize
  /-- `dynarray: push_back size overflow`. -/
  | pushBackOverflow
  /-- `dynarray: pop_back out of bounds`. -/
  | popBackBounds
  /-- `dynarray: insert out of bounds`. -/
  | insertBounds
  /-- `dynarray: insert size overflow`. -/
  | insertOverflow
  /-- `dynarray: remove out of bounds`. -/
  | removeBounds
  /-- A byte outside the buffer is read or written. -/
  | stray
  deriving DecidableEq, Repr

/-- An assertion failed. -/
def Stop.Assertion (stop : Stop) : Prop := stop ≠ .stray

abbrev Run := Except Stop

def kassert (condition : Prop) [Decidable condition] (stop : Stop) : Run Unit :=
  if condition then .ok () else .error stop

abbrev Buffer := List UInt8

section Kmalloc

/-- `PAGE_SIZE`. -/
def pageSize : Nat := 4096

/-- `KMALLOC_MAX_SIZE`. -/
def kmallocMaxSize : Nat := pageSize * 64

/-- `KMALLOC_ALIGN`. -/
def kmallocAlign : Nat := 8

/-- `PFN_VALID_BIT_WIDTH`. -/
def pfnValidBitWidth : Nat := 52

/-- `SLAB_REDZONE_SIZE`. -/
def slabRedzoneSize : Nat := 2

/-- `sizeof(struct slab_page)`. -/
def sizeofSlabPage : Nat := 32

/-- `sizeof(struct slab_obj_hdr)`. -/
def sizeofSlabObjHdr : Nat := 2

def alignUp (x a : Nat) : Nat := (x + (a - 1)) / a * a

def alignDown (x a : Nat) : Nat := x / a * a

def slotPrefix (a : Nat) : Nat := alignUp (sizeofSlabObjHdr + slabRedzoneSize) a

def slotStride (x a : Nat) : Nat := alignUp (slotPrefix a + x + slabRedzoneSize) a

def slotOffset (a : Nat) : Nat := alignUp sizeofSlabPage a

def slabPageUsable (a : Nat) : Nat := pageSize - slotOffset a

def slotsCount (x a : Nat) : Nat := slabPageUsable a / slotStride x a

def slotExtend (x a : Nat) : Nat :=
  alignDown (slabPageUsable a / slotsCount x a) a - slotPrefix a - slabRedzoneSize

def gSlabSizes : List Nat :=
  [32, 48, 64, 80, 96, 128, 160, 192, 256, 384, 512, 768, 1024].map fun x =>
    slotExtend x kmallocAlign

/-- `g_slab_sizes[slab_index_for_size(size)]`, where there is such an index. -/
def slabSizeForSize (size : Nat) : Option Nat := gSlabSizes.find? fun slabSize => size ≤ slabSize

/-- The loop of `page_order_for_size` for the orders that are left. -/
def pageOrderLoop (size : Nat) : Nat → Nat → Nat → Nat
  | 0, order, _ => order
  | rounds + 1, order, bytes =>
      if bytes < size then pageOrderLoop size rounds (order + 1) (bytes * 2 % wordSize) else order

def pageOrderForSize (size : Nat) : Nat := pageOrderLoop size pfnValidBitWidth 0 pageSize

/-- The size of the allocation for a size that is not 0. -/
def allocSize (size : Nat) : Nat :=
  match slabSizeForSize size with
  | some slabSize => slabSize
  | none => pageSize * 2 ^ pageOrderForSize size

/-- The span that is returned, or nothing for a null pointer; the memory is zeroed. -/
def kzallocSpan (size : Nat) (mem : AllocOracle) : Run (Option Buffer × AllocOracle) :=
  if size = 0 then .ok (none, mem)
  else do
    kassert (size ≤ kmallocMaxSize) .invalidSize
    match slabSizeForSize size with
    | some slabSize =>
        .ok (if mem.head then some (List.replicate slabSize 0) else none, mem.tail)
    | none => do
        let order := pageOrderForSize size
        kassert (order < pfnValidBitWidth) .invalidSize
        .ok (if mem.head then some (List.replicate (pageSize * 2 ^ order) 0) else none, mem.tail)

/-- `kfree_span` of a span whose pointer is not null. -/
def kfreeSpan (size : Nat) : Run Unit :=
  if size = 0 then .ok ()
  else do
    kassert (size ≤ kmallocMaxSize) .invalidSize
    match slabSizeForSize size with
    | some _ => .ok ()
    | none => kassert (pageOrderForSize size < pfnValidBitWidth) .invalidSize

end Kmalloc

section Operations

structure Dynarray where
  data : Option Buffer
  size : Nat
  capacity : Nat
  deriving DecidableEq, Repr

def dynarrayInit : Dynarray := ⟨none, 0, 0⟩

/-- `memcpy(ar->data + pos, source + from, size)`, and `memmove` where the source is the array's
own buffer. -/
def copyBytes (ar : Dynarray) (pos : Nat) (source : Buffer) (start size : Nat) : Run Dynarray :=
  match ar.data with
  | none => .error .stray
  | some buffer =>
      if pos + size ≤ buffer.length ∧ start + size ≤ source.length then
        .ok { ar with data := some (splice buffer pos ((source.drop start).take size)) }
      else .error .stray

/-- A copy that is made where a condition holds. -/
def copyIf (condition : Prop) [Decidable condition] (ar : Dynarray) (pos : Nat) (source : Buffer)
    (start size : Nat) : Run Dynarray :=
  if condition then copyBytes ar pos source start size else .ok ar

def dynarrayDestroy (ar : Dynarray) : Run Dynarray :=
  match ar.data with
  | none => .ok ar
  | some _ => do
      kfreeSpan ar.capacity
      .ok ⟨none, 0, 0⟩

/-- The array and the span it had before, or the array as it is. -/
def reserveWithoutCopy (ar : Dynarray) (newCapacity : Nat) (mem : AllocOracle) :
    Run ((Option (Option Buffer × Nat) × Dynarray) × AllocOracle) := do
  let (newData, mem) ← kzallocSpan newCapacity mem
  match newData with
  | none => .ok ((none, ar), mem)
  | some buffer =>
      .ok ((some (ar.data, ar.capacity),
        { ar with data := some buffer, capacity := buffer.length }), mem)

def reserveUnchecked (ar : Dynarray) (newCapacity : Nat) (mem : AllocOracle) :
    Run ((Bool × Dynarray) × AllocOracle) := do
  let ((oldData, ar), mem) ← reserveWithoutCopy ar newCapacity mem
  match oldData with
  | none => .ok ((false, ar), mem)
  | some (none, _) => .ok ((true, ar), mem)
  | some (some buffer, capacity) => do
      let ar ← copyIf (ar.size > 0) ar 0 buffer 0 ar.size
      kfreeSpan capacity
      .ok ((true, ar), mem)

def dynarrayReserve (ar : Dynarray) (newCapacity : Nat) (mem : AllocOracle) :
    Run ((Bool × Dynarray) × AllocOracle) :=
  if newCapacity ≤ ar.capacity then .ok ((true, ar), mem) else reserveUnchecked ar newCapacity mem

def dynarrayResize (ar : Dynarray) (newSize : Nat) (mem : AllocOracle) :
    Run ((Bool × Dynarray) × AllocOracle) :=
  if newSize > ar.capacity then do
    let ((reserved, ar), mem) ← dynarrayReserve ar newSize mem
    if reserved then .ok ((true, { ar with size := newSize }), mem) else .ok ((false, ar), mem)
  else .ok ((true, { ar with size := newSize }), mem)

def dynarrayShrinkTo (ar : Dynarray) (newSize : Nat) (mem : AllocOracle) :
    Run ((Bool × Dynarray) × AllocOracle) :=
  if newSize = 0 then do
    let ar ← dynarrayDestroy ar
    .ok ((true, ar), mem)
  else if newSize > ar.capacity / 2 then .ok ((true, ar), mem)
  else do
    let ((reserved, ar), mem) ← reserveUnchecked ar newSize mem
    if reserved then .ok ((true, { ar with size := newSize }), mem) else .ok ((false, ar), mem)

/-- Whether the pointer that is returned, that of the old end, is not null. -/
def dynarrayPushBack (ar : Dynarray) (dataSize : Nat) (mem : AllocOracle) :
    Run ((Bool × Dynarray) × AllocOracle) := do
  kassert (dataSize ≤ uintptrMax - ar.size) .pushBackOverflow
  let ((resized, ar), mem) ← dynarrayResize ar ((ar.size + dataSize) % wordSize) mem
  .ok ((resized && ar.data.isSome, ar), mem)

def dynarrayPopBack (ar : Dynarray) (dataSize : Nat) : Run Dynarray := do
  kassert (dataSize ≤ ar.size) .popBackBounds
  .ok { ar with size := ar.size - dataSize }

/-- The array and `old_data`, a null span where the buffer is kept, or the array as it is. -/
def reserveForInsert (ar : Dynarray) (newSize : Nat) (mem : AllocOracle) :
    Run ((Option (Option Buffer × Nat) × Dynarray) × AllocOracle) :=
  if newSize > ar.capacity then reserveWithoutCopy ar newSize mem
  else .ok ((some (none, 0), ar), mem)

/-- Whether the pointer that is returned, that of the hole at `pos`, is not null. -/
def dynarrayInsert (ar : Dynarray) (pos dataSize : Nat) (mem : AllocOracle) :
    Run ((Bool × Dynarray) × AllocOracle) := do
  kassert (pos ≤ ar.size) .insertBounds
  kassert (dataSize ≤ uintptrMax - ar.size) .insertOverflow
  let newSize := (ar.size + dataSize) % wordSize
  let ((oldData, ar), mem) ← reserveForInsert ar newSize mem
  match oldData with
  | none => .ok ((false, ar), mem)
  | some (some buffer, capacity) => do
      let ar ← copyIf (pos > 0) ar 0 buffer 0 pos
      let ar ← copyIf (ar.size > pos) ar (pos + dataSize) buffer pos (ar.size - pos)
      kfreeSpan capacity
      .ok ((ar.data.isSome, { ar with size := newSize }), mem)
  | some (none, _) => do
      let ar ← copyIf (ar.size > pos) ar (pos + dataSize) (ar.data.getD []) pos (ar.size - pos)
      .ok ((ar.data.isSome, { ar with size := newSize }), mem)

def dynarrayRemove (ar : Dynarray) (pos dataSize : Nat) : Run Dynarray := do
  let stop := (pos + dataSize) % wordSize
  kassert (stop ≤ ar.size) .removeBounds
  let ar ← copyIf (stop < ar.size) ar pos (ar.data.getD []) stop
    ((ar.size + wordSize - stop) % wordSize)
  .ok { ar with size := (ar.size + wordSize - dataSize) % wordSize }

/-- A call of one of the functions that change an array. -/
inductive Op where
  | reserve (newCapacity : Nat)
  | resize (newSize : Nat)
  | shrinkTo (newSize : Nat)
  | pushBack (dataSize : Nat)
  | popBack (dataSize : Nat)
  | insert (pos dataSize : Nat)
  | remove (pos dataSize : Nat)
  deriving DecidableEq, Repr

/-- Whether the call reports success, the array after it and the outcomes of the allocations that
come after it. -/
def perform (ar : Dynarray) (mem : AllocOracle) : Op → Run ((Bool × Dynarray) × AllocOracle)
  | .reserve newCapacity => dynarrayReserve ar newCapacity mem
  | .resize newSize => dynarrayResize ar newSize mem
  | .shrinkTo newSize => dynarrayShrinkTo ar newSize mem
  | .pushBack dataSize => dynarrayPushBack ar dataSize mem
  | .popBack dataSize => do
      let ar ← dynarrayPopBack ar dataSize
      .ok ((true, ar), mem)
  | .insert pos dataSize => dynarrayInsert ar pos dataSize mem
  | .remove pos dataSize => do
      let ar ← dynarrayRemove ar pos dataSize
      .ok ((true, ar), mem)

end Operations

end Opal.Dynarray
