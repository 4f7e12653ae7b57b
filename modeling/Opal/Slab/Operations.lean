import Opal.Basic
import Opal.Library.Bytes
import Opal.Library.Outcome
import Mathlib.Data.UInt
import Mathlib.Data.Nat.Bitwise

/-!
# The slab allocator

The slots of a page (headers, red zones and payloads) are bytes of memory.  The
`struct slab_page` at the start of a page is a record of its own, and the intrusive list
of partial pages is the list of their addresses.  `held` are the pages that
`mm_alloc_page_ptr` gave out and `mm_free_page` has not taken back.
-/

namespace Opal.Slab

section Data

/-- `PAGE_SIZE`. -/
def pageSize : Nat := 4096

/-- `DIRECT_MAP_START_VIRT`. -/
def directMapStart : Nat := 0xffff880000000000

/-- `DIRECT_MAP_END_VIRT`. -/
def directMapEnd : Nat := 0xffffc80000000000

/-- `SLAB_REDZONE_SIZE`. -/
def slabRedzoneSize : Nat := 2

/-- `SLAB_REDZONE_PATTERN`. -/
def slabRedzonePattern : UInt8 := 0xfd

/-- `SLAB_UNUSED_PATTERN`. -/
def slabUnusedPattern : UInt8 := 0xcc

/-- `sizeof(struct slab_page)`. -/
def sizeofSlabPage : Nat := 32

/-- `sizeof(struct slab_obj_hdr)`, which is packed: one bit `is_free`, fifteen `next_free`. -/
def sizeofSlabObjHdr : Nat := 2

/-- `alignof(struct slab_obj_hdr)`. -/
def alignofSlabObjHdr : Nat := 1

def uint16Max : Nat := 2 ^ 16 - 1

def int16Max : Nat := 2 ^ 15 - 1

structure SlabPage where
  owner : Nat
  inuse : Nat
  freeHead : Nat
  deriving DecidableEq, Repr

/-- `struct slab` at the address `self`. -/
structure Slab where
  self : Nat
  objectSize : Nat
  objectAlign : Nat
  payloadOffset : Nat
  slotStride : Nat
  slotOffset : Nat
  pageCapacity : Nat
  inuseObjects : Nat
  totalObjects : Nat
  partialPages : List Nat
  deriving DecidableEq, Repr

structure Heap where
  bytes : Memory
  pages : Nat → SlabPage
  held : List Nat

inductive Stop where
  /-- An argument of `slab_create` or the layout that follows from it is refused. -/
  | invalidLayout
  /-- `slab redzone ... corrupted`. -/
  | redzone
  /-- `slab unused payload corrupted`. -/
  | unusedPayload
  /-- `partial slab page has no free objects`, `slab page has no free objects`. -/
  | noFreeObjects
  /-- `slab object state is corrupted`. -/
  | objectState
  /-- `invalid pointer to free`. -/
  | invalidPointer
  /-- `object belongs to another slab`. -/
  | anotherSlab
  /-- `double free detected`. -/
  | doubleFree
  /-- `slab page is corrupted`. -/
  | pageState
  /-- `cannot destroy in-use slab page`. -/
  | inUse
  /-- A link is taken out of a list that does not hold it. -/
  | unlinked
  /-- A page is given back that is not held. -/
  | notHeld
  deriving DecidableEq, Repr

abbrev Run := Except Stop

def kassert (condition : Prop) [Decidable condition] (stop : Stop) : Run Unit :=
  if condition then .ok () else .error stop

/-- `ispower2`. -/
def ispower2 (value : Nat) : Prop := value ≠ 0 ∧ value &&& (value - 1) = 0

instance (value : Nat) : Decidable (ispower2 value) := inferInstanceAs (Decidable (_ ∧ _))

/-- `align_floor_sz_p2`. -/
def alignFloor (x align : Nat) : Nat := x &&& (wordSize - 1 - (align - 1))

/-- `align_ceil_sz_p2`. -/
def alignCeil (x align : Nat) : Nat := alignFloor ((x + (align - 1)) % wordSize) align

end Data

section Slots

variable (slab : Slab)

/-- `slot_object`. -/
def slotObject (page slotIdx : Nat) : Nat := page + (slab.slotOffset + slab.slotStride * slotIdx)

/-- `hdr_to_offset`. -/
def hdrToOffset (page hdr : Nat) : Nat := (hdr - page) % 2 ^ 16

/-- `hdr_to_page`. -/
def hdrToPage (hdr : Nat) : Nat := alignFloor hdr pageSize

/-- `payload_ptr`. -/
def payloadPtr (hdr : Nat) : Nat := hdr + slab.payloadOffset

/-- `slot_from_payload`. -/
def slotFromPayload (payload : Nat) : Nat := payload - slab.payloadOffset

structure Redzones where
  prefixPtr : Nat
  prefixLen : Nat
  suffixPtr : Nat
  suffixLen : Nat

def getRedzones (hdr : Nat) : Redzones where
  prefixPtr := hdr + sizeofSlabObjHdr
  prefixLen := slab.payloadOffset - sizeofSlabObjHdr
  suffixPtr := hdr + (slab.payloadOffset + slab.objectSize)
  suffixLen := slab.slotStride - (slab.payloadOffset + slab.objectSize)

/-- `memchr_not` finds nothing. -/
def allBytes (mem : Memory) (pos size : Nat) (value : UInt8) : Prop :=
  ∀ i < size, mem (pos + i) = value

instance (mem : Memory) (pos size : Nat) (value : UInt8) :
    Decidable (allBytes mem pos size value) := by
  unfold allBytes
  infer_instance

def fillRedzones (mem : Memory) (hdr : Nat) : Memory :=
  let redzones := getRedzones slab hdr
  (mem.fill redzones.prefixPtr redzones.prefixLen slabRedzonePattern).fill redzones.suffixPtr
    redzones.suffixLen slabRedzonePattern

def checkRedzones (mem : Memory) (hdr : Nat) : Run Unit := do
  let redzones := getRedzones slab hdr
  kassert (allBytes mem redzones.prefixPtr redzones.prefixLen slabRedzonePattern) .redzone
  kassert (allBytes mem redzones.suffixPtr redzones.suffixLen slabRedzonePattern) .redzone

def fillUnusedPayload (mem : Memory) (hdr : Nat) : Memory :=
  mem.fill (payloadPtr slab hdr) slab.objectSize slabUnusedPattern

def checkUnusedPayload (mem : Memory) (hdr : Nat) : Run Unit :=
  kassert (allBytes mem (payloadPtr slab hdr) slab.objectSize slabUnusedPattern) .unusedPayload

/-- `hdr->next_free`. -/
def nextFree (mem : Memory) (hdr : Nat) : Nat := mem.word hdr sizeofSlabObjHdr / 2

/-- `hdr->is_free`. -/
def isFree (mem : Memory) (hdr : Nat) : Prop := mem.word hdr sizeofSlabObjHdr % 2 = 1

instance (mem : Memory) (hdr : Nat) : Decidable (isFree mem hdr) :=
  inferInstanceAs (Decidable (_ = 1))

def writeHdr (mem : Memory) (hdr value : Nat) : Memory :=
  mem.copyInto hdr sizeofSlabObjHdr (Memory.bytesOf value)

/-- `hdr->next_free = next`. -/
def setNextFree (mem : Memory) (hdr next : Nat) : Memory :=
  writeHdr mem hdr (next % 2 ^ 15 * 2 + mem.word hdr sizeofSlabObjHdr % 2)

/-- `hdr->is_free = free`. -/
def setIsFree (mem : Memory) (hdr : Nat) (free : Bool) : Memory :=
  writeHdr mem hdr (mem.word hdr sizeofSlabObjHdr / 2 * 2 + free.toNat)

end Slots

section Pages

def Heap.setPage (heap : Heap) (page : Nat) (value : SlabPage) : Heap :=
  { heap with pages := Function.update heap.pages page value }

/-- `linkedlist_remove`. -/
def unlink (page : Nat) (list : List Nat) : Run (List Nat) :=
  if page ∈ list then .ok (list.erase page) else .error .unlinked

/-- The body of the loop of `create_slab_page`. -/
def formatSlot (slab : Slab) (page idx : Nat) (heap : Heap) : Heap :=
  let hdr := slotObject slab page idx
  let bytes := setIsFree (setNextFree heap.bytes hdr (heap.pages page).freeHead) hdr true
  { heap with bytes := fillUnusedPayload slab (fillRedzones slab bytes hdr) hdr }.setPage page
    { heap.pages page with freeHead := hdrToOffset page hdr }

/-- The loop of `create_slab_page`, from the slot before `i` down to the first. -/
def formatLoop (slab : Slab) (page : Nat) : Nat → Heap → Heap
  | 0, heap => heap
  | i + 1, heap => formatLoop slab page i (formatSlot slab page i heap)

/-- `create_slab_page` on the outcome of `mm_alloc_page_ptr(0)`. -/
def createSlabPage (slab : Slab) (heap : Heap) (page : Nat) : Slab × Heap :=
  let heap := { heap with held := page :: heap.held }.setPage page
    { owner := slab.self, inuse := 0, freeHead := 0 }
  ({ slab with totalObjects := (slab.totalObjects + slab.pageCapacity) % 2 ^ 32 },
    formatLoop slab page slab.pageCapacity heap)

def destroySlabPage (slab : Slab) (heap : Heap) (page : Nat) : Run (Slab × Heap) := do
  kassert ((heap.pages page).inuse = 0) .inUse
  let slab :=
    { slab with totalObjects := (slab.totalObjects + 2 ^ 32 - slab.pageCapacity) % 2 ^ 32 }
  kassert (directMapStart ≤ page ∧ page < directMapEnd) .invalidPointer
  kassert (page ∈ heap.held) .notHeld
  .ok (slab, { heap with held := heap.held.erase page })

/-- `pick_alloc_page`; `fresh` is the outcome of `mm_alloc_page_ptr` if it is called. -/
def pickAllocPage (slab : Slab) (heap : Heap) (fresh : Option Nat) :
    Run (Option Nat × Slab × Heap) :=
  match slab.partialPages with
  | page :: _ => do
      kassert ((heap.pages page).freeHead ≠ 0) .noFreeObjects
      .ok (some page, slab, heap)
  | [] =>
      match fresh with
      | none => .ok (none, slab, heap)
      | some page => do
          let (slab, heap) := createSlabPage slab heap page
          kassert ((heap.pages page).freeHead ≠ 0) .noFreeObjects
          .ok (some page, { slab with partialPages := page :: slab.partialPages }, heap)

end Pages

section Interface

def slabCreate (self objectSize objectAlign : Nat) : Run Slab := do
  kassert (0 < objectSize ∧ objectSize ≤ uint16Max) .invalidLayout
  kassert (ispower2 objectAlign ∧ objectAlign ≤ uint16Max) .invalidLayout
  let slotAlign := max objectAlign alignofSlabObjHdr
  let prefixEnd := alignCeil (sizeofSlabObjHdr + slabRedzoneSize) objectAlign
  let slotDataSize := prefixEnd + objectSize + slabRedzoneSize
  let slotStride := alignCeil slotDataSize slotAlign
  let slotOffset := alignCeil sizeofSlabPage slotAlign
  let pageCapacity := (pageSize + wordSize - slotOffset) % wordSize / slotStride
  kassert (slotStride ≤ uint16Max) .invalidLayout
  kassert (slotOffset < pageSize) .invalidLayout
  kassert (pageCapacity > 0) .invalidLayout
  kassert (pageCapacity ≤ int16Max) .invalidLayout
  .ok { self, objectSize, objectAlign, payloadOffset := prefixEnd % 2 ^ 16
        slotStride := slotStride % 2 ^ 16, slotOffset := slotOffset % 2 ^ 32
        pageCapacity := pageCapacity % 2 ^ 32, inuseObjects := 0, totalObjects := 0
        partialPages := [] }

/-- `slab_alloc`, with the payload it returns, if any. -/
def slabAlloc (slab : Slab) (heap : Heap) (fresh : Option Nat) :
    Run (Option Nat × Slab × Heap) := do
  let (page, slab, heap) ← pickAllocPage slab heap fresh
  match page with
  | none => .ok (none, slab, heap)
  | some page =>
      kassert ((heap.pages page).freeHead ≠ 0) .noFreeObjects
      let hdr := page + (heap.pages page).freeHead
      kassert (isFree heap.bytes hdr) .objectState
      checkRedzones slab heap.bytes hdr
      checkUnusedPayload slab heap.bytes hdr
      let heap := heap.setPage page
        { heap.pages page with
          freeHead := nextFree heap.bytes hdr
          inuse := ((heap.pages page).inuse + 1) % 2 ^ 32 }
      let bytes := setIsFree (setNextFree heap.bytes hdr 0) hdr false
      let slab := { slab with inuseObjects := (slab.inuseObjects + 1) % 2 ^ 32 }
      let partialPages ← if (heap.pages page).freeHead = 0 then unlink page slab.partialPages
        else .ok slab.partialPages
      let payload := payloadPtr slab hdr
      .ok (some payload, { slab with partialPages },
        { heap with bytes := bytes.fill payload slab.objectSize 0 })

def slabFree (slab : Slab) (heap : Heap) (ptr : Nat) : Run (Slab × Heap) := do
  kassert (directMapStart ≤ ptr ∧ ptr < directMapEnd) .invalidPointer
  let hdr := slotFromPayload slab ptr
  let page := hdrToPage hdr
  let offset := hdr - page
  kassert (offset ≥ slab.slotOffset) .invalidPointer
  let delta := offset - slab.slotOffset
  kassert (delta / slab.slotStride < slab.pageCapacity) .invalidPointer
  kassert (delta % slab.slotStride = 0) .invalidPointer
  kassert ((heap.pages page).owner = slab.self) .anotherSlab
  kassert (¬ isFree heap.bytes hdr) .doubleFree
  kassert ((heap.pages page).inuse > 0) .pageState
  let freeHead := (heap.pages page).freeHead
  checkRedzones slab heap.bytes hdr
  let bytes := fillRedzones slab (fillUnusedPayload slab heap.bytes hdr) hdr
  let bytes := setNextFree (setIsFree bytes hdr true) hdr freeHead
  let heap := { heap with bytes }.setPage page
    { heap.pages page with
      freeHead := hdrToOffset page hdr
      inuse := (heap.pages page).inuse - 1 }
  let slab := { slab with inuseObjects := (slab.inuseObjects + 2 ^ 32 - 1) % 2 ^ 32 }
  let slab := if freeHead = 0 then { slab with partialPages := page :: slab.partialPages }
    else slab
  if (heap.pages page).inuse = 0 then do
    let partialPages ← unlink page slab.partialPages
    destroySlabPage { slab with partialPages } heap page
  else .ok (slab, heap)

end Interface

section System

/-- The slab with its pages, and the payloads its clients own. -/
structure World where
  slab : Slab
  heap : Heap
  live : List Nat

inductive Call where
  | alloc (fresh : Option Nat)
  | free (ptr : Nat)
  /-- The memory has changed outside of the functions of the slab. -/
  | write (bytes : Memory)

/-- The byte belongs to a page of the slab. -/
def World.HeldAt (w : World) (addr : Nat) : Prop :=
  ∃ page ∈ w.heap.held, page ≤ addr ∧ addr < page + pageSize

/-- The byte belongs to a payload that a client owns. -/
def World.LiveAt (w : World) (addr : Nat) : Prop :=
  ∃ ptr ∈ w.live, ptr ≤ addr ∧ addr < ptr + w.slab.objectSize

/-- The page allocator gives out pages of the direct map that are not in use, clients free
what they own and write only inside their payloads. -/
def Admits (w : World) : Call → Prop
  | .alloc fresh => ∀ page ∈ fresh, pageSize ∣ page ∧ directMapStart ≤ page ∧
      page < directMapEnd ∧ page ∉ w.heap.held
  | .free ptr => ptr ∈ w.live
  | .write bytes => ∀ addr, w.HeldAt addr → ¬ w.LiveAt addr → bytes addr = w.heap.bytes addr

def exec (w : World) : Call → Run World
  | .alloc fresh => do
      let (payload, slab, heap) ← slabAlloc w.slab w.heap fresh
      .ok { slab, heap, live := payload.toList ++ w.live }
  | .free ptr => do
      let (slab, heap) ← slabFree w.slab w.heap ptr
      .ok { slab, heap, live := w.live.erase ptr }
  | .write bytes => .ok { w with heap := { w.heap with bytes } }

/-- The slab before its first page. -/
def start (slab : Slab) (bytes : Memory) (pages : Nat → SlabPage) : World where
  slab := slab
  heap := { bytes, pages, held := [] }
  live := []

end System

end Opal.Slab
