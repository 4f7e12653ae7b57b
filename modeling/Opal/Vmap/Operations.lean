import Opal.Basic
import Opal.Library.Outcome
import Opal.Library.Ranges

/-!
# The allocator of kernel address ranges

`g_vmap_entries` up to `g_vmap_len` is a list.  The bookkeeping never reads the kernel
page table and ignores what the calls on it return, so the page table is a parameter here.
-/

namespace Opal.Vmap

open Library

section Data

/-- `MAX_VMAP_ENTRIES`. -/
def maxVmapEntries : Nat := 128

/-- `VMAP_START_VIRT`. -/
def vmapStart : Nat := 0xffffcb0000000000

/-- `VMAP_END_VIRT`. -/
def vmapEnd : Nat := 0xffffeb0000000000

/-- `PAGE_SIZE`. -/
def pageSize : Nat := 4096

/-- `align_floor_sz_p2(x, PAGE_SIZE)`. -/
def alignFloor (x : Nat) : Nat := x / pageSize * pageSize

/-- `align_ceil_sz_p2(x, PAGE_SIZE)`. -/
def alignCeil (x : Nat) : Nat := (x + (pageSize - 1)) % wordSize / pageSize * pageSize

/-- `pagetable_map` at a virtual and a physical address for a length, and `pagetable_unmap`,
on the page table of the kernel. -/
structure Paging (Table : Type) where
  map : Table → Nat → Nat → Nat → Table
  unmap : Table → Nat → Nat → Table

structure Vmap (Table : Type) where
  entries : List Range
  ptbl : Table

inductive Stop where
  /-- `overflow detected`. -/
  | overflow
  /-- `double free or overlap detected`. -/
  | overlap
  /-- `g_vmap_len < MAX_VMAP_ENTRIES`. -/
  | full
  /-- Any other assertion of the file. -/
  | assertion
  deriving DecidableEq, Repr

def kassert (condition : Prop) [Decidable condition] (stop : Stop) : Except Stop Unit :=
  if condition then .ok () else .error stop

end Data

section Entries

def removeEntry (entries : List Range) (idx : Nat) : Except Stop (List Range) := do
  kassert (idx < entries.length) .assertion
  .ok (entries.eraseIdx idx)

def insertEntry (entries : List Range) (idx addr len : Nat) : Except Stop (List Range) := do
  kassert (entries.length < maxVmapEntries) .full
  kassert (idx ≤ entries.length) .assertion
  .ok (entries.insertIdx idx { addr := addr, len := len })

def initialEntries : List Range := [{ addr := vmapStart, len := vmapEnd - vmapStart }]

end Entries

variable {Table : Type}

def mmVmapInit (ptbl : Table) : Vmap Table := { entries := initialEntries, ptbl := ptbl }

section Alloc

/-- The loop of `mm_vmap_alloc`: the start of the first entry that is long enough, and the
entries without the part that is taken. -/
def takeRange (entries : List Range) (size : Nat) : Except Stop (Option (Nat × List Range)) :=
  match entries.findIdx? fun entry => ¬entry.len < size with
  | none => .ok none
  | some i =>
      match entries[i]? with
      | none => .ok none
      | some entry =>
          if entry.len = size then do
            let entries' ← removeEntry entries i
            .ok (some (entry.addr, entries'))
          else
            .ok (some (entry.addr,
              entries.set i { addr := entry.addr + size, len := entry.len - size }))

/-- What `mm_vmap_alloc` returns where it does not return `NULL`. -/
structure Mapping where
  span : Range
  pointer : Nat
  deriving DecidableEq, Repr

def mmVmapAlloc (paging : Paging Table) (vmap : Vmap Table) (pa size : Nat) :
    Except Stop (Vmap Table × Option Mapping) :=
  if size = 0 then .ok (vmap, none)
  else do
    let alignedStart := alignFloor pa
    let alignedEnd := alignCeil ((pa + size) % wordSize)
    kassert (alignedEnd = 0 ∨ alignedStart < alignedEnd) .overflow
    let alignedSize := (alignedEnd + (wordSize - alignedStart)) % wordSize
    if alignedSize = 0 then .ok (vmap, none)
    else
      match ← takeRange vmap.entries alignedSize with
      | none => .ok (vmap, none)
      | some (vaBase, entries) =>
          .ok ({ entries := entries
                 ptbl := paging.map vmap.ptbl vaBase alignedStart alignedSize },
            some { span := { addr := vaBase, len := alignedSize }
                   pointer := vaBase + (pa - alignedStart) })

end Alloc

section Free

/-- The end of `mm_vmap_free`, from the search for the place of the range on. -/
def giveRange (entries : List Range) (addr len : Nat) : Except Stop (List Range) :=
  let stop := addr + len
  let idx := entries.findIdx fun entry => ¬entry.addr < addr
  let prev := if idx > 0 then entries[idx - 1]? else none
  let next := entries[idx]?
  do
    kassert (∀ entry ∈ prev, entry.stop ≤ addr) .overlap
    kassert (∀ entry ∈ next, stop ≤ entry.addr) .overlap
    match prev.filter fun entry => entry.stop = addr, next.filter fun entry => stop =
      entry.addr with
    | some prev, some next =>
        removeEntry (entries.set (idx - 1) { prev with len := prev.len + (len + next.len) }) idx
    | some prev, none => .ok (entries.set (idx - 1) { prev with len := prev.len + len })
    | none, some next => .ok (entries.set idx { addr := addr, len := next.len + len })
    | none, none => insertEntry entries idx addr len

def mmVmapFree (paging : Paging Table) (vmap : Vmap Table) (span : Range) :
    Except Stop (Vmap Table) :=
  if span.addr = 0 ∨ span.len = 0 then .ok vmap
  else do
    kassert (span.addr % pageSize = 0) .assertion
    kassert (span.len % pageSize = 0) .assertion
    kassert (vmapStart ≤ span.addr ∧ span.addr < vmapEnd) .assertion
    kassert (span.len ≤ vmapEnd - span.addr) .assertion
    let ptbl := paging.unmap vmap.ptbl span.addr span.len
    let entries ← giveRange vmap.entries span.addr span.len
    .ok { entries := entries, ptbl := ptbl }

end Free

section Calls

/-- The allocator with the spans that were returned and not freed, each with the physical
address it was asked for. -/
structure World (Table : Type) where
  vmap : Vmap Table
  held : List (Nat × Mapping)

inductive Call where
  | alloc (pa size : Nat)
  | free (held : Nat × Mapping)
  deriving DecidableEq, Repr

/-- Only spans that are outstanding are freed. -/
def Admits (world : World Table) : Call → Prop
  | .alloc pa size => pa < wordSize ∧ size < wordSize
  | .free held => held ∈ world.held

instance (world : World Table) : (call : Call) → Decidable (Admits world call)
  | .alloc pa size => inferInstanceAs (Decidable (pa < wordSize ∧ size < wordSize))
  | .free held => inferInstanceAs (Decidable (held ∈ world.held))

def World.init (ptbl : Table) : World Table := { vmap := mmVmapInit ptbl, held := [] }

def step (paging : Paging Table) (world : World Table) : Call → Except Stop (World Table)
  | .alloc pa size => do
      let (vmap, result) ← mmVmapAlloc paging world.vmap pa size
      match result with
      | none => .ok { world with vmap := vmap }
      | some mapping => .ok { vmap := vmap, held := (pa, mapping) :: world.held }
  | .free held => do
      let vmap ← mmVmapFree paging world.vmap held.2.span
      .ok { vmap := vmap, held := world.held.erase held }

/-- The outstanding spans. -/
def World.spans (world : World Table) : List Range := world.held.map fun held => held.2.span

end Calls

end Opal.Vmap
