import Opal.PageTable.Exact
import Mathlib.Algebra.BigOperators.Group.Finset.Basic
import Mathlib.Algebra.Order.Group.Multiset
import Mathlib.Data.Multiset.Basic

/-!
# Page tables with the frames of their tables

The tables of a page table lie in page frames that `mm_alloc_page` gave out.  Here every table
carries its frame, the root has its kernel half too, and `deallocate_page` returns frames to the
pool of the allocator, unless they hold metadata.  What the allocator answers is left open: any
frame of the pool, or none.
-/

namespace Opal.PageTable

section Data

/-- An entry of the given level with the frames of the tables below it. -/
inductive Node : Nat → Type where
  | absent {level : Nat} : Node level
  | page (leaf : Page) : Node 0
  | huge (leaf : Page) : Node 1
  | table {level : Nat} (frame : Nat) (flags : Flags) (entries : Nat → Node level) :
      Node (level + 1)

/-- The entries of a root, those of the kernel half included. -/
abbrev Root := Nat → Node 3

/-- The page allocator.  `pool` are its free frames, `freed` all that were ever returned. -/
structure Frames where
  pool : Multiset Nat
  answers : Stream' (Option Nat)
  freed : Multiset Nat
  /-- `PAGE_FLAG_METADATA` of a frame. -/
  metadata : Nat → Bool

/-- `mm_alloc_page` for one frame. -/
def mmAllocPage (mem : Frames) : Option Nat × Frames :=
  match mem.answers.head with
  | none => (none, { mem with answers := mem.answers.tail })
  | some frame =>
      if frame ∈ mem.pool then
        (some frame, { mem with pool := mem.pool.erase frame, answers := mem.answers.tail })
      else (none, { mem with answers := mem.answers.tail })

/-- `mm_free_page` for one frame. -/
def mmFreePage (frame : Nat) (mem : Frames) : Frames :=
  { mem with pool := frame ::ₘ mem.pool, freed := frame ::ₘ mem.freed }

/-- `allocate_page`; the frame at address 0 is taken for a failure. -/
def allocatePage (mem : Frames) : Option Nat × Frames :=
  match mmAllocPage mem with
  | (some 0, mem) => (none, mem)
  | (frame, mem) => (frame, mem)

/-- `deallocate_page`. -/
def deallocatePage (frame : Nat) (mem : Frames) : Bool × Frames :=
  if mem.metadata frame then (false, mem) else (true, mmFreePage frame mem)

end Data

section Deallocate

/-- A table after its deallocation, and whether its frame was returned. -/
structure Released (level : Nat) where
  entries : Nat → Node level
  ok : Bool
  mem : Frames

/-- Clears an entry that is present, unless the table it points to stays. -/
def clearEntry : {level : Nat} → (Nat → (Nat → Node level) → Frames → Released level) →
    Node (level + 1) → Frames → Node (level + 1) × Frames
  | _, _, .absent, mem => (.absent, mem)
  | _, _, .huge _, mem => (.absent, mem)
  | _, deallocate, .table frame flags entries, mem =>
      let released := deallocate frame entries mem
      (if released.ok then .absent else .table frame flags released.entries, released.mem)

/-- `unmap_table`, up to an index. -/
def unmapTable {level : Nat} (deallocate : Nat → (Nat → Node level) → Frames → Released level)
    (entries : Nat → Node (level + 1)) (mem : Frames) : Nat → (Nat → Node (level + 1)) × Frames
  | 0 => (entries, mem)
  | i + 1 =>
      let table := unmapTable deallocate entries mem i
      let cleared := clearEntry deallocate (table.1 i) table.2
      (Function.update table.1 i cleared.1, cleared.2)

/-- `deallocate_pt` at level 0, `deallocate_pdt` and `deallocate_pdpt` above. -/
def deallocate : (level : Nat) → Nat → (Nat → Node level) → Frames → Released level
  | 0, frame, entries, mem =>
      let page := deallocatePage frame mem
      { entries := if page.1 then entries else fun _ => .absent, ok := page.1, mem := page.2 }
  | level + 1, frame, entries, mem =>
      let table := unmapTable (deallocate level) entries mem tableLength
      let page := deallocatePage frame table.2
      { entries := table.1, ok := page.1, mem := page.2 }

def deallocatePt := deallocate 0

def deallocatePdt := deallocate 1

def deallocatePdpt := deallocate 2

end Deallocate

section Unmap

/-- The entries that `expand_hugepage` fills. -/
def expandedEntries (leaf : Page) : Nat → Node 0 := fun i =>
  .page { addr := pteAddr (leaf.addr + i * pageSize), flags := leaf.flags }

/-- `expand_hugepage`. -/
def expandNode (leaf : Page) (mem : Frames) : Option (Nat × Flags × (Nat → Node 0)) × Frames :=
  match allocatePage mem with
  | (none, mem) => (none, mem)
  | (some frame, mem) => (some (frame, leaf.flags, expandedEntries leaf), mem)

structure NodeUnmapped (level : Nat) where
  node : Node level
  next : Nat
  mem : Frames

/-- One level of `unmap_next`, after the entry itself was cleared where it fits. -/
def unmapNodeBelow : {level : Nat} → Nat → (Node level → Frames → NodeUnmapped level) →
    Node (level + 1) → Frames → NodeUnmapped (level + 1)
  | level, va, _, .absent, mem =>
      { node := .absent, next := roundDown (level + 1) (va + span (level + 1)), mem := mem }
  | _, va, unmap, .huge leaf, mem =>
      match expandNode leaf mem with
      | (none, mem) => { node := .huge leaf, next := va, mem := mem }
      | (some (frame, flags, entries), mem) =>
          let below := unmap (entries (index 0 va)) mem
          { node := .table frame flags (Function.update entries (index 0 va) below.node)
            next := below.next, mem := below.mem }
  | level, va, unmap, .table frame flags entries, mem =>
      let below := unmap (entries (index level va)) mem
      { node := .table frame flags (Function.update entries (index level va) below.node)
        next := below.next, mem := below.mem }

/-- `unmap_next` from an entry on. -/
def unmapNode : (level : Nat) → Nat → Nat → Node level → Frames → NodeUnmapped level
  | 0, va, _, _, mem => { node := .absent, next := va + pageSize, mem := mem }
  | level + 1, va, stop, node, mem =>
      let cleared :=
        if va + span (level + 1) ≤ stop then clearEntry (deallocate level) node mem else (node, mem)
      unmapNodeBelow va (unmapNode level va stop) cleared.1 cleared.2

/-- A page table with the address a loop has come to. -/
structure RootWalk where
  root : Root
  va : Nat
  mem : Frames

def unmapRootNext (root : Root) (va stop : Nat) (mem : Frames) : RootWalk :=
  let below := unmapNode 3 va stop (root (index 3 va)) mem
  { root := Function.update root (index 3 va) below.node, va := below.next, mem := below.mem }

/-- The loop of `unmap_range_len`. -/
def unmapRootLoop (stop : Nat) : Nat → Root → Nat → Frames → RootWalk
  | 0, root, va, mem => { root := root, va := va, mem := mem }
  | fuel + 1, root, va, mem =>
      if va = stop then { root := root, va := va, mem := mem }
      else
        let round := unmapRootNext root va stop mem
        if round.va = va then round
        else
          unmapRootLoop stop fuel round.root
            (if stop = 0 ∨ round.va < stop then round.va else stop) round.mem

/-- `pagetable_unmap`; `none` is a failed assertion. -/
def rootUnmap (root : Root) (va len : Nat) (mem : Frames) : Option RootWalk :=
  if va % pageSize = 0 ∧ len % pageSize = 0 then
    some (unmapRootLoop (va + len) (len / pageSize + 1) root va mem)
  else none

end Unmap

section Map

/-- `get_or_alloc_table`: a table with its frame and flags, or `none`. -/
def getOrAllocNode : {level : Nat} → Node (level + 1) → Flags → Frames →
    Option (Nat × Flags × (Nat → Node level)) × Frames
  | _, .table frame flags entries, _, mem => (some (frame, flags, entries), mem)
  | _, .huge leaf, _, mem => expandNode leaf mem
  | _, .absent, flags, mem =>
      match allocatePage mem with
      | (none, mem) => (none, mem)
      | (some frame, mem) => (some (frame, { flags with writable := true }, fun _ => .absent), mem)

structure NodeInstalled (level : Nat) where
  node : Node level
  ok : Bool
  mem : Frames

/-- Goes on with the entry of `va` in the table that `get_or_alloc_table` returns. -/
def withNode {level : Nat} (va : Nat) (flags : Flags)
    (install : Node level → Frames → NodeInstalled level)
    (node : Node (level + 1)) (mem : Frames) : NodeInstalled (level + 1) :=
  match getOrAllocNode node flags mem with
  | (none, mem) => { node := node, ok := false, mem := mem }
  | (some (frame, tableFlags, entries), mem) =>
      let below := install (entries (index level va)) mem
      { node := .table frame tableFlags (Function.update entries (index level va) below.node)
        ok := below.ok, mem := below.mem }

def setPte (pa : Nat) (flags : Flags) : Node 0 → Frames → NodeInstalled 0
  | .page leaf, mem => { node := .page leaf, ok := false, mem := mem }
  | .absent, mem => { node := .page { addr := pteAddr pa, flags := flags }, ok := true, mem := mem }

def setPde (pa : Nat) (flags : Flags) : Node 1 → Frames → NodeInstalled 1
  | .absent, mem => { node := .huge { addr := pteAddr pa, flags := flags }, ok := true, mem := mem }
  | present, mem => { node := present, ok := false, mem := mem }

/-- A page table after a page was to be mapped, and whether it was. -/
structure RootMapped where
  root : Root
  ok : Bool
  mem : Frames

def atRootNode (root : Root) (va : Nat) (mem : Frames)
    (install : Node 3 → Frames → NodeInstalled 3) : RootMapped :=
  let below := install (root (index 3 va)) mem
  { root := Function.update root (index 3 va) below.node, ok := below.ok, mem := below.mem }

/-- `map_4k`. -/
def mapRoot4k (root : Root) (va pa : Nat) (flags : Flags) (mem : Frames) : RootMapped :=
  atRootNode root va mem
    (withNode va flags (withNode va flags (withNode va flags (setPte pa flags))))

/-- `map_2m`. -/
def mapRoot2m (root : Root) (va pa : Nat) (flags : Flags) (mem : Frames) : RootMapped :=
  atRootNode root va mem (withNode va flags (withNode va flags (setPde pa flags)))

/-- How far the loop of `map_range_len` came. -/
structure RootProgress where
  root : Root
  vaCur : Nat
  paCur : Nat
  ok : Bool
  mem : Frames

/-- The loop of `map_range_len`. -/
def mapRootLoop (flags : Flags) : Nat → Root → Nat → Nat → Nat → Frames → RootProgress
  | 0, root, va, pa, _, mem => { root := root, vaCur := va, paCur := pa, ok := true, mem := mem }
  | fuel + 1, root, va, pa, len, mem =>
      if len = 0 then { root := root, vaCur := va, paCur := pa, ok := true, mem := mem }
      else if canUseHuge va pa len then
        let round := mapRoot2m root va pa flags mem
        if round.ok then
          mapRootLoop flags fuel round.root (va + hugePageSize) (pa + hugePageSize)
            (len - hugePageSize) round.mem
        else { root := round.root, vaCur := va, paCur := pa, ok := false, mem := round.mem }
      else
        let round := mapRoot4k root va pa flags mem
        if round.ok then
          mapRootLoop flags fuel round.root (va + pageSize) (pa + pageSize) (len - pageSize)
            round.mem
        else { root := round.root, vaCur := va, paCur := pa, ok := false, mem := round.mem }

/-- `pagetable_map`; the address of the result is 0 where it fails. -/
def rootMap (root : Root) (va pa len : Nat) (flags : Flags) (mem : Frames) : Option RootWalk :=
  if pa % pageSize = 0 ∧ len % pageSize = 0 ∧ va % pageSize = 0 then
    if va = 0 then some { root := root, va := 0, mem := mem }
    else
      let reached := mapRootLoop flags (len / pageSize) root va pa len mem
      if reached.ok then some { root := reached.root, va := reached.vaCur, mem := reached.mem }
      else
        (rootUnmap reached.root va (reached.paCur - pa) reached.mem).map
          fun undone => { undone with va := 0 }
  else none

end Map

section Lifetime

/-- A page table and the frame of its root. -/
structure Space where
  frame : Nat
  root : Root

/-- `pagetable_clone`, which copies the entries of the root. -/
def pagetableClone (root : Root) (mem : Frames) : Option Space × Frames :=
  match mmAllocPage mem with
  | (none, mem) => (none, mem)
  | (some frame, mem) => (some { frame := frame, root := root }, mem)

/-- `pagetable_create`, given the root of the kernel. -/
def pagetableCreate (kptbl : Root) (mem : Frames) : Option Space × Frames :=
  pagetableClone kptbl mem

/-- `pagetable_destroy`; `none` is a failed assertion. -/
def pagetableDestroy (space : Space) (mem : Frames) : Option Frames :=
  (rootUnmap space.root 0 0x0000800000000000 mem).map fun walked =>
    mmFreePage space.frame walked.mem

end Lifetime

end Opal.PageTable
