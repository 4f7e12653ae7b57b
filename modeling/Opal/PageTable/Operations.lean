import Opal.Basic
import Mathlib.Algebra.Group.Nat.Defs
import Mathlib.Logic.Function.Basic

/-!
# Page tables of the user half

A page table is a tree of four levels of 512 entries.  The tables below the user half
of a root belong to it alone and come from the page allocator, so an entry holds its
table itself, and `deallocate_page` always frees one.  An entry of level `l` covers
`span l` bytes: level 0 is that of page table entries, level 3 that of the root.  Pages
are at level 0, huge pages at level 1; no function of the file makes larger ones.
-/

namespace Opal.PageTable

section Data

/-- The flags a caller may combine beside `PTE_FLAG_PRESENT`, which every entry has,
and `PTE_FLAG_HUGE`, which only the code itself sets. -/
structure Flags where
  writable : Bool
  user : Bool
  writeThrough : Bool
  noCache : Bool
  accessed : Bool
  dirty : Bool
  global : Bool
  noExecute : Bool
  deriving DecidableEq, Repr

structure Page where
  addr : Nat
  flags : Flags
  deriving DecidableEq, Repr

/-- An entry of the given level; one that is not present is `absent`. -/
inductive Entry : Nat → Type where
  | absent {level : Nat} : Entry level
  | page (leaf : Page) : Entry 0
  | huge (leaf : Page) : Entry 1
  | table {level : Nat} (flags : Flags) (entries : Nat → Entry level) : Entry (level + 1)

/-- The entries of the root. -/
abbrev Pagetable := Nat → Entry 3

/-- `PAGETABLE_LENGTH`. -/
def tableLength : Nat := 512

/-- `bits1` to `bits4`, by level. -/
def span (level : Nat) : Nat := 2 ^ (12 + 9 * level)

def pageSize : Nat := span 0

def hugePageSize : Nat := span 1

/-- `i1` to `i4`, by level. -/
def index (level va : Nat) : Nat := va / span level % tableLength

/-- `x & ~(bits - 1)`. -/
def roundDown (level x : Nat) : Nat := x / span level * span level

/-- `pa & PTE_MASK_ADDR`. -/
def pteAddr (pa : Nat) : Nat := pa / pageSize % 2 ^ 40 * pageSize

end Data

section Lookup

def Entry.lookup : {level : Nat} → Entry level → Nat → Option Nat
  | _, .absent, _ => none
  | _, .page leaf, va => some (leaf.addr + va % pageSize)
  | _, .huge leaf, va => some (leaf.addr + va % hugePageSize)
  | level + 1, .table _ entries, va => lookup (entries (index level va)) va

def pagetableLookup (ptbl : Pagetable) (va : Nat) : Option Nat := (ptbl (index 3 va)).lookup va

end Lookup

section Expand

/-- The table `expand_hugepage` fills, with the flags of the entry that points to it. -/
def expandHugepage (leaf : Page) : Flags × (Nat → Entry 0) :=
  (leaf.flags, fun i => .page { addr := pteAddr (leaf.addr + i * pageSize), flags := leaf.flags })

end Expand

section Unmap

structure Unmapped (level : Nat) where
  entry : Entry level
  next : Nat
  mem : AllocOracle

/-- One level of `unmap_next`: past an entry that is not present, else down to the entry
of `va` in its table, which a huge page is expanded to. -/
def unmapBelow : {level : Nat} → Nat → (Entry level → AllocOracle → Unmapped level) →
    Entry (level + 1) → AllocOracle → Unmapped (level + 1)
  | level, va, _, .absent, mem =>
      { entry := .absent, next := roundDown (level + 1) (va + span (level + 1)), mem := mem }
  | _, va, unmap, .huge leaf, mem =>
      if mem.head then
        let (flags, entries) := expandHugepage leaf
        let below := unmap (entries (index 0 va)) mem.tail
        { entry := .table flags (Function.update entries (index 0 va) below.entry)
          next := below.next, mem := below.mem }
      else { entry := .huge leaf, next := va, mem := mem.tail }
  | level, va, unmap, .table flags entries, mem =>
      let below := unmap (entries (index level va)) mem
      { entry := .table flags (Function.update entries (index level va) below.entry)
        next := below.next, mem := below.mem }

/-- `unmap_next` from an entry on.  An entry whose whole span fits between `va` and `stop`
is cleared with the tables below it, wherever `va` lies in that span. -/
def unmapEntry : (level : Nat) → Nat → Nat → Entry level → AllocOracle → Unmapped level
  | 0, va, _, _, mem => { entry := .absent, next := va + pageSize, mem := mem }
  | level + 1, va, stop, entry, mem =>
      unmapBelow va (unmapEntry level va stop)
        (if va + span (level + 1) ≤ stop then .absent else entry) mem

/-- A page table with the address a loop has come to. -/
structure Walk where
  ptbl : Pagetable
  va : Nat
  mem : AllocOracle

def unmapNext (ptbl : Pagetable) (va stop : Nat) (mem : AllocOracle) : Walk :=
  let below := unmapEntry 3 va stop (ptbl (index 3 va)) mem
  { ptbl := Function.update ptbl (index 3 va) below.entry, va := below.next, mem := below.mem }

/-- The loop of `unmap_range_len`; every round but the last passes a page. -/
def unmapLoop (stop : Nat) : Nat → Pagetable → Nat → AllocOracle → Walk
  | 0, ptbl, va, mem => { ptbl := ptbl, va := va, mem := mem }
  | fuel + 1, ptbl, va, mem =>
      if va = stop then { ptbl := ptbl, va := va, mem := mem }
      else
        let round := unmapNext ptbl va stop mem
        if round.va = va then round
        else
          unmapLoop stop fuel round.ptbl
            (if stop = 0 ∨ round.va < stop then round.va else stop) round.mem

/-- `pagetable_unmap`, which flushes no translation here; `none` is a failed assertion. -/
def pagetableUnmap (ptbl : Pagetable) (va len : Nat) (mem : AllocOracle) : Option Walk :=
  if va % pageSize = 0 ∧ len % pageSize = 0 then
    some (unmapLoop (va + len) (len / pageSize + 1) ptbl va mem)
  else none

end Unmap

section Map

/-- A new table and its flags, or `none` when there is no memory for it. -/
def getOrAllocTable : {level : Nat} → Entry (level + 1) → Flags → AllocOracle →
    Option (Flags × (Nat → Entry level)) × AllocOracle
  | _, .table flags entries, _, mem => (some (flags, entries), mem)
  | _, .huge leaf, _, mem => (if mem.head then some (expandHugepage leaf) else none, mem.tail)
  | _, .absent, flags, mem =>
      (if mem.head then some ({ flags with writable := true }, fun _ => .absent) else none,
        mem.tail)

structure Installed (level : Nat) where
  entry : Entry level
  ok : Bool
  mem : AllocOracle

/-- Goes on with the entry of `va` in the table that `get_or_alloc_table` returns. -/
def withTable {level : Nat} (va : Nat) (flags : Flags)
    (install : Entry level → AllocOracle → Installed level)
    (entry : Entry (level + 1)) (mem : AllocOracle) : Installed (level + 1) :=
  match getOrAllocTable entry flags mem with
  | (none, mem) => { entry := entry, ok := false, mem := mem }
  | (some (tableFlags, entries), mem) =>
      let below := install (entries (index level va)) mem
      { entry := .table tableFlags (Function.update entries (index level va) below.entry)
        ok := below.ok, mem := below.mem }

def installPte (pa : Nat) (flags : Flags) : Entry 0 → AllocOracle → Installed 0
  | .page leaf, mem => { entry := .page leaf, ok := false, mem := mem }
  | .absent, mem =>
      { entry := .page { addr := pteAddr pa, flags := flags }, ok := true, mem := mem }

def installPde (pa : Nat) (flags : Flags) : Entry 1 → AllocOracle → Installed 1
  | .absent, mem =>
      { entry := .huge { addr := pteAddr pa, flags := flags }, ok := true, mem := mem }
  | present, mem => { entry := present, ok := false, mem := mem }

/-- A page table after a page was to be mapped, and whether it was. -/
structure Mapped where
  ptbl : Pagetable
  ok : Bool
  mem : AllocOracle

def atRoot (ptbl : Pagetable) (va : Nat) (mem : AllocOracle)
    (install : Entry 3 → AllocOracle → Installed 3) : Mapped :=
  let below := install (ptbl (index 3 va)) mem
  { ptbl := Function.update ptbl (index 3 va) below.entry, ok := below.ok, mem := below.mem }

def map4k (ptbl : Pagetable) (va pa : Nat) (flags : Flags) (mem : AllocOracle) : Mapped :=
  atRoot ptbl va mem
    (withTable va flags (withTable va flags (withTable va flags (installPte pa flags))))

def map2m (ptbl : Pagetable) (va pa : Nat) (flags : Flags) (mem : AllocOracle) : Mapped :=
  atRoot ptbl va mem (withTable va flags (withTable va flags (installPde pa flags)))

def canUseHuge (va pa len : Nat) : Bool :=
  len ≥ hugePageSize && va % hugePageSize = 0 && pa % hugePageSize = 0

/-- How far the loop of `map_range_len` came. -/
structure Progress where
  ptbl : Pagetable
  vaCur : Nat
  paCur : Nat
  ok : Bool
  mem : AllocOracle

/-- The loop of `map_range_len`; every round maps a page at least. -/
def mapLoop (flags : Flags) : Nat → Pagetable → Nat → Nat → Nat → AllocOracle → Progress
  | 0, ptbl, va, pa, _, mem => { ptbl := ptbl, vaCur := va, paCur := pa, ok := true, mem := mem }
  | fuel + 1, ptbl, va, pa, len, mem =>
      if len = 0 then { ptbl := ptbl, vaCur := va, paCur := pa, ok := true, mem := mem }
      else if canUseHuge va pa len then
        let round := map2m ptbl va pa flags mem
        if round.ok then
          mapLoop flags fuel round.ptbl (va + hugePageSize) (pa + hugePageSize)
            (len - hugePageSize) round.mem
        else { ptbl := round.ptbl, vaCur := va, paCur := pa, ok := false, mem := round.mem }
      else
        let round := map4k ptbl va pa flags mem
        if round.ok then
          mapLoop flags fuel round.ptbl (va + pageSize) (pa + pageSize) (len - pageSize) round.mem
        else { ptbl := round.ptbl, vaCur := va, paCur := pa, ok := false, mem := round.mem }

/-- `pagetable_map`; the address of the result is 0 where it fails. -/
def pagetableMap (ptbl : Pagetable) (va pa len : Nat) (flags : Flags) (mem : AllocOracle) :
    Option Walk :=
  if pa % pageSize = 0 ∧ len % pageSize = 0 ∧ va % pageSize = 0 then
    if va = 0 then some { ptbl := ptbl, va := 0, mem := mem }
    else
      let reached := mapLoop flags (len / pageSize) ptbl va pa len mem
      if reached.ok then some { ptbl := reached.ptbl, va := reached.vaCur, mem := reached.mem }
      else
        (pagetableUnmap reached.ptbl va (reached.paCur - pa) reached.mem).map
          fun undone => { undone with va := 0 }
  else none

end Map

end Opal.PageTable
