import Opal.Library.Reading
import Opal.PageTable.Operations
import Opal.VmTree.WellFormed
import Mathlib.Order.Interval.Finset.Nat

/-!
# The memory of processes

A process has a page table and a vmtree of its areas.  `map_section` and `load_elf_image` fill
them from an ELF file, `clone_vmem_range` copies them for a child, and
`process_image_destroy_parts` gives everything back.  Data pages come from the page allocator;
those of the page tables are their own business (`Opal.PageTable`).
-/

namespace Opal.Process

open Opal.PageTable
open Opal.VmTree (Node Status Segment vmtreeInit vmtreeInsert vmtreeRemove vmtreeBeforeBegin
  collect segments)

section Data

/-- The rest of the kernel as it is seen from here: physical memory, the page allocator and the
heap.  `pool` holds the free page frames.  The streams say what the coming requests are answered
with; a block that is not free, or a pointer in use, is no answer. -/
structure Host where
  bytes : Memory
  pool : Finset Nat
  blocks : Stream' (Option Nat)
  areas : Nat → Option Flags
  pointers : Stream' (Option Nat)
  tables : AllocOracle
  nodes : Stream' AllocOracle

/-- `struct process_image`. -/
structure Image where
  ptbl : Pagetable
  vmtree : Node

inductive Errno where
  | ok
  | enomem
  | ebadimage
  | enoexec
  | einval
  | eexist
  deriving DecidableEq, Repr

/-- The page frames of a block. -/
def block (frame order : Nat) : Finset Nat := Finset.Ico frame (frame + 2 ^ order)

/-- A block that the page allocator may hand out. -/
def Host.Offers (host : Host) (frame order : Nat) : Prop :=
  frame % 2 ^ order = 0 ∧ frame + 2 ^ order ≤ 2 ^ 40 ∧ block frame order ⊆ host.pool

instance (host : Host) (frame order : Nat) : Decidable (host.Offers frame order) :=
  inferInstanceAs (Decidable (_ ∧ _ ∧ _))

def mmAllocPage (order : Nat) (host : Host) : Option Nat × Host :=
  match host.blocks.head with
  | none => (none, { host with blocks := host.blocks.tail })
  | some frame =>
      if host.Offers frame order then
        (some frame, { host with
          blocks := host.blocks.tail, pool := host.pool \ block frame order })
      else (none, { host with blocks := host.blocks.tail })

/-- `mm_free_page`; `none` is a frame given back twice. -/
def mmFreePage (frame order : Nat) (host : Host) : Option Host :=
  if Disjoint (block frame order) host.pool then
    some { host with pool := host.pool ∪ block frame order }
  else none

/-- A new `struct vm_area` with its flags. -/
def kzallocArea (flags : Flags) (host : Host) : Option Nat × Host :=
  match host.pointers.head with
  | none => (none, { host with pointers := host.pointers.tail })
  | some area =>
      if area ≠ 0 ∧ host.areas area = none then
        (some area, { host with pointers := host.pointers.tail,
                                areas := Function.update host.areas area (some flags) })
      else (none, { host with pointers := host.pointers.tail })

/-- `kfree` of a `struct vm_area`; `none` is one freed twice. -/
def kfreeArea (area : Nat) (host : Host) : Option Host :=
  match host.areas area with
  | none => none
  | some _ => some { host with areas := Function.update host.areas area none }

end Data

section Release

/-- The rounds of a loop over `len` bytes in steps of a page. -/
def pageCount (len : Nat) : Nat := (len + pageSize - 1) / pageSize

/-- `phys_to_pfn(pa & PTE_MASK_ADDR)`. -/
def physToPfn (pa : Nat) : Nat := pteAddr pa / pageSize

/-- The loop that gives back the mapped pages of a range, by the number of its pages. -/
def freePages (ptbl : Pagetable) : Nat → Nat → Host → Option Host
  | 0, _, host => some host
  | count + 1, va, host =>
      match pagetableLookup ptbl va with
      | none => freePages ptbl count (va + pageSize) host
      | some pa => (mmFreePage (physToPfn pa) 0 host).bind (freePages ptbl count (va + pageSize))

def freeMappedRange (ptbl : Pagetable) (addr mappedLen : Nat) (host : Host) : Option Host :=
  freePages ptbl (pageCount mappedLen) addr host

/-- What the iterator yields from the start of the tree to its end. -/
def entries (vmtree : Node) : List Segment :=
  collect vmtree ((segments vmtree 0 uintptrMax).length + 1)
    ((segments vmtree 0 uintptrMax).length + 1) vmtreeBeforeBegin

def freeMappedPagesAll (ptbl : Pagetable) (vmtree : Node) (host : Host) : Option Host :=
  (entries vmtree).foldlM
    (fun host entry => freePages ptbl (pageCount (entry.hi - entry.lo)) entry.lo host) host

def freeVmAreasAll (vmtree : Node) (host : Host) : Option Host :=
  (entries vmtree).foldlM (fun host entry => kfreeArea entry.val host) host

/-- `process_image_destroy_parts`; its page table and its vmtree are gone afterwards. -/
def processImageDestroyParts (image : Image) (host : Host) : Option Host :=
  (freeMappedPagesAll image.ptbl image.vmtree host).bind (freeVmAreasAll image.vmtree)

/-- The end of `map_section` and of `clone_vmem_range` that undoes what was done up to
`current`. -/
def undoRange (image : Image) (area start stop current : Nat) (host : Host) :
    Option (Image × Host) := do
  let host ← freeMappedRange image.ptbl start (current - start) host
  let unmapped ← pagetableUnmap image.ptbl start (current - start) host.tables
  let removed := vmtreeRemove image.vmtree start stop host.nodes.head
  let host ← kfreeArea area { host with tables := unmapped.mem, nodes := host.nodes.tail }
  pure ({ ptbl := unmapped.ptbl, vmtree := removed.2 }, host)

end Release

section Sections

/-- `ELF_PF_W`. -/
def elfPfW : Nat := 2

/-- `ELF_PF_R`. -/
def elfPfR : Nat := 4

def elfFlagsToPtblFlags (flags : Nat) : Flags where
  writable := flags &&& elfPfW ≠ 0
  user := true
  writeThrough := false
  noCache := false
  accessed := false
  dirty := false
  global := false
  noExecute := false

/-- The variables of the loop of `map_section`; `bytes` is a place in the file. -/
structure Section where
  order : Nat
  filesz : Nat
  bytes : Nat
  current : Nat
  memsz : Nat
  ptbl : Pagetable
  host : Host

/-- The largest block that is not larger than the section. -/
def sectionOrder (memsz : Nat) : Nat → Nat → Nat
  | 0, order => order
  | fuel + 1, order =>
      if memsz ≥ pageSize <<< (order + 1) then sectionOrder memsz fuel (order + 1) else order

/-- Copies the part of the file that belongs to the block and clears the rest of it. -/
def fillBlock (bytes : Memory) (frame size toCopy : Nat) (part : Memory) : Memory :=
  ((bytes.copyInto (frame * pageSize) toCopy part).fill (frame * pageSize + toCopy)
    (size - toCopy) 0)

/-- The loop of `map_section`: whether the whole section is mapped, and the variables where it
stops.  Every round maps a block or goes on to smaller ones. -/
def sectionLoop (file : Memory) (flags : Flags) : Nat → Section → Reading (Option (Bool × Section))
  | 0, _ => pure none
  | fuel + 1, section' =>
      if section'.memsz = 0 then pure (some (true, section'))
      else
        let size := pageSize <<< section'.order
        if section'.order > 0 ∧ size > section'.memsz then
          sectionLoop file flags fuel { section' with order := section'.order - 1 }
        else
          match mmAllocPage section'.order section'.host with
          | (none, host) =>
              if section'.order = 0 then pure (some (false, { section' with host := host }))
              else
                sectionLoop file flags fuel
                  { section' with order := section'.order - 1, host := host }
          | (some frame, host) =>
              match pagetableMap section'.ptbl section'.current (frame * pageSize) size flags
                host.tables with
              | none => pure none
              | some mapped =>
                  if mapped.va = 0 then
                    pure ((mmFreePage frame section'.order { host with tables := mapped.mem }).map
                      fun host => (false, { section' with ptbl := mapped.ptbl, host := host }))
                  else do
                    let toCopy := min section'.filesz size
                    let part ← Reading.window file section'.bytes toCopy
                    sectionLoop file flags fuel
                      { order := section'.order
                        filesz := section'.filesz - toCopy
                        bytes := section'.bytes + toCopy
                        current := section'.current + size
                        memsz := if section'.memsz < size then 0 else section'.memsz - size
                        ptbl := mapped.ptbl
                        host := { host with
                          bytes := fillBlock host.bytes frame size toCopy part
                          tables := mapped.mem } }

def mapSection (file : Memory) (image : Image) (data filesz addr memsz flags : Nat)
    (host : Host) : Reading (Option (Errno × Image × Host)) :=
  if memsz = 0 then pure (some (.ok, image, host))
  else
    match kzallocArea (elfFlagsToPtblFlags flags) host with
    | (none, host) => pure (some (.enomem, image, host))
    | (some area, host) =>
        let inserted := vmtreeInsert image.vmtree addr (addr + memsz) area host.nodes.head
        let host := { host with nodes := host.nodes.tail }
        let image := { image with vmtree := inserted.2 }
        if inserted.1 ≠ .ok then
          pure ((kfreeArea area host).map fun host =>
            (if inserted.1 = .errExists then .ebadimage else .enomem, image, host))
        else do
          let order := sectionOrder memsz 64 0
          let reached ← sectionLoop file (elfFlagsToPtblFlags flags) (order + pageCount memsz + 1)
            { order := order, filesz := filesz, bytes := data, current := addr, memsz := memsz,
              ptbl := image.ptbl, host := host }
          pure do
            let (whole, section') ← reached
            let image := { image with ptbl := section'.ptbl }
            if whole then pure (.ok, image, section'.host)
            else
              let (image, host) ←
                undoRange image area addr (addr + memsz) section'.current section'.host
              pure (.enomem, image, host)

end Sections

section Elf

/-- `0x0000400000000000`, the page of the stack. -/
def ustackBottom : Nat := 0x0000400000000000

/-- `sizeof(struct elf64_header)`. -/
def headerSize : Nat := 64

/-- `sizeof(struct elf64_phdr)`. -/
def phdrSize : Nat := 56

/-- `alignof(struct elf64_phdr)`. -/
def phdrAlign : Nat := 8

/-- The bytes of `ident`: the magic, `ELF_CLASS64`, `ELF_DATA2LSB`, `ELF_VERSION`,
`ELF_OSABI_NONE`, and zeros. -/
def elfIdent : List UInt8 := [0x7f, 0x45, 0x4c, 0x46, 2, 1, 1, 0, 0, 0, 0, 0, 0, 0, 0, 0]

/-- `ELF_VERSION`. -/
def elfVersion : Nat := 1

/-- `ELF_ET_EXEC`. -/
def elfEtExec : Nat := 2

/-- `ELF_X86_64`. -/
def elfX8664 : Nat := 62

/-- `ELF_PT_NULL`. -/
def elfPtNull : Nat := 0

/-- `ELF_PT_LOAD`. -/
def elfPtLoad : Nat := 1

/-- `ELF_PT_NOTE`. -/
def elfPtNote : Nat := 4

/-- `ispower2`. -/
def ispower2 (value : Nat) : Bool := value ≠ 0 ∧ value &&& (value - 1) = 0

/-- The fields of `struct elf64_phdr` that are read. -/
structure Phdr where
  flags : Nat
  offset : Nat
  vaddr : Nat
  filesz : Nat
  memsz : Nat
  align : Nat
  deriving DecidableEq, Repr

/-- Where a program starts, and its stack. -/
structure Start where
  entry : Nat
  stack : Nat
  stackSize : Nat
  deriving DecidableEq, Repr

/-- What is checked of a load segment of a file with `size` bytes, in this order. -/
def checkPhdr (size : Nat) (phdr : Phdr) : Errno :=
  if phdr.filesz > phdr.memsz then .ebadimage
  else if phdr.offset > size then .ebadimage
  else if phdr.filesz > size - phdr.offset then .ebadimage
  else if (phdr.vaddr + phdr.memsz) % wordSize < phdr.vaddr then .ebadimage
  else if phdr.align ≠ 0 ∧ ¬ ispower2 phdr.align then .ebadimage
  else if phdr.align > 1 ∧ phdr.vaddr % phdr.align ≠ phdr.offset % phdr.align then .ebadimage
  else if phdr.vaddr % pageSize ≠ 0 ∨ phdr.offset % pageSize ≠ 0 then .enoexec
  else if (phdr.vaddr + phdr.memsz) % wordSize ≥ ustackBottom then .enoexec
  else .ok

def readPhdr (file : Memory) (phdr : Nat) : Reading Phdr := do
  let flags ← Reading.word file (phdr + 4) 4
  let offset ← Reading.word file (phdr + 8) 8
  let vaddr ← Reading.word file (phdr + 16) 8
  let filesz ← Reading.word file (phdr + 32) 8
  let memsz ← Reading.word file (phdr + 40) 8
  let align ← Reading.word file (phdr + 48) 8
  pure { flags := flags, offset := offset, vaddr := vaddr, filesz := filesz, memsz := memsz,
         align := align }

/-- The loop over the program headers, from the header at `phdr` on. -/
def loadSegments (file : Memory) (size phEntSize : Nat) :
    Nat → Nat → Image → Host → Reading (Option (Errno × Image × Host))
  | 0, _, image, host => pure (some (.ok, image, host))
  | count + 1, phdr, image, host => do
      let type ← Reading.word file phdr 4
      if type = elfPtNull ∨ type = elfPtNote then
        loadSegments file size phEntSize count (phdr + phEntSize) image host
      else if type ≠ elfPtLoad then pure (some (.enoexec, image, host))
      else do
        let load ← readPhdr file phdr
        if checkPhdr size load ≠ .ok then pure (some (checkPhdr size load, image, host))
        else do
          let mapped ← mapSection file image load.offset load.filesz load.vaddr load.memsz
            load.flags host
          match mapped with
          | none => pure none
          | some (.ok, image, host) =>
              loadSegments file size phEntSize count (phdr + phEntSize) image host
          | some (failed, image, host) => pure (some (failed, image, host))

/-- The fields of `struct elf64_header` that decide whether the file can be loaded, as they are
checked one after the other. -/
def checkHeader (file : Memory) (size : Nat) : Reading Errno :=
  if size < headerSize then pure .ebadimage
  else do
    let known ← Reading.bytesAre file ((List.range 16).zip elfIdent)
    if ¬ known then pure .ebadimage else do
      let version ← Reading.word file 20 4
      if version ≠ elfVersion then pure .ebadimage else do
        let ehSize ← Reading.word file 52 2
        if ehSize < headerSize then pure .ebadimage else do
          let type ← Reading.word file 16 2
          if type ≠ elfEtExec then pure .enoexec else do
            let machine ← Reading.word file 18 2
            if machine ≠ elfX8664 then pure .enoexec else do
              let phEntSize ← Reading.word file 54 2
              if phEntSize < phdrSize then pure .ebadimage else do
                let phOff ← Reading.word file 32 8
                if phOff ≥ size then pure .ebadimage else do
                  let phNum ← Reading.word file 56 2
                  if phNum > (size - phOff) / phEntSize then pure .ebadimage
                  else if phEntSize % phdrAlign ≠ 0 then pure .ebadimage else do
                    let entry ← Reading.word file 24 8
                    if entry ≥ ustackBottom then pure .enoexec else pure .ok

/-- `load_elf_image`; `start` is set when the status is `ok`. -/
structure Loaded where
  status : Errno
  image : Image
  host : Host
  start : Option Start

def loadElfImage (file : Memory) (size : Nat) (image : Image) (host : Host) :
    Reading (Option Loaded) := do
  let status ← checkHeader file size
  if status ≠ .ok then
    pure (some { status := status, image := image, host := host, start := none })
  else do
    let phOff ← Reading.word file 32 8
    let phEntSize ← Reading.word file 54 2
    let phNum ← Reading.word file 56 2
    let loaded ← loadSegments file size phEntSize phNum phOff image host
    match loaded with
    | none => pure none
    | some (.ok, image, host) => do
        let stack ← mapSection file image 0 0 ustackBottom pageSize (elfPfR ||| elfPfW) host
        match stack with
        | none => pure none
        | some (.ok, image, host) => do
            let entry ← Reading.word file 24 8
            pure (some { status := .ok, image := image, host := host
                         start := some { entry := entry, stack := ustackBottom
                                         stackSize := pageSize } })
        | some (failed, image, host) =>
            pure (some { status := failed, image := image, host := host, start := none })
    | some (failed, image, host) =>
        pure (some { status := failed, image := image, host := host, start := none })

end Elf

section Fork

/-- The loop of `clone_vmem_range`, by the number of its pages: how it ends, where, and with which
page table of the child. -/
def cloneLoop (parent : Pagetable) (flags : Flags) :
    Nat → Nat → Pagetable → Host → Option (Errno × Nat × Pagetable × Host)
  | 0, current, child, host => some (.ok, current, child, host)
  | count + 1, current, child, host =>
      match pagetableLookup parent current with
      | none => some (.einval, current, child, host)
      | some srcPa =>
          match mmAllocPage 0 host with
          | (none, host) => some (.enomem, current, child, host)
          | (some dst, host) =>
              let copied := host.bytes.copyInto (dst * pageSize) pageSize
                (host.bytes.region (physToPfn srcPa * pageSize))
              match pagetableMap child current (dst * pageSize) pageSize flags host.tables with
              | none => none
              | some mapped =>
                  if mapped.va = 0 then
                    (mmFreePage dst 0 { host with bytes := copied, tables := mapped.mem }).map
                      fun host => (.enomem, current, mapped.ptbl, host)
                  else
                    cloneLoop parent flags count (current + pageSize) mapped.ptbl
                      { host with bytes := copied, tables := mapped.mem }

def cloneVmemRange (child : Image) (parent : Pagetable) (entry : Segment) (host : Host) :
    Option (Errno × Image × Host) :=
  match host.areas entry.val with
  | none => none
  | some flags =>
      match kzallocArea flags host with
      | (none, host) => some (.enomem, child, host)
      | (some area, host) =>
          let inserted := vmtreeInsert child.vmtree entry.lo entry.hi area host.nodes.head
          let host := { host with nodes := host.nodes.tail }
          let child := { child with vmtree := inserted.2 }
          if inserted.1 ≠ .ok then
            (kfreeArea area host).map fun host =>
              (if inserted.1 = .errExists then .eexist else .enomem, child, host)
          else do
            let (result, current, ptbl, host) ← cloneLoop parent flags
              (pageCount (entry.hi - entry.lo)) entry.lo child.ptbl host
            let child := { child with ptbl := ptbl }
            if result = .ok then pure (.ok, child, host)
            else
              let (child, host) ← undoRange child area entry.lo entry.hi current host
              pure (result, child, host)

/-- The loop of `process_clone_vmem`. -/
def cloneEntries (parent : Pagetable) : List Segment → Image → Host → Option (Errno × Image × Host)
  | [], child, host => some (.ok, child, host)
  | entry :: rest, child, host =>
      match cloneVmemRange child parent entry host with
      | some (.ok, child, host) => cloneEntries parent rest child host
      | other => other

def processCloneVmem (child parent : Image) (host : Host) : Option (Errno × Image × Host) :=
  cloneEntries parent.ptbl (entries parent.vmtree) child host

end Fork

section Calls

/-- `PID_END`. -/
def pidEnd : Nat := 2 ^ 31 - 1

/-- The processes; `next` is `g_pid_next`. -/
structure System where
  host : Host
  next : Nat
  images : Nat → Option Image

/-- `process_image_init` with the page table that `pagetable_create` makes.  The kernel maps
nothing in its user half. -/
def processImageInit : Image where
  ptbl := fun _ => .absent
  vmtree := vmtreeInit

/-- `process_create`, where `created` says whether the allocations succeed; `none` is a failed
assertion. -/
def processCreate (created : Bool) (s : System) : Option (Option Nat × System) :=
  if created = false then some (none, s)
  else if s.next < pidEnd then
    some (some s.next, { s with
      next := s.next + 1, images := Function.update s.images s.next (some processImageInit) })
  else none

/-- `process_release` of the last reference. -/
def processRelease (pid : Nat) (s : System) : Option System := do
  let image ← s.images pid
  let host ← processImageDestroyParts image s.host
  pure { s with host := host, images := Function.update s.images pid none }

/-- `process_load_elf`, where `task` says whether there is memory for the task. -/
def processLoadElf (pid : Nat) (file : Memory) (size : Nat) (task : Bool) (s : System) :
    Option (Errno × System) := do
  let image ← s.images pid
  let loaded ← (loadElfImage file size image s.host).value
  let s := { s with host := loaded.host, images := Function.update s.images pid loaded.image }
  if loaded.status ≠ .ok then pure (loaded.status, s)
  else if task then pure (.ok, s)
  else pure (.enomem, s)

/-- `process_load_elf_file` of a file that has been read. -/
def processLoadElfFile (file : Memory) (size : Nat) (created task : Bool) (s : System) :
    Option (Errno × System) := do
  let (pid, s) ← processCreate created s
  match pid with
  | none => pure (.enomem, s)
  | some pid =>
      let (result, s) ← processLoadElf pid file size task s
      if result ≠ .ok then
        let s ← processRelease pid s
        pure (result, s)
      else pure (.ok, s)

/-- `process_exec_elf_file` of a process with a single task and a file that has been read. -/
def processExecElfFile (pid : Nat) (file : Memory) (size : Nat) (created task : Bool)
    (s : System) : Option (Errno × System) :=
  if created = false then some (.enomem, s)
  else do
    let loaded ← (loadElfImage file size processImageInit s.host).value
    if loaded.status ≠ .ok ∨ task = false then
      let host ← processImageDestroyParts loaded.image loaded.host
      pure (if loaded.status ≠ .ok then loaded.status else .enomem, { s with host := host })
    else
      let old ← s.images pid
      let host ← processImageDestroyParts old loaded.host
      pure (.ok, { s with host := host, images := Function.update s.images pid loaded.image })

/-- `process_fork`, where `files` is the answer of `filetable_clone` and `task` says whether there
is memory for the task. -/
def processFork (pid : Nat) (created : Bool) (files : Errno) (task : Bool) (s : System) :
    Option (Errno × System) := do
  let (child, s) ← processCreate created s
  match child with
  | none => pure (.enomem, s)
  | some child =>
      if files ≠ .ok then
        let s ← processRelease child s
        pure (files, s)
      else
        let image ← s.images child
        let parent ← s.images pid
        let (result, image, host) ← processCloneVmem image parent s.host
        let s := { s with host := host, images := Function.update s.images child (some image) }
        if result ≠ .ok ∨ task = false then
          let s ← processRelease child s
          pure (if result ≠ .ok then result else .enomem, s)
        else pure (.ok, s)

/-- A byte that a program writes; a page fault changes nothing. -/
def userStore (pid addr : Nat) (value : UInt8) (s : System) : Option (Errno × System) :=
  (s.images pid).map fun image =>
    if addr < 2 ^ 47 then
      match pagetableLookup image.ptbl addr with
      | none => (.einval, s)
      | some pa =>
          (.ok, { s with host := { s.host with bytes := Function.update s.host.bytes pa value } })
    else (.einval, s)

end Calls

end Opal.Process
