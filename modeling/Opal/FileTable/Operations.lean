import Opal.Library.Bitmap
import Opal.Library.Outcome
import Mathlib.Algebra.Group.Nat.Defs
import Mathlib.Data.Stream.Init

/-!
# File tables

A table maps the fds of a process to its files.  The two arrays are functions of the
index; what lies behind their end is never written, so it stays empty.  The references that
the table holds on its files are counted in the files and are not part of the table.
-/

namespace Opal.FileTable

section Data

/-- `FDTBL_BITMAP_UNIT`. -/
def bitmapUnit : Nat := 64

/-- `FDTBL_INLINE_SIZE`. -/
def inlineSize : Nat := bitmapUnit

/-- `FD_MAX`. -/
def fdMax : Nat := 8192

/-- The size of a pointer to a file. -/
def slotSize : Nat := 8

structure Filetable (File : Type) where
  files : Nat → Option File
  bitmap : Nat → BitVec bitmapUnit
  capacity : Nat
  count : Nat
  endFd : Nat
  nextFd : Nat

inductive Kerrno where
  | ok
  | einval
  | enomem
  | eexist
  deriving DecidableEq, Repr

/-- What the coming allocations return: the bytes a block has beyond those asked for, or
`none` where there is no memory. -/
abbrev Blocks := Stream' (Option Nat)

end Data

variable {File : Type}

section Slots

def calcBitmapSize (count : Nat) : Nat := (count + bitmapUnit - 1) / bitmapUnit

/-- `realloc`, with the table it leaves if it succeeds. -/
def realloc (table : Filetable File) (capacity : Nat) (mem : Blocks) :
    Option (Filetable File) × Blocks :=
  if capacity > fdMax + 1 then (none, mem)
  else if capacity < table.endFd then (none, mem)
  else if capacity ≤ inlineSize then (none, mem)
  else
    match mem.head with
    | none => (none, mem.tail)
    | some extra =>
        let newCapacity := min ((slotSize * capacity + extra) / slotSize) (fdMax + 1)
        match mem.tail.head with
        | none => (none, mem.tail.tail)
        | some _ =>
            (some
              { table with
                files := fun i => if i < table.endFd then table.files i else none
                bitmap := fun i =>
                  if i < calcBitmapSize table.endFd then table.bitmap i else .ofNat bitmapUnit 0
                capacity := newCapacity },
              mem.tail.tail)

def bitmapSet (table : Filetable File) (idx : Nat) (value : Bool) : Filetable File :=
  { table with
    bitmap := if value then Bitmap.setBit table.bitmap idx else Bitmap.clearBit table.bitmap idx }

/-- `find_empty_bit`; `none` is `FD_INVALID`. -/
def findEmptyBit (table : Filetable File) (begin stop : Nat) : Option Nat :=
  match Bitmap.firstClear table.bitmap begin (stop - begin) with
  | some found => if found < table.capacity then some found else none
  | none => none

def findEmptySlot (table : Filetable File) : Option Nat :=
  let hint := table.nextFd / bitmapUnit
  match findEmptyBit table hint (calcBitmapSize table.capacity) with
  | some fd => some fd
  | none => if hint > 0 then findEmptyBit table 0 hint else none

def putFile (table : Filetable File) (idx : Nat) (file : File) : Filetable File :=
  let table := { table with files := Function.update table.files idx (some file) }
  let table := bitmapSet table idx true
  let table := if table.endFd ≤ idx then { table with endFd := idx + 1 } else table
  { table with count := table.count + 1 }

def updateNextFd (table : Filetable File) (insertedIdx : Nat) : Filetable File :=
  { table with nextFd := if insertedIdx + 1 ≥ table.capacity then 0 else insertedIdx + 1 }

def updateEndFd (table : Filetable File) : Filetable File :=
  if table.endFd = 0 then table
  else
    match Bitmap.lastSet table.bitmap ((table.endFd - 1) / bitmapUnit + 1) with
    | some last => { table with endFd := last + 1 }
    | none => { table with endFd := 0 }

end Slots

section Calls

def filetableInit : Filetable File where
  files := fun _ => none
  bitmap := fun _ => .ofNat bitmapUnit 0
  capacity := inlineSize
  count := 0
  endFd := 0
  nextFd := 0

/-- What a call returns, the table after it and the allocations to come. -/
structure Done (File Result : Type) where
  result : Result
  table : Filetable File
  mem : Blocks

/-- `filetable_insert`; the result `none` is `FD_INVALID`.  Where `find_empty_slot` fails,
the source would go on with the index `UINT32_MAX`. -/
def filetableInsert (table : Filetable File) (file : File) (mem : Blocks) :
    Done File (Option Nat) :=
  if table.count = table.capacity then
    if table.endFd > fdMax then { result := none, table := table, mem := mem }
    else
      match realloc table (table.endFd + 1) mem with
      | (none, mem) => { result := none, table := table, mem := mem }
      | (some grown, mem) =>
          { result := some table.endFd
            table := updateNextFd (putFile grown table.endFd file) table.endFd, mem := mem }
  else
    let idx := (findEmptySlot table).getD (2 ^ 32 - 1)
    { result := some idx, table := updateNextFd (putFile table idx file) idx, mem := mem }

def filetableInsertAt (table : Filetable File) (fd : Int) (file : File) (mem : Blocks) :
    Done File Kerrno :=
  if fd < 0 ∨ fd > fdMax then { result := .einval, table := table, mem := mem }
  else
    let idx := fd.toNat
    match if idx ≥ table.capacity then realloc table (idx + 1) mem else (some table, mem) with
    | (none, mem) => { result := .enomem, table := table, mem := mem }
    | (some table, mem) =>
        if (table.files idx).isSome then { result := .eexist, table := table, mem := mem }
        else
          let table := putFile table idx file
          { result := .ok
            table := if table.nextFd = idx then updateNextFd table idx else table, mem := mem }

/-- `filetable_remove`, and whether there was a file. -/
def filetableRemove (table : Filetable File) (fd : Int) : Filetable File × Bool :=
  if fd < 0 ∨ fd ≥ table.endFd then (table, false)
  else
    let idx := fd.toNat
    match table.files idx with
    | none => (table, false)
    | some _ =>
        let table := { table with files := Function.update table.files idx none }
        let table := bitmapSet table idx false
        let table := { table with count := table.count - 1 }
        let table := if idx + 1 = table.endFd then updateEndFd table else table
        ({ table with nextFd := if table.nextFd > idx then idx else table.nextFd }, true)

/-- The loop of `filetable_clone`, for the given indices of the source table. -/
def cloneLoop (src : Filetable File) : List Nat → Filetable File → Blocks → Done File Kerrno
  | [], dst, mem => { result := .ok, table := dst, mem := mem }
  | idx :: rest, dst, mem =>
      match src.files idx with
      | none => cloneLoop src rest dst mem
      | some file =>
          let inserted := filetableInsertAt dst idx file mem
          if inserted.result = .ok then cloneLoop src rest inserted.table inserted.mem
          else { inserted with table := filetableInit }

def filetableClone (src : Filetable File) (mem : Blocks) : Done File Kerrno :=
  let cloned := cloneLoop src (List.range src.endFd) filetableInit mem
  if cloned.result = .ok then { cloned with table := { cloned.table with nextFd := src.nextFd } }
  else cloned

end Calls

section Runs

/-- A call on the tables of the processes, which are named by numbers. -/
inductive Call (File : Type) where
  | insert (pid : Nat) (file : File) (mem : Blocks)
  | insertAt (pid : Nat) (fd : Int) (file : File) (mem : Blocks)
  | remove (pid : Nat) (fd : Int)
  | clone (child parent : Nat) (mem : Blocks)

abbrev Tables (File : Type) := Nat → Filetable File

/-- No call stops. -/
def exec (tables : Tables File) : Call File → Except Empty (Tables File)
  | .insert pid file mem =>
      .ok (Function.update tables pid (filetableInsert (tables pid) file mem).table)
  | .insertAt pid fd file mem =>
      .ok (Function.update tables pid (filetableInsertAt (tables pid) fd file mem).table)
  | .remove pid fd => .ok (Function.update tables pid (filetableRemove (tables pid) fd).1)
  | .clone child parent mem =>
      .ok (Function.update tables child (filetableClone (tables parent) mem).table)

/-- A table is cloned for a new process, which has no files yet. -/
def Admits (tables : Tables File) : Call File → Prop
  | .clone child parent _ => child ≠ parent ∧ ∀ i, (tables child).files i = none
  | _ => True

end Runs

end Opal.FileTable
