import Opal.FileTable.Operations
import Mathlib.Algebra.Group.Nat.Defs
import Mathlib.Data.Finset.Basic

/-!
# Descriptor system calls

The file tables of the processes with the reference counts of the files in them.  The
sections that run with interrupts off are functions of their own; a system call is a
sequence of these, and other calls may run in between.  `vfs_create_path` and the pipe
return a new file with one reference, or fail; which of the two is an input.
-/

namespace Opal.Descriptors

open FileTable

section Data

/-- `MAX_REFC`. -/
def maxRefc : Nat := 2 ^ 31 - 1

/-- `FD_INVALID`. -/
def fdInvalid : Int := -1

def opalEnomem : Int := -2
def opalEinval : Int := -7
def opalEnospc : Int := -12

/-- The result of a function that fails, which is negative. -/
abbrev Errno := { err : Int // err < 0 }

/-- The assertions of `file_retain` and `file_release`. -/
inductive Stop where
  | tooManyReferences
  | noReference
  deriving DecidableEq, Repr

/-- Files are named by numbers, and so are processes. -/
structure Store where
  tables : Nat → Filetable Nat
  refcount : Nat → Nat

end Data

section Sections

variable (store : Store) (pid : Nat)

/-- A new file with the reference of its creator. -/
def Store.create (file : Nat) : Store :=
  { store with refcount := Function.update store.refcount file 1 }

def Store.setTable (table : Filetable Nat) : Store :=
  { store with tables := Function.update store.tables pid table }

def fileRetain (file : Nat) : Except Stop Store :=
  if ¬ store.refcount file < maxRefc then .error .tooManyReferences
  else .ok { store with
    refcount := Function.update store.refcount file (store.refcount file + 1) }

/-- A file without references is closed, which touches no other file. -/
def fileRelease (file : Nat) : Except Stop Store :=
  if ¬ store.refcount file > 0 then .error .noReference
  else .ok { store with
    refcount := Function.update store.refcount file (store.refcount file - 1) }

/-- `filetable_insert` with the reference that `put_file` takes. -/
def insertFile (file : Nat) (mem : Blocks) : Except Stop (Int × Store) :=
  let done := filetableInsert (store.tables pid) file mem
  match done.result with
  | none => .ok (fdInvalid, store.setTable pid done.table)
  | some fd => do
      let store ← fileRetain store file
      pure (fd, store.setTable pid done.table)

/-- `filetable_insert_at` with the reference that `put_file` takes. -/
def insertFileAt (fd : Int) (file : Nat) (mem : Blocks) : Except Stop (Kerrno × Store) :=
  let done := filetableInsertAt (store.tables pid) fd file mem
  if done.result = .ok then do
    let store ← fileRetain store file
    pure (done.result, store.setTable pid done.table)
  else .ok (done.result, store.setTable pid done.table)

def filetableGet (table : Filetable Nat) (fd : Int) : Option Nat :=
  if fd < 0 ∨ fd ≥ table.endFd then none else table.files fd.toNat

def processOpenFile (fd : Int) (file : Nat) (mem : Blocks) : Except Stop (Int × Store) :=
  if fd = fdInvalid then insertFile store pid file mem
  else do
    let (result, store) ← insertFileAt store pid fd file mem
    pure (if result = .ok then fd else fdInvalid, store)

def processGetFile (fd : Int) : Except Stop (Option Nat × Store) :=
  match filetableGet (store.tables pid) fd with
  | none => .ok (none, store)
  | some file => do
      let store ← fileRetain store file
      pure (some file, store)

def processCloseFile (fd : Int) : Except Stop (Bool × Store) :=
  match filetableGet (store.tables pid) fd with
  | none => .ok (false, store)
  | some file => do
      let store ← fileRelease store file
      pure (true, store.setTable pid (filetableRemove (store.tables pid) fd).1)

/-- `process_dup_fd`; the new descriptor is chosen as in `process_open_file`. -/
def processDupFd (oldfd newfd : Int) (mem : Blocks) : Except Stop (Int × Store) := do
  let (found, store) ← processGetFile store pid oldfd
  match found with
  | none => pure (fdInvalid, store)
  | some file => do
      let (ret, store) ←
        if newfd = oldfd then pure (newfd, store) else processOpenFile store pid newfd file mem
      let store ← fileRelease store file
      pure (ret, store)

/-- The loop of `filetable_destroy`, for the given slots. -/
def releaseSlots (table : Filetable Nat) : List Nat → Store → Except Stop Store
  | [], store => .ok store
  | idx :: rest, store =>
      match table.files idx with
      | none => releaseSlots table rest store
      | some file => do
          let store ← fileRelease store file
          releaseSlots table rest store

/-- The loop of `filetable_clone` with the references its insertions take. -/
def cloneSlots (src : Filetable Nat) (child : Nat) : List Nat → Store → Blocks →
    Except Stop (Kerrno × Store)
  | [], store, _ => .ok (.ok, store)
  | idx :: rest, store, mem =>
      match src.files idx with
      | none => cloneSlots src child rest store mem
      | some file => do
          let (result, inserted) ← insertFileAt store child idx file mem
          if result = .ok then
            cloneSlots src child rest inserted
              (filetableInsertAt (store.tables child) idx file mem).mem
          else do
            let table := inserted.tables child
            let destroyed ← releaseSlots table (List.range table.endFd) inserted
            pure (result, destroyed.setTable child filetableInit)

/-- `filetable_clone` for a process that has no files yet. -/
def cloneFiles (child parent : Nat) (mem : Blocks) : Except Stop (Kerrno × Store) := do
  let src := store.tables parent
  let (result, cloned) ← cloneSlots src child (List.range src.endFd)
    (store.setTable child filetableInit) mem
  if result = .ok then
    pure (result, cloned.setTable child { cloned.tables child with nextFd := src.nextFd })
  else pure (result, cloned)

/-- `filetable_destroy` of a process that is freed. -/
def destroyFiles : Except Stop Store := do
  let table := store.tables pid
  let store ← releaseSlots table (List.range table.endFd) store
  pure (store.setTable pid filetableInit)

end Sections

section SystemCalls

/-- `OPEN_MASK_ALL`. -/
def openMaskAll : BitVec 64 := 0x77

/-- `INODE_MASK_ALL`. -/
def inodeMaskAll : BitVec 64 := 0x7

def syscallPathMax : Nat := 4095

/-- The conversion of an argument to `fd_t`. -/
def toFd (arg : BitVec 64) : Int := (arg.setWidth 32).toInt

/-- The arguments of `SYS_OPEN`, with the length of the path (`none` for a null pointer),
whether its copy can be allocated, and what `vfs_create_path` returns. -/
structure OpenInput where
  fd : BitVec 64
  path : Option Nat
  mode : BitVec 64
  flags : BitVec 64
  copied : Bool
  created : Except Errno Nat

/-- `copy_user_string`; `none` is success. -/
def copyUserString (path : Option Nat) (maxlen : Nat) (copied : Bool) : Option Int :=
  match path with
  | none => some opalEinval
  | some len =>
      if len > maxlen then some opalEinval
      else if copied then none else some opalEnomem

variable (store : Store) (pid : Nat)

def syscallOpen (input : OpenInput) (mem : Blocks) : Except Stop (Int × Store) :=
  if input.mode &&& ~~~ openMaskAll ≠ 0 then .ok (opalEinval, store)
  else if input.flags &&& ~~~ inodeMaskAll ≠ 0 then .ok (opalEinval, store)
  else
    match copyUserString input.path syscallPathMax input.copied, input.created with
    | some err, _ => .ok (err, store)
    | none, .error err => .ok (err.1, store)
    | none, .ok file => do
        -- the `OPAL_OK` of `vfs_create_path`, which stays where no descriptor is found
        let result : Int := 0
        let (fd, store) ← processOpenFile (store.create file) pid (toFd input.fd) file mem
        let result := if fd < 0 then result else fd
        let store ← fileRelease store file
        pure (result, store)

def syscallDup (oldfd newfd : BitVec 64) (mem : Blocks) : Except Stop (Int × Store) :=
  processDupFd store pid (toFd oldfd) (toFd newfd) mem

/-- Whether the pipe is created, and the files for its two ends. -/
structure PipeInput where
  pipe : Bool
  reader : Option Nat
  writer : Option Nat

/-- `syscall_pipe`: `ret0` and, if it succeeds, `ret1`. -/
def syscallPipe (input : PipeInput) (mem mem' : Blocks) :
    Except Stop ((Int × Option Int) × Store) :=
  match input.pipe, input.reader with
  | false, _ => .ok ((opalEnomem, none), store)
  | true, none => .ok ((opalEnomem, none), store)
  | true, some reader =>
      let store := store.create reader
      match input.writer with
      | none => do
          let store ← fileRelease store reader
          pure ((opalEnomem, none), store)
      | some writer => do
          let store := store.create writer
          let (readFd, store) ← processOpenFile store pid fdInvalid reader mem
          if readFd = fdInvalid then do
            let store ← fileRelease store writer
            let store ← fileRelease store reader
            pure ((opalEnospc, none), store)
          else do
            let (writeFd, store) ← processOpenFile store pid fdInvalid writer mem'
            if writeFd = fdInvalid then do
              let (_, store) ← processCloseFile store pid readFd
              let store ← fileRelease store writer
              let store ← fileRelease store reader
              pure ((opalEnospc, none), store)
            else do
              let store ← fileRelease store writer
              let store ← fileRelease store reader
              pure ((readFd, some writeFd), store)

end SystemCalls

section Interleaving

/-- A system call between two of its sections, with the references it holds. -/
inductive Activity where
  /-- `syscall_open` with the file it has opened. -/
  | opening (pid : Nat) (fd : Int) (file : Nat)
  /-- `syscall_pipe` with the file for reading. -/
  | pipeReader (pid reader : Nat)
  /-- `syscall_pipe` with both files. -/
  | pipeFiles (pid reader writer : Nat)
  /-- `syscall_pipe` with a descriptor for reading. -/
  | pipeReadFd (pid reader writer : Nat) (readFd : Int)
  /-- `syscall_pipe` that has to close its descriptor. -/
  | pipeUndo (pid reader writer : Nat) (readFd : Int)
  /-- A call that only has to release files. -/
  | releasing (files : List Nat)
  deriving DecidableEq, Repr

def Activity.holds : Activity → List Nat
  | .opening _ _ file => [file]
  | .pipeReader _ reader => [reader]
  | .pipeFiles _ reader writer => [writer, reader]
  | .pipeReadFd _ reader writer _ => [writer, reader]
  | .pipeUndo _ reader writer _ => [writer, reader]
  | .releasing files => files

/-- The next section of a call; `writer` is what `pipefs_open_writer` returns. -/
def Activity.next (store : Store) (mem : Blocks) (writer : Option Nat) :
    Activity → Except Stop (Activity × Store)
  | .opening pid fd file => do
      let (_, store) ← processOpenFile store pid fd file mem
      pure (.releasing [file], store)
  | .pipeReader pid reader =>
      match writer with
      | none => .ok (.releasing [reader], store)
      | some writer => .ok (.pipeFiles pid reader writer, store.create writer)
  | .pipeFiles pid reader writer => do
      let (readFd, store) ← processOpenFile store pid fdInvalid reader mem
      if readFd = fdInvalid then pure (.releasing [writer, reader], store)
      else pure (.pipeReadFd pid reader writer readFd, store)
  | .pipeReadFd pid reader writer readFd => do
      let (writeFd, store) ← processOpenFile store pid fdInvalid writer mem
      if writeFd = fdInvalid then pure (.pipeUndo pid reader writer readFd, store)
      else pure (.releasing [writer, reader], store)
  | .pipeUndo pid reader writer readFd => do
      let (_, store) ← processCloseFile store pid readFd
      pure (.releasing [writer, reader], store)
  | .releasing [] => .ok (.releasing [], store)
  | .releasing (file :: rest) => do
      let store ← fileRelease store file
      pure (.releasing rest, store)

/-- All processes with their calls in progress. -/
structure World where
  store : Store
  processes : Finset Nat
  calls : List Activity

/-- No process; every file that the tables will hold is yet to be created. -/
def World.init : World := ⟨⟨fun _ => filetableInit, fun _ => 0⟩, ∅, []⟩

/-- A step of some task: a call starts with its first section, goes on, or is a single
section.  `get` is the start of the calls that use a file for a while. -/
inductive Call where
  | spawn (pid : Nat)
  | exit (pid : Nat)
  | fork (child parent : Nat) (mem : Blocks)
  | open (pid : Nat) (fd : Int) (file : Nat)
  | pipe (pid reader : Nat)
  | get (pid : Nat) (fd : Int)
  | dup (pid : Nat) (oldfd newfd : Int) (mem : Blocks)
  | close (pid : Nat) (fd : Int)
  | advance (before : List Activity) (activity : Activity) (after : List Activity) (mem : Blocks)
      (writer : Option Nat)

def step (world : World) : Call → Except Stop World
  | .spawn pid => .ok { world with
      store := world.store.setTable pid filetableInit, processes := insert pid world.processes }
  | .exit pid => do
      let store ← destroyFiles world.store pid
      pure { world with store := store, processes := world.processes.erase pid }
  | .fork child parent mem => do
      let (_, store) ← cloneFiles world.store child parent mem
      pure { world with store := store, processes := insert child world.processes }
  | .open pid fd file => .ok { world with
      store := world.store.create file, calls := .opening pid fd file :: world.calls }
  | .pipe pid reader => .ok { world with
      store := world.store.create reader, calls := .pipeReader pid reader :: world.calls }
  | .get pid fd => do
      let (file, store) ← processGetFile world.store pid fd
      pure { world with store := store, calls := .releasing file.toList :: world.calls }
  | .dup pid oldfd newfd mem => do
      let (_, store) ← processDupFd world.store pid oldfd newfd mem
      pure { world with store := store }
  | .close pid fd => do
      let (_, store) ← processCloseFile world.store pid fd
      pure { world with store := store }
  | .advance before activity after mem writer => do
      let (activity, store) ← activity.next world.store mem writer
      pure { world with store := store, calls := before ++ activity :: after }

/-- The process a call in progress belongs to. -/
def Activity.Runs (processes : Finset Nat) : Activity → Prop
  | .opening pid _ _ => pid ∈ processes
  | .pipeReader pid _ => pid ∈ processes
  | .pipeFiles pid _ _ => pid ∈ processes
  | .pipeReadFd pid _ _ _ => pid ∈ processes
  | .pipeUndo pid _ _ _ => pid ∈ processes
  | .releasing _ => True

/-- Calls are made by processes that exist and go on while theirs does, a process that is
created is new, and so is a file that is opened. -/
def Admits (world : World) : Call → Prop
  | .spawn pid => pid ∉ world.processes
  | .exit pid => pid ∈ world.processes
  | .fork child parent _ => child ∉ world.processes ∧ parent ∈ world.processes
  | .open pid _ file => pid ∈ world.processes ∧ world.store.refcount file = 0
  | .pipe pid reader => pid ∈ world.processes ∧ world.store.refcount reader = 0
  | .get pid _ => pid ∈ world.processes
  | .dup pid _ _ _ => pid ∈ world.processes
  | .close pid _ => pid ∈ world.processes
  | .advance before activity after _ writer => world.calls = before ++ activity :: after ∧
      activity.Runs world.processes ∧ ∀ file ∈ writer, world.store.refcount file = 0

instance (processes : Finset Nat) : (activity : Activity) → Decidable (activity.Runs processes)
  | .opening pid _ _ => inferInstanceAs (Decidable (pid ∈ processes))
  | .pipeReader pid _ => inferInstanceAs (Decidable (pid ∈ processes))
  | .pipeFiles pid _ _ => inferInstanceAs (Decidable (pid ∈ processes))
  | .pipeReadFd pid _ _ _ => inferInstanceAs (Decidable (pid ∈ processes))
  | .pipeUndo pid _ _ _ => inferInstanceAs (Decidable (pid ∈ processes))
  | .releasing _ => inferInstanceAs (Decidable True)

instance (world : World) : (call : Call) → Decidable (Admits world call)
  | .spawn pid => inferInstanceAs (Decidable (pid ∉ world.processes))
  | .exit pid => inferInstanceAs (Decidable (pid ∈ world.processes))
  | .fork child parent _ =>
      inferInstanceAs (Decidable (child ∉ world.processes ∧ parent ∈ world.processes))
  | .open pid _ file =>
      inferInstanceAs (Decidable (pid ∈ world.processes ∧ world.store.refcount file = 0))
  | .pipe pid reader =>
      inferInstanceAs (Decidable (pid ∈ world.processes ∧ world.store.refcount reader = 0))
  | .get pid _ => inferInstanceAs (Decidable (pid ∈ world.processes))
  | .dup pid _ _ _ => inferInstanceAs (Decidable (pid ∈ world.processes))
  | .close pid _ => inferInstanceAs (Decidable (pid ∈ world.processes))
  | .advance before activity after _ writer =>
      inferInstanceAs (Decidable (world.calls = before ++ activity :: after ∧
        activity.Runs world.processes ∧ ∀ file ∈ writer, world.store.refcount file = 0))

end Interleaving

end Opal.Descriptors
