import Mathlib.Logic.Function.Basic
import Opal.Basic
import Opal.Dirent.Read
import Opal.Library.Outcome

/-!
# Path entries

The cache of `vfs.c`: path entries in a tree, each with a count of its references.  The
operations of the inodes are those of some file system, which does not touch the entries.
A state has no pointer to an entry that does not exist.
-/

namespace Opal.Vfs

section Data

inductive Kerrno where
  | eio
  | enomem
  | ebusy
  | enoent
  | eexist
  | erange
  | einval
  | ebufsize
  | etoobig
  | enotsupp
  | enospc
  | etimeout
  | eisdir
  | enotdir
  | ebadimage
  | enoexec
  | eunknown
  deriving DecidableEq, Repr

/-- How a call does not return: an assertion fails, a null pointer is followed, or its loop
has no end. -/
inductive Stop where
  | assertion
  | stray
  | endless
  deriving DecidableEq, Repr

abbrev Name := List UInt8

/-- `struct path_entry` without its superblock, which no lookup reads; `none` is a null
pointer. -/
structure PathEntry (ι : Type) where
  parent : Option Nat
  inode : Option ι
  children : List Nat
  name : Name
  refcount : Nat

/-- The operations of inodes `ι` and files `φ`, on the state `σ` of the file systems. -/
structure FsOps (ι φ σ : Type) where
  isDir : ι → Bool
  iterateDir : ι → Option (Dirent.IterateDir σ Kerrno)
  getChild : ι → Option (Nat → σ → Except Kerrno ι × σ)
  createChild : ι → Option (Name → Nat → σ → Except Kerrno ι × σ)
  inodeRelease : ι → σ → σ
  openInode : ι → Nat → σ → Except Kerrno φ × σ
  fileTruncate : φ → Nat → σ → Except Kerrno Unit × σ
  fileRelease : φ → σ → σ

/-- The state: the entries that were allocated, the file systems behind the inodes, and the
outcomes of the coming allocations. -/
structure State (ι σ : Type) where
  heap : Nat → PathEntry ι
  next : Nat
  fs : σ
  mem : AllocOracle
  rooted : 0 < next
  closed : ∀ id < next, ∀ child ∈ (heap id).children, child < next

/-- `g_root`. -/
def gRoot : Nat := 0

/-- `MAX_REFC`. -/
def maxRefc : Nat := 2 ^ 31 - 1

/-- `VFS_MAX_NAME`. -/
def vfsMaxName : Nat := 65535

def hstrShortLen : Nat := 19

def openCreate : Nat := 0x10
def openNonexist : Nat := 0x20
def openTrunc : Nat := 0x40

end Data

section Heap

variable {ι φ σ : Type}

namespace State

/-- An entry is changed, but not its list of children. -/
def setEntry (vfs : State ι σ) (id : Nat) (parent : Option Nat) (inode : Option ι) (name : Name)
    (refcount : Nat) : State ι σ where
  heap := Function.update vfs.heap id
    { parent, inode, children := (vfs.heap id).children, name, refcount }
  next := vfs.next
  fs := vfs.fs
  mem := vfs.mem
  rooted := vfs.rooted
  closed := by
    intro other inside child member
    refine vfs.closed other inside child ?_
    by_cases same : other = id
    · subst same
      rwa [Function.update_self] at member
    · rwa [Function.update_of_ne same] at member

def setRefcount (vfs : State ι σ) (id refcount : Nat) : State ι σ :=
  vfs.setEntry id (vfs.heap id).parent (vfs.heap id).inode (vfs.heap id).name refcount

def setInode (vfs : State ι σ) (id : Nat) (inode : Option ι) : State ι σ :=
  vfs.setEntry id (vfs.heap id).parent inode (vfs.heap id).name (vfs.heap id).refcount

/-- A new entry of `path_entry_init` at the end of the children of its parent. -/
def pushChild (vfs : State ι σ) (parent : Nat) (inode : Option ι) (name : Name) : State ι σ where
  heap := Function.update
    (Function.update vfs.heap parent
      { vfs.heap parent with children := (vfs.heap parent).children ++ [vfs.next] })
    vfs.next { parent := some parent, inode, children := [], name, refcount := 1 }
  next := vfs.next + 1
  fs := vfs.fs
  mem := vfs.mem
  rooted := Nat.succ_pos _
  closed := by
    intro id inside child member
    by_cases fresh : id = vfs.next
    · subst fresh
      rw [Function.update_self] at member
      cases member
    · rw [Function.update_of_ne fresh] at member
      have old : id < vfs.next := by omega
      by_cases same : id = parent
      · subst same
        rw [Function.update_self, List.mem_append, List.mem_singleton] at member
        rcases member with member | rfl
        · exact Nat.lt_succ_of_lt (vfs.closed id old child member)
        · exact Nat.lt_succ_self _
      · rw [Function.update_of_ne same] at member
        exact Nat.lt_succ_of_lt (vfs.closed id old child member)

def setFs (vfs : State ι σ) (fs : σ) : State ι σ := { vfs with fs }

/-- `kzalloc`: whether the next allocation succeeds. -/
def kzalloc (vfs : State ι σ) : Bool × State ι σ := (vfs.mem.head, { vfs with mem := vfs.mem.tail })

end State

/-- `hstr_clone` of a name on the stack: whether there is room for it. -/
def hstrClone (vfs : State ι σ) (name : Name) : Bool × State ι σ :=
  if name.length + 1 < hstrShortLen then (true, vfs) else vfs.kzalloc

def pathEntryRetain (vfs : State ι σ) (id : Nat) : Except Stop (State ι σ) :=
  if (vfs.heap id).refcount < maxRefc then .ok (vfs.setRefcount id ((vfs.heap id).refcount + 1))
  else .error .assertion

def pathEntryRelease (vfs : State ι σ) (id : Nat) : Except Stop (State ι σ) :=
  if 0 < (vfs.heap id).refcount then .ok (vfs.setRefcount id ((vfs.heap id).refcount - 1))
  else .error .assertion

end Heap

section Entries

variable {ι φ σ : Type} (ops : FsOps ι φ σ)

/-- The entry is that of a directory. -/
def isDirectory (vfs : State ι σ) (id : Nat) : Bool := (vfs.heap id).inode.any ops.isDir

/-- The first child of that name. -/
def childNamed (vfs : State ι σ) (parent : Nat) (name : Name) : Option Nat :=
  (vfs.heap parent).children.find? fun child => (vfs.heap child).name = name

def pathEntryAdd (vfs : State ι σ) (parent : Nat) (inode : Option ι) (name : Name) :
    Except Stop (Except Kerrno Nat × State ι σ) :=
  if ¬isDirectory ops vfs parent then .ok (.error .enotdir, vfs)
  else match childNamed vfs parent name with
    | some child =>
        if (vfs.heap child).inode.isSome then .ok (.error .eexist, vfs)
        else do
          let vfs ← pathEntryRetain vfs child
          .ok (.ok child, vfs.setInode child inode)
    | none =>
        let (allocated, vfs) := vfs.kzalloc
        if allocated then .ok (.ok vfs.next, vfs.pushChild parent inode name)
        else .ok (.error .enomem, vfs)

def createNegative (vfs : State ι σ) (parent : Nat) (name : Name) :
    Except Stop (Except Kerrno Nat × State ι σ) :=
  let (cloned, vfs) := hstrClone vfs name
  if cloned then pathEntryAdd ops vfs parent none name else .ok (.error .enomem, vfs)

def findChild (vfs : State ι σ) (parent : Nat) (name : Name) :
    Except Stop (Option Nat × State ι σ) :=
  match childNamed vfs parent name with
  | some child => do
      let vfs ← pathEntryRetain vfs child
      .ok (some child, vfs)
  | none => .ok (none, vfs)

/-- `path_lookup_cb`; the context is the entry that was found. -/
def pathLookupCb (name : Name) : Dirent.Callback (Option Dirent.Entry) := fun _ entry ctx =>
  if entry.name ≠ name then (true, ctx) else (false, some entry)

/-- What `path_entry_lookup` returns: its result and `*found`. -/
abbrev Found := Except Kerrno Unit × Option Nat

/-- The end of `path_entry_lookup` behind a scan that did not find the name. -/
def lookupMissing (vfs : State ι σ) (pe : Nat) (name : Name) : Except Stop (Found × State ι σ) := do
  let (added, vfs) ← createNegative ops vfs pe name
  match added with
  | .ok found => .ok ((.error .enoent, some found), vfs)
  | .error error => .ok ((.error error, none), vfs)

/-- The end of `path_entry_lookup` behind a scan that found the name. -/
def lookupPresent (vfs : State ι σ) (pe : Nat) (name : Name)
    (getChild : Nat → σ → Except Kerrno ι × σ) (entry : Dirent.Entry) :
    Except Stop (Found × State ι σ) :=
  let (cloned, vfs) := hstrClone vfs name
  if ¬cloned then .ok ((.error .enomem, none), vfs)
  else
    let (result, fs) := getChild entry.id vfs.fs
    let vfs := vfs.setFs fs
    match result with
    | .error error => .ok ((.error error, none), vfs)
    | .ok inode => do
        let (added, vfs) ← pathEntryAdd ops vfs pe (some inode) name
        match added with
        | .ok found => .ok ((.ok (), some found), vfs)
        | .error error =>
            .ok ((.error error, none), vfs.setFs (ops.inodeRelease inode vfs.fs))

/-- The part of `path_entry_lookup` that asks the file system. -/
def lookupScan (vfs : State ι σ) (pe : Nat) (inode : ι) (name : Name) :
    Except Stop (Found × State ι σ) :=
  match ops.iterateDir inode, ops.getChild inode with
  | some iterateDir, some getChild =>
      let (result, ctx, fs) := iterateDir _ vfs.fs 0 (pathLookupCb name) none
      let vfs := vfs.setFs fs
      match result with
      | .error error => .ok ((.error error, none), vfs)
      | .ok _ =>
          match ctx with
          | none => lookupMissing ops vfs pe name
          | some entry => lookupPresent ops vfs pe name getChild entry
  | _, _ => .ok ((.error .enotsupp, none), vfs)

def pathEntryLookup (vfs : State ι σ) (pe : Nat) (name : Name) :
    Except Stop (Found × State ι σ) :=
  if name.length = 0 then .ok ((.error .einval, none), vfs)
  else if name.length > vfsMaxName then .ok ((.error .enoent, none), vfs)
  else match (vfs.heap pe).inode with
    | none => .ok ((.error .enotdir, none), vfs)
    | some inode =>
        if ¬ops.isDir inode then .ok ((.error .enotdir, none), vfs)
        else do
          let (child, vfs) ← findChild vfs pe name
          match child with
          | some child =>
              .ok ((if (vfs.heap child).inode.isSome then .ok () else .error .enoent,
                some child), vfs)
          | none => lookupScan ops vfs pe inode name

end Entries

section Paths

variable {ι φ σ : Type} (ops : FsOps ι φ σ)

/-- `'/'`. -/
def slash : UInt8 := 47

def strspn (s accept : List UInt8) : Nat := (s.takeWhile (accept.contains ·)).length

def strcspn (s reject : List UInt8) : Nat := (s.takeWhile (!reject.contains ·)).length

/-- What `vfs_lookup_path` returns: its result, `*found` and `*unresolved_path`. -/
structure Resolved where
  result : Except Kerrno Unit
  found : Option Nat
  unresolved : List UInt8

/-- The loop of `vfs_lookup_path`. -/
def lookupLoop : Nat → State ι σ → Nat → List UInt8 → Except Stop (Resolved × State ι σ)
  | 0, _, _, _ => .error .endless
  | rounds + 1, vfs, pe, subpath =>
      match (vfs.heap pe).inode with
      | none =>
          .ok ({ result := .error .enoent, found := some pe, unresolved := subpath }, vfs)
      | some inode =>
          if subpath = [] then
            .ok ({ result := .ok (), found := some pe, unresolved := subpath }, vfs)
          else if ¬ops.isDir inode then
            .ok ({ result := .error .enotdir, found := some pe, unresolved := subpath }, vfs)
          else
            let sep := strcspn subpath [slash]
            if sep > vfsMaxName then
              .ok ({ result := .error .enoent, found := some pe, unresolved := subpath }, vfs)
            else do
              let ((result, lookup), vfs) ← pathEntryLookup ops vfs pe (subpath.take sep)
              match lookup with
              | none => .ok ({ result, found := some pe, unresolved := subpath }, vfs)
              | some lookup => do
                  let vfs ← pathEntryRelease vfs pe
                  let subpath := subpath.drop sep
                  let subpath := subpath.drop (strspn subpath [slash])
                  match result with
                  | .error error =>
                      .ok (⟨.error error, some lookup, subpath⟩, vfs)
                  | .ok _ => lookupLoop rounds vfs lookup subpath

/-- The part of `vfs_lookup_path` from the entry where the walk starts. -/
def lookupFrom (vfs : State ι σ) (pe : Nat) (subpath : List UInt8) :
    Except Stop (Resolved × State ι σ) := do
  let vfs ← pathEntryRetain vfs pe
  lookupLoop ops (subpath.length + 1) vfs pe subpath

/-- `vfs_lookup_path`; the start is `none` for a null pointer. -/
def vfsLookupPath (vfs : State ι σ) (pe : Option Nat) (path : List UInt8) :
    Except Stop (Resolved × State ι σ) :=
  if path.head? = some slash then lookupFrom ops vfs gRoot (path.drop (strspn path [slash]))
  else if path = [] then
    .ok ({ result := .error .einval, found := none, unresolved := path }, vfs)
  else match pe with
    | none => .ok ({ result := .error .einval, found := none, unresolved := path }, vfs)
    | some pe => lookupFrom ops vfs pe path

end Paths

section Create

variable {ι φ σ : Type} (ops : FsOps ι φ σ)

/-- The end of `path_entry_create`, once there is an inode. -/
def openEntry (vfs : State ι σ) (inode : ι) (existed : Bool) (mode : Nat) :
    Except Kerrno φ × State ι σ :=
  let (opened, fs) := ops.openInode inode mode vfs.fs
  let vfs := vfs.setFs fs
  match opened with
  | .error error => (.error error, vfs)
  | .ok file =>
      if existed ∧ mode &&& openTrunc ≠ 0 then
        let (result, fs) := ops.fileTruncate file 0 vfs.fs
        match result with
        | .error error => (.error error, vfs.setFs (ops.fileRelease file fs))
        | .ok _ => (.ok file, vfs.setFs fs)
      else (.ok file, vfs)

def pathEntryCreate (vfs : State ι σ) (pe flags mode : Nat) :
    Except Stop (Except Kerrno φ × State ι σ) :=
  match (vfs.heap pe).inode with
  | some inode =>
      if mode &&& openNonexist ≠ 0 then .ok (.error .eexist, vfs)
      else .ok (openEntry ops vfs inode true mode)
  | none =>
      match (vfs.heap pe).parent with
      | none => .ok (.error .enoent, vfs)
      | some parent =>
          if mode &&& openCreate = 0 then .ok (.error .enoent, vfs)
          else match (vfs.heap parent).inode with
            | none => .error .stray
            | some pinode =>
                match ops.createChild pinode with
                | none => .ok (.error .enotsupp, vfs)
                | some createChild =>
                    let (created, fs) := createChild (vfs.heap pe).name flags vfs.fs
                    let vfs := vfs.setFs fs
                    match created with
                    | .error error => .ok (.error error, vfs)
                    | .ok inode =>
                        .ok (openEntry ops (vfs.setInode pe (some inode)) inode false mode)

/-- `vfs_create_path`; the answer `none` is a result of `vfs_lookup_path` that is not an
error, with `*file_out` left as it was. -/
def vfsCreatePath (vfs : State ι σ) (pe : Option Nat) (path : List UInt8) (flags mode : Nat) :
    Except Stop (Except Kerrno (Option φ) × State ι σ) := do
  let (resolved, vfs) ← vfsLookupPath ops vfs pe path
  match resolved.found with
  | none => .ok (resolved.result.map fun _ => none, vfs)
  | some found =>
      if resolved.unresolved ≠ [] then do
        let vfs ← pathEntryRelease vfs found
        .ok (resolved.result.map fun _ => none, vfs)
      else do
        let (created, vfs) ← pathEntryCreate ops vfs found flags mode
        let vfs ← pathEntryRelease vfs found
        .ok (created.map some, vfs)

end Create

end Opal.Vfs
