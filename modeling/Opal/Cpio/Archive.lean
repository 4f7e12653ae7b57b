import Mathlib.Algebra.Group.Nat.Defs
import Opal.Library.Outcome

/-!
# Mounting a cpio archive

The archive is a buffer of bytes with a length; every byte is read through `Image.read`,
which stops outside of it.  The nodes of the mounted tree own their children, so following
a pointer to a child and changing what it points to is a recursion that puts the changed
child back in its place.  Allocations succeed.
-/

namespace Opal.Cpio

section Data

/-- The buffer given to `cpio_mount`, whose length is a `size_t`. -/
structure Image where
  bytes : Nat → UInt8
  len : Nat
  bound : len < 2 ^ 64

/-- The errors that `cpio_mount` returns, and what must not happen: a read outside of the
buffer, a loop without end. -/
inductive Fault where
  | einval
  | enotsupp
  | outside
  | endless
  deriving DecidableEq, Repr

abbrev Name := List UInt8

/-- The fields of a `struct cpio_node` beside its links; `data` is an offset in the buffer. -/
structure Attr where
  ino : Nat
  isDir : Bool
  explicit : Bool
  data : Option Nat
  size : Nat
  deriving DecidableEq, Repr

inductive Node where
  | mk (name : Name) (attr : Attr) (children : List Node)

def Node.name : Node → Name
  | .mk name _ _ => name

def Node.attr : Node → Attr
  | .mk _ attr _ => attr

def Node.children : Node → List Node
  | .mk _ _ children => children

/-- What an entry of the archive brings: the kind of its inode and its slice of the buffer. -/
structure Payload where
  isDir : Bool
  data : Nat
  size : Nat
  deriving DecidableEq, Repr

def cpioHdrSize : Nat := 110
def cpioIfmt : BitVec 32 := 0xf000
def cpioIfreg : BitVec 32 := 0x8000
def cpioIfdir : BitVec 32 := 0x4000

/-- `VFS_MAX_NAME`. -/
def vfsMaxName : Nat := 65535

def slash : UInt8 := 47
def dot : UInt8 := 46

/-- `"070701"`. -/
def newcMagic : List UInt8 := [48, 55, 48, 55, 48, 49]

/-- `"070702"`. -/
def crcMagic : List UInt8 := [48, 55, 48, 55, 48, 50]

/-- `"TRAILER!!!"`. -/
def trailer : Name := [84, 82, 65, 73, 76, 69, 82, 33, 33, 33]

end Data

section Reading

variable (image : Image)

def Image.read (pos : Nat) : Except Fault UInt8 :=
  if pos < image.len then .ok (image.bytes pos) else .error .outside

/-- The bytes that `memcmp`, `memchr` or `memcpy` go over. -/
def Image.slice (pos : Nat) : Nat → Except Fault (List UInt8)
  | 0 => pure []
  | n + 1 => do
      let ch ← image.read pos
      let rest ← Image.slice (pos + 1) n
      pure (ch :: rest)

def hexDigit (ch : UInt8) : Option (BitVec 32) :=
  if 48 ≤ ch ∧ ch ≤ 57 then some ((ch - 48).toBitVec.setWidth 32)
  else if 97 ≤ ch ∧ ch ≤ 102 then some ((ch - 97 + 10).toBitVec.setWidth 32)
  else if 65 ≤ ch ∧ ch ≤ 70 then some ((ch - 65 + 10).toBitVec.setWidth 32)
  else none

/-- The loop of `parse_hex_u32`, from the value read so far. -/
def parseHexLoop (pos : Nat) : Nat → BitVec 32 → Except Fault (BitVec 32)
  | 0, value => pure value
  | n + 1, value => do
      let ch ← image.read pos
      match hexDigit ch with
      | none => .error .einval
      | some digit => parseHexLoop (pos + 1) n ((value <<< 4) ||| digit)

/-- `parse_hex_u32`; where it fails, its caller fails with `OPAL_EINVAL`. -/
def parseHexU32 (pos len : Nat) : Except Fault (BitVec 32) := parseHexLoop image pos len 0

def alignCeil4 (x : Nat) : Nat := (x + 3) % 2 ^ 64 / 4 * 4

/-- `advance_aligned4`; where it fails, its caller fails with `OPAL_EINVAL`. -/
def advanceAligned4 (off : Nat) : Except Fault Nat :=
  let aligned := alignCeil4 off
  if aligned < off ∨ aligned > image.len then .error .einval else .ok aligned

/-- What the body of the loop of `cpio_mount` takes from one record. -/
structure Header where
  mode : BitVec 32
  name : Nat
  nameLen : Nat
  data : Nat
  size : Nat
  next : Nat
  deriving DecidableEq, Repr

/-- The name and the data behind the header of a record, which ends at `off`. -/
def readBody (off : Nat) (mode filesize namesize : BitVec 32) : Except Fault Header :=
  if namesize = 0 ∨ namesize.toNat > image.len - off then .error .einval
  else do
    let name := off
    let nameLen := namesize.toNat - 1
    let last ← image.read (name + nameLen)
    if last ≠ 0 then .error .einval
    else
      let bytes ← image.slice name nameLen
      if 0 ∈ bytes then .error .einval
      else
        let off ← advanceAligned4 image (off + namesize.toNat)
        if filesize.toNat > image.len - off then .error .einval
        else
          let next ← advanceAligned4 image (off + filesize.toNat)
          pure ⟨mode, name, nameLen, off, filesize.toNat, next⟩

/-- The body of the loop of `cpio_mount` down to the end of the record. -/
def readRecord (off : Nat) : Except Fault Header :=
  if image.len - off < cpioHdrSize then .error .einval
  else do
    let magic ← image.slice off 6
    if magic ≠ newcMagic ∧ magic ≠ crcMagic then .error .einval
    else
      let mode ← parseHexU32 image (off + 14) 8
      let filesize ← parseHexU32 image (off + 54) 8
      let namesize ← parseHexU32 image (off + 94) 8
      readBody image (off + cpioHdrSize) mode filesize namesize

end Reading

section Tree

/-- `find_child`. -/
def findChild (children : List Node) (name : Name) : Option Node :=
  children.find? fun child => child.name = name

/-- Puts the child of that name back in its place, or appends a new one. -/
def putChild (name : Name) (child : Node) : List Node → List Node
  | [] => [child]
  | first :: rest =>
      if first.name = name then child :: rest else first :: putChild name child rest

/-- A node of `alloc_node`, before it has a parent. -/
def allocNode (ino : Nat) (name : Name) (isDir : Bool) : Node :=
  .mk name { ino := ino, isDir := isDir, explicit := false, data := none, size := 0 } []

/-- `ensure_dir_child`, with the next inode number. -/
def ensureDirChild (nextIno : Nat) (parent : Node) (name : Name) : Except Fault (Node × Nat) :=
  match findChild parent.children name with
  | none => .ok (allocNode nextIno name true, nextIno + 1)
  | some child => if child.attr.isDir then .ok (child, nextIno) else .error .einval

/-- The end of `upsert_leaf`. -/
def setLeaf (payload : Payload) (child : Node) : Node :=
  .mk child.name
    (if payload.isDir then { child.attr with explicit := true, data := none, size := 0 }
    else { child.attr with explicit := true, data := payload.data, size := payload.size })
    child.children

def Node.withChild (parent : Node) (name : Name) (child : Node) : Node :=
  .mk parent.name parent.attr (putChild name child parent.children)

/-- `upsert_leaf`, with the next inode number. -/
def upsertLeaf (nextIno : Nat) (parent : Node) (name : Name) (payload : Payload) :
    Except Fault (Node × Nat) :=
  match findChild parent.children name with
  | none =>
      .ok (parent.withChild name (setLeaf payload (allocNode nextIno name payload.isDir)),
        nextIno + 1)
  | some child =>
      if child.attr.explicit ∨ ¬ (payload.isDir ∧ child.attr.isDir) then .error .einval
      else .ok (parent.withChild name (setLeaf payload child), nextIno)

end Tree

section Entries

variable (image : Image)

/-- `while (i < len && p(path[i])) i++`, for `n` bytes from `pos`. -/
def skipWhile (p : UInt8 → Bool) (pos : Nat) : Nat → Except Fault Nat
  | 0 => pure pos
  | n + 1 => do
      let ch ← image.read pos
      if p ch then skipWhile p (pos + 1) n else pure pos

def isSlash (ch : UInt8) : Bool := ch = slash

def isDot (pos len : Nat) : Except Fault Bool :=
  if len = 1 then do
    let ch ← image.read pos
    pure (ch = dot)
  else pure false

def isDotdot (pos len : Nat) : Except Fault Bool :=
  if len = 2 then do
    let first ← image.read pos
    if first = dot then do
      let second ← image.read (pos + 1)
      pure (second = dot)
    else pure false
  else pure false

/-- A path that names the root. -/
def atRoot (payload : Payload) (node : Node) (nextIno : Nat) : Except Fault (Node × Nat) :=
  if payload.isDir then .ok (node, nextIno) else .error .einval

/-- The loop of `add_archive_entry` over the path up to `stop`; `pos` stands for
`path + i`. -/
def insertSegments (stop : Nat) (payload : Payload) :
    Nat → Nat → Node → Nat → Except Fault (Node × Nat)
  | 0, _, _, _ => .error .endless
  | fuel + 1, pos, node, nextIno =>
      if ¬ pos < stop then .ok (node, nextIno)
      else do
        let start ← skipWhile image isSlash pos (stop - pos)
        if start ≥ stop then .ok (node, nextIno)
        else
          let i ← skipWhile image (fun ch => ¬ isSlash ch) start (stop - start)
          let segLen := i - start
          if segLen = 0 ∨ segLen > vfsMaxName then .error .einval
          else if ← isDotdot image start segLen then .error .einval
          else
            let next ← skipWhile image isSlash i (stop - i)
            if ← isDot image start segLen then
              if next ≥ stop then atRoot payload node nextIno
              else insertSegments stop payload fuel next node nextIno
            else
              let name ← image.slice start segLen
              if next ≥ stop then upsertLeaf nextIno node name payload
              else do
                let (child, nextIno) ← ensureDirChild nextIno node name
                let (child, nextIno) ← insertSegments stop payload fuel next child nextIno
                pure (node.withChild name child, nextIno)

def addArchiveEntry (path pathLen : Nat) (payload : Payload) (root : Node) (nextIno : Nat) :
    Except Fault (Node × Nat) := do
  let stop := path + pathLen
  let path ← skipWhile image isSlash path pathLen
  let pathLen := stop - path
  if pathLen = 0 then atRoot payload root nextIno
  else if ← isDot image path pathLen then atRoot payload root nextIno
  else insertSegments image stop payload (pathLen + 1) path root nextIno

def isTrailer (header : Header) : Except Fault Bool :=
  if header.nameLen = 10 then do
    let name ← image.slice header.name 10
    pure (name = trailer)
  else pure false

/-- The loop of `cpio_mount`. -/
def mountLoop : Nat → Nat → Node → Nat → Except Fault Node
  | 0, _, _, _ => .error .endless
  | fuel + 1, off, root, nextIno =>
      if ¬ off < image.len then .ok root
      else do
        let header ← readRecord image off
        if ← isTrailer image header then .ok root
        else
          let kind := header.mode &&& cpioIfmt
          if kind ≠ cpioIfreg ∧ kind ≠ cpioIfdir then .error .enotsupp
          else do
            let (root, nextIno) ← addArchiveEntry image header.name header.nameLen
              ⟨kind = cpioIfdir, header.data, header.size⟩ root nextIno
            mountLoop fuel header.next root nextIno

/-- `cpio_mount`: the root of the mounted tree. -/
def cpioMount : Except Fault Node :=
  let root := allocNode 1 [] true
  mountLoop image (image.len + 1) 0
    (.mk root.name { root.attr with explicit := true } root.children) 2

end Entries

end Opal.Cpio
