import Mathlib.Tactic.Ring
import Opal.Library.Bytes

/-!
# Reading a directory

`file_read` on a directory asks the file system for the entries from the position on.  The
callback lays them out as records as long as they fit into the buffer, and a second pass
links the records.  The position counts entries, not bytes.
-/

namespace Opal.Dirent

section Data

/-- `struct inode_dirent`; `name` stands for the `name_len` bytes at its name. -/
structure Entry where
  id : Nat
  name : List UInt8
  isDir : Bool
  fits : name.length < 2 ^ 16
  deriving DecidableEq, Repr

/-- An entry as a file system fills it in, with the length of its name in 16 bits. -/
def Entry.of (id : Nat) (name : List UInt8) (isDir : Bool) : Entry where
  id
  name := name.take (name.length % 2 ^ 16)
  isDir
  fits := by
    rw [List.length_take]
    exact Nat.lt_of_le_of_lt (Nat.min_le_left _ _) (Nat.mod_lt _ (by decide))

def Entry.flags (entry : Entry) : Nat := if entry.isDir then 1 else 0

/-- `inode_iterate_dir_cb`: whether to go on. -/
abbrev Callback (γ : Type) := Nat → Entry → γ → Bool × γ

/-- An `iterate_dir` of the file system, which may change the state of its inode. -/
abbrev IterateDir (σ ε : Type) :=
  (γ : Type) → σ → Nat → Callback γ → γ → Except ε Unit × γ × σ

/-- `struct file_dir_read_ctx`; its error is `OPAL_EBUFSIZE` or `OPAL_OK`. -/
structure ReadCtx where
  buffer : Memory
  size : Nat
  written : Nat
  count : Nat
  ebufsize : Bool

inductive ReadError (ε : Type) where
  | enotsupp
  | ebufsize
  | fs (error : ε)
  deriving DecidableEq, Repr

/-- `struct file` with the state of its inode. -/
structure File (σ : Type) where
  readable : Bool
  isDir : Bool
  pos : Nat
  inode : σ

/-- The operations of the inode and the file that a read uses. -/
structure Ops (σ ε : Type) where
  iterateDir : Option (IterateDir σ ε)
  read : σ → Nat → Memory → Nat → Except (ReadError ε) Nat × Nat × Memory × σ

end Data

section Records

/-- `sizeof(struct dirent)`. -/
def direntSize : Nat := 8

def direntRecordSize (nameLen : Nat) : Nat := (direntSize + nameLen + 3) / 4 * 4

/-- The record of an entry at a place in the buffer. -/
def putRecord (buffer : Memory) (pos : Nat) (entry : Entry) : Memory :=
  let nameLen := entry.name.length
  let buffer := buffer.copyInto pos 4 (Memory.bytesOf 0)
  let buffer := buffer.copyInto (pos + 4) 2 (Memory.bytesOf nameLen)
  let buffer := buffer.copyInto (pos + 6) 2 (Memory.bytesOf entry.flags)
  let buffer := buffer.copyInto (pos + direntSize) nameLen fun i => entry.name.getD i 0
  buffer.fill (pos + direntSize + nameLen) (direntRecordSize nameLen - direntSize - nameLen) 0

def fileDirReadCb : Callback ReadCtx := fun _ entry ctx =>
  let recordSize := direntRecordSize entry.name.length
  if recordSize > ctx.size - ctx.written then
    (false, if ctx.written = 0 then { ctx with ebufsize := true } else ctx)
  else
    (true, { ctx with
      buffer := putRecord ctx.buffer ctx.written entry
      written := ctx.written + recordSize
      count := ctx.count + 1 })

theorem direntRecordSize_pos (nameLen : Nat) : 0 < direntRecordSize nameLen := by
  unfold direntRecordSize direntSize
  omega

/-- The loop of `dirent_fix_offsets` from `pos` on. -/
def direntFixOffsets (size pos : Nat) (buffer : Memory) : Memory :=
  if pos < size then
    let recordSize := direntRecordSize (buffer.word (pos + 4) 2)
    if pos + recordSize ≥ size then buffer.copyInto pos 4 (Memory.bytesOf 0)
    else
      direntFixOffsets size (pos + recordSize)
        (buffer.copyInto pos 4 (Memory.bytesOf recordSize))
  else buffer
termination_by size - pos
decreasing_by
  have positive := direntRecordSize_pos (buffer.word (pos + 4) 2)
  omega

end Records

section Read

variable {σ ε : Type}

/-- `file_dir_read`: the result, the position and the buffer. -/
def fileDirRead (iterateDir : Option (IterateDir σ ε)) (inode : σ) (pos : Nat) (buffer : Memory)
    (size : Nat) : Except (ReadError ε) Nat × Nat × Memory × σ :=
  if size = 0 then (.ok 0, pos, buffer, inode)
  else match iterateDir with
    | none => (.error .enotsupp, pos, buffer, inode)
    | some iterateDir =>
        let ctx : ReadCtx := { buffer, size, written := 0, count := 0, ebufsize := false }
        let (result, ctx, inode) := iterateDir ReadCtx inode pos fileDirReadCb ctx
        match result with
        | .error error => (.error (.fs error), pos, ctx.buffer, inode)
        | .ok _ =>
            if ctx.ebufsize then (.error .ebufsize, pos, ctx.buffer, inode)
            else
              (.ok ctx.written, pos + ctx.count, direntFixOffsets ctx.written 0 ctx.buffer, inode)

def fileRead (ops : Ops σ ε) (file : File σ) (buffer : Memory) (size : Nat) :
    Except (ReadError ε) Nat × Memory × File σ :=
  if ¬file.readable then (.error .enotsupp, buffer, file)
  else
    let (n, pos, buffer, inode) :=
      if file.isDir then fileDirRead ops.iterateDir file.inode file.pos buffer size
      else ops.read file.inode file.pos buffer size
    match n with
    | .ok n => (.ok n, buffer, { file with pos, inode })
    | .error error => (.error error, buffer, { file with inode })

end Read

section Iteration

variable {γ : Type}

/-- The callback on one entry after the other, until it stops. -/
def visit (callback : Callback γ) : Nat → List Entry → γ → γ
  | _, [], ctx => ctx
  | index, entry :: rest, ctx =>
      match callback index entry ctx with
      | (true, ctx) => visit callback (index + 1) rest ctx
      | (false, ctx) => ctx

/-- The loop of an `iterate_dir` over its visible entries, which skips those in front of the
start. -/
def visitFrom (start : Nat) (callback : Callback γ) : Nat → List Entry → γ → γ
  | _, [], ctx => ctx
  | index, entry :: rest, ctx =>
      if index < start then visitFrom start callback (index + 1) rest ctx
      else
        match callback index entry ctx with
        | (true, ctx) => visitFrom start callback (index + 1) rest ctx
        | (false, ctx) => ctx

variable {callback : Callback γ} {start index : Nat} {entries : List Entry} {ctx : γ}

theorem visitFrom_of_le (behind : start ≤ index) :
    visitFrom start callback index entries ctx = visit callback index entries ctx := by
  induction entries generalizing index ctx with
  | nil => rfl
  | cons entry rest inductionHypothesis =>
      rw [visitFrom, visit, if_neg (Nat.not_lt.mpr behind)]
      cases callback index entry ctx with
      | mk onward ctx =>
          cases onward with
          | true => exact inductionHypothesis (Nat.le_succ_of_le behind)
          | false => rfl

/-- The loop visits what is left behind the start. -/
theorem visitFrom_eq (front : index ≤ start) :
    visitFrom start callback index entries ctx =
      visit callback start (entries.drop (start - index)) ctx := by
  induction entries generalizing index with
  | nil => simp [visitFrom, visit]
  | cons entry rest inductionHypothesis =>
      by_cases skipped : index < start
      · have count : start - index = (start - (index + 1)) + 1 := by omega
        rw [visitFrom, if_pos skipped, inductionHypothesis skipped, count, List.drop_succ_cons]
      · have same : index = start := by omega
        subst same
        rw [Nat.sub_self, List.drop_zero]
        exact visitFrom_of_le (Nat.le_refl _)

/-- The callback that collects the entries. -/
def collect : Callback (List Entry) := fun _ entry entries => (true, entries ++ [entry])

theorem visit_collect (found : List Entry) :
    visit collect index entries found = found ++ entries := by
  induction entries generalizing index found with
  | nil => exact (List.append_nil found).symm
  | cons entry rest inductionHypothesis =>
      rw [visit]
      exact (inductionHypothesis (found ++ [entry])).trans (List.append_assoc found [entry] rest)

end Iteration

end Opal.Dirent
