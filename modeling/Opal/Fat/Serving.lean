import Opal.Fat.Holdings

/-!
# Requests on the files of a volume

On a device that does not fail every run of requests is answered from the view: what has been
written is what is read, by other handles of the file and after the volume has been mounted again.
A request that is refused leaves the view, and says why.
-/

namespace Opal.Fat

open Dirent (fatDentrySize)

section Answers

/-- The handle of a number. -/
def View.handle (view : View) (h : Nat) : Option Handle := view.handles[h]?.join

/-- Where a seek leads to. -/
def File.seek (file : File) (offset : Int) : FsSeek → Option Nat
  | .set => if offset < 0 ∨ offset > file.size then none else some offset.toNat
  | .ends =>
      if offset > 0 ∨ offset < -(file.size : Int) then none else some (file.size + offset).toNat

/-- The bytes that are promised from a position on. -/
def File.Reads (file : File) (pos : Nat) (bytes : List UInt8) : Prop :=
  ∀ i b, file.byte (pos + i) = some b → ∀ c, bytes[i]? = some c → c = b

/-- The position of a write. -/
def Handle.writePos (handle : Handle) (file : File) : Nat :=
  if handle.append then file.size else handle.pos

/-- The answers to a request, with the view after it. -/
inductive Serves (v after : Volume) (view : View) : Request → Answer → View → Prop where
  /-- Memory is short. -/
  | short {request : Request} (lacks : ¬v.mem.Succeeds) :
      Serves v after view request (.failed .enomem) view
  | created {name : FileName} {idx : Nat} (absent : view.files idx = none) :
      Serves v after view (.create name) (.entry idx) (view.withFile idx .empty)
  | unnamed {name : FileName} (bad : packFilename name.1 = none) :
      Serves v after view (.create name) (.failed .einval) view
  | crowded {name : FileName}
      (taken : ∀ idx < v.layout.rootEntries, dentryIsFree v.sectors idx = false) :
      Serves v after view (.create name) (.failed .enospc) view
  | found {idx : Nat} : Serves v after view (.lookup idx) .done view
  | outside {idx : Nat} (beyond : v.layout.rootEntries ≤ idx) :
      Serves v after view (.lookup idx) (.failed .erange) view
  | absent {idx : Nat} (absent : view.files idx = none) :
      Serves v after view (.lookup idx) (.failed .enoent) view
  | opened {idx : Nat} {readable writable append : Bool} :
      Serves v after view (.openFile idx readable writable append) (.handle view.handles.length)
        { view with
          handles := view.handles ++ [some { idx, readable, writable, append, pos := 0 }] }
  | directory {idx : Nat} {readable writable append : Bool} (absent : view.files idx = none) :
      Serves v after view (.openFile idx readable writable append) (.failed .eisdir) view
  | sought {h pos : Nat} {offset : Int} {origin : FsSeek} {handle : Handle} {file : File}
      (named : view.handle h = some handle) (found : view.files handle.idx = some file)
      (leads : file.seek offset origin = some pos) :
      Serves v after view (.seek h offset origin) (.position pos) (view.moved h pos)
  | misplaced {h : Nat} {offset : Int} {origin : FsSeek} {handle : Handle} {file : File}
      (named : view.handle h = some handle) (found : view.files handle.idx = some file)
      (leads : file.seek offset origin = none) :
      Serves v after view (.seek h offset origin) (.failed .erange) view
  | listed {h : Nat} {offset : Int} {origin : FsSeek} {handle : Handle}
      (named : view.handle h = some handle) (absent : view.files handle.idx = none) :
      Serves v after view (.seek h offset origin) (.failed .eisdir) view
  | got {h size : Nat} {handle : Handle} {file : File} {bytes : List UInt8}
      (named : view.handle h = some handle) (found : view.files handle.idx = some file)
      (readable : handle.readable = true) (inside : handle.pos ≤ file.size)
      (length : bytes.length = min size (file.size - handle.pos))
      (reads : file.Reads handle.pos bytes) :
      Serves v after view (.read h size) (.bytes bytes) (view.moved h (handle.pos + bytes.length))
  | beyond {h size : Nat} {handle : Handle} {file : File}
      (named : view.handle h = some handle) (found : view.files handle.idx = some file)
      (beyond : file.size < handle.pos) :
      Serves v after view (.read h size) (.failed .erange) view
  | unreadable {h size : Nat} {handle : Handle} (named : view.handle h = some handle)
      (refused : handle.readable = false) : Serves v after view (.read h size) .notSupported view
  | put {h n : Nat} {source : List UInt8} {handle : Handle} {file : File}
      (named : view.handle h = some handle) (found : view.files handle.idx = some file)
      (writable : handle.writable = true) (some_bytes : 0 < n) (few : n ≤ source.length)
      (full : n < source.length → after.table.Full) :
      Serves v after view (.write h source) (.count n)
        ((view.withFile handle.idx (file.write v.layout.bpc (handle.writePos file)
          (source.take n))).moved h (handle.writePos file + n))
  | nothing {h : Nat} {handle : Handle} (named : view.handle h = some handle)
      (writable : handle.writable = true) : Serves v after view (.write h []) (.count 0) view
  | full {h : Nat} {source : List UInt8} {handle : Handle} {file : File}
      (named : view.handle h = some handle) (found : view.files handle.idx = some file)
      (full : after.table.Full ∨ uint32Max < handle.writePos file + source.length) :
      Serves v after view (.write h source) (.failed .enospc) view
  | unwritable {h : Nat} {source : List UInt8} {handle : Handle}
      (named : view.handle h = some handle) (refused : handle.writable = false) :
      Serves v after view (.write h source) .notSupported view
  | emptied {h : Nat} {handle : Handle} {file : File} (named : view.handle h = some handle)
      (found : view.files handle.idx = some file) (writable : handle.writable = true) :
      Serves v after view (.truncate h 0) .done ((view.withFile handle.idx .empty).moved h 0)
  | resized {h size : Nat} (nonzero : size ≠ 0) :
      Serves v after view (.truncate h size) (.failed .einval) view
  | fixed {h size : Nat} {handle : Handle} (named : view.handle h = some handle)
      (refused : handle.writable = false) :
      Serves v after view (.truncate h size) .notSupported view
  | closed {h : Nat} :
      Serves v after view (.close h) .done { view with handles := view.handles.set h none }
  | forgotten {idx : Nat} : Serves v after view (.forget idx) .done view
  | mounted : Serves v after view .mount .done view

end Answers

section Steps

variable {v after : Volume} {view : View} {chains : Nat → List Nat} {request : Request}
  {answer : Answer} {mem : AllocOracle} {idx h pos : Nat}

/-- The request is answered from the view, and what belongs to no file is as it was. -/
def Served (v : Volume) (view : View) (chains : Nat → List Nat) (request : Request)
    (answer : Answer) (after : Volume) : Prop :=
  ∃ view' chains', Serves v after view request answer view' ∧ after.Holds view' chains' ∧
    Spared v view chains after view' chains'

/-- The request changes no file. -/
theorem served_of_same {view' : View} (serves : Serves v after view request answer view')
    (holds : after.Holds view' chains) (files : view'.files = view.files)
    (table : after.table = v.table) (clusters : after.clusters = v.clusters) :
    Served v view chains request answer after :=
  ⟨view', chains, serves, holds, .of_same files table clusters⟩

theorem kzallocObject_eq (v : Volume) : kzallocObject v =
    (if v.mem.head then .ok () else .error .enomem, { v with mem := v.mem.tail }) := rfl

theorem not_succeeds_of_head (failed : mem.head = false) : ¬mem.Succeeds := fun succeeds =>
  absurd (succeeds.head.symm.trans failed) (by decide)

/-- A slot that is free is no file. -/
theorem Volume.Holds.absent (holds : v.Holds view chains) (not : ¬v.IsFile idx) :
    view.files idx = none := by
  rw [← Option.not_isSome_iff_eq_none]
  exact fun present => not ((holds.files idx).mp present)

theorem Volume.Holds.create (holds : v.Holds view chains) (name : FileName)
    (ran : answered .entry (fatInodeCreateChild name.1 v) = (answer, after)) :
    Served v view chains (.create name) answer after := by
  unfold fatInodeCreateChild at ran
  cases packed : packFilename name.1 with
  | none =>
      rw [packed] at ran
      cases ran
      exact served_of_same (.unnamed packed) holds rfl rfl rfl
  | some out =>
      rw [packed] at ran
      dsimp only at ran
      rw [Op.run_bind, kzallocObject_eq] at ran
      cases allocated : v.mem.head with
      | false =>
          rw [allocated] at ran
          cases ran
          exact served_of_same (.short (not_succeeds_of_head allocated)) (holds.withMem _) rfl rfl
            rfl
      | true =>
          rw [allocated, if_pos rfl] at ran
          dsimp only at ran
          have holds' := holds.withMem v.mem.tail
          rcases holds'.allocDentry with ⟨mem, failed, short⟩ | ⟨root, mem, same, sought⟩
          · rw [Op.run_bind_error failed] at ran
            cases ran
            exact served_of_same (.short fun succeeds => short succeeds.tail) (holds.withMem _) rfl
              rfl rfl
          · have here := (holds.withRoot same).withMem mem
            rcases sought with ⟨failed, taken⟩ | ⟨idx, found, inside, free⟩
            · rw [Op.run_bind_error failed] at ran
              cases ran
              exact served_of_same (.crowded taken) here rfl rfl rfl
            · obtain ⟨buffer, sectors, wrote, writes⟩ :=
                @rootInodeWriteDentry_writes { v with root := some root, mem := mem } root
                  (newDentry out) idx rfl same inside
              rw [Op.run_bind_ok found, Op.run_bind_ok wrote] at ran
              cases ran
              have changes := here.newFile packed inside writes
              have absent : view.files idx = none := holds.absent fun isFile => by
                have visible := isFile.visible
                rw [not_visible_of_free free] at visible
                cases visible
              have read : Spared v view chains { v with root := some root, mem := mem } view
                  chains := .of_same rfl rfl rfl
              refine ⟨_, _, .created absent, here.update changes (.inl rfl), read.trans ?_⟩
              exact changes.spared (.inl rfl)

theorem Volume.Holds.lookup (holds : v.Holds view chains)
    (ran : answered (fun _ => .done) (lookupEntry idx v) = (answer, after)) :
    Served v view chains (.lookup idx) answer after := by
  unfold lookupEntry at ran
  rw [Op.run_get_bind] at ran
  split_ifs at ran with inUse
  · cases ran
    exact served_of_same .found holds rfl rfl rfl
  · rcases holds.readall with ⟨mem, failed, short⟩ | ⟨root, mem, read, same, kept⟩
    · rw [Op.run_bind_error failed] at ran
      cases ran
      exact served_of_same (.short short) (holds.withMem _) rfl rfl rfl
    · have here := holds.withRoot same
      rw [Op.run_bind_ok read, dentryGetChild, Op.run_get_bind] at ran
      split_ifs at ran with beyond visible
      · cases ran
        exact served_of_same (.outside beyond) (here.withMem mem) rfl rfl rfl
      · have slot := same.slot (Nat.lt_of_not_le beyond)
        rw [slot.isVisible] at visible
        rw [Op.run_bind, kzallocObject_eq] at ran
        cases allocated : mem.head with
        | false =>
            rw [allocated] at ran
            cases ran
            refine served_of_same (.short fun succeeds => ?_) (here.withMem mem.tail) rfl rfl rfl
            exact not_succeeds_of_head allocated (kept succeeds)
        | true =>
            rw [allocated] at ran
            cases ran
            have made := (here.withMem mem.tail).withNode rfl (Nat.lt_of_not_le beyond) visible
            unfold Volume.entry at made
            rw [← slot.getDentry] at made
            exact served_of_same .found made rfl rfl rfl
      · cases ran
        have absent : view.files idx = none := holds.absent fun isFile => by
          rw [(same.slot isFile.inside).isVisible] at visible
          exact visible isFile.visible
        exact served_of_same (.absent absent) (here.withMem mem) rfl rfl rfl

theorem Volume.Holds.openFile (holds : v.Holds view chains) {root : Memory} {node : Node}
    {readable writable append : Bool} (inUse : v.nodes idx = some node)
    (present : v.root = some root)
    (ran : answered .handle (fatInodeOpen idx root readable writable append v) = (answer, after)) :
    Served v view chains (.openFile idx readable writable append) answer after := by
  have isSome := Option.isSome_of_eq_some inUse
  obtain ⟨-, inside, visible⟩ := holds.nodes idx isSome
  have entry := holds.entry_eq present inside
  unfold fatInodeOpen at ran
  rw [entry] at ran
  split_ifs at ran with directory
  · cases ran
    have absent : view.files idx = none := holds.absent fun isFile => directory.1 isFile.isNormal
    exact served_of_same (.directory absent) holds rfl rfl rfl
  · rw [Op.run_bind, kzallocObject_eq] at ran
    cases allocated : v.mem.head with
    | false =>
        rw [allocated] at ran
        cases ran
        exact served_of_same (.short (not_succeeds_of_head allocated)) (holds.withMem _) rfl rfl rfl
    | true =>
        rw [allocated] at ran
        cases ran
        dsimp only
        rw [← holds.handles]
        refine served_of_same .opened ((holds.withMem v.mem.tail).withHandles _
          fun handle member => ?_) rfl rfl rfl
        rw [holds.handles] at member
        rcases List.mem_append.mp member with old | new
        · exact holds.opened handle old
        · cases List.mem_singleton.mp new
          refine ⟨isSome, fun writes => (holds.files idx).mpr ⟨inside, visible, ?_⟩⟩
          by_contra isDir
          exact directory ⟨isDir, Or.inl writes⟩

/-- The file or the directory of a handle. -/
theorem Volume.opened_eq {handle : Handle} {node : Node} {root : Memory}
    (opened : v.opened h = some (handle, node, root)) :
    v.handles[h]?.join = some handle ∧ v.nodes handle.idx = some node ∧ v.root = some root := by
  unfold Volume.opened at opened
  cases named : v.handles[h]?.join with
  | none =>
      rw [named] at opened
      cases opened
  | some handle' =>
      rw [named] at opened
      dsimp only at opened
      split at opened
      · rename_i inUse present
        cases opened
        exact ⟨rfl, inUse, present⟩
      · cases opened

/-- What a handle that is open stands for: a directory or a file. -/
theorem Volume.Holds.opens (holds : v.Holds view chains) {handle : Handle} {node : Node}
    {root : Memory} (opened : v.opened h = some (handle, node, root)) :
    view.handle h = some handle ∧
      ((getDentry root handle.idx).attr &&& fatAttrDirectory ≠ 0 ∧ view.files handle.idx = none ∨
        ¬(getDentry root handle.idx).attr &&& fatAttrDirectory ≠ 0 ∧
          ∃ file, view.files handle.idx = some file ∧
            file.Behind (v.inode node (getDentry root handle.idx) pos)
              (getDentry root handle.idx) (chains handle.idx) ∧
            (v.inode node (getDentry root handle.idx) pos).Works) := by
  obtain ⟨named, inUse, present⟩ := Volume.opened_eq opened
  obtain ⟨-, inside, visible⟩ := holds.nodes handle.idx (Option.isSome_of_eq_some inUse)
  have entry := holds.entry_eq present inside
  refine ⟨by rw [View.handle, holds.handles, named], ?_⟩
  by_cases isDir : (getDentry root handle.idx).attr &&& fatAttrDirectory = 0
  · have isNormal := isDir
    rw [entry] at isNormal
    obtain ⟨file, found⟩ :=
      Option.isSome_iff_exists.mp ((holds.files handle.idx).mpr ⟨inside, visible, isNormal⟩)
    obtain ⟨behind, works⟩ := holds.behind found inUse present
    exact .inr ⟨not_not_intro isDir, file, found, behind, works⟩
  · refine .inl ⟨isDir, holds.absent fun isFile => isDir ?_⟩
    rw [entry]
    exact isFile.isNormal

theorem mem_of_named {handles : List (Option Handle)} {handle : Handle}
    (named : handles[h]?.join = some handle) : some handle ∈ handles := by
  obtain ⟨slot, there, same⟩ := Option.bind_eq_some_iff.mp named
  have slot_eq : slot = some handle := same
  rw [slot_eq] at there
  exact List.mem_of_getElem? there

/-- Nothing but a file is open for writes. -/
theorem Volume.Holds.opens_writable (holds : v.Holds view chains) {handle : Handle} {node : Node}
    {root : Memory} (opened : v.opened h = some (handle, node, root))
    (writable : handle.writable = true) :
    ¬(getDentry root handle.idx).attr &&& fatAttrDirectory ≠ 0 ∧
      ∃ file, view.files handle.idx = some file ∧
        file.Behind (v.inode node (getDentry root handle.idx) pos) (getDentry root handle.idx)
          (chains handle.idx) ∧
        (v.inode node (getDentry root handle.idx) pos).Works := by
  have isSome := (holds.opened handle (mem_of_named (Volume.opened_eq opened).1)).2 writable
  refine (holds.opens opened).2.resolve_left fun ⟨_, absent⟩ => ?_
  rw [absent] at isSome
  cases isSome

/-- A request that changes no file, with what the read of the file has done. -/
theorem served_of_looked {middle : Volume} {view' : View}
    (serves : Serves v after view request answer view')
    (looked : middle.Holds view chains ∧ Spared v view chains middle view chains)
    (holds : middle.Holds view chains → after.Holds view' chains) (files : view'.files = view.files)
    (table : after.table = middle.table) (clusters : after.clusters = middle.clusters) :
    Served v view chains request answer after :=
  ⟨view', chains, serves, holds looked.1, looked.2.trans (.of_same files table clusters)⟩

section Contents

variable {node : Node} {root : Memory} {inode : Inode} {file : File} {fault : Fault}
  {offset : Int} {origin : FsSeek} {size : Nat}

theorem fatFileSeek_of_error
    (isFile : ¬(getDentry root idx).attr &&& fatAttrDirectory ≠ 0)
    (read : fatInodeReadall (v.inode node (getDentry root idx) 0) = (.error fault, inode)) :
    fatFileSeek idx node root offset origin v = (.error fault, v.withInode idx inode) := by
  unfold fatFileSeek
  dsimp only
  rw [if_neg isFile, read]

/-- A seek in a file that has been read. -/
theorem fatFileSeek_of_ok
    (isFile : ¬(getDentry root idx).attr &&& fatAttrDirectory ≠ 0)
    (read : fatInodeReadall (v.inode node (getDentry root idx) 0) = (.ok (), inode))
    (shown : file.Shown inode.filesize inode.cached) :
    fatFileSeek idx node root offset origin v =
      (match file.seek offset origin with
        | none => .error .erange
        | some pos => .ok pos, v.withInode idx inode) := by
  unfold fatFileSeek File.seek
  dsimp only
  rw [if_neg isFile, read]
  dsimp only
  rw [shown.1]
  cases origin with
  | set =>
      dsimp only
      split <;> rfl
  | ends =>
      dsimp only
      split <;> rfl

theorem fatFileRead_of_error
    (isFile : ¬(getDentry root idx).attr &&& fatAttrDirectory ≠ 0)
    (read : fatInodeReadall (v.inode node (getDentry root idx) pos) = (.error fault, inode)) :
    fatFileRead idx node root pos size v = (.error fault, v.withInode idx inode) := by
  unfold fatFileRead
  dsimp only
  rw [if_neg isFile, read]

/-- A read of a file that has been read into its buffer. -/
theorem fatFileRead_of_ok
    (isFile : ¬(getDentry root idx).attr &&& fatAttrDirectory ≠ 0)
    (read : fatInodeReadall (v.inode node (getDentry root idx) pos) = (.ok (), inode))
    (shown : file.Shown inode.filesize inode.cached) :
    file.size < pos ∧ fatFileRead idx node root pos size v =
        (.error .erange, v.withInode idx inode) ∨
      pos ≤ file.size ∧ ∃ bytes, bytes.length = min size (file.size - pos) ∧
        file.Reads pos bytes ∧
        fatFileRead idx node root pos size v = (.ok bytes, v.withInode idx inode) := by
  unfold fatFileRead
  dsimp only
  rw [if_neg isFile, read]
  dsimp only
  rw [shown.1]
  by_cases beyond : pos > file.size
  · exact .inl ⟨beyond, if_pos beyond⟩
  · rw [if_neg beyond]
    refine .inr ⟨Nat.le_of_not_lt beyond, _, ?_, fun i b promised c here => ?_, rfl⟩
    · rw [List.length_map, List.length_range]
    · rw [List.getElem?_map] at here
      obtain ⟨k, ranged, same⟩ := Option.map_eq_some_iff.mp here
      obtain rfl : k = i := by
        have value := List.getElem?_eq_some_iff.mp ranged
        rw [← value.2, List.getElem_range]
      rw [← same]
      exact shown.2 _ b promised

theorem Volume.Holds.seek (holds : v.Holds view chains)
    (ran : step v (.seek h offset origin) = some (answer, after)) :
    Served v view chains (.seek h offset origin) answer after := by
  obtain ⟨⟨handle, node, root⟩, opened, ran⟩ := Option.map_eq_some_iff.mp ran
  have present := (Volume.opened_eq opened).2.2
  dsimp only at ran
  obtain ⟨named, ⟨isDir, absent⟩ | ⟨isFile, file, found, behind, works⟩⟩ :=
    @Volume.Holds.opens v view chains h 0 holds handle node root opened
  · have refused : fatFileSeek handle.idx node root offset origin v = (.error .eisdir, v) :=
      if_pos isDir
    rw [refused] at ran
    cases ran
    exact served_of_same (.listed named absent) holds rfl rfl rfl
  · rcases behind.readall works with ⟨inode, failed, looked, behind', short⟩ |
      ⟨inode, read, looked, behind', shown⟩
    · rw [fatFileSeek_of_error isFile failed] at ran
      cases ran
      exact served_of_looked (.short short) (holds.looked found present looked behind') id rfl rfl
        rfl
    · rw [fatFileSeek_of_ok isFile read shown] at ran
      have here := holds.looked found present looked behind'
      cases leads : file.seek offset origin with
      | none =>
          rw [leads] at ran
          cases ran
          exact served_of_looked (.misplaced named found leads) here id rfl rfl rfl
      | some pos =>
          rw [leads] at ran
          cases ran
          exact served_of_looked (.sought named found leads) here Volume.Holds.moved rfl rfl rfl

theorem Volume.Holds.read (holds : v.Holds view chains)
    (ran : step v (.read h size) = some (answer, after)) :
    Served v view chains (.read h size) answer after := by
  unfold step at ran
  dsimp only at ran
  split at ran
  · cases ran
  · rename_i handle node root opened
    have present := (Volume.opened_eq opened).2.2
    obtain ⟨named, kind⟩ := @Volume.Holds.opens v view chains h handle.pos holds handle node root
      opened
    by_cases readable : handle.readable = true
    · rw [if_neg (not_not_intro readable)] at ran
      rcases kind with ⟨isDir, absent⟩ | ⟨isFile, file, found, behind, works⟩
      · rw [if_pos isDir] at ran
        cases ran
      · rw [if_neg isFile] at ran
        rcases behind.readall works with ⟨inode, failed, looked, behind', short⟩ |
          ⟨inode, read, looked, behind', shown⟩
        · rw [fatFileRead_of_error isFile failed] at ran
          cases ran
          exact served_of_looked (.short short) (holds.looked found present looked behind') id rfl
            rfl rfl
        · have here := holds.looked found present looked behind'
          rcases @fatFileRead_of_ok v handle.idx handle.pos node root inode file size isFile read
            shown with ⟨beyond, result⟩ | ⟨inside, bytes, length, reads, result⟩
          · rw [result] at ran
            cases ran
            exact served_of_looked (.beyond named found beyond) here id rfl rfl rfl
          · rw [result] at ran
            cases ran
            exact served_of_looked (.got named found readable inside length reads) here
              Volume.Holds.moved rfl rfl rfl
    · rw [if_pos readable] at ran
      cases ran
      exact served_of_same (.unreadable named (Bool.eq_false_iff.mpr readable)) holds rfl rfl rfl

variable {source : List UInt8} {append : Bool}

/-- The position that a handle has already. -/
theorem View.moved_eq {handle : Handle} (named : view.handle h = some handle) :
    view.moved h handle.pos = view := by
  have same : view.handles.modify h (Option.map fun other => { other with pos := handle.pos }) =
      view.handles := by
    refine List.ext_getElem? fun i => ?_
    rw [List.getElem?_modify]
    by_cases mine : h = i
    · rw [← mine]
      cases here : view.handles[h]? with
      | none => rfl
      | some slot =>
          have slot_eq : slot = some handle := by
            rw [View.handle, here] at named
            exact named
          rw [slot_eq]
          exact congrArg some (if_pos rfl)
    · cases view.handles[i]? with
      | none => rfl
      | some slot => exact congrArg some (if_neg mine)
  unfold View.moved
  rw [same]

/-- A write to a file is the write to its inode, with the entry recorded behind it. -/
theorem fatFileWrite_eq (isFile : ¬(getDentry root idx).attr &&& fatAttrDirectory ≠ 0) :
    fatFileWrite idx node root pos source append v =
      (fatInodeWrite (bytesAt source) source.length append
        (v.inode node (getDentry root idx) pos)).map fun (result, inode) =>
          ((result.map fun n => (n, inode.pos)).mapError Failure.fault,
            (v.withInode idx inode).recorded idx root inode) := by
  unfold fatFileWrite
  dsimp only
  rw [if_neg isFile]
  have bytes : (fun i => source.getD i 0) = bytesAt source := rfl
  rw [bytes]
  cases fatInodeWrite (bytesAt source) source.length append
      (v.inode node (getDentry root idx) pos) with
  | none => rfl
  | some outcome =>
      obtain ⟨result, inode⟩ := outcome
      cases result <;> rfl

theorem Volume.Holds.write (holds : v.Holds view chains)
    (ran : step v (.write h source) = some (answer, after)) :
    Served v view chains (.write h source) answer after := by
  unfold step at ran
  dsimp only at ran
  split at ran
  · cases ran
  · rename_i handle node root opened
    have present := (Volume.opened_eq opened).2.2
    have named := (@Volume.Holds.opens v view chains h 0 holds handle node root opened).1
    by_cases writable : handle.writable = true
    · rw [if_neg (not_not_intro writable)] at ran
      obtain ⟨isFile, file, found, behind, works⟩ :=
        @Volume.Holds.opens_writable v view chains h handle.pos holds handle node root opened
          writable
      have isSome := Option.isSome_of_eq_some found
      cases wrote : fatInodeWrite (bytesAt source) source.length handle.append
          (v.inode node (getDentry root handle.idx) handle.pos) with
      | none =>
          rw [fatFileWrite_eq isFile, wrote] at ran
          cases ran
      | some outcome =>
          obtain ⟨result, inode⟩ := outcome
          rw [fatFileWrite_eq isFile, wrote, Option.map_some] at ran
          dsimp only at ran
          obtain ⟨file', dentry', chain', ends, rewrites⟩ :=
            behind.write works (getDentry_fits root handle.idx) wrote
          obtain ⟨changes, table⟩ :=
            holds.changes ((holds.files handle.idx).mp isSome) present rewrites
          have own : Own view chains handle.idx (chains handle.idx) := .inr ⟨isSome, rfl⟩
          have held := holds.update changes own
          have spared := changes.spared own
          generalize (v.withInode handle.idx inode).recorded handle.idx root inode = w at *
          cases ends with
          | short lacks =>
              cases ran
              rw [View.withFile_eq found] at held spared
              exact ⟨view, _, .short lacks, held, spared⟩
          | large exceeds =>
              cases ran
              rw [View.withFile_eq found] at held spared
              exact ⟨view, _, .full named found (Or.inr exceeds), held, spared⟩
          | nothing empty still =>
              cases ran
              rw [View.withFile_eq found] at held spared
              have here := @Volume.Holds.moved w view _ handle.pos h held
              rw [View.moved_eq named] at here
              subst empty
              have at_rest : inode.pos = handle.pos := still
              rw [at_rest]
              exact ⟨view, _, .nothing named writable, here, spared.trans (.of_same rfl rfl rfl)⟩
          | @refused cause full fault =>
              cases ran
              rw [View.withFile_eq found] at held spared
              have code : (Failure.refused cause).fault = .enospc := fault
              rw [code]
              rw [← table] at full
              exact ⟨view, _, .full named found (Or.inl full), held, spared⟩
          | @wrote n some_bytes few full moved =>
              cases ran
              rw [← table] at full
              have at_end : inode.pos = handle.writePos file + n := moved
              rw [at_end]
              refine ⟨_, _, .put named found writable some_bytes few full, held.moved,
                spared.trans (.of_same rfl rfl rfl)⟩
    · rw [if_pos writable] at ran
      cases ran
      exact served_of_same (.unwritable named (Bool.eq_false_iff.mpr writable)) holds rfl rfl rfl

/-- A truncation of a file gives back its clusters. -/
theorem Volume.Holds.truncated (holds : v.Holds view chains) (found : view.files idx = some file)
    (inUse : v.nodes idx = some node) (present : v.root = some root) :
    ∃ w, fatFileTruncate idx node root 0 v = some (.ok (), w) ∧
      Changes v idx (chains idx) w .empty [] := by
  have isFile := (holds.files idx).mp (Option.isSome_of_eq_some found)
  have entry := holds.entry_eq present isFile.inside
  obtain ⟨behind, -⟩ := @Volume.Holds.behind v view chains idx 0 file node root holds found inUse
    present
  obtain ⟨set, -⟩ := holds.fixed.records (Nat.succ_pos _) (getDentry root idx)
  obtain ⟨buffer, sectors, wrote, recorded⟩ :=
    @rootInodeWriteDentry_recorded v root idx
      { getDentry root idx with firstCluster := 0, fileSize := 0 } present
      (holds.synced root present) isFile.inside rfl (Nat.two_pow_pos 16) (Nat.two_pow_pos 32)
  obtain ⟨table, freed, confined⟩ :=
    @ClusterChain.freed v.table v.clusters _ _ behind.stored.chained holds.works holds.fixed.holds
  have first : maskEntry node.firstCluster = maskEntry (getDentry root idx).firstCluster :=
    behind.first
  refine ⟨v.replaced idx table v.clusters buffer sectors
    { firstCluster := 0, filesize := 0, buffer := none } v.mem, ?_, ?_⟩
  · have isNormal : ¬(getDentry root idx).attr &&& fatAttrDirectory ≠ 0 := by
      rw [entry]
      exact not_not_intro isFile.isNormal
    unfold fatFileTruncate
    dsimp only
    rw [if_neg isNormal, if_neg (not_not_intro rfl), set, wrote]
    dsimp only [Volume.layout]
    rw [first, freed]
    rfl
  · refine recorded.changes isFile ?_ confined (File.empty_stored rfl rfl) ⟨rfl, nofun⟩
    rw [← entry]

theorem fatFileTruncate_of_nonzero (isFile : ¬(getDentry root idx).attr &&& fatAttrDirectory ≠ 0)
    (nonzero : size ≠ 0) : fatFileTruncate idx node root size v = some (.error .einval, v) := by
  unfold fatFileTruncate
  dsimp only
  rw [if_neg isFile, if_pos nonzero]

theorem Volume.Holds.truncate (holds : v.Holds view chains)
    (ran : step v (.truncate h size) = some (answer, after)) :
    Served v view chains (.truncate h size) answer after := by
  unfold step at ran
  dsimp only at ran
  split at ran
  · cases ran
  · rename_i handle node root opened
    obtain ⟨-, inUse, present⟩ := Volume.opened_eq opened
    have named := (@Volume.Holds.opens v view chains h 0 holds handle node root opened).1
    by_cases writable : handle.writable = true
    · rw [if_neg (not_not_intro writable)] at ran
      obtain ⟨isFile, file, found, -⟩ :=
        @Volume.Holds.opens_writable v view chains h 0 holds handle node root opened writable
      by_cases zero : size = 0
      · subst zero
        obtain ⟨w, truncated, changes⟩ := holds.truncated found inUse present
        rw [truncated] at ran
        cases ran
        have own : Own view chains handle.idx (chains handle.idx) :=
          .inr ⟨Option.isSome_of_eq_some found, rfl⟩
        exact ⟨_, _, .emptied named found writable, (holds.update changes own).moved,
          (changes.spared own).trans (.of_same rfl rfl rfl)⟩
      · rw [fatFileTruncate_of_nonzero isFile zero] at ran
        cases ran
        exact served_of_same (.resized zero) holds rfl rfl rfl
    · rw [if_pos writable] at ran
      cases ran
      exact served_of_same (.fixed named (Bool.eq_false_iff.mpr writable)) holds rfl rfl rfl

/-- A request is answered from the view. -/
theorem Volume.Holds.step (holds : v.Holds view chains)
    (ran : Fat.step v request = some (answer, after)) :
    Served v view chains request answer after := by
  cases request with
  | create name => exact holds.create name (Option.some.inj ran)
  | lookup idx => exact holds.lookup (Option.some.inj ran)
  | openFile idx readable writable append =>
      unfold Fat.step at ran
      dsimp only at ran
      split at ran
      · rename_i node root inUse present
        exact holds.openFile inUse present (Option.some.inj ran)
      · cases ran
  | seek h offset origin => exact holds.seek ran
  | read h size => exact holds.read ran
  | write h source => exact holds.write ran
  | truncate h size => exact holds.truncate ran
  | close h =>
      cases ran
      rw [← holds.handles]
      refine served_of_same .closed (holds.withHandles _ fun handle member => ?_) rfl rfl rfl
      rw [holds.handles] at member
      rcases List.mem_or_eq_of_mem_set member with old | new
      · exact holds.opened handle old
      · cases new
  | forget idx =>
      unfold Fat.step at ran
      dsimp only at ran
      split_ifs at ran with used
      cases ran
      refine served_of_same .forgotten (holds.forget fun handle member same => used ?_) rfl rfl rfl
      exact List.any_eq_true.mpr ⟨some handle, member, decide_eq_true same⟩
  | mount =>
      unfold Fat.step at ran
      dsimp only at ran
      split_ifs at ran with used
      cases ran
      obtain ⟨here, same⟩ := holds.mount fun handle member =>
        used (List.any_eq_true.mpr ⟨some handle, member, rfl⟩)
      refine ⟨view, chains, .mounted, here, ?_⟩
      rintro c ⟨inside, nonzero, other⟩
      exact ⟨⟨inside, (same c inside).trans_ne nonzero, other⟩, same c inside, rfl⟩

end Contents

end Steps

section Progress

variable {v : Volume} {view : View} {chains : Nat → List Nat} {h : Nat}

/-- The requests that the kernel can be asked for: a handle is open, its file is not a directory
where it is read, and the buffer of a file that is written can be allocated. -/
def View.Admits (view : View) (v : Volume) : Request → Prop
  | .create _ | .lookup _ | .close _ => True
  | .openFile idx _ _ _ => (v.nodes idx).isSome = true
  | .seek h _ _ | .truncate h _ => (view.handle h).isSome = true
  | .read h _ => ∃ handle, view.handle h = some handle ∧
      (handle.readable = true → (view.files handle.idx).isSome = true)
  | .write h source => ∃ handle, view.handle h = some handle ∧
      ∀ file, view.files handle.idx = some file →
        bufferSize v.layout.bpc (max file.size (handle.writePos file + source.length)) ≤
          kmallocMaxSize
  | .forget idx => ∀ handle, some handle ∈ view.handles → handle.idx ≠ idx
  | .mount => ∀ handle, some handle ∉ view.handles

/-- A handle that is open has its inode. -/
theorem Volume.Holds.opened_of_handle (holds : v.Holds view chains) {handle : Handle}
    (named : view.handle h = some handle) :
    ∃ node root, v.opened h = some (handle, node, root) := by
  rw [View.handle, holds.handles] at named
  have isSome := (holds.opened handle (mem_of_named named)).1
  obtain ⟨node, inUse⟩ := Option.isSome_iff_exists.mp isSome
  obtain ⟨root, present⟩ := Option.isSome_iff_exists.mp (holds.nodes _ isSome).1
  refine ⟨node, root, ?_⟩
  unfold Volume.opened
  rw [named]
  dsimp only
  rw [inUse, present]

theorem Volume.Holds.read_answered (holds : v.Holds view chains) {size : Nat} {handle : Handle}
    (named : view.handle h = some handle)
    (isFile : handle.readable = true → (view.files handle.idx).isSome = true) :
    (Fat.step v (.read h size)).isSome = true := by
  obtain ⟨node, root, opened⟩ := holds.opened_of_handle named
  unfold Fat.step
  dsimp only
  rw [opened]
  dsimp only
  by_cases readable : handle.readable = true
  · have normal : ¬(getDentry root handle.idx).attr &&& fatAttrDirectory ≠ 0 := by
      rcases (@Volume.Holds.opens v view chains h 0 holds handle node root opened).2 with
        ⟨-, absent⟩ | ⟨normal, -⟩
      · have found := isFile readable
        rw [absent] at found
        cases found
      · exact normal
    rw [if_neg (not_not_intro readable), if_neg normal]
    cases fatFileRead handle.idx node root handle.pos size v with
    | mk outcome after => cases outcome <;> rfl
  · rw [if_pos readable]
    rfl

theorem Volume.Holds.write_answered (holds : v.Holds view chains) {source : List UInt8}
    {handle : Handle} (named : view.handle h = some handle)
    (fits : ∀ file, view.files handle.idx = some file →
      bufferSize v.layout.bpc (max file.size (handle.writePos file + source.length)) ≤
        kmallocMaxSize) : (Fat.step v (.write h source)).isSome = true := by
  obtain ⟨node, root, opened⟩ := holds.opened_of_handle named
  unfold Fat.step
  dsimp only
  rw [opened]
  dsimp only
  by_cases writable : handle.writable = true
  · obtain ⟨isFile, file, found, behind, works⟩ :=
      @Volume.Holds.opens_writable v view chains h handle.pos holds handle node root opened writable
    rw [if_neg (not_not_intro writable)]
    cases wrote : fatInodeWrite (bytesAt source) source.length handle.append
        (v.inode node (getDentry root handle.idx) handle.pos) with
    | none => exact absurd (behind.write_stops works wrote) (Nat.not_lt.mpr (fits file found))
    | some outcome =>
        obtain ⟨result, inode⟩ := outcome
        rw [fatFileWrite_eq isFile, wrote]
        cases result <;> rfl
  · rw [if_pos writable]
    rfl

theorem Volume.Holds.truncate_answered (holds : v.Holds view chains) {size : Nat}
    {handle : Handle} (named : view.handle h = some handle) :
    (Fat.step v (.truncate h size)).isSome = true := by
  obtain ⟨node, root, opened⟩ := holds.opened_of_handle named
  obtain ⟨-, inUse, present⟩ := Volume.opened_eq opened
  unfold Fat.step
  dsimp only
  rw [opened]
  dsimp only
  by_cases writable : handle.writable = true
  · obtain ⟨isFile, file, found, -⟩ :=
      @Volume.Holds.opens_writable v view chains h 0 holds handle node root opened writable
    rw [if_neg (not_not_intro writable)]
    by_cases zero : size = 0
    · subst zero
      obtain ⟨w, truncated, -⟩ := holds.truncated found inUse present
      rw [truncated]
      rfl
    · rw [fatFileTruncate_of_nonzero isFile zero]
      rfl
  · rw [if_pos writable]
    rfl

/-- Every request that can be asked for is answered. -/
theorem Volume.Holds.answered (holds : v.Holds view chains) {request : Request}
    (admits : view.Admits v request) : (Fat.step v request).isSome = true := by
  cases request with
  | create name => rfl
  | lookup idx => rfl
  | close h => rfl
  | openFile idx readable writable append =>
      obtain ⟨node, inUse⟩ := Option.isSome_iff_exists.mp admits
      obtain ⟨root, present⟩ := Option.isSome_iff_exists.mp (holds.nodes idx admits).1
      unfold Fat.step
      dsimp only
      rw [inUse, present]
      rfl
  | seek h offset origin =>
      obtain ⟨handle, named⟩ := Option.isSome_iff_exists.mp admits
      obtain ⟨node, root, opened⟩ := holds.opened_of_handle named
      unfold Fat.step
      dsimp only
      rw [opened]
      rfl
  | read h size =>
      obtain ⟨handle, named, isFile⟩ := admits
      exact holds.read_answered named isFile
  | write h source =>
      obtain ⟨handle, named, fits⟩ := admits
      exact holds.write_answered named fits
  | truncate h size =>
      obtain ⟨handle, named⟩ := Option.isSome_iff_exists.mp admits
      exact holds.truncate_answered named
  | forget idx =>
      have unused : ¬(v.handles.any fun handle => handle.any (·.idx = idx)) = true := by
        intro used
        obtain ⟨slot, member, same⟩ := List.any_eq_true.mp used
        cases slot with
        | none => cases same
        | some handle =>
            rw [← holds.handles] at member
            exact admits handle member (of_decide_eq_true same)
      exact congrArg Option.isSome (if_neg unused)
  | mount =>
      have unused : ¬(v.handles.any Option.isSome) = true := by
        intro used
        obtain ⟨slot, member, same⟩ := List.any_eq_true.mp used
        obtain ⟨handle, rfl⟩ := Option.isSome_iff_exists.mp same
        rw [← holds.handles] at member
        exact admits handle member
      exact congrArg Option.isSome (if_neg unused)

end Progress

section Runs

variable {v after : Volume} {view : View} {chains : Nat → List Nat} {requests : List Request}
  {answers : List Answer}

/-- A run in which every request is answered from the view that the ones before have left. -/
inductive ServesAll : Volume → View → List Request → List Answer → Volume → View → Prop where
  | nil {v : Volume} {view : View} : ServesAll v view [] [] v view
  | cons {v middle after : Volume} {view view' view'' : View} {request : Request} {answer : Answer}
      {requests : List Request} {answers : List Answer}
      (serves : Serves v middle view request answer view')
      (rest : ServesAll middle view' requests answers after view'') :
      ServesAll v view (request :: requests) (answer :: answers) after view''

/-- On a device that does not fail every run of requests on a FAT12 or FAT16 volume is answered
from the files: each keeps its own chain of clusters, and nothing is changed in the clusters that
belong to no file.  Afterwards every request that can be asked for is answered again. -/
theorem run_serves (holds : v.Holds view chains) (ran : run v requests = some (answers, after)) :
    ∃ view' chains', ServesAll v view requests answers after view' ∧ after.Holds view' chains' ∧
      Spared v view chains after view' chains' ∧
      ∀ request, view'.Admits after request → (step after request).isSome = true := by
  induction requests generalizing v view chains answers with
  | nil =>
      cases ran
      exact ⟨view, chains, .nil, holds, .refl _ _ _, fun _ => holds.answered⟩
  | cons request requests inductionHypothesis =>
      unfold run at ran
      cases first : step v request with
      | none =>
          rw [first] at ran
          cases ran
      | some outcome =>
          obtain ⟨answer, middle⟩ := outcome
          rw [first] at ran
          obtain ⟨⟨answers', after'⟩, ran', same⟩ := Option.map_eq_some_iff.mp ran
          cases same
          obtain ⟨view', chains', serves, holds', spared⟩ := holds.step first
          obtain ⟨view'', chains'', rest, holds'', spared', next⟩ := inductionHypothesis holds' ran'
          exact ⟨view'', chains'', .cons serves rest, holds'', spared.trans spared', next⟩

theorem shortTable_tabular : (shortTable 200).layout.Tabular := ⟨by decide, fun _ => by decide⟩

/-- A small volume without files. -/
def emptyVolume : Volume where
  table :=
    { layout := (shortTable 200).layout
      tabular := shortTable_tabular
      buffer := none
      copies := fun _ i => if i < 3 then 0xff else 0
      mem := AllocOracle.always
      reads := Stream'.const none
      writes := Stream'.const none }
  clusters := fun _ _ => 0
  sectors := fun _ => 0
  root := none
  nodes := fun _ => none
  handles := []
  mem := AllocOracle.always

theorem emptyVolume_holds :
    emptyVolume.Holds { files := fun _ => none, handles := [] } fun _ => [] where
  fixed := ⟨⟨⟨by unfold Layout.Holds; decide, by decide⟩, by decide⟩, by decide, by decide⟩
  works := ⟨fun _ => rfl, rfl, rfl, by decide, fun _ _ => rfl⟩
  synced := nofun
  files idx := by
    refine ⟨nofun, fun isFile => ?_⟩
    have hidden : dentryIsVisible emptyVolume.sectors idx = false :=
      not_visible_of_free (decide_eq_true (Or.inl rfl))
    exact absurd (isFile.visible.symm.trans hidden) (by decide)
  stored := nofun
  apart := nofun
  nodes := nofun
  stands := nofun
  handles := rfl
  opened := nofun

/-- What is written is read after the volume has been mounted again. -/
theorem run_serves_mounted : ∃ after view' chains',
    ServesAll emptyVolume { files := fun _ => none, handles := [] }
      [.create ⟨[0x41], by decide⟩, .openFile 0 true true false, .write 0 [1, 2, 3], .close 0,
        .forget 0, .mount, .lookup 0, .openFile 0 true false false, .read 1 10]
      [.entry 0, .handle 0, .count 3, .done, .done, .done, .done, .handle 1, .bytes [1, 2, 3]]
      after view' ∧
    after.Holds view' chains' ∧
    Spared emptyVolume { files := fun _ => none, handles := [] } (fun _ => []) after view' chains' ∧
    ∀ request, view'.Admits after request → (step after request).isSome = true := by
  have ran : (run emptyVolume
      [.create ⟨[0x41], by decide⟩, .openFile 0 true true false, .write 0 [1, 2, 3], .close 0,
        .forget 0, .mount, .lookup 0, .openFile 0 true false false, .read 1 10]).map Prod.fst =
      some [.entry 0, .handle 0, .count 3, .done, .done, .done, .done, .handle 1,
        .bytes [1, 2, 3]] := by
    decide +kernel
  obtain ⟨⟨answers, after⟩, ran', rfl⟩ := Option.map_eq_some_iff.mp ran
  obtain ⟨view', chains', serves⟩ := run_serves emptyVolume_holds ran'
  exact ⟨after, view', chains', serves⟩

/-- Behind a truncation a write at the old position links a cluster that it does not write.  The
zeros that are read there are other bytes once the volume has been mounted again. -/
example : (run emptyVolume
    [.create ⟨[0x41], by decide⟩, .openFile 0 true true false, .openFile 0 true true false,
      .write 0 (List.replicate 513 7), .truncate 1 0, .write 0 [5], .read 1 2, .close 0, .close 1,
      .forget 0, .mount, .lookup 0, .openFile 0 true false false, .read 2 2]).map
      (fun outcome => (outcome.1.getD 6 .done, outcome.1.getD 13 .done)) =
    some (.bytes [0, 0], .bytes [7, 7]) := by
  decide +kernel

end Runs

end Opal.Fat
