import Opal.Cpio.Archive
import Opal.Dirent.Enumeration
import Opal.Fat.Names
import Opal.Fat.Readall
import Opal.Fat.Rounds

/-!
# Directories of the file systems

`iterate_dir` of a cpio archive walks the children of a node; those of a FAT volume read the
directory into a buffer once and walk its slots.  Each is a `Directory`, so that reads of a
handle enumerate it.
-/

namespace Opal.Dirent

section Cpio

inductive CpioError where
  | enotdir
  deriving DecidableEq, Repr

variable {γ : Type}

def cpioEntry (child : Cpio.Node) : Entry := .of child.attr.ino child.name child.attr.isDir

/-- The loop over the children of a node. -/
def cpioLoop (start : Nat) (callback : Callback γ) : Nat → List Cpio.Node → γ → γ
  | _, [], ctx => ctx
  | index, child :: rest, ctx =>
      if index < start then cpioLoop start callback (index + 1) rest ctx
      else
        match callback index (cpioEntry child) ctx with
        | (true, ctx) => cpioLoop start callback (index + 1) rest ctx
        | (false, ctx) => ctx

def cpioInodeIterateDir : IterateDir Cpio.Node CpioError := fun _ node start callback ctx =>
  if ¬node.attr.isDir then (.error .enotdir, ctx, node)
  else (.ok (), cpioLoop start callback 0 node.children ctx, node)

theorem cpioLoop_eq {callback : Callback γ} {start index : Nat} {children : List Cpio.Node}
    {ctx : γ} : cpioLoop start callback index children ctx =
      visitFrom start callback index (children.map cpioEntry) ctx := by
  induction children generalizing index ctx with
  | nil => rfl
  | cons child rest inductionHypothesis =>
      rw [cpioLoop, List.map_cons, visitFrom]
      split
      · exact inductionHypothesis
      · cases callback index (cpioEntry child) ctx with
        | mk onward ctx =>
            cases onward with
            | true => exact inductionHypothesis
            | false => rfl

theorem cpioInodeIterateDir_visits {node : Cpio.Node} (isDir : node.attr.isDir = true) :
    VisitsIn cpioInodeIterateDir node (node.children.map cpioEntry) node := by
  intro γ start callback ctx
  unfold cpioInodeIterateDir
  rw [if_neg (by simp [isDir]), cpioLoop_eq, visitFrom_eq (Nat.zero_le start), Nat.sub_zero]

def cpioDirectory : Directory Cpio.Node CpioError where
  iterateDir := cpioInodeIterateDir
  Valid node := node.attr.isDir = true
  Settled node := node.attr.isDir = true
  entries node := node.children.map cpioEntry
  answers node isDir := Or.inr ⟨node, isDir, isDir, cpioInodeIterateDir_visits isDir⟩
  settled _ isDir := cpioInodeIterateDir_visits isDir

end Cpio

section Slots

/-- The fields of `struct fat_dentry` that a listing reads. -/
structure FatDentry where
  name : List UInt8
  attr : Nat
  deriving DecidableEq, Repr

/-- `sizeof(struct fat_dentry)`. -/
def fatDentrySize : Nat := 32

/-- `dentries[idx]`. -/
def fatDentryAt (dentries : Memory) (idx : Nat) : FatDentry where
  name := (List.range 11).map fun i => dentries (fatDentrySize * idx + i)
  attr := (dentries (fatDentrySize * idx + 11)).toNat

def dentryIsEnd (dentry : FatDentry) : Bool := dentry.name.headD 0 = 0

def dentryIsSpecial (dentry : FatDentry) : Bool :=
  dentry.name.headD 0 = 0xe5 || dentry.name.headD 0 = Fat.dot ||
    dentry.attr &&& Fat.fatAttrVlabel ≠ 0

/-- The entry of a slot.  The assertion that the name is short holds of every slot, as
`length_extractFilename_le` says. -/
def fatEntry (idx : Nat) (dentry : FatDentry) : Entry :=
  .of idx (Fat.extractFilename dentry.name) (dentry.attr &&& Fat.fatAttrDirectory ≠ 0)

variable {γ : Type}

/-- The loop of `dentry_iterate` over the slots that are left. -/
def dentryLoop (dentries : Memory) (start : Nat) (callback : Callback γ) :
    Nat → Nat → Nat → γ → γ
  | 0, _, _, ctx => ctx
  | left + 1, idx, index, ctx =>
      let dentry := fatDentryAt dentries idx
      if dentryIsEnd dentry then ctx
      else if dentryIsSpecial dentry then
        dentryLoop dentries start callback left (idx + 1) index ctx
      else if index < start then
        dentryLoop dentries start callback left (idx + 1) (index + 1) ctx
      else
        match callback index (fatEntry idx dentry) ctx with
        | (true, ctx) => dentryLoop dentries start callback left (idx + 1) (index + 1) ctx
        | (false, ctx) => ctx

def dentryIterate (dentries : Memory) (count start : Nat) (callback : Callback γ) (ctx : γ) : γ :=
  dentryLoop dentries start callback count 0 0 ctx

/-- The entries of the slots from `idx` on. -/
def slots (dentries : Memory) : Nat → Nat → List Entry
  | 0, _ => []
  | left + 1, idx =>
      let dentry := fatDentryAt dentries idx
      if dentryIsEnd dentry then []
      else if dentryIsSpecial dentry then slots dentries left (idx + 1)
      else fatEntry idx dentry :: slots dentries left (idx + 1)

variable {dentries : Memory} {start index left idx : Nat} {callback : Callback γ} {ctx : γ}

theorem dentryLoop_eq : dentryLoop dentries start callback left idx index ctx =
    visitFrom start callback index (slots dentries left idx) ctx := by
  induction left generalizing idx index ctx with
  | zero => rfl
  | succ left inductionHypothesis =>
      rw [dentryLoop, slots]
      split
      · rfl
      split
      · exact inductionHypothesis
      · rw [visitFrom]
        split
        · exact inductionHypothesis
        · cases callback index (fatEntry idx (fatDentryAt dentries idx)) ctx with
          | mk onward ctx =>
              cases onward with
              | true => exact inductionHypothesis
              | false => rfl

theorem dentryIterate_eq {count : Nat} : dentryIterate dentries count start callback ctx =
    visit callback start ((slots dentries count 0).drop start) ctx := by
  rw [dentryIterate, dentryLoop_eq, visitFrom_eq (Nat.zero_le start), Nat.sub_zero]

/-- A name fits into `shortname`. -/
theorem length_extractFilename_le (name : List UInt8) :
    (Fat.extractFilename name).length ≤ 22 := by
  have base : ((name.take 8).rdropWhile (· = Fat.blank)).length ≤ 8 := by
    refine Nat.le_trans (List.rdropWhile_prefix _ _).length_le ?_
    rw [List.length_take]
    exact Nat.min_le_left _ _
  have ext : (((name.drop 8).take 3).rdropWhile (· = Fat.blank)).length ≤ 3 := by
    refine Nat.le_trans (List.rdropWhile_prefix _ _).length_le ?_
    rw [List.length_take]
    exact Nat.min_le_left _ _
  refine Nat.le_trans (List.takeWhile_prefix _).length_le ?_
  unfold Fat.extractBytes
  dsimp only
  split
  · rw [List.length_take]
    omega
  · simp only [List.length_append, List.length_take, List.length_singleton]
    omega

end Slots

section Root

/-- `struct fat_root_inode` with the sectors of the directory on the device and the outcomes
of the coming allocations and reads. -/
structure RootInode where
  sectors : Memory
  entries : Nat
  buffer : Option Memory
  mem : AllocOracle
  reads : Stream' (Option Fat.TransferError)

/-- `root_inode_readall`. -/
def rootInodeReadall (inode : RootInode) : Except Fat.Fault Memory × RootInode :=
  match inode.buffer with
  | some buffer => (.ok buffer, inode)
  | none =>
      let after := { inode with mem := inode.mem.tail }
      if inode.mem.head then
        let after := { after with reads := inode.reads.tail }
        match inode.reads.head with
        | none => (.ok inode.sectors, { after with buffer := some inode.sectors })
        | some error => (.error error.fault, after)
      else (.error .enomem, after)

def rootInodeIterateDir : IterateDir RootInode Fat.Fault := fun _ inode start callback ctx =>
  match rootInodeReadall inode with
  | (.error fault, after) => (.error fault, ctx, after)
  | (.ok buffer, after) => (.ok (), dentryIterate buffer inode.entries start callback ctx, after)

/-- The slots of the buffer, once there is one. -/
def RootInode.slots (inode : RootInode) : List Entry :=
  Dirent.slots (inode.buffer.getD inode.sectors) inode.entries 0

theorem rootInodeReadall_ok {inode after : RootInode} {buffer : Memory}
    (read : rootInodeReadall inode = (.ok buffer, after)) :
    after.buffer = some buffer ∧ after.entries = inode.entries := by
  unfold rootInodeReadall at read
  cases present : inode.buffer with
  | some _ =>
      rw [present] at read
      cases read
      exact ⟨present, rfl⟩
  | none =>
      rw [present] at read
      dsimp only at read
      split at read
      · split at read
        · cases read
          exact ⟨rfl, rfl⟩
        · cases read
      · cases read

def rootDirectory : Directory RootInode Fat.Fault where
  iterateDir := rootInodeIterateDir
  Valid _ := True
  Settled inode := inode.buffer.isSome = true
  entries := RootInode.slots
  answers := by
    intro inode _
    rcases read : rootInodeReadall inode with ⟨fault | buffer, after⟩
    · refine Or.inl ⟨fault, after, trivial, fun γ start callback ctx => ?_⟩
      rw [rootInodeIterateDir, read]
    · obtain ⟨present, same⟩ := rootInodeReadall_ok read
      refine Or.inr ⟨after, trivial, by rw [present]; rfl, fun γ start callback ctx => ?_⟩
      rw [rootInodeIterateDir, read]
      dsimp only
      rw [dentryIterate_eq, RootInode.slots, present, same]
      rfl
  settled := by
    intro inode settled γ start callback ctx
    obtain ⟨buffer, present⟩ := Option.isSome_iff_exists.mp settled
    rw [rootInodeIterateDir, rootInodeReadall, present]
    dsimp only
    rw [dentryIterate_eq, RootInode.slots, present]
    rfl

end Root

section Inode

/-- `fat_inode_iterate_dir`. -/
def fatInodeIterateDir : IterateDir Fat.Inode Fat.Fault := fun _ inode start callback ctx =>
  if inode.dentry.any fun dentry => dentry.attr &&& Fat.fatAttrDirectory = 0 then
    (.error .enotdir, ctx, inode)
  else
    match Fat.fatInodeReadall inode with
    | (.error fault, after) => (.error fault, ctx, after)
    | (.ok _, after) =>
        (.ok (), dentryIterate after.cached (after.filesize / fatDentrySize) start callback ctx,
          after)

/-- The root of a FAT32 volume, or an inode whose entry is that of a directory. -/
def IsFatDir (inode : Fat.Inode) : Prop :=
  ∀ dentry ∈ inode.dentry, dentry.attr &&& Fat.fatAttrDirectory ≠ 0

def fatSlots (inode : Fat.Inode) : List Entry :=
  slots inode.cached (inode.filesize / fatDentrySize) 0

theorem IsFatDir.any_eq {inode : Fat.Inode} (isDir : IsFatDir inode) :
    inode.dentry.any (fun dentry => dentry.attr &&& Fat.fatAttrDirectory = 0) = false := by
  cases given : inode.dentry with
  | none => rfl
  | some dentry => exact decide_eq_false (isDir dentry given)

theorem fatInodeIterateDir_of_ok {inode after : Fat.Inode} (isDir : IsFatDir inode)
    (read : Fat.fatInodeReadall inode = (.ok (), after)) :
    VisitsIn fatInodeIterateDir inode (fatSlots after) after := by
  intro γ start callback ctx
  rw [fatInodeIterateDir, isDir.any_eq, if_neg (by decide), read]
  dsimp only
  rw [dentryIterate_eq, fatSlots]

theorem fatInodeIterateDir_of_error {inode after : Fat.Inode} {fault : Fat.Fault}
    (isDir : IsFatDir inode) (read : Fat.fatInodeReadall inode = (.error fault, after)) :
    FailsIn fatInodeIterateDir inode fault after := by
  intro γ start callback ctx
  rw [fatInodeIterateDir, isDir.any_eq, if_neg (by decide), read]

def fatDirectory : Directory Fat.Inode Fat.Fault where
  iterateDir := fatInodeIterateDir
  Valid inode := IsFatDir inode ∧ 0 < inode.layout.bpc
  Settled inode := IsFatDir inode ∧ inode.Settled
  entries := fatSlots
  answers := by
    rintro inode ⟨isDir, positive⟩
    have rests := Fat.fatInodeReadall_looks inode
    rcases read : Fat.fatInodeReadall inode with ⟨fault | _, after⟩
    · rw [read] at rests
      refine Or.inl ⟨fault, after, ⟨?_, ?_⟩, fatInodeIterateDir_of_error isDir read⟩
      · rwa [IsFatDir, rests.dentry]
      · rwa [rests.layout]
    · rw [read] at rests
      have isDir' : IsFatDir after := by rwa [IsFatDir, rests.dentry]
      refine Or.inr ⟨after, ⟨isDir', by rwa [rests.layout]⟩,
        ⟨isDir', Fat.settled_of_fatInodeReadall positive read⟩,
        fatInodeIterateDir_of_ok isDir read⟩
  settled := fun _ settled => fatInodeIterateDir_of_ok settled.1 settled.2.fatInodeReadall_eq

end Inode

section Mounted

/-- A handle of a directory that was just opened for reading. -/
def opened {σ : Type} (inode : σ) : File σ where
  readable := true
  isDir := true
  pos := 0
  inode

theorem bpc_pos {bdevSectors : Nat} {bpb : Fat.Bpb} {layout : Fat.Layout}
    (parsed : Fat.parseBpb bdevSectors bpb = some layout) : 0 < layout.bpc := by
  unfold Fat.parseBpb at parsed
  split at parsed
  · rename_i accepted
    cases parsed
    have bytes := accepted.bps
    have sectors := accepted.spc
    simp only [Fat.isValidBps, decide_eq_true_eq] at bytes
    simp only [Fat.ispower2, decide_eq_true_eq] at sectors
    exact Nat.mul_pos (by change 0 < bpb.bytesPerSector; omega) (Nat.pos_of_ne_zero sectors.1)
  · cases parsed

/-- Reads on a directory of a cpio archive, a fixed root directory and a directory in the
clusters of a FAT volume enumerate the directory.  A read of no bytes returns zero anywhere. -/
theorem fileRead_enumerates :
    (∀ (node : Cpio.Node) (ops : Ops Cpio.Node CpioError) (requests : List Request),
      node.attr.isDir = true → ops.iterateDir = some cpioInodeIterateDir →
        Enumerates ops cpioInodeIterateDir (node.children.map cpioEntry) (opened node) requests) ∧
    (∀ (inode : RootInode) (ops : Ops RootInode Fat.Fault) (requests : List Request),
      ops.iterateDir = some rootInodeIterateDir → ∃ entries,
        Enumerates ops rootInodeIterateDir entries (opened inode) requests) ∧
    (∀ (inode : Fat.Inode) (ops : Ops Fat.Inode Fat.Fault) (requests : List Request)
      (bdevSectors : Nat) (bpb : Fat.Bpb), Fat.parseBpb bdevSectors bpb = some inode.layout →
        IsFatDir inode → ops.iterateDir = some fatInodeIterateDir → ∃ entries,
          Enumerates ops fatInodeIterateDir entries (opened inode) requests) := by
  refine ⟨?_, ?_, ?_⟩
  · intro node ops requests isDir iterates
    obtain ⟨entries, enumerates⟩ :=
      @Directory.enumerates _ _ cpioDirectory ops (opened node) iterates rfl rfl rfl isDir requests
    have same := enumerates.here _ _ (cpioInodeIterateDir_visits isDir).collect_eq
    rwa [same]
  · intro inode ops requests iterates
    exact @Directory.enumerates _ _ rootDirectory ops (opened inode) iterates rfl rfl rfl trivial
      requests
  · intro inode ops requests bdevSectors bpb parsed isDir iterates
    exact @Directory.enumerates _ _ fatDirectory ops (opened inode) iterates rfl rfl rfl
      ⟨isDir, bpc_pos parsed⟩ requests

/-- A directory with one file. -/
def oneChild : Cpio.Node :=
  .mk [] { ino := 1, isDir := true, explicit := true, data := none, size := 0 }
    [.mk [0x61] { ino := 2, isDir := false, explicit := true, data := some 0, size := 0 } []]

/-- The operations of a directory; no read of bytes goes to it. -/
def directoryOps {σ ε : Type} (iterateDir : IterateDir σ ε) : Ops σ ε where
  iterateDir := some iterateDir
  read inode pos buffer _ := (.ok 0, pos, buffer, inode)

/-- The slot of a file `A`, with zeros behind it. -/
def slotOfA : Memory := fun i =>
  ([0x41, 0x20, 0x20, 0x20, 0x20, 0x20, 0x20, 0x20, 0x20, 0x20, 0x20, 0x20] : List UInt8).getD i 0

def rootOfA : RootInode where
  sectors := slotOfA
  entries := 16
  buffer := none
  mem := .always
  reads := Stream'.const none

/-- A directory in one cluster of a small volume. -/
def directoryOfA : Fat.Inode :=
  { Fat.smallFile 2 512 [0xf8, 0xff, 0xff, 0xff, 0x0f] with
    dentry := some { attr := 0x10, firstCluster := 2, fileSize := 0 }
    buffer := some slotOfA }

/-- A read whose buffer is too small, one that takes a record, and one at the end. -/
def threeRequests : List Request :=
  [{ buffer := fun _ => 0, size := 4 }, { buffer := fun _ => 0, size := 12 },
    { buffer := fun _ => 0, size := 12 }]

theorem fileRead_enumerates_threeRequests :
    Enumerates (directoryOps cpioInodeIterateDir) cpioInodeIterateDir
        (oneChild.children.map cpioEntry) (opened oneChild) threeRequests ∧
      (∃ entries, entries.map Entry.seen = [([0x41], 0)] ∧
        Enumerates (directoryOps rootInodeIterateDir) rootInodeIterateDir entries
          (opened rootOfA) threeRequests) ∧
      ∃ entries, entries.map Entry.seen = [([0x41], 0)] ∧
        Enumerates (directoryOps fatInodeIterateDir) fatInodeIterateDir entries
          (opened directoryOfA) threeRequests := by
  have parsed : Fat.parseBpb 200 (Fat.shortTable 200) = some directoryOfA.layout :=
    if_pos (by decide)
  have isDir : IsFatDir directoryOfA := by
    rintro dentry ⟨⟩
    decide
  obtain ⟨cpio, root, fat⟩ := fileRead_enumerates
  obtain ⟨rootEntries, root⟩ :=
    root rootOfA (directoryOps rootInodeIterateDir) threeRequests rfl
  obtain ⟨fatEntries, fat⟩ :=
    fat directoryOfA (directoryOps fatInodeIterateDir) threeRequests 200 _ parsed isDir rfl
  refine ⟨cpio _ _ _ rfl rfl, ⟨rootEntries, ?_, root⟩, ⟨fatEntries, ?_, fat⟩⟩
  · rw [← root.here _ _ rfl]
    rfl
  · rw [← fat.here _ _ rfl]
    rfl

/-- A buffer of no bytes holds no record, and is not refused. -/
theorem not_refused_empty :
    ¬∀ (node : Cpio.Node) (ops : Ops Cpio.Node CpioError) (request : Request),
      node.attr.isDir = true → ops.iterateDir = some cpioInodeIterateDir →
        ∀ entry ∈ (node.children.map cpioEntry).head?, request.size < entry.size →
          (answerOf ops (opened node) request).result = .error .ebufsize := by
  intro always
  have refused := always oneChild
    { iterateDir := some cpioInodeIterateDir
      read := fun node pos buffer _ => (.ok 0, pos, buffer, node) }
    { buffer := fun _ => 0, size := 0 } rfl rfl (cpioEntry (oneChild.children.head (by decide)))
    rfl (by decide)
  cases refused

end Mounted

end Opal.Dirent
