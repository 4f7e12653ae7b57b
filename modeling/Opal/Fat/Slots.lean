import Opal.Fat.Volume

/-!
# The slots of the root directory

An entry is written in its own slot, and the buffer of the directory is what the device holds of
it.  A slot that is given to a new file was in use by none.
-/

namespace Opal.Fat

open Dirent (fatDentrySize fatDentryAt dentryIsEnd dentryIsSpecial)

section Entries

variable {root root' sectors : Memory} {idx other entries : Nat} {dentry : Dentry} {bytes : Memory}

/-- Two directories have the same entry. -/
def SameSlot (root root' : Memory) (idx : Nat) : Prop :=
  ∀ i < fatDentrySize, root (fatDentrySize * idx + i) = root' (fatDentrySize * idx + i)

/-- Two directories have the same entries. -/
def SameSlots (entries : Nat) (root root' : Memory) : Prop :=
  ∀ i < fatDentrySize * entries, root i = root' i

theorem SameSlots.slot (same : SameSlots entries root root') (inside : idx < entries) :
    SameSlot root root' idx := by
  intro i less
  apply same
  unfold fatDentrySize at *
  omega

theorem SameSlot.symm (same : SameSlot root root' idx) : SameSlot root' root idx :=
  fun i less => (same i less).symm

theorem getDentry_eq (same : ∀ i < fatDentrySize, root (fatDentrySize * idx + i) = bytes i) :
    getDentry root idx = Dentry.ofBytes bytes := by
  have same' : ∀ i < 32, dentryBytes root idx i = bytes i := same
  unfold getDentry Dentry.ofBytes
  congr 1
  · rw [same' 11 (by decide)]
  · exact Memory.word_congr fun i less => same' (26 + i) (by omega)
  · exact Memory.word_congr fun i less => same' (28 + i) (by omega)

theorem SameSlot.getDentry (same : SameSlot root root' idx) :
    getDentry root idx = getDentry root' idx := getDentry_eq same

/-- Whether an entry is listed depends on its name and its attributes. -/
theorem dentryIsVisible_congr (same : ∀ i < 12, root (fatDentrySize * idx + i) =
    root' (fatDentrySize * idx + i)) : dentryIsVisible root idx = dentryIsVisible root' idx := by
  have entry : fatDentryAt root idx = fatDentryAt root' idx := by
    unfold fatDentryAt
    congr 1
    · refine List.map_congr_left fun i member => same i ?_
      exact (List.mem_range.mp member).trans (by decide)
    · rw [same 11 (by decide)]
  unfold dentryIsVisible
  rw [entry]

theorem SameSlot.isVisible (same : SameSlot root root' idx) :
    dentryIsVisible root idx = dentryIsVisible root' idx :=
  dentryIsVisible_congr fun i less => same i (less.trans (by decide))

/-- A free slot is no entry. -/
theorem not_visible_of_free (free : dentryIsFree root idx = true) :
    dentryIsVisible root idx = false := by
  have head : (fatDentryAt root idx).name.headD 0 = root (fatDentrySize * idx) := rfl
  unfold dentryIsVisible dentryIsEnd dentryIsSpecial
  rw [head]
  rcases of_decide_eq_true free with deleted | deleted <;> rw [deleted] <;> rfl

theorem SameSlot.isFree (same : SameSlot root root' idx) :
    dentryIsFree root idx = dentryIsFree root' idx := by
  have head : root (fatDentrySize * idx) = root' (fatDentrySize * idx) := same 0 (by decide)
  unfold dentryIsFree
  rw [head]

/-- The fields of an entry are read as they were written. -/
theorem Dentry.ofBytes_intoBytes (attr : dentry.attr = (bytes 11).toNat)
    (first : dentry.firstCluster < 2 ^ 16) (size : dentry.fileSize < 2 ^ 32) :
    Dentry.ofBytes (dentry.intoBytes bytes) = dentry := by
  have attr' : (dentry.intoBytes bytes 11).toNat = dentry.attr := by
    unfold Dentry.intoBytes
    rw [Memory.copyInto_outside (by decide), Memory.copyInto_outside (by decide), attr]
  have first' : (dentry.intoBytes bytes).word 26 2 = dentry.firstCluster := by
    unfold Dentry.intoBytes
    rw [Dirent.word_copyInto_outside (by decide), Dirent.word_copyInto first]
  have size' : (dentry.intoBytes bytes).word 28 4 = dentry.fileSize :=
    Dirent.word_copyInto size
  unfold Dentry.ofBytes
  rw [attr', first', size']

/-- Only the fields that are written differ. -/
theorem Dentry.intoBytes_same {i : Nat} (before : i < 26) : dentry.intoBytes bytes i = bytes i := by
  unfold Dentry.intoBytes
  rw [Memory.copyInto_outside (by omega), Memory.copyInto_outside (by omega)]

theorem getDentry_fits (root : Memory) (idx : Nat) :
    (getDentry root idx).firstCluster < 2 ^ 16 ∧ (getDentry root idx).fileSize < 2 ^ 32 :=
  ⟨Memory.word_lt 2, Memory.word_lt 4⟩

end Entries

section Writing

variable {v : Volume} {root dentry : Memory} {idx : Nat}

/-- What an entry that has been written leaves of the directory. -/
structure Writes (v : Volume) (idx : Nat) (dentry buffer sectors : Memory) : Prop where
  synced : SameSlots v.layout.rootEntries buffer sectors
  others : ∀ other < v.layout.rootEntries, other ≠ idx → SameSlot sectors v.sectors other
  written : ∀ i < fatDentrySize, sectors (fatDentrySize * idx + i) = dentry i

theorem rootInodeReadall_of_some (present : v.root = some root) :
    rootInodeReadall v = (.ok root, v) := by
  obtain ⟨table, clusters, sectors, buffer, nodes, handles, mem⟩ := v
  cases present
  rfl

/-- The sector of an entry holds what the buffer holds. -/
theorem sector_synced {entries : Nat} {sectors : Memory}
    (synced : SameSlots entries root sectors) :
    SameSlots entries (root.copyInto (fatDentrySize * idx) fatDentrySize dentry)
      (sectors.copyInto (fatDentrySize * idx / diskSectorSize * diskSectorSize) diskSectorSize
        ((root.copyInto (fatDentrySize * idx) fatDentrySize dentry).region
          (fatDentrySize * idx / diskSectorSize * diskSectorSize))) := by
  intro i less
  by_cases sector : fatDentrySize * idx / diskSectorSize * diskSectorSize ≤ i ∧
      i < fatDentrySize * idx / diskSectorSize * diskSectorSize + diskSectorSize
  · obtain ⟨k, rfl⟩ := Nat.exists_eq_add_of_le sector.1
    rw [Memory.copyInto_inside (by omega)]
    rfl
  · have outside : i < fatDentrySize * idx ∨ fatDentrySize * idx + fatDentrySize ≤ i := by
      unfold fatDentrySize diskSectorSize at *
      omega
    rw [Memory.copyInto_outside outside, Memory.copyInto_outside (by omega)]
    exact synced i less

theorem rootInodeWriteDentry_writes (present : v.root = some root)
    (synced : SameSlots v.layout.rootEntries root v.sectors)
    (inside : idx < v.layout.rootEntries) :
    ∃ buffer sectors, rootInodeWriteDentry dentry idx v =
        (.ok (), { v with root := some buffer, sectors := sectors }) ∧
      Writes v idx dentry buffer sectors := by
  have synced' := @sector_synced root dentry idx _ _ synced
  refine ⟨_, _, ?_, synced', fun other bound differs i less => ?_, fun i less => ?_⟩
  · rw [rootInodeWriteDentry, Op.run_bind_ok (rootInodeReadall_of_some present), Op.run_get_bind,
      if_neg (by omega), if_neg (by omega)]
    rfl
  · have place : fatDentrySize * other + i < fatDentrySize * v.layout.rootEntries := by
      unfold fatDentrySize at *
      omega
    rw [← synced' _ place, ← synced _ place]
    apply Memory.copyInto_outside
    unfold fatDentrySize at *
    omega
  · have place : fatDentrySize * idx + i < fatDentrySize * v.layout.rootEntries := by
      unfold fatDentrySize at *
      omega
    rw [← synced' _ place]
    exact Memory.copyInto_inside less

variable {dentry' : Dentry} {inode : Inode}

/-- What an entry with other fields leaves of the directory. -/
structure Recorded (v : Volume) (idx : Nat) (dentry' : Dentry) (buffer sectors : Memory) :
    Prop where
  synced : SameSlots v.layout.rootEntries buffer sectors
  others : ∀ other < v.layout.rootEntries, other ≠ idx → SameSlot sectors v.sectors other
  entry : getDentry sectors idx = dentry'
  visible : dentryIsVisible sectors idx = dentryIsVisible v.sectors idx

theorem rootInodeWriteDentry_recorded (present : v.root = some root)
    (synced : SameSlots v.layout.rootEntries root v.sectors) (inside : idx < v.layout.rootEntries)
    (attr : dentry'.attr = (getDentry root idx).attr) (first : dentry'.firstCluster < 2 ^ 16)
    (size : dentry'.fileSize < 2 ^ 32) :
    ∃ buffer sectors, rootInodeWriteDentry (dentry'.intoBytes (dentryBytes root idx)) idx v =
        (.ok (), { v with root := some buffer, sectors := sectors }) ∧
      Recorded v idx dentry' buffer sectors := by
  obtain ⟨buffer, sectors, ran, synced', others, written⟩ :=
    @rootInodeWriteDentry_writes v root (dentry'.intoBytes (dentryBytes root idx)) idx present
      synced inside
  refine ⟨buffer, sectors, ran, synced', others, ?_, ?_⟩
  · rw [getDentry_eq written, Dentry.ofBytes_intoBytes attr first size]
  · refine dentryIsVisible_congr fun i less => ?_
    rw [written i (less.trans (by decide)), Dentry.intoBytes_same (by omega)]
    exact synced.slot inside i (less.trans (by decide))

/-- The entry behind a write. -/
theorem recorded_recorded (present : v.root = some root)
    (synced : SameSlots v.layout.rootEntries root v.sectors) (inside : idx < v.layout.rootEntries)
    (held : inode.dentry = some dentry') (attr : dentry'.attr = (getDentry root idx).attr)
    (first : dentry'.firstCluster < 2 ^ 16) (size : dentry'.fileSize < 2 ^ 32) :
    ∃ buffer sectors, v.recorded idx root inode =
        { v with root := some buffer, sectors := sectors } ∧
      Recorded v idx dentry' buffer sectors := by
  unfold Volume.recorded
  rw [held]
  dsimp only
  by_cases same : dentry' = getDentry root idx
  · rw [if_pos same]
    refine ⟨root, v.sectors, by rw [← present], synced, fun _ _ _ _ _ => rfl, ?_, rfl⟩
    rw [same]
    exact (synced.slot inside).symm.getDentry
  · obtain ⟨buffer, sectors, ran, recorded⟩ :=
      rootInodeWriteDentry_recorded present synced inside attr first size
    rw [if_neg same, ran]
    exact ⟨buffer, sectors, rfl, recorded⟩

end Writing

section Names

variable {out : List UInt8} {idx : Nat}

/-- A name that is taken has a first character that marks no entry. -/
theorem packFilename_head (name : FileName) (packed : packFilename name.1 = some out) :
    out.getD 0 0 ≠ 0 ∧ out.getD 0 0 ≠ 0xe5 ∧ out.getD 0 0 ≠ dot := by
  have allowed {ch : UInt8} (accepts : taken ch) (member : ch ∈ name.1) :
      ch ≠ 0 ∧ ch ≠ 0xe5 ∧ ch ≠ dot := by
    have form := (taken_iff.mp accepts).resolve_right fun zero => name.2 (zero ▸ member)
    refine ⟨form.facts.1, ?_, form.facts.2.2.1⟩
    rintro rfl
    exact absurd form (by decide)
  have padded {base ext : List UInt8} (accepts : ∀ ch ∈ base, taken ch)
      (within : ∀ ch ∈ base, ch ∈ name.1) :
      (pad 8 base ++ ext).getD 0 0 ≠ 0 ∧ (pad 8 base ++ ext).getD 0 0 ≠ 0xe5 ∧
        (pad 8 base ++ ext).getD 0 0 ≠ dot := by
    cases base with
    | nil =>
        have head : (pad 8 [] ++ ext).getD 0 0 = blank := rfl
        rw [head]
        decide
    | cons ch rest =>
        exact allowed (accepts ch List.mem_cons_self) (within ch List.mem_cons_self)
  generalize same : name.1 = chars at packed
  cases packFilename_eq_some_iff.mp packed with
  | plain nonempty short accepts => exact padded accepts fun ch member => same ▸ member
  | dotted short accepts stops shortExt allowedExt =>
      exact padded accepts fun ch member => same ▸ List.mem_append_left _ member

/-- The entry of a new file is one of an empty file. -/
theorem newDentry_isFile (name : FileName) (packed : packFilename name.1 = some out)
    {root : Memory} (written : ∀ i < fatDentrySize, root (fatDentrySize * idx + i) =
      newDentry out i) :
    dentryIsVisible root idx = true ∧
      getDentry root idx = { attr := 0, firstCluster := 0, fileSize := 0 } := by
  obtain ⟨notEnd, notDeleted, notDot⟩ := packFilename_head name packed
  have head : (fatDentryAt root idx).name.headD 0 = out.getD 0 0 := written 0 (by decide)
  have zero {i : Nat} (low : 11 ≤ i) (high : i < fatDentrySize) :
      root (fatDentrySize * idx + i) = 0 := by
    rw [written i high, newDentry, if_neg (Nat.not_lt.mpr low)]
  have attr : (fatDentryAt root idx).attr = 0 :=
    congrArg UInt8.toNat (zero (i := 11) le_rfl (by decide))
  refine ⟨?_, ?_⟩
  · unfold dentryIsVisible dentryIsEnd dentryIsSpecial
    rw [head, attr, decide_eq_false notEnd, decide_eq_false notDeleted, decide_eq_false notDot]
    rfl
  · have first : (dentryBytes root idx).word 26 2 = Memory.word (fun _ => 0) 26 2 :=
      Memory.word_congr fun i less => zero (i := 26 + i) (by omega) (by unfold fatDentrySize; omega)
    have size : (dentryBytes root idx).word 28 4 = Memory.word (fun _ => 0) 28 4 :=
      Memory.word_congr fun i less => zero (i := 28 + i) (by omega) (by unfold fatDentrySize; omega)
    unfold getDentry Dentry.ofBytes
    rw [first, size]
    have byte : (dentryBytes root idx 11).toNat = 0 := attr
    rw [byte]
    rfl

end Names

end Opal.Fat
