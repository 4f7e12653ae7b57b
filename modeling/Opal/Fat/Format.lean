import Opal.Fat.Sizing
import Opal.Basic
import Mathlib.Logic.Function.Basic

/-!
# Formatting a volume

`fat_format` performs a fixed list of sector writes that depends on the layout only and
stops at the first one that fails.  On a FAT12 or FAT16 layout the regions of the volume
lie side by side, so the FATs keep what was written to them.
-/

namespace Opal.Fat

section Writes

/-- The contents of a sector: a boot sector with its parameter block, the FAT32
information sector, or plain bytes. -/
inductive Sector where
  | boot (bpb : Bpb)
  | fsinfo
  | bytes (data : List Nat)
  deriving DecidableEq, Repr

abbrev Disk := Nat → Sector

def fat32FsinfoSector : Nat := 1
def fat32BackupBootSector : Nat := 6
def fat32BackupFsinfoSector : Nat := 7
def media : Nat := 0xf8

def emptySector : Sector := .bytes (List.replicate diskSectorSize 0)

/-- The first sector of a FAT, with the two reserved entries and, for FAT32, the end of
the root directory. -/
def firstFatSector (bits : Nat) : Sector :=
  let entries :=
    if bits = 12 then [media, 0xff, 0xff]
    else if bits = 16 then [media, 0xff, 0xff, 0xff]
    else [media, 0xff, 0xff, 0x0f, 0xff, 0xff, 0xff, 0x0f, 0xff, 0xff, 0xff, 0x0f]
  .bytes (entries ++ List.replicate (diskSectorSize - entries.length) 0)

def writeVbr (layout : Layout) : List (Nat × Sector) :=
  (0, .boot (setupBpb layout)) ::
    if layout.bits = 32 then [(fat32BackupBootSector, .boot (setupBpb layout))] else []

def writeFsinfo : List (Nat × Sector) :=
  [(fat32FsinfoSector, .fsinfo), (fat32BackupFsinfoSector, .fsinfo)]

/-- The loop of `write_fats` over the copies that are left. -/
def writeFatCopies (first : Sector) (fatSectors : Nat) : Nat → Nat → List (Nat × Sector)
  | 0, _ => []
  | copies + 1, fatOffset =>
      (fatOffset, first) ::
        ((List.range (fatSectors - 1)).map fun i => (fatOffset + 1 + i, emptySector)) ++
        writeFatCopies first fatSectors copies (fatOffset + 1 + (fatSectors - 1))

def writeFats (layout : Layout) : List (Nat × Sector) :=
  writeFatCopies (firstFatSector layout.bits) layout.fatSectors layout.numFats
    layout.reservedSectors

/-- Where `write_root` starts and how many sectors it clears. -/
def rootRange (layout : Layout) : Nat × Nat :=
  match layout.root with
  | .cluster _ => (layout.dataOffset, layout.sectorsPerCluster)
  | .fixed rootOffset rootEntries =>
      (rootOffset, (rootEntries * 32 + diskSectorSize - 1) / diskSectorSize)

def writeRoot (layout : Layout) : List (Nat × Sector) :=
  (List.range (rootRange layout).2).map fun i => ((rootRange layout).1 + i, emptySector)

def formatWrites (layout : Layout) : List (Nat × Sector) :=
  writeVbr layout ++ (if layout.bits = 32 then writeFsinfo else []) ++ writeFats layout ++
    writeRoot layout

/-- Performs the writes up to the first one that fails.  The oracle holds the outcomes
of the disk requests. -/
def performWrites : List (Nat × Sector) → Disk → AllocOracle → Bool × Disk
  | [], disk, _ => (true, disk)
  | (lba, sector) :: rest, disk, io =>
      if io.head then performWrites rest (Function.update disk lba sector) io.tail
      else (false, disk)

inductive Status where
  | ok
  | invalid
  | noMemory
  | tooBig
  | ioError
  deriving DecidableEq, Repr

/-- `fat_format`; `sbOut` and `sb` say whether there is a place for the result and whether the
superblock could be allocated. -/
def fatFormat (sbOut sb : Bool) (bdevSectors : Nat) (disk : Disk) (io : AllocOracle) :
    Status × Disk :=
  if ¬ sbOut then (.invalid, disk)
  else if ¬ sb then (.noMemory, disk)
  else if bdevSectors > uint32Max then (.tooBig, disk)
  else
    match setupLayout bdevSectors with
    | none => (.tooBig, disk)
    | some layout =>
        let result := performWrites (formatWrites layout) disk io
        (if result.1 then .ok else .ioError, result.2)

end Writes

section Contents

/-- A sector holds what every write to it stored, when there was one. -/
theorem performWrites_spec {writes : List (Nat × Sector)} {disk : Disk} {io : AllocOracle}
    (succeeds : io.Succeeds) {lba : Nat} {sector : Sector}
    (same : ∀ write ∈ writes, write.1 = lba → write.2 = sector)
    (written : (∃ write ∈ writes, write.1 = lba) ∨ disk lba = sector) :
    (performWrites writes disk io).1 = true ∧ (performWrites writes disk io).2 lba = sector := by
  induction writes generalizing disk io with
  | nil =>
    refine ⟨rfl, written.resolve_left ?_⟩
    rintro ⟨write, mem, -⟩
    cases mem
  | cons write rest ih =>
    have sameRest : ∀ w ∈ rest, w.1 = lba → w.2 = sector :=
      fun w mem => same w (List.mem_cons_of_mem _ mem)
    rw [performWrites, if_pos succeeds.head]
    apply ih succeeds.tail sameRest
    by_cases here : write.1 = lba
    · right
      rw [← here, Function.update_self]
      exact same write List.mem_cons_self here
    · rcases written with ⟨w, mem, at'⟩ | already
      · rcases List.mem_cons.mp mem with rfl | inRest
        · exact absurd at' here
        · exact .inl ⟨w, inRest, at'⟩
      · right
        rw [Function.update_of_ne (Ne.symm here), already]

theorem mem_writeFatCopies {first : Sector} {fatSectors : Nat} (positive : 1 ≤ fatSectors)
    {copies fatOffset : Nat} {write : Nat × Sector} :
    write ∈ writeFatCopies first fatSectors copies fatOffset ↔
      ∃ k < copies, ∃ i < fatSectors,
        write = (fatOffset + k * fatSectors + i, if i = 0 then first else emptySector) := by
  have next (offset : Nat) : offset + 1 + (fatSectors - 1) = offset + fatSectors := by omega
  induction copies generalizing fatOffset with
  | zero => simp [writeFatCopies]
  | succ copies ih =>
    rw [writeFatCopies, next]
    simp only [List.cons_append, List.mem_cons, List.mem_append, List.mem_map, List.mem_range, ih]
    constructor
    · rintro (rfl | ⟨i, below, rfl⟩ | ⟨k, below, i, inside, rfl⟩)
      · exact ⟨0, Nat.succ_pos _, 0, positive, by simp⟩
      · refine ⟨0, Nat.succ_pos _, i + 1, by omega, ?_⟩
        simp
        omega
      · refine ⟨k + 1, by omega, i, inside, ?_⟩
        rw [Nat.succ_mul]
        simp
        omega
    · rintro ⟨k, below, i, inside, rfl⟩
      cases k with
      | zero =>
        cases i with
        | zero => exact .inl (by simp)
        | succ i =>
          refine .inr (.inl ⟨i, by omega, ?_⟩)
          simp
          omega
      | succ k =>
        refine .inr (.inr ⟨k, by omega, i, inside, ?_⟩)
        rw [Nat.succ_mul]
        simp
        omega

end Contents

section Regions

/-- The regions of the volume as ranges of sectors: the reserved area, the FATs, the
root directory of FAT12 and FAT16, and the clusters. -/
def regions (layout : Layout) : List (Nat × Nat) :=
  (0, layout.reservedSectors) ::
    ((List.range layout.numFats).map fun k =>
      (layout.reservedSectors + k * layout.fatSectors,
        layout.reservedSectors + (k + 1) * layout.fatSectors)) ++
    (match layout.root with
      | .cluster _ => []
      | .fixed rootOffset rootEntries =>
          [(rootOffset,
            rootOffset + (rootEntries * 32 + layout.bytesPerSector - 1) / layout.bytesPerSector)])
              ++
    [(layout.dataOffset,
      layout.dataOffset + layout.clusterCount * layout.sectorsPerCluster)]

def Apart (a b : Nat × Nat) : Prop := ∀ sector, ¬ ((a.1 ≤ sector ∧ sector < a.2) ∧
  b.1 ≤ sector ∧ sector < b.2)

/-- The regions are disjoint and on the device, a FAT has room for all entries, and
formatting leaves the initial entries in every FAT. -/
structure Sound (n : Nat) (layout : Layout) : Prop where
  apart : (regions layout).Pairwise Apart
  inside : ∀ region ∈ regions layout, region.2 ≤ n
  room : (layout.clusterCount + 2) * layout.bits ≤ layout.fatSectors * layout.bytesPerSector * 8
  fats : ∀ (disk : Disk) (io : AllocOracle), io.Succeeds →
    (fatFormat true true n disk io).1 = .ok ∧
    ∀ k < layout.numFats, ∀ i < layout.fatSectors,
      (fatFormat true true n disk io).2 (layout.reservedSectors + k * layout.fatSectors + i) =
        if i = 0 then firstFatSector layout.bits else emptySector

theorem regions_smallLayout {bits n c : Nat} (narrow : bits = 12 ∨ bits = 16) :
    regions (smallLayout bits n c) =
      [(0, 1), (1, 1 + c), (1 + c, 1 + 2 * c), (1 + 2 * c, overhead bits + 2 * c),
        (overhead bits + 2 * c, overhead bits + 2 * c + left bits n c)] := by
  rcases narrow with rfl | rfl <;>
    simp [regions, smallLayout, fatNumFats, List.range_succ, rootEntriesFor, fat12RootEntries,
      fat16RootEntries, diskSectorSize, overhead] <;> omega

/-- Every write of the formatting to a FAT sector stores its initial contents. -/
theorem formatWrites_fat {bits n c : Nat} (narrow : bits = 12 ∨ bits = 16) (positive : 1 ≤ c)
    {k i : Nat} (copy : k < fatNumFats) (sector : i < c) {write : Nat × Sector}
    (mem : write ∈ formatWrites (smallLayout bits n c)) (here : write.1 = 1 + k * c + i) :
    write.2 = if i = 0 then firstFatSector bits else emptySector := by
  have wide : ¬ (smallLayout bits n c).bits = 32 := by
    rcases narrow with rfl | rfl <;> simp [smallLayout]
  simp only [formatWrites, writeVbr, if_neg wide, List.append_nil, List.cons_append,
    List.nil_append, List.mem_cons, List.mem_append] at mem
  rcases mem with rfl | inFats | inRoot
  · simp only at here
    omega
  · obtain ⟨l, -, j, inside, rfl⟩ := (mem_writeFatCopies positive).mp inFats
    have offset : l * c + j = k * c + i := by
      simp only [smallLayout] at here
      omega
    have same : j = i := by
      have eqMod := congrArg (· % c) offset
      simpa [Nat.mul_add_mod_of_lt, Nat.mod_eq_of_lt sector, Nat.mod_eq_of_lt inside] using eqMod
    rw [same]
    rfl
  · obtain ⟨j, -, rfl⟩ := List.mem_map.mp inRoot
    have below : k * c + i < 2 * c := by
      have bound : (k + 1) * c ≤ 2 * c := Nat.mul_le_mul_right c copy
      rw [Nat.succ_mul] at bound
      omega
    simp only [rootRange, smallLayout] at here
    omega

theorem sound_smallLayout {bits n c : Nat} (narrow : bits = 12 ∨ bits = 16) (fits : Fits bits n c)
    (found : setupLayout n = some (smallLayout bits n c)) : Sound n (smallLayout bits n c) := by
  have room := fits.room
  have exact := fits.exact
  have positive : 1 ≤ c := by
    rcases narrow with rfl | rfl <;> simp only [needed] at exact <;> omega
  refine ⟨?_, ?_, ?_, fun disk io succeeds => ?_⟩
  · rw [regions_smallLayout narrow]
    have order : 1 ≤ overhead bits := by rcases narrow with rfl | rfl <;> decide
    simp only [List.pairwise_cons, List.mem_cons, List.not_mem_nil, or_false, forall_eq_or_imp,
      forall_eq, Apart]
    refine ⟨⟨?_, ?_, ?_, ?_⟩, ⟨?_, ?_, ?_⟩, ⟨?_, ?_⟩, ?_, ?_⟩ <;> intros <;> simp_all <;> omega
  · rw [regions_smallLayout narrow]
    intro region mem
    have tail : overhead bits + 2 * c + left bits n c = n := by
      simp only [left]
      omega
    have order : 1 ≤ overhead bits := by rcases narrow with rfl | rfl <;> decide
    simp only [List.mem_cons, List.not_mem_nil, or_false] at mem
    rcases mem with rfl | rfl | rfl | rfl | rfl <;> simp only <;> omega
  · simp only [smallLayout, diskSectorSize]
    rcases narrow with rfl | rfl <;> simp only [needed] at exact <;> omega
  · have tiny : ¬ n > uint32Max := by
      have := (fits.le narrow).2
      simp only [uint32Max]
      omega
    have written (k i : Nat) (copy : k < fatNumFats) (sector : i < c) :=
      @performWrites_spec _ disk io succeeds _ _
        (fun write mem => formatWrites_fat (n := n) narrow positive copy sector mem)
        (.inl (by
          refine ⟨(1 + k * c + i, if i = 0 then firstFatSector bits else emptySector), ?_, rfl⟩
          refine List.mem_append_left _ (List.mem_append_right _ ?_)
          exact (mem_writeFatCopies positive).mpr ⟨k, copy, i, sector, rfl⟩))
    rw [fatFormat, if_neg (by decide), if_neg (by decide), if_neg tiny, found]
    refine ⟨?_, fun k copy i sector => (written k i copy sector).2⟩
    simp only [(written 0 0 (by decide) positive).1, if_true]

theorem Wide.not_sound {n : Nat} {layout : Layout} (wide : Wide n layout) : ¬ Sound n layout := by
  intro sound
  have apart := sound.apart
  have room := sound.room
  simp only [regions, wide.fats, wide.root, wide.reserved, wide.offset, List.range_succ,
    List.range_zero, List.nil_append, List.map_cons, List.map_nil, List.cons_append,
    List.append_nil, List.pairwise_cons, List.mem_cons, List.not_mem_nil, or_false,
    forall_eq_or_imp, forall_eq] at apart
  -- sector 32 belongs to the first FAT and to the first cluster
  have clusters : 1 ≤ layout.clusterCount * layout.sectorsPerCluster :=
    Nat.mul_pos wide.clusters wide.perCluster
  have empty : layout.fatSectors = 0 := by
    by_contra positive
    apply apart.2.1.2 32
    simp only
    omega
  rw [empty, wide.bits] at room
  omega

/-- The regions of a new volume are sound exactly when the device has a FAT12 or FAT16
layout. -/
theorem sound_iff (n : Nat) (layout : Layout) (found : setupLayout n = some layout) :
    Sound n layout ↔ (∃ c, Fits 12 n c) ∨ ∃ c, Fits 16 n c := by
  rcases setupLayout_cases found with
    ⟨c, fits, rfl⟩ | ⟨c, fits, rfl, -⟩ | ⟨wide, no12, no16⟩
  · exact iff_of_true (sound_smallLayout (.inl rfl) fits found) (.inl ⟨c, fits⟩)
  · exact iff_of_true (sound_smallLayout (.inr rfl) fits found) (.inr ⟨c, fits⟩)
  · exact iff_of_false wide.not_sound (not_or.mpr ⟨no12, no16⟩)

theorem sound_floppy :
    setupLayout 2880 = some (smallLayout 12 2880 9) ∧ Sound 2880 (smallLayout 12 2880 9) := by
  have found : setupLayout 2880 = some (smallLayout 12 2880 9) := by decide +kernel
  refine ⟨found, (sound_iff 2880 _ found).mpr (.inl ⟨9, ?_⟩)⟩
  exact ⟨by decide, by decide, by decide⟩

theorem not_always_sound :
    ¬ ∀ n layout, setupLayout n = some layout → Sound n layout := by
  intro claim
  have found : setupLayout 70000 = some wideLayout := by decide +kernel
  have wide : Wide 70000 wideLayout := by
    refine ⟨rfl, rfl, rfl, rfl, rfl, ?_, ?_⟩ <;> decide
  exact wide.not_sound (claim 70000 wideLayout found)

end Regions

end Opal.Fat
