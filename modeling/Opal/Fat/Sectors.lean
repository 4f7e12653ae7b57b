import Opal.Fat.Codec
import Opal.Library.Ranges
import Mathlib.Tactic.Ring

/-!
# The sectors of a transfer

The driver computes the sectors of its transfers with 32-bit numbers.  Each computation is
written over the function that stores a number in 32 bits, so that the exact range is the same
computation with the identity in its place.
-/

namespace Opal.Fat

open Opal.Library (Range)

section Computation

variable (u32 : Nat → Nat) (layout : Layout)

/-- `layout->bytes_per_sector / DISK_SECTOR_SIZE`. -/
def Layout.lsec : Nat := layout.bytesPerSector / diskSectorSize

/-- The variable `fat_bytes`. -/
def Layout.fatBytesIn : Nat := u32 (layout.fatSectors * layout.bytesPerSector)

/-- The variable `fat_offset`. -/
def Layout.fatOffsetIn : Nat := u32 (layout.reservedSectors * layout.lsec)

/-- The sectors that `fat_table_readall` reads. -/
def fatTableReadallRange : Range where
  addr := layout.fatOffsetIn u32
  len := layout.fatBytesIn u32 / diskSectorSize

/-- The sectors of one copy that `fat_table_write` writes, if it writes any. -/
def fatTableWriteRange (fati pos size : Nat) : Option Range :=
  let fatBytes := layout.fatBytesIn u32
  if size > fsSsizeMax then none
  else if pos > fatBytes then none
  else
    let size := min size (fatBytes - pos)
    if size = 0 then none
    else
      let sectorPos := pos / diskSectorSize
      let frontGap := pos - sectorPos * diskSectorSize
      let sectors := (frontGap + size + diskSectorSize - 1) / diskSectorSize
      let lba := u32 (layout.fatOffsetIn u32 + u32 (fatBytes / diskSectorSize * fati))
      some { addr := u32 (lba + sectorPos), len := u32 sectors }

/-- The sectors that `root_inode_readall` reads, on a volume with a fixed root directory. -/
def rootInodeReadallRange : Option Range :=
  match layout.root with
  | .fixed rootOffset rootEntries =>
      some
        { addr := u32 (rootOffset * layout.lsec)
          len := (32 * rootEntries + diskSectorSize - 1) / diskSectorSize }
  | .cluster _ => none

/-- The sectors of one cluster in `fat_inode_readall` and `fat_inode_write`. -/
def clusterRange (cluster : Nat) : Range :=
  let pspc := u32 (layout.sectorsPerCluster * layout.lsec)
  let dataOffset := u32 (layout.dataOffset * layout.lsec)
  { addr := u32 (dataOffset + u32 (u32 (cluster - 2) * pspc)), len := pspc }

/-- The transfers of the driver. -/
inductive Transfer where
  | readTable
  | writeTable (fati pos size : Nat)
  | readRoot
  | cluster (cluster : Nat)
  deriving DecidableEq, Repr

def transferRange : Transfer → Option Range
  | .readTable => some (fatTableReadallRange u32 layout)
  | .writeTable fati pos size => fatTableWriteRange u32 layout fati pos size
  | .readRoot => rootInodeReadallRange u32 layout
  | .cluster cluster => some (clusterRange u32 layout cluster)

/-- The transfers that the driver asks for: those of the copies that exist, and of the
numbers that it takes for clusters. -/
def Layout.Asks : Transfer → Prop
  | .readTable => True
  | .writeTable fati _ _ => fati < layout.numFats
  | .readRoot => True
  | .cluster cluster => isClusterEof layout cluster = false

end Computation

/-- What is stored in 32 bits. -/
def wrap (value : Nat) : Nat := value % 2 ^ 32

/-- The sectors are those of exact arithmetic and belong to the device, and nothing is
divided by zero. -/
structure Layout.Exact (bdevSectors : Nat) (layout : Layout) : Prop where
  same : ∀ transfer, layout.Asks transfer →
    transferRange wrap layout transfer = transferRange id layout transfer
  device : ∀ transfer, layout.Asks transfer → ∀ range ∈ transferRange wrap layout transfer,
    range.stop ≤ bdevSectors
  bps : layout.bytesPerSector ≠ 0
  spc : layout.sectorsPerCluster ≠ 0
  bpc : layout.bytesPerSector * layout.sectorsPerCluster ≠ 0

/-- What the checks of `parse_bpb` say about the regions of the volume, in sectors of the
device. -/
structure Layout.Placed (bdevSectors : Nat) (layout : Layout) : Prop where
  bps : layout.bytesPerSector = diskSectorSize * layout.lsec
  lsec : 0 < layout.lsec
  spc : 0 < layout.sectorsPerCluster
  reserved : 0 < layout.reservedSectors
  fats : layout.reservedSectors + layout.numFats * layout.fatSectors ≤ layout.dataOffset
  root : ∀ rootOffset rootEntries, layout.root = .fixed rootOffset rootEntries →
    rootOffset * layout.lsec + (32 * rootEntries + diskSectorSize - 1) / diskSectorSize ≤
      layout.dataOffset * layout.lsec
  clusters : layout.dataOffset + layout.clusterCount * layout.sectorsPerCluster ≤
    layout.totalSectors
  data : layout.dataOffset < layout.totalSectors
  bound : layout.totalSectors * layout.lsec ≤ 2 ^ 32
  device : layout.totalSectors * layout.lsec ≤ bdevSectors

section Parsing

variable {bdevSectors : Nat} {bpb : Bpb} {layout : Layout}

theorem lsec_of_isValidBps {bps : Nat} (valid : isValidBps bps = true) :
    bps = diskSectorSize * (bps / diskSectorSize) ∧ 0 < bps / diskSectorSize := by
  have sizes : bps = 512 ∨ bps = 1024 ∨ bps = 2048 ∨ bps = 4096 := of_decide_eq_true valid
  rcases sizes with rfl | rfl | rfl | rfl <;> decide

/-- The root directory rounded up to sectors of the device is not longer than in sectors of
the volume. -/
theorem rootSectors_le {entries lsec : Nat} (positive : 0 < lsec) :
    (32 * entries + diskSectorSize - 1) / diskSectorSize ≤
      (entries * 32 + diskSectorSize * lsec - 1) / (diskSectorSize * lsec) * lsec := by
  have size : 0 < diskSectorSize := by decide
  generalize diskSectorSize = sector at size ⊢
  have whole : 0 < sector * lsec := Nat.mul_pos size positive
  have rounded : entries * 32 ≤
      (entries * 32 + sector * lsec - 1) / (sector * lsec) * (sector * lsec) := by
    have cut := Nat.lt_div_mul_add (a := entries * 32 + sector * lsec - 1) whole
    omega
  generalize (entries * 32 + sector * lsec - 1) / (sector * lsec) = blocks at rounded ⊢
  have sectors : blocks * (sector * lsec) = blocks * lsec * sector := by ring
  have next : (blocks * lsec).succ * sector = blocks * lsec * sector + sector :=
    Nat.succ_mul _ _
  apply Nat.lt_succ_iff.mp
  apply (Nat.div_lt_iff_lt_mul size).mpr
  omega

theorem parseBpb_placed (parsed : parseBpb bdevSectors bpb = some layout) :
    layout.Placed bdevSectors := by
  unfold parseBpb at parsed
  split at parsed
  case isFalse => cases parsed
  case isTrue accepted =>
    cases parsed
    obtain ⟨bps, positive⟩ := lsec_of_isValidBps accepted.bps
    have power : bpb.sectorsPerCluster ≠ 0 ∧
        bpb.sectorsPerCluster &&& (bpb.sectorsPerCluster - 1) = 0 :=
      of_decide_eq_true accepted.spc
    have data : bpb.reservedSectors + bpb.fatsSectors + bpb.rootDirSectors < bpb.totalSectors :=
      accepted.data
    have total : bpb.totalSectors ≤ 2 ^ 32 :=
      (Nat.le_mul_of_pos_right _ positive).trans accepted.bound
    refine ⟨bps, positive, Nat.pos_of_ne_zero power.1, Nat.pos_of_ne_zero accepted.reserved,
      Nat.le_add_right _ _, ?_, ?_, accepted.data, accepted.bound, accepted.device⟩
    · intro rootOffset rootEntries root
      simp only [Bpb.layout] at root
      split at root
      case isTrue => cases root
      case isFalse =>
        cases root
        have exactly : (bpb.reservedSectors + bpb.fatsSectors) % 2 ^ 32 =
            bpb.reservedSectors + bpb.fatsSectors := Nat.mod_eq_of_lt (by omega)
        show (bpb.reservedSectors + bpb.fatsSectors) % 2 ^ 32 *
            (bpb.bytesPerSector / diskSectorSize) + _ ≤
          (bpb.reservedSectors + bpb.fatsSectors + bpb.rootDirSectors) *
            (bpb.bytesPerSector / diskSectorSize)
        rw [exactly, Nat.add_mul _ bpb.rootDirSectors]
        apply Nat.add_le_add_left
        refine (rootSectors_le positive).trans ?_
        rw [← bps]
        exact le_rfl
    · show bpb.dataOffset + bpb.clusterCount * bpb.sectorsPerCluster ≤ bpb.totalSectors
      have cut : bpb.clusterCount * bpb.sectorsPerCluster ≤ bpb.totalSectors - bpb.dataOffset :=
        Nat.div_mul_le_self _ _
      have data' : bpb.dataOffset < bpb.totalSectors := accepted.data
      omega

end Parsing

section Ranges

variable {bdevSectors : Nat} {layout : Layout}

theorem wrap_of_lt {value : Nat} (small : value < 2 ^ 32) : wrap value = value :=
  Nat.mod_eq_of_lt small

/-- What ends before the data does begins below `2 ^ 32`, and belongs to the device. -/
theorem Layout.Placed.below (placed : layout.Placed bdevSectors) {sector : Nat}
    (before : sector ≤ layout.dataOffset * layout.lsec) : sector < 2 ^ 32 ∧
      sector ≤ bdevSectors := by
  have data : layout.dataOffset * layout.lsec < layout.totalSectors * layout.lsec :=
    Nat.mul_lt_mul_of_pos_right placed.data placed.lsec
  exact ⟨(before.trans_lt data).trans_le placed.bound,
    (before.trans data.le).trans placed.device⟩

theorem Layout.Placed.fatOffset_le (placed : layout.Placed bdevSectors) :
    layout.reservedSectors * layout.lsec +
        layout.numFats * (layout.fatSectors * layout.lsec) ≤ layout.dataOffset * layout.lsec := by
  rw [← Nat.mul_assoc, ← Nat.add_mul]
  exact Nat.mul_le_mul_right _ placed.fats

theorem Layout.Placed.fatOffsetIn_wrap (placed : layout.Placed bdevSectors) :
    layout.fatOffsetIn wrap = layout.fatOffsetIn id :=
  wrap_of_lt (placed.below ((Nat.le_add_right _ _).trans placed.fatOffset_le)).1

theorem Layout.Placed.fatBytesIn_div (placed : layout.Placed bdevSectors) :
    layout.fatBytesIn id / diskSectorSize = layout.fatSectors * layout.lsec := by
  show layout.fatSectors * layout.bytesPerSector / diskSectorSize = _
  rw [placed.bps, Nat.mul_left_comm]
  exact Nat.mul_div_cancel_left _ (by decide)

/-- The table that is read is the first copy. -/
theorem Layout.Placed.readTable (placed : layout.Placed bdevSectors) (fats : 0 < layout.numFats)
    (small : layout.fatSectors * layout.bytesPerSector < 2 ^ 32) :
    fatTableReadallRange wrap layout = fatTableReadallRange id layout ∧
      (fatTableReadallRange id layout).stop ≤ bdevSectors := by
  have bytes : layout.fatBytesIn wrap = layout.fatBytesIn id := wrap_of_lt small
  constructor
  · unfold fatTableReadallRange
    rw [bytes, placed.fatOffsetIn_wrap]
  · show layout.reservedSectors * layout.lsec + layout.fatBytesIn id / diskSectorSize ≤ _
    rw [placed.fatBytesIn_div]
    have copy : layout.fatSectors * layout.lsec ≤
        layout.numFats * (layout.fatSectors * layout.lsec) := Nat.le_mul_of_pos_left _ fats
    exact (placed.below ((Nat.add_le_add_left copy _).trans placed.fatOffset_le)).2

/-- The sectors that are written with a part of the table are sectors of the table. -/
theorem sectors_inside {sector total pos size : Nat} (positive : 0 < sector)
    (inside : pos + size ≤ sector * total) :
    pos / sector + (pos - pos / sector * sector + size + sector - 1) / sector ≤ total := by
  have front := Nat.div_mul_le_self pos sector
  have back : pos / sector ≤ total := by
    refine (Nat.div_le_div_right ((Nat.le_add_right pos size).trans inside)).trans ?_
    rw [Nat.mul_div_cancel_left _ positive]
  have gap : (total - pos / sector) * sector = total * sector - pos / sector * sector :=
    Nat.sub_mul _ _ _
  rw [Nat.mul_comm sector] at inside
  have next : (total - pos / sector).succ * sector =
      (total - pos / sector) * sector + sector := Nat.succ_mul _ _
  have count : (pos - pos / sector * sector + size + sector - 1) / sector ≤
      total - pos / sector := by
    apply Nat.lt_succ_iff.mp
    apply (Nat.div_lt_iff_lt_mul positive).mpr
    omega
  omega

theorem Layout.Placed.writeTable (placed : layout.Placed bdevSectors) {fati : Nat}
    (copy : fati < layout.numFats)
    (small : layout.fatSectors * layout.bytesPerSector < 2 ^ 32) (pos size : Nat) :
    fatTableWriteRange wrap layout fati pos size = fatTableWriteRange id layout fati pos size ∧
      ∀ range ∈ fatTableWriteRange id layout fati pos size, range.stop ≤ bdevSectors := by
  have bytes : layout.fatBytesIn wrap = layout.fatBytesIn id := wrap_of_lt small
  have whole : layout.fatBytesIn id = diskSectorSize * (layout.fatSectors * layout.lsec) := by
    show layout.fatSectors * layout.bytesPerSector = _
    rw [placed.bps, Nat.mul_left_comm]
  unfold fatTableWriteRange
  simp only [bytes, placed.fatOffsetIn_wrap, placed.fatBytesIn_div]
  by_cases huge : size > fsSsizeMax
  · simp [huge]
  by_cases beyond : pos > layout.fatBytesIn id
  · simp [beyond]
  by_cases empty : min size (layout.fatBytesIn id - pos) = 0
  · simp [empty]
  rw [if_neg huge, if_neg beyond, if_neg empty, if_neg huge, if_neg beyond, if_neg empty]
  rw [whole] at beyond ⊢
  generalize clipped : min size (diskSectorSize * (layout.fatSectors * layout.lsec) - pos) = count
  have inside : pos + count ≤ diskSectorSize * (layout.fatSectors * layout.lsec) := by omega
  have sectors := sectors_inside (by decide) inside
  generalize (pos - pos / diskSectorSize * diskSectorSize + count + diskSectorSize - 1) /
    diskSectorSize = len at sectors
  -- The copy begins after those before it, and ends within the last one.
  have next : layout.fatSectors * layout.lsec * fati + layout.fatSectors * layout.lsec ≤
      layout.numFats * (layout.fatSectors * layout.lsec) := by
    rw [← Nat.mul_succ, Nat.mul_comm]
    exact Nat.mul_le_mul_right _ copy
  have fats := placed.fatOffset_le
  have stop : layout.reservedSectors * layout.lsec + layout.fatSectors * layout.lsec * fati +
      pos / diskSectorSize + len ≤ layout.dataOffset * layout.lsec := by omega
  have offset : layout.fatOffsetIn id = layout.reservedSectors * layout.lsec := rfl
  have first : wrap (layout.fatSectors * layout.lsec * fati) =
      layout.fatSectors * layout.lsec * fati := wrap_of_lt (placed.below (by omega)).1
  have second : wrap (layout.fatOffsetIn id + layout.fatSectors * layout.lsec * fati) =
      layout.fatOffsetIn id + layout.fatSectors * layout.lsec * fati :=
    wrap_of_lt (placed.below (by omega)).1
  have third : wrap (layout.fatOffsetIn id + layout.fatSectors * layout.lsec * fati +
      pos / diskSectorSize) = layout.fatOffsetIn id + layout.fatSectors * layout.lsec * fati +
        pos / diskSectorSize := wrap_of_lt (placed.below (by omega)).1
  have fourth : wrap len = len := wrap_of_lt (placed.below (by omega)).1
  simp only [first, second, third, fourth, id_eq, true_and, Option.mem_def, Option.some.injEq,
    forall_eq']
  exact (placed.below stop).2

theorem Layout.Placed.readRoot (placed : layout.Placed bdevSectors) :
    rootInodeReadallRange wrap layout = rootInodeReadallRange id layout ∧
      ∀ range ∈ rootInodeReadallRange id layout, range.stop ≤ bdevSectors := by
  unfold rootInodeReadallRange
  cases root : layout.root with
  | fixed rootOffset rootEntries =>
      have stop := placed.root rootOffset rootEntries root
      have start : wrap (rootOffset * layout.lsec) = rootOffset * layout.lsec :=
        wrap_of_lt (placed.below ((Nat.le_add_right _ _).trans stop)).1
      simp only [start, id_eq, true_and, Option.mem_def, Option.some.injEq, forall_eq']
      exact (placed.below stop).2
  | cluster rootCluster => simp

theorem Layout.Placed.cluster (placed : layout.Placed bdevSectors) {cluster : Nat}
    (inside : isClusterEof layout cluster = false) :
    clusterRange wrap layout cluster = clusterRange id layout cluster ∧
      (clusterRange id layout cluster).stop ≤ bdevSectors := by
  have counted : cluster - 2 < layout.clusterCount := by
    unfold isClusterEof at inside
    rw [decide_eq_false_iff_not, not_not] at inside
    exact inside.2.2
  have until' : layout.dataOffset + (cluster - 2 + 1) * layout.sectorsPerCluster ≤
      layout.totalSectors :=
    (Nat.add_le_add_left (Nat.mul_le_mul_right _ counted) _).trans placed.clusters
  have stop : layout.dataOffset * layout.lsec +
      ((cluster - 2) * (layout.sectorsPerCluster * layout.lsec) +
        layout.sectorsPerCluster * layout.lsec) ≤ layout.totalSectors * layout.lsec := by
    refine le_of_eq_of_le ?_ (Nat.mul_le_mul_right layout.lsec until')
    ring
  have start : 0 < layout.dataOffset * layout.lsec := by
    apply Nat.mul_pos _ placed.lsec
    exact (Nat.add_pos_left placed.reserved _).trans_le placed.fats
  have size : 0 < layout.sectorsPerCluster * layout.lsec := Nat.mul_pos placed.spc placed.lsec
  have index : cluster - 2 ≤ (cluster - 2) * (layout.sectorsPerCluster * layout.lsec) :=
    Nat.le_mul_of_pos_right _ size
  have bound := placed.bound
  have device := placed.device
  unfold clusterRange
  generalize layout.sectorsPerCluster * layout.lsec = pspc at stop size index ⊢
  generalize layout.dataOffset * layout.lsec = dataOffset at stop start ⊢
  have first : wrap pspc = pspc := wrap_of_lt (by omega)
  have second : wrap dataOffset = dataOffset := wrap_of_lt (by omega)
  have third : wrap (cluster - 2) = cluster - 2 := wrap_of_lt (by omega)
  have fourth : wrap ((cluster - 2) * pspc) = (cluster - 2) * pspc := wrap_of_lt (by omega)
  have fifth : wrap (dataOffset + (cluster - 2) * pspc) = dataOffset + (cluster - 2) * pspc :=
    wrap_of_lt (by omega)
  simp only [first, second, third, fourth, fifth, id_eq, true_and]
  show dataOffset + (cluster - 2) * pspc + pspc ≤ bdevSectors
  omega

end Ranges

section Exactness

variable {bdevSectors : Nat} {bpb : Bpb} {layout : Layout}

/-- For a table below 4 GiB every transfer is the exact one. -/
theorem Layout.Placed.exact (placed : layout.Placed bdevSectors) (fats : 0 < layout.numFats)
    (small : layout.fatSectors * layout.bytesPerSector < 2 ^ 32) : layout.Exact bdevSectors := by
  have transfers : ∀ transfer, layout.Asks transfer →
      transferRange wrap layout transfer = transferRange id layout transfer ∧
        ∀ range ∈ transferRange id layout transfer, range.stop ≤ bdevSectors := by
    intro transfer asks
    cases transfer with
    | readTable =>
        obtain ⟨same, stop⟩ := placed.readTable fats small
        exact ⟨congrArg some same, fun range member => Option.some.inj member ▸ stop⟩
    | writeTable fati pos size => exact placed.writeTable asks small pos size
    | readRoot => exact placed.readRoot
    | cluster cluster =>
        obtain ⟨same, stop⟩ := placed.cluster asks
        exact ⟨congrArg some same, fun range member => Option.some.inj member ▸ stop⟩
  have bps : layout.bytesPerSector ≠ 0 := by
    rw [placed.bps]
    exact (Nat.mul_pos (by decide) placed.lsec).ne'
  refine ⟨fun transfer asks => (transfers transfer asks).1, ?_, bps, placed.spc.ne',
    Nat.mul_ne_zero bps placed.spc.ne'⟩
  intro transfer asks range member
  rw [(transfers transfer asks).1] at member
  exact (transfers transfer asks).2 range member

/-- The table that is read is shorter than the table of the volume once its number of bytes
wraps around. -/
theorem Layout.Exact.small (exact : layout.Exact bdevSectors) :
    layout.fatSectors * layout.bytesPerSector < 2 ^ 32 := by
  have same := congrArg (Option.map Library.Range.len) (exact.same .readTable trivial)
  have length : wrap (layout.fatSectors * layout.bytesPerSector) / diskSectorSize =
      layout.fatSectors * layout.bytesPerSector / diskSectorSize := Option.some.inj same
  unfold wrap diskSectorSize at length
  omega

/-- The sector arithmetic on a volume that is accepted is exact if and only if the number of
bytes of its table is below `2 ^ 32`. -/
theorem parseBpb_exact_iff (parsed : parseBpb bdevSectors bpb = some layout) :
    layout.Exact bdevSectors ↔ bpb.fatSectors * bpb.bytesPerSector < 2 ^ 32 := by
  have placed := parseBpb_placed parsed
  unfold parseBpb at parsed
  split at parsed
  case isFalse => cases parsed
  case isTrue accepted =>
    cases parsed
    exact ⟨fun exact => exact.small, placed.exact (Nat.pos_of_ne_zero accepted.fats)⟩

/-- A FAT32 volume with one table of this number of sectors. -/
def oneTable (fatSize32 totalSectors32 : Nat) : Bpb where
  bytesPerSector := 512
  sectorsPerCluster := 1
  reservedSectors := 32
  numFats := 1
  rootEntries := 0
  totalSectors16 := 0
  fatSize16 := 0
  totalSectors32 := totalSectors32
  fatSize32 := fatSize32
  rootCluster := 2

theorem parseBpb_exact_one : (oneTable 8 1024).layout.Exact 1024 ↔ 8 * 512 < 2 ^ 32 :=
  @parseBpb_exact_iff 1024 (oneTable 8 1024) _ (if_pos (by decide))

/-- A table of 4 GiB and one sector is accepted, and only its first sector is read. -/
theorem parseBpb_inexact : parseBpb (2 ^ 24) (oneTable (2 ^ 23 + 1) (2 ^ 24)) =
      some (oneTable (2 ^ 23 + 1) (2 ^ 24)).layout ∧
    fatTableReadallRange wrap (oneTable (2 ^ 23 + 1) (2 ^ 24)).layout = ⟨32, 1⟩ ∧
    fatTableReadallRange id (oneTable (2 ^ 23 + 1) (2 ^ 24)).layout = ⟨32, 2 ^ 23 + 1⟩ ∧
    ¬(oneTable (2 ^ 23 + 1) (2 ^ 24)).layout.Exact (2 ^ 24) := by
  refine ⟨if_pos (by decide), by decide, by decide, fun exact => ?_⟩
  exact absurd exact.small (by decide)

end Exactness

end Opal.Fat
