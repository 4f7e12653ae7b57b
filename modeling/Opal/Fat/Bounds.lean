import Opal.Fat.Sectors
import Opal.Fat.Scan

/-!
# The bytes of the buffer that are accessed

Reads and writes of the table are clipped to the buffer.  The scans for a free entry are
bounded by the number of clusters instead, which the boot parameter block gives independently
of the size of the table.
-/

namespace Opal.Fat

open Opal.Library (Range)

section Steps

/-- The steps of a loop up to the first at which it is left. -/
def visited (leaves : Nat → Bool) : List Nat → List Nat
  | [] => []
  | step :: steps => if leaves step then [step] else step :: visited leaves steps

variable {leaves : Nat → Bool} {steps : List Nat} {step : Nat}

theorem mem_of_mem_visited (member : step ∈ visited leaves steps) : step ∈ steps := by
  induction steps with
  | nil => cases member
  | cons first rest inductionHypothesis =>
      unfold visited at member
      split at member
      · rw [List.mem_singleton.mp member]
        exact List.mem_cons_self
      · rcases List.mem_cons.mp member with same | later
        · rw [same]
          exact List.mem_cons_self
        · exact List.mem_cons_of_mem _ (inductionHypothesis later)

theorem visited_of_never (never : ∀ step, leaves step = false) : visited leaves steps = steps := by
  induction steps with
  | nil => rfl
  | cons first rest inductionHypothesis =>
      unfold visited
      rw [if_neg (by rw [never]; exact Bool.false_ne_true), inductionHypothesis]

end Steps

namespace Width

/-- The bytes that one step of the scan looks at: a pair of packed entries, or a word. -/
def stride : Width → Nat
  | fat12 => 3
  | fat16 => 2
  | fat32 => 4

/-- The first step of the scan. -/
def firstStep : Width → Nat
  | fat12 => 1
  | fat16 => 2
  | fat32 => 2

/-- The end of the steps of the scan. -/
def stepEnd : Width → Nat → Nat
  | fat12, clusterEnd => (clusterEnd + 1) / 2
  | fat16, clusterEnd => clusterEnd
  | fat32, clusterEnd => clusterEnd

/-- Whether the scan is left at a step. -/
def leaves : Width → Memory → Nat → Bool
  | fat12, buffer, cluster2 =>
      (buffer (cluster2 * 3)).toNat + (buffer (cluster2 * 3 + 1)).toNat % 16 * 256 = 0 ∨
        (buffer (cluster2 * 3 + 1)).toNat / 16 + (buffer (cluster2 * 3 + 2)).toNat * 16 = 0
  | fat16, buffer, cluster => buffer.word (cluster * 2) 2 = 0
  | fat32, buffer, cluster => buffer.word (cluster * 4) 4 = 0

/-- The bytes up to the end of the last entry that a scan can look at. -/
def scanned (width : Width) (clusterEnd : Nat) : Nat := width.stepEnd clusterEnd * width.stride

end Width

/-- `KMALLOC_MAX_SIZE`. -/
def kmallocMaxSize : Nat := 4096 * 64

/-- `kzalloc` has memory of this size: it returns nothing for the size 0, and does not return
for one above the largest. -/
def Layout.Allocatable (layout : Layout) : Prop :=
  0 < layout.fatBytes ∧ layout.fatBytes ≤ kmallocMaxSize

instance (layout : Layout) : Decidable layout.Allocatable := by
  unfold Layout.Allocatable
  infer_instance

section Touches

def FatTable.allocates (fat : FatTable) : Bool := fat.mem.head ∧ fat.layout.Allocatable

/-- `fat_table_readall` succeeds. -/
def FatTable.loads (fat : FatTable) : Bool :=
  fat.buffer.isSome ∨ (fat.allocates ∧ fat.reads.head = none)

/-- The bytes that the device transfers into the buffer in `fat_table_readall`. -/
def fatTableReadallTouches (fat : FatTable) : List Range :=
  if fat.buffer.isNone ∧ fat.allocates then
    [{ addr := 0, len := fat.layout.fatBytes / diskSectorSize * diskSectorSize }]
  else []

def fatTableReadTouches (pos size : Nat) (fat : FatTable) : List Range :=
  if pos > fat.layout.fatBytes then []
  else
    let size := min size (fat.layout.fatBytes - pos)
    if size = 0 then []
    else fatTableReadallTouches fat ++ if fat.loads then [{ addr := pos, len := size }] else []

/-- The bytes that the device transfers from the buffer, up to the first copy that cannot be
written. -/
def writeCopiesTouches (front : Range) : Nat → Stream' (Option (Nat × TransferError)) → List Range
  | 0, _ => []
  | left + 1, writes =>
      front :: if writes.head = none then writeCopiesTouches front left writes.tail else []

def fatTableWriteTouches (pos size : Nat) (fat : FatTable) : List Range :=
  if size > fsSsizeMax then []
  else if pos > fat.layout.fatBytes then []
  else
    let size := min size (fat.layout.fatBytes - pos)
    if size = 0 then []
    else
      let frontPos := pos / diskSectorSize * diskSectorSize
      let sectors := (pos - frontPos + size + diskSectorSize - 1) / diskSectorSize
      fatTableReadallTouches fat ++
        if fat.loads then
          { addr := pos, len := size } ::
            writeCopiesTouches { addr := frontPos, len := sectors * diskSectorSize }
              fat.layout.numFats fat.writes
        else []

def tableAtTouches (cluster : Nat) (fat : FatTable) : List Range :=
  fatTableReadTouches (fat.layout.width.pos cluster) fat.layout.width.bytes fat

/-- A packed entry is read before it is written. -/
def tableSetTouches (cluster : Nat) (fat : FatTable) : List Range :=
  let pos := fat.layout.width.pos cluster
  let bytes := fat.layout.width.bytes
  match fat.layout.width with
  | .fat12 =>
      fatTableReadTouches pos bytes fat ++
        if fat.loads ∧ pos + bytes ≤ fat.layout.fatBytes then
          fatTableWriteTouches pos bytes fat.loaded
        else []
  | .fat16 => fatTableWriteTouches pos bytes fat
  | .fat32 => fatTableWriteTouches pos bytes fat

/-- The bytes that the loop of a scan looks at. -/
def scanTouches (width : Width) (buffer : Memory) (clusterEnd : Nat) : List Range :=
  (visited (width.leaves buffer)
      (List.range' width.firstStep (width.stepEnd clusterEnd - width.firstStep))).map
    fun step => { addr := step * width.stride, len := width.stride }

def tableAllocTouches (fat : FatTable) : List Range :=
  fatTableReadallTouches fat ++
    if fat.loads then
      scanTouches fat.layout.width fat.view fat.layout.clusterEnd ++
        match fat.layout.width.scan fat.view fat.layout.clusterEnd with
        | none => []
        | some cluster => tableSetTouches cluster fat.loaded
    else []

/-- The table is only in a buffer that could be allocated. -/
def FatTable.Cached (fat : FatTable) : Prop := fat.buffer.isSome = true → fat.layout.Allocatable

/-- No access goes beyond this many bytes from the start of the buffer. -/
structure Layout.AccessesWithin (size : Nat) (layout : Layout) : Prop where
  tableAt : ∀ fat : FatTable, fat.layout = layout → fat.Cached →
    ∀ cluster, ∀ range ∈ tableAtTouches cluster fat, range.stop ≤ size
  tableSet : ∀ fat : FatTable, fat.layout = layout → fat.Cached →
    ∀ cluster, ∀ range ∈ tableSetTouches cluster fat, range.stop ≤ size
  tableAlloc : ∀ fat : FatTable, fat.layout = layout → fat.Cached →
    ∀ range ∈ tableAllocTouches fat, range.stop ≤ size

/-- There is no cluster to scan for, or no buffer, or the scan ends within this many bytes. -/
def Layout.ScanFits (size : Nat) (layout : Layout) : Prop :=
  layout.clusterEnd ≤ 2 ∨ ¬layout.Allocatable ∨ layout.width.scanned layout.clusterEnd ≤ size

end Touches

section Clipped

variable {fat : FatTable} {range : Range} {pos size cluster : Nat}

theorem fatTableReadallTouches_inside (member : range ∈ fatTableReadallTouches fat) :
    range.stop ≤ fat.layout.fatBytes := by
  unfold fatTableReadallTouches at member
  split at member
  · rw [List.mem_singleton.mp member]
    show 0 + fat.layout.fatBytes / diskSectorSize * diskSectorSize ≤ _
    rw [Nat.zero_add]
    exact Nat.div_mul_le_self _ _
  · cases member

theorem fatTableReadTouches_inside (member : range ∈ fatTableReadTouches pos size fat) :
    range.stop ≤ fat.layout.fatBytes := by
  unfold fatTableReadTouches at member
  split at member
  case isTrue => cases member
  case isFalse start =>
    dsimp only at member
    split at member
    case isTrue => cases member
    case isFalse =>
      rcases List.mem_append.mp member with loading | reading
      · exact fatTableReadallTouches_inside loading
      · split at reading
        · rw [List.mem_singleton.mp reading]
          show pos + min size (fat.layout.fatBytes - pos) ≤ _
          omega
        · cases reading

theorem mem_writeCopiesTouches {front : Range} {left : Nat}
    {writes : Stream' (Option (Nat × TransferError))}
    (member : range ∈ writeCopiesTouches front left writes) : range = front := by
  induction left generalizing writes with
  | zero => cases member
  | succ left inductionHypothesis =>
      rcases List.mem_cons.mp member with same | later
      · exact same
      · split at later
        · exact inductionHypothesis later
        · cases later

theorem fatTableWriteTouches_inside (aligned : diskSectorSize ∣ fat.layout.fatBytes)
    (member : range ∈ fatTableWriteTouches pos size fat) : range.stop ≤ fat.layout.fatBytes := by
  unfold fatTableWriteTouches at member
  split at member
  case isTrue => cases member
  case isFalse =>
    split at member
    case isTrue => cases member
    case isFalse start =>
      dsimp only at member
      split at member
      case isTrue => cases member
      case isFalse =>
        have inside : pos + min size (fat.layout.fatBytes - pos) ≤ fat.layout.fatBytes := by omega
        rcases List.mem_append.mp member with loading | writing
        · exact fatTableReadallTouches_inside loading
        · split at writing
          case isFalse => cases writing
          case isTrue =>
            rcases List.mem_cons.mp writing with same | transfer
            · rw [same]
              exact inside
            · rw [mem_writeCopiesTouches transfer]
              obtain ⟨sectors, whole⟩ := aligned
              rw [whole] at inside ⊢
              have counted := sectors_inside (by decide) inside
              refine le_of_eq_of_le (Nat.add_mul _ _ _).symm ?_
              exact (Nat.mul_le_mul_right _ counted).trans_eq (Nat.mul_comm _ _)

theorem tableSetTouches_inside (aligned : diskSectorSize ∣ fat.layout.fatBytes)
    (member : range ∈ tableSetTouches cluster fat) : range.stop ≤ fat.layout.fatBytes := by
  unfold tableSetTouches at member
  dsimp only at member
  split at member
  case h_1 =>
    rcases List.mem_append.mp member with reading | writing
    · exact fatTableReadTouches_inside reading
    · split at writing
      · have same : fat.loaded.layout = fat.layout := loaded_layout
        rw [← same] at aligned ⊢
        exact fatTableWriteTouches_inside aligned writing
      · cases writing
  case h_2 => exact fatTableWriteTouches_inside aligned member
  case h_3 => exact fatTableWriteTouches_inside aligned member

theorem scanTouches_inside {width : Width} {buffer : Memory} {clusterEnd : Nat}
    (member : range ∈ scanTouches width buffer clusterEnd) :
    2 < clusterEnd ∧ range.stop ≤ width.scanned clusterEnd := by
  obtain ⟨step, visits, rfl⟩ := List.mem_map.mp member
  obtain ⟨low, high⟩ := List.mem_range'_1.mp (mem_of_mem_visited visits)
  have below : step < width.stepEnd clusterEnd := by omega
  constructor
  · cases width
    · have pairs : step < (clusterEnd + 1) / 2 := below
      have first : 1 ≤ step := low
      omega
    · exact Nat.lt_of_le_of_lt low below
    · exact Nat.lt_of_le_of_lt low below
  · refine le_of_eq_of_le (Nat.succ_mul _ _).symm ?_
    exact Nat.mul_le_mul_right _ below

end Clipped

section Unbounded

variable {layout : Layout} {size : Nat}

/-- A volume that has not been used, with no zero byte in its table and a device that does not
fail. -/
def Layout.full (layout : Layout) (tabular : layout.Tabular) : FatTable where
  layout := layout
  tabular := tabular
  buffer := none
  copies := fun _ _ => 0xff
  mem := Stream'.const true
  reads := Stream'.const none
  writes := Stream'.const none

theorem leaves_full (width : Width) (step : Nat) : width.leaves (fun _ => 0xff) step = false := by
  cases width <;> simp [Width.leaves, Memory.word]

/-- The last step of the scan of a full table looks at the last entry. -/
theorem scanTouches_full (width : Width) {clusterEnd : Nat} (clusters : 2 < clusterEnd) :
    ∃ range ∈ scanTouches width (fun _ => 0xff) clusterEnd,
      range.stop = width.scanned clusterEnd := by
  have started : width.firstStep < width.stepEnd clusterEnd := by
    cases width
    · show 1 < (clusterEnd + 1) / 2
      omega
    · exact clusters
    · exact clusters
  refine ⟨{ addr := (width.stepEnd clusterEnd - 1) * width.stride, len := width.stride }, ?_, ?_⟩
  · unfold scanTouches
    rw [visited_of_never (leaves_full width)]
    apply List.mem_map_of_mem
    exact List.mem_range'_1.mpr ⟨by omega, by omega⟩
  · refine (Nat.succ_mul _ _).symm.trans ?_
    unfold Width.scanned
    congr 1
    omega

theorem Layout.AccessesWithin.scanFits (tabular : layout.Tabular)
    (within : layout.AccessesWithin size) : layout.ScanFits size := by
  by_cases clusters : layout.clusterEnd ≤ 2
  · exact Or.inl clusters
  by_cases allocatable : layout.Allocatable
  · refine Or.inr (Or.inr ?_)
    obtain ⟨range, member, stop⟩ :=
      scanTouches_full layout.width (Nat.lt_of_not_le clusters)
    have cached : (layout.full tabular).Cached := fun present => Bool.noConfusion present
    have loads : (layout.full tabular).loads = true := by
      unfold FatTable.loads FatTable.allocates
      simp [Layout.full, allocatable]
    rw [← stop]
    apply within.tableAlloc (layout.full tabular) rfl cached range
    unfold tableAllocTouches
    rw [if_pos loads]
    exact List.mem_append_right _ (List.mem_append_left _ member)
  · exact Or.inr (Or.inl allocatable)

theorem allocatable_of_loads {fat : FatTable} (cached : fat.Cached) (loads : fat.loads = true) :
    fat.layout.Allocatable := by
  rcases of_decide_eq_true loads with present | ⟨allocates, -⟩
  · exact cached present
  · exact (of_decide_eq_true allocates).2

theorem fatBytes_aligned (tabular : layout.Tabular) : diskSectorSize ∣ layout.fatBytes := by
  have bps : diskSectorSize ∣ layout.bytesPerSector :=
    ⟨_, (lsec_of_isValidBps tabular.bps).1⟩
  have words : diskSectorSize ∣ 2 ^ 32 := by decide
  exact (Nat.dvd_mod_iff words).mpr (Dvd.dvd.mul_left bps _)

theorem Layout.ScanFits.accessesWithin (fits : layout.ScanFits size)
    (aligned : diskSectorSize ∣ layout.fatBytes) (enough : layout.fatBytes ≤ size) :
    layout.AccessesWithin size where
  tableAt := by
    rintro fat rfl - cluster range member
    exact (fatTableReadTouches_inside member).trans enough
  tableSet := by
    rintro fat rfl - cluster range member
    exact (tableSetTouches_inside aligned member).trans enough
  tableAlloc := by
    rintro fat rfl cached range member
    rcases List.mem_append.mp member with loading | later
    · exact (fatTableReadallTouches_inside loading).trans enough
    split at later
    case isFalse => cases later
    case isTrue loads =>
      rcases List.mem_append.mp later with scanning | setting
      · obtain ⟨clusters, inside⟩ := scanTouches_inside scanning
        have allocatable : fat.layout.Allocatable := allocatable_of_loads cached loads
        rcases fits with none | missing | inside'
        · exact absurd none (Nat.not_le.mpr clusters)
        · exact absurd allocatable missing
        · exact inside.trans inside'
      · split at setting
        · cases setting
        · have same : fat.loaded.layout = fat.layout := loaded_layout
          rw [← same] at aligned enough
          exact (tableSetTouches_inside aligned setting).trans enough

theorem accessesWithin_iff (tabular : layout.Tabular) (enough : layout.fatBytes ≤ size) :
    layout.AccessesWithin size ↔ layout.ScanFits size :=
  ⟨fun within => within.scanFits tabular,
    fun fits => fits.accessesWithin (fatBytes_aligned tabular) enough⟩

/-- The accesses on a volume that is accepted stay inside the table if and only if the scan
for a free entry does, where there is something to scan; so it is for the number of bytes
that the buffer has been allocated with, and for the exact one. -/
theorem parseBpb_accessesWithin_iff {bdevSectors : Nat} {bpb : Bpb}
    (parsed : parseBpb bdevSectors bpb = some layout) :
    (layout.AccessesWithin layout.fatBytes ↔ layout.ScanFits layout.fatBytes) ∧
      (layout.AccessesWithin (layout.fatSectors * layout.bytesPerSector) ↔
        layout.ScanFits (layout.fatSectors * layout.bytesPerSector)) :=
  ⟨accessesWithin_iff (parseBpb_tabular parsed) le_rfl,
    accessesWithin_iff (parseBpb_tabular parsed) (Nat.mod_le _ _)⟩

/-- A FAT16 volume with a table of one sector. -/
def shortTable (totalSectors16 : Nat) : Bpb where
  bytesPerSector := 512
  sectorsPerCluster := 1
  reservedSectors := 1
  numFats := 1
  rootEntries := 16
  totalSectors16 := totalSectors16
  fatSize16 := 1
  totalSectors32 := 0
  fatSize32 := 0
  rootCluster := 0

theorem parseBpb_accessesWithin_small :
    ((shortTable 200).layout.AccessesWithin 512 ↔ (shortTable 200).layout.ScanFits 512) ∧
      ((shortTable 200).layout.AccessesWithin (1 * 512) ↔
        (shortTable 200).layout.ScanFits (1 * 512)) :=
  @parseBpb_accessesWithin_iff _ 200 (shortTable 200) (if_pos (by decide))

/-- With 4997 clusters the scan goes on to byte 9998 of a buffer of 512. -/
theorem parseBpb_not_accessesWithin :
    parseBpb 5000 (shortTable 5000) = some (shortTable 5000).layout ∧
      ¬(shortTable 5000).layout.AccessesWithin
        ((shortTable 5000).layout.fatSectors * (shortTable 5000).layout.bytesPerSector) := by
  have parsed : parseBpb 5000 (shortTable 5000) = some (shortTable 5000).layout :=
    if_pos (by decide)
  refine ⟨parsed, fun within => ?_⟩
  rcases within.scanFits (parseBpb_tabular parsed) with none | missing | inside
  · exact absurd none (by decide)
  · exact missing (by decide)
  · exact absurd inside (by decide)

end Unbounded

end Opal.Fat
