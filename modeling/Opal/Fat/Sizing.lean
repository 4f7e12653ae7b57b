import Opal.Fat.Layout

/-!
# Which layout a device gets

A FAT12 or FAT16 volume has one sector per cluster, so its layout is fixed by the
number `c` of sectors of one FAT: the sectors that are left need exactly `c` sectors
of entries.  The iteration of `calc_fat_layout` finds this number whenever there is
one, and FAT32 is what remains.
-/

namespace Opal.Fat

section Fixpoint

/-- The reserved sector and the root directory of FAT12 and FAT16. -/
def overhead (bits : Nat) : Nat := if bits = 12 then 15 else 33

/-- The sectors that entries of this width for all clusters need. -/
def needed (bits clusters : Nat) : Nat := ((clusters + 2) * bits + 4095) / 4096

/-- The clusters that are left when each FAT has `c` sectors. -/
def left (bits n c : Nat) : Nat := n - (overhead bits + 2 * c)

/-- One FAT of `c` sectors is exactly what the clusters left over need, and there are
not too many of them. -/
structure Fits (bits n c : Nat) : Prop where
  room : overhead bits + 2 * c + 1 < n
  exact : needed bits (left bits n c) = c
  few : left bits n c ≤ maxClusters bits

def smallLayout (bits n c : Nat) : Layout where
  bits := bits
  bytesPerSector := diskSectorSize
  sectorsPerCluster := 1
  reservedSectors := 1
  numFats := fatNumFats
  fatSectors := c
  totalSectors := n
  dataOffset := overhead bits + 2 * c
  clusterCount := left bits n c
  root := .fixed (1 + 2 * c) (rootEntriesFor bits)

variable {bits n : Nat}

theorem fatSectorsFor_eq (narrow : bits = 12 ∨ bits = 16) {clusters : Nat}
    (small : clusters < 2 ^ 20) :
    fatSectorsFor bits clusters diskSectorSize = needed bits clusters := by
  have entries : (clusters + 2) % 2 ^ 32 = clusters + 2 := Nat.mod_eq_of_lt (by omega)
  simp only [fatSectorsFor, needed, diskSectorSize, entries]
  rcases narrow with rfl | rfl
  · rw [if_pos rfl, Nat.mod_eq_of_lt (show (clusters + 2) * 3 + 1 < 2 ^ 32 by omega),
      Nat.mod_eq_of_lt (by omega)]
    omega
  · rw [if_neg (by decide), Nat.mod_eq_of_lt (show (clusters + 2) * 16 < 2 ^ 32 by omega),
      Nat.mod_eq_of_lt (by omega)]
    omega

theorem needed_le (narrow : bits = 12 ∨ bits = 16) {clusters : Nat} (small : clusters < 2 ^ 20) :
    needed bits clusters ≤ 5000 := by
  rcases narrow with rfl | rfl <;> simp only [needed] <;> omega

/-- One round of the loop with one sector per cluster. -/
theorem calcFatLayoutLoop_succ (narrow : bits = 12 ∨ bits = 16) (small : n < 2 ^ 20)
    (rounds : Nat) {candidate : Nat} (low : candidate ≤ 5000) :
    calcFatLayoutLoop bits n diskSectorSize 1 (rounds + 1) candidate =
      if overhead bits + 2 * candidate + 1 ≥ n then none
      else if candidate = needed bits (left bits n candidate) then
        if left bits n candidate ≤ maxClusters bits then some (smallLayout bits n candidate)
        else none
      else calcFatLayoutLoop bits n diskSectorSize 1 rounds
        (needed bits (left bits n candidate)) := by
  have wide : bits ≠ 32 := by rcases narrow with rfl | rfl <;> decide
  have reserved : reservedSectorsFor bits = 1 := if_neg wide
  have fats : fatNumFats * candidate % 2 ^ 32 = 2 * candidate := by
    simp only [fatNumFats]
    omega
  have offset : (1 + (2 * candidate +
      (rootEntriesFor bits * 32 + diskSectorSize - 1) / diskSectorSize)) % 2 ^ 32 =
      overhead bits + 2 * candidate := by
    rcases narrow with rfl | rfl <;>
      simp [rootEntriesFor, fat12RootEntries, fat16RootEntries, diskSectorSize, overhead] <;> omega
  have spare : (overhead bits + 2 * candidate + 1) % 2 ^ 32 =
    overhead bits + 2 * candidate + 1 := by
    rcases narrow with rfl | rfl <;> simp [overhead] <;> omega
  have entries : fatSectorsFor bits (left bits n candidate) diskSectorSize =
      needed bits (left bits n candidate) :=
    fatSectorsFor_eq narrow (lt_of_le_of_lt (Nat.sub_le _ _) small)
  have start : (1 + 2 * candidate) % 2 ^ 32 = 1 + 2 * candidate := by omega
  rw [calcFatLayoutLoop]
  simp only [reserved, fats, if_pos wide, offset, spare, Nat.div_one, start, if_neg wide,
    isValidClusters, decide_eq_true_eq]
  rw [show n - (overhead bits + 2 * candidate) = left bits n candidate from rfl, entries]
  by_cases same : candidate = needed bits (left bits n candidate)
  · simp only [if_pos same, smallLayout]
    rw [← same]
  · simp only [if_neg same]

/-- What the loop returns fits. -/
theorem fits_of_calcFatLayoutLoop (narrow : bits = 12 ∨ bits = 16) (small : n < 2 ^ 20)
    {rounds candidate : Nat} (low : candidate ≤ 5000) {layout : Layout}
    (found : calcFatLayoutLoop bits n diskSectorSize 1 rounds candidate = some layout) :
    ∃ c, Fits bits n c ∧ layout = smallLayout bits n c := by
  induction rounds generalizing candidate with
  | zero => cases found
  | succ rounds ih =>
    rw [calcFatLayoutLoop_succ narrow small rounds low] at found
    by_cases full : overhead bits + 2 * candidate + 1 ≥ n
    · rw [if_pos full] at found
      cases found
    rw [if_neg full] at found
    by_cases same : candidate = needed bits (left bits n candidate)
    · rw [if_pos same] at found
      by_cases few : left bits n candidate ≤ maxClusters bits
      · rw [if_pos few] at found
        exact ⟨candidate, ⟨not_le.mp full, same.symm, few⟩, (Option.some.inj found).symm⟩
      · rw [if_neg few] at found
        cases found
    · rw [if_neg same] at found
      exact ih (needed_le narrow (lt_of_le_of_lt (Nat.sub_le _ _) small)) found

theorem Fits.le (narrow : bits = 12 ∨ bits = 16) {c : Nat} (fits : Fits bits n c) :
    c ≤ 256 ∧ n < 2 ^ 17 := by
  obtain ⟨room, exact, few⟩ := fits
  rcases narrow with rfl | rfl <;>
    simp [needed, left, overhead, maxClusters, fat12MaxClusters, fat16MaxClusters] at * <;> omega

/-- A number of sectors that needs itself is the only one. -/
theorem Fits.eq_of_needed (narrow : bits = 12 ∨ bits = 16) {c x : Nat} (fits : Fits bits n c)
    (same : needed bits (left bits n x) = x) : x = c := by
  have exact := fits.exact
  rcases narrow with rfl | rfl <;> simp only [needed, left, overhead] at * <;> omega

/-- From the second round on the candidates stay next to the number that fits. -/
theorem Fits.near (narrow : bits = 12 ∨ bits = 16) {c : Nat} (fits : Fits bits n c) :
    c ≤ needed bits (left bits n 1) ∧ needed bits (left bits n 1) ≤ c + 2 := by
  have bounds := fits.le narrow
  have exact := fits.exact
  have room := fits.room
  rcases narrow with rfl | rfl <;> simp [needed, left, overhead] at * <;> omega

theorem Fits.of_above (narrow : bits = 12 ∨ bits = 16) {c x : Nat} (fits : Fits bits n c)
    (low : c ≤ x) (high : x ≤ c + 2) (many : 1 < c) :
    overhead bits + 2 * x + 1 < n ∧ needed bits (left bits n x) ≤ c ∧
      c ≤ needed bits (left bits n x) + 1 ∧
      (needed bits (left bits n x) + 1 = c → needed bits (left bits n (c - 1)) = c) := by
  have exact := fits.exact
  have room := fits.room
  rcases narrow with rfl | rfl <;> simp [needed, left, overhead] at * <;> omega

/-- The loop finds the number of sectors that fits. -/
theorem Fits.calcFatLayout (narrow : bits = 12 ∨ bits = 16) {c : Nat} (fits : Fits bits n c) :
    calcFatLayout bits n diskSectorSize 1 = some (smallLayout bits n c) := by
  obtain ⟨few, tiny⟩ := fits.le narrow
  have small : n < 2 ^ 20 := by omega
  have reached (rounds : Nat) :
      calcFatLayoutLoop bits n diskSectorSize 1 (rounds + 1) c = some (smallLayout bits n c) := by
    rw [calcFatLayoutLoop_succ narrow small rounds (by omega), if_neg (not_le.mpr fits.room),
      if_pos fits.exact.symm, if_pos fits.few]
  have next (rounds : Nat) {x : Nat} (low : x ≤ 5000) (room : overhead bits + 2 * x + 1 < n)
      (other : x ≠ c) : calcFatLayoutLoop bits n diskSectorSize 1 (rounds + 1) x =
        calcFatLayoutLoop bits n diskSectorSize 1 rounds (needed bits (left bits n x)) := by
    rw [calcFatLayoutLoop_succ narrow small rounds low, if_neg (not_le.mpr room), if_neg]
    exact fun same => other (fits.eq_of_needed narrow same.symm)
  rw [Fat.calcFatLayout]
  by_cases one : c = 1
  · subst one
    exact reached 31
  have exact := fits.exact
  have room := fits.room
  have many : 1 < c := by
    rcases narrow with rfl | rfl <;> simp only [needed] at exact <;> omega
  obtain ⟨low, high⟩ := fits.near narrow
  rw [next 31 (by omega) (by omega) (by omega)]
  generalize needed bits (left bits n 1) = x at *
  by_cases hit : x = c
  · rw [hit]
    exact reached 30
  obtain ⟨roomX, notAbove, near, back⟩ := fits.of_above narrow low high many
  rw [next 30 (by omega) roomX hit]
  by_cases hitNext : needed bits (left bits n x) = c
  · rw [hitNext]
    exact reached 29
  have belowC : needed bits (left bits n x) + 1 = c := by omega
  have isPred : needed bits (left bits n x) = c - 1 := by omega
  rw [isPred, next 29 (by omega) (by omega) (by omega), back belowC]
  exact reached 28

end Fixpoint

section Choice

variable {n : Nat} {layout : Layout}

theorem recommendedSectorsPerCluster_spec {spc : Nat}
    (recommended : recommendedSectorsPerCluster n = some spc) :
    (n < 2 ^ 20 ∧ spc = 1) ∨ (2 ^ 19 * spc ≤ n ∧ 1 ≤ spc) := by
  unfold recommendedSectorsPerCluster at recommended
  repeat' split at recommended
  all_goals simp at recommended
  all_goals omega

/-- A device with more sectors per cluster has too many clusters for FAT12 and FAT16. -/
theorem calcFatLayoutLoop_eq_none {bits spc : Nat} (narrow : bits = 12 ∨ bits = 16)
    (positive : 1 ≤ spc) (large : 2 ^ 19 * spc ≤ n) (rounds candidate : Nat) :
    calcFatLayoutLoop bits n diskSectorSize spc rounds candidate = none := by
  have wide : bits ≠ 32 := by rcases narrow with rfl | rfl <;> decide
  induction rounds generalizing candidate with
  | zero => rfl
  | succ rounds ih =>
    rw [calcFatLayoutLoop]
    simp only [if_pos wide]
    split
    · rfl
    split
    · rename_i same
      split
      · rename_i few
        exfalso
        -- few clusters need few sectors, but then most of the device is left
        have clusters := of_decide_eq_true few
        have max : maxClusters bits ≤ 65524 := by
          rcases narrow with rfl | rfl <;> decide
        have sectors := fatSectorsFor_eq narrow
          (lt_of_le_of_lt clusters (lt_of_le_of_lt max (by decide)))
        rw [sectors] at same
        have entries : candidate ≤ 256 := by
          rw [same]
          rcases narrow with rfl | rfl <;> simp only [needed] <;> omega
        have offset : (reservedSectorsFor bits + (fatNumFats * candidate % 2 ^ 32 +
            (rootEntriesFor bits * 32 + diskSectorSize - 1) / diskSectorSize)) % 2 ^ 32 ≤ 545 := by
          apply le_trans (Nat.mod_le _ _)
          rcases narrow with rfl | rfl <;>
            simp [reservedSectorsFor, rootEntriesFor, fat12RootEntries, fat16RootEntries,
              diskSectorSize, fatNumFats] <;> omega
        have bound := (Nat.div_lt_iff_lt_mul positive).mp
          (Nat.lt_succ_of_le (le_trans clusters max))
        omega
      · rfl
    · exact ih _

/-- What a FAT32 layout looks like: the data area starts right after the reserved
sectors, where the FATs are. -/
structure Wide (n : Nat) (layout : Layout) : Prop where
  bits : layout.bits = 32
  reserved : layout.reservedSectors = 32
  offset : layout.dataOffset = 32
  fats : layout.numFats = 2
  root : layout.root = .cluster fat32RootCluster
  clusters : 1 ≤ layout.clusterCount
  perCluster : 1 ≤ layout.sectorsPerCluster

theorem wide_of_calcFatLayoutLoop {spc rounds candidate : Nat} (positive : 1 ≤ spc)
    (room : 32 + spc < n)
    (found : calcFatLayoutLoop 32 n diskSectorSize spc rounds candidate = some layout) :
    Wide n layout := by
  induction rounds generalizing candidate with
  | zero => cases found
  | succ rounds ih =>
    rw [calcFatLayoutLoop] at found
    simp only [ne_eq, not_true_eq_false, if_false, if_true] at found
    split at found
    · cases found
    split at found
    · split at found
      · cases found
        refine ⟨rfl, rfl, rfl, rfl, rfl, ?_, positive⟩
        exact Nat.div_pos (by simp [reservedSectorsFor, fat32ReservedSectors]; omega) positive
      · cases found
    · exact ih found

theorem room_of_calcFatLayout {spc : Nat} (small : spc ≤ 64)
    (found : calcFatLayout 32 n diskSectorSize spc = some layout) : 32 + spc < n := by
  rw [calcFatLayout, calcFatLayoutLoop] at found
  simp [reservedSectorsFor, fat32ReservedSectors, fatNumFats] at found
  omega

/-- The three ways `setup_layout` can end well. -/
theorem setupLayout_cases (found : setupLayout n = some layout) :
    (∃ c, Fits 12 n c ∧ layout = smallLayout 12 n c) ∨
    (∃ c, Fits 16 n c ∧ layout = smallLayout 16 n c ∧ ¬ ∃ c, Fits 12 n c) ∨
    (Wide n layout ∧ (¬ ∃ c, Fits 12 n c) ∧ ¬ ∃ c, Fits 16 n c) := by
  obtain ⟨spc, recommended, found⟩ := Option.bind_eq_some_iff.mp found
  rcases recommendedSectorsPerCluster_spec recommended with ⟨small, rfl⟩ | ⟨large, positive⟩
  · cases twelve : calcFatLayout 12 n diskSectorSize 1 with
    | some chosen =>
      rw [twelve] at found
      cases found
      exact .inl (fits_of_calcFatLayoutLoop (.inl rfl) small (by decide) twelve)
    | none =>
      rw [twelve] at found
      replace found : (calcFatLayout 16 n diskSectorSize 1 <|>
        calcFatLayout 32 n diskSectorSize 1) = some layout := found
      have no12 : ¬ ∃ c, Fits 12 n c := by
        rintro ⟨c, fits⟩
        rw [fits.calcFatLayout (.inl rfl)] at twelve
        cases twelve
      cases sixteen : calcFatLayout 16 n diskSectorSize 1 with
      | some chosen =>
        rw [sixteen] at found
        cases found
        obtain ⟨c, fits, eq⟩ := fits_of_calcFatLayoutLoop (.inr rfl) small (by decide) sixteen
        exact .inr (.inl ⟨c, fits, eq, no12⟩)
      | none =>
        rw [sixteen] at found
        replace found : calcFatLayout 32 n diskSectorSize 1 = some layout := found
        have no16 : ¬ ∃ c, Fits 16 n c := by
          rintro ⟨c, fits⟩
          rw [fits.calcFatLayout (.inr rfl)] at sixteen
          cases sixteen
        have room := room_of_calcFatLayout (by decide) found
        exact .inr (.inr ⟨wide_of_calcFatLayoutLoop (le_refl 1) room found, no12, no16⟩)
  · have none12 := calcFatLayoutLoop_eq_none (.inl rfl) positive large 32 1
    have none16 := calcFatLayoutLoop_eq_none (.inr rfl) positive large 32 1
    rw [show calcFatLayout 12 n diskSectorSize spc = none from none12,
      show calcFatLayout 16 n diskSectorSize spc = none from none16] at found
    replace found : calcFatLayout 32 n diskSectorSize spc = some layout := found
    have unfit {bits : Nat} (narrow : bits = 12 ∨ bits = 16) : ¬ ∃ c, Fits bits n c := by
      rintro ⟨c, fits⟩
      have := (fits.le narrow).2
      omega
    have room : 32 + spc < n := by omega
    exact .inr (.inr ⟨wide_of_calcFatLayoutLoop positive room found, unfit (.inl rfl),
      unfit (.inr rfl)⟩)

end Choice

section Mount

variable {n : Nat}

/-- A mount derives the width from the number of clusters. -/
theorem parseBpb_smallLayout {bits c : Nat} (narrow : bits = 12 ∨ bits = 16)
    (fits : Fits bits n c) :
    parseBpb n (setupBpb (smallLayout bits n c)) =
      some { smallLayout bits n c with
        bits := if left bits n c ≤ fat12MaxClusters then 12 else 16 } := by
  obtain ⟨small, tiny⟩ := fits.le narrow
  have room := fits.room
  have positive : c ≠ 0 := by
    have exact := fits.exact
    rcases narrow with rfl | rfl <;> simp only [needed] at exact <;> omega
  have wide : bits ≠ 32 := by rcases narrow with rfl | rfl <;> decide
  generalize fields : setupBpb (smallLayout bits n c) = bpb
  have size16 : bpb.fatSize16 = c := by
    rw [← fields]
    exact (if_neg wide).trans (Nat.mod_eq_of_lt (by simp only [smallLayout]; omega))
  have total : bpb.totalSectors = n := by
    simp only [← fields, Bpb.totalSectors, setupBpb, smallLayout]
    by_cases large : n ≥ uint16Max
    · simp [large]
    · simp [large]
  have psec : bpb.totalPsec = n := by
    have bps : bpb.bytesPerSector = 512 := by rw [← fields]; rfl
    rw [Bpb.totalPsec, total, bps, show 512 / diskSectorSize = 1 from rfl, Nat.mul_one]
  have fats : bpb.fatSectors = c := by rw [Bpb.fatSectors, size16, if_neg positive]
  have fatsTotal : bpb.fatsSectors = 2 * c := by
    rw [Bpb.fatsSectors, fats, ← fields]
    rfl
  have rootDir : 1 + bpb.rootDirSectors = overhead bits := by
    simp only [← fields, Bpb.rootDirSectors, setupBpb, smallLayout]
    rcases narrow with rfl | rfl <;> decide
  have offset : bpb.dataOffset = overhead bits + 2 * c := by
    have reserved : bpb.reservedSectors = 1 := by rw [← fields]; rfl
    rw [Bpb.dataOffset, fatsTotal, reserved]
    omega
  have clusters : bpb.clusterCount = left bits n c := by
    rw [Bpb.clusterCount, total, offset, ← fields]
    exact Nat.div_one _
  have width : bpb.bits = if left bits n c ≤ fat12MaxClusters then 12 else 16 := by
    rw [Bpb.bits, size16, if_neg positive, clusters]
  have notWide : bpb.bits ≠ 32 := by
    rw [width]
    split <;> decide
  have accepted : bpb.Accepted n := by
    refine ⟨?_, ?_, ?_, ?_, by omega, by omega, by omega, by omega, by omega⟩ <;>
      rw [← fields] <;> simp [setupBpb, smallLayout, fatNumFats] <;> rfl
  rw [parseBpb, if_pos accepted, Bpb.layout, if_neg notWide, width, fats, total, offset, clusters,
    fatsTotal, ← fields]
  simp only [setupBpb, smallLayout, Option.some.injEq, Layout.mk.injEq, true_and, Root.fixed.injEq,
    and_true]
  omega

theorem Wide.parseBpb_ne {layout : Layout} (wide : Wide n layout) :
    parseBpb n (setupBpb layout) ≠ some layout := by
  intro same
  have size16 : (setupBpb layout).fatSize16 = 0 := if_pos wide.bits
  have fats : (setupBpb layout).numFats = 2 := wide.fats
  have reserved : (setupBpb layout).reservedSectors = 32 := wide.reserved
  rw [parseBpb] at same
  split at same
  · rename_i accepted
    have offset := congrArg Layout.dataOffset (Option.some.inj same)
    rw [wide.offset] at offset
    have sizes : (setupBpb layout).fatSectors ≠ 0 := accepted.size
    have sum : (setupBpb layout).reservedSectors + (setupBpb layout).numFats *
        (setupBpb layout).fatSectors + (setupBpb layout).rootDirSectors = 32 := offset
    rw [fats, reserved] at sum
    omega
  · cases same

/-- A mount recovers the layout of a new volume exactly when the device has a FAT12
layout, or a FAT16 layout with more clusters than FAT12 allows. -/
theorem parseBpb_setupBpb_iff (n : Nat) (layout : Layout) (found : setupLayout n = some layout) :
    parseBpb n (setupBpb layout) = some layout ↔
      (∃ c, Fits 12 n c) ∨ ∃ c, Fits 16 n c ∧ fat12MaxClusters < left 16 n c := by
  rcases setupLayout_cases found with
    ⟨c, fits, rfl⟩ | ⟨c, fits, rfl, no12⟩ | ⟨wide, no12, no16⟩
  · have few : left 12 n c ≤ fat12MaxClusters := fits.few
    rw [parseBpb_smallLayout (.inl rfl) fits, if_pos few]
    exact iff_of_true rfl (.inl ⟨c, fits⟩)
  · rw [parseBpb_smallLayout (.inr rfl) fits]
    by_cases few : left 16 n c ≤ fat12MaxClusters
    · rw [if_pos few]
      refine iff_of_false (fun same => ?_) ?_
      · have bits := congrArg Layout.bits (Option.some.inj same)
        cases bits
      · rintro (some12 | ⟨d, fitsD, many⟩)
        · exact no12 some12
        · rw [fits.eq_of_needed (.inr rfl) fitsD.exact] at many
          exact absurd few (not_le.mpr many)
    · rw [if_neg few]
      exact iff_of_true rfl (.inr ⟨c, fits, not_le.mp few⟩)
  · refine iff_of_false wide.parseBpb_ne ?_
    rintro (some12 | ⟨d, fits, -⟩)
    · exact no12 some12
    · exact no16 ⟨d, fits⟩

theorem parseBpb_setupBpb_floppy :
    setupLayout 2880 = some (smallLayout 12 2880 9) ∧
      parseBpb 2880 (setupBpb (smallLayout 12 2880 9)) = some (smallLayout 12 2880 9) := by
  have found : setupLayout 2880 = some (smallLayout 12 2880 9) := by decide +kernel
  refine ⟨found, (parseBpb_setupBpb_iff 2880 _ found).mpr (.inl ⟨9, ?_⟩)⟩
  exact ⟨by decide, by decide, by decide⟩

/-- The layout of a device of 70000 sectors. -/
def wideLayout : Layout where
  bits := 32
  bytesPerSector := 512
  sectorsPerCluster := 1
  reservedSectors := 32
  numFats := 2
  fatSectors := 547
  totalSectors := 70000
  dataOffset := 32
  clusterCount := 69968
  root := .cluster 2

theorem parseBpb_setupBpb_not_always :
    ¬ ∀ n layout, setupLayout n = some layout → parseBpb n (setupBpb layout) = some layout := by
  intro claim
  have found : setupLayout 70000 = some wideLayout := by decide +kernel
  have other : parseBpb 70000 (setupBpb wideLayout) ≠ some wideLayout := by decide +kernel
  exact other (claim 70000 wideLayout found)

end Mount

end Opal.Fat
