import Opal.Fat.Access

/-!
# The codec of table entries

A number that `table_set` stores is what `table_at` returns, as far as the readers of a chain
take it for a cluster.  The values from which `table_at` widens, or from which
`is_cluster_eof` sees the end of a chain, are cluster numbers of the largest volumes.
-/

namespace Opal.Fat

section Codec

def isClusterEof (layout : Layout) (cluster : Nat) : Bool :=
  ¬(2 ≤ cluster ∧ cluster < 0x0ffffff0 ∧ cluster - 2 < layout.clusterCount)

/-- `entry & 0x0fffffff`. -/
def maskEntry (entry : Nat) : Nat := entry % 2 ^ 28

/-- The values that are stored: a free entry, a cluster that can be allocated, or the mark
at the end of a chain. -/
def Layout.Storable (layout : Layout) (value : Nat) : Prop :=
  value = 0 ∨ (2 ≤ value ∧ value < layout.clusterCount + 2) ∨ value = layout.width.mark

/-- What the readers of a chain see of a stored value. -/
def SeenAs (layout : Layout) (value entry : Nat) : Prop :=
  if value = layout.width.mark then isClusterEof layout (maskEntry entry) = true
  else maskEntry entry = value ∧ (2 ≤ value → isClusterEof layout value = false)

/-- `table_set` from one state to another is seen by `table_at` at this cluster only, and
leaves equal copies. -/
structure RoundTrips (fat after : FatTable) (cluster value : Nat) : Prop where
  stored : ∃ entry, (tableAt cluster after).1 = .ok entry ∧ SeenAs fat.layout value entry
  others : ∀ other < fat.layout.clusterCount + 2, other ≠ cluster →
    ∃ entry, (tableAt other after).1 = .ok entry ∧
      ∀ before, (tableAt other fat).1 = .ok before → before = entry
  copies : ∀ i < fat.layout.numFats, ∀ j < fat.layout.numFats, ∀ pos < fat.layout.fatBytes,
    after.copies i pos = after.copies j pos

/-- The first value that is not taken for the number of a cluster. -/
def Width.reserved : Width → Nat
  | fat12 => 0xff0
  | fat16 => 0xfff0
  | fat32 => 0x0ffffff0

/-- The value is free, the mark, or the number of a cluster below the reserved values. -/
def Width.Faithful (width : Width) (value : Nat) : Prop :=
  value = 0 ∨ value = width.mark ∨ value < width.reserved

/-- The copies agree outside of the sectors that a change of the entry is written with. -/
def CopiesAgree (fat : FatTable) (cluster : Nat) : Prop :=
  ∀ i < fat.layout.numFats, ∀ j < fat.layout.numFats, ∀ pos < fat.layout.fatBytes,
    (pos < fat.layout.front cluster ∨
      fat.layout.front cluster + fat.layout.sectors cluster * diskSectorSize ≤ pos) →
    fat.copies i pos = fat.copies j pos

end Codec

section Values

variable {layout : Layout} {value entry : Nat}

theorem mark_lt (width : Width) : width.mark < width.values := by
  cases width <;> decide

theorem clusterCount_le_of_fat16 (few : layout.clusterCount ≤ maxClusters layout.bits)
    (width : layout.width = .fat16) : layout.clusterCount ≤ fat16MaxClusters := by
  unfold Layout.width at width
  unfold maxClusters at few
  split at width
  · cases width
  · rename_i wide
    rw [if_neg wide] at few
    split at width
    · rename_i sixteen
      rwa [if_pos sixteen] at few
    · cases width

theorem clusterCount_le_of_fat32 (few : layout.clusterCount ≤ maxClusters layout.bits)
    (width : layout.width = .fat32) : layout.clusterCount ≤ fat32MaxClusters := by
  unfold Layout.width at width
  unfold maxClusters at few
  split at width
  · cases width
  · rename_i wide
    rw [if_neg wide] at few
    split at width
    · cases width
    · rename_i wider
      rwa [if_neg wider] at few

/-- Every value that is stored fits into an entry. -/
theorem storable_lt (few : layout.clusterCount ≤ maxClusters layout.bits)
    (storable : layout.Storable value) : value < layout.width.values ∧ value < 2 ^ 28 := by
  have count : layout.clusterCount + 2 < layout.width.values ∧
    layout.clusterCount + 2 < 2 ^ 28 := by
    cases width : layout.width with
    | fat12 =>
        have bits := bits_of_fat12 width
        rw [bits] at few
        have bound : layout.clusterCount ≤ 4084 := few
        exact ⟨by show _ < 2 ^ 12; omega, by omega⟩
    | fat16 =>
        have bound : layout.clusterCount ≤ 65524 := clusterCount_le_of_fat16 few width
        exact ⟨by show _ < 2 ^ 16; omega, by omega⟩
    | fat32 =>
        have bound : layout.clusterCount ≤ 0x0ffffff4 := clusterCount_le_of_fat32 few width
        exact ⟨by show _ < 2 ^ 32; omega, by omega⟩
  rcases storable with rfl | ⟨-, cluster⟩ | rfl
  · omega
  · omega
  · refine ⟨mark_lt _, ?_⟩
    cases layout.width <;> decide

/-- The mark at the end of a chain is seen as such. -/
theorem seenAs_mark : SeenAs layout layout.width.mark
    (extendMark layout.width.limit layout.width.mark) := by
  unfold SeenAs isClusterEof
  rw [if_pos rfl, decide_eq_true_eq]
  have beyond : ¬maskEntry (extendMark layout.width.limit layout.width.mark) < 0x0ffffff0 := by
    cases layout.width <;> decide
  exact fun inside => beyond inside.2.1

/-- The readers see the value that was stored exactly if it is faithful. -/
theorem seenAs_iff (few : layout.clusterCount ≤ maxClusters layout.bits)
    (storable : layout.Storable value) :
    SeenAs layout value (extendMark layout.width.limit (value % layout.width.values)) ↔
      layout.width.Faithful value := by
  obtain ⟨fits, small⟩ := storable_lt few storable
  rw [Nat.mod_eq_of_lt fits]
  by_cases isMark : value = layout.width.mark
  · subst isMark
    exact iff_of_true seenAs_mark (Or.inr (Or.inl rfl))
  · unfold SeenAs Width.Faithful isClusterEof
    rw [if_neg isMark]
    rcases storable with rfl | ⟨low, high⟩ | mark
    · refine iff_of_true ⟨?_, fun two => absurd two (by decide)⟩ (Or.inl rfl)
      cases layout.width <;> decide
    · have counted : value - 2 < layout.clusterCount := by omega
      have nonzero : value ≠ 0 := by omega
      have reserved : layout.width.limit ≤ value → layout.width.reserved ≤ value := by
        cases layout.width <;> intro widened <;> exact le_trans (by decide) widened
      simp only [low, counted, isMark, nonzero, true_and, and_true, false_or, forall_const,
        decide_eq_false_iff_not, not_not]
      by_cases widened : layout.width.limit ≤ value
      · -- What `table_at` returns is none of the clusters any more.
        have above : 0x0ffffff0 ≤ maskEntry (extendMark layout.width.limit value) := by
          unfold extendMark maskEntry
          rw [if_pos widened]
          omega
        refine iff_of_false (fun same => ?_) (Nat.not_lt.mpr (reserved widened))
        rw [same.1] at above
        exact Nat.not_lt.mpr above same.2
      · have kept : maskEntry (extendMark layout.width.limit value) = value := by
          unfold extendMark maskEntry
          rw [if_neg widened]
          exact Nat.mod_eq_of_lt small
        simp only [kept, true_and]
        cases width : layout.width with
        | fat12 =>
            rw [width] at widened
            have below : value < 0xff0 := Nat.lt_of_not_le widened
            exact iff_of_true (below.trans (by decide)) below
        | fat16 =>
            rw [width] at widened
            have below : value < 0xfff0 := Nat.lt_of_not_le widened
            exact iff_of_true (below.trans (by decide)) below
        | fat32 => exact Iff.rfl
    · exact absurd mark isMark

end Values

section Claims

variable {fat after : FatTable} {cluster value : Nat}

/-- Writing the sectors of an entry makes the copies equal there. -/
theorem copies_equal_iff (change : Changed fat cluster value after) :
    (∀ i < fat.layout.numFats, ∀ j < fat.layout.numFats, ∀ pos < fat.layout.fatBytes,
      after.copies i pos = after.copies j pos) ↔ CopiesAgree fat cluster := by
  have outside : ∀ i pos, (pos < fat.layout.front cluster ∨
      fat.layout.front cluster + fat.layout.sectors cluster * diskSectorSize ≤ pos) →
      after.copies i pos = fat.copies i pos := by
    intro i pos apart
    rw [change.copies]
    unfold copied
    split
    · exact Memory.copyInto_outside apart
    · rfl
  constructor
  · intro equal i inside j inside' pos bound apart
    rw [← outside i pos apart, ← outside j pos apart]
    exact equal i inside j inside' pos bound
  · intro agree i inside j inside' pos bound
    by_cases apart : pos < fat.layout.front cluster ∨
        fat.layout.front cluster + fat.layout.sectors cluster * diskSectorSize ≤ pos
    · rw [outside i pos apart, outside j pos apart]
      exact agree i inside j inside' pos bound apart
    · obtain ⟨low, high⟩ := not_or.mp apart
      have written : ∀ i < fat.layout.numFats, after.copies i pos =
          (fat.layout.width.encode fat.view cluster value).region (fat.layout.front cluster)
            (pos - fat.layout.front cluster) := by
        intro i inside
        rw [change.copies]
        unfold copied Memory.copyInto
        rw [if_pos (by omega), if_pos (by omega)]
      rw [written i inside, written j inside']

/-- A cluster that is not changed is read as before. -/
theorem Changed.others (change : Changed fat cluster value after) (holds : fat.layout.Holds)
    (entry : cluster < fat.layout.clusterCount + 2) (readable : fat.Readable) {other : Nat}
    (inside : other < fat.layout.clusterCount + 2) (different : other ≠ cluster) :
    ∃ entry, (tableAt other after).1 = .ok entry ∧
      ∀ before, (tableAt other fat).1 = .ok before → before = entry := by
  refine ⟨_, change.tableAt_other holds entry inside different, ?_⟩
  intro before read
  rw [Fat.tableAt_eq readable holds inside] at read
  exact (Except.ok.inj read).symm

theorem roundTrips_iff (fat after : FatTable) (cluster value : Nat)
    (few : fat.layout.clusterCount ≤ maxClusters fat.layout.bits) (holds : fat.layout.Holds)
    (volume : 2 ≤ cluster ∧ cluster < fat.layout.clusterCount + 2)
    (storable : fat.layout.Storable value)
    (changed : tableSet cluster value fat = (.ok (), after)) :
    RoundTrips fat after cluster value ↔
      fat.layout.width.Faithful value ∧ CopiesAgree fat cluster := by
  have readable := readable_of_tableSet holds volume.2 changed
  have change := tableSet_changed readable holds volume.2 changed
  have stored := change.tableAt_self holds volume.2
  constructor
  · intro trips
    refine ⟨(seenAs_iff few storable).mp ?_, (copies_equal_iff change).mp trips.copies⟩
    obtain ⟨entry, read, seen⟩ := trips.stored
    rw [stored] at read
    rw [Except.ok.inj read]
    exact seen
  · rintro ⟨faithful, agree⟩
    refine ⟨⟨_, stored, (seenAs_iff few storable).mpr faithful⟩, ?_,
      (copies_equal_iff change).mpr agree⟩
    intro other inside different
    exact change.others holds volume.2 readable inside different

/-- The largest volume with entries of 12 bits, all clusters of which are free. -/
def largestFat12 : FatTable where
  layout :=
    { bits := 12, bytesPerSector := 512, sectorsPerCluster := 1, reservedSectors := 1, numFats := 2,
      fatSectors := 12, totalSectors := 4123, dataOffset := 39, clusterCount := 4084,
      root := .fixed 25 224 }
  tabular := ⟨by decide, fun _ => by decide⟩
  buffer := none
  copies := fun _ _ => 0
  mem := AllocOracle.always
  reads := Stream'.const none
  writes := Stream'.const none

theorem largestFat12_holds : largestFat12.layout.Holds := by
  unfold Layout.Holds
  decide

theorem tableSet_largestFat12 (value : Nat) :
    ∃ after, tableSet 2 value largestFat12 = (.ok (), after) := by
  rw [tableSet_eq (fun _ => ⟨rfl, rfl⟩) largestFat12_holds (by decide)]
  exact writeCopies_succeeds fun _ _ => rfl

/-- The cluster 17 comes back. -/
theorem roundTrips_iff_largestFat12 :
    ∃ after, tableSet 2 17 largestFat12 = (.ok (), after) ∧
      RoundTrips largestFat12 after 2 17 := by
  obtain ⟨after, changed⟩ := tableSet_largestFat12 17
  refine ⟨after, changed, ?_⟩
  refine (roundTrips_iff largestFat12 after 2 17 (by decide) largestFat12_holds (by decide)
    (Or.inr (Or.inl (by decide))) changed).mpr ⟨Or.inr (Or.inr (by decide)), ?_⟩
  intro i _ j _ pos _ _
  rfl

/-- The cluster 0xff0 is read as the end of a chain. -/
theorem not_roundTrips_largestFat12 :
    ∃ after, tableSet 2 0xff0 largestFat12 = (.ok (), after) ∧
      ¬RoundTrips largestFat12 after 2 0xff0 := by
  obtain ⟨after, changed⟩ := tableSet_largestFat12 0xff0
  have change := tableSet_changed (fun _ => ⟨rfl, rfl⟩) largestFat12_holds (by decide) changed
  refine ⟨after, changed, fun trips => ?_⟩
  obtain ⟨entry, read, seen⟩ := trips.stored
  rw [change.tableAt_self largestFat12_holds (by decide)] at read
  obtain rfl := Except.ok.inj read
  exact absurd seen (by unfold SeenAs; decide)

end Claims

end Opal.Fat
