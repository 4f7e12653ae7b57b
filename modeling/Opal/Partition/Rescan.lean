import Opal.Library.Outcome
import Opal.Partition.Table

/-!
# A created partition and the next scan

`modify_partition` tests a request in 64 bits and stores it in the 32-bit fields of the
boot record, where `build_part_table` tests it again in 32 bits.  Both agree exactly on the
requests that end below sector `2 ^ 32`.
-/

namespace Opal.Partition

variable {disk : Disk} {mbr : Memory} {index : Nat} {lba sectors : UInt64} {type : UInt8}
  {pool : Pool}

section Codec

variable {entry : MbrPartEntry} {i : Nat}

theorem word_bytes_lba : entry.bytes.word 8 4 = entry.lba.toNat := by
  have same : entry.bytes.word 8 4 = (Memory.bytesOf entry.lba.toNat).word 0 4 := by
    apply Memory.word_congr
    intro i lower
    rw [Nat.add_comm 8, MbrPartEntry.bytes, if_pos lower, Nat.zero_add]
  rw [same, Memory.word_bytesOf, Nat.pow_zero, Nat.div_one]
  exact Nat.mod_eq_of_lt entry.lba.toNat_lt

theorem word_bytes_sectors : entry.bytes.word 12 4 = entry.sectors.toNat := by
  have same : entry.bytes.word 12 4 = (Memory.bytesOf entry.sectors.toNat).word 0 4 := by
    apply Memory.word_congr
    intro i lower
    have offset : 12 + i = i + 4 + 8 := by omega
    rw [offset, MbrPartEntry.bytes, if_neg (by omega), Nat.add_sub_cancel, Nat.zero_add]
  rw [same, Memory.word_bytesOf, Nat.pow_zero, Nat.div_one]
  exact Nat.mod_eq_of_lt entry.sectors.toNat_lt

theorem decodeEntry_bytes : decodeEntry entry.bytes = entry := by
  unfold decodeEntry
  rw [word_bytes_lba, word_bytes_sectors, UInt32.ofNat_toNat, UInt32.ofNat_toNat]
  rfl

theorem decodeEntry_congr {bytes bytes' : Memory}
    (same : ∀ k < mbrPartEntrySize, bytes' k = bytes k) :
    decodeEntry bytes' = decodeEntry bytes := by
  have word (pos : Nat) (lower : pos + 4 ≤ mbrPartEntrySize) :
      bytes'.word pos 4 = bytes.word pos 4 :=
    Memory.word_congr fun k small => same _ (by omega)
  unfold decodeEntry
  rw [word 8 (by decide), word 12 (by decide), same 0 (by decide), same 1 (by decide),
    same 2 (by decide), same 3 (by decide), same 4 (by decide), same 5 (by decide),
    same 6 (by decide), same 7 (by decide)]

/-- An entry that was written reads back. -/
theorem tableEntry_putEntry : tableEntry (putEntry mbr entry index) index = entry := by
  have written : tableEntry (putEntry mbr entry index) index = decodeEntry entry.bytes :=
    decodeEntry_congr fun _ lower => Memory.copyInto_inside lower
  rw [written, decodeEntry_bytes]

theorem tableEntry_putEntry_of_ne (other : i ≠ index) :
    tableEntry (putEntry mbr entry index) i = tableEntry mbr i := by
  apply decodeEntry_congr
  intro k lower
  apply Memory.copyInto_outside
  unfold entryOffset mbrPartEntrySize at *
  omega

/-- The signature lies behind the table. -/
theorem tableEntry_sign (inside : i < 4) : tableEntry (sign mbr) i = tableEntry mbr i := by
  apply decodeEntry_congr
  intro k lower
  have before : entryOffset i + k < 510 := by
    unfold entryOffset partitionTableOffset mbrPartEntrySize at *
    omega
  unfold Memory.region sign
  rw [if_neg before.ne, if_neg (by omega)]

end Codec

section Scan

variable {table : Nat → MbrPartEntry}

/-- No allocation fails and there is room for the devices of a scan. -/
structure Ample (pool : Pool) (devices : Nat) : Prop where
  blocks : ∀ n, pool.blocks.get n ≠ none
  devices : pool.devicesCount + devices ≤ maxDevices

theorem Ample.mono {devices devices' : Nat} (ample : Ample pool devices)
    (fewer : devices' ≤ devices) : Ample pool devices' :=
  ⟨ample.blocks, Nat.le_trans (Nat.add_le_add_left fewer _) ample.devices⟩

theorem Ample.take {devices : Nat} (ample : Ample pool devices) :
    ∃ extra pool', pool.take = (some extra, pool') ∧ Ample pool' devices ∧
      pool'.devicesCount = pool.devicesCount := by
  obtain ⟨extra, head⟩ := Option.ne_none_iff_exists'.mp (ample.blocks 0)
  refine ⟨extra, pool.take.2, Prod.ext head rfl, ?_, rfl⟩
  exact ⟨fun n => ample.blocks (n + 1), ample.devices⟩

/-- A range that is not broken does not wrap and ends on the disk. -/
theorem not_broken_iff {entry : MbrPartEntry} : broken disk entry = false ↔
    entry.lba ≠ 0 ∧ 0 < entry.sectors.toNat ∧ entry.lba.toNat + entry.sectors.toNat < 2 ^ 32 ∧
      entry.lba.toNat + entry.sectors.toNat ≤ disk.sectors.toNat := by
  have first := entry.lba.toNat_lt
  have second := entry.sectors.toNat_lt
  have zero : entry.lba = 0 ↔ entry.lba.toNat = 0 := UInt32.toNat_inj.symm
  unfold broken
  simp only [Bool.or_eq_false_iff, decide_eq_false_iff_not, UInt32.le_iff_toNat_le, zero,
    UInt64.lt_iff_toNat_lt, UInt32.toNat_add, UInt32.toNat_toUInt64, ne_eq]
  omega

/-- A device for a range that is not broken fires no assertion, and is made when nothing is
short. -/
theorem blockDeviceCreate_of_not_broken {entry : MbrPartEntry} {name : String}
    (valid : broken disk entry = false) :
    ∃ dev pool',
      blockDeviceCreate disk name entry.lba.toUInt64 entry.sectors.toUInt64 pool =
        .ok (dev, pool') ∧
      ∀ left, Ample pool (left + 1) → dev.isSome ∧ Ample pool' left := by
  obtain ⟨-, positive, apart, inside⟩ := not_broken_iff.mp valid
  have nonempty :
      ¬entry.lba.toUInt64 + entry.sectors.toUInt64 ≤ entry.lba.toUInt64 := by
    rw [UInt64.le_iff_toNat_le, UInt64.toNat_add, UInt32.toNat_toUInt64, UInt32.toNat_toUInt64]
    omega
  have onDisk : ¬disk.sectors < entry.lba.toUInt64 + entry.sectors.toUInt64 := by
    rw [UInt64.lt_iff_toNat_lt, UInt64.toNat_add, UInt32.toNat_toUInt64, UInt32.toNat_toUInt64]
    omega
  unfold blockDeviceCreate
  simp only [nonempty, onDisk, if_false]
  by_cases full : maxDevices ≤ pool.devicesCount
  · rw [if_pos full]
    refine ⟨none, pool, rfl, ?_⟩
    intro left ample
    have room := ample.devices
    omega
  · rw [if_neg full]
    rcases taken : pool.take with ⟨_ | extra, pool'⟩
    · refine ⟨none, pool', rfl, ?_⟩
      intro left ample
      obtain ⟨extra, pool'', taken', -⟩ := ample.take
      rw [taken] at taken'
      cases taken'
    · refine ⟨_, _, rfl, ?_⟩
      intro left ample
      obtain ⟨extra', pool'', taken', ample', same⟩ := ample.take
      rw [taken] at taken'
      cases taken'
      refine ⟨rfl, ample'.blocks, ?_⟩
      have room := ample'.devices
      change pool'.devicesCount + 1 + left ≤ maxDevices
      omega

theorem allocPartName_of_ample {i devices : Nat} (ample : Ample pool devices) :
    ∃ pool', allocPartName disk i pool = (some (disk.name ++ ":" ++ toString i), pool') ∧
      Ample pool' devices := by
  obtain ⟨extra, pool', taken, ample', -⟩ := ample.take
  exact ⟨pool', by rw [allocPartName, taken], ample'⟩

theorem allocPartName_some {i : Nat} {name : String} {pool' : Pool}
    (allocated : allocPartName disk i pool = (some name, pool')) :
    name = disk.name ++ ":" ++ toString i := by
  unfold allocPartName at allocated
  split at allocated
  · cases allocated
    rfl
  · cases allocated

theorem pushBack_of_ample {partitions : Partitions} {entry : PartitionEntry} {devices : Nat}
    (ample : Ample pool devices) :
    ∃ pushed pool', pushBack partitions entry pool = (some pushed, pool') ∧
      Ample pool' devices := by
  obtain ⟨extra, pool', taken, ample', -⟩ := ample.take
  unfold pushBack
  by_cases room : pushedSize partitions ≤ partitions.capacity
  · rw [if_pos room]
    exact ⟨_, _, rfl, ample⟩
  · rw [if_neg room, taken]
    exact ⟨_, _, rfl, ample'⟩

theorem pushBack_some {partitions pushed : Partitions} {entry : PartitionEntry} {pool' : Pool}
    (done : pushBack partitions entry pool = (some pushed, pool')) :
    pushed.entries = partitions.entries ++ [entry] := by
  unfold pushBack at done
  by_cases room : pushedSize partitions ≤ partitions.capacity
  · rw [if_pos room] at done
    cases done
    rfl
  · rw [if_neg room] at done
    rcases taken : pool.take with ⟨_ | extra, pool''⟩
    · rw [taken] at done
      cases done
    · rw [taken] at done
      cases done
      rfl

/-- The partition that a scan makes of an entry that is in use and not broken. -/
def partitionOf (disk : Disk) (table : Nat → MbrPartEntry) (i : Nat) : PartitionEntry :=
  { index := i
    bdev :=
      { name := disk.name ++ ":" ++ toString i
        offset := (table i).lba.toUInt64
        sectors := (table i).sectors.toUInt64
        refcount := 0 } }

def registered (disk : Disk) (table : Nat → MbrPartEntry) (i : Nat) : Option PartitionEntry :=
  if (table i).type = 0 ∨ broken disk (table i) then none else some (partitionOf disk table i)

theorem registerEntry_registers {i : Nat} (partitions : Partitions) (pool : Pool)
    (valid : broken disk (table i) = false) :
    ∃ more partitions' pool',
      registerEntry disk table i partitions pool = .ok (more, partitions', pool') ∧
      partitions'.entries =
        partitions.entries ++ (if more then [partitionOf disk table i] else []) ∧
      ∀ left, Ample pool (left + 1) → more = true ∧ Ample pool' left := by
  unfold registerEntry
  rcases named : allocPartName disk i pool with ⟨_ | name, pool₁⟩
  · refine ⟨false, partitions, pool₁, rfl, by simp, ?_⟩
    intro left ample
    obtain ⟨pool', named', -⟩ := @allocPartName_of_ample disk _ i _ ample
    cases named.symm.trans named'
  · cases allocPartName_some named
    have roomy (devices : Nat) (ample : Ample pool devices) : Ample pool₁ devices := by
      obtain ⟨pool', named', ample'⟩ := @allocPartName_of_ample disk _ i _ ample
      cases named.symm.trans named'
      exact ample'
    rcases done : pushBack partitions (partitionOf disk table i) pool₁ with ⟨_ | pushed, pool₂⟩
    · refine ⟨false, partitions, pool₂, ?_, by simp, ?_⟩
      · simp only [partitionOf] at done
        simp only [done]
      · intro left ample
        obtain ⟨_, _, done', -⟩ := pushBack_of_ample (roomy _ ample)
        cases done.symm.trans done'
    · have roomy₂ (devices : Nat) (ample : Ample pool devices) : Ample pool₂ devices := by
        obtain ⟨_, _, done', ample'⟩ := pushBack_of_ample (roomy _ ample)
        cases done.symm.trans done'
        exact ample'
      obtain ⟨dev, pool₃, created, ample₃⟩ :=
        @blockDeviceCreate_of_not_broken disk pool₂ _ (disk.name ++ ":" ++ toString i) valid
      simp only [partitionOf] at done
      simp only [done, created]
      cases dev with
      | none =>
          refine ⟨false, _, pool₃, rfl, by simp, ?_⟩
          intro left ample
          cases (ample₃ left (roomy₂ _ ample)).1
      | some dev =>
          refine ⟨true, pushed, pool₃, rfl, pushBack_some done, ?_⟩
          intro left ample
          exact ⟨rfl, (ample₃ left (roomy₂ _ ample)).2⟩

/-- The loop registers the valid entries in order, up to the first failed allocation. -/
theorem buildEntries_registers (left i : Nat) (partitions : Partitions) (pool : Pool) :
    ∃ partitions' pool',
      buildEntries disk table left i partitions pool = .ok (partitions', pool') ∧
      partitions'.entries <+:
        partitions.entries ++ (List.range' i left).filterMap (registered disk table) ∧
      (Ample pool left → partitions'.entries =
        partitions.entries ++ (List.range' i left).filterMap (registered disk table)) := by
  induction left generalizing i partitions pool with
  | zero => exact ⟨partitions, pool, rfl, by simp, by simp⟩
  | succ left inductionHypothesis =>
      rw [buildEntries, List.range'_succ, List.filterMap_cons]
      by_cases skipped : (table i).type = 0 ∨ broken disk (table i)
      · rw [if_pos skipped, registered, if_pos skipped]
        obtain ⟨partitions', pool', ran, before, all⟩ :=
          inductionHypothesis (i + 1) partitions pool
        exact ⟨partitions', pool', ran, before, fun ample => all (ample.mono (Nat.le_succ left))⟩
      · rw [if_neg skipped, registered, if_neg skipped]
        have valid : broken disk (table i) = false := by simpa using (not_or.mp skipped).2
        obtain ⟨more, partitions₁, pool₁, ran₁, pushed, ample₁⟩ :=
          registerEntry_registers partitions pool valid
        rw [ran₁]
        cases more with
        | false =>
            have same : partitions₁.entries = partitions.entries := by simpa using pushed
            refine ⟨partitions₁, pool₁, rfl, ?_, ?_⟩
            · rw [same]
              exact List.prefix_append _ _
            · intro ample
              cases (ample₁ left ample).1
        | true =>
            obtain ⟨partitions', pool', ran, before, all⟩ :=
              inductionHypothesis (i + 1) partitions₁ pool₁
            rw [pushed, if_pos rfl, List.append_assoc] at before all
            exact ⟨partitions', pool', ran, before, fun ample => all (ample₁ left ample).2⟩

/-- A scan fires no assertion; when nothing is short it registers every valid entry. -/
theorem buildPartTable_registers (given : disk.partTableSectors = some mbr) (pool : Pool) :
    ∃ disk' pool', buildPartTable disk pool = .ok (disk', pool') ∧
      disk'.partitions.entries <+:
        (List.range' 0 4).filterMap (registered disk (tableEntry mbr)) ∧
      (Ample pool 4 → disk'.partitions.entries =
        (List.range' 0 4).filterMap (registered disk (tableEntry mbr))) := by
  have unsigned : (List.range' 0 4).filterMap (registered disk (tableEntry (sign mbr))) =
      (List.range' 0 4).filterMap (registered disk (tableEntry mbr)) := by
    have same (i : Nat) (lower : i < 4) :
        registered disk (tableEntry (sign mbr)) i = registered disk (tableEntry mbr) i := by
      rw [registered, registered, partitionOf, partitionOf, tableEntry_sign lower]
    simp only [List.range'_succ, List.range'_zero, List.filterMap_cons, List.filterMap_nil, same,
      Nat.reduceLT, Nat.reduceAdd]
  obtain ⟨partitions, pool', ran, before, all⟩ :=
    @buildEntries_registers disk (tableEntry (sign mbr)) 4 0
      { disk.partitions with entries := [] } pool
  rw [unsigned, List.nil_append] at before all
  refine ⟨{ disk with partTableSectors := some (sign mbr), partitions }, pool', ?_, before, all⟩
  unfold buildPartTable
  rw [given]
  simp only [ran, ok_bind]

end Scan

section Survival

/-- The partition a request asks for. -/
def requested (disk : Disk) (index : Nat) (lba sectors : UInt64) : PartitionEntry :=
  { index
    bdev :=
      { name := disk.name ++ ":" ++ toString index
        offset := lba
        sectors
        refcount := 0 } }

/-- The entry written decodes to the range that was asked for, the range lies on the disk
behind the boot record and apart from the other entries in use, and a scan of the boot
record written finds it beside what it found before. -/
structure Survives (disk : Disk) (index : Nat) (lba sectors : UInt64) (mbr written : Memory) :
    Prop where
  decodesLba : (tableEntry written index).lba.toUInt64 = lba
  decodesSectors : (tableEntry written index).sectors.toUInt64 = sectors
  first : 1 ≤ lba.toNat
  last : lba.toNat + sectors.toNat ≤ disk.sectors.toNat
  apart : ∀ i < 4, i ≠ index → (tableEntry written i).type ≠ 0 →
    lba.toNat + sectors.toNat ≤ (tableEntry written i).lba.toNat ∨
      (tableEntry written i).lba.toNat + (tableEntry written i).sectors.toNat ≤ lba.toNat
  scanned : ∀ pool, Ample pool 4 → ∃ before after pool₁ pool₂,
    buildPartTable { disk with partTableSectors := some mbr } pool = .ok (before, pool₁) ∧
    buildPartTable { disk with partTableSectors := some written } pool = .ok (after, pool₂) ∧
    ∀ entry, entry ∈ after.partitions.entries ↔
      entry = requested disk index lba sectors ∨ entry ∈ before.partitions.entries

/-- What an accepted request has passed. -/
structure Accepted (disk : Disk) (index : Nat) (lba sectors : UInt64) (type : UInt8)
    (mbr written : Memory) : Prop where
  given : disk.partTableSectors = some mbr
  inside : index < 4
  used : type ≠ 0
  first : 1 ≤ lba.toNat
  positive : 0 < sectors.toNat
  last : lba.toNat + sectors.toNat ≤ disk.sectors.toNat
  free : (tableEntry mbr index).type = 0
  apart : ∀ i < 4, (tableEntry mbr i).type ≠ 0 →
    lba.toNat + sectors.toNat ≤ (tableEntry mbr i).lba.toNat ∨
      (tableEntry mbr i).lba.toNat + (tableEntry mbr i).sectors.toNat ≤ lba.toNat
  written : ∃ created : MbrPartEntry, created.type = type ∧ created.lba = lba.toUInt32 ∧
    created.sectors = sectors.toUInt32 ∧ written = putEntry mbr created index

theorem applyCreatePart_ok {table : Nat → MbrPartEntry} {created : MbrPartEntry}
    (nonempty : ¬lba + sectors ≤ lba)
    (applied : applyCreatePart disk table index lba sectors type = .ok created) :
    1 ≤ lba.toNat ∧ 0 < sectors.toNat ∧ lba.toNat + sectors.toNat ≤ disk.sectors.toNat ∧
      (table index).type = 0 ∧
      (∀ i < 4, (table i).type ≠ 0 → lba.toNat + sectors.toNat ≤ (table i).lba.toNat ∨
        (table i).lba.toNat + (table i).sectors.toNat ≤ lba.toNat) ∧
      created.type = type ∧ created.lba = lba.toUInt32 ∧ created.sectors = sectors.toUInt32 := by
  have lbaBound := lba.toNat_lt
  have sectorsBound := sectors.toNat_lt
  have diskBound := disk.sectors.toNat_lt
  rw [UInt64.le_iff_toNat_le, UInt64.toNat_add] at nonempty
  unfold applyCreatePart at applied
  by_cases zero : lba = 0
  · simp [zero] at applied
  by_cases outside : disk.sectors < lba + sectors
  · simp [zero, outside] at applied
  by_cases taken : (table index).type ≠ 0
  · simp [zero, outside, taken] at applied
  by_cases overlapping : (List.range 4).any (overlaps table lba (lba + sectors))
  · simp only [if_neg zero, if_neg outside, if_neg taken, if_pos overlapping] at applied
    cases applied
  simp only [if_neg zero, if_neg outside, if_neg taken, if_neg overlapping] at applied
  cases applied
  rw [UInt64.lt_iff_toNat_lt, UInt64.toNat_add] at outside
  have positive : lba.toNat ≠ 0 := fun null => zero (UInt64.toNat_inj.mp null)
  refine ⟨by omega, by omega, by omega, not_not.mp taken, ?_, rfl, rfl, rfl⟩
  intro i lower used
  have free : overlaps table lba (lba + sectors) i = false := by
    have none :=
      List.any_eq_false.mp (Bool.eq_false_iff.mpr overlapping) i (List.mem_range.mpr lower)
    exact Bool.eq_false_iff.mpr none
  have first := (table i).lba.toNat_lt
  have second := (table i).sectors.toNat_lt
  unfold overlaps isRangeOverlap at free
  rw [if_neg used] at free
  simp only [Bool.and_eq_false_iff, decide_eq_false_iff_not, UInt64.lt_iff_toNat_lt,
    UInt64.toNat_add, UInt32.toNat_toUInt64] at free
  omega

theorem modifyLocked_accepted {disk' : Disk} {written : Memory} {ctx : CoPartModify}
    (accepted : modifyLocked disk index lba sectors type false pool =
      .ok (.accepted disk' written ctx)) :
    ∃ mbr created, disk.partTableSectors = some mbr ∧
      applyCreatePart disk (tableEntry mbr) index lba sectors type = .ok created ∧
      written = putEntry mbr created index := by
  unfold modifyLocked at accepted
  cases given : disk.partTableSectors with
  | none =>
      rw [given] at accepted
      cases accepted
  | some mbr =>
      rw [given] at accepted
      cases found : disk.partitions.entries.find? (·.index = index) with
      | some entry => simp [found] at accepted
      | none =>
          rcases named : allocPartName disk index pool with ⟨_ | name, pool'⟩
          · simp [found, named] at accepted
          · cases full : disk.queueFull with
            | true => simp [found, named, full] at accepted
            | false =>
                cases applied : applyCreatePart disk (tableEntry mbr) index lba sectors type with
                | error result => simp [found, named, full, applied] at accepted
                | ok created =>
                    simp [found, named, full, applied] at accepted
                    exact ⟨mbr, created, rfl, applied, accepted.2.1.symm⟩

/-- The entry of an accepted request is free, so the scan before found nothing there. -/
theorem diskCreatePartition_accepted {disk' : Disk} {written : Memory} {ctx : CoPartModify}
    (given : disk.partTableSectors = some mbr)
    (accepted : diskCreatePartition disk index lba sectors type pool =
      .ok (.accepted disk' written ctx)) :
    Accepted disk index lba sectors type mbr written := by
  unfold diskCreatePartition modifyPartition at accepted
  by_cases invalid : type = 0 ∨ lba + sectors ≤ lba
  · simp [invalid] at accepted
  by_cases outside : 4 ≤ index
  · simp [invalid, outside] at accepted
  rcases taken : pool.take with ⟨_ | extra, pool'⟩
  · simp [invalid, outside, taken] at accepted
  simp only [invalid, outside, taken, and_false, if_false] at accepted
  obtain ⟨mbr', created, given', applied, rfl⟩ := modifyLocked_accepted accepted
  cases given.symm.trans given'
  obtain ⟨used, nonempty⟩ := not_or.mp invalid
  obtain ⟨first, positive, last, free, apart, createdType, createdLba, createdSectors⟩ :=
    applyCreatePart_ok nonempty applied
  exact ⟨given, Nat.lt_of_not_le outside, used, first, positive, last, free, apart,
    created, createdType, createdLba, createdSectors, rfl⟩

theorem Accepted.tableEntry_other {written : Memory} {i : Nat}
    (accepted : Accepted disk index lba sectors type mbr written) (other : i ≠ index) :
    tableEntry written i = tableEntry mbr i := by
  obtain ⟨created, -, -, -, rfl⟩ := accepted.written
  exact tableEntry_putEntry_of_ne other

/-- The entry written holds the request modulo `2 ^ 32`. -/
theorem Accepted.tableEntry_index {written : Memory}
    (accepted : Accepted disk index lba sectors type mbr written) :
    (tableEntry written index).type = type ∧
      (tableEntry written index).lba = lba.toUInt32 ∧
      (tableEntry written index).sectors = sectors.toUInt32 := by
  obtain ⟨created, createdType, createdLba, createdSectors, rfl⟩ := accepted.written
  rw [tableEntry_putEntry]
  exact ⟨createdType, createdLba, createdSectors⟩

theorem toUInt64_toUInt32 {value : UInt64} (narrow : value.toNat < 2 ^ 32) :
    value.toUInt32.toUInt64 = value := by
  apply UInt64.toNat_inj.mp
  rw [UInt32.toNat_toUInt64, UInt64.toNat_toUInt32, Nat.mod_eq_of_lt narrow]

theorem Accepted.registered_index {written : Memory}
    (accepted : Accepted disk index lba sectors type mbr written)
    (narrow : lba.toNat + sectors.toNat < 2 ^ 32) :
    registered disk (tableEntry written) index = some (requested disk index lba sectors) := by
  obtain ⟨hasType, hasLba, hasSectors⟩ := accepted.tableEntry_index
  have lbaValue : lba.toUInt32.toNat = lba.toNat := by
    rw [UInt64.toNat_toUInt32, Nat.mod_eq_of_lt (by omega)]
  have sectorsValue : sectors.toUInt32.toNat = sectors.toNat := by
    rw [UInt64.toNat_toUInt32, Nat.mod_eq_of_lt (by omega)]
  have valid : broken disk (tableEntry written index) = false := by
    rw [not_broken_iff, hasLba, hasSectors, lbaValue, sectorsValue]
    refine ⟨?_, accepted.positive, narrow, accepted.last⟩
    intro zero
    have first := accepted.first
    rw [← lbaValue, zero] at first
    cases first
  have used : (tableEntry written index).type ≠ 0 := by
    rw [hasType]
    exact accepted.used
  rw [registered, if_neg (by simp [used, valid]), partitionOf, hasLba, hasSectors,
    toUInt64_toUInt32 (by omega), toUInt64_toUInt32 (by omega)]
  rfl

theorem mem_scan_iff {table : Nat → MbrPartEntry} {entry : PartitionEntry} :
    entry ∈ (List.range' 0 4).filterMap (registered disk table) ↔
      ∃ i < 4, registered disk table i = some entry := by
  simp only [List.mem_filterMap, List.mem_range'_1, Nat.zero_le, true_and, Nat.zero_add]

theorem Accepted.survives {written : Memory}
    (accepted : Accepted disk index lba sectors type mbr written)
    (narrow : lba.toNat + sectors.toNat < 2 ^ 32) :
    Survives disk index lba sectors mbr written := by
  obtain ⟨-, hasLba, hasSectors⟩ := accepted.tableEntry_index
  have freeBefore : registered disk (tableEntry mbr) index = none := by
    rw [registered, if_pos (Or.inl accepted.free)]
  refine ⟨?_, ?_, accepted.first, accepted.last, ?_, ?_⟩
  · rw [hasLba, toUInt64_toUInt32 (by omega)]
  · rw [hasSectors, toUInt64_toUInt32 (by omega)]
  · intro i lower other used
    rw [accepted.tableEntry_other other] at used ⊢
    exact accepted.apart i lower used
  · intro pool ample
    obtain ⟨before, pool₁, ran₁, -, all₁⟩ :=
      @buildPartTable_registers { disk with partTableSectors := some mbr } mbr rfl pool
    obtain ⟨after, pool₂, ran₂, -, all₂⟩ :=
      @buildPartTable_registers { disk with partTableSectors := some written } written rfl pool
    refine ⟨before, after, pool₁, pool₂, ran₁, ran₂, ?_⟩
    intro entry
    rw [all₁ ample, all₂ ample, mem_scan_iff, mem_scan_iff]
    constructor
    · rintro ⟨i, lower, found⟩
      by_cases same : i = index
      · left
        subst same
        have made := accepted.registered_index narrow
        exact Option.some.inj (found.symm.trans made)
      · right
        refine ⟨i, lower, ?_⟩
        rw [registered, partitionOf, ← accepted.tableEntry_other same]
        exact found
    · rintro (rfl | ⟨i, lower, found⟩)
      · exact ⟨index, accepted.inside, accepted.registered_index narrow⟩
      · have other : i ≠ index := by
          rintro rfl
          cases freeBefore.symm.trans found
        refine ⟨i, lower, ?_⟩
        rw [registered, partitionOf, accepted.tableEntry_other other]
        exact found

/-- A pool under which nothing is short. -/
def amplePool : Pool := { blocks := Stream'.const (some 0), devicesCount := 0 }

theorem amplePool_ample : Ample amplePool 4 :=
  ⟨fun _ => Option.some_ne_none 0, by decide⟩

theorem Accepted.narrow {written : Memory}
    (accepted : Accepted disk index lba sectors type mbr written)
    (survives : Survives disk index lba sectors mbr written) :
    lba.toNat + sectors.toNat < 2 ^ 32 := by
  obtain ⟨-, hasLba, hasSectors⟩ := accepted.tableEntry_index
  obtain ⟨before, after, pool₁, pool₂, -, ran, found⟩ := survives.scanned amplePool amplePool_ample
  obtain ⟨after', pool', ran', -, all⟩ :=
    @buildPartTable_registers { disk with partTableSectors := some written } written rfl amplePool
  cases ran.symm.trans ran'
  have registers := (found (requested disk index lba sectors)).mpr (Or.inl rfl)
  rw [all amplePool_ample, mem_scan_iff] at registers
  obtain ⟨i, -, registers⟩ := registers
  -- the 32-bit test passed, on the very numbers that were asked for
  rw [registered] at registers
  split at registers
  · cases registers
  · rename_i kept
    have valid := not_broken_iff.mp (Bool.eq_false_iff.mpr (not_or.mp kept).2)
    have entry := Option.some.inj registers
    have sameLba : (tableEntry written i).lba.toUInt64 = lba :=
      congrArg (fun entry => entry.bdev.offset) entry
    have sameSectors : (tableEntry written i).sectors.toUInt64 = sectors :=
      congrArg (fun entry => entry.bdev.sectors) entry
    rw [← sameLba, ← sameSectors, UInt32.toNat_toUInt64, UInt32.toNat_toUInt64]
    exact valid.2.2.1

theorem diskCreatePartition_survives_iff {disk' : Disk} {written : Memory} {ctx : CoPartModify}
    (given : disk.partTableSectors = some mbr)
    (accepted : diskCreatePartition disk index lba sectors type pool =
      .ok (.accepted disk' written ctx)) :
    Survives disk index lba sectors mbr written ↔ lba.toNat + sectors.toNat < 2 ^ 32 :=
  ⟨(diskCreatePartition_accepted given accepted).narrow,
    (diskCreatePartition_accepted given accepted).survives⟩

/-- A disk with more than `2 ^ 32` sectors and an empty boot record. -/
def wideDisk : Disk :=
  { name := "hda"
    sectors := 0x200000000
    partTableSectors := some fun _ => 0
    partitions := { capacity := 0, entries := [] }
    queueFull := false }

theorem wideDisk_accepts (lba : UInt64) (accepts : lba = 2048 ∨ lba = 0x100000800) :
    ∃ disk' written ctx, diskCreatePartition wideDisk 0 lba 4096 0x83 amplePool =
      .ok (.accepted disk' written ctx) := by
  rcases accepts with rfl | rfl
  · exact ⟨_, _, _, rfl⟩
  · exact ⟨_, _, _, rfl⟩

theorem diskCreatePartition_survives_low : ∃ written,
    Survives wideDisk 0 2048 4096 (fun _ => 0) written := by
  obtain ⟨_, written, _, accepted⟩ := wideDisk_accepts 2048 (Or.inl rfl)
  exact ⟨written, (diskCreatePartition_survives_iff rfl accepted).mpr (by decide)⟩

/-- A partition behind sector `2 ^ 32` is accepted and written with another first sector. -/
theorem diskCreatePartition_lost : ∃ disk' written ctx,
    diskCreatePartition wideDisk 0 0x100000800 4096 0x83 amplePool =
      .ok (.accepted disk' written ctx) ∧
    ¬Survives wideDisk 0 0x100000800 4096 (fun _ => 0) written := by
  obtain ⟨disk', written, ctx, accepted⟩ := wideDisk_accepts 0x100000800 (Or.inr rfl)
  refine ⟨disk', written, ctx, accepted, ?_⟩
  intro survives
  exact absurd ((diskCreatePartition_accepted rfl accepted).narrow survives) (by decide)

end Survival

end Opal.Partition
