import Opal.Partition.Requests
import Opal.Partition.Rescan

/-!
# What a request changes

The effects of the two functions and of their handler, each on one index: of the boot record,
of the list of partitions, and of the table that the answers so far stand for.
-/

namespace Opal.Partition

section Keys

variable {α β : Type} {f : α → β} {xs : List α} {x y : α} {k : Nat}

/-- In a list with distinct keys an element is found by its key. -/
theorem getElem?_eq_of_key (distinct : (xs.map f).Nodup) {i : Nat} (first : xs[i]? = some x)
    (second : xs[k]? = some y) (same : f x = f y) : i = k := by
  have inside : i < (xs.map f).length := by
    rw [List.length_map]
    exact (List.getElem?_eq_some_iff.mp first).1
  refine (List.getElem?_inj inside distinct).mp ?_
  rw [List.getElem?_map, List.getElem?_map, first, second, Option.map_some, Option.map_some, same]

/-- What is left when the element with a key is taken out. -/
theorem mem_eraseIdx_iff_key (distinct : (xs.map f).Nodup) (found : xs[k]? = some x) :
    y ∈ xs.eraseIdx k ↔ y ∈ xs ∧ f y ≠ f x := by
  rw [List.mem_eraseIdx_iff_getElem?]
  constructor
  · rintro ⟨i, other, here⟩
    exact ⟨List.mem_of_getElem? here, fun same =>
      other (getElem?_eq_of_key distinct here found same)⟩
  · rintro ⟨member, differs⟩
    obtain ⟨i, here⟩ := List.mem_iff_getElem?.mp member
    refine ⟨i, ?_, here⟩
    rintro rfl
    exact differs (congrArg f (Option.some.inj (here.symm.trans found)))

theorem eraseIdx_distinct (distinct : (xs.map f).Nodup) : ((xs.eraseIdx k).map f).Nodup :=
  distinct.sublist ((List.eraseIdx_sublist xs k).map f)

/-- An element that is replaced by one with its key. -/
theorem map_set_of_key (found : xs[k]? = some x) (same : f y = f x) :
    (xs.set k y).map f = xs.map f := by
  rw [List.map_set, same]
  refine List.ext_getElem? fun i => ?_
  rw [List.getElem?_set]
  split
  · rename_i here
    rw [← here, List.getElem?_map, found, List.length_map,
      if_pos (List.getElem?_eq_some_iff.mp found).1]
    rfl
  · rfl

end Keys

section Lists

variable {entries entries' : List PartitionEntry} {table : Table} {entry : PartitionEntry}
  {slot i : Nat}

/-- What the list says of an element. -/
def PartitionEntry.key (entry : PartitionEntry) : Nat × UInt64 × UInt64 :=
  (entry.index, entry.bdev.offset, entry.bdev.sectors)

/-- The references to the devices do not matter. -/
theorem Lists.congr (lists : Lists entries table)
    (same : entries'.map (·.key) = entries.map (·.key)) : Lists entries' table := by
  have members : ∀ key,
      (∃ entry ∈ entries', entry.key = key) ↔ ∃ entry ∈ entries, entry.key = key :=
    fun key => by rw [← List.mem_map, ← List.mem_map, same]
  refine ⟨?_, fun i range => ?_⟩
  · have indices := congrArg (List.map Prod.fst) same
    rw [List.map_map, List.map_map] at indices
    have distinct := lists.distinct
    rwa [show entries.map (·.index) = entries'.map (·.index) from indices.symm] at distinct
  · have keyed : ∀ entries : List PartitionEntry, (∃ entry ∈ entries, entry.index = i ∧
        (entry.bdev.offset, entry.bdev.sectors) = range) ↔
          ∃ entry ∈ entries, entry.key = (i, range) := fun entries => by
      simp only [PartitionEntry.key, Prod.mk.injEq]
    rw [lists.range, keyed, keyed, members]

theorem Lists.mem (lists : Lists entries table) (member : entry ∈ entries) :
    table entry.index = some (entry.bdev.offset, entry.bdev.sectors) :=
  (lists.range _ _).mpr ⟨entry, member, rfl, rfl⟩

theorem Lists.not_mem (lists : Lists entries table) (free : table i = none) :
    ∀ entry ∈ entries, entry.index ≠ i := by
  rintro entry member rfl
  rw [lists.mem member] at free
  cases free

theorem Lists.find?_eq_none_iff (lists : Lists entries table) :
    entries.find? (·.index = i) = none ↔ table i = none := by
  rw [List.find?_eq_none]
  constructor
  · intro missing
    by_contra used
    obtain ⟨range, has⟩ := Option.ne_none_iff_exists'.mp used
    obtain ⟨entry, member, same, -⟩ := (lists.range i range).mp has
    exact missing entry member (decide_eq_true same)
  · intro free entry member same
    exact lists.not_mem free entry member (of_decide_eq_true same)

/-- A new element at a free index. -/
theorem Lists.push (lists : Lists entries table) (free : table entry.index = none) :
    Lists (entries ++ [entry])
      (Function.update table entry.index (some (entry.bdev.offset, entry.bdev.sectors))) := by
  have fresh := lists.not_mem free
  refine ⟨?_, fun i range => ?_⟩
  · rw [List.map_append, List.map_singleton, List.nodup_append]
    refine ⟨lists.distinct, List.pairwise_singleton _ _, ?_⟩
    intro index member other single
    rw [List.mem_singleton.mp single]
    obtain ⟨old, here, rfl⟩ := List.mem_map.mp member
    exact fresh old here
  · by_cases same : i = entry.index
    · subst same
      rw [Function.update_self]
      constructor
      · intro equal
        exact ⟨entry, by simp, rfl, Option.some.inj equal⟩
      · rintro ⟨other, member, index, equal⟩
        rcases List.mem_append.mp member with old | new
        · exact absurd index (fresh other old)
        · rw [← List.mem_singleton.mp new, equal]
    · rw [Function.update_of_ne same, lists.range]
      constructor
      · rintro ⟨other, member, rest⟩
        exact ⟨other, List.mem_append_left _ member, rest⟩
      · rintro ⟨other, member, index, equal⟩
        rcases List.mem_append.mp member with old | new
        · exact ⟨other, old, index, equal⟩
        · rw [List.mem_singleton.mp new] at index
          exact absurd index.symm same

/-- An element that is taken out. -/
theorem Lists.erase (lists : Lists entries table) (found : entries[slot]? = some entry) :
    Lists (entries.eraseIdx slot) (Function.update table entry.index none) := by
  have member := @mem_eraseIdx_iff_key _ _ (·.index) entries entry
  refine ⟨eraseIdx_distinct lists.distinct, fun i range => ?_⟩
  by_cases same : i = entry.index
  · subst same
    rw [Function.update_self]
    refine iff_of_false nofun ?_
    rintro ⟨other, left, index, -⟩
    exact ((member lists.distinct found).mp left).2 index
  · rw [Function.update_of_ne same, lists.range]
    constructor
    · rintro ⟨other, old, rfl, equal⟩
      exact ⟨other, (member lists.distinct found).mpr ⟨old, same⟩, rfl, equal⟩
    · rintro ⟨other, left, index, equal⟩
      exact ⟨other, ((member lists.distinct found).mp left).1, index, equal⟩

end Lists

section Answers

variable {table : Table} {answers : List (Change × Bool)} {change : Change} {ok : Bool}

theorem replay_append : replay table (answers ++ [(change, ok)]) =
    if ok then change.apply (replay table answers) else replay table answers := by
  unfold replay
  rw [List.foldl_append]
  rfl

theorem legalAnswers_append (legal : LegalAnswers table answers)
    (due : ok = true → change.Legal (replay table answers)) :
    LegalAnswers table (answers ++ [(change, ok)]) := by
  induction answers generalizing table with
  | nil =>
      cases ok with
      | true => exact ⟨due rfl, trivial⟩
      | false => trivial
  | cons answer answers inductionHypothesis =>
      obtain ⟨first, done⟩ := answer
      cases done with
      | true => exact ⟨legal.1, inductionHypothesis legal.2 due⟩
      | false => exact inductionHypothesis legal due

end Answers

section Records

variable {disk : Disk} {mbr : Memory} {index i : Nat} {entry : MbrPartEntry}

/-- An entry of the boot record takes another value. -/
theorem recorded_putEntry (given : disk.partTableSectors = some mbr) (inside : index < 4) :
    ∀ partitions queueFull, Disk.recorded { disk with
      partTableSectors := some (putEntry mbr entry index), partitions, queueFull } =
        Function.update disk.recorded index entry.range := by
  intro partitions queueFull
  funext i
  unfold Disk.recorded
  dsimp only
  rw [given]
  by_cases same : i = index
  · subst same
    rw [Function.update_self, if_pos inside, tableEntry_putEntry]
  · rw [Function.update_of_ne same, tableEntry_putEntry_of_ne same]

/-- An entry of the boot record is cleared. -/
theorem recorded_fill (given : disk.partTableSectors = some mbr) (inside : index < 4) :
    ∀ partitions queueFull, Disk.recorded { disk with
      partTableSectors := some (mbr.fill (entryOffset index) mbrPartEntrySize 0)
      partitions, queueFull } = Function.update disk.recorded index none := by
  intro partitions queueFull
  funext i
  unfold Disk.recorded
  dsimp only
  rw [given]
  by_cases same : i = index
  · subst same
    have empty : (tableEntry (mbr.fill (entryOffset i) mbrPartEntrySize 0) i).type = 0 :=
      Memory.fill_inside (Nat.le_add_right _ _) (Nat.add_lt_add_left (by decide) _)
    rw [Function.update_self, if_pos inside]
    exact if_pos empty
  · have kept : tableEntry (mbr.fill (entryOffset index) mbrPartEntrySize 0) i =
        tableEntry mbr i := by
      apply decodeEntry_congr
      intro k lower
      apply Memory.fill_outside
      unfold entryOffset mbrPartEntrySize at *
      omega
    rw [Function.update_of_ne same, kept]

theorem recorded_of_given (given : disk.partTableSectors = some mbr) (inside : i < 4) :
    disk.recorded i = (tableEntry mbr i).range := by
  unfold Disk.recorded
  rw [given]
  exact if_pos inside

end Records

section Calls

variable {disk disk' : Disk} {index : Nat}

/-- A new partition that is accepted: the index is not in the list, and the request has
nothing to retain. -/
structure CreateAccepted (disk : Disk) (index : Nat) (lba sectors : UInt64) (disk' : Disk)
    (written : Memory) (ctx : CoPartModify) : Prop where
  given : ∃ mbr, disk.partTableSectors = some mbr ∧ ctx.oldMbrEntry = tableEntry mbr index
  missing : disk.partitions.entries.find? (·.index = index) = none
  disk : disk' = { disk with partTableSectors := some written }
  entry : ctx.entry = none
  index : ctx.index = index
  lba : ctx.lba = lba
  sectors : ctx.sectors = sectors

theorem diskCreatePartition_cases (disk : Disk) (index : Nat) (lba sectors : UInt64)
    (type : UInt8) (pool : Pool) :
    (∃ result, diskCreatePartition disk index lba sectors type pool = .ok (.refused result)) ∨
    ∃ disk' written ctx,
      diskCreatePartition disk index lba sectors type pool = .ok (.accepted disk' written ctx) ∧
      CreateAccepted disk index lba sectors disk' written ctx := by
  unfold diskCreatePartition modifyPartition
  by_cases invalid : type = 0 ∨ lba + sectors ≤ lba
  · exact .inl ⟨.einval, by simp [invalid]⟩
  by_cases outside : 4 ≤ index
  · exact .inl ⟨.enoent, by simp [invalid, outside]⟩
  rcases taken : pool.take with ⟨_ | extra, pool'⟩
  · exact .inl ⟨.enomem, by simp [invalid, outside]⟩
  simp only [invalid, outside, and_false, if_false]
  unfold modifyLocked
  cases given : disk.partTableSectors with
  | none => exact .inl ⟨.einval, rfl⟩
  | some mbr =>
      cases found : disk.partitions.entries.find? (·.index = index) with
      | some entry => exact .inl ⟨.eexist, by simp⟩
      | none =>
          rcases named : allocPartName disk index pool' with ⟨_ | name, pool''⟩
          · exact .inl ⟨.enomem, by simp⟩
          · by_cases full : disk.queueFull = true
            · exact .inl ⟨.ebusy, by simp [full]⟩
            · cases applied : applyCreatePart disk (tableEntry mbr) index lba sectors type with
              | error result => exact .inl ⟨result, by simp [full, applied]⟩
              | ok created =>
                  refine .inr
                    ⟨{ disk with partTableSectors := some (putEntry mbr created index) },
                      putEntry mbr created index,
                      { entry := none, oldMbrEntry := tableEntry mbr index, partname := some name,
                        index, lba, sectors },
                      ?_, ⟨mbr, given, rfl⟩, found, rfl, rfl, rfl, rfl, rfl⟩
                  simp [full, applied]

/-- The array in which the device of an index has one more reference. -/
def retained (partitions : Partitions) (index : Nat) : Partitions :=
  { partitions with
    entries := partitions.entries.map fun other =>
      if other.index = index then
        { other with bdev := { other.bdev with refcount := other.bdev.refcount + 1 } }
      else other }

/-- A removal that is accepted: the device is retained and the entry cleared. -/
structure RemoveAccepted (disk : Disk) (index : Nat) (disk' : Disk) (ctx : CoPartModify) :
    Prop where
  given : ∃ mbr, disk.partTableSectors = some mbr ∧ ctx.oldMbrEntry = tableEntry mbr index ∧
    disk' = { disk with
      partTableSectors := some (mbr.fill (entryOffset index) mbrPartEntrySize 0)
      partitions := retained disk.partitions index }
  inside : index < 4
  found : ∃ entry, ctx.entry = some entry ∧
    disk.partitions.entries.find? (·.index = index) = some entry
  index : ctx.index = index

theorem diskRemovePartition_cases (disk : Disk) (index : Nat) (pool : Pool)
    (few : ∀ entry ∈ disk.partitions.entries, entry.index = index →
      entry.bdev.refcount < maxRefc) :
    (∃ result, diskRemovePartition disk index pool = .ok (.refused result)) ∨
    ∃ disk' written ctx,
      diskRemovePartition disk index pool = .ok (.accepted disk' written ctx) ∧
      RemoveAccepted disk index disk' ctx := by
  unfold diskRemovePartition modifyPartition
  by_cases outside : 4 ≤ index
  · exact .inl ⟨.enoent, by simp [outside]⟩
  rcases taken : pool.take with ⟨_ | extra, pool'⟩
  · exact .inl ⟨.enomem, by simp [outside]⟩
  simp only [outside, not_true_eq_false, false_and, if_false]
  unfold modifyLocked
  cases given : disk.partTableSectors with
  | none => exact .inl ⟨.einval, rfl⟩
  | some mbr =>
      cases found : disk.partitions.entries.find? (·.index = index) with
      | none => exact .inl ⟨.enoent, by simp⟩
      | some entry =>
          by_cases full : disk.queueFull = true
          · exact .inl ⟨.ebusy, by simp [full]⟩
          · have here : entry.index = index := by simpa using List.find?_some found
            have few' := few entry (List.mem_of_find?_eq_some found) here
            refine .inr
              ⟨{ disk with
                  partTableSectors := some (mbr.fill (entryOffset index) mbrPartEntrySize 0)
                  partitions := retained disk.partitions index },
                mbr.fill (entryOffset index) mbrPartEntrySize 0,
                { entry := some entry, oldMbrEntry := tableEntry mbr index, partname := none,
                  index, lba := 0, sectors := 0 }, ?_, ⟨mbr, given, rfl, rfl⟩,
                Nat.lt_of_not_le outside, ⟨entry, rfl, found⟩, rfl⟩
            simp [full, retain, Nat.not_le.mpr few', here, retained]

end Calls

section Answering

variable {disk : Disk} {buffer : Nat} {ctx : Request} {pool : Pool} {entry : PartitionEntry}
  {ptr : EntryPtr} {mbr : Memory}

/-- The new element of the list. -/
def Request.element (ctx : Request) : PartitionEntry :=
  ⟨ctx.index, ⟨ctx.partname.getD "", ctx.lba, ctx.sectors, 0⟩⟩

/-- A new partition is registered; the array stays where it is if it has room. -/
theorem coModifyHandler_creates (created : ctx.entry = none) (ample : Ample pool 1)
    (positive : 0 < ctx.sectors.toNat)
    (last : ctx.lba.toNat + ctx.sectors.toNat ≤ disk.sectors.toNat) :
    ∃ capacity buffer', coModifyHandler disk buffer ctx true pool =
      .ok (true, { disk with
        partitions := { capacity, entries := disk.partitions.entries ++ [ctx.element] } },
        buffer') ∧
      (pushedSize disk.partitions ≤ disk.partitions.capacity → buffer' = buffer) := by
  have diskBound := disk.sectors.toNat_lt
  have nonempty : ¬ctx.lba + ctx.sectors ≤ ctx.lba := by
    rw [UInt64.le_iff_toNat_le, UInt64.toNat_add]
    omega
  have onDisk : ¬disk.sectors < ctx.lba + ctx.sectors := by
    rw [UInt64.lt_iff_toNat_lt, UInt64.toNat_add]
    omega
  obtain ⟨pushed, pool', done, ample'⟩ :=
    @pushBack_of_ample pool disk.partitions ctx.element 1 ample
  have room : ¬maxDevices ≤ pool'.devicesCount := by
    have devices := ample'.devices
    omega
  obtain ⟨extra, pool'', taken, -, -⟩ := ample'.take
  refine ⟨pushed.capacity,
    if pushedSize disk.partitions ≤ disk.partitions.capacity then buffer else buffer + 1,
    ?_, fun roomy => if_pos roomy⟩
  have entries := pushBack_some done
  unfold coModifyHandler registerRequest blockDeviceCreate
  unfold Request.element at done
  rw [if_pos rfl, created]
  simp only [done, nonempty, onDisk, room, taken, if_false]
  rw [← entries]

/-- The element that the request points to is taken out. -/
theorem coModifyHandler_removes (points : ctx.entry = some ptr) (here : ptr.buffer = buffer)
    (found : disk.partitions.entries[ptr.slot]? = some entry) :
    coModifyHandler disk buffer ctx true pool =
      .ok (true, { disk with
        partitions := { disk.partitions with
          entries := disk.partitions.entries.eraseIdx ptr.slot } }, buffer) := by
  have inside := (List.getElem?_eq_some_iff.mp found).1
  unfold coModifyHandler removeEntry
  rw [if_pos rfl, points]
  dsimp only
  rw [if_neg (not_not_intro here), if_pos inside]
  rfl

/-- A new partition that could not be written is forgotten. -/
theorem coModifyHandler_forgets (created : ctx.entry = none)
    (given : disk.partTableSectors = some mbr) :
    coModifyHandler disk buffer ctx false pool =
      .ok (false, { disk with
        partTableSectors := some (putEntry mbr ctx.oldMbrEntry ctx.index) }, buffer) := by
  unfold coModifyHandler
  rw [if_neg Bool.false_ne_true, given, created]

/-- The array in which the device of a slot has one reference less. -/
def released (partitions : Partitions) (slot : Nat) (entry : PartitionEntry) : Partitions :=
  { partitions with
    entries := partitions.entries.set slot
      { entry with bdev := { entry.bdev with refcount := entry.bdev.refcount - 1 } } }

/-- A removal that could not be written is taken back. -/
theorem coModifyHandler_restores (points : ctx.entry = some ptr) (here : ptr.buffer = buffer)
    (found : disk.partitions.entries[ptr.slot]? = some entry) (held : entry.bdev.refcount ≠ 0)
    (given : disk.partTableSectors = some mbr) :
    coModifyHandler disk buffer ctx false pool =
      .ok (false, { disk with
        partTableSectors := some (putEntry mbr ctx.oldMbrEntry ctx.index)
        partitions := released disk.partitions ptr.slot entry }, buffer) := by
  unfold coModifyHandler releaseEntry
  rw [if_neg Bool.false_ne_true, given, points]
  dsimp only
  rw [if_neg (not_not_intro here), found]
  dsimp only
  rw [if_neg held]
  rfl

end Answering

end Opal.Partition
