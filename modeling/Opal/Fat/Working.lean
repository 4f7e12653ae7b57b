import Opal.Fat.Atomicity
import Opal.Fat.Links

/-!
# A device that does not fail

On such a device the first copy of the table is what the buffer holds, whatever has been changed,
so that a mount finds the entries as they are.  An allocation fails only where no entry is free.
-/

namespace Opal.Fat

section Encoding

variable {mem mem' : Memory} {cluster value i : Nat}

/-- An entry is changed in its own bytes. -/
theorem encode_outside (width : Width)
    (outside : i < width.pos cluster ∨ width.pos cluster + width.bytes ≤ i) :
    width.encode mem cluster value i = mem i := by
  cases width <;> exact Memory.copyInto_outside outside

/-- An entry depends on its own bytes. -/
theorem stored_congr (width : Width)
    (same : ∀ i < width.bytes, mem' (width.pos cluster + i) = mem (width.pos cluster + i)) :
    width.stored mem' cluster = width.stored mem cluster := by
  cases width with
  | fat12 =>
      have low : mem' (Width.pos .fat12 cluster) = mem (Width.pos .fat12 cluster) :=
        same 0 (by decide)
      have high : mem' (Width.pos .fat12 cluster + 1) = mem (Width.pos .fat12 cluster + 1) :=
        same 1 (by decide)
      unfold Width.stored
      rw [low, high]
  | fat16 => exact Memory.word_congr same
  | fat32 => exact Memory.word_congr same

end Encoding

section Working

variable {fat after middle : FatTable} {cluster c : Nat}

/-- The entries are the same before the table is read. -/
theorem Takes.ofLoaded {value : Nat} (takes : Takes fat.loaded cluster value after) :
    Takes fat cluster value after := by
  obtain ⟨readable, layout, self, others⟩ := takes
  rw [loaded_layout] at layout self others
  refine ⟨readable, layout, self, fun other inside differs => ?_⟩
  rw [others other inside differs, stored_loaded]

theorem Marks.ofLoaded (marks : Marks fat.loaded c after) : Marks fat c after := by
  obtain ⟨two, bound, zero, takes⟩ := marks
  rw [loaded_layout] at bound takes
  rw [stored_loaded] at zero
  exact ⟨two, bound, zero, takes.ofLoaded⟩

/-- The table on a device that does not fail, with memory for its buffer. -/
structure FatTable.Works (fat : FatTable) : Prop where
  mem : fat.mem.Succeeds
  reads : fat.reads = Stream'.const none
  writes : fat.writes = Stream'.const none
  copies : 0 < fat.layout.numFats
  synced : ∀ pos < fat.layout.fatBytes, fat.copies 0 pos = fat.view pos

namespace FatTable.Works

variable (works : fat.Works)

include works

theorem readable : fat.Readable := fun _ => ⟨works.mem.head, by rw [works.reads]; rfl⟩

theorem loaded : fat.loaded.Works := by
  obtain ⟨mem, reads, writes, copies, synced⟩ := works
  unfold FatTable.loaded
  cases present : fat.buffer with
  | some buffer => exact ⟨mem, reads, writes, copies, synced⟩
  | none => exact ⟨mem.tail, by rw [reads]; rfl, writes, copies, fun _ _ => rfl⟩

/-- The table once its buffer is given back. -/
theorem unloaded : FatTable.Works { fat with buffer := none } :=
  ⟨works.mem, works.reads, works.writes, works.copies, fun _ _ => rfl⟩

theorem stored_unloaded (holds : fat.layout.Holds)
    (entry : cluster < fat.layout.clusterCount + 2) :
    FatTable.stored { fat with buffer := none } cluster = fat.stored cluster := by
  have inside := entry_inside fat.tabular holds entry
  refine stored_congr _ fun i less => works.synced _ (lt_of_lt_of_le ?_ inside)
  exact Nat.add_lt_add_left less _

theorem tableSet (cluster value : Nat) (holds : fat.layout.Holds)
    (entry : cluster < fat.layout.clusterCount + 2) :
    ∃ after, tableSet cluster value fat = (.ok (), after) ∧ Takes fat cluster value after ∧
      after.Works := by
  have inside := entry_inside fat.tabular holds entry
  have takes := @tableSet_takes fat cluster value works.readable holds entry
  have writes : ∀ i < fat.layout.numFats, fat.writes.get i = none := fun i _ => by
    rw [works.writes]
    rfl
  have done := (@tableSet_ok_iff fat cluster value works.readable inside).mpr writes
  have kept : (Fat.tableSet cluster value fat).2.mem = fat.loaded.mem ∧
      (Fat.tableSet cluster value fat).2.reads = fat.loaded.reads ∧
      (Fat.tableSet cluster value fat).2.writes = fat.writes.drop fat.layout.numFats := by
    rw [tableSet_of_inside works.readable inside] at done ⊢
    generalize ran : writeCopies _ _ _ _ _ _ = outcome at done ⊢
    obtain ⟨result, after⟩ := outcome
    cases done
    rw [writeCopies_ok ran]
    refine ⟨rfl, rfl, ?_⟩
    show fat.loaded.writes.drop _ = _
    rw [loaded_writes]
  cases ran : Fat.tableSet cluster value fat with
  | mk result after =>
      rw [ran] at takes done kept
      cases done
      refine ⟨after, rfl, takes, ?_⟩
      obtain ⟨layout, buffer, copies⟩ := changed_of_inside works.readable inside ran
      obtain ⟨mem, reads, writes'⟩ := kept
      refine ⟨?_, ?_, ?_, ?_, ?_⟩
      · rw [mem]
        exact works.loaded.mem
      · rw [reads]
        exact works.loaded.reads
      · rw [writes', works.writes]
        rfl
      · rw [layout]
        exact works.copies
      · rw [layout, copies, view_of_buffer buffer]
        intro pos below
        unfold copied
        rw [if_pos ⟨Nat.zero_le _, by rw [Nat.zero_add]; exact works.copies⟩]
        by_cases written : fat.layout.front cluster ≤ pos ∧
            pos < fat.layout.front cluster + fat.layout.sectors cluster * diskSectorSize
        · obtain ⟨i, rfl⟩ := Nat.exists_eq_add_of_le written.1
          exact Memory.copyInto_inside (by omega)
        · rw [Memory.copyInto_outside (by omega), works.synced pos below]
          refine (encode_outside _ ?_).symm
          unfold Layout.sectors Layout.front diskSectorSize at written
          omega

/-- An entry is marked unless none is free. -/
theorem tableAlloc (holds : fat.layout.Holds) :
    (∃ after, tableAlloc fat = (.error .enospc, after) ∧ Still fat after ∧ after.Works ∧ fat.Full) ∨
    ∃ c after, tableAlloc fat = (.ok c, after) ∧ Marks fat c after ∧ after.Works := by
  have allocates := tableAlloc_eq works.readable holds
  cases scanned : fat.layout.width.scan fat.view (fat.layout.clusterCount + 2) with
  | none =>
      rw [scanned] at allocates
      refine .inl ⟨fat.loaded, allocates, still_loaded fat, works.loaded, ?_⟩
      rw [FatTable.Full, clusterEnd_eq holds]
      exact scanned
  | some c =>
      right
      rw [scanned] at allocates
      have found := @scan_finds fat.view fat.layout fat.tabular holds
      rw [scanned] at found
      have entry : c < fat.loaded.layout.clusterCount + 2 := by
        rw [loaded_layout]
        exact found.bound
      obtain ⟨after, ran, takes, works'⟩ :=
        works.loaded.tableSet c fat.layout.width.mark (loaded_holds holds) entry
      exact ⟨c, after, allocates.trans (Op.run_bind_ok ran _),
        ⟨found.two, found.bound, found.holds, takes.ofLoaded⟩, works'⟩

/-- A chain that ends with a mark is extended unless no entry is free. -/
theorem fatTableAppend (holds : fat.layout.Holds)
    (entry : cluster < fat.layout.clusterCount + 2)
    (closed : 0x0ffffff8 ≤ nextCluster fat cluster) :
    (∃ after, fatTableAppend cluster fat = (.error .enospc, after) ∧ Still fat after ∧
      after.Works ∧ fat.Full) ∨
    ∃ c middle after, fatTableAppend cluster fat = (.ok c, after) ∧ Marks fat c middle ∧
      c ≠ cluster ∧ Takes middle cluster c after ∧ after.Works := by
  have read := tableAt_eq works.readable holds entry
  rw [fatTableAppend_eq read (Nat.not_lt.mpr closed)]
  have used : fat.stored cluster ≠ 0 := by
    intro zero
    unfold nextCluster at closed
    have empty : fat.layout.width.stored fat.view cluster = 0 := zero
    rw [empty, extendMark_zero] at closed
    exact absurd closed (by decide)
  rcases works.loaded.tableAlloc (loaded_holds holds) with
    ⟨after, failed, still, works', full⟩ | ⟨c, middle, allocated, marks, works'⟩
  · rw [failed]
    exact .inl ⟨after, rfl, (still_loaded fat).trans still, works',
      (still_loaded fat).full_iff.mp full⟩
  · right
    have marks' : Marks fat c middle := marks.ofLoaded
    have apart : c ≠ cluster := by
      rintro rfl
      exact used marks'.zero
    have inside : cluster < middle.layout.clusterCount + 2 := by
      rw [marks'.takes.layout]
      exact entry
    obtain ⟨after, ran, takes, works''⟩ :=
      works'.tableSet cluster c (marks'.takes.trans_layout holds) inside
    rw [allocated, linkNew, ran]
    exact ⟨c, middle, after, rfl, marks', apart, takes, works''⟩

end FatTable.Works

end Working

end Opal.Fat
