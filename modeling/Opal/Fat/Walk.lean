import Opal.Fat.Inode
import Opal.Fat.Scan

/-!
# The walk along a chain

What the operations on the table do to its entries, whether they succeed or not: reading an
entry changes none, and an extension of a chain marks an entry that was zero.
-/

namespace Opal.Fat

section Keeping

variable {α β : Type} {fat after : FatTable}

/-- The entries are as they were. -/
structure Still (fat after : FatTable) : Prop where
  view : after.view = fat.view
  layout : after.layout = fat.layout

theorem Still.refl (fat : FatTable) : Still fat fat := ⟨rfl, rfl⟩

theorem Still.trans {middle : FatTable} (first : Still fat middle) (second : Still middle after) :
    Still fat after := ⟨second.view.trans first.view, second.layout.trans first.layout⟩

theorem Still.nextCluster_eq {cluster : Nat} (still : Still fat after) :
    nextCluster after cluster = nextCluster fat cluster := by
  unfold nextCluster
  rw [still.view, still.layout]

theorem still_loaded (fat : FatTable) : Still fat fat.loaded := ⟨loaded_view, loaded_layout⟩

/-- The operation leaves the entries, whatever comes of it. -/
def Keeps (op : FatOp α) : Prop := ∀ fat, Still fat (op fat).2

theorem Keeps.pure (value : α) : Keeps (pure value : FatOp α) := fun _ => ⟨rfl, rfl⟩

theorem Keeps.fail (fault : Fault) : Keeps (Op.fail fault : FatOp α) := fun _ => ⟨rfl, rfl⟩

theorem Keeps.get : Keeps (Op.get : FatOp FatTable) := fun _ => ⟨rfl, rfl⟩

theorem Keeps.bind {op : FatOp α} {next : α → FatOp β} (first : Keeps op)
    (second : ∀ value, Keeps (next value)) : Keeps (op >>= next) := by
  intro fat
  rw [Op.run_bind]
  have before := first fat
  cases ran : op fat with
  | mk outcome after =>
      rw [ran] at before
      cases outcome with
      | ok value =>
          exact before.trans (second value after)
      | error fault => exact before

theorem fatTableReadall_keeps : Keeps fatTableReadall := by
  intro fat
  by_cases readable : fat.Readable
  · rw [fatTableReadall_eq readable]
    exact still_loaded fat
  · obtain ⟨missing, -⟩ := Classical.not_imp.mp readable
    unfold fatTableReadall
    rw [Op.run_get_bind, missing]
    dsimp only
    by_cases allocated : fat.mem.head = true
    · have first : kzalloc fat = (.ok (), { fat with mem := fat.mem.tail }) := by
        unfold kzalloc
        rw [if_pos allocated]
      rw [Op.run_bind_ok first]
      cases outcome : fat.reads.head with
      | none => exact absurd (fun _ => ⟨allocated, outcome⟩) readable
      | some error =>
          have second : readTable { fat with mem := fat.mem.tail } =
              (.error error.fault, { fat with mem := fat.mem.tail, reads := fat.reads.tail }) := by
            unfold readTable
            simp only [outcome]
          rw [Op.run_bind_error second]
          exact ⟨rfl, rfl⟩
    · have first : kzalloc fat = (.error .enomem, { fat with mem := fat.mem.tail }) := by
        unfold kzalloc
        rw [if_neg allocated]
      rw [Op.run_bind_error first]
      exact ⟨rfl, rfl⟩

theorem fatTableRead_keeps (pos size : Nat) : Keeps (fatTableRead pos size) := by
  apply Keeps.bind .get
  intro fat
  split
  · exact .fail _
  · dsimp only
    split
    · exact .pure _
    · exact .bind fatTableReadall_keeps fun _ => .pure _

theorem tableAt_keeps (cluster : Nat) : Keeps (tableAt cluster) := by
  have word : ∀ width limit, Keeps (wordTableAt width limit cluster) := by
    intro width limit
    apply Keeps.bind (fatTableRead_keeps _ _)
    intro entry
    dsimp only
    split
    · exact .fail _
    · exact .pure _
  apply Keeps.bind .get
  intro fat
  cases fat.layout.width with
  | fat12 =>
      apply Keeps.bind (fatTableRead_keeps _ _)
      intro entry
      dsimp only
      split
      · exact .fail _
      · exact .pure _
  | fat16 => exact word 2 0xfff0
  | fat32 => exact word 4 (2 ^ 32)

end Keeping

section Reading

variable {fat after : FatTable} {cluster entry : Nat}

/-- What `table_at` returns leads to the next cluster. -/
theorem maskEntry_tableAt (read : tableAt cluster fat = (.ok entry, after)) :
    maskEntry entry = nextCluster fat cluster ∧ after = fat.loaded := by
  obtain ⟨readable, inside⟩ := inside_of_tableAt read
  rw [tableAt_of_inside readable inside] at read
  cases read
  exact ⟨rfl, rfl⟩

end Reading

section Writing

variable {fat after : FatTable} {cluster other value : Nat}

theorem writeCopies_keeps (front sectors : Nat) (buffer : Memory) (left first : Nat) :
    ∀ fat : FatTable, (writeCopies front sectors buffer left first fat).2.buffer = fat.buffer ∧
      (writeCopies front sectors buffer left first fat).2.layout = fat.layout := by
  induction left generalizing first with
  | zero => exact fun fat => ⟨rfl, rfl⟩
  | succ left inductionHypothesis =>
      intro fat
      unfold writeCopies
      rw [Op.run_bind]
      have copy : (writeCopy first front sectors buffer fat).2.buffer = fat.buffer ∧
          (writeCopy first front sectors buffer fat).2.layout = fat.layout := by
        unfold writeCopy
        dsimp only
        split <;> exact ⟨rfl, rfl⟩
      cases ran : writeCopy first front sectors buffer fat with
      | mk outcome middle =>
          rw [ran] at copy
          cases outcome with
          | ok done =>
              obtain ⟨buffer', layout'⟩ := inductionHypothesis (first + 1) middle
              exact ⟨buffer'.trans copy.1, layout'.trans copy.2⟩
          | error fault => exact copy

/-- An entry is changed in the buffer whether the copies can be written or not. -/
theorem tableSet_view (readable : fat.Readable)
    (inside : fat.layout.width.pos cluster + fat.layout.width.bytes ≤ fat.layout.fatBytes) :
    (tableSet cluster value fat).2.buffer = some (fat.layout.width.encode fat.view cluster value) ∧
      (tableSet cluster value fat).2.layout = fat.layout := by
  rw [tableSet_of_inside readable inside]
  obtain ⟨buffer, layout⟩ := writeCopies_keeps (fat.layout.front cluster)
    (fat.layout.sectors cluster) (fat.layout.width.encode fat.view cluster value)
    fat.layout.numFats 0
    (fat.loaded.withBuffer (fat.layout.width.encode fat.view cluster value))
  exact ⟨buffer, layout.trans loaded_layout⟩

end Writing

section Extending

variable {fat after : FatTable} {cluster : Nat}

/-- The number that the entry of a cluster holds. -/
def FatTable.stored (fat : FatTable) (cluster : Nat) : Nat :=
  fat.layout.width.stored fat.view cluster

/-- The entry of a cluster takes a value, and all others are as they were. -/
structure Takes (fat : FatTable) (cluster value : Nat) (after : FatTable) : Prop where
  readable : after.Readable
  layout : after.layout = fat.layout
  self : after.stored cluster = value % fat.layout.width.values
  others : ∀ other < fat.layout.clusterCount + 2, other ≠ cluster →
    after.stored other = fat.stored other

theorem tableSet_takes {value : Nat} (readable : fat.Readable) (holds : fat.layout.Holds)
    (entry : cluster < fat.layout.clusterCount + 2) :
    Takes fat cluster value (tableSet cluster value fat).2 := by
  obtain ⟨buffer, layout⟩ := @tableSet_view fat cluster value readable
    (entry_inside fat.tabular holds entry)
  generalize (tableSet cluster value fat).2 = after at buffer layout ⊢
  refine ⟨readable_of_buffer buffer, layout, ?_, fun other inside differs => ?_⟩
  · unfold FatTable.stored
    rw [view_of_buffer buffer, layout, Width.stored_encode]
  · unfold FatTable.stored
    rw [view_of_buffer buffer, layout,
      Width.stored_encode_apart _ (apart_of_ne fat.tabular holds entry inside differs)]

/-- The first free entry is marked, whether the copies can be written or not. -/
structure Marks (fat : FatTable) (c : Nat) (after : FatTable) : Prop where
  two : 2 ≤ c
  bound : c < fat.layout.clusterCount + 2
  zero : fat.stored c = 0
  takes : Takes fat c fat.layout.width.mark after

theorem stored_loaded : fat.loaded.stored cluster = fat.stored cluster := by
  unfold FatTable.stored
  rw [loaded_layout, loaded_view]

/-- The scan of `table_alloc` finds no free entry. -/
def FatTable.Full (fat : FatTable) : Prop :=
  fat.layout.width.scan fat.view fat.layout.clusterEnd = none

theorem Still.full_iff (still : Still fat after) : after.Full ↔ fat.Full := by
  unfold FatTable.Full
  rw [still.view, still.layout]

/-- What `table_alloc` leaves: the entries as they were, or one more that is marked. -/
theorem tableAlloc_cases (holds : fat.layout.Holds) :
    (∃ fault after, tableAlloc fat = (.error fault, after) ∧ Still fat after ∧
      (fat.Readable → fat.Full)) ∨
    ∃ c after, Marks fat c after ∧
      (tableAlloc fat = (.ok c, after) ∨ ∃ fault, tableAlloc fat = (.error fault, after)) := by
  by_cases readable : fat.Readable
  · have found := @scan_finds fat.view fat.layout fat.tabular holds
    have full : fat.Full ↔
        fat.layout.width.scan fat.view (fat.layout.clusterCount + 2) = none := by
      unfold FatTable.Full
      rw [clusterEnd_eq holds]
    rw [tableAlloc_eq readable holds]
    cases scanned : fat.layout.width.scan fat.view (fat.layout.clusterCount + 2) with
    | none =>
        exact Or.inl ⟨.enospc, fat.loaded, rfl, still_loaded fat, fun _ => full.mpr scanned⟩
    | some c =>
        rw [scanned] at found
        right
        have entry : c < fat.loaded.layout.clusterCount + 2 := by
          rw [loaded_layout]
          exact found.bound
        have takes := @tableSet_takes fat.loaded c fat.layout.width.mark loaded_readable
          (loaded_holds holds) entry
        refine ⟨c, (tableSet c fat.layout.width.mark fat.loaded).2,
          ⟨found.two, found.bound, found.holds, ?_⟩, ?_⟩
        · obtain ⟨readable', layout, self, others⟩ := takes
          rw [loaded_layout] at layout self others
          refine ⟨readable', layout, self, fun other inside differs => ?_⟩
          rw [others other inside differs, stored_loaded]
        · dsimp only
          rw [Op.run_bind]
          cases ran : tableSet c fat.layout.width.mark fat.loaded with
          | mk result after =>
              cases result with
              | ok done => exact Or.inl rfl
              | error fault => exact Or.inr ⟨fault, rfl⟩
  · obtain ⟨fault, after, failed, -⟩ := fatTableReadall_fails readable
    have keeps := fatTableReadall_keeps fat
    rw [failed] at keeps
    refine Or.inl ⟨fault, after, ?_, keeps, fun read => absurd read readable⟩
    unfold tableAlloc
    rw [Op.run_get_bind]
    cases fat.layout.width <;> exact Op.run_bind_error failed _

theorem Takes.trans_layout {value : Nat} (takes : Takes fat cluster value after)
    (holds : fat.layout.Holds) : after.layout.Holds := by
  rw [takes.layout]
  exact holds

/-- What `fat_table_append` leaves: the entries as they were, a cluster that is marked and not
linked, a cluster that is linked, or an entry that is linked to a cluster given back. -/
inductive Appends (fat : FatTable) (cluster : Nat) : Except Fault Nat → FatTable → Prop where
  | refused {fault after} (still : Still fat after)
      (reason : fat.Readable → fat.Full ∨ nextCluster fat cluster < 0x0ffffff8) :
      Appends fat cluster (.error fault) after
  | marked {fault c after} (marks : Marks fat c after) (apart : c ≠ cluster) :
      Appends fat cluster (.error fault) after
  | linked {c middle after} (marks : Marks fat c middle) (apart : c ≠ cluster)
      (link : Takes middle cluster c after) : Appends fat cluster (.ok c) after
  | reset {fault c middle link after} (marks : Marks fat c middle) (apart : c ≠ cluster)
      (linked : Takes middle cluster c link) (free : Takes link c 0 after) :
      Appends fat cluster (.error fault) after

/-- The end of `fat_table_append`, once the new cluster is allocated. -/
def linkNew (cluster : Nat) : Except Fault Nat × FatTable → Except Fault Nat × FatTable
  | (.ok newCluster, fat) =>
      match tableSet cluster newCluster fat with
      | (.ok (), fat) => (.ok newCluster, fat)
      | (.error error, fat) => (.error error, (tableSet newCluster 0 fat).2)
  | (.error error, fat) => (.error error, fat)

theorem fatTableAppend_eq {value : Nat} (read : tableAt cluster fat = (.ok value, after))
    (last : ¬value % 2 ^ 28 < 0x0ffffff8) :
    fatTableAppend cluster fat = linkNew cluster (tableAlloc after) := by
  unfold fatTableAppend
  rw [Op.run_bind_ok read, if_neg last]
  refine (Op.run_bind _ _).trans ?_
  cases tableAlloc after with
  | mk result fat => cases result <;> rfl

theorem fatTableAppend_appends (holds : fat.layout.Holds)
    (entry : cluster < fat.layout.clusterCount + 2) :
    Appends fat cluster (fatTableAppend cluster fat).1 (fatTableAppend cluster fat).2 := by
  have keeps := tableAt_keeps cluster fat
  cases read : tableAt cluster fat with
  | mk result loaded =>
      rw [read] at keeps
      cases result with
      | error fault =>
          unfold fatTableAppend
          rw [Op.run_bind_error read]
          refine .refused keeps fun readable => ?_
          rw [tableAt_eq readable holds entry] at read
          cases read
      | ok value =>
          obtain ⟨next, rfl⟩ := maskEntry_tableAt read
          by_cases inner : value % 2 ^ 28 < 0x0ffffff8
          · unfold fatTableAppend
            rw [Op.run_bind_ok read, if_pos inner]
            exact .refused keeps fun _ => Or.inr (next ▸ inner)
          rw [fatTableAppend_eq read inner]
          unfold linkNew
          have used : fat.stored cluster ≠ 0 := by
            intro zero
            unfold nextCluster at next
            have empty : fat.layout.width.stored fat.view cluster = 0 := zero
            rw [empty, extendMark_zero] at next
            unfold maskEntry at next
            omega
          rcases tableAlloc_cases (loaded_holds holds) with
            ⟨fault, after, failed, still, full⟩ | ⟨c, middle, marks, outcome⟩
          · rw [failed]
            exact .refused ((still_loaded fat).trans still) fun _ =>
              Or.inl ((still_loaded fat).full_iff.mp (full loaded_readable))
          · have marks' : Marks fat c middle := by
              obtain ⟨two, bound, zero, readable, layout, self, others⟩ := marks
              rw [loaded_layout] at bound layout self others
              rw [stored_loaded] at zero
              refine ⟨two, bound, zero, readable, layout, self, fun other inside differs => ?_⟩
              rw [others other inside differs, stored_loaded]
            have apart : c ≠ cluster := by
              rintro rfl
              exact used marks'.zero
            rcases outcome with allocated | ⟨fault, failed⟩
            · rw [allocated]
              dsimp only
              have inside : cluster < middle.layout.clusterCount + 2 := by
                rw [marks'.takes.layout]
                exact entry
              have link := @tableSet_takes middle cluster c marks'.takes.readable
                (marks'.takes.trans_layout holds) inside
              cases ran : tableSet cluster c middle with
              | mk result after =>
                  rw [ran] at link
                  cases result with
                  | ok done => exact .linked marks' apart link
                  | error fault =>
                      have bound : c < after.layout.clusterCount + 2 := by
                        rw [link.layout, marks'.takes.layout]
                        exact marks'.bound
                      exact .reset marks' apart link (tableSet_takes link.readable
                        (link.trans_layout (marks'.takes.trans_layout holds)) bound)
            · rw [failed]
              exact .marked marks' apart

end Extending

section Growing

variable {fat after middle : FatTable} {cluster c value : Nat}

/-- The entries are wide enough for the numbers of all clusters, and there is one for each. -/
structure Layout.Sound (layout : Layout) : Prop where
  holds : layout.Holds
  few : layout.clusterCount ≤ maxClusters layout.bits

/-- No entry of a cluster has become zero. -/
structure Grows (fat after : FatTable) : Prop where
  layout : after.layout = fat.layout
  used : ∀ other < fat.layout.clusterCount + 2, fat.stored other ≠ 0 → after.stored other ≠ 0

theorem Grows.trans (first : Grows fat middle) (second : Grows middle after) : Grows fat after where
  layout := second.layout.trans first.layout
  used other inside used := by
    apply second.used other
    · rw [first.layout]
      exact inside
    · exact first.used other inside used

theorem Still.stored_eq (still : Still fat after) :
    after.stored cluster = fat.stored cluster := by
  unfold FatTable.stored
  rw [still.view, still.layout]

theorem Still.grows (still : Still fat after) : Grows fat after :=
  ⟨still.layout, fun other _ used => by rwa [still.stored_eq]⟩

theorem Takes.grows (takes : Takes fat cluster value after)
    (kept : fat.stored cluster ≠ 0 → value % fat.layout.width.values ≠ 0) : Grows fat after := by
  refine ⟨takes.layout, fun other inside used => ?_⟩
  by_cases same : other = cluster
  · subst same
    rw [takes.self]
    exact kept used
  · rwa [takes.others other inside same]

theorem mark_ne_zero (width : Width) : width.mark % width.values ≠ 0 := by
  cases width <;> decide

theorem Marks.stored_ne_zero (marks : Marks fat c after) : after.stored c ≠ 0 := by
  rw [marks.takes.self]
  exact mark_ne_zero _

theorem Marks.grows (marks : Marks fat c after) : Grows fat after :=
  marks.takes.grows fun _ => mark_ne_zero _

/-- The number of a cluster fits into an entry. -/
theorem Marks.value_ne_zero (marks : Marks fat c after) (sound : fat.layout.Sound) :
    c % fat.layout.width.values ≠ 0 := by
  have fits := storable_lt sound.few (Or.inr (Or.inl ⟨marks.two, marks.bound⟩))
  rw [Nat.mod_eq_of_lt fits.1]
  exact Nat.ne_of_gt (Nat.lt_of_lt_of_le (by decide) marks.two)

theorem Appends.grows {outcome : Except Fault Nat} (sound : fat.layout.Sound)
    (appends : Appends fat cluster outcome after) : Grows fat after := by
  cases appends with
  | refused still reason => exact still.grows
  | marked marks apart => exact marks.grows
  | @linked c middle _ marks apart link =>
      apply marks.grows.trans
      apply link.grows
      intro _
      rw [marks.takes.layout]
      exact marks.value_ne_zero sound
  | @reset _ c middle linked _ marks apart link free =>
      refine ⟨?_, fun other inside used => ?_⟩
      · rw [free.layout, link.layout, marks.takes.layout]
      · have differs : other ≠ c := by
          rintro rfl
          exact used marks.zero
        have inMiddle : other < middle.layout.clusterCount + 2 := by
          rw [marks.takes.layout]
          exact inside
        have inLinked : other < linked.layout.clusterCount + 2 := by
          rw [link.layout]
          exact inMiddle
        rw [free.others other inLinked differs]
        by_cases same : other = cluster
        · subst same
          rw [link.self, marks.takes.layout]
          exact marks.value_ne_zero sound
        · rwa [link.others other inMiddle same, marks.takes.others other inside differs]

end Growing

section Steps

/-- The cluster of a chain at an index. -/
def chainAt (fat : FatTable) (first k : Nat) : Nat := (nextCluster fat)^[k] first

theorem chainAt_succ (fat : FatTable) (first k : Nat) :
    chainAt fat first (k + 1) = nextCluster fat (chainAt fat first k) :=
  Function.iterate_succ_apply' _ _ _

/-- A step from a cluster whose entry can be read. -/
theorem stepCluster_of_readable {fat : FatTable} {cluster : Nat} (readable : fat.Readable)
    (holds : fat.layout.Holds) (entry : cluster < fat.layout.clusterCount + 2) :
    stepCluster cluster fat =
      if isClusterEof fat.layout (nextCluster fat cluster) then
        match fatTableAppend cluster fat.loaded with
        | (.error fault, fat) => (.error (.extension fault), fat)
        | (.ok nextCluster, fat) => (.ok nextCluster, fat)
      else (.ok (nextCluster fat cluster), fat.loaded) := by
  unfold stepCluster
  rw [tableAt_eq readable holds entry]
  dsimp only
  rw [loaded_layout]
  rfl

end Steps

end Opal.Fat
