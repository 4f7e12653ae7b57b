import Opal.Fat.Readall

/-!
# Failing changes of the table

`table_set` and `fat_table_append` change the buffer first and write the copies then.  The
buffer is what `table_at` reads, so a change whose writes fail is reported as not made and is
seen all the same.
-/

namespace Opal.Fat

section Setting

variable {fat after : FatTable} {front sectors left first cluster value pos size : Nat}
  {buffer source : Memory}

/-- A call that reports failure has left all entries as they were. -/
def Atomic {α : Type} (call : FatOp α) (fat : FatTable) : Prop :=
  ∀ error after, call fat = (.error error, after) → SameEntries fat after

/-- The entry of a cluster lies in the table. -/
def Layout.Inside (layout : Layout) (cluster : Nat) : Prop :=
  layout.width.pos cluster + layout.width.bytes ≤ layout.fatBytes

/-- The writes succeed exactly if the device takes the sectors of every copy. -/
theorem writeCopies_ok_iff :
    (writeCopies front sectors buffer left first fat).1 = .ok () ↔
      ∀ i < left, fat.writes.get i = none := by
  constructor
  · intro wrote
    induction left generalizing first fat with
    | zero => exact fun i lower => absurd lower (Nat.not_lt_zero i)
    | succ left inductionHypothesis =>
        unfold writeCopies at wrote
        cases outcome : fat.writes.head with
        | none =>
            have head : ∃ middle, writeCopy first front sectors buffer fat = (.ok (), middle) ∧
                middle.writes = fat.writes.tail := by
              unfold writeCopy
              simp only [outcome]
              exact ⟨_, rfl, rfl⟩
            obtain ⟨middle, copied, writes⟩ := head
            rw [Op.run_bind_ok copied] at wrote
            have rest := inductionHypothesis wrote
            rw [writes] at rest
            intro i lower
            cases i with
            | zero => exact outcome
            | succ i => exact rest i (Nat.lt_of_succ_lt_succ lower)
        | some failure =>
            have head : ∃ error middle, writeCopy first front sectors buffer fat =
                (.error error, middle) := by
              unfold writeCopy
              simp only [outcome]
              exact ⟨_, _, rfl⟩
            obtain ⟨error, _, failed⟩ := head
            rw [Op.run_bind_error failed] at wrote
            cases wrote
  · intro succeeds
    obtain ⟨after, wrote⟩ :=
      @writeCopies_succeeds fat front sectors left first buffer succeeds
    rw [wrote]

theorem tableSet_ok_iff (readable : fat.Readable) (inside : fat.layout.Inside cluster) :
    (tableSet cluster value fat).1 = .ok () ↔
      ∀ i < fat.layout.numFats, fat.writes.get i = none := by
  rw [tableSet_of_inside readable inside, writeCopies_ok_iff]
  show (∀ i < fat.layout.numFats, fat.loaded.writes.get i = none) ↔ _
  rw [loaded_writes]

theorem fatBytes_mod_four (fat : FatTable) : fat.layout.fatBytes % 4 = 0 := by
  have bps := of_decide_eq_true fat.tabular.bps
  unfold Layout.fatBytes
  rcases bps with bps | bps | bps | bps <;> rw [bps] <;> omega

/-- Nothing is written behind the table, or before it is read. -/
theorem fatTableWrite_still (refused : ¬(fat.Readable ∧ pos < fat.layout.fatBytes)) :
    Still fat (fatTableWrite pos source size fat).2 := by
  unfold fatTableWrite
  rw [Op.run_get_bind]
  split
  · exact .refl fat
  · split
    · exact .refl fat
    · dsimp only
      split
      · exact .refl fat
      · have unreadable : ¬fat.Readable := fun readable => refused ⟨readable, by omega⟩
        obtain ⟨error, after, failed, -⟩ := fatTableReadall_fails unreadable
        have keeps := fatTableReadall_keeps fat
        rw [failed] at keeps
        rw [Op.run_bind_error failed]
        exact keeps

theorem wordTableSet_still {width : Nat} (refused : ¬(fat.Readable ∧
    cluster * width % 2 ^ 32 < fat.layout.fatBytes)) :
    Still fat (wordTableSet width cluster value fat).2 := by
  have still := @fatTableWrite_still fat (cluster * width % 2 ^ 32) width (Memory.bytesOf value)
    refused
  unfold wordTableSet
  cases wrote : fatTableWrite (cluster * width % 2 ^ 32) (Memory.bytesOf value) width fat with
  | mk outcome after =>
      rw [wrote] at still
      cases outcome with
      | error error =>
          rw [Op.run_bind_error wrote]
          exact still
      | ok n =>
          rw [Op.run_bind_ok wrote]
          split <;> exact still

/-- An entry outside of the table, or of a table that cannot be read, is not changed. -/
theorem tableSet_still (refused : ¬(fat.Readable ∧ fat.layout.Inside cluster)) :
    Still fat (tableSet cluster value fat).2 := by
  have aligned := fatBytes_mod_four fat
  unfold Layout.Inside at refused
  unfold tableSet
  rw [Op.run_get_bind]
  cases width : fat.layout.width with
  | fat12 =>
      rw [width] at refused
      show Still fat (fat12TableSet cluster value fat).2
      unfold fat12TableSet
      dsimp only
      have keeps := fatTableRead_keeps (cluster * 3 % 2 ^ 32 / 2) 2 fat
      cases read : fatTableRead (cluster * 3 % 2 ^ 32 / 2) 2 fat with
      | mk outcome after =>
          rw [read] at keeps
          cases outcome with
          | error error =>
              rw [Op.run_bind_error read]
              exact keeps
          | ok got =>
              obtain ⟨n, bytes⟩ := got
              have short : n ≠ 2 := fun whole =>
                refused (readable_of_fatTableRead (by decide) read whole)
              rw [Op.run_bind_ok read]
              dsimp only
              rw [if_pos short]
              exact keeps
  | fat16 =>
      rw [width] at refused
      dsimp only [Width.pos, Width.bytes] at refused
      exact wordTableSet_still fun both => refused ⟨both.1, by omega⟩
  | fat32 =>
      rw [width] at refused
      dsimp only [Width.pos, Width.bytes] at refused
      exact wordTableSet_still fun both => refused ⟨both.1, by omega⟩

/-- What keeps a failing `table_set` from being seen: no write of it fails, or the entry holds
the number already. -/
def SetSafe (fat : FatTable) (cluster value : Nat) : Prop :=
  fat.Readable → fat.layout.Inside cluster →
    (∀ i < fat.layout.numFats, fat.writes.get i = none) ∨
      fat.stored cluster = value % fat.layout.width.values

theorem atomic_tableSet_iff : Atomic (tableSet cluster value) fat ↔ SetSafe fat cluster value := by
  constructor
  · intro atomic readable inside
    obtain ⟨buffer, layout⟩ := @tableSet_view fat cluster value readable inside
    refine or_iff_not_imp_left.mpr fun failing => ?_
    have reported := mt (@tableSet_ok_iff fat cluster value readable inside).mp failing
    cases ran : tableSet cluster value fat with
    | mk outcome after =>
        rw [ran] at buffer layout reported
        cases outcome with
        | ok done => exact absurd rfl reported
        | error error =>
            rw [← (atomic error after ran).stored_of_inside layout inside]
            unfold FatTable.stored
            rw [view_of_buffer buffer, layout, Width.stored_encode]
  · intro safe error after failed
    apply Still.sameEntries
    by_cases changes : fat.Readable ∧ fat.layout.Inside cluster
    · obtain ⟨readable, inside⟩ := changes
      obtain ⟨buffer, layout⟩ := @tableSet_view fat cluster value readable inside
      have reported := (@tableSet_ok_iff fat cluster value readable inside).mpr
      rw [failed] at buffer layout reported
      rcases safe readable inside with succeeds | same
      · cases reported succeeds
      · refine ⟨?_, layout⟩
        rw [view_of_buffer buffer, Width.encode_stored _ same]
    · have still := @tableSet_still fat cluster value changes
      rwa [failed] at still

end Setting

section Packed

namespace Width

variable {mem : Memory} {cluster c value value' : Nat}

/-- Of two numbers that an entry takes in turn the second one stays. -/
theorem encode_encode (width : Width) :
    width.encode (width.encode mem cluster value) cluster value' =
      width.encode mem cluster value' := by
  have again {pos size : Nat} {source source' : Memory} :
      (mem.copyInto pos size source).copyInto pos size source' = mem.copyInto pos size source' := by
    funext i
    unfold Memory.copyInto
    split <;> rfl
  cases width with
  | fat12 =>
      unfold encode
      dsimp only
      rw [again, copyInto_low, copyInto_high]
      refine congrArg (mem.copyInto (pos fat12 cluster) 2) (funext fun i => ?_)
      have lowByte := (mem (pos fat12 cluster)).toNat_lt
      have highByte := (mem (pos fat12 cluster + 1)).toNat_lt
      unfold pack
      split
      · simp only [one_ne_zero, if_false, UInt8.toNat_ofNat']
        split
        · rfl
        · exact congrArg UInt8.ofNat (by omega)
      · simp only [if_true, UInt8.toNat_ofNat']
        split
        · exact congrArg UInt8.ofNat (by omega)
        · rfl
  | fat16 => exact again
  | fat32 => exact again

theorem nibble_lt (mem : Memory) (i : Nat) : nibble mem i < 16 := by
  have byte := (mem (i / 2)).toNat_lt
  unfold nibble
  split <;> omega

theorem le_of_last (bound : value < 2 ^ 12)
    (last : 0x0ffffff8 ≤ maskEntry (extendMark 0xff0 value)) : 0xff8 ≤ value := by
  unfold maskEntry extendMark at last
  split at last <;> omega

/-- An entry that is zero has no half byte in common with the end of a chain. -/
theorem apart_of_zero (width : Width) (zero : width.stored mem c = 0)
    (last : 0x0ffffff8 ≤ maskEntry (extendMark width.limit (width.stored mem cluster))) :
    width.Apart c cluster := by
  have differs : width.stored mem c ≠ width.stored mem cluster := by
    intro same
    rw [← same, zero] at last
    unfold maskEntry extendMark at last
    cases width <;> simp [limit] at last
  cases width with
  | fat12 =>
      have high : 0xff8 ≤ stored fat12 mem cluster := le_of_last (stored_lt fat12) last
      rw [stored_nibbles] at zero high
      have empty : ∀ i, half fat12 c ≤ i → i < half fat12 c + 3 → nibble mem i = 0 := by
        intro i low high
        obtain rfl | rfl | rfl : i = half fat12 c ∨ i = half fat12 c + 1 ∨
          i = half fat12 c + 2 := by omega
        all_goals omega
      have full : ∀ i, half fat12 cluster ≤ i → i < half fat12 cluster + 3 →
          nibble mem i ≠ 0 := by
        have first := nibble_lt mem (half fat12 cluster)
        have second := nibble_lt mem (half fat12 cluster + 1)
        have third := nibble_lt mem (half fat12 cluster + 2)
        intro i low high
        obtain rfl | rfl | rfl : i = half fat12 cluster ∨ i = half fat12 cluster + 1 ∨
          i = half fat12 cluster + 2 := by omega
        all_goals omega
      by_contra shared
      dsimp only [Apart, halves] at shared
      rcases le_total (half fat12 c) (half fat12 cluster) with before | behind
      · exact full _ le_rfl (by omega) (empty _ before (by omega))
      · exact full _ behind (by omega) (empty _ le_rfl (by omega))
  | fat16 =>
      have place : pos fat16 c ≠ pos fat16 cluster := fun same =>
        differs (congrArg (fun at_ => mem.word at_ 2) same)
      dsimp only [Apart, half, halves, pos] at place ⊢
      omega
  | fat32 =>
      have place : pos fat32 c ≠ pos fat32 cluster := fun same =>
        differs (congrArg (fun at_ => mem.word at_ 4) same)
      dsimp only [Apart, half, halves, pos] at place ⊢
      omega

end Width

end Packed

section Appending

variable {fat after : FatTable} {cluster c : Nat}

/-- The cluster whose entry `table_alloc` marks. -/
def FatTable.nextFree (fat : FatTable) : Option Nat :=
  (fat.layout.width.scan fat.view fat.layout.clusterEnd).filter fun c =>
    fat.layout.width.entryEnd c ≤ fat.layout.fatBytes

theorem loaded_nextFree : fat.loaded.nextFree = fat.nextFree := by
  unfold FatTable.nextFree
  rw [loaded_layout, loaded_view]

theorem wordScan_zero {width count : Nat} {mem : Memory}
    (found : wordScan width mem count = some c) : mem.word (c * width) width = 0 := by
  unfold wordScan at found
  simpa using List.find?_some found

/-- The scan stops at an entry of zero. -/
theorem nextFree_zero (next : fat.nextFree = some c) :
    fat.layout.Inside c ∧ fat.stored c = 0 := by
  have bound := fatBytes_lt fat.layout
  unfold FatTable.nextFree at next
  obtain ⟨found, fits⟩ := Option.filter_eq_some_iff.mp next
  have fits := of_decide_eq_true fits
  unfold FatTable.stored Layout.Inside
  cases width : fat.layout.width with
  | fat12 =>
      have few := fat.tabular.narrow (bits_of_fat12 width)
      have finds := @fat12Scan_finds fat.view fat.layout.clusterCount few
      have whole : fat.layout.clusterEnd = fat.layout.clusterCount + 2 := by
        unfold fat12MaxClusters at few
        exact Nat.mod_eq_of_lt (by omega)
      rw [width, whole] at found
      rw [show fat12Scan fat.view (fat.layout.clusterCount + 2) = some c from found] at finds
      rw [width] at fits
      refine ⟨?_, finds.holds⟩
      have inside := finds.bound
      unfold fat12MaxClusters at few
      dsimp only [Width.entryEnd, Width.pos, Width.bytes] at fits ⊢
      omega
  | fat16 =>
      rw [width] at found fits
      have zero := wordScan_zero found
      dsimp only [Width.entryEnd] at fits
      have place : Width.pos .fat16 c = c * 2 := Nat.mod_eq_of_lt (by omega)
      refine ⟨?_, ?_⟩
      · dsimp only [Width.bytes]
        omega
      · dsimp only [Width.stored]
        rw [place]
        exact zero
  | fat32 =>
      rw [width] at found fits
      have zero := wordScan_zero found
      dsimp only [Width.entryEnd] at fits
      have place : Width.pos .fat32 c = c * 4 := Nat.mod_eq_of_lt (by omega)
      refine ⟨?_, ?_⟩
      · dsimp only [Width.bytes]
        omega
      · dsimp only [Width.stored]
        rw [place]
        exact zero

theorem tableAlloc_of_nextFree (readable : fat.Readable) (next : fat.nextFree = some c) :
    tableAlloc fat = (tableSet c fat.layout.width.mark >>= fun _ => pure c) fat.loaded := by
  obtain ⟨found, fits⟩ := Option.filter_eq_some_iff.mp next
  rw [tableAlloc_of_scan readable, found]
  exact if_pos (of_decide_eq_true fits)

/-- Nothing is allocated where the scan finds no entry of the table. -/
theorem tableAlloc_of_none (readable : fat.Readable) (full : fat.nextFree = none) :
    ∃ error, tableAlloc fat = (.error error, fat.loaded) := by
  rw [tableAlloc_of_scan readable]
  cases found : fat.layout.width.scan fat.view fat.layout.clusterEnd with
  | none => exact ⟨.enospc, rfl⟩
  | some c =>
      refine ⟨.stray, if_neg fun fits => ?_⟩
      unfold FatTable.nextFree at full
      rw [found] at full
      exact Option.filter_eq_none_iff.mp full c rfl (decide_eq_true fits)

/-- The chain ends at a cluster, and there is one to put behind it. -/
structure Extends (fat : FatTable) (cluster c : Nat) : Prop where
  readable : fat.Readable
  inside : fat.layout.Inside cluster
  last : 0x0ffffff8 ≤ nextCluster fat cluster
  next : fat.nextFree = some c

/-- A chain that is not extended is left as it is. -/
theorem fatTableAppend_keeps (refused : ¬∃ c, Extends fat cluster c) :
    Still fat (fatTableAppend cluster fat).2 := by
  have keeps := tableAt_keeps cluster fat
  cases read : tableAt cluster fat with
  | mk outcome loaded =>
      rw [read] at keeps
      cases outcome with
      | error error =>
          unfold fatTableAppend
          rw [Op.run_bind_error read]
          exact keeps
      | ok value =>
          obtain ⟨next, rfl⟩ := maskEntry_tableAt read
          obtain ⟨readable, inside⟩ := inside_of_tableAt read
          by_cases inner : value % 2 ^ 28 < 0x0ffffff8
          · unfold fatTableAppend
            rw [Op.run_bind_ok read, if_pos inner]
            exact keeps
          · have last : 0x0ffffff8 ≤ nextCluster fat cluster := next ▸ Nat.le_of_not_lt inner
            rw [fatTableAppend_eq read inner]
            cases found : fat.nextFree with
            | some c => exact absurd ⟨c, readable, inside, last, found⟩ refused
            | none =>
                rw [← loaded_nextFree] at found
                obtain ⟨error, failed⟩ := tableAlloc_of_none loaded_readable found
                rw [failed]
                exact keeps.trans (still_loaded fat.loaded)

theorem Extends.fatTableAppend_eq (extend : Extends fat cluster c) :
    fatTableAppend cluster fat =
      linkNew cluster ((tableSet c fat.layout.width.mark >>= fun _ => pure c) fat.loaded) := by
  have read := tableAt_of_inside extend.readable extend.inside
  have next := extend.next
  rw [← loaded_nextFree] at next
  rw [Fat.fatTableAppend_eq read (Nat.not_lt.mpr extend.last),
    tableAlloc_of_nextFree loaded_readable next, loaded_layout, loaded_of_buffer loaded_buffer]

/-- What keeps a failing `fat_table_append` from being seen: the mark of the new cluster is
written, and so is the link to it, or the entry of the last cluster holds its number already. -/
def AppendSafe (fat : FatTable) (cluster : Nat) : Prop :=
  ∀ c, Extends fat cluster c → (∀ i < fat.layout.numFats, fat.writes.get i = none) ∧
    ((∀ i < fat.layout.numFats, fat.writes.get (fat.layout.numFats + i) = none) ∨
      fat.stored cluster = c % fat.layout.width.values)

/-- A new cluster whose mark is not written is marked all the same. -/
theorem Extends.not_atomic_of_mark (extend : Extends fat cluster c)
    (failing : ¬∀ i < fat.layout.numFats, fat.writes.get i = none) :
    ¬Atomic (fatTableAppend cluster) fat := by
  obtain ⟨inside, zero⟩ := nextFree_zero extend.next
  have inside' : fat.loaded.layout.Inside c := by rwa [loaded_layout]
  obtain ⟨buffer, layout⟩ :=
    @tableSet_view fat.loaded c fat.layout.width.mark loaded_readable inside'
  have reported := mt (@tableSet_ok_iff fat.loaded c fat.layout.width.mark loaded_readable
    inside').mp (by rwa [loaded_layout, loaded_writes])
  intro atomic
  have ended := extend.fatTableAppend_eq
  cases ran : tableSet c fat.layout.width.mark fat.loaded with
  | mk outcome after =>
      rw [ran] at buffer layout reported
      cases outcome with
      | ok done => exact reported rfl
      | error error =>
          rw [Op.run_bind_error ran] at ended
          have same := (atomic error after ended).stored_of_inside
            (layout.trans loaded_layout) inside
          unfold FatTable.stored at same zero
          rw [view_of_buffer buffer, layout, loaded_layout, Width.stored_encode, zero] at same
          exact mark_ne_zero _ same

/-- The state in which the new cluster is marked and not yet linked. -/
structure Marked (fat : FatTable) (c : Nat) (after : FatTable) : Prop where
  layout : after.layout = fat.layout
  buffer : after.buffer = some (fat.layout.width.encode fat.view c fat.layout.width.mark)
  writes : after.writes = fat.writes.drop fat.layout.numFats

theorem Extends.marked (extend : Extends fat cluster c)
    (succeeds : ∀ i < fat.layout.numFats, fat.writes.get i = none) :
    ∃ after, Marked fat c after ∧
      fatTableAppend cluster fat = linkNew cluster (.ok c, after) := by
  have inside : fat.loaded.layout.Inside c := by
    rw [loaded_layout]
    exact (nextFree_zero extend.next).1
  have reported := (@tableSet_ok_iff fat.loaded c fat.layout.width.mark loaded_readable
    inside).mpr (by rwa [loaded_layout, loaded_writes])
  cases ran : tableSet c fat.layout.width.mark fat.loaded with
  | mk outcome after =>
      rw [ran] at reported
      cases reported
      refine ⟨after, ?_, ?_⟩
      · rw [tableSet_of_inside loaded_readable inside] at ran
        rw [writeCopies_ok ran]
        refine ⟨?_, ?_, ?_⟩
        · simp only [FatTable.withBuffer, loaded_layout]
        · simp only [FatTable.withBuffer, loaded_layout, loaded_view]
        · simp only [FatTable.withBuffer, loaded_layout, loaded_writes]
      · rw [extend.fatTableAppend_eq, Op.run_bind_ok ran]
        rfl

/-- A link that is not written is taken back only as far as the new cluster goes. -/
theorem Extends.atomic_iff_of_marked (extend : Extends fat cluster c) {middle : FatTable}
    (marked : Marked fat c middle)
    (ended : fatTableAppend cluster fat = linkNew cluster (.ok c, middle)) :
    Atomic (fatTableAppend cluster) fat ↔
      (∀ i < fat.layout.numFats, fat.writes.get (fat.layout.numFats + i) = none) ∨
        fat.stored cluster = c % fat.layout.width.values := by
  obtain ⟨free, zero⟩ := nextFree_zero extend.next
  have apart := Width.apart_of_zero fat.layout.width zero extend.last
  have readable := readable_of_buffer marked.buffer
  have inside : middle.layout.Inside cluster := by
    rw [marked.layout]
    exact extend.inside
  have reported := @tableSet_ok_iff middle cluster c readable inside
  rw [marked.layout, marked.writes] at reported
  simp only [Stream'.get_drop] at reported
  obtain ⟨buffer, layout⟩ := @tableSet_view middle cluster c readable inside
  rw [marked.layout, view_of_buffer marked.buffer] at buffer
  cases ran : tableSet cluster c middle with
  | mk outcome linked =>
      rw [ran] at reported buffer layout
      cases outcome with
      | ok done =>
          refine iff_of_true ?_ (Or.inl (reported.mp rfl))
          intro error after failed
          rw [ended] at failed
          unfold linkNew at failed
          dsimp only at failed
          rw [ran] at failed
          cases failed
      | error error =>
          have failed : fatTableAppend cluster fat = (.error error, (tableSet c 0 linked).2) := by
            rw [ended]
            unfold linkNew
            dsimp only
            rw [ran]
          have failing : ¬∀ i < fat.layout.numFats,
              fat.writes.get (fat.layout.numFats + i) = none :=
            mt reported.mpr nofun
          have layout' : linked.layout = fat.layout := layout.trans marked.layout
          obtain ⟨buffer', layout''⟩ := @tableSet_view linked c 0 (readable_of_buffer buffer)
            (by rw [layout']; exact free)
          rw [layout', view_of_buffer buffer] at buffer'
          have result := layout''.trans layout'
          constructor
          · intro atomic
            right
            rw [← (atomic error _ failed).stored_of_inside result extend.inside]
            unfold FatTable.stored
            rw [view_of_buffer buffer', result, Width.stored_encode_apart _ apart,
              Width.stored_encode]
          · rintro (succeeds | same)
            · exact absurd succeeds failing
            · intro error' after failed'
              rw [failed] at failed'
              cases failed'
              apply Still.sameEntries
              refine ⟨?_, result⟩
              -- The link is the number that the entry holds, so the mark is all there is to undo.
              have linkKept : fat.layout.width.stored
                  (fat.layout.width.encode fat.view c fat.layout.width.mark) cluster =
                    c % fat.layout.width.values := by
                rw [Width.stored_encode_apart _ apart]
                exact same
              rw [view_of_buffer buffer', Width.encode_stored _ linkKept, Width.encode_encode]
              exact Width.encode_stored _ (zero.trans (Nat.zero_mod _).symm)

theorem atomic_fatTableAppend_iff :
    Atomic (fatTableAppend cluster) fat ↔ AppendSafe fat cluster := by
  by_cases some_extends : ∃ c, Extends fat cluster c
  · obtain ⟨c, extend⟩ := some_extends
    have unique : AppendSafe fat cluster ↔
        (∀ i < fat.layout.numFats, fat.writes.get i = none) ∧
          ((∀ i < fat.layout.numFats, fat.writes.get (fat.layout.numFats + i) = none) ∨
            fat.stored cluster = c % fat.layout.width.values) := by
      refine ⟨fun safe => safe c extend, fun safe c' extend' => ?_⟩
      have same : c' = c := Option.some.inj (extend'.next.symm.trans extend.next)
      rwa [same]
    rw [unique]
    by_cases succeeds : ∀ i < fat.layout.numFats, fat.writes.get i = none
    · obtain ⟨middle, marked, ended⟩ := extend.marked succeeds
      rw [extend.atomic_iff_of_marked marked ended]
      exact (and_iff_right succeeds).symm
    · exact iff_of_false (extend.not_atomic_of_mark succeeds) fun safe => succeeds safe.1
  · refine iff_of_true ?_ fun c extend => absurd ⟨c, extend⟩ some_extends
    intro error after failed
    have still := fatTableAppend_keeps some_extends
    rw [failed] at still
    exact still.sameEntries

end Appending

section Claims

/-- Failing changes of the table are not seen, whatever the state of the table and the
cluster, exactly if the writes of the copies succeed or there is nothing to change. -/
theorem tableUpdates_atomic_iff (fat : FatTable) (cluster : Nat) :
    (∀ value, Atomic (tableSet cluster value) fat ↔ SetSafe fat cluster value) ∧
      (Atomic (fatTableAppend cluster) fat ↔ AppendSafe fat cluster) :=
  ⟨fun _ => atomic_tableSet_iff, atomic_fatTableAppend_iff⟩

/-- A table of 16 bits in which the chain of the cluster 2 ends and the cluster 3 is free.  The
sectors of the new mark are written, those of the link are not. -/
def brokenLink : FatTable where
  layout :=
    { bits := 16, bytesPerSector := 512, sectorsPerCluster := 1, reservedSectors := 1,
      numFats := 1, fatSectors := 1, totalSectors := 160, dataOffset := 34, clusterCount := 126,
      root := .fixed 2 512 }
  tabular := ⟨by decide, fun narrow => absurd narrow (by decide)⟩
  buffer := none
  copies := fun _ i => if i = 4 ∨ i = 5 then 0xff else 0
  mem := AllocOracle.always
  reads := Stream'.const none
  writes := Stream'.cons none (Stream'.const (some (0, .eio)))

/-- The failed extension leaves the end of the chain linked to a cluster that is free. -/
theorem tableUpdates_not_atomic :
    ¬∀ (fat : FatTable) (cluster : Nat), (∀ value, Atomic (tableSet cluster value) fat) ∧
      Atomic (fatTableAppend cluster) fat := by
  intro atomic
  have same := (atomic brokenLink 2).2 .eio (fatTableAppend 2 brokenLink).2
    (Prod.ext (by rfl) rfl) 2
  have before : (tableAt 2 brokenLink.recovered).1 = .ok 0xffffffff := rfl
  have behind : (tableAt 2 (fatTableAppend 2 brokenLink).2.recovered).1 = .ok 3 := rfl
  rw [before, behind] at same
  cases same

end Claims

end Opal.Fat
