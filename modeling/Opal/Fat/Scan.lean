import Opal.Fat.Codec
import Mathlib.Order.Nat

/-!
# The scan for a free entry

The scans look for an entry of zero.  In the narrow tables these are the entries that the
readers of a chain take for free; in the wide one the readers mask the four high bits.
-/

namespace Opal.Fat

section Scans

variable {mem : Memory} {layout : Layout} {cluster count : Nat}

/-- The scan of a width. -/
def Width.scan : Width → Memory → Nat → Option Nat
  | fat12 => fat12Scan
  | fat16 => wordScan 2
  | fat32 => wordScan 4

/-- The first cluster of the volume with a property. -/
structure Lowest (p : Nat → Prop) (count cluster : Nat) : Prop where
  two : 2 ≤ cluster
  bound : cluster < count + 2
  holds : p cluster
  least : ∀ lower, 2 ≤ lower → lower < cluster → ¬p lower

/-- No cluster of the volume has the property. -/
def Nowhere (p : Nat → Prop) (count : Nat) : Prop :=
  ∀ cluster, 2 ≤ cluster → cluster < count + 2 → ¬p cluster

/-- What a scan for a property finds. -/
def Finds (p : Nat → Prop) (count : Nat) : Option Nat → Prop
  | some cluster => Lowest p count cluster
  | none => Nowhere p count

theorem exists_lowest {p : Nat → Prop} (low : 2 ≤ cluster) (high : cluster < count + 2)
    (holds : p cluster) : ∃ first ≤ cluster, Lowest p count first := by
  induction cluster using Nat.strong_induction_on with
  | _ cluster inductionHypothesis =>
      by_cases earlier : ∃ lower, 2 ≤ lower ∧ lower < cluster ∧ p lower
      · obtain ⟨lower, two, less, lowerHolds⟩ := earlier
        obtain ⟨first, below, lowest⟩ := inductionHypothesis lower less two (by omega) lowerHolds
        exact ⟨first, below.trans less.le, lowest⟩
      · refine ⟨cluster, le_rfl, low, high, holds, fun lower two less lowerHolds => ?_⟩
        exact earlier ⟨lower, two, less, lowerHolds⟩

/-- A scan for a property finds a weaker one where the two first hold at the same place. -/
theorem Finds.weaken {p q : Nat → Prop} {found : Option Nat} (finds : Finds p count found)
    (weaker : ∀ cluster, 2 ≤ cluster → cluster < count + 2 → p cluster → q cluster)
    (first : ∀ cluster, Lowest q count cluster → p cluster) : Finds q count found := by
  cases found with
  | none =>
      intro cluster low high holds
      obtain ⟨least, -, lowest⟩ := exists_lowest low high holds
      exact finds least lowest.two lowest.bound (first least lowest)
  | some cluster =>
      refine ⟨finds.two, finds.bound, weaker cluster finds.two finds.bound finds.holds, ?_⟩
      intro lower two less holds
      obtain ⟨least, below, lowest⟩ := exists_lowest two (less.trans finds.bound) holds
      exact finds.least least lowest.two (Nat.lt_of_le_of_lt below less) (first least lowest)

theorem wordScan_finds (width : Nat) :
    Finds (fun cluster => mem.word (cluster * width) width = 0) count
      (wordScan width mem (count + 2)) := by
  unfold wordScan
  rw [Nat.add_sub_cancel]
  cases found : (List.range' 2 count).find? fun cluster =>
      decide (mem.word (cluster * width) width = 0) with
  | none =>
      intro cluster low high free
      have missing := List.find?_eq_none.mp found cluster
        (List.mem_range'_1.mpr ⟨low, by omega⟩)
      exact missing (decide_eq_true free)
  | some cluster =>
      obtain ⟨free, member, earlier⟩ := List.find?_range'_eq_some.mp found
      obtain ⟨low, high⟩ := List.mem_range'_1.mp member
      refine ⟨low, by omega, of_decide_eq_true free, fun lower two less zero => ?_⟩
      have missing := earlier lower two less
      simp [zero] at missing

/-- The pair of packed entries that share three bytes. -/
theorem stored_pair (mem : Memory) {cluster2 : Nat} (small : cluster2 < 2 ^ 28) :
    Width.fat12.stored mem (cluster2 * 2) =
      (mem (cluster2 * 3)).toNat + (mem (cluster2 * 3 + 1)).toNat % 16 * 256 ∧
    Width.fat12.stored mem (cluster2 * 2 + 1) =
      (mem (cluster2 * 3 + 1)).toNat / 16 + (mem (cluster2 * 3 + 2)).toNat * 16 := by
  have first : cluster2 * 2 * 3 % 2 ^ 32 / 2 = cluster2 * 3 := by omega
  have second : (cluster2 * 2 + 1) * 3 % 2 ^ 32 / 2 = cluster2 * 3 + 1 := by omega
  have even : cluster2 * 2 % 2 = 0 := by omega
  have odd : ¬(cluster2 * 2 + 1) % 2 = 0 := by omega
  simp only [Width.stored, Width.pos, Width.unpack, first, second, if_pos even, if_neg odd,
    and_self]

/-- The scan by pairs finds what a scan by entries finds. -/
theorem fat12Scan_finds (few : count ≤ fat12MaxClusters) :
    Finds (fun cluster => Width.fat12.stored mem cluster = 0) count
      (fat12Scan mem (count + 2)) := by
  have small : ∀ cluster2, cluster2 * 2 < count + 2 → cluster2 < 2 ^ 28 := by
    unfold fat12MaxClusters at few
    omega
  -- A pair of which no entry is zero has none for the scan by entries either.
  have taken : ∀ cluster, cluster < count + 2 →
      ¬((mem (cluster / 2 * 3)).toNat + (mem (cluster / 2 * 3 + 1)).toNat % 16 * 256 = 0 ∨
        (mem (cluster / 2 * 3 + 1)).toNat / 16 + (mem (cluster / 2 * 3 + 2)).toNat * 16 = 0) →
      Width.fat12.stored mem cluster ≠ 0 := by
    intro cluster high pair
    obtain ⟨first, second⟩ := stored_pair mem (small (cluster / 2) (by omega))
    rw [← first, ← second, not_or] at pair
    rcases Nat.mod_two_eq_zero_or_one cluster with even | odd
    · rw [show cluster / 2 * 2 = cluster by omega] at pair
      exact pair.1
    · rw [show cluster / 2 * 2 + 1 = cluster by omega] at pair
      exact pair.2
  unfold fat12Scan
  dsimp only
  split
  · rename_i missing
    intro cluster low high
    have pair := List.find?_eq_none.mp missing (cluster / 2)
      (List.mem_range'_1.mpr ⟨by omega, by omega⟩)
    exact taken cluster high fun free => pair (decide_eq_true free)
  · rename_i cluster2 found
    obtain ⟨free, member, earlier⟩ := List.find?_range'_eq_some.mp found
    obtain ⟨low, high⟩ := List.mem_range'_1.mp member
    have below : ∀ lower, 2 ≤ lower → lower < cluster2 * 2 → Width.fat12.stored mem lower ≠ 0 := by
      intro lower two less
      have pair := earlier (lower / 2) (by omega) (by omega)
      rw [Bool.not_eq_true', decide_eq_false_iff_not] at pair
      exact taken lower (by omega) pair
    obtain ⟨first, second⟩ := stored_pair mem (small cluster2 (by omega))
    have pairFree := of_decide_eq_true free
    rw [← first, ← second] at pairFree
    split
    · rename_i zero
      rw [← first] at zero
      exact ⟨by omega, by omega, zero, below⟩
    · rename_i nonzero
      rw [← first] at nonzero
      have zero := pairFree.resolve_left nonzero
      split
      · rename_i inside
        refine ⟨by omega, inside, zero, fun lower two less => ?_⟩
        rcases Nat.lt_succ_iff_lt_or_eq.mp less with earlier | rfl
        · exact below lower two earlier
        · exact nonzero
      · -- The last pair is only half in range, and its first entry is taken.
        rename_i outside
        intro cluster two inside
        rcases Nat.lt_or_ge cluster (cluster2 * 2) with earlier | last
        · exact below cluster two earlier
        · have same : cluster = cluster2 * 2 := by omega
          rw [same]
          exact nonzero

/-- Every scan finds the first entry of zero. -/
theorem scan_finds (tabular : layout.Tabular) (holds : layout.Holds) :
    Finds (fun cluster => layout.width.stored mem cluster = 0) layout.clusterCount
      (layout.width.scan mem (layout.clusterCount + 2)) := by
  have bound := fatBytes_lt layout
  unfold Layout.Holds at holds
  -- The offsets that the scan computes are those of the entries.
  have words : ∀ width, (layout.clusterCount + 2) * width < 2 ^ 32 →
      Finds (fun cluster => mem.word (cluster * width % 2 ^ 32) width = 0) layout.clusterCount
        (wordScan width mem (layout.clusterCount + 2)) := by
    intro width fits
    have place : ∀ cluster, cluster < layout.clusterCount + 2 →
        cluster * width % 2 ^ 32 = cluster * width := fun cluster inside =>
      Nat.mod_eq_of_lt ((Nat.mul_le_mul_right _ inside.le).trans_lt fits)
    have found := @wordScan_finds mem layout.clusterCount width
    cases scanned : wordScan width mem (layout.clusterCount + 2) with
    | none =>
        rw [scanned] at found
        intro cluster two inside
        dsimp only
        rw [place cluster inside]
        exact found cluster two inside
    | some cluster =>
        rw [scanned] at found
        refine ⟨found.two, found.bound, ?_, fun lower two less => ?_⟩
        · rw [place cluster found.bound]
          exact found.holds
        · rw [place lower (less.trans found.bound)]
          exact found.least lower two less
  cases width : layout.width with
  | fat12 => exact fat12Scan_finds (tabular.narrow (bits_of_fat12 width))
  | fat16 =>
      rw [width] at holds
      dsimp only [Width.halves] at holds
      exact words 2 (by omega)
  | fat32 =>
      rw [width] at holds
      dsimp only [Width.halves] at holds
      exact words 4 (by omega)

end Scans

section Alloc

variable {fat after : FatTable} {cluster : Nat}

theorem clusterEnd_eq {layout : Layout} (holds : layout.Holds) :
    layout.clusterEnd = layout.clusterCount + 2 := by
  have bound := fatBytes_lt layout
  unfold Layout.Holds at holds
  unfold Layout.clusterEnd
  apply Nat.mod_eq_of_lt
  cases width :
    layout.width <;> rw [width] at holds <;> dsimp only [Width.halves] at holds <;> omega

/-- The end of an entry, as the place of a scan that has not wrapped around. -/
def Width.entryEnd : Width → Nat → Nat
  | fat12, cluster => cluster * 3 / 2 + 2
  | fat16, cluster => (cluster + 1) * 2
  | fat32, cluster => (cluster + 1) * 4

/-- `table_alloc` marks the entry that the scan finds, if there is one in the table. -/
theorem tableAlloc_of_scan (readable : fat.Readable) :
    tableAlloc fat =
      match fat.layout.width.scan fat.view fat.layout.clusterEnd with
      | none => (.error .enospc, fat.loaded)
      | some cluster =>
          if fat.layout.width.entryEnd cluster ≤ fat.layout.fatBytes then
            (tableSet cluster fat.layout.width.mark >>= fun _ => pure cluster) fat.loaded
          else (.error .stray, fat.loaded) := by
  have allocBy (scan : Memory → Nat → Option Nat) (bound : Nat → Nat)
      (set : Nat → Nat → FatOp Unit) (mark : Nat) :
      tableAllocBy scan bound set mark fat =
        match scan fat.view fat.layout.clusterEnd with
        | none => (.error .enospc, fat.loaded)
        | some cluster =>
            if bound cluster ≤ fat.layout.fatBytes then
              (set cluster mark >>= fun _ => pure cluster) fat.loaded
            else (.error .stray, fat.loaded) := by
    unfold tableAllocBy
    rw [Op.run_bind_ok (fatTableReadall_eq readable), Op.run_get_bind, loaded_layout]
    cases scan fat.view fat.layout.clusterEnd with
    | none => rfl
    | some cluster =>
        dsimp only
        split <;> rfl
  have setWidth : ∀ cluster value, tableSet cluster value fat.loaded =
      (match fat.layout.width with
      | .fat12 => fat12TableSet cluster value
      | .fat16 => fat16TableSet cluster value
      | .fat32 => fat32TableSet cluster value : FatOp Unit) fat.loaded := by
    intro cluster value
    unfold tableSet
    rw [Op.run_get_bind]
    cases width : fat.layout.width <;> simp only [loaded_layout, width]
  unfold tableAlloc
  rw [Op.run_get_bind]
  simp only [Op.run_bind, setWidth]
  cases fat.layout.width with
  | fat12 => exact (allocBy fat12Scan _ fat12TableSet 0xfff).trans rfl
  | fat16 => exact (allocBy (wordScan 2) _ fat16TableSet 0xffff).trans rfl
  | fat32 => exact (allocBy (wordScan 4) _ fat32TableSet 0x0fffffff).trans rfl

/-- `table_alloc` marks the entry that the scan finds. -/
theorem tableAlloc_eq (readable : fat.Readable) (holds : fat.layout.Holds) :
    tableAlloc fat =
      match fat.layout.width.scan fat.view (fat.layout.clusterCount + 2) with
      | none => (.error .enospc, fat.loaded)
      | some cluster =>
          (tableSet cluster fat.layout.width.mark >>= fun _ => pure cluster) fat.loaded := by
  have found := @scan_finds fat.view fat.layout fat.tabular holds
  rw [tableAlloc_of_scan readable, clusterEnd_eq holds]
  cases scanned : fat.layout.width.scan fat.view (fat.layout.clusterCount + 2) with
  | none => rfl
  | some cluster =>
      rw [scanned] at found
      have enough : (cluster + 1) * fat.layout.width.halves ≤ 2 * fat.layout.fatBytes :=
        (Nat.mul_le_mul_right _ found.bound).trans holds
      apply if_pos
      cases width : fat.layout.width <;> rw [width] at enough <;>
        dsimp only [Width.halves, Width.entryEnd] at enough ⊢ <;> omega

/-- The readers of a chain see the entry of a cluster as free. -/
def Free (fat : FatTable) (cluster : Nat) : Prop :=
  ∃ entry, (tableAt cluster fat).1 = .ok entry ∧ maskEntry entry = 0

/-- The mark and nothing else is masked to no number of a cluster that is free. -/
theorem maskEntry_extendMark_eq_zero (width : Width) {value : Nat} :
    maskEntry (extendMark width.limit value) = 0 ↔ maskEntry value = 0 ∧ ¬width.limit ≤ value := by
  unfold maskEntry extendMark
  split
  · rename_i widened
    exact iff_of_false (by omega) fun zero => zero.2 widened
  · rename_i kept
    exact ⟨fun zero => ⟨zero, kept⟩, fun zero => zero.1⟩

/-- What is free for the readers, by what is stored. -/
theorem free_iff (readable : fat.Readable) (holds : fat.layout.Holds)
    (inside : cluster < fat.layout.clusterCount + 2) :
    Free fat cluster ↔ maskEntry (fat.layout.width.stored fat.view cluster) = 0 := by
  have bound := @Width.stored_lt fat.view cluster fat.layout.width
  have read := tableAt_eq readable holds inside
  have same : Free fat cluster ↔ maskEntry (extendMark fat.layout.width.limit
      (fat.layout.width.stored fat.view cluster)) = 0 := by
    unfold Free
    rw [read]
    constructor
    · rintro ⟨entry, returned, zero⟩
      rwa [Except.ok.inj returned]
    · intro zero
      exact ⟨_, rfl, zero⟩
  rw [same, maskEntry_extendMark_eq_zero]
  refine and_iff_left_of_imp fun zero widened => ?_
  unfold maskEntry at zero
  cases width : fat.layout.width <;> rw [width] at bound widened zero <;>
    dsimp only [Width.values, Width.limit] at bound widened <;> omega

/-- What `table_alloc` has to do on a table. -/
structure AllocatesLowest (fat : FatTable) : Prop where
  full : (tableAlloc fat).1 = .error .enospc ↔
    fat.Readable ∧ Nowhere (Free fat) fat.layout.clusterCount
  returns : fat.Readable → (∀ i < fat.layout.numFats, fat.writes.get i = none) →
    ¬Nowhere (Free fat) fat.layout.clusterCount → ∃ cluster after, tableAlloc fat =
      (.ok cluster, after)
  lowest : ∀ cluster after, tableAlloc fat = (.ok cluster, after) →
    Lowest (Free fat) fat.layout.clusterCount cluster
  marked : ∀ cluster after, tableAlloc fat = (.ok cluster, after) →
    ∃ entry, (tableAt cluster after).1 = .ok entry ∧
      isClusterEof fat.layout (maskEntry entry) = true
  others : ∀ cluster after, tableAlloc fat = (.ok cluster, after) →
    ∀ other < fat.layout.clusterCount + 2, other ≠ cluster →
      ∃ entry, (tableAt other after).1 = .ok entry ∧
        ∀ before, (tableAt other fat).1 = .ok before → before = entry

/-- The table with other outcomes of the coming allocations and transfers. -/
def FatTable.withOutcomes (fat : FatTable) (mem : AllocOracle)
    (reads : Stream' (Option TransferError)) (writes : Stream' (Option (Nat × TransferError))) :
    FatTable :=
  { fat with mem := mem, reads := reads, writes := writes }

/-- The first entry that is free for the readers is zero in all its bits. -/
def FirstClean (fat : FatTable) : Prop :=
  ∀ cluster, Lowest (fun cluster => maskEntry (fat.layout.width.stored fat.view cluster) = 0)
    fat.layout.clusterCount cluster → fat.layout.width.stored fat.view cluster = 0

/-- The scan finds the first cluster that is free for the readers. -/
theorem FirstClean.finds (clean : FirstClean fat) (readable : fat.Readable)
    (holds : fat.layout.Holds) : Finds (Free fat) fat.layout.clusterCount
      (fat.layout.width.scan fat.view (fat.layout.clusterCount + 2)) := by
  apply (scan_finds fat.tabular holds).weaken
  · intro cluster _ high zero
    refine (free_iff readable holds high).mpr ?_
    rw [zero]
    rfl
  · intro cluster lowest
    refine clean cluster ⟨lowest.two, lowest.bound, ?_, fun lower two less zero => ?_⟩
    · exact (free_iff readable holds lowest.bound).mp lowest.holds
    · exact lowest.least lower two less
        ((free_iff readable holds (less.trans lowest.bound)).mpr zero)

theorem tableAlloc_fails (unreadable : ¬fat.Readable) :
    ∃ error after, tableAlloc fat = (.error error, after) ∧ error ≠ .enospc := by
  obtain ⟨error, after, failed, other⟩ := fatTableReadall_fails unreadable
  refine ⟨error, after, ?_, other⟩
  unfold tableAlloc
  rw [Op.run_get_bind]
  cases fat.layout.width <;> exact Op.run_bind_error failed _

/-- What `table_alloc` returned is what the scan found, and its entry took the mark. -/
theorem tableAlloc_ok (holds : fat.layout.Holds) (allocated : tableAlloc fat =
    (.ok cluster, after)) :
    fat.Readable ∧
      fat.layout.width.scan fat.view (fat.layout.clusterCount + 2) = some cluster ∧
      tableSet cluster fat.layout.width.mark fat.loaded = (.ok (), after) := by
  have readable : fat.Readable := by
    by_contra unreadable
    obtain ⟨error, _, failed, -⟩ := tableAlloc_fails unreadable
    rw [allocated] at failed
    cases failed
  refine ⟨readable, ?_⟩
  rw [tableAlloc_eq readable holds] at allocated
  cases scanned : fat.layout.width.scan fat.view (fat.layout.clusterCount + 2) with
  | none =>
      rw [scanned] at allocated
      cases allocated
  | some found =>
      rw [scanned] at allocated
      dsimp only at allocated
      rw [Op.run_bind] at allocated
      split at allocated
      · rename_i done after' set
        cases allocated
        exact ⟨rfl, set⟩
      · cases allocated

theorem tableSet_ne_enospc {value : Nat} (readable : fat.Readable) (holds : fat.layout.Holds)
    (entry : cluster < fat.layout.clusterCount + 2) :
    (tableSet cluster value fat).1 ≠ .error .enospc := by
  rw [tableSet_eq readable holds entry]
  exact writeCopies_ne_enospc

theorem loaded_holds (holds : fat.layout.Holds) : fat.loaded.layout.Holds := by
  rw [loaded_layout]
  exact holds

theorem loaded_readable : fat.loaded.Readable := readable_of_buffer loaded_buffer

/-- The table is reported as full exactly if it is read and has no free entry. -/
theorem FirstClean.full_iff (clean : FirstClean fat) (holds : fat.layout.Holds) :
    (tableAlloc fat).1 = .error .enospc ↔
      fat.Readable ∧ Nowhere (Free fat) fat.layout.clusterCount := by
  by_cases readable : fat.Readable
  · have finds := clean.finds readable holds
    rw [tableAlloc_eq readable holds]
    cases scanned : fat.layout.width.scan fat.view (fat.layout.clusterCount + 2) with
    | none =>
        rw [scanned] at finds
        exact iff_of_true rfl ⟨readable, finds⟩
    | some cluster =>
        rw [scanned] at finds
        refine iff_of_false (fun full => ?_) fun nowhere =>
          nowhere.2 cluster finds.two finds.bound finds.holds
        have bound : cluster < fat.loaded.layout.clusterCount + 2 := by
          rw [loaded_layout]
          exact finds.bound
        dsimp only at full
        rw [Op.run_bind] at full
        split at full
        · cases full
        · rename_i error after failed
          have same : (tableSet cluster fat.layout.width.mark fat.loaded).1 = .error .enospc := by
            rw [failed]
            exact congrArg Except.error (Except.error.inj full)
          exact tableSet_ne_enospc loaded_readable (loaded_holds holds) bound same
  · obtain ⟨error, after, failed, other⟩ := tableAlloc_fails readable
    rw [failed]
    exact iff_of_false (fun full => other (Except.error.inj full)) fun both => readable both.1

/-- A cluster is returned if there is one and the writes succeed. -/
theorem FirstClean.returns (clean : FirstClean fat) (holds : fat.layout.Holds)
    (readable : fat.Readable) (succeeds : ∀ i < fat.layout.numFats, fat.writes.get i = none)
    (somewhere : ¬Nowhere (Free fat) fat.layout.clusterCount) :
    ∃ cluster after, tableAlloc fat = (.ok cluster, after) := by
  have finds := clean.finds readable holds
  rw [tableAlloc_eq readable holds]
  cases scanned : fat.layout.width.scan fat.view (fat.layout.clusterCount + 2) with
  | none =>
      rw [scanned] at finds
      exact absurd finds somewhere
  | some cluster =>
      rw [scanned] at finds
      have bound : cluster < fat.loaded.layout.clusterCount + 2 := by
        rw [loaded_layout]
        exact finds.bound
      have set : ∃ after,
          tableSet cluster fat.layout.width.mark fat.loaded = (.ok (), after) := by
        rw [tableSet_eq loaded_readable (loaded_holds holds) bound]
        apply writeCopies_succeeds
        intro i inside
        rw [loaded_layout] at inside
        show fat.loaded.loaded.writes.get i = none
        rw [loaded_writes, loaded_writes]
        exact succeeds i inside
      obtain ⟨after, done⟩ := set
      exact ⟨cluster, after, Op.run_bind_ok done _⟩

/-- A table whose first free entry is zero is allocated from as it should be. -/
theorem FirstClean.allocatesLowest (clean : FirstClean fat) (holds : fat.layout.Holds) :
    AllocatesLowest fat := by
  have changed : ∀ cluster after, tableAlloc fat = (.ok cluster, after) →
      fat.Readable ∧ Lowest (Free fat) fat.layout.clusterCount cluster ∧
        Changed fat.loaded cluster fat.layout.width.mark after := by
    intro cluster after allocated
    obtain ⟨readable, scanned, set⟩ := tableAlloc_ok holds allocated
    have finds := clean.finds readable holds
    rw [scanned] at finds
    have bound : cluster < fat.loaded.layout.clusterCount + 2 := by
      rw [loaded_layout]
      exact finds.bound
    exact ⟨readable, finds, tableSet_changed loaded_readable (loaded_holds holds) bound set⟩
  refine ⟨clean.full_iff holds, clean.returns holds, ?_, ?_, ?_⟩
  · intro cluster after allocated
    exact (changed cluster after allocated).2.1
  · intro cluster after allocated
    obtain ⟨-, lowest, change⟩ := changed cluster after allocated
    have bound := lowest.bound
    rw [← loaded_layout] at bound
    refine ⟨_, change.tableAt_self (loaded_holds holds) bound, ?_⟩
    have seen := @seenAs_mark fat.layout
    unfold SeenAs at seen
    rw [if_pos rfl] at seen
    rw [loaded_layout, Nat.mod_eq_of_lt (mark_lt _)]
    exact seen
  · intro cluster after allocated other inside different
    obtain ⟨readable, lowest, change⟩ := changed cluster after allocated
    have bound := lowest.bound
    have inside' := inside
    rw [← loaded_layout] at bound inside'
    obtain ⟨entry, read, same⟩ :=
      change.others (loaded_holds holds) bound loaded_readable inside' different
    refine ⟨entry, read, fun before readBefore => same before ?_⟩
    rw [tableAt_eq readable holds inside] at readBefore
    rw [tableAt_eq loaded_readable (loaded_holds holds) inside', loaded_layout, loaded_view]
    exact readBefore

/-- An allocation that is as it should be, with all that it needs at hand, shows that the
first free entry is zero. -/
theorem AllocatesLowest.firstClean (allocates : AllocatesLowest fat) (holds : fat.layout.Holds)
    (readable : fat.Readable) (succeeds : ∀ i < fat.layout.numFats, fat.writes.get i = none) :
    FirstClean fat := by
  intro cluster first
  have free : Free fat cluster := (free_iff readable holds first.bound).mpr first.holds
  have somewhere : ¬Nowhere (Free fat) fat.layout.clusterCount :=
    fun nowhere => nowhere cluster first.two first.bound free
  obtain ⟨found, after, allocated⟩ := allocates.returns readable succeeds somewhere
  have lowest := allocates.lowest found after allocated
  have zero := @scan_finds fat.view fat.layout fat.tabular holds
  rw [(tableAlloc_ok holds allocated).2.1] at zero
  have same : found = cluster := by
    rcases Nat.lt_trichotomy found cluster with less | equal | greater
    · refine absurd ?_ (first.least found lowest.two less)
      exact (free_iff readable holds lowest.bound).mp lowest.holds
    · exact equal
    · exact absurd free (lowest.least cluster first.two greater)
  rw [← same]
  exact zero.holds

/-- The entries of the narrow tables have no bits that the readers mask. -/
theorem firstClean_of_narrow (narrow : fat.layout.width ≠ .fat32) : FirstClean fat := by
  intro cluster first
  have bound := @Width.stored_lt fat.view cluster fat.layout.width
  have zero := first.holds
  unfold maskEntry at zero
  cases width : fat.layout.width with
  | fat12 =>
      rw [width] at bound zero
      dsimp only [Width.values] at bound
      omega
  | fat16 =>
      rw [width] at bound zero
      dsimp only [Width.values] at bound
      omega
  | fat32 => exact absurd width narrow

end Alloc

section Claims

/-- A table is allocated from as it should be, whatever comes of the allocations and transfers,
exactly if its first free entry is zero; this is so in every table of 12 or 16 bits. -/
theorem tableAlloc_iff (fat : FatTable) (holds : fat.layout.Holds) :
    ((∀ mem reads writes, AllocatesLowest (fat.withOutcomes mem reads writes)) ↔ FirstClean fat) ∧
      (fat.layout.width ≠ .fat32 → FirstClean fat) := by
  refine ⟨⟨fun allocates => ?_, fun clean mem reads writes => ?_⟩, firstClean_of_narrow⟩
  · have best := allocates AllocOracle.always (Stream'.const none) (Stream'.const none)
    exact best.firstClean holds (fun _ => ⟨rfl, rfl⟩) fun _ _ => rfl
  · exact FirstClean.allocatesLowest clean holds

/-- A small volume with entries of 32 bits.  The cluster 2 is free, its entry has one of the
reserved bits set. -/
def reservedBits : FatTable where
  layout :=
    { bits := 32, bytesPerSector := 512, sectorsPerCluster := 1, reservedSectors :=
      32, numFats := 2,
      fatSectors := 1, totalSectors := 160, dataOffset := 34, clusterCount := 126,
      root := .cluster 3 }
  tabular := ⟨by decide, fun narrow => absurd narrow (by decide)⟩
  buffer := none
  copies := fun _ i => if i = 11 then 0x10 else 0
  mem := AllocOracle.always
  reads := Stream'.const none
  writes := Stream'.const none

theorem tableAlloc_iff_largestFat12 :
    AllocatesLowest (largestFat12.withOutcomes largestFat12.mem largestFat12.reads
      largestFat12.writes) :=
  (tableAlloc_iff largestFat12 largestFat12_holds).1.mpr
    ((tableAlloc_iff largestFat12 largestFat12_holds).2 (by decide)) _ _ _

/-- The cluster 3 is allocated although the cluster 2 is free. -/
theorem not_allocatesLowest_reservedBits :
    ¬AllocatesLowest (reservedBits.withOutcomes reservedBits.mem reservedBits.reads
      reservedBits.writes) := by
  intro allocates
  have clean := allocates.firstClean (by unfold Layout.Holds; decide) (fun _ => ⟨rfl, rfl⟩)
    fun _ _ => rfl
  have zero := clean 2 ⟨by decide, by decide, by decide +kernel, fun lower two less =>
    absurd less (Nat.not_lt.mpr two)⟩
  exact absurd zero (by decide +kernel)

end Claims

end Opal.Fat
