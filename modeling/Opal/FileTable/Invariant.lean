import Opal.FileTable.Operations
import Mathlib.Data.Finset.Card
import Mathlib.Data.Finset.Max
import Mathlib.Data.Nat.Find

/-!
# What holds of a file table

The bitmap, the count and the two bounds all describe the one set of open fds.  Each
operation is specified by the files it leaves; that the descriptions still agree is
`Wf` of the table after it.
-/

namespace Opal.FileTable

variable {File : Type} {table : Filetable File}

section WellFormed

/-- The open fds of a table. -/
def Filetable.openFds (table : Filetable File) : Finset Nat :=
  (Finset.range (fdMax + 1)).filter fun i => (table.files i).isSome

structure Wf (table : Filetable File) : Prop where
  bits : ∀ i, Bitmap.bit table.bitmap i = (table.files i).isSome
  below : ∀ i, (table.files i).isSome → i < table.endFd
  top : table.endFd = 0 ∨ (table.files (table.endFd - 1)).isSome
  endLe : table.endFd ≤ table.capacity
  capacityLe : table.capacity ≤ fdMax + 1
  inlineLe : inlineSize ≤ table.capacity
  count : table.count = table.openFds.card
  next : ∀ i < table.nextFd, (table.files i).isSome

theorem Wf.mem_openFds (wf : Wf table) {i : Nat} :
    i ∈ table.openFds ↔ (table.files i).isSome := by
  unfold Filetable.openFds
  rw [Finset.mem_filter, Finset.mem_range]
  refine ⟨And.right, fun present => ⟨?_, present⟩⟩
  have := wf.below i present
  have := wf.endLe
  have := wf.capacityLe
  omega

theorem filetableInit_wf : Wf (filetableInit : Filetable File) where
  bits := fun i => by simp [filetableInit, Bitmap.bit]
  below := nofun
  top := .inl rfl
  endLe := Nat.zero_le _
  capacityLe := show inlineSize ≤ fdMax + 1 by decide
  inlineLe := Nat.le_refl _
  count := by simp [filetableInit, Filetable.openFds]
  next := nofun

theorem Wf.openFds_subset (wf : Wf table) : table.openFds ⊆ Finset.range table.capacity := by
  intro i member
  have := wf.below i (wf.mem_openFds.mp member)
  have := wf.endLe
  exact Finset.mem_range.mpr (by omega)

/-- A table is full when every slot has a file. -/
theorem Wf.count_eq_iff (wf : Wf table) :
    table.count = table.capacity ↔ ∀ i < table.capacity, (table.files i).isSome := by
  rw [wf.count]
  constructor
  · intro full i inside
    have same : table.openFds = Finset.range table.capacity :=
      Finset.eq_of_subset_of_card_le wf.openFds_subset (by rw [Finset.card_range, full])
    exact wf.mem_openFds.mp (same ▸ Finset.mem_range.mpr inside)
  · intro all
    have same : table.openFds = Finset.range table.capacity := by
      refine Finset.Subset.antisymm wf.openFds_subset fun i member => ?_
      exact wf.mem_openFds.mpr (all i (Finset.mem_range.mp member))
    rw [same, Finset.card_range]

end WellFormed

section Growing

theorem calcBitmapSize_le {n i : Nat} (above : calcBitmapSize n ≤ i / bitmapUnit) : n ≤ i := by
  unfold calcBitmapSize bitmapUnit at above
  omega

theorem lt_calcBitmapSize {n i : Nat} (below : i < n) : i / bitmapUnit < calcBitmapSize n := by
  unfold calcBitmapSize bitmapUnit
  omega

/-- A table that has grown holds the same files. -/
structure Grows (table grown : Filetable File) (capacity : Nat) : Prop where
  wf : Wf grown
  files : grown.files = table.files
  endFd : grown.endFd = table.endFd
  nextFd : grown.nextFd = table.nextFd
  capacity : capacity ≤ grown.capacity

theorem Wf.grow (wf : Wf table) {capacity : Nat} {mem : Blocks} {grown : Filetable File}
    (done : (realloc table capacity mem).1 = some grown) : Grows table grown capacity := by
  unfold realloc at done
  split at done
  · cases done
  · rename_i bounded
    split at done
    · cases done
    · rename_i enough
      split at done
      · cases done
      · rename_i large
        split at done
        · cases done
        · rename_i extra _
          dsimp only at done
          split at done
          · cases done
          · cases done
            have kept : (fun i => if i < table.endFd then table.files i else none) =
              table.files := by
              funext i
              split
              · rfl
              · rename_i outside
                exact (Option.not_isSome_iff_eq_none.mp fun present =>
                  outside (wf.below i present)).symm
            have room : capacity ≤ min ((slotSize * capacity + extra) / slotSize) (fdMax + 1) := by
              unfold slotSize
              omega
            rw [kept]
            refine
              ⟨⟨fun i => ?_, wf.below, wf.top, ?_, Nat.min_le_right _ _, ?_, wf.count, wf.next⟩,
              rfl, rfl, rfl, room⟩
            · unfold Bitmap.bit
              dsimp only
              split
              · exact wf.bits i
              · rename_i outside
                have past : table.endFd ≤ i := calcBitmapSize_le (Nat.le_of_not_lt outside)
                rw [BitVec.getLsbD_zero]
                exact (Bool.eq_false_iff.mpr fun present =>
                  absurd (wf.below i present) (Nat.not_lt.mpr past)).symm
            · exact Nat.le_trans (Nat.le_of_not_lt enough) room
            · exact Nat.le_trans (Nat.le_of_lt (Nat.lt_of_not_le large)) room

end Growing

section Slots

/-- The least fd that is not open. -/
def LeastFree (table : Filetable File) (fd : Nat) : Prop :=
  table.files fd = none ∧ ∀ i < fd, (table.files i).isSome

theorem Wf.exists_leastFree (wf : Wf table) (notFull : table.count ≠ table.capacity) :
    ∃ fd, fd < table.capacity ∧ LeastFree table fd := by
  have some : ∃ i, i < table.capacity ∧ ¬ (table.files i).isSome := by
    by_contra none
    refine notFull (wf.count_eq_iff.mpr fun i inside => ?_)
    by_contra free
    exact none ⟨i, inside, free⟩
  classical
  obtain ⟨inside, free⟩ := Nat.find_spec some
  refine ⟨Nat.find some, inside, Option.not_isSome_iff_eq_none.mp free, fun i lower => ?_⟩
  by_contra absent
  exact Nat.find_min some lower ⟨by omega, absent⟩

/-- `find_empty_slot` finds the least free fd if the table is not full. -/
theorem Wf.findsSlot (wf : Wf table) (notFull : table.count ≠ table.capacity) :
    ∃ fd, findEmptySlot table = some fd ∧ fd < table.capacity ∧ LeastFree table fd := by
  obtain ⟨fd, inside, free, least⟩ := wf.exists_leastFree notFull
  refine ⟨fd, ?_, inside, free, least⟩
  have after : table.nextFd ≤ fd := by
    by_contra before
    have := wf.next fd (by omega)
    rw [free] at this
    cases this
  have size := lt_calcBitmapSize inside
  have low : table.nextFd / bitmapUnit ≤ fd / bitmapUnit := Nat.div_le_div_right after
  have first : Bitmap.firstClear table.bitmap (table.nextFd / bitmapUnit)
      (calcBitmapSize table.capacity - table.nextFd / bitmapUnit) = some fd := by
    refine Bitmap.firstClear_eq (by decide) ?_ low (by omega) fun j _ lower => ?_
    · rw [wf.bits, free]
      rfl
    · rw [wf.bits]
      exact least j lower
  simp only [findEmptySlot, findEmptyBit, first, if_pos inside]

theorem openFds_put (table : Filetable File) {idx : Nat} (file : File) (inside : idx < fdMax + 1) :
    Filetable.openFds { table with files := Function.update table.files idx (some file) } =
      insert idx table.openFds := by
  ext i
  unfold Filetable.openFds
  simp only [Finset.mem_filter, Finset.mem_range, Finset.mem_insert]
  by_cases same : i = idx
  · subst same
    simp [inside]
  · rw [Function.update_of_ne same]
    simp [same]

theorem putFile_eq (table : Filetable File) (idx : Nat) (file : File) :
    putFile table idx file =
      { table with files := Function.update table.files idx (some file)
                   bitmap := Bitmap.setBit table.bitmap idx
                   endFd := max table.endFd (idx + 1), count := table.count + 1 } := by
  unfold putFile bitmapSet
  dsimp only
  split
  · rename_i above
    rw [Nat.max_eq_right (by omega)]
    rfl
  · rename_i inside
    rw [Nat.max_eq_left (by omega)]
    rfl

theorem isSome_update {files : Nat → Option File} {idx i : Nat} {slot : Option File} :
    (Function.update files idx slot i).isSome = if i =
      idx then slot.isSome else (files i).isSome := by
  rw [Function.update_apply]
  split <;> rfl

theorem Wf.put (wf : Wf table) {idx : Nat} (file : File) (inside : idx < table.capacity)
    (free : table.files idx = none) : Wf (putFile table idx file) := by
  have endLe := wf.endLe
  have capacityLe := wf.capacityLe
  rw [putFile_eq]
  refine ⟨fun i => ?_, fun i present => ?_, .inr ?_, ?_, wf.capacityLe, wf.inlineLe, ?_, ?_⟩
  · rw [Bitmap.bit_setBit (by decide), wf.bits, isSome_update]
    split
    · rename_i same
      rw [decide_eq_true same]
      rfl
    · rename_i differs
      rw [decide_eq_false differs, Bool.false_or]
  · simp only [isSome_update] at present
    dsimp only
    split at present
    · omega
    · have := wf.below i present
      omega
  · simp only [isSome_update]
    split
    · rfl
    · rename_i differs
      rcases wf.top with none | last
      · rw [none] at differs
        omega
      · rw [show max table.endFd (idx + 1) - 1 = table.endFd - 1 by omega]
        exact last
  · dsimp only
    omega
  · have fresh : idx ∉ table.openFds := by
      rw [wf.mem_openFds, free]
      exact Bool.false_ne_true
    have same := openFds_put table file (show idx < fdMax + 1 by omega)
    have grown : table.count + 1 = (insert idx table.openFds).card := by
      rw [Finset.card_insert_of_notMem fresh, wf.count]
    rw [← same] at grown
    exact grown
  · intro i below
    simp only [isSome_update]
    split
    · rfl
    · exact wf.next i below

theorem Wf.moveHint (wf : Wf table) {idx : Nat} (open_ : ∀ i < idx + 1, (table.files i).isSome) :
    Wf (updateNextFd table idx) := by
  refine { wf with count := wf.count, next := fun i below => ?_ }
  unfold updateNextFd at below
  dsimp only at below
  split at below
  · omega
  · exact open_ i below

/-- The search for the last open fd, when all of them lie below the old bound. -/
theorem updateEndFd_spec (bits : ∀ i, Bitmap.bit table.bitmap i = (table.files i).isSome)
    (below : ∀ i, (table.files i).isSome → i < table.endFd) :
    ∃ endFd, updateEndFd table = { table with endFd := endFd } ∧ endFd ≤ table.endFd ∧
      (∀ i, (table.files i).isSome → i < endFd) ∧
      (endFd = 0 ∨ (table.files (endFd - 1)).isSome) := by
  unfold updateEndFd
  by_cases zero : table.endFd = 0
  · rw [if_pos zero]
    exact ⟨table.endFd, rfl, Nat.le_refl _, below, .inl zero⟩
  · rw [if_neg zero]
    have inRange : ∀ i, i < table.endFd → i / bitmapUnit < (table.endFd - 1) / bitmapUnit + 1 := by
      intro i lower
      have := Nat.div_le_div_right (c := bitmapUnit) (show i ≤ table.endFd - 1 by omega)
      omega
    by_cases some : ∃ i, (table.files i).isSome
    · obtain ⟨i, present⟩ := some
      obtain ⟨last, isLast, greatest⟩ : ∃ last, (table.files last).isSome ∧
          ∀ j, (table.files j).isSome → j ≤ last := by
        have member : i ∈ (Finset.range table.endFd).filter fun i => (table.files i).isSome :=
          Finset.mem_filter.mpr ⟨Finset.mem_range.mpr (below i present), present⟩
        refine ⟨_, (Finset.mem_filter.mp (Finset.max'_mem _ ⟨i, member⟩)).2, fun j open_ => ?_⟩
        exact Finset.le_max' _ _
          (Finset.mem_filter.mpr ⟨Finset.mem_range.mpr (below j open_), open_⟩)
      have found : Bitmap.lastSet table.bitmap ((table.endFd - 1) / bitmapUnit + 1) =
        some last := by
        refine Bitmap.lastSet_eq_some (by decide) ((bits last).trans isLast)
          (inRange last (below last isLast)) fun j later _ => ?_
        rw [bits, Bool.eq_false_iff]
        intro open_
        have := greatest j open_
        omega
      rw [found]
      refine ⟨last + 1, rfl, below last isLast, fun j open_ => ?_, .inr isLast⟩
      exact Nat.lt_succ_of_le (greatest j open_)
    · have none : ∀ i, ¬ (table.files i).isSome := fun i present => some ⟨i, present⟩
      have found : Bitmap.lastSet table.bitmap ((table.endFd - 1) / bitmapUnit + 1) =
        Option.none := by
        refine Bitmap.lastSet_eq_none (by decide) fun j _ => ?_
        rw [bits, Bool.eq_false_iff]
        exact none j
      rw [found]
      exact ⟨0, rfl, Nat.zero_le _, fun i present => absurd present (none i), .inl rfl⟩

theorem openFds_take (table : Filetable File) (idx : Nat) :
    Filetable.openFds { table with files := Function.update table.files idx none } =
      table.openFds.erase idx := by
  ext i
  unfold Filetable.openFds
  simp only [Finset.mem_filter, Finset.mem_range, Finset.mem_erase]
  by_cases same : i = idx
  · subst same
    simp
  · rw [Function.update_of_ne same]
    simp [same]

/-- The table without one of its files, before its bounds are corrected. -/
def takeFile (table : Filetable File) (idx : Nat) : Filetable File :=
  { table with files := Function.update table.files idx none
               bitmap := Bitmap.clearBit table.bitmap idx, count := table.count - 1 }

theorem updateEndFd_nextFd (table : Filetable File) :
    (updateEndFd table).nextFd = table.nextFd := by
  unfold updateEndFd
  split
  · rfl
  · split <;> rfl

theorem filetableRemove_eq {idx : Nat} (present : (table.files idx).isSome)
    (inside : idx < table.endFd) :
    filetableRemove table idx =
      ({ (if idx + 1 = table.endFd then updateEndFd (takeFile table idx)
          else takeFile table idx) with
         nextFd := if table.nextFd > idx then idx else table.nextFd }, true) := by
  obtain ⟨file, found⟩ := Option.isSome_iff_exists.mp present
  unfold filetableRemove
  rw [if_neg (by omega)]
  simp only [Int.toNat_natCast, found]
  by_cases last : idx + 1 = table.endFd
  · simp only [bitmapSet, last, if_true, updateEndFd_nextFd, Bool.false_eq_true, if_false]
    rfl
  · simp only [bitmapSet, last, Bool.false_eq_true, if_false]
    rfl

theorem Wf.remove (wf : Wf table) {idx : Nat} (present : (table.files idx).isSome) :
    Wf (filetableRemove table idx).1 ∧
      (filetableRemove table idx).1.files = Function.update table.files idx none := by
  have inside := wf.below idx present
  have endLe := wf.endLe
  rw [filetableRemove_eq present inside]
  have bits : ∀ i, Bitmap.bit (takeFile table idx).bitmap i =
      ((takeFile table idx).files i).isSome := by
    intro i
    unfold takeFile
    dsimp only
    rw [Bitmap.bit_clearBit (by decide), wf.bits, isSome_update]
    split
    · rename_i same
      rw [decide_eq_true same]
      rfl
    · rename_i differs
      rw [decide_eq_false differs, Bool.not_false, Bool.true_and]
  have below : ∀ i, ((takeFile table idx).files i).isSome → i < table.endFd := by
    intro i left
    unfold takeFile at left
    simp only [isSome_update] at left
    split at left
    · cases left
    · exact wf.below i left
  have count : (takeFile table idx).count = (takeFile table idx).openFds.card := by
    have same := openFds_take table idx
    have shrunk : table.count - 1 = (table.openFds.erase idx).card := by
      rw [Finset.card_erase_of_mem (wf.mem_openFds.mpr present), wf.count]
    rw [← same] at shrunk
    exact shrunk
  have next : ∀ i < (if table.nextFd > idx then idx else table.nextFd),
      ((takeFile table idx).files i).isSome := by
    intro i lower
    unfold takeFile
    simp only [isSome_update]
    split at lower
    · rw [if_neg (by omega)]
      exact wf.next i (by omega)
    · rw [if_neg (by omega)]
      exact wf.next i lower
  split
  · obtain ⟨endFd, same, le, below', top⟩ := updateEndFd_spec bits below
    rw [same]
    exact ⟨⟨bits, below', top, Nat.le_trans le endLe, wf.capacityLe, wf.inlineLe, count, next⟩, rfl⟩
  · rename_i notLast
    refine ⟨⟨bits, below, ?_, endLe, wf.capacityLe, wf.inlineLe, count, next⟩, rfl⟩
    refine wf.top.imp id fun last => ?_
    unfold takeFile
    simp only [isSome_update]
    rw [if_neg (by omega)]
    exact last

end Slots

end Opal.FileTable
