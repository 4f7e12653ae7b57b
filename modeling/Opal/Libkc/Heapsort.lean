import Opal.Basic
import Opal.Library.Bytes
import Opal.Library.Heap
import Opal.Library.Outcome

/-!
# Sorting

`sort` works on byte offsets into an array of elements of any size.  An access that is not to a
whole element of the array stops, and so does running out of the fuel of its loops.  Positions
are counted modulo the size of an address.
-/

namespace Opal.Heapsort

section Model

/-- Bits 48 to 63 of an address repeat bit 47. -/
def Canonical (address : Nat) : Prop :=
  address < 2 ^ 47 ∨ 2 ^ 64 - 2 ^ 47 ≤ address ∧ address < 2 ^ 64

/-- An array that lies in memory, of `count` elements of `size` bytes each. -/
structure Elements where
  ptr : Nat
  count : Nat
  size : Nat
  positive : 0 < size
  fits : count * size < wordSize
  canonical : ∀ offset < count * size, Canonical (ptr + offset)

/-- What one element holds. -/
abbrev Content (size : Nat) : Type := Fin size → UInt8

/-- `int (*comp)(const void *, const void *)`. -/
abbrev Comparison (size : Nat) : Type := Content size → Content size → Int

inductive Stop where
  /-- The access is not to an element of the array. -/
  | stray
  | fuel
  deriving DecidableEq, Repr

abbrev Run := Except Stop

/-- `swap`, for the bytes that are left. -/
def swap : Nat → Nat → Nat → Memory → Memory
  | 0, _, _, mem => mem
  | size + 1, a, b, mem =>
      swap size (a + 1) (b + 1) (Function.update (Function.update mem a (mem b)) b (mem a))

variable (array : Elements)

/-- The offset of an element of the array. -/
def Elements.check (offset : Nat) : Run Unit :=
  if offset % array.size = 0 ∧ offset < array.count * array.size then .ok () else .error .stray

def Elements.load (mem : Memory) (offset : Nat) : Content array.size :=
  fun i => mem (array.ptr + offset + i)

/-- `swap(p + a, p + b, size)`. -/
def swapAt (mem : Memory) (a b : Nat) : Run Memory := do
  array.check a
  array.check b
  .ok (swap array.size (array.ptr + a) (array.ptr + b) mem)

variable (comp : Comparison array.size)

/-- `comp(p + a, p + b)`. -/
def compAt (mem : Memory) (a b : Nat) : Run Int := do
  array.check a
  array.check b
  .ok (comp (array.load mem a) (array.load mem b))

/-- The greater of two children, if there are two. -/
def greaterChild (stop : Nat) (mem : Memory) (child : Nat) : Run Nat :=
  if (child + array.size) % wordSize < stop then do
    let order ← compAt array comp mem child ((child + array.size) % wordSize)
    .ok (if order < 0 then (child + array.size) % wordSize else child)
  else .ok child

/-- The loop that repairs the heap; `stop` is `end`. -/
def repair (stop : Nat) : Nat → Nat → Memory → Run Memory
  | 0, _, _ => .error .fuel
  | fuel + 1, root, mem =>
      let child := (root * 2 + array.size) % wordSize
      if stop ≤ child then .ok mem
      else do
        let child ← greaterChild array comp stop mem child
        let order ← compAt array comp mem root child
        if 0 ≤ order then .ok mem
        else do
          let mem ← swapAt array mem root child
          repair stop fuel child mem

/-- The loop of `sort`: the heap grows at its start until it is complete, and is then emptied. -/
def sortLoop (fuel : Nat) : Nat → Nat → Nat → Memory → Run Memory
  | 0, _, _, _ => .error .fuel
  | rounds + 1, start, stop, mem =>
      if stop ≤ array.size then .ok mem
      else if 0 < start then do
        let start := (start + (wordSize - array.size)) % wordSize
        let mem ← repair array comp stop fuel start mem
        sortLoop fuel rounds start stop mem
      else do
        let stop := (stop + (wordSize - array.size)) % wordSize
        let mem ← swapAt array mem stop 0
        let mem ← repair array comp stop fuel start mem
        sortLoop fuel rounds start stop mem

def sort (fuel : Nat) (mem : Memory) : Run Memory :=
  sortLoop array comp fuel fuel (array.count / 2 * array.size % wordSize)
    (array.count * array.size % wordSize) mem

end Model

section Meaning

variable {size : Nat}

/-- The sign of a comparison is that of a total preorder. -/
structure TotalPreorder (comp : Comparison size) : Prop where
  converse : ∀ a b, comp a b < 0 ↔ 0 < comp b a
  trans : ∀ a b c, comp a b ≤ 0 → comp b c ≤ 0 → comp a c ≤ 0

/-- The element with an index. -/
def Elements.get (array : Elements) (mem : Memory) (i : Nat) : Content array.size :=
  array.load mem (i * array.size)

/-- The elements of the array in order. -/
def Elements.toList (array : Elements) (mem : Memory) : List (Content array.size) :=
  (List.range array.count).map (array.get mem)

end Meaning

section Bytes

variable {size a b : Nat} {mem : Memory}

theorem swap_outside {c : Nat} (first : ∀ i < size, c ≠ a + i) (second : ∀ i < size, c ≠ b + i) :
    swap size a b mem c = mem c := by
  induction size generalizing a b mem with
  | zero => rfl
  | succ size inductionHypothesis =>
      unfold swap
      rw [inductionHypothesis]
      · have apart : c ≠ a := first 0 (Nat.succ_pos _)
        have apart' : c ≠ b := second 0 (Nat.succ_pos _)
        rw [Function.update_of_ne apart', Function.update_of_ne apart]
      · intro i lower same
        exact first (i + 1) (Nat.succ_lt_succ lower) (by omega)
      · intro i lower same
        exact second (i + 1) (Nat.succ_lt_succ lower) (by omega)

/-- Two regions that do not overlap change places. -/
theorem swap_inside (apart : a + size ≤ b ∨ b + size ≤ a) {i : Nat} (lower : i < size) :
    swap size a b mem (a + i) = mem (b + i) ∧ swap size a b mem (b + i) = mem (a + i) := by
  induction size generalizing a b mem i with
  | zero => exact absurd lower (Nat.not_lt_zero _)
  | succ size inductionHypothesis =>
      unfold swap
      have differs : a ≠ b := by omega
      cases i with
      | zero =>
          constructor
          · rw [swap_outside (by omega) (by omega), Nat.add_zero, Function.update_of_ne differs,
              Function.update_self]
            rfl
          · rw [swap_outside (by omega) (by omega), Nat.add_zero, Function.update_self]
            rfl
      | succ i =>
          have rest := @inductionHypothesis (a + 1) (b + 1)
            (Function.update (Function.update mem a (mem b)) b (mem a)) (by omega) i (by omega)
          rw [show a + (i + 1) = a + 1 + i by omega, show b + (i + 1) = b + 1 + i by omega,
            rest.1, rest.2]
          constructor
          · rw [Function.update_of_ne (by omega), Function.update_of_ne (by omega)]
          · rw [Function.update_of_ne (by omega), Function.update_of_ne (by omega)]

end Bytes

section Access

variable {array : Elements} {mem : Memory} {i j : Nat}

/-- Memory ends where addresses stop being canonical. -/
theorem Elements.bound (array : Elements) : array.count * array.size ≤ 2 ^ 47 := by
  by_contra longer
  have first := array.canonical 0 (by omega)
  rcases first with low | ⟨high, -⟩
  · have edge := array.canonical (2 ^ 47 - array.ptr) (by omega)
    unfold Canonical at edge
    omega
  · have edge := array.canonical (2 ^ 64 - array.ptr) (by omega)
    unfold Canonical at edge
    omega

theorem Elements.mul_lt (array : Elements) (inside : i < array.count) :
    i * array.size < array.count * array.size := Nat.mul_lt_mul_of_pos_right inside array.positive

theorem check_mul (inside : i < array.count) : array.check (i * array.size) = .ok () :=
  if_pos ⟨Nat.mul_mod_left .., array.mul_lt inside⟩

theorem compAt_mul {comp : Comparison array.size} (first : i < array.count)
    (second : j < array.count) : compAt array comp mem (i * array.size) (j * array.size) =
      .ok (comp (array.get mem i) (array.get mem j)) := by
  rw [compAt, check_mul first, check_mul second]
  rfl

/-- No byte outside of the array changes, and its elements are only put into another order. -/
structure Rearranged (array : Elements) (mem mem' : Memory) : Prop where
  outside : ∀ address, (∀ offset < array.count * array.size, address ≠ array.ptr + offset) →
    mem' address = mem address
  perm : (array.toList mem').Perm (array.toList mem)

theorem Rearranged.refl : Rearranged array mem mem := ⟨fun _ _ => rfl, .refl _⟩

theorem Rearranged.trans {mem' mem'' : Memory} (first : Rearranged array mem mem')
    (second : Rearranged array mem' mem'') : Rearranged array mem mem'' where
  outside address outside := (second.outside address outside).trans (first.outside address outside)
  perm := second.perm.trans first.perm

/-- Elements with different indices do not overlap. -/
theorem Elements.apart (array : Elements) (differs : i ≠ j) :
    array.ptr + i * array.size + array.size ≤ array.ptr + j * array.size ∨
      array.ptr + j * array.size + array.size ≤ array.ptr + i * array.size := by
  have step (k : Nat) : k * array.size + array.size = (k + 1) * array.size :=
    (Nat.succ_mul ..).symm
  rcases Nat.lt_or_gt_of_ne differs with before | after
  · have below : (i + 1) * array.size ≤ j * array.size := Nat.mul_le_mul_right _ before
    have next := step i
    omega
  · have below : (j + 1) * array.size ≤ i * array.size := Nat.mul_le_mul_right _ after
    have next := step j
    omega

/-- Two elements change places. -/
theorem swapAt_mul (first : i < array.count) (second : j < array.count) (differs : i ≠ j) :
    ∃ mem', swapAt array mem (i * array.size) (j * array.size) = .ok mem' ∧
      array.get mem' = array.get mem ∘ Equiv.swap i j ∧ Rearranged array mem mem' := by
  have inside := @swap_inside array.size _ _ mem (array.apart differs)
  have get : array.get (swap array.size (array.ptr + i * array.size) (array.ptr + j * array.size)
      mem) = array.get mem ∘ Equiv.swap i j := by
    funext k b
    simp only [Elements.get, Elements.load, Function.comp_apply]
    by_cases left : k = i
    · subst left
      rw [Equiv.swap_apply_left]
      exact (inside b.isLt).1
    · by_cases right : k = j
      · subst right
        rw [Equiv.swap_apply_right]
        exact (inside b.isLt).2
      · rw [Equiv.swap_apply_of_ne_of_ne left right]
        have below := b.isLt
        have fromLeft := array.apart left
        have fromRight := array.apart right
        exact swap_outside (by omega) (by omega)
  refine ⟨_, ?_, get, ?_, ?_⟩
  · rw [swapAt, check_mul first, check_mul second]
    rfl
  · intro address outside
    have within (k : Nat) (lower : k < array.count) (b : Nat) (below : b < array.size) :
        address ≠ array.ptr + k * array.size + b := by
      have step := Nat.mul_le_mul_right array.size (Nat.succ_le_of_lt lower)
      rw [Nat.succ_mul] at step
      rw [Nat.add_assoc]
      exact outside _ (by omega)
    exact swap_outside (within i first) (within j second)
  · unfold Elements.toList
    rw [get]
    exact Heap.range_map_swap_perm first second

end Access

section Loops

variable {array : Elements} {comp : Comparison array.size} {mem : Memory} {start stop : Nat}

/-- The order that the comparison decides. -/
def Below (comp : Comparison array.size) (a b : Content array.size) : Prop := comp a b ≤ 0

theorem TotalPreorder.refl (total : TotalPreorder comp) (a : Content array.size) :
    Below comp a a := by
  have converse := total.converse a a
  unfold Below
  omega

theorem TotalPreorder.below_of_neg {a b : Content array.size} (less : comp a b < 0) :
    Below comp a b := Int.le_of_lt less

theorem TotalPreorder.below_of_not_neg (total : TotalPreorder comp) {a b : Content array.size}
    (notLess : ¬ comp a b < 0) : Below comp b a := by
  have converse := total.converse a b
  unfold Below
  omega

/-- The multiples of the element size stay below the size of an address. -/
theorem mul_mod {k : Nat} (small : k ≤ 2 * array.count) :
    k * array.size % wordSize = k * array.size := by
  apply Nat.mod_eq_of_lt
  have bound := array.bound
  have scaled := Nat.mul_le_mul_right array.size small
  rw [Nat.mul_assoc] at scaled
  unfold wordSize
  omega

theorem mul_le_iff {a b : Nat} : a * array.size ≤ b * array.size ↔ a ≤ b :=
  Nat.mul_le_mul_right_iff array.positive

theorem greaterChild_spec (total : TotalPreorder comp) {child : Nat} (inside : child < stop)
    (within : stop ≤ array.count) : ∃ greater,
      greaterChild array comp (stop * array.size) mem (child * array.size) =
        .ok (greater * array.size) ∧ (greater = child ∨ greater = child + 1) ∧ greater < stop ∧
      ∀ j, j = child ∨ j = child + 1 → j < stop →
        Below comp (array.get mem j) (array.get mem greater) := by
  unfold greaterChild
  have sum : (child * array.size + array.size) % wordSize = (child + 1) * array.size := by
    rw [← Nat.succ_mul]
    exact mul_mod (by omega)
  rw [sum]
  have second : (child + 1) * array.size < stop * array.size ↔ child + 1 < stop := by
    rw [← Nat.not_le, mul_le_iff, Nat.not_le]
  by_cases both : child + 1 < stop
  · rw [if_pos (second.mpr both), compAt_mul (by omega) (by omega), ok_bind]
    by_cases less : comp (array.get mem child) (array.get mem (child + 1)) < 0
    · rw [if_pos less]
      refine ⟨child + 1, rfl, .inr rfl, both, ?_⟩
      rintro j (rfl | rfl) _
      · exact TotalPreorder.below_of_neg less
      · exact total.refl _
    · rw [if_neg less]
      refine ⟨child, rfl, .inl rfl, inside, ?_⟩
      rintro j (rfl | rfl) _
      · exact total.refl _
      · exact total.below_of_not_neg less
  · rw [if_neg (both ∘ second.mp)]
    refine ⟨child, rfl, .inl rfl, inside, ?_⟩
    rintro j (rfl | rfl) lower
    · exact total.refl _
    · exact absurd lower both

/-- The state of the memory after a repair. -/
structure Repaired (comp : Comparison array.size) (start stop : Nat) (mem mem' : Memory) :
    Prop where
  heap : Heap.HeapFrom (Below comp) (array.get mem') start stop
  settled : Heap.Settled (Below comp) (array.get mem) stop array.count →
    Heap.Settled (Below comp) (array.get mem') stop array.count
  rearranged : Rearranged array mem mem'

/-- The hole sinks until it has no child above it. -/
theorem repair_spec (total : TotalPreorder comp) {root fuel : Nat}
    (heap : Heap.HeapBut (Below comp) (array.get mem) start stop root) (first : start ≤ root)
    (inside : root < stop) (within : stop ≤ array.count) (enough : stop - root < fuel) :
    ∃ mem', repair array comp (stop * array.size) fuel (root * array.size) mem = .ok mem' ∧
      Repaired comp start stop mem mem' := by
  induction fuel generalizing root mem with
  | zero => exact absurd enough (Nat.not_lt_zero _)
  | succ fuel inductionHypothesis =>
      unfold repair
      have child : (root * array.size * 2 + array.size) % wordSize =
          (2 * root + 1) * array.size := by
        have sum : root * array.size * 2 + array.size = (2 * root + 1) * array.size := by ring
        rw [sum]
        exact mul_mod (by omega)
      simp only [child, mul_le_iff]
      by_cases leaf : stop ≤ 2 * root + 1
      · rw [if_pos leaf]
        refine ⟨mem, rfl, heap.settle ?_, id, .refl⟩
        rintro j (rfl | rfl) lower <;> omega
      · rw [if_neg leaf]
        obtain ⟨greater, returned, which, lower, greatest⟩ :=
          @greaterChild_spec array comp mem stop total (2 * root + 1) (by omega) within
        rw [returned, ok_bind, compAt_mul (by omega) (by omega), ok_bind]
        have below : Heap.Child root greater := which
        by_cases done : 0 ≤ comp (array.get mem root) (array.get mem greater)
        · rw [if_pos done]
          refine ⟨mem, rfl, heap.settle fun j under lower' => ?_, id, .refl⟩
          exact total.trans _ _ _ (greatest j under lower')
            (total.below_of_not_neg (Int.not_lt.mpr done))
        · rw [if_neg done]
          have apart := below.lt
          obtain ⟨mem₁, swapped, get, rearranged⟩ :=
            @swapAt_mul array mem root greater (by omega) (by omega) (by omega)
          have greater' : Below comp (array.get mem root) (array.get mem greater) :=
            TotalPreorder.below_of_neg (Int.not_le.mp done)
          have sunk := heap.sink first below lower greatest greater'
          rw [← get] at sunk
          obtain ⟨mem', repaired, heap', settled', rearranged'⟩ :=
            inductionHypothesis sunk (by omega) lower (by omega)
          rw [swapped, ok_bind]
          refine ⟨mem', repaired, heap', fun settled => settled' ?_, rearranged.trans rearranged'⟩
          rw [get]
          exact settled.swap inside lower

theorem mul_sub_size {k : Nat} (positive : 0 < k) (small : k ≤ 2 * array.count) :
    (k * array.size + (wordSize - array.size)) % wordSize = (k - 1) * array.size := by
  have bound := array.bound
  have one : 1 * array.size ≤ k * array.size := Nat.mul_le_mul_right _ positive
  have whole := @mul_mod array k small
  have less : k * array.size < wordSize := by
    rw [← whole]
    exact Nat.mod_lt _ (by decide)
  rw [Nat.sub_mul, show k * array.size + (wordSize - array.size) =
    k * array.size - 1 * array.size + wordSize by omega, Nat.add_mod_right]
  exact Nat.mod_eq_of_lt (by omega)

/-- Every round makes the heap one longer at its start, or one shorter at its end. -/
theorem sortLoop_spec (total : TotalPreorder comp) {fuel rounds : Nat}
    (heap : Heap.HeapFrom (Below comp) (array.get mem) start stop)
    (settled : Heap.Settled (Below comp) (array.get mem) stop array.count)
    (first : start ≤ stop) (within : stop ≤ array.count) (deep : array.count < fuel)
    (enough : start + stop < rounds) :
    ∃ mem', sortLoop array comp fuel rounds (start * array.size) (stop * array.size) mem =
        .ok mem' ∧
      (∃ left ≤ 1, Heap.Settled (Below comp) (array.get mem') left array.count) ∧
      Rearranged array mem mem' := by
  induction rounds generalizing start stop mem with
  | zero => exact absurd enough (Nat.not_lt_zero _)
  | succ rounds inductionHypothesis =>
      unfold sortLoop
      have short : stop * array.size ≤ array.size ↔ stop ≤ 1 := by
        have iff := @mul_le_iff array stop 1
        rwa [Nat.one_mul] at iff
      have positive : 0 < start * array.size ↔ 0 < start :=
        Nat.mul_pos_iff_of_pos_right array.positive
      simp only [short, positive]
      by_cases done : stop ≤ 1
      · rw [if_pos done]
        exact ⟨mem, rfl, ⟨stop, done, settled⟩, .refl⟩
      · rw [if_neg done]
        by_cases grows : 0 < start
        · rw [if_pos grows, mul_sub_size grows (by omega)]
          obtain ⟨start, rfl⟩ := Nat.exists_eq_add_one_of_ne_zero (Nat.ne_of_gt grows)
          rw [Nat.add_sub_cancel]
          obtain ⟨mem₁, repaired, heap₁, settled₁, rearranged₁⟩ :=
            @repair_spec array comp mem start stop total start fuel heap.descend le_rfl (by omega)
              within (by omega)
          obtain ⟨mem', sorted, settled', rearranged'⟩ := inductionHypothesis heap₁
            (settled₁ settled) (by omega) within (by omega)
          rw [repaired, ok_bind]
          exact ⟨mem', sorted, settled', rearranged₁.trans rearranged'⟩
        · obtain rfl : start = 0 := Nat.eq_zero_of_not_pos grows
          rw [if_neg grows, mul_sub_size (by omega) (by omega)]
          obtain ⟨stop, rfl⟩ := Nat.exists_eq_add_one_of_ne_zero (by omega : stop ≠ 0)
          rw [Nat.add_sub_cancel, Nat.zero_mul]
          obtain ⟨mem₁, swapped, get, rearranged₁⟩ :=
            @swapAt_mul array mem stop 0 (by omega) (by omega) (by omega)
          rw [Nat.zero_mul] at swapped
          rw [Equiv.swap_comm] at get
          have popped := settled.pop total.trans total.refl heap
          have hole := heap.pop
          rw [← get] at popped hole
          obtain ⟨mem₂, repaired, heap₂, settled₂, rearranged₂⟩ :=
            @repair_spec array comp mem₁ 0 stop total 0 fuel hole le_rfl (by omega) (by omega)
              (by omega)
          rw [Nat.zero_mul] at repaired
          obtain ⟨mem', sorted, settled', rearranged'⟩ := inductionHypothesis heap₂
            (settled₂ popped) (Nat.zero_le _) (by omega) (by omega)
          rw [Nat.zero_mul] at sorted
          rw [swapped, ok_bind, repaired, ok_bind]
          exact ⟨mem', sorted, settled', (rearranged₁.trans rearranged₂).trans rearranged'⟩

/-- `sort` returns with the elements in order, having touched nothing but elements. -/
theorem sort_sorts (total : TotalPreorder comp) (mem : Memory) {fuel : Nat}
    (enough : 2 * array.count < fuel) : ∃ mem', sort array comp fuel mem = .ok mem' ∧
      (∀ address, (∀ offset < array.count * array.size, address ≠ array.ptr + offset) →
        mem' address = mem address) ∧
      (array.toList mem').Perm (array.toList mem) ∧
      (array.toList mem').Pairwise fun a b => comp a b ≤ 0 := by
  have leaves : Heap.HeapFrom (Below comp) (array.get mem) (array.count / 2) array.count :=
    Heap.heapFrom_leaves (by omega)
  have settled : Heap.Settled (Below comp) (array.get mem) array.count array.count :=
    fun i j _ behind inside => absurd inside (Nat.not_lt.mpr behind)
  obtain ⟨mem', sorted, ⟨left, single, settled'⟩, outside, perm⟩ :=
    @sortLoop_spec array comp mem (array.count / 2) array.count total fuel fuel leaves settled
      (by omega) le_rfl (by omega) (by omega)
  refine ⟨mem', ?_, outside, perm, ?_⟩
  · rw [sort, mul_mod (by omega), mul_mod (by omega)]
    exact sorted
  · rw [Elements.toList, List.pairwise_map]
    refine List.pairwise_lt_range.imp_of_mem fun {i j} _ member before => ?_
    exact settled' i j (Nat.le_of_lt before) (by omega) (List.mem_range.mp member)

end Loops

section Entries

/-- The members of `struct mmap_entry` that `entry_compare` reads. -/
structure MmapEntry where
  addr : Nat
  len : Nat
  deriving DecidableEq, Repr

/-- `sizeof(struct mmap_entry)`. -/
def sizeofMmapEntry : Nat := 24

def mmapEntry (content : Content sizeofMmapEntry) : MmapEntry where
  addr := Memory.word (fun i => if inside : i < sizeofMmapEntry then content ⟨i, inside⟩ else 0) 0 8
  len := Memory.word (fun i => if inside : i < sizeofMmapEntry then content ⟨i, inside⟩ else 0) 8 8

def entryCompare (lhs rhs : Content sizeofMmapEntry) : Int :=
  let a := mmapEntry lhs
  let b := mmapEntry rhs
  if a.addr < b.addr then -1
  else if a.addr > b.addr then 1
  else if a.len < b.len then -1
  else if a.len > b.len then 1
  else 0

theorem entryCompare_total : TotalPreorder entryCompare := by
  constructor
  · intro lhs rhs
    simp only [entryCompare]
    split_ifs <;> omega
  · intro first second third
    simp only [entryCompare]
    split_ifs <;> omega

/-- Four entries, of which two have the same address. -/
def fourEntries : Elements where
  ptr := 0x1000
  count := 4
  size := sizeofMmapEntry
  positive := by decide
  fits := by decide
  canonical offset inside := .inl (by
    have bound : offset < 96 := inside
    omega)

/-- The addresses 3, 1, 2 and 1, in this order. -/
def fourAddresses : Memory := fun addr =>
  if addr = 0x1000 then 3 else if addr = 0x1018 then 1
  else if addr = 0x1030 then 2 else if addr = 0x1048 then 1 else 0

theorem sort_sorts_fourEntries : ∃ mem', sort fourEntries entryCompare 9 fourAddresses = .ok mem' ∧
    (fourEntries.toList mem').Pairwise fun a b => entryCompare a b ≤ 0 := by
  obtain ⟨mem', sorted, -, -, ordered⟩ := @sort_sorts fourEntries entryCompare entryCompare_total
    fourAddresses 9 (by decide)
  exact ⟨mem', sorted, ordered⟩

end Entries

end Opal.Heapsort
