import Opal.Dynarray.Operations

/-!
# The array as a list of bytes

What each function does to the bytes in use, for arguments that are in range.  Every assertion
that can still fail is the one of `kzalloc_span` about its size.
-/

namespace Opal.Dynarray

open Opal.Library

section Kmalloc

variable {size k rounds order bytes : Nat} {mem : AllocOracle}

theorem pageOrderLoop_spec (enough : size ≤ bytes * 2 ^ k) (left : k ≤ rounds)
    (fits : bytes * 2 ^ k < wordSize) :
    ∃ j ≤ k, pageOrderLoop size rounds order bytes = order + j ∧ size ≤ bytes * 2 ^ j := by
  induction rounds generalizing k order bytes with
  | zero =>
      obtain rfl := Nat.le_zero.mp left
      exact ⟨0, Nat.le_refl 0, rfl, enough⟩
  | succ rounds inductionHypothesis =>
      unfold pageOrderLoop
      by_cases less : bytes < size
      · rw [if_pos less]
        cases k with
        | zero =>
            rw [Nat.pow_zero, Nat.mul_one] at enough
            exact absurd enough (Nat.not_le_of_lt less)
        | succ k =>
            have doubled : bytes * 2 * 2 ^ k = bytes * 2 ^ (k + 1) := by
              rw [Nat.mul_assoc, ← Nat.pow_succ']
            have small : bytes * 2 < wordSize := by
              refine Nat.lt_of_le_of_lt (Nat.le_mul_of_pos_right _ (Nat.two_pow_pos k)) ?_
              rw [doubled]
              exact fits
            rw [Nat.mod_eq_of_lt small]
            obtain ⟨j, le, order_eq, enough'⟩ := inductionHypothesis (doubled ▸ enough)
              (Nat.le_of_succ_le_succ left) (doubled ▸ fits)
            refine ⟨j + 1, Nat.succ_le_succ le, ?_, ?_⟩
            · rw [order_eq, Nat.add_right_comm, Nat.add_assoc]
            · rw [Nat.pow_succ', ← Nat.mul_assoc]
              exact enough'
      · rw [if_neg less]
        refine ⟨0, Nat.zero_le k, rfl, ?_⟩
        rw [Nat.pow_zero, Nat.mul_one]
        exact Nat.le_of_not_lt less

theorem pageOrderForSize_spec (small : size ≤ kmallocMaxSize) :
    pageOrderForSize size ≤ 6 ∧ size ≤ pageSize * 2 ^ pageOrderForSize size := by
  obtain ⟨j, le, order_eq, enough⟩ := @pageOrderLoop_spec size 6 pfnValidBitWidth 0 pageSize
    small (by decide) (by decide)
  rw [Nat.zero_add] at order_eq
  unfold pageOrderForSize
  rw [order_eq]
  exact ⟨le, enough⟩

theorem allocSize_spec (small : size ≤ kmallocMaxSize) :
    size ≤ allocSize size ∧ allocSize size ≤ kmallocMaxSize := by
  unfold allocSize
  split
  · rename_i slabSize found
    have classes : ∀ slabSize ∈ gSlabSizes, slabSize ≤ kmallocMaxSize := by decide
    unfold slabSizeForSize at found
    have enough := List.find?_some found
    exact ⟨of_decide_eq_true enough, classes slabSize (List.mem_of_find?_eq_some found)⟩
  · obtain ⟨order, enough⟩ := pageOrderForSize_spec small
    exact ⟨enough, Nat.mul_le_mul_left _ (Nat.pow_le_pow_right (by decide) order)⟩

theorem kzallocSpan_eq (positive : size ≠ 0) (small : size ≤ kmallocMaxSize) :
    kzallocSpan size mem =
      .ok (if mem.head then some (List.replicate (allocSize size) 0) else none, mem.tail) := by
  unfold kzallocSpan kassert allocSize
  rw [if_neg positive, if_pos small]
  cases slabSizeForSize size with
  | some slabSize => rfl
  | none =>
      have order := Nat.lt_of_le_of_lt (pageOrderForSize_spec small).1
        (by decide : 6 < pfnValidBitWidth)
      simp only [ok_bind, order, if_true]

theorem kzallocSpan_of_large (large : ¬size ≤ kmallocMaxSize) :
    kzallocSpan size mem = .error .invalidSize := by
  unfold kzallocSpan kassert
  rw [if_neg (by rintro rfl; exact large (Nat.zero_le _)), if_neg large]
  rfl

theorem kfreeSpan_eq (small : size ≤ kmallocMaxSize) : kfreeSpan size = .ok () := by
  unfold kfreeSpan kassert
  by_cases zero : size = 0
  · exact if_pos zero
  · rw [if_neg zero, if_pos small]
    cases slabSizeForSize size with
    | some slabSize => rfl
    | none =>
        have order := Nat.lt_of_le_of_lt (pageOrderForSize_spec small).1
          (by decide : 6 < pfnValidBitWidth)
        simp only [ok_bind, order, if_true]

end Kmalloc

section Arrays

/-- The buffer of an array that has one, and its length otherwise. -/
def bufferOf (ar : Dynarray) : Buffer := ar.data.getD []

/-- The bytes in use. -/
def contents (ar : Dynarray) : List UInt8 := (bufferOf ar).take ar.size

structure Valid (ar : Dynarray) : Prop where
  room : ar.size ≤ ar.capacity
  filled : (bufferOf ar).length = ar.capacity
  small : ar.capacity ≤ kmallocMaxSize

variable {ar ar' : Dynarray} {mem : AllocOracle}
  {pos start size newCapacity newSize dataSize : Nat}
  {source : Buffer}

theorem valid_init : Valid dynarrayInit := ⟨Nat.le_refl 0, rfl, by decide⟩

theorem Valid.length (valid : Valid ar) : (contents ar).length = ar.size := by
  have room := valid.room
  have filled := valid.filled
  exact List.length_take_of_le (by omega)

theorem Valid.eq_init (valid : Valid ar) (missing : ar.data = none) : ar = dynarrayInit := by
  obtain ⟨data, size, capacity⟩ := ar
  obtain ⟨room, filled, -⟩ := valid
  subst missing
  obtain rfl : 0 = capacity := filled
  obtain rfl := Nat.le_zero.mp room
  rfl

/-- A copy within the bounds of both buffers; where it is skipped there is nothing to copy. -/
theorem copy_eq {condition : Prop} [Decidable condition] (needed : condition ↔ 0 < size)
    (inside : pos + size ≤ (bufferOf ar).length) (given : start + size ≤ source.length) :
    ∃ data, copyIf condition ar pos source start size = .ok { ar with data := data } ∧
      data.isSome = ar.data.isSome ∧
      data.getD [] = splice (bufferOf ar) pos ((source.drop start).take size) := by
  unfold copyIf
  unfold bufferOf at *
  by_cases copies : condition
  · rw [if_pos copies]
    have positive := needed.mp copies
    cases present : ar.data with
    | none =>
        rw [present] at inside
        exact absurd inside (by simp; omega)
    | some buffer =>
        rw [present] at inside
        refine ⟨some (splice buffer pos ((source.drop start).take size)), ?_, rfl, rfl⟩
        rw [copyBytes, present]
        exact if_pos ⟨inside, given⟩
  · have nothing : size = 0 := Nat.eq_zero_of_not_pos (fun positive => copies (needed.mpr positive))
    refine ⟨ar.data, if_neg copies, rfl, ?_⟩
    rw [nothing, List.take_zero, splice_nil]

/-- The bytes in use are the same in a buffer that has room for the size that was asked for. -/
structure Rehoused (ar ar' : Dynarray) (newCapacity : Nat) : Prop where
  size : ar'.size = ar.size
  contents : contents ar' = contents ar
  enough : newCapacity ≤ ar'.capacity

/-- The array keeps its invariant; it is as before where failure is reported, and has `post`
otherwise. -/
def Outcome (ar : Dynarray) (post : Dynarray → Prop) (result : (Bool × Dynarray) × AllocOracle) :
    Prop :=
  Valid result.1.2 ∧ (result.1.1 = false → result.1.2 = ar) ∧
    (result.1.1 = true → post result.1.2)

theorem Outcome.mono {post post' : Dynarray → Prop} {result : (Bool × Dynarray) × AllocOracle}
    (outcome : Outcome ar post result) (weaken : ∀ ar', Valid ar' → post ar' → post' ar') :
    Outcome ar post' result :=
  ⟨outcome.1, outcome.2.1, fun done => weaken _ outcome.1 (outcome.2.2 done)⟩

theorem outcome_of_rehoused {data : Option Buffer}
    (small : newCapacity ≤ kmallocMaxSize) (fits : ar.size ≤ allocSize newCapacity)
    (length : (data.getD []).length = allocSize newCapacity)
    (same : (data.getD []).take ar.size = contents ar) :
    Outcome ar (fun ar' => Rehoused ar ar' newCapacity)
      ((true, { data := data, size := ar.size, capacity := allocSize newCapacity }), mem) :=
  ⟨⟨fits, length, (allocSize_spec small).2⟩, fun done => absurd done Bool.true_eq_false.mp,
    fun _ => ⟨rfl, same, (allocSize_spec small).1⟩⟩

theorem reserveUnchecked_spec (valid : Valid ar) (positive : newCapacity ≠ 0)
    (fits : mem.head = true → newCapacity ≤ kmallocMaxSize → ar.size ≤ allocSize newCapacity) :
    Ensures (· = .invalidSize)
      (fun result => result.1.1 = mem.head ∧
        Outcome ar (fun ar' => Rehoused ar ar' newCapacity) result)
      (reserveUnchecked ar newCapacity mem) := by
  unfold reserveUnchecked reserveWithoutCopy
  by_cases small : newCapacity ≤ kmallocMaxSize
  · rw [kzallocSpan_eq positive small]
    cases allocated : mem.head with
    | false =>
        simp only [ok_bind, Bool.false_eq_true, if_false]
        exact ⟨rfl, valid, fun _ => rfl, fun done => absurd done Bool.false_ne_true⟩
    | true =>
        have fits := fits allocated small
        simp only [ok_bind, if_true, List.length_replicate]
        have room := valid.room
        have filled := valid.filled
        cases present : ar.data with
        | none =>
            rw [bufferOf, present] at filled
            have unused : ar.size = 0 :=
              Nat.le_zero.mp (Nat.le_trans room (Nat.le_of_eq filled.symm))
            refine ⟨rfl, outcome_of_rehoused small fits List.length_replicate ?_⟩
            rw [contents, unused, List.take_zero, List.take_zero]
        | some buffer =>
            have own : bufferOf ar = buffer := by rw [bufferOf, present, Option.getD_some]
            rw [own] at filled
            have taken : ((buffer.drop 0).take ar.size).length = ar.size :=
              List.length_take_of_le (by rw [List.drop_zero]; omega)
            have inside : 0 + ((buffer.drop 0).take ar.size).length ≤
                (List.replicate (allocSize newCapacity) (0 : UInt8)).length := by
              rw [taken, List.length_replicate, Nat.zero_add]
              exact fits
            obtain ⟨data, copied, -, bytes⟩ := @copy_eq
              ⟨some (List.replicate (allocSize newCapacity) 0), ar.size, allocSize newCapacity⟩
              0 0 ar.size buffer (ar.size > 0) _ Iff.rfl (taken ▸ inside) (by omega)
            rw [bufferOf, Option.getD_some] at bytes
            dsimp only
            rw [copied, ok_bind, kfreeSpan_eq valid.small]
            refine ⟨rfl, outcome_of_rehoused small fits ?_ ?_⟩
            · rw [bytes, length_splice inside, List.length_replicate]
            · have start := take_splice inside
              rw [Nat.zero_add, taken, List.take_zero, List.nil_append, List.drop_zero] at start
              rw [bytes, List.drop_zero, start, contents, own]
  · rw [kzallocSpan_of_large small]
    rfl

theorem dynarrayReserve_spec (valid : Valid ar) : Ensures (· = .invalidSize)
    (Outcome ar fun ar' => Rehoused ar ar' newCapacity) (dynarrayReserve ar newCapacity mem) := by
  unfold dynarrayReserve
  by_cases enough : newCapacity ≤ ar.capacity
  · rw [if_pos enough]
    exact ⟨valid, fun _ => rfl, fun _ => ⟨rfl, rfl, enough⟩⟩
  · rw [if_neg enough]
    have room := valid.room
    have fits (small : newCapacity ≤ kmallocMaxSize) : ar.size ≤ allocSize newCapacity := by
      have bounds := allocSize_spec small
      omega
    refine (reserveUnchecked_spec valid (by omega) fun _ => fits).mono ?_
    exact fun result reserved => reserved.2

/-- The array has the given size, and the bytes that were in use and still are did not change. -/
structure Resized (ar ar' : Dynarray) (newSize : Nat) : Prop where
  size : ar'.size = newSize
  contents : (contents ar').take ar.size = (contents ar).take newSize

theorem resized_of_rehoused (valid' : Valid ar') (rehoused : Rehoused ar ar' newSize) :
    Valid { ar' with size := newSize } ∧ Resized ar { ar' with size := newSize } newSize := by
  refine ⟨⟨rehoused.enough, valid'.filled, valid'.small⟩, rfl, ?_⟩
  rw [← rehoused.contents, contents, contents, rehoused.size, List.take_take, List.take_take,
    Nat.min_comm]
  rfl

theorem dynarrayResize_spec (valid : Valid ar) : Ensures (· = .invalidSize)
    (Outcome ar fun ar' => Resized ar ar' newSize) (dynarrayResize ar newSize mem) := by
  unfold dynarrayResize
  by_cases beyond : newSize > ar.capacity
  · rw [if_pos beyond]
    apply (dynarrayReserve_spec valid).bind
    rintro ⟨⟨reserved, ar'⟩, mem'⟩ ⟨valid', failed, done⟩
    cases reserved with
    | false => exact ⟨valid', failed, fun done => absurd done Bool.false_ne_true⟩
    | true =>
        obtain ⟨valid'', resized⟩ := resized_of_rehoused valid' (done rfl)
        exact ⟨valid'', fun failed => absurd failed.symm Bool.false_ne_true, fun _ => resized⟩
  · rw [if_neg beyond]
    have kept : Rehoused ar ar newSize := ⟨rfl, rfl, Nat.le_of_not_lt beyond⟩
    obtain ⟨valid', resized⟩ := resized_of_rehoused valid kept
    exact ⟨valid', fun failed => absurd failed.symm Bool.false_ne_true, fun _ => resized⟩

/-- A buffer is exchanged for a smaller one only where it holds what is in use, and where the new
size is not larger than the old one. -/
def ShrinksSafely (ar : Dynarray) (mem : AllocOracle) (newSize : Nat) : Prop :=
  newSize = 0 ∨ ar.capacity / 2 < newSize ∨ mem.head = false ∨
    (newSize ≤ ar.size ∧ ar.size ≤ allocSize newSize)

instance : Decidable (ShrinksSafely ar mem newSize) := inferInstanceAs (Decidable (_ ∨ _))

/-- The array is not larger than before, and the bytes below the given size did not change. -/
structure Shrunk (ar ar' : Dynarray) (newSize : Nat) : Prop where
  size : ar'.size ≤ ar.size
  contents : (contents ar').take newSize = (contents ar).take newSize

theorem dynarrayShrinkTo_spec (valid : Valid ar) (safely : ShrinksSafely ar mem newSize) :
    Ensures (· = .invalidSize) (Outcome ar fun ar' => Shrunk ar ar' newSize)
      (dynarrayShrinkTo ar newSize mem) := by
  unfold dynarrayShrinkTo
  by_cases zero : newSize = 0
  · subst zero
    rw [if_pos rfl]
    have destroyed : ∃ ar', dynarrayDestroy ar = .ok ar' ∧ Valid ar' ∧ ar'.size ≤ ar.size := by
      unfold dynarrayDestroy
      cases ar.data with
      | none => exact ⟨ar, rfl, valid, Nat.le_refl _⟩
      | some buffer =>
          rw [kfreeSpan_eq valid.small]
          exact ⟨_, rfl, valid_init, Nat.zero_le _⟩
    obtain ⟨ar', returned, valid', less⟩ := destroyed
    rw [returned]
    refine ⟨valid', fun failed => absurd failed.symm Bool.false_ne_true, fun _ => ⟨less, ?_⟩⟩
    rw [List.take_zero, List.take_zero]
  · rw [if_neg zero]
    by_cases large : newSize > ar.capacity / 2
    · rw [if_pos large]
      exact ⟨valid, fun _ => rfl, fun _ => ⟨Nat.le_refl _, rfl⟩⟩
    · rw [if_neg large]
      rcases safely with zero' | large' | failing | ⟨less, fits⟩
      · exact absurd zero' zero
      · exact absurd large' large
      · apply (reserveUnchecked_spec valid zero fun allocated => ?_).bind
        · rintro ⟨⟨reserved, ar'⟩, mem'⟩ ⟨same, valid', failed, -⟩
          have none_reserved : reserved = false := same.trans failing
          subst none_reserved
          exact ⟨valid', failed, fun done => absurd done Bool.false_ne_true⟩
        · rw [failing] at allocated
          cases allocated
      · apply (reserveUnchecked_spec valid zero fun _ _ => fits).bind
        rintro ⟨⟨reserved, ar'⟩, mem'⟩ ⟨-, valid', failed, done⟩
        cases reserved with
        | false => exact ⟨valid', failed, fun done => absurd done Bool.false_ne_true⟩
        | true =>
            obtain ⟨valid'', resized⟩ := resized_of_rehoused valid' (done rfl)
            refine ⟨valid'', fun failed => absurd failed.symm Bool.false_ne_true, fun _ =>
              ⟨less, ?_⟩⟩
            have length := valid''.length
            rw [List.take_of_length_le (Nat.le_of_eq length), ← resized.contents,
              List.take_of_length_le (Nat.le_trans (Nat.le_of_eq length) less)]

theorem dynarrayPushBack_spec (valid : Valid ar) (inRange : ar.size + dataSize < wordSize) :
    Ensures (· = .invalidSize) (Outcome ar fun ar' => Resized ar ar' (ar.size + dataSize))
      (dynarrayPushBack ar dataSize mem) := by
  have guard : dataSize ≤ uintptrMax - ar.size := by
    unfold uintptrMax
    unfold wordSize at inRange
    omega
  unfold dynarrayPushBack kassert
  rw [if_pos guard, ok_bind, Nat.mod_eq_of_lt inRange]
  by_cases nothing : ar.size + dataSize = 0
  · obtain ⟨size, rfl⟩ := Nat.add_eq_zero_iff.mp nothing
    have same : dynarrayResize ar (ar.size + 0) mem = .ok ((true, ar), mem) := by
      unfold dynarrayResize
      rw [if_neg (by omega)]
      rfl
    rw [same]
    refine ⟨valid, fun _ => rfl, fun _ => ⟨rfl, ?_⟩⟩
    rfl
  · apply (dynarrayResize_spec valid).bind
    rintro ⟨⟨resized, ar'⟩, mem'⟩ ⟨valid', failed, done⟩
    cases resized with
    | false => exact ⟨valid', fun _ => failed rfl, fun done => absurd done Bool.false_ne_true⟩
    | true =>
        have present : ar'.data.isSome = true := by
          have room := valid'.room
          have filled := valid'.filled
          have size := (done rfl).size
          cases data : ar'.data with
          | some buffer => rfl
          | none =>
              rw [bufferOf, data, Option.getD_none, List.length_nil] at filled
              dsimp only at room filled size
              omega
        refine ⟨valid', fun failed => ?_, fun _ => done rfl⟩
        rw [Bool.true_and, present] at failed
        cases failed

theorem dynarrayPopBack_spec (valid : Valid ar) (inRange : dataSize ≤ ar.size) :
    ∃ ar', dynarrayPopBack ar dataSize = .ok ar' ∧ Valid ar' ∧
      contents ar' = (contents ar).take (ar.size - dataSize) := by
  unfold dynarrayPopBack kassert
  rw [if_pos inRange]
  refine ⟨_, rfl, ⟨Nat.le_trans (Nat.sub_le ..) valid.room, valid.filled, valid.small⟩, ?_⟩
  rw [contents, contents, List.take_take, Nat.min_eq_left (Nat.sub_le ..)]
  rfl

theorem take_contents (inside : pos ≤ ar.size) :
    (contents ar).take pos = (bufferOf ar).take pos := by
  rw [contents, List.take_take, Nat.min_eq_left inside]

theorem drop_contents : (contents ar).drop pos = ((bufferOf ar).drop pos).take (ar.size - pos) :=
  List.drop_take

/-- The bytes from `pos` on are copied behind a hole, from this buffer or from another one. -/
theorem copy_behind (inside : pos ≤ ar.size) (fits : ar.size + dataSize ≤ (bufferOf ar).length)
    (given : ar.size ≤ source.length) :
    ∃ data, copyIf (ar.size > pos) ar (pos + dataSize) source pos (ar.size - pos) =
        .ok { ar with data := data } ∧ data.isSome = ar.data.isSome ∧
      (data.getD []).length = (bufferOf ar).length ∧
      (data.getD []).take (ar.size + dataSize) = (bufferOf ar).take pos ++
        ((bufferOf ar).drop pos).take dataSize ++ (source.drop pos).take (ar.size - pos) := by
  have taken : ((source.drop pos).take (ar.size - pos)).length = ar.size - pos :=
    List.length_take_of_le (by rw [List.length_drop]; omega)
  have inBuffer : pos + dataSize + ((source.drop pos).take (ar.size - pos)).length ≤
      (bufferOf ar).length := by omega
  obtain ⟨data, copied, some_iff, bytes⟩ := @copy_eq ar (pos + dataSize) pos (ar.size - pos) source
    (ar.size > pos) _ (by omega) (by omega) (by omega)
  have whole : pos + dataSize + (ar.size - pos) = ar.size + dataSize := by omega
  have start := take_splice inBuffer
  rw [taken, whole] at start
  refine ⟨data, copied, some_iff, ?_, ?_⟩
  · rw [bytes, length_splice inBuffer]
  · rw [bytes, start, List.take_add]

/-- A hole was made at a position. -/
def Inserted (ar ar' : Dynarray) (pos dataSize : Nat) : Prop :=
  ∃ hole, hole.length = dataSize ∧
    contents ar' = (contents ar).take pos ++ hole ++ (contents ar).drop pos

/-- The end of `dynarray_insert`, once the buffer has room and the bytes before `pos`. -/
theorem insert_behind (inside : pos ≤ ar.size) (valid : Valid ar')
    (same : ar'.size = ar.size) (fits : ar.size + dataSize ≤ ar'.capacity)
    (before : (bufferOf ar').take pos = (bufferOf ar).take pos)
    (given : ar.size ≤ source.length)
    (behind : (source.drop pos).take (ar.size - pos) =
      ((bufferOf ar).drop pos).take (ar.size - pos)) :
    ∃ data, copyIf (ar'.size > pos) ar' (pos + dataSize) source pos (ar'.size - pos) =
        .ok { ar' with data := data } ∧ data.isSome = ar'.data.isSome ∧
      Valid { ar' with data := data, size := ar.size + dataSize } ∧
      Inserted ar { ar' with data := data, size := ar.size + dataSize } pos dataSize := by
  have filled := valid.filled
  obtain ⟨data, copied, some_iff, length, bytes⟩ :=
    @copy_behind ar' pos dataSize source (by omega) (by omega) (by omega)
  refine ⟨data, copied, some_iff, ⟨fits, length.trans filled, valid.small⟩,
    ((bufferOf ar').drop pos).take dataSize, ?_, ?_⟩
  · exact List.length_take_of_le (by rw [List.length_drop]; omega)
  · rw [same, before, behind] at bytes
    rw [take_contents inside, drop_contents, contents]
    exact bytes

theorem dynarrayInsert_spec (valid : Valid ar) (inside : pos ≤ ar.size)
    (inRange : ar.size + dataSize < wordSize) : Ensures (· = .invalidSize)
      (Outcome ar fun ar' => Inserted ar ar' pos dataSize)
      (dynarrayInsert ar pos dataSize mem) := by
  have guard : dataSize ≤ uintptrMax - ar.size := by
    unfold uintptrMax
    unfold wordSize at inRange
    omega
  have room := valid.room
  have filled := valid.filled
  unfold dynarrayInsert kassert
  rw [if_pos inside, ok_bind, if_pos guard, ok_bind]
  simp only [Nat.mod_eq_of_lt inRange]
  unfold reserveForInsert
  by_cases beyond : ar.size + dataSize > ar.capacity
  · rw [if_pos beyond]
    unfold reserveWithoutCopy
    by_cases small : ar.size + dataSize ≤ kmallocMaxSize
    · rw [kzallocSpan_eq (by omega) small]
      have bounds := allocSize_spec small
      cases mem.head with
      | false =>
          simp only [ok_bind, Bool.false_eq_true, if_false]
          exact ⟨valid, fun _ => rfl, fun done => absurd done Bool.false_ne_true⟩
      | true =>
          simp only [ok_bind, if_true, List.length_replicate]
          have enlarged : Valid ⟨some (List.replicate (allocSize (ar.size + dataSize)) 0), ar.size,
              allocSize (ar.size + dataSize)⟩ :=
            ⟨Nat.le_trans (Nat.le_add_right ..) bounds.1, List.length_replicate, bounds.2⟩
          cases present : ar.data with
          | none =>
              rw [bufferOf, present, Option.getD_none, List.length_nil] at filled
              obtain ⟨data, copied, some_iff, valid', inserted⟩ := @insert_behind ar _ pos dataSize
                (List.replicate (allocSize (ar.size + dataSize)) 0) inside enlarged rfl bounds.1
                (by rw [show pos = 0 by omega, List.take_zero, List.take_zero])
                (by rw [List.length_replicate]; omega)
                (by rw [show ar.size - pos = 0 by omega, List.take_zero, List.take_zero])
              dsimp only [Option.getD_some]
              rw [copied, ok_bind]
              exact ⟨valid', fun failed => absurd (some_iff.symm.trans failed).symm
                Bool.false_ne_true, fun _ => inserted⟩
          | some buffer =>
              have own : bufferOf ar = buffer := by rw [bufferOf, present, Option.getD_some]
              have taken : ((buffer.drop 0).take pos).length = pos :=
                List.length_take_of_le (by rw [List.drop_zero, ← own]; omega)
              have front : 0 + ((buffer.drop 0).take pos).length ≤
                  (List.replicate (allocSize (ar.size + dataSize)) (0 : UInt8)).length := by
                rw [taken, List.length_replicate]
                omega
              obtain ⟨data₁, copied₁, some_iff₁, bytes₁⟩ := @copy_eq
                ⟨some (List.replicate (allocSize (ar.size + dataSize)) 0), ar.size,
                  allocSize (ar.size + dataSize)⟩
                0 0 pos buffer (pos > 0) _ Iff.rfl (taken ▸ front) (by rw [← own]; omega)
              rw [bufferOf, Option.getD_some] at bytes₁
              have enlarged₁ : Valid ⟨data₁, ar.size, allocSize (ar.size + dataSize)⟩ := by
                refine ⟨enlarged.room, ?_, bounds.2⟩
                rw [bufferOf, bytes₁, length_splice front, List.length_replicate]
              have start := take_splice front
              rw [Nat.zero_add, taken, List.take_zero, List.nil_append, List.drop_zero] at start
              obtain ⟨data, copied, some_iff, valid', inserted⟩ := @insert_behind ar _ pos dataSize
                buffer inside enlarged₁ rfl bounds.1
                (by rw [bufferOf, bytes₁, List.drop_zero, start, own])
                (by rw [← own]; omega) (by rw [own])
              dsimp only
              rw [copied₁, ok_bind, copied, ok_bind, kfreeSpan_eq valid.small, ok_bind]
              have present : data.isSome = true := some_iff.trans some_iff₁
              exact ⟨valid', fun failed => absurd (present.symm.trans failed).symm
                Bool.false_ne_true, fun _ => inserted⟩
    · rw [kzallocSpan_of_large small]
      rfl
  · rw [if_neg beyond]
    obtain ⟨data, copied, some_iff, valid', inserted⟩ := @insert_behind ar ar pos dataSize
      (bufferOf ar) inside valid rfl (by omega) rfl (by omega) rfl
    rw [ok_bind]
    dsimp only
    rw [bufferOf] at copied
    rw [copied, ok_bind]
    refine ⟨valid', fun failed => ?_, fun _ => inserted⟩
    have missing : data = none :=
      Option.isSome_eq_false_iff.mp failed |> Option.isNone_iff_eq_none.mp
    subst missing
    obtain rfl := valid.eq_init (Option.isNone_iff_eq_none.mp (Option.isSome_eq_false_iff.mp
      (some_iff.symm.trans rfl)))
    obtain rfl : dataSize = 0 := by
      change ¬0 + dataSize > 0 at beyond
      omega
    rfl

theorem dynarrayRemove_spec (valid : Valid ar) (inRange : pos + dataSize ≤ ar.size) :
    ∃ ar', dynarrayRemove ar pos dataSize = .ok ar' ∧ Valid ar' ∧
      contents ar' = (contents ar).take pos ++ (contents ar).drop (pos + dataSize) := by
  have room := valid.room
  have filled := valid.filled
  have small : ar.size < wordSize :=
    Nat.lt_of_le_of_lt (Nat.le_trans room valid.small) (by decide : kmallocMaxSize < wordSize)
  have stop : (pos + dataSize) % wordSize = pos + dataSize := Nat.mod_eq_of_lt (by omega)
  have back (part : Nat) (le : part ≤ ar.size) :
      (ar.size + wordSize - part) % wordSize = ar.size - part := by
    rw [Nat.add_comm, Nat.add_sub_assoc le, Nat.add_mod_left, Nat.mod_eq_of_lt (by omega)]
  unfold dynarrayRemove kassert
  dsimp only
  rw [stop, if_pos inRange, ok_bind, back _ inRange]
  have taken : (((bufferOf ar).drop (pos + dataSize)).take (ar.size - (pos + dataSize))).length =
      ar.size - (pos + dataSize) := List.length_take_of_le (by rw [List.length_drop]; omega)
  have inBuffer : pos + (((bufferOf ar).drop (pos + dataSize)).take
      (ar.size - (pos + dataSize))).length ≤ (bufferOf ar).length := by omega
  obtain ⟨data, copied, -, bytes⟩ := @copy_eq ar pos (pos + dataSize) (ar.size - (pos + dataSize))
    (bufferOf ar) (pos + dataSize < ar.size) _ (by omega) (by omega) (by omega)
  rw [bufferOf] at copied
  rw [copied, ok_bind]
  dsimp only
  rw [back dataSize (by omega)]
  refine ⟨_, rfl, ⟨?_, ?_, valid.small⟩, ?_⟩
  · exact Nat.le_trans (Nat.sub_le ..) room
  · rw [bufferOf, bytes, length_splice inBuffer, filled]
  · have start := take_splice inBuffer
    have whole : pos + (ar.size - (pos + dataSize)) = ar.size - dataSize := by omega
    rw [taken, whole] at start
    rw [take_contents (by omega), drop_contents, contents, bufferOf, bytes, start]

end Arrays

end Opal.Dynarray
