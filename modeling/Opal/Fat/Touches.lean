import Opal.Fat.Bounds
import Opal.Fat.Readall
import Opal.Fat.Working

/-!
# The accesses are those of the operations

With the table in the buffer, what `table_at` and `table_alloc` return depends on the bytes
that are accessed and on no others, and `table_set` and `table_alloc` change no others.
-/

namespace Opal.Fat

open Opal.Library (Range)

/-- The byte lies in one of the ranges. -/
def Accessed (ranges : List Range) (i : Nat) : Prop := ∃ range ∈ ranges, range.Has i

section Reading

variable {fat : FatTable} {buffer other : Memory} {cluster pos size : Nat}

theorem readallTouches_of_buffer (present : fat.buffer = some buffer) :
    fatTableReadallTouches fat = [] := by
  simp [fatTableReadallTouches, present]

theorem loads_of_buffer (present : fat.buffer = some buffer) : fat.loads = true := by
  simp [FatTable.loads, present]

theorem bytes_pos (width : Width) : 0 < width.bytes := by
  cases width <;> decide

/-- What `table_at` returns depends on the bytes that it accesses. -/
theorem tableAt_accesses (present : fat.buffer = some buffer)
    (same : ∀ i, Accessed (tableAtTouches cluster fat) i → other i = buffer i) :
    (tableAt cluster (fat.withBuffer other)).1 = (tableAt cluster fat).1 := by
  by_cases inside : fat.layout.width.pos cluster + fat.layout.width.bytes ≤ fat.layout.fatBytes
  · have start : ¬fat.layout.width.pos cluster > fat.layout.fatBytes := by omega
    have whole : min fat.layout.width.bytes (fat.layout.fatBytes - fat.layout.width.pos cluster) =
        fat.layout.width.bytes := by omega
    have touched : tableAtTouches cluster fat =
        [{ addr := fat.layout.width.pos cluster, len := fat.layout.width.bytes }] := by
      unfold tableAtTouches fatTableReadTouches
      simp only [if_neg start, whole, if_neg (bytes_pos _).ne', readallTouches_of_buffer present,
        loads_of_buffer present, if_true, List.nil_append]
    have equal : ∀ i < fat.layout.width.bytes,
        other (fat.layout.width.pos cluster + i) = buffer (fat.layout.width.pos cluster + i) := by
      intro i lower
      refine same _ ⟨_, touched ▸ List.mem_singleton_self _, Nat.le_add_right _ _, ?_⟩
      exact Nat.add_lt_add_left lower _
    have first := @tableAt_of_inside (fat.withBuffer other) cluster (readable_of_buffer rfl) inside
    rw [first, tableAt_of_inside (readable_of_buffer present) inside, view_of_buffer present]
    exact congrArg (fun value => Except.ok (extendMark _ value)) (stored_congr _ equal)
  · have outside := Nat.lt_of_not_le inside
    rw [tableAt_of_outside (readable_of_buffer present) outside,
      @tableAt_of_outside (fat.withBuffer other) cluster (readable_of_buffer rfl) outside]

end Reading

section Writing

variable {fat : FatTable} {buffer source : Memory} {cluster value pos size i : Nat}

/-- A value computed behind an operation leaves the state of the operation. -/
theorem run_bind_pure {σ ε α β : Type} (x : Op σ ε α) (value : β) (s : σ) :
    ((x >>= fun _ => pure value) s).2 = (x s).2 := by
  rw [Op.run_bind]
  split <;> simp_all

theorem fatTableWrite_accesses (present : fat.buffer = some buffer)
    (untouched : ¬Accessed (fatTableWriteTouches pos size fat) i) :
    (fatTableWrite pos source size fat).2.view i = buffer i := by
  have kept : fat.view i = buffer i := by rw [view_of_buffer present]
  unfold fatTableWrite
  unfold fatTableWriteTouches at untouched
  rw [Op.run_get_bind]
  by_cases huge : size > fsSsizeMax
  · rw [if_pos huge]
    exact kept
  rw [if_neg huge]
  rw [if_neg huge] at untouched
  by_cases start : pos > fat.layout.fatBytes
  · rw [if_pos start]
    exact kept
  rw [if_neg start]
  rw [if_neg start] at untouched
  dsimp only at untouched ⊢
  by_cases empty : min size (fat.layout.fatBytes - pos) = 0
  · rw [if_pos empty]
    exact kept
  rw [if_neg empty, Op.run_bind_ok (fatTableReadall_eq (readable_of_buffer present)),
    Op.run_modify_bind, run_bind_pure]
  rw [if_neg empty, readallTouches_of_buffer present, if_pos (loads_of_buffer present),
    List.nil_append] at untouched
  rw [view_of_buffer (writeCopies_keeps _ _ _ _ _ _).1]
  rw [Memory.copyInto_outside, view_of_buffer present]
  by_contra inside
  refine untouched ⟨_, List.mem_cons_self, ?_, ?_⟩
  · show pos ≤ i
    omega
  · show i < pos + min size (fat.layout.fatBytes - pos)
    omega

/-- A change that is refused because its bytes do not lie in the table whole. -/
theorem refused_keeps {α : Type} {next : Nat × Memory → FatOp α} (readable : fat.Readable)
    (outside : fat.layout.fatBytes < pos + size)
    (refuses : ∀ n bytes, n ≠ size → next (n, bytes) = Op.fail .erange) :
    ((fatTableRead pos size >>= next) fat).2.view = fat.view := by
  have kept := (fatTableRead_keeps pos size fat).view
  have short := fatTableRead_short readable outside
  rw [Op.run_bind]
  generalize fatTableRead pos size fat = outcome at kept short ⊢
  obtain ⟨result, middle⟩ := outcome
  rcases short with failed | ⟨n, bytes, less, read⟩
  · cases failed
    exact kept
  · cases read
    dsimp only
    rw [refuses n bytes less]
    exact kept

theorem mem_writeTouches (present : fat.buffer = some buffer)
    (inside : pos + size ≤ fat.layout.fatBytes) (positive : 0 < size) :
    { addr := pos, len := size } ∈ fatTableWriteTouches pos size fat := by
  have bound := fatBytes_lt fat.layout
  have small : ¬size > fsSsizeMax := by
    unfold fsSsizeMax
    omega
  have start : ¬pos > fat.layout.fatBytes := by omega
  have whole : min size (fat.layout.fatBytes - pos) = size := by omega
  unfold fatTableWriteTouches
  rw [if_neg small, if_neg start]
  dsimp only
  rw [whole, if_neg positive.ne', if_pos (loads_of_buffer present)]
  exact List.mem_append_right _ List.mem_cons_self

theorem mem_tableSetTouches (present : fat.buffer = some buffer)
    (inside : fat.layout.width.pos cluster + fat.layout.width.bytes ≤ fat.layout.fatBytes) :
    { addr := fat.layout.width.pos cluster, len := fat.layout.width.bytes } ∈
      tableSetTouches cluster fat := by
  have member := mem_writeTouches present inside (bytes_pos _)
  unfold tableSetTouches
  dsimp only
  split
  · rw [if_pos ⟨loads_of_buffer present, inside⟩, loaded_of_buffer present]
    exact List.mem_append_right _ member
  · exact member
  · exact member

/-- A test of the length behind a write leaves what the write left. -/
theorem run_bind_test {σ ε : Type} (x : Op σ ε Nat) (length : Nat) (error : ε) (s : σ) :
    ((x >>= fun n => if n ≠ length then Op.fail error else pure ()) s).2 = (x s).2 := by
  rw [Op.run_bind]
  cases x s with
  | mk outcome after =>
      cases outcome with
      | error _ => rfl
      | ok n =>
          show ((if n ≠ length then Op.fail error else pure () : Op σ ε Unit) after).2 = after
          split <;> rfl

/-- `table_set` changes no other bytes than those that it accesses. -/
theorem tableSet_accesses (present : fat.buffer = some buffer)
    (untouched : ¬Accessed (tableSetTouches cluster fat) i) :
    (tableSet cluster value fat).2.view i = buffer i := by
  by_cases inside : fat.layout.width.pos cluster + fat.layout.width.bytes ≤ fat.layout.fatBytes
  · have member := mem_tableSetTouches present inside
    rw [view_of_buffer (tableSet_view (readable_of_buffer present) inside).1,
      view_of_buffer present]
    apply encode_outside
    by_contra here
    refine untouched ⟨_, member, ?_, ?_⟩
    · show fat.layout.width.pos cluster ≤ i
      omega
    · show i < fat.layout.width.pos cluster + fat.layout.width.bytes
      omega
  · have outside := Nat.lt_of_not_le inside
    unfold tableSetTouches at untouched
    unfold tableSet
    rw [Op.run_get_bind]
    cases width : fat.layout.width with
    | fat12 =>
        rw [width] at outside
        have kept : (fat12TableSet cluster value fat).2.view = fat.view :=
          refused_keeps (readable_of_buffer present) outside fun n bytes short => if_pos short
        show (fat12TableSet cluster value fat).2.view i = _
        rw [kept, view_of_buffer present]
    | fat16 =>
        simp only [width] at untouched
        show (wordTableSet 2 cluster value fat).2.view i = _
        unfold wordTableSet
        rw [run_bind_test]
        exact fatTableWrite_accesses present untouched
    | fat32 =>
        simp only [width] at untouched
        show (wordTableSet 4 cluster value fat).2.view i = _
        unfold wordTableSet
        rw [run_bind_test]
        exact fatTableWrite_accesses present untouched

end Writing

section Scanning

variable {p q : Nat → Bool} {steps : List Nat} {step : Nat} {width : Width}
  {buffer other : Memory} {clusterEnd : Nat}

theorem find?_visited (same : ∀ step ∈ visited p steps, q step = p step) :
    steps.find? q = steps.find? p := by
  induction steps with
  | nil => rfl
  | cons first rest inductionHypothesis =>
      unfold visited at same
      cases left : p first with
      | true =>
          rw [if_pos left] at same
          have here := same first List.mem_cons_self
          rw [List.find?_cons_of_pos left, List.find?_cons_of_pos (here.trans left)]
      | false =>
          rw [if_neg (by simp [left])] at same
          have here := same first List.mem_cons_self
          rw [List.find?_cons_of_neg (by simp [here.trans left]),
            List.find?_cons_of_neg (by simp [left])]
          exact inductionHypothesis fun step member => same step (List.mem_cons_of_mem _ member)

theorem mem_visited_of_find? (found : steps.find? p = some step) : step ∈ visited p steps := by
  induction steps with
  | nil => cases found
  | cons first rest inductionHypothesis =>
      unfold visited
      cases left : p first with
      | true =>
          rw [List.find?_cons_of_pos left] at found
          rw [if_pos rfl]
          exact Option.some.inj found ▸ List.mem_singleton_self _
      | false =>
          rw [List.find?_cons_of_neg (by simp [left])] at found
          rw [if_neg (by simp)]
          exact List.mem_cons_of_mem _ (inductionHypothesis found)

theorem leaves_congr
    (same : ∀ i < width.stride,
      other (step * width.stride + i) = buffer (step * width.stride + i)) :
    width.leaves other step = width.leaves buffer step := by
  cases width with
  | fat12 =>
      have first : other (step * 3) = buffer (step * 3) := same 0 (by decide)
      have second : other (step * 3 + 1) = buffer (step * 3 + 1) := same 1 (by decide)
      have third : other (step * 3 + 2) = buffer (step * 3 + 2) := same 2 (by decide)
      simp only [Width.leaves, first, second, third]
  | fat16 =>
      have word : other.word (step * 2) 2 = buffer.word (step * 2) 2 := Memory.word_congr same
      simp only [Width.leaves, word]
  | fat32 =>
      have word : other.word (step * 4) 4 = buffer.word (step * 4) 4 := Memory.word_congr same
      simp only [Width.leaves, word]

/-- What a scan finds depends on the bytes that it looks at. -/
theorem scan_accesses
    (same : ∀ i, Accessed (scanTouches width buffer clusterEnd) i → other i = buffer i) :
    width.scan other clusterEnd = width.scan buffer clusterEnd := by
  have bytes : ∀ step ∈ visited (width.leaves buffer)
      (List.range' width.firstStep (width.stepEnd clusterEnd - width.firstStep)),
      ∀ i < width.stride,
        other (step * width.stride + i) = buffer (step * width.stride + i) := by
    intro step member i lower
    refine same _ ⟨_, List.mem_map_of_mem member, Nat.le_add_right _ _, ?_⟩
    exact Nat.add_lt_add_left lower _
  have found := find?_visited fun step member => leaves_congr (bytes step member)
  cases width with
  | fat12 =>
      show fat12Scan other clusterEnd = fat12Scan buffer clusterEnd
      have here : ∀ step ∈ visited (Width.leaves .fat12 buffer)
          (List.range' 1 ((clusterEnd + 1) / 2 - 1)), other (step * 3) = buffer (step * 3) ∧
            other (step * 3 + 1) = buffer (step * 3 + 1) := fun step member =>
        ⟨bytes step member 0 (by decide), bytes step member 1 (by decide)⟩
      have found : (List.range' 1 ((clusterEnd + 1) / 2 - 1)).find? (Width.leaves .fat12 other) =
          (List.range' 1 ((clusterEnd + 1) / 2 - 1)).find? (Width.leaves .fat12 buffer) := found
      unfold Width.leaves at found
      unfold fat12Scan
      dsimp only
      rw [found]
      cases first : (List.range' 1 ((clusterEnd + 1) / 2 - 1)).find?
          (Width.leaves .fat12 buffer) with
      | none =>
          unfold Width.leaves at first
          rw [first]
      | some step =>
          obtain ⟨low, high⟩ := here step (mem_visited_of_find? first)
          unfold Width.leaves at first
          rw [first]
          simp only [low, high]
  | fat16 => exact found
  | fat32 => exact found

end Scanning

section Allocating

variable {fat fat' : FatTable} {buffer buffer' other : Memory}
  {front sectors left first cluster value i : Nat}

/-- Whether the copies are written does not depend on what is written. -/
theorem writeCopies_outcome (writes : fat'.writes = fat.writes) :
    (writeCopies front sectors buffer' left first fat').1 =
      (writeCopies front sectors buffer left first fat).1 := by
  induction left generalizing first fat fat' with
  | zero => rfl
  | succ left inductionHypothesis =>
      unfold writeCopies
      rw [Op.run_bind, Op.run_bind]
      unfold writeCopy
      rw [writes]
      cases fat.writes.head with
      | none => exact inductionHypothesis rfl
      | some failure => rfl

theorem outcome_bind_pure {σ ε α β : Type} {x : Op σ ε α} {value : β} {s s' : σ}
    (same : (x s').1 = (x s).1) :
    ((x >>= fun _ => pure value) s').1 = ((x >>= fun _ => pure value) s).1 := by
  rw [Op.run_bind, Op.run_bind]
  cases first : x s with
  | mk outcome after =>
      cases second : x s' with
      | mk outcome' after' =>
          rw [first, second] at same
          cases same
          cases outcome <;> rfl

theorem tableSet_outcome (present : fat.buffer = some buffer)
    (inside : fat.layout.width.pos cluster + fat.layout.width.bytes ≤ fat.layout.fatBytes) :
    (tableSet cluster value (fat.withBuffer other)).1 = (tableSet cluster value fat).1 := by
  have set := @tableSet_of_inside (fat.withBuffer other) cluster value (readable_of_buffer rfl)
    inside
  rw [set, tableSet_of_inside (readable_of_buffer present) inside]
  apply writeCopies_outcome
  exact (show fat.loaded.writes = fat.writes from loaded_writes).symm

theorem pos_le_entryEnd (width : Width) :
    width.pos cluster + width.bytes ≤ width.entryEnd cluster := by
  cases width <;> dsimp only [Width.pos, Width.bytes, Width.entryEnd] <;> omega

theorem mem_allocTouches_of_scan {range : Range} (present : fat.buffer = some buffer)
    (member : range ∈ scanTouches fat.layout.width buffer fat.layout.clusterEnd) :
    range ∈ tableAllocTouches fat := by
  unfold tableAllocTouches
  rw [readallTouches_of_buffer present, if_pos (loads_of_buffer present), view_of_buffer present]
  exact List.mem_append_right _ (List.mem_append_left _ member)

theorem mem_allocTouches_of_set {range : Range} (present : fat.buffer = some buffer)
    (scanned : fat.layout.width.scan buffer fat.layout.clusterEnd = some cluster)
    (member : range ∈ tableSetTouches cluster fat) : range ∈ tableAllocTouches fat := by
  unfold tableAllocTouches
  rw [readallTouches_of_buffer present, if_pos (loads_of_buffer present), view_of_buffer present,
    scanned, loaded_of_buffer present]
  exact List.mem_append_right _ (List.mem_append_right _ member)

/-- What `table_alloc` returns depends on the bytes that it accesses, and it changes no others. -/
theorem tableAlloc_accesses (present : fat.buffer = some buffer) :
    (∀ other : Memory, (∀ i, Accessed (tableAllocTouches fat) i → other i = buffer i) →
      (tableAlloc (fat.withBuffer other)).1 = (tableAlloc fat).1) ∧
    ∀ i, ¬Accessed (tableAllocTouches fat) i → (tableAlloc fat).2.view i = buffer i := by
  have alloc := @tableAlloc_of_scan fat (readable_of_buffer present)
  rw [view_of_buffer present, loaded_of_buffer present] at alloc
  refine ⟨fun other same => ?_, fun i untouched => ?_⟩
  · have scanned : (fat.withBuffer other).layout.width.scan other
        (fat.withBuffer other).layout.clusterEnd =
          fat.layout.width.scan buffer fat.layout.clusterEnd := by
      refine scan_accesses fun i ⟨range, member, has⟩ => same i ⟨range, ?_, has⟩
      exact mem_allocTouches_of_scan present member
    have alloc' := @tableAlloc_of_scan (fat.withBuffer other) (readable_of_buffer rfl)
    rw [view_of_buffer rfl, loaded_of_buffer rfl, scanned] at alloc'
    rw [alloc, alloc']
    cases fat.layout.width.scan buffer fat.layout.clusterEnd with
    | none => rfl
    | some cluster =>
        show (if fat.layout.width.entryEnd cluster ≤ fat.layout.fatBytes then _ else _ :
            Except Fault Nat × FatTable).1 =
          (if fat.layout.width.entryEnd cluster ≤ fat.layout.fatBytes then _ else _ :
            Except Fault Nat × FatTable).1
        by_cases bound : fat.layout.width.entryEnd cluster ≤ fat.layout.fatBytes
        · rw [if_pos bound, if_pos bound]
          exact outcome_bind_pure (tableSet_outcome present ((pos_le_entryEnd _).trans bound))
        · rw [if_neg bound, if_neg bound]
  · have kept : fat.view i = buffer i := by rw [view_of_buffer present]
    rw [alloc]
    cases scanned : fat.layout.width.scan buffer fat.layout.clusterEnd with
    | none => exact kept
    | some cluster =>
        dsimp only
        split
        · rw [run_bind_pure]
          apply tableSet_accesses present
          rintro ⟨range, member, has⟩
          exact untouched ⟨range, mem_allocTouches_of_set present scanned member, has⟩
        · exact kept

end Allocating

end Opal.Fat
