import Opal.VmTree.Operations

/-!
# Well-formed nodes and the segments they denote

A node denotes the list of its leaf slots in address order.  For a well-formed
node this list tiles the range of the node, so everything an operation does to
the mapping can be said cell by cell, and the shape of the tree does not matter.
-/

namespace Opal.VmTree

open Opal.Library

/-- The encoding of the pivot array: the unused tail holds `UINTPTR_MAX`. -/
structure Filled (pivots : List Addr) : Prop where
  eq : pivots = fillUnusedPivots (usedPivots pivots) (pivotCount pivots)
  bound : pivotCount pivots ≤ nodeSlots - 1

inductive Wf : Node → Addr → Addr → Prop
  | leaf {pivots slots lo hi} : Filled pivots → Increasing lo hi (usedPivots pivots) →
      slots.length = pivotCount pivots + 1 → Wf (.leaf pivots slots) lo hi
  | internal {pivots slots lo hi} : Filled pivots → Increasing lo hi (usedPivots pivots) →
      slots.length = pivotCount pivots + 1 →
      (∀ c ∈ cells lo hi (usedPivots pivots) slots, Wf c.val c.lo c.hi) →
      Wf (.internal pivots slots) lo hi

mutual

/-- The leaf slots below a node with their ranges, from left to right. -/
def segments : Node → Addr → Addr → List Segment
  | .leaf pivots slots, lo, hi => cells lo hi (usedPivots pivots) slots
  | .internal pivots slots, lo, hi => segmentsSlots slots (usedPivots pivots) lo hi

def segmentsSlots : List Node → List Addr → Addr → Addr → List Segment
  | [], _, _, _ => []
  | s :: _, [], lo, hi => segments s lo hi
  | s :: ss, p :: ps, lo, hi => segments s lo p ++ segmentsSlots ss ps p hi

end

section Pivots

theorem fillUnusedPivots_self (used : List Addr) :
    fillUnusedPivots used used.length =
      used ++ List.replicate (nodeSlots - 1 - used.length) uintptrMax := by
  simp [fillUnusedPivots]

theorem usedPivots_fill {used : List Addr} (small : ∀ p ∈ used, p < uintptrMax) :
    usedPivots (fillUnusedPivots used used.length) = used := by
  rw [fillUnusedPivots_self, usedPivots, List.takeWhile_append_of_pos]
  · cases nodeSlots - 1 - used.length <;> simp [List.replicate_succ]
  · intro p mem
    simpa using Nat.ne_of_lt (small p mem)

theorem filled_fill {used : List Addr} (small : ∀ p ∈ used, p < uintptrMax)
    (bound : used.length ≤ nodeSlots - 1) : Filled (fillUnusedPivots used used.length) := by
  constructor
  · rw [pivotCount, usedPivots_fill small]
  · rw [pivotCount, usedPivots_fill small]
    exact bound

theorem Increasing.lt_max {lo hi : Addr} {ps : List Addr} (inc : Increasing lo hi ps)
    (top : hi ≤ uintptrMax) : ∀ p ∈ ps, p < uintptrMax :=
  fun _ mem => lt_of_lt_of_le (inc.mem_bounds mem).2 top

theorem Filled.eq_append {pivots : List Addr} (filled : Filled pivots) :
    pivots = usedPivots pivots ++
      List.replicate (nodeSlots - 1 - pivotCount pivots) uintptrMax := by
  have eq := filled.eq
  rwa [pivotCount, fillUnusedPivots_self] at eq

theorem Filled.nodeIsFull_iff {pivots : List Addr} (filled : Filled pivots) :
    nodeIsFull pivots = true ↔ pivotCount pivots = nodeSlots - 1 := by
  have bound := filled.bound
  constructor
  · intro full
    by_contra notFull
    have last : pivots[nodeSlots - 2]? = some uintptrMax := by
      rw [filled.eq_append, List.getElem?_append_right]
      · rw [List.getElem?_replicate_of_lt]
        simp only [pivotCount, nodeSlots] at *
        omega
      · simp only [pivotCount, nodeSlots] at *
        omega
    simp [nodeIsFull, last] at full
  · intro count
    have inRange : nodeSlots - 2 < (usedPivots pivots).length := by
      simp only [pivotCount, nodeSlots] at *
      omega
    have last : pivots[nodeSlots - 2]? = some (usedPivots pivots)[nodeSlots - 2] := by
      conv_lhs => rw [filled.eq_append, List.getElem?_append_left inRange]
      exact List.getElem?_eq_getElem inRange
    have small : (usedPivots pivots)[nodeSlots - 2] ≠ uintptrMax := by
      have := List.mem_takeWhile_imp (List.getElem_mem inRange)
      simpa using this
    simpa [nodeIsFull, last] using small

end Pivots

section Segments

theorem segmentsSlots_eq (slots : List Node) (ps : List Addr) (lo hi : Addr) :
    segmentsSlots slots ps lo hi =
      (cells lo hi ps slots).flatMap fun c => segments c.val c.lo c.hi := by
  induction slots generalizing ps lo with
  | nil => simp [segmentsSlots]
  | cons s ss ih =>
    cases ps with
    | nil => simp [segmentsSlots]
    | cons p ps => simp [segmentsSlots, ih]

@[simp] theorem segments_leaf (pivots : List Addr) (slots : List Entry) (lo hi : Addr) :
    segments (.leaf pivots slots) lo hi = cells lo hi (usedPivots pivots) slots := by
  rw [segments]

theorem segments_internal (pivots : List Addr) (slots : List Node) (lo hi : Addr) :
    segments (.internal pivots slots) lo hi =
      (cells lo hi (usedPivots pivots) slots).flatMap fun c => segments c.val c.lo c.hi := by
  rw [segments, segmentsSlots_eq]

theorem mem_segments_internal {pivots : List Addr} {slots : List Node} {lo hi : Addr}
    {seg : Segment} : seg ∈ segments (.internal pivots slots) lo hi ↔
      ∃ c ∈ cells lo hi (usedPivots pivots) slots, seg ∈ segments c.val c.lo c.hi := by
  rw [segments_internal, List.mem_flatMap]

theorem Wf.lt {node : Node} {lo hi : Addr} (wf : Wf node lo hi) : lo < hi := by
  cases wf with
  | leaf _ inc _ => exact inc.lt
  | internal _ inc _ _ => exact inc.lt

/-- The segments of a well-formed node tile its range. -/
theorem Wf.tiles {node : Node} {lo hi : Addr} (wf : Wf node lo hi) :
    Tiles lo hi (segments node lo hi) := by
  induction wf with
  | leaf _ inc length =>
    rw [segments_leaf]
    exact tiles_cells inc length
  | internal _ inc length _ ih =>
    rw [segments_internal]
    exact (tiles_cells inc length).flatMap ih

theorem usedPivots_uniformLeaf : usedPivots (fillUnusedPivots [] 0) = [] :=
  @usedPivots_fill [] (by simp)

@[simp] theorem segments_uniformLeaf (entry : Entry) (lo hi : Addr) :
    segments (uniformLeaf entry) lo hi = [⟨lo, hi, entry⟩] := by
  rw [uniformLeaf, segments_leaf, usedPivots_uniformLeaf, cells_last]

theorem wf_uniformLeaf {lo hi : Addr} (entry : Entry) (nonempty : lo < hi) :
    Wf (uniformLeaf entry) lo hi := by
  refine .leaf (@filled_fill [] (by simp) (by simp)) ?_ ?_
  · rw [usedPivots_uniformLeaf]
    exact nonempty
  · rw [pivotCount, usedPivots_uniformLeaf]
    rfl

/-- A node that counts as uniform denotes a single segment. -/
theorem Wf.segments_of_uniform {node : Node} {lo hi : Addr} (wf : Wf node lo hi)
    {entry : Entry} (uniform : childIsUniform node = some entry) :
    segments node lo hi = [⟨lo, hi, entry⟩] := by
  cases wf with
  | internal _ _ _ _ => simp [childIsUniform] at uniform
  | @leaf pivots slots _ _ _ _ length =>
    simp only [childIsUniform] at uniform
    split at uniform
    · rename_i none
      rw [none] at length
      obtain ⟨s, rfl⟩ := List.length_eq_one_iff.mp length
      have empty : usedPivots pivots = [] := List.length_eq_zero_iff.mp none
      obtain rfl : s = entry := by simpa using uniform
      rw [segments_leaf, empty, cells_last]
    · simp at uniform

end Segments

end Opal.VmTree
