import Opal.VmTree.WellFormed

/-!
# Reading a vmtree

`vmtree_get` returns the segment around an address, and the searches for holes
and for mapped addresses test exactly the segments that meet the range.
-/

namespace Opal.VmTree

open Opal.Library

section Get

theorem getLeaf_mem {addr : Addr} {slots : List Entry} {ps : List Addr} {lo hi : Addr}
    (inc : Increasing lo hi ps) (length : slots.length = ps.length + 1)
    (low : lo ≤ addr) (high : addr < hi) :
    getLeaf addr slots ps lo hi ∈ cells lo hi ps slots ∧
      (getLeaf addr slots ps lo hi).Has addr := by
  induction ps generalizing lo slots with
  | nil =>
    obtain ⟨s, rfl⟩ := List.length_eq_one_iff.mp length
    exact ⟨by simp [getLeaf], low, high⟩
  | cons p ps ih =>
    cases slots with
    | nil => simp at length
    | cons s ss =>
      simp only [getLeaf]
      split
      · rename_i below
        exact ⟨by simp, low, below⟩
      · rename_i above
        obtain ⟨mem, has⟩ := ih inc.2 (by simpa using length) (not_lt.mp above)
        exact ⟨List.mem_cons_of_mem _ mem, has⟩

theorem getSlots_eq {addr : Addr} {slots : List Node} {ps : List Addr} {lo hi : Addr}
    (inc : Increasing lo hi ps) (length : slots.length = ps.length + 1)
    (low : lo ≤ addr) (high : addr < hi) :
    ∃ c ∈ cells lo hi ps slots, c.Has addr ∧
      getSlots addr slots ps lo hi = getRec addr c.val c.lo c.hi := by
  induction ps generalizing lo slots with
  | nil =>
    obtain ⟨s, rfl⟩ := List.length_eq_one_iff.mp length
    exact ⟨⟨lo, hi, s⟩, by simp, ⟨low, high⟩, by simp [getSlots]⟩
  | cons p ps ih =>
    cases slots with
    | nil => simp at length
    | cons s ss =>
      by_cases below : addr < p
      · exact ⟨⟨lo, p, s⟩, by simp, ⟨low, below⟩, by simp [getSlots, below]⟩
      · obtain ⟨c, mem, has, eq⟩ := ih inc.2 (by simpa using length) (not_lt.mp below)
        exact ⟨c, List.mem_cons_of_mem _ mem, has, by simp [getSlots, below, eq]⟩

theorem Wf.getRec_mem {node : Node} {lo hi addr : Addr} (wf : Wf node lo hi)
    (low : lo ≤ addr) (high : addr < hi) :
    getRec addr node lo hi ∈ segments node lo hi ∧ (getRec addr node lo hi).Has addr := by
  induction wf with
  | leaf _ inc length =>
    simp only [getRec, segments_leaf]
    exact getLeaf_mem inc length low high
  | @internal pivots slots lo hi _ inc length _ ih =>
    obtain ⟨c, mem, has, eq⟩ := getSlots_eq inc length low high
    simp only [getRec, eq]
    obtain ⟨found, inside⟩ := ih c mem has.1 has.2
    exact ⟨mem_segments_internal.mpr ⟨c, mem, found⟩, inside⟩

/-- The entry `vmtree_get` reports is the value of the address in the tiling. -/
theorem Wf.vmtreeGet_spec {root : Node} {addr : Addr} (wf : Wf root 0 uintptrMax)
    (below : addr < uintptrMax) :
    vmtreeGet root addr ∈ segments root 0 uintptrMax ∧ (vmtreeGet root addr).Has addr := by
  rw [vmtreeGet, if_neg (Nat.ne_of_lt below)]
  exact wf.getRec_mem (Nat.zero_le _) below

theorem Wf.vmtreeGet_eq_of_has {root : Node} {addr : Addr} (wf : Wf root 0 uintptrMax)
    {seg : Segment} (mem : seg ∈ segments root 0 uintptrMax) (has : seg.Has addr) :
    vmtreeGet root addr = seg := by
  have below : addr < uintptrMax := lt_of_lt_of_le has.2 (wf.tiles.mem_bounds mem).2.2
  obtain ⟨found, inside⟩ := wf.vmtreeGet_spec below
  exact wf.tiles.eq_of_has found mem inside has

end Get

section Search

theorem anyEntrySlots_eq (test : Entry → Bool) (start stop : Addr) (slots : List Node)
    (ps : List Addr) (lo hi : Addr) :
    anyEntrySlots test start stop slots ps lo hi =
      (cells lo hi ps slots).any fun c =>
        !decide (Apart start stop c.lo c.hi) && anyEntryRec test start stop c.val c.lo c.hi := by
  induction slots generalizing ps lo with
  | nil => simp [anyEntrySlots]
  | cons s ss ih =>
    cases ps with
    | nil => simp [anyEntrySlots]
    | cons p ps => simp only [anyEntrySlots, ih, cells_cons, List.any_cons]

/-- A part of a range apart from `[start, stop)` is apart from it. -/
theorem Apart.mono {start stop lo hi lo' hi' : Addr} (apart : Apart start stop lo hi)
    (low : lo ≤ lo') (high : hi' ≤ hi) : Apart start stop lo' hi' := by
  rcases apart with left | right
  · exact .inl (le_trans left low)
  · exact .inr (le_trans high right)

theorem Wf.anyEntryRec_iff {node : Node} {lo hi : Addr} (wf : Wf node lo hi)
    (test : Entry → Bool) (start stop : Addr) :
    anyEntryRec test start stop node lo hi = true ↔
      ∃ seg ∈ segments node lo hi, ¬ Apart start stop seg.lo seg.hi ∧ test seg.val = true := by
  have outside {node : Node} {lo hi : Addr} (wf : Wf node lo hi)
      (apart : Apart start stop lo hi) :
      ¬ ∃ seg ∈ segments node lo hi, ¬ Apart start stop seg.lo seg.hi ∧ test seg.val = true := by
    rintro ⟨seg, mem, meets, -⟩
    obtain ⟨low, -, high⟩ := wf.tiles.mem_bounds mem
    exact meets (apart.mono low high)
  induction wf with
  | @leaf pivots slots lo hi filled inc length =>
    rw [anyEntryRec]
    split
    · rename_i apart
      simpa using outside (.leaf filled inc length) apart
    · simp only [List.any_eq_true, Bool.and_eq_true, Bool.not_eq_true', decide_eq_false_iff_not,
        segments_leaf]
  | @internal pivots slots lo hi filled inc length wfs ih =>
    rw [anyEntryRec]
    split
    · rename_i apart
      simpa using outside (.internal filled inc length wfs) apart
    · rw [anyEntrySlots_eq]
      simp only [List.any_eq_true, Bool.and_eq_true, Bool.not_eq_true', decide_eq_false_iff_not]
      constructor
      · rintro ⟨c, mem, -, found⟩
        obtain ⟨seg, memSeg, meets, passed⟩ := (ih c mem).mp found
        exact ⟨seg, mem_segments_internal.mpr ⟨c, mem, memSeg⟩, meets, passed⟩
      · rintro ⟨seg, memSeg, meets, passed⟩
        obtain ⟨c, mem, inChild⟩ := mem_segments_internal.mp memSeg
        obtain ⟨low, -, high⟩ := (wfs c mem).tiles.mem_bounds inChild
        exact ⟨c, mem, fun apart => meets (apart.mono low high),
          (ih c mem).mpr ⟨seg, inChild, meets, passed⟩⟩

/-- Searching a range for an entry that passes a test is searching its addresses. -/
theorem Wf.anyEntry_root_iff {root : Node} (wf : Wf root 0 uintptrMax) (test : Entry → Bool)
    {start stop : Addr} (nonempty : start < stop) (top : stop ≤ uintptrMax) :
    anyEntryRec test start stop root 0 uintptrMax = true ↔
      ∃ addr, start ≤ addr ∧ addr < stop ∧ test (vmtreeGet root addr).val = true := by
  rw [wf.anyEntryRec_iff]
  constructor
  · rintro ⟨seg, mem, meets, passed⟩
    obtain ⟨-, inner, -⟩ := wf.tiles.mem_bounds mem
    have meetsLeft : seg.lo < stop := not_le.mp fun le => meets (.inl le)
    have meetsRight : start < seg.hi := not_le.mp fun le => meets (.inr le)
    refine ⟨max seg.lo start, le_max_right _ _, max_lt meetsLeft nonempty, ?_⟩
    rwa [wf.vmtreeGet_eq_of_has mem ⟨le_max_left _ _, max_lt inner meetsRight⟩]
  · rintro ⟨addr, low, high, passed⟩
    obtain ⟨mem, has⟩ := wf.vmtreeGet_spec (lt_of_lt_of_le high top)
    refine ⟨_, mem, ?_, passed⟩
    rintro (left | right)
    · exact absurd has.1 (not_le.mpr (lt_of_lt_of_le high left))
    · exact absurd has.2 (not_lt.mpr (le_trans right low))

end Search

end Opal.VmTree
