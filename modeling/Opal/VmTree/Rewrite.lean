import Opal.VmTree.Boundary

/-!
# Writing a range and normalizing

`write_range_rec` gives every segment inside the range the new entry and keeps
the others, `normalize_rec` only merges neighbours with one entry.  Both results
are coverings: a segment of the old tree lies in a segment of the new one.
-/

namespace Opal.VmTree

open Opal.Library

section Merge

variable {β κ : Type} [DecidableEq κ] (key : β → Option κ)

/-- A cell is another one, or it contains it and has the same key. -/
def Absorbs (d c : Cell Addr β) : Prop :=
  d = c ∨ (c.Inside d ∧ key d.val = key c.val ∧ (key c.val).isSome)

omit [DecidableEq κ] in
theorem Absorbs.trans {d c b : Cell Addr β} (outer : Absorbs key d c)
    (inner : Absorbs key c b) : Absorbs key d b := by
  rcases outer with rfl | ⟨inside, same, keyed⟩
  · exact inner
  · rcases inner with rfl | ⟨inside', same', some⟩
    · exact .inr ⟨inside, same, keyed⟩
    · exact .inr ⟨⟨le_trans inside.1 inside'.1, le_trans inside'.2 inside.2⟩,
        same.trans same', some⟩

theorem mergeNeighbors_same {p : Addr} {s t : β} (ps : List Addr) (ss : List β)
    (same : key s = key t ∧ (key s).isSome) :
    mergeNeighbors key (p :: ps) (s :: t :: ss) = mergeNeighbors key ps (s :: ss) := by
  rw [mergeNeighbors, if_pos same]

theorem mergeNeighbors_differ {p : Addr} {s t : β} (ps : List Addr) (ss : List β)
    (differ : ¬ (key s = key t ∧ (key s).isSome)) :
    mergeNeighbors key (p :: ps) (s :: t :: ss) =
      (p :: (mergeNeighbors key ps (t :: ss)).1, s :: (mergeNeighbors key ps (t :: ss)).2) := by
  rw [mergeNeighbors, if_neg differ]

theorem mergeNeighbors_sublist (ps : List Addr) (ss : List β) :
    (mergeNeighbors key ps ss).1.Sublist ps := by
  fun_induction mergeNeighbors key ps ss with
  | case1 p ps s t ss same ih => exact ih.trans (List.sublist_cons_self _ _)
  | case2 p ps s t ss differ _ ih => exact ih.cons_cons p
  | case3 => exact List.Sublist.refl _

/-- The first cell ends at a point that does not depend on where it starts. -/
theorem exists_cells_eq (hi : Addr) (ps : List Addr) (ss : List β) :
    ∃ q rest, (∀ lo, Increasing lo hi ps → lo < q) ∧
      ∀ lo (s : β), cells lo hi ps (s :: ss) = ⟨lo, q, s⟩ :: rest := by
  cases ps with
  | nil => exact ⟨hi, [], fun _ inc => inc, fun _ _ => rfl⟩
  | cons p ps => exact ⟨p, cells p hi ps ss, fun _ inc => inc.1, fun _ _ => rfl⟩

/-- What a round of merging keeps: pivots stay increasing, every old cell is
absorbed, and a new cell is an old one or keeps the value of a keyed one. -/
theorem mergeNeighbors_spec {lo hi : Addr} {ps : List Addr} {ss : List β}
    (inc : Increasing lo hi ps) (length : ss.length = ps.length + 1) :
    Increasing lo hi (mergeNeighbors key ps ss).1 ∧
      (mergeNeighbors key ps ss).2.length = (mergeNeighbors key ps ss).1.length + 1 ∧
      (∀ c ∈ cells lo hi ps ss,
        ∃ d ∈ cells lo hi (mergeNeighbors key ps ss).1 (mergeNeighbors key ps ss).2,
          Absorbs key d c) ∧
      ∀ d ∈ cells lo hi (mergeNeighbors key ps ss).1 (mergeNeighbors key ps ss).2,
        ∃ c ∈ cells lo hi ps ss, c.val = d.val ∧ (d = c ∨ (key d.val).isSome) := by
  induction ps generalizing lo ss with
  | nil =>
    obtain ⟨s, rfl⟩ := List.length_eq_one_iff.mp length
    exact ⟨inc, rfl, fun c mem => ⟨c, mem, .inl rfl⟩, fun d mem => ⟨d, mem, rfl, .inl rfl⟩⟩
  | cons p ps ih =>
    obtain ⟨s, t, rest, rfl⟩ : ∃ s t rest, ss = s :: t :: rest := by
      match ss, length with
      | s :: t :: rest, _ => exact ⟨s, t, rest, rfl⟩
    by_cases same : key s = key t ∧ (key s).isSome
    · rw [mergeNeighbors_same key ps rest same]
      have incTail : Increasing lo hi ps := by
        cases ps with
        | nil => exact lt_trans inc.1 inc.2
        | cons q qs => exact ⟨lt_trans inc.1 inc.2.1, inc.2.2⟩
      have lengthTail : (s :: rest).length = ps.length + 1 := by simpa using length
      obtain ⟨incNew, lengthNew, forward, backward⟩ := ih incTail lengthTail
      obtain ⟨q, cs, above, shape⟩ := exists_cells_eq hi ps rest
      have pivotBelow := above p inc.2
      rw [shape] at forward backward
      rw [cells_cons, shape]
      refine ⟨incNew, lengthNew, ?_, ?_⟩
      · -- both halves of the merged cell are absorbed by what absorbs the merged cell
        intro c mem
        obtain ⟨d, memD, absorbs⟩ := forward ⟨lo, q, s⟩ (by simp)
        rcases List.mem_cons.mp mem with rfl | tail
        · exact ⟨d, memD, absorbs.trans key
            (.inr ⟨⟨le_refl _, le_of_lt pivotBelow⟩, rfl, same.2⟩)⟩
        rcases List.mem_cons.mp tail with rfl | old
        · exact ⟨d, memD, absorbs.trans key
            (.inr ⟨⟨le_of_lt inc.1, le_refl _⟩, same.1, same.1 ▸ same.2⟩)⟩
        · exact forward c (List.mem_cons_of_mem _ old)
      · intro d mem
        obtain ⟨c, memC, value, kept⟩ := backward d mem
        rcases List.mem_cons.mp memC with rfl | old
        · have keyed : (key d.val).isSome := value ▸ same.2
          exact ⟨⟨lo, p, s⟩, by simp, value, .inr keyed⟩
        · exact ⟨c, by simp [old], value, kept⟩
    · rw [mergeNeighbors_differ key ps rest same]
      have lengthTail : (t :: rest).length = ps.length + 1 := by simpa using length
      obtain ⟨incNew, lengthNew, forward, backward⟩ := ih inc.2 lengthTail
      refine ⟨⟨inc.1, incNew⟩, by simpa using lengthNew, ?_, ?_⟩
      · intro c mem
        rcases List.mem_cons.mp mem with rfl | tail
        · exact ⟨_, by simp, .inl rfl⟩
        · obtain ⟨d, memD, absorbs⟩ := forward c tail
          exact ⟨d, List.mem_cons_of_mem _ memD, absorbs⟩
      · intro d mem
        rcases List.mem_cons.mp mem with rfl | tail
        · exact ⟨_, by simp, rfl, .inl rfl⟩
        · obtain ⟨c, memC, absorbs⟩ := backward d tail
          exact ⟨c, List.mem_cons_of_mem _ memC, absorbs⟩

end Merge

section Leaf

theorem mergeLeafNeighbors_spec {pivots : List Addr} {slots : List Entry} {lo hi : Addr}
    (filled : Filled pivots) (inc : Increasing lo hi (usedPivots pivots))
    (length : slots.length = pivotCount pivots + 1) (top : hi ≤ uintptrMax) :
    Wf (mergeLeafNeighbors pivots slots) lo hi ∧
      CoveredBy Cell.val (cells lo hi (usedPivots pivots) slots)
        (segments (mergeLeafNeighbors pivots slots) lo hi) := by
  obtain ⟨incNew, lengthNew, forward, -⟩ := mergeNeighbors_spec some inc length
  have small := Increasing.lt_max incNew top
  have used := usedPivots_fill small
  have bound := le_trans (mergeNeighbors_sublist some (usedPivots pivots) slots).length_le
    filled.bound
  constructor
  · refine .leaf (filled_fill small bound) ?_ ?_
    · rw [used]
      exact incNew
    · rw [pivotCount, used]
      exact lengthNew
  · intro c mem
    rw [mergeLeafNeighbors, segments_leaf, used]
    obtain ⟨d, memD, absorbs⟩ := forward c mem
    refine ⟨d, memD, ?_⟩
    rcases absorbs with rfl | ⟨inside, same, -⟩
    · exact ⟨⟨le_refl _, le_refl _⟩, rfl⟩
    · exact ⟨inside, Option.some.inj same⟩

end Leaf

section Write

/-- The entry a segment has after `[start, stop)` got `entry`. -/
def rewritten (start stop : Addr) (entry : Entry) (seg : Segment) : Entry :=
  if Apart start stop seg.lo seg.hi then seg.val else entry

theorem writeRangeSlots_eq (start stop : Addr) (entry : Entry) {slots : List Node}
    {ps : List Addr} {lo hi : Addr} (length : slots.length = ps.length + 1) :
    writeRangeSlots start stop entry slots ps lo hi =
      (cells lo hi ps slots).map fun c =>
        if Apart start stop c.lo c.hi then c.val
        else writeRangeRec start stop entry c.val c.lo c.hi := by
  induction ps generalizing lo slots with
  | nil =>
    obtain ⟨s, rfl⟩ := List.length_eq_one_iff.mp length
    simp [writeRangeSlots]
  | cons p ps ih =>
    cases slots with
    | nil => simp at length
    | cons s ss =>
      have tail : ss.length = ps.length + 1 := by simpa using length
      simp only [writeRangeSlots, ih tail, cells_cons, List.map_cons]

/-- A node apart from the range keeps its segments. -/
theorem Wf.coveredBy_of_apart {node : Node} {lo hi start stop : Addr} (wf : Wf node lo hi)
    (apart : Apart start stop lo hi) (entry : Entry) :
    CoveredBy (rewritten start stop entry) (segments node lo hi) (segments node lo hi) := by
  intro seg mem
  obtain ⟨low, -, high⟩ := wf.tiles.mem_bounds mem
  exact ⟨seg, mem, ⟨le_refl _, le_refl _⟩, by rw [rewritten, if_pos (apart.mono low high)]⟩

/-- A node inside the range becomes one segment with the new entry. -/
theorem Wf.coveredBy_uniform {node : Node} {lo hi start stop : Addr} (wf : Wf node lo hi)
    (inside : start ≤ lo ∧ hi ≤ stop) (entry : Entry) :
    CoveredBy (rewritten start stop entry) (segments node lo hi)
      (segments (setSubtreeUniform entry) lo hi) := by
  intro seg mem
  obtain ⟨low, inner, high⟩ := wf.tiles.mem_bounds mem
  have meets : ¬ Apart start stop seg.lo seg.hi := by
    rintro (left | right)
    · exact absurd (lt_of_lt_of_le inner (le_trans high inside.2)) (not_lt.mpr left)
    · exact absurd (lt_of_le_of_lt (le_trans inside.1 low) inner) (not_lt.mpr right)
  refine ⟨⟨lo, hi, entry⟩, by simp [setSubtreeUniform], ⟨low, high⟩, ?_⟩
  rw [rewritten, if_neg meets]

theorem Wf.writeRangeRec_spec {node : Node} {lo hi : Addr} (wf : Wf node lo hi)
    (top : hi ≤ uintptrMax) (start stop : Addr) (entry : Entry) :
    Wf (writeRangeRec start stop entry node lo hi) lo hi ∧
      CoveredBy (rewritten start stop entry) (segments node lo hi)
        (segments (writeRangeRec start stop entry node lo hi) lo hi) := by
  induction wf with
  | @leaf pivots slots lo hi filled inc length =>
    have wf : Wf (.leaf pivots slots) lo hi := .leaf filled inc length
    rw [writeRangeRec]
    split
    · rename_i apart
      exact ⟨wf, wf.coveredBy_of_apart apart entry⟩
    split
    · rename_i inside
      exact ⟨wf_uniformLeaf entry inc.lt, wf.coveredBy_uniform inside entry⟩
    · have lengthNew : ((cells lo hi (usedPivots pivots) slots).map
          (rewritten start stop entry)).length = pivotCount pivots + 1 := by
        rw [List.length_map, length_cells length, length]
      obtain ⟨wfNew, covered⟩ := mergeLeafNeighbors_spec filled inc lengthNew top
      refine ⟨wfNew, ?_⟩
      intro seg mem
      rw [segments_leaf] at mem
      rw [cells_map_cells _ length] at covered
      exact covered ⟨seg.lo, seg.hi, rewritten start stop entry seg⟩
        (List.mem_map.mpr ⟨seg, mem, rfl⟩)
  | @internal pivots slots lo hi filled inc length wfs ih =>
    have wf : Wf (.internal pivots slots) lo hi := .internal filled inc length wfs
    rw [writeRangeRec]
    split
    · rename_i apart
      exact ⟨wf, wf.coveredBy_of_apart apart entry⟩
    split
    · rename_i inside
      exact ⟨wf_uniformLeaf entry inc.lt, wf.coveredBy_uniform inside entry⟩
    · have child (c : Cell Addr Node) (mem : c ∈ cells lo hi (usedPivots pivots) slots) :
          Wf (if Apart start stop c.lo c.hi then c.val
            else writeRangeRec start stop entry c.val c.lo c.hi) c.lo c.hi ∧
          CoveredBy (rewritten start stop entry) (segments c.val c.lo c.hi)
            (segments (if Apart start stop c.lo c.hi then c.val
              else writeRangeRec start stop entry c.val c.lo c.hi) c.lo c.hi) := by
        split
        · rename_i apart
          exact ⟨wfs c mem, (wfs c mem).coveredBy_of_apart apart entry⟩
        · exact ih c mem (le_trans ((tiles_cells inc length).mem_bounds mem).2.2 top)
      rw [writeRangeSlots_eq start stop entry length]
      constructor
      · refine .internal filled inc (by rw [List.length_map, length_cells length, length]) ?_
        intro d memD
        rw [cells_map_cells _ length, List.mem_map] at memD
        obtain ⟨c, mem, rfl⟩ := memD
        exact (child c mem).1
      · intro seg memSeg
        obtain ⟨c, mem, inside⟩ := mem_segments_internal.mp memSeg
        obtain ⟨d, memD, covers⟩ := (child c mem).2 seg inside
        refine ⟨d, mem_segments_internal.mpr ?_, covers⟩
        rw [cells_map_cells _ length]
        exact ⟨_, List.mem_map.mpr ⟨c, mem, rfl⟩, memD⟩

end Write

section Normalize

theorem normalizeSlots_eq (slots : List Node) : normalizeSlots slots = slots.map normalizeRec := by
  induction slots with
  | nil => rfl
  | cons s ss ih => rw [normalizeSlots, ih, List.map_cons]

/-- A uniform leaf is well-formed for every range. -/
theorem Wf.of_uniform {node : Node} {lo hi lo' hi' : Addr} (wf : Wf node lo hi)
    (uniform : (childIsUniform node).isSome) (nonempty : lo' < hi') : Wf node lo' hi' := by
  cases wf with
  | internal _ _ _ _ => simp [childIsUniform] at uniform
  | @leaf pivots slots _ _ filled _ length =>
    simp only [childIsUniform] at uniform
    split at uniform
    · rename_i none
      refine .leaf filled ?_ length
      rw [List.length_eq_zero_iff.mp none]
      exact nonempty
    · simp at uniform

/-- The node `normalize_rec` has after merging children, before it may collapse. -/
def mergedNode (pivots : List Addr) (slots : List Node) : Node :=
  .internal
    (fillUnusedPivots (mergeNeighbors childIsUniform (usedPivots pivots) slots).1
      (mergeNeighbors childIsUniform (usedPivots pivots) slots).1.length)
    (mergeNeighbors childIsUniform (usedPivots pivots) slots).2

theorem normalizeChildren_cases (pivots : List Addr) (slots : List Node) :
    normalizeChildren pivots slots = mergedNode pivots slots ∨
      ∃ entry, (mergeNeighbors childIsUniform (usedPivots pivots) slots).1 = [] ∧
        (mergeNeighbors childIsUniform (usedPivots pivots) slots).2.head?.bind childIsUniform =
          some entry ∧
        normalizeChildren pivots slots = collapseToLeaf entry := by
  simp only [normalizeChildren]
  split
  · rename_i single
    split
    · rename_i entry uniform
      exact .inr ⟨entry, List.length_eq_zero_iff.mp single, uniform, rfl⟩
    · exact .inl rfl
  · exact .inl rfl

section MergedNode

variable {pivots : List Addr} {slots : List Node} {lo hi : Addr}

theorem usedPivots_mergedNode (wf : Wf (.internal pivots slots) lo hi) (top : hi ≤ uintptrMax) :
    usedPivots (fillUnusedPivots (mergeNeighbors childIsUniform (usedPivots pivots) slots).1
      (mergeNeighbors childIsUniform (usedPivots pivots) slots).1.length) =
      (mergeNeighbors childIsUniform (usedPivots pivots) slots).1 := by
  cases wf with
  | internal _ inc length _ =>
    exact usedPivots_fill (Increasing.lt_max (mergeNeighbors_spec childIsUniform inc length).1 top)

theorem Wf.of_mem_merged (wf : Wf (.internal pivots slots) lo hi) {d : Cell Addr Node}
    (mem : d ∈ cells lo hi (mergeNeighbors childIsUniform (usedPivots pivots) slots).1
      (mergeNeighbors childIsUniform (usedPivots pivots) slots).2) : Wf d.val d.lo d.hi := by
  cases wf with
  | internal _ inc length wfs =>
    obtain ⟨incNew, lengthNew, -, backward⟩ := mergeNeighbors_spec childIsUniform inc length
    obtain ⟨c, memC, value, rfl | keyed⟩ := backward d mem
    · exact wfs _ memC
    · exact value ▸ (wfs c memC).of_uniform (value ▸ keyed)
        ((tiles_cells incNew lengthNew).mem_bounds mem).2.1

/-- Merging uniform children keeps the node well-formed and every segment covered. -/
theorem Wf.mergedNode_spec (wf : Wf (.internal pivots slots) lo hi) (top : hi ≤ uintptrMax) :
    Wf (mergedNode pivots slots) lo hi ∧
      CoveredBy Cell.val (segments (.internal pivots slots) lo hi)
        (segments (mergedNode pivots slots) lo hi) := by
  have used := usedPivots_mergedNode wf top
  have wfMerged := @wf.of_mem_merged
  cases wf with
  | internal filled inc length wfs =>
    obtain ⟨incNew, lengthNew, forward, -⟩ := mergeNeighbors_spec childIsUniform inc length
    have bound := le_trans (mergeNeighbors_sublist childIsUniform (usedPivots pivots)
      slots).length_le filled.bound
    constructor
    · refine .internal (filled_fill (Increasing.lt_max incNew top) bound) ?_ ?_ ?_
      · rw [used]
        exact incNew
      · rw [pivotCount, used]
        exact lengthNew
      · rw [used]
        exact fun d mem => wfMerged mem
    · intro seg memSeg
      obtain ⟨c, mem, inside⟩ := mem_segments_internal.mp memSeg
      obtain ⟨d, memD, absorbs⟩ := forward c mem
      have lift (e : Segment) (memE : e ∈ segments d.val d.lo d.hi) :
          e ∈ segments (mergedNode pivots slots) lo hi := by
        rw [mergedNode, mem_segments_internal, used]
        exact ⟨d, memD, memE⟩
      rcases absorbs with rfl | ⟨within, same, keyed⟩
      · exact ⟨seg, lift seg inside, ⟨le_refl _, le_refl _⟩, rfl⟩
      · obtain ⟨entry, uniform⟩ := Option.isSome_iff_exists.mp keyed
        rw [(wfs c mem).segments_of_uniform uniform, List.mem_singleton] at inside
        refine ⟨⟨d.lo, d.hi, entry⟩, lift _ ?_, inside ▸ within, inside ▸ rfl⟩
        rw [(wfMerged memD).segments_of_uniform (same.trans uniform)]
        exact List.mem_singleton.mpr rfl

theorem Wf.normalizeChildren_spec (wf : Wf (.internal pivots slots) lo hi)
    (top : hi ≤ uintptrMax) :
    Wf (normalizeChildren pivots slots) lo hi ∧
      CoveredBy Cell.val (segments (.internal pivots slots) lo hi)
        (segments (normalizeChildren pivots slots) lo hi) := by
  obtain ⟨wfNode, covered⟩ := wf.mergedNode_spec top
  have wfMerged := @wf.of_mem_merged
  have used := usedPivots_mergedNode wf top
  rcases normalizeChildren_cases pivots slots with eq | ⟨entry, empty, uniform, eq⟩
  · rw [eq]
    exact ⟨wfNode, covered⟩
  · -- one uniform child is left and covers everything
    rw [eq]
    refine ⟨wf_uniformLeaf entry wf.lt, covered.trans ?_⟩
    obtain ⟨child, head, childUniform⟩ := Option.bind_eq_some_iff.mp uniform
    obtain ⟨rest, shape⟩ := List.head?_eq_some_iff.mp head
    rw [empty, shape, cells_last] at wfMerged
    intro seg memSeg
    rw [mergedNode, mem_segments_internal, used, empty, shape, cells_last] at memSeg
    obtain ⟨d, memD, inside⟩ := memSeg
    rw [List.mem_singleton] at memD
    subst memD
    rw [(wfMerged (List.mem_singleton.mpr rfl)).segments_of_uniform childUniform] at inside
    exact ⟨seg, by simpa [collapseToLeaf] using inside, ⟨le_refl _, le_refl _⟩, rfl⟩

end MergedNode

theorem wf_map_slots {f : Node → Node} {pivots : List Addr} {slots : List Node} {lo hi : Addr}
    (filled : Filled pivots) (inc : Increasing lo hi (usedPivots pivots))
    (length : slots.length = pivotCount pivots + 1)
    (child : ∀ c ∈ cells lo hi (usedPivots pivots) slots, Wf (f c.val) c.lo c.hi) :
    Wf (.internal pivots (slots.map f)) lo hi := by
  refine .internal filled inc (by simpa using length) ?_
  intro d memD
  rw [cells_map, List.mem_map] at memD
  obtain ⟨c, mem, rfl⟩ := memD
  exact child c mem

theorem Wf.normalizeRec_spec {node : Node} {lo hi : Addr} (wf : Wf node lo hi)
    (top : hi ≤ uintptrMax) :
    Wf (normalizeRec node) lo hi ∧
      CoveredBy Cell.val (segments node lo hi) (segments (normalizeRec node) lo hi) := by
  induction wf with
  | leaf filled inc length =>
    rw [normalizeRec, segments_leaf]
    exact mergeLeafNeighbors_spec filled inc length top
  | @internal pivots slots lo hi filled inc length wfs ih =>
    have child (c : Cell Addr Node) (mem : c ∈ cells lo hi (usedPivots pivots) slots) :=
      ih c mem (le_trans ((tiles_cells inc length).mem_bounds mem).2.2 top)
    have wfNormal : Wf (.internal pivots (slots.map normalizeRec)) lo hi :=
      wf_map_slots filled inc length fun c mem => (child c mem).1
    have covered : CoveredBy Cell.val (segments (.internal pivots slots) lo hi)
        (segments (.internal pivots (slots.map normalizeRec)) lo hi) := by
      intro seg memSeg
      obtain ⟨c, mem, inside⟩ := mem_segments_internal.mp memSeg
      obtain ⟨d, memD, covers⟩ := (child c mem).2 seg inside
      refine ⟨d, mem_segments_internal.mpr ?_, covers⟩
      rw [cells_map]
      exact ⟨_, List.mem_map.mpr ⟨c, mem, rfl⟩, memD⟩
    rw [normalizeRec, normalizeSlots_eq]
    obtain ⟨wfNew, coveredNew⟩ := wfNormal.normalizeChildren_spec top
    exact ⟨wfNew, covered.trans coveredNew⟩

theorem Wf.normalizeSlots_wf {pivots : List Addr} {slots : List Node} {lo hi : Addr}
    (wf : Wf (.internal pivots slots) lo hi) (top : hi ≤ uintptrMax) :
    Wf (.internal pivots (slots.map normalizeRec)) lo hi := by
  cases wf with
  | internal filled inc length wfs =>
    exact wf_map_slots filled inc length fun c mem => ((wfs c mem).normalizeRec_spec
      (le_trans ((tiles_cells inc length).mem_bounds mem).2.2 top)).1

end Normalize

end Opal.VmTree
