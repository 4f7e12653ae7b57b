import Opal.VmTree.Fork
import Opal.VmTree.IntervalMap

/-!
# Maximal ranges and iteration

After a write the tree is normalized from the bottom up.  A pivot of an internal
node survives unless both children around it became uniform with one entry, so
the ranges of the tree are maximal as long as no fork has equal entries on its
two sides while one of its children is not constant.
-/

namespace Opal.VmTree

open Opal.Library

section Merge

variable {β κ : Type} [DecidableEq κ] (key : β → Option κ)

/-- A pivot that survives merging lay between old cells that may not be merged. -/
theorem mergeNeighbors_seam {lo hi : Addr} {ps : List Addr} {ss : List β}
    (inc : Increasing lo hi ps) (length : ss.length = ps.length + 1)
    {c' d' : Cell Addr β}
    (memC : c' ∈ cells lo hi (mergeNeighbors key ps ss).1 (mergeNeighbors key ps ss).2)
    (memD : d' ∈ cells lo hi (mergeNeighbors key ps ss).1 (mergeNeighbors key ps ss).2)
    (meet : c'.hi = d'.lo) :
    ∃ c ∈ cells lo hi ps ss, ∃ d ∈ cells lo hi ps ss, c.hi = d.lo ∧ d.lo = d'.lo ∧
      Absorbs key c' c ∧ Absorbs key d' d ∧ ¬ (key c.val = key d.val ∧ (key c.val).isSome) := by
  induction ps generalizing lo ss with
  | nil =>
    obtain ⟨s, rfl⟩ := List.length_eq_one_iff.mp length
    simp only [mergeNeighbors, cells_last, List.mem_singleton] at memC memD
    subst memC memD
    exact absurd meet.symm (ne_of_lt inc)
  | cons p ps ih =>
    obtain ⟨s, ss, rfl⟩ := List.exists_cons_of_length_eq_add_one length
    obtain ⟨t, rest, rfl⟩ := List.exists_cons_of_length_eq_add_one (Nat.add_right_cancel length)
    obtain ⟨q, cs, above, shape⟩ := exists_cells_eq hi ps rest
    have lengthTail : (t :: rest).length = ps.length + 1 := by simpa using length
    by_cases same : key s = key t ∧ (key s).isSome
    · rw [mergeNeighbors_same key ps rest same] at memC memD
      have incTail : Increasing lo hi ps := by
        cases ps with
        | nil => exact lt_trans inc.1 inc.2
        | cons q qs => exact ⟨lt_trans inc.1 inc.2.1, inc.2.2⟩
      have lengthMerged : (s :: rest).length = ps.length + 1 := by simpa using length
      obtain ⟨c, inC, d, inD, touch, atD, absorbC, absorbD, differ⟩ :=
        ih incTail lengthMerged memC memD
      have tiles := tiles_cells incTail lengthMerged
      have boundsC := tiles.mem_bounds inC
      rw [shape] at inC inD
      rw [cells_cons, shape]
      have oldD : d ∈ cs := by
        rcases List.mem_cons.mp inD with rfl | old
        · exact absurd (lt_of_le_of_lt boundsC.1 boundsC.2.1) (not_lt.mpr (le_of_eq touch))
        · exact old
      rcases List.mem_cons.mp inC with rfl | old
      · -- the merged cell is represented by its right half
        refine ⟨⟨p, q, t⟩, by simp, d, by simp [oldD], touch, atD, ?_, absorbD, ?_⟩
        · exact absorbC.trans key (.inr ⟨⟨le_of_lt inc.1, le_refl _⟩, same.1, same.1 ▸ same.2⟩)
        · simpa [same.1] using differ
      · exact ⟨c, by simp [old], d, by simp [oldD], touch, atD, absorbC, absorbD, differ⟩
    · rw [mergeNeighbors_differ key ps rest same] at memC memD
      obtain ⟨incNew, lengthNew, forward, -⟩ := mergeNeighbors_spec key inc.2 lengthTail
      have tiles := tiles_cells incNew lengthNew
      simp only [cells_cons, List.mem_cons] at memC memD
      rcases memC with rfl | tailC <;> rcases memD with rfl | tailD
      · exact absurd meet.symm (ne_of_lt inc.1)
      · obtain ⟨e, memE, absorbE⟩ := forward ⟨p, q, t⟩ (by simp [shape])
        have hasE : e.Has p := by
          rcases absorbE with rfl | ⟨inside, -⟩
          · exact ⟨le_refl _, above p inc.2⟩
          · exact ⟨inside.1, lt_of_lt_of_le (above p inc.2) inside.2⟩
        have hasD : d'.Has p :=
          ⟨le_of_eq meet.symm, lt_of_eq_of_lt meet (tiles.mem_bounds tailD).2.1⟩
        obtain rfl := tiles.eq_of_has memE tailD hasE hasD
        exact ⟨⟨lo, p, s⟩, by simp, ⟨p, q, t⟩, by simp [shape], rfl, meet, .inl rfl, absorbE, same⟩
      · have bounds := tiles.mem_bounds tailC
        exact absurd (lt_trans inc.1 (lt_of_le_of_lt bounds.1 bounds.2.1))
          (not_lt.mpr (le_of_eq meet))
      · obtain ⟨c, inC, d, inD, rest⟩ := ih inc.2 lengthTail tailC tailD
        exact ⟨c, List.mem_cons_of_mem _ inC, d, List.mem_cons_of_mem _ inD, rest⟩

/-- Slots of one key are merged into a single one. -/
theorem mergeNeighbors_uniform {ps : List Addr} {ss : List β} {k : κ}
    (length : ss.length = ps.length + 1) (all : ∀ s ∈ ss, key s = some k) :
    ∃ s ∈ ss, mergeNeighbors key ps ss = ([], [s]) := by
  induction ps generalizing ss with
  | nil =>
    obtain ⟨s, rfl⟩ := List.length_eq_one_iff.mp length
    exact ⟨s, by simp, rfl⟩
  | cons p ps ih =>
    obtain ⟨s, ss, rfl⟩ := List.exists_cons_of_length_eq_add_one length
    obtain ⟨t, rest, rfl⟩ := List.exists_cons_of_length_eq_add_one (Nat.add_right_cancel length)
    have keyS := all s (by simp)
    have keyT := all t (by simp)
    rw [mergeNeighbors_same key ps rest ⟨keyS.trans keyT.symm, by simp [keyS]⟩]
    have lengthMerged : (s :: rest).length = ps.length + 1 := by simpa using length
    have allMerged : ∀ u ∈ s :: rest, key u = some k := by
      intro u mem
      rcases List.mem_cons.mp mem with rfl | tail
      · exact keyS
      · exact all u (by simp [tail])
    obtain ⟨u, mem, eq⟩ := ih lengthMerged allMerged
    refine ⟨u, ?_, eq⟩
    rcases List.mem_cons.mp mem with rfl | tail
    · simp
    · simp [tail]

end Merge

section Normalize

/-- Segments that touch carry different entries. -/
def Separated (cs : List Segment) : Prop := ∀ c ∈ cs, ∀ d ∈ cs, c.hi = d.lo → c.val ≠ d.val

theorem separated_singleton {lo hi : Addr} (entry : Entry) (nonempty : lo < hi) :
    Separated [⟨lo, hi, entry⟩] := by
  intro c memC d memD touch
  rw [List.mem_singleton] at memC memD
  subst memC memD
  exact absurd touch.symm (ne_of_lt nonempty)

/-- The segments of the node take their values from the function. -/
def Describes (value : Addr → Entry) (cs : List Segment) : Prop :=
  ∀ c ∈ cs, ∀ addr, c.Has addr → value addr = c.val

theorem Describes.of_coveredBy {value : Addr → Entry} {lo hi : Addr} {cs ds : List Segment}
    (describes : Describes value cs) (fine : Tiles lo hi cs) (coarse : Tiles lo hi ds)
    (covered : CoveredBy Cell.val cs ds) : Describes value ds := by
  intro d mem addr has
  obtain ⟨low, -, high⟩ := coarse.mem_bounds mem
  obtain ⟨c, memC, hasC⟩ := fine.exists_has (le_trans low has.1) (lt_of_lt_of_le has.2 high)
  obtain ⟨e, memE, inside, same⟩ := covered c memC
  rw [describes c memC addr hasC, ← same, coarse.eq_of_has memE mem (hasC.inside inside) has]

theorem Wf.describes_child {value : Addr → Entry} {pivots : List Addr} {slots : List Node}
    {lo hi : Addr} (describes : Describes value (segments (.internal pivots slots) lo hi))
    {c : Cell Addr Node} (mem : c ∈ cells lo hi (usedPivots pivots) slots) :
    Describes value (segments c.val c.lo c.hi) :=
  fun seg memSeg => describes seg (mem_segments_internal.mpr ⟨c, mem, memSeg⟩)

theorem childIsUniform_uniformLeaf (entry : Entry) :
    childIsUniform (uniformLeaf entry) = some entry := by
  simp only [uniformLeaf, childIsUniform, pivotCount, usedPivots_uniformLeaf]
  rfl

/-- A node with one entry everywhere is normalized to a uniform leaf. -/
theorem Wf.normalizeRec_uniform {node : Node} {lo hi : Addr} (wf : Wf node lo hi)
    {entry : Entry} (all : ∀ seg ∈ segments node lo hi, seg.val = entry) :
    childIsUniform (normalizeRec node) = some entry := by
  induction wf with
  | @leaf pivots slots lo hi filled inc length =>
    have slotsEq : ∀ s ∈ slots, some s = some entry := by
      intro s mem
      obtain ⟨c, memC, eq⟩ := @exists_cell_of_mem _ _ lo hi _ _ _ length mem
      rw [← eq, all c (by rwa [segments_leaf])]
    obtain ⟨s, mem, eq⟩ := mergeNeighbors_uniform some length slotsEq
    rw [normalizeRec, mergeLeafNeighbors, eq]
    have := childIsUniform_uniformLeaf s
    rw [uniformLeaf] at this
    exact this.trans (slotsEq s mem)
  | @internal pivots slots lo hi filled inc length wfs ih =>
    have slotsEq : ∀ s ∈ slots.map normalizeRec, childIsUniform s = some entry := by
      intro s mem
      obtain ⟨child, memChild, rfl⟩ := List.mem_map.mp mem
      obtain ⟨c, memC, rfl⟩ := @exists_cell_of_mem _ _ lo hi _ _ _ length memChild
      exact ih c memC fun seg memSeg =>
        all seg (mem_segments_internal.mpr ⟨c, memC, memSeg⟩)
    have lengthMap : (slots.map normalizeRec).length = (usedPivots pivots).length + 1 := by
      rw [List.length_map]
      exact length
    obtain ⟨s, mem, eq⟩ := mergeNeighbors_uniform childIsUniform lengthMap slotsEq
    rw [normalizeRec, normalizeSlots_eq, normalizeChildren, eq]
    simp only [List.length_nil, if_true, List.head?_cons, Option.bind_some, slotsEq s mem]
    exact childIsUniform_uniformLeaf entry

/-- The entries are constant around every fork with one entry on both sides. -/
def Harmless (value : Addr → Entry) (l b r : Addr) : Prop :=
  value (b - 1) = value b → ∀ addr, l ≤ addr → addr < r → value addr = value b

/-- Touching segments lie below one child or meet at the pivot between two. -/
theorem Wf.touching {pivots : List Addr} {slots : List Node} {lo hi : Addr}
    (wf : Wf (.internal pivots slots) lo hi) {c d : Segment}
    (memC : c ∈ segments (.internal pivots slots) lo hi)
    (memD : d ∈ segments (.internal pivots slots) lo hi) (touch : c.hi = d.lo) :
    (∃ k ∈ cells lo hi (usedPivots pivots) slots,
        c ∈ segments k.val k.lo k.hi ∧ d ∈ segments k.val k.lo k.hi) ∨
      ∃ k ∈ cells lo hi (usedPivots pivots) slots, ∃ m ∈ cells lo hi (usedPivots pivots) slots,
        k.hi = m.lo ∧ m.lo = d.lo := by
  obtain ⟨k, memK, inK⟩ := mem_segments_internal.mp memC
  obtain ⟨m, memM, inM⟩ := mem_segments_internal.mp memD
  cases wf with
  | internal _ inc length wfs =>
    have boundsC := (wfs k memK).tiles.mem_bounds inK
    have boundsD := (wfs m memM).tiles.mem_bounds inM
    by_cases sameChild : k = m
    · exact .inl ⟨k, memK, inK, sameChild ▸ inM⟩
    · right
      rcases (tiles_cells inc length).apart memK memM sameChild with left | right
      · have upper : m.lo ≤ k.hi := le_trans boundsD.1 (touch ▸ boundsC.2.2)
        have meet : k.hi = m.lo := le_antisymm left upper
        exact ⟨k, memK, m, memM, meet, le_antisymm boundsD.1 (meet ▸ touch ▸ boundsC.2.2)⟩
      · have backwards : d.lo < c.hi :=
          lt_of_lt_of_le boundsD.2.1
            (le_trans boundsD.2.2 (le_trans right (le_trans boundsC.1 (le_of_lt boundsC.2.1))))
        exact absurd touch.symm (ne_of_lt backwards)

/-- A child on which the entries are constant is normalized to a uniform leaf. -/
theorem Wf.normalizeRec_uniform_of_const {node : Node} {lo hi : Addr} (wf : Wf node lo hi)
    {value : Addr → Entry} (describes : Describes value (segments node lo hi)) {entry : Entry}
    (const : ∀ addr, lo ≤ addr → addr < hi → value addr = entry) :
    childIsUniform (normalizeRec node) = some entry := by
  refine wf.normalizeRec_uniform fun seg mem => ?_
  obtain ⟨low, inner, high⟩ := wf.tiles.mem_bounds mem
  rw [← describes seg mem seg.lo ⟨le_refl _, inner⟩]
  exact const seg.lo low (lt_of_lt_of_le inner high)

theorem separated_mergeLeafNeighbors {pivots : List Addr} {slots : List Entry} {lo hi : Addr}
    (inc : Increasing lo hi (usedPivots pivots)) (length : slots.length = pivotCount pivots + 1)
    (top : hi ≤ uintptrMax) : Separated (segments (mergeLeafNeighbors pivots slots) lo hi) := by
  have small := Increasing.lt_max (mergeNeighbors_spec some inc length).1 top
  rw [mergeLeafNeighbors, segments_leaf, usedPivots_fill small]
  intro c memC d memD touch
  obtain ⟨c₀, -, d₀, -, -, -, absorbC, absorbD, differ⟩ :=
    mergeNeighbors_seam some inc length memC memD touch
  have valueOf {d c : Segment} (absorbs : Absorbs some d c) : d.val = c.val := by
    rcases absorbs with rfl | ⟨-, same, -⟩
    · rfl
    · exact Option.some.inj same
  rw [valueOf absorbC, valueOf absorbD]
  exact fun same => differ ⟨congrArg some same, rfl⟩

/-- Two segments that meet at a surviving pivot differ when the fork is harmless. -/
theorem Wf.seam_ne {pivots : List Addr} {slots : List Node} {lo hi : Addr}
    (wf : Wf (.internal pivots slots) lo hi) {value : Addr → Entry}
    (describes : Describes value (segments (.internal pivots slots) lo hi))
    (harmless : ∀ l b r, Neighbours lo hi (usedPivots pivots) l b r → Harmless value l b r)
    {k m : Cell Addr Node} (memK : k ∈ cells lo hi (usedPivots pivots) slots)
    (memM : m ∈ cells lo hi (usedPivots pivots) slots) (meet : k.hi = m.lo)
    (differ : ¬ (childIsUniform (normalizeRec k.val) = childIsUniform (normalizeRec m.val) ∧
      (childIsUniform (normalizeRec k.val)).isSome)) : value (m.lo - 1) ≠ value m.lo := by
  intro equal
  cases wf with
  | internal _ inc length wfs =>
    have neighbours : Neighbours lo hi (usedPivots pivots) k.lo m.lo m.hi :=
      ⟨(mem_gaps_iff length).mpr ⟨k, memK, rfl, meet⟩,
        (mem_gaps_iff length).mpr ⟨m, memM, rfl, rfl⟩⟩
    have const := harmless _ _ _ neighbours equal
    have boundsK := (tiles_cells inc length).mem_bounds memK
    have boundsM := (tiles_cells inc length).mem_bounds memM
    have keyK := (wfs k memK).normalizeRec_uniform_of_const (Wf.describes_child describes memK)
      fun addr low high => const addr low (lt_trans high (meet ▸ boundsM.2.1))
    have keyM := (wfs m memM).normalizeRec_uniform_of_const (Wf.describes_child describes memM)
      fun addr low high => const addr (le_trans (le_of_lt (meet ▸ boundsK.2.1)) low) high
    exact differ ⟨keyK.trans keyM.symm, by simp [keyK]⟩

/-- Normalization separates the segments of a tree whose forks are harmless. -/
theorem Wf.normalizeRec_separated {node : Node} {lo hi : Addr} (wf : Wf node lo hi)
    (top : hi ≤ uintptrMax) {value : Addr → Entry}
    (describes : Describes value (segments node lo hi))
    (harmless : ∀ l b r, Fork node lo hi l b r → Harmless value l b r) :
    Separated (segments (normalizeRec node) lo hi) := by
  induction wf with
  | @leaf pivots slots lo hi _ inc length =>
    rw [normalizeRec]
    exact separated_mergeLeafNeighbors inc length top
  | @internal pivots slots lo hi filled inc length wfs ih =>
    have wf : Wf (.internal pivots slots) lo hi := .internal filled inc length wfs
    obtain ⟨wfNormal, covered⟩ := wf.normalizeRec_spec top
    have describesNew := describes.of_coveredBy wf.tiles wfNormal.tiles covered
    have child (c : Cell Addr Node) (mem : c ∈ cells lo hi (usedPivots pivots) slots) :
        Separated (segments (normalizeRec c.val) c.lo c.hi) :=
      ih c mem (le_trans ((tiles_cells inc length).mem_bounds mem).2.2 top)
        (Wf.describes_child describes mem) fun l b r fork => harmless l b r (.child mem fork)
    have lengthMap : (slots.map normalizeRec).length = (usedPivots pivots).length + 1 := by
      rw [List.length_map]
      exact length
    have wfMap := wf.normalizeSlots_wf top
    rw [normalizeRec, normalizeSlots_eq] at wfNormal describesNew ⊢
    rcases normalizeChildren_cases pivots (slots.map normalizeRec) with eq | ⟨entry, -, -, eq⟩
    · rw [eq] at wfNormal describesNew ⊢
      have used := usedPivots_mergedNode wfMap top
      intro c memC d memD touch equal
      rcases wfNormal.touching memC memD touch with
        ⟨k, memK, inC, inD⟩ | ⟨k, memK, m, memM, meet, atD⟩
      · rw [used] at memK
        obtain ⟨-, -, -, backward⟩ := mergeNeighbors_spec childIsUniform inc lengthMap
        obtain ⟨e, memE, val, rfl | keyed⟩ := backward k memK
        · rw [cells_map, List.mem_map] at memE
          obtain ⟨old, memOld, rfl⟩ := memE
          exact child old memOld c inC d inD touch equal
        · obtain ⟨entry, uniform⟩ := Option.isSome_iff_exists.mp keyed
          have wfK := wfMap.of_mem_merged memK
          rw [wfK.segments_of_uniform uniform] at inC inD
          exact separated_singleton entry wfK.lt c inC d inD touch equal
      · rw [used] at memK memM
        obtain ⟨k₀, inK, m₀, inM, meet₀, atM, -, -, differ⟩ :=
          mergeNeighbors_seam childIsUniform inc lengthMap memK memM meet
        rw [cells_map, List.mem_map] at inK inM
        obtain ⟨k₁, memK₁, rfl⟩ := inK
        obtain ⟨m₁, memM₁, rfl⟩ := inM
        have ne := wf.seam_ne describes (fun l b r near => harmless l b r (.here near))
          memK₁ memM₁ meet₀ differ
        have seam : d.lo = m₁.lo := (atM.trans atD).symm
        have boundsC := wfNormal.tiles.mem_bounds memC
        have boundsD := wfNormal.tiles.mem_bounds memD
        have before : value (m₁.lo - 1) = c.val := by
          refine describesNew c memC _ ⟨?_, ?_⟩
          · rw [← seam, ← touch]
            exact Nat.le_sub_one_of_lt boundsC.2.1
          · rw [← seam, ← touch]
            exact Nat.sub_one_lt (Nat.ne_of_gt (lt_of_le_of_lt (Nat.zero_le _) boundsC.2.1))
        have after : value m₁.lo = d.val :=
          describesNew d memD _ ⟨le_of_eq seam, seam ▸ boundsD.2.1⟩
        exact ne (by rw [before, after, equal])
    · rw [eq, collapseToLeaf, segments_uniformLeaf]
      exact separated_singleton entry inc.lt

end Normalize

end Opal.VmTree
