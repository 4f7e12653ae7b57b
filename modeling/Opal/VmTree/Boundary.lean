import Opal.VmTree.Lookup
import Mathlib.Data.List.GetD

/-!
# Splitting a vmtree at an address

`ensure_boundary_rec` makes an address a boundary of the tiling.  Whether it
inserts a pivot, promotes a full leaf or runs out of memory on the way, the
segments afterwards refine the segments before, so no entry changes.
-/

namespace Opal.VmTree

open Opal.Library

section InsertPivot

/-- The index `slot_for_addr` finds in the pivots in use. -/
def position (x : Addr) (ps : List Addr) : Nat := (ps.takeWhile (· ≤ x)).length

theorem position_cons_of_le {x p : Addr} (ps : List Addr) (le : p ≤ x) :
    position x (p :: ps) = position x ps + 1 := by
  simp [position, le]

theorem position_cons_of_lt {x p : Addr} (ps : List Addr) (lt : x < p) :
    position x (p :: ps) = 0 := by
  simp [position, lt]

theorem position_le (x : Addr) (ps : List Addr) : position x ps ≤ ps.length :=
  (List.takeWhile_sublist _).length_le

theorem increasing_insertIdx {lo hi x : Addr} {ps : List Addr} (inc : Increasing lo hi ps)
    (low : lo < x) (high : x < hi) (fresh : x ∉ ps) :
    Increasing lo hi (ps.insertIdx (position x ps) x) := by
  induction ps generalizing lo with
  | nil => exact ⟨low, high⟩
  | cons p ps ih =>
    rcases lt_or_ge x p with lt | ge
    · rw [position_cons_of_lt ps lt]
      exact ⟨low, lt, inc.2⟩
    · rw [position_cons_of_le ps ge, List.insertIdx_succ_cons]
      have ne : p ≠ x := fun eq => fresh (by simp [eq])
      exact ⟨inc.1, ih inc.2 (lt_of_le_of_ne ge ne) fun mem => fresh (List.mem_cons_of_mem _ mem)⟩

theorem coveredBy_insertIdx {lo hi x : Addr} {ps : List Addr} {slots : List Entry}
    (inc : Increasing lo hi ps) (length : slots.length = ps.length + 1)
    (low : lo < x) (high : x < hi) (fresh : x ∉ ps) :
    CoveredBy Cell.val
      (cells lo hi (ps.insertIdx (position x ps) x)
        (slots.insertIdx (position x ps + 1) (slots.getD (position x ps) 0)))
      (cells lo hi ps slots) := by
  induction ps generalizing lo slots with
  | nil =>
    obtain ⟨s, rfl⟩ := List.length_eq_one_iff.mp length
    intro c mem
    refine ⟨⟨lo, hi, s⟩, by simp, ?_⟩
    simp only [position, List.takeWhile_nil, List.length_nil, List.insertIdx_zero] at mem
    rcases List.mem_cons.mp mem with rfl | tail
    · exact ⟨⟨le_refl _, le_of_lt high⟩, rfl⟩
    · obtain rfl := List.mem_singleton.mp tail
      exact ⟨⟨le_of_lt low, le_refl _⟩, rfl⟩
  | cons p ps ih =>
    cases slots with
    | nil => simp at length
    | cons s ss =>
      intro c mem
      rcases lt_or_ge x p with lt | ge
      · rw [position_cons_of_lt ps lt] at mem
        simp only [List.insertIdx_zero, List.insertIdx_succ_cons, List.getD_cons_zero,
          cells_cons, List.mem_cons] at mem
        rcases mem with rfl | rfl | tail
        · exact ⟨⟨lo, p, s⟩, by simp, ⟨le_refl _, le_of_lt lt⟩, rfl⟩
        · exact ⟨⟨lo, p, s⟩, by simp, ⟨le_of_lt low, le_refl _⟩, rfl⟩
        · exact ⟨c, by simp [tail], ⟨le_refl _, le_refl _⟩, rfl⟩
      · rw [position_cons_of_le ps ge] at mem
        simp only [List.insertIdx_succ_cons, List.getD_cons_succ, cells_cons, List.mem_cons] at mem
        rcases mem with rfl | tail
        · exact ⟨⟨lo, p, s⟩, by simp, ⟨le_refl _, le_refl _⟩, rfl⟩
        · have ne : p ≠ x := fun eq => fresh (by simp [eq])
          obtain ⟨d, memD, inside⟩ := ih inc.2 (by simpa using length) (lt_of_le_of_ne ge ne)
            (fun mem => fresh (List.mem_cons_of_mem _ mem)) c tail
          exact ⟨d, List.mem_cons_of_mem _ memD, inside⟩

/-- The bounds of the slot around `x` are hit exactly when `x` is a pivot. -/
theorem eq_slot_bound_iff {lo hi x : Addr} {ps : List Addr} (inc : Increasing lo hi ps)
    (low : lo < x) (high : x < hi) :
    (x = (if position x ps = 0 then lo else ps.getD (position x ps - 1) lo) ∨
      x = (if ps.length ≤ position x ps then hi else ps.getD (position x ps) hi)) ↔ x ∈ ps := by
  induction ps generalizing lo with
  | nil => simpa [position] using ⟨Nat.ne_of_gt low, Nat.ne_of_lt high⟩
  | cons p ps ih =>
    rcases lt_or_ge x p with lt | ge
    · have notMem : x ∉ p :: ps := by
        intro mem
        rcases List.mem_cons.mp mem with rfl | tail
        · exact lt_irrefl _ lt
        · exact lt_asymm lt (inc.2.mem_bounds tail).1
      simpa [position_cons_of_lt ps lt, notMem] using ⟨Nat.ne_of_gt low, Nat.ne_of_lt lt⟩
    · rw [position_cons_of_le ps ge]
      rcases eq_or_lt_of_le ge with rfl | lt
      · have first : position p ps = 0 := by
          cases ps with
          | nil => rfl
          | cons q qs => exact position_cons_of_lt qs inc.2.1
        simp [first]
      · have step := ih inc.2 lt
        have ne : x ≠ p := Nat.ne_of_gt lt
        simp only [List.mem_cons, ne, false_or, ← step]
        rcases Nat.eq_zero_or_pos (position x ps) with zero | pos
        · simp [zero]
        · obtain ⟨k, eq⟩ := Nat.exists_eq_succ_of_ne_zero (Nat.ne_of_gt pos)
          have inRange : k < ps.length := by
            have := position_le x ps
            omega
          simp [eq, List.getD_eq_getElem?_getD, List.getElem?_eq_getElem inRange]

end InsertPivot

section Leaf

theorem take_insertIdx_append (used rest : List Addr) (x : Addr) {k : Nat}
    (le : k ≤ used.length) :
    ((used ++ rest).insertIdx k x).take (used.length + 1) = used.insertIdx k x := by
  induction used generalizing k with
  | nil =>
    obtain rfl := Nat.le_zero.mp le
    simp
  | cons p ps ih =>
    cases k with
    | zero => simp
    | succ k => simpa using ih (Nat.le_of_succ_le_succ le)

theorem Filled.slotLo_eq {pivots : List Addr} (filled : Filled pivots) {slot : Nat} (lo : Addr)
    (le : slot ≤ pivotCount pivots) :
    slotLo pivots slot lo =
      if slot = 0 then lo else (usedPivots pivots).getD (slot - 1) lo := by
  have lookup (i : Nat) (lt : i < (usedPivots pivots).length) :
      pivots.getD i lo = (usedPivots pivots).getD i lo :=
    (congrArg (·.getD i lo) filled.eq_append).trans (List.getD_append _ _ _ _ lt)
  rw [slotLo]
  split
  · rfl
  · rw [pivotCount] at le
    exact lookup _ (by omega)

theorem Filled.slotHi_eq {pivots : List Addr} (filled : Filled pivots) (slot : Nat) (hi : Addr) :
    slotHi pivots slot hi =
      if (usedPivots pivots).length ≤ slot then hi else (usedPivots pivots).getD slot hi := by
  rw [slotHi, pivotCount]
  split
  · rfl
  · rename_i inRange
    exact (congrArg (·.getD slot hi) filled.eq_append).trans
      (List.getD_append _ _ _ _ (not_le.mp inRange))

theorem Filled.fill_insertIdx {pivots : List Addr} (filled : Filled pivots) (x : Addr) :
    fillUnusedPivots (pivots.insertIdx (slotForAddr pivots x) x) (pivotCount pivots + 1) =
      fillUnusedPivots ((usedPivots pivots).insertIdx (slotForAddr pivots x) x)
        ((usedPivots pivots).insertIdx (slotForAddr pivots x) x).length := by
  have le : slotForAddr pivots x ≤ (usedPivots pivots).length := position_le x _
  have inserted := congrArg (fun l => (l.insertIdx (slotForAddr pivots x) x).take
    ((usedPivots pivots).length + 1)) filled.eq_append
  simp only [take_insertIdx_append _ _ x le] at inserted
  rw [List.length_insertIdx_of_le_length le, fillUnusedPivots, pivotCount, inserted,
    fillUnusedPivots, List.take_of_length_le]
  rw [List.length_insertIdx_of_le_length le]

/-- `x` is a pivot already, or the leaf is full, or `x` becomes a pivot. -/
theorem insertLeafBoundary_cases {pivots : List Addr} (slots : List Entry) {lo hi x : Addr}
    (filled : Filled pivots) (inc : Increasing lo hi (usedPivots pivots)) (low : lo < x)
    (high : x < hi) :
    (x ∈ usedPivots pivots ∧
        insertLeafBoundary pivots slots lo hi x = some (.leaf pivots slots)) ∨
      (x ∉ usedPivots pivots ∧ pivotCount pivots = nodeSlots - 1 ∧
        insertLeafBoundary pivots slots lo hi x = none) ∨
      (x ∉ usedPivots pivots ∧ pivotCount pivots < nodeSlots - 1 ∧
        insertLeafBoundary pivots slots lo hi x =
          some (.leaf
            (fillUnusedPivots ((usedPivots pivots).insertIdx (position x (usedPivots pivots)) x)
              ((usedPivots pivots).insertIdx (position x (usedPivots pivots)) x).length)
            (slots.insertIdx (position x (usedPivots pivots) + 1)
              (slots.getD (position x (usedPivots pivots)) 0)))) := by
  have le : slotForAddr pivots x ≤ pivotCount pivots := position_le x _
  have isPivot : (x = slotLo pivots (slotForAddr pivots x) lo ∨
      x = slotHi pivots (slotForAddr pivots x) hi) ↔ x ∈ usedPivots pivots := by
    rw [filled.slotLo_eq lo le, filled.slotHi_eq]
    exact eq_slot_bound_iff inc low high
  simp only [insertLeafBoundary, isPivot]
  split
  · rename_i present
    exact .inl ⟨present, rfl⟩
  · rename_i fresh
    split
    · rename_i full
      exact .inr (.inl ⟨fresh, filled.nodeIsFull_iff.mp full, rfl⟩)
    · rename_i notFull
      refine .inr (.inr ⟨fresh, ?_, by rw [filled.fill_insertIdx]; rfl⟩)
      exact lt_of_le_of_ne filled.bound (mt filled.nodeIsFull_iff.mpr notFull)

/-- An insertion that does not report a full leaf makes `x` a boundary. -/
theorem insertLeafBoundary_spec {pivots : List Addr} {slots : List Entry} {lo hi x : Addr}
    (wf : Wf (.leaf pivots slots) lo hi) (top : hi ≤ uintptrMax) (low : lo < x) (high : x < hi)
    {node : Node} (inserted : insertLeafBoundary pivots slots lo hi x = some node) :
    Wf node lo hi ∧
      CoveredBy Cell.val (segments node lo hi) (segments (.leaf pivots slots) lo hi) ∧
      IsBoundary x (segments node lo hi) := by
  obtain ⟨filled, inc, length⟩ : Filled pivots ∧ Increasing lo hi (usedPivots pivots) ∧
      slots.length = pivotCount pivots + 1 := by
    cases wf
    exact ⟨‹_›, ‹_›, ‹_›⟩
  rcases insertLeafBoundary_cases slots filled inc low high with
    ⟨present, eq⟩ | ⟨-, -, eq⟩ | ⟨fresh, room, eq⟩
  · rw [eq] at inserted
    cases inserted
    refine ⟨wf, .refl _, ?_⟩
    rw [segments_leaf]
    exact isBoundary_cells_of_mem inc length present
  · rw [eq] at inserted
    cases inserted
  · rw [eq] at inserted
    cases inserted
    have le : position x (usedPivots pivots) ≤ (usedPivots pivots).length := position_le x _
    have incNew := increasing_insertIdx inc low high fresh
    have small := Increasing.lt_max incNew top
    have lengthPivots := List.length_insertIdx_of_le_length le x
    have lengthSlots : (slots.insertIdx (position x (usedPivots pivots) + 1)
        (slots.getD (position x (usedPivots pivots)) 0)).length = slots.length + 1 :=
      List.length_insertIdx_of_le_length (by rw [length, pivotCount]; omega) _
    have used := usedPivots_fill small
    rw [segments_leaf, segments_leaf, used]
    refine ⟨.leaf (filled_fill small ?_) ?_ ?_, ?_, ?_⟩
    · rw [lengthPivots]
      exact room
    · rw [used]
      exact incNew
    · rw [pivotCount, used, lengthSlots, lengthPivots, length, pivotCount]
    · exact coveredBy_insertIdx inc length low high fresh
    · refine isBoundary_cells_of_mem incNew ?_ ?_
      · rw [lengthSlots, lengthPivots, length, pivotCount]
      · exact List.mem_insertIdx le |>.mpr (.inl rfl)

theorem Filled.insertLeafBoundary_isSome {pivots : List Addr} (filled : Filled pivots)
    (slots : List Entry) (lo hi x : Addr) (room : pivotCount pivots < nodeSlots - 1) :
    (insertLeafBoundary pivots slots lo hi x).isSome := by
  have notFull : nodeIsFull pivots = false := by
    have := mt filled.nodeIsFull_iff.mp (Nat.ne_of_lt room)
    simpa using this
  simp only [insertLeafBoundary, notFull]
  split <;> simp

end Leaf

section Descent

theorem allocLeafNodes_some {entries : List Entry} {mem rest : AllocOracle}
    {nodes : List Node} (allocated : allocLeafNodes entries mem = (some nodes, rest)) :
    nodes = entries.map allocLeafNode := by
  induction entries generalizing mem nodes rest with
  | nil =>
    cases allocated
    rfl
  | cons entry entries ih =>
    simp only [allocLeafNodes] at allocated
    split at allocated
    · split at allocated
      · rename_i tail later eq
        cases allocated
        rw [ih eq, List.map_cons]
      · simp at allocated
    · simp at allocated

theorem promoteLeafToInternal_some {pivots : List Addr} {slots : List Entry}
    {mem rest : AllocOracle} {node : Node}
    (promoted : promoteLeafToInternal pivots slots mem = (some node, rest)) :
    node = .internal pivots (slots.map allocLeafNode) := by
  simp only [promoteLeafToInternal] at promoted
  split at promoted
  · rename_i children later eq
    cases promoted
    rw [allocLeafNodes_some eq]
  · simp at promoted

/-- A promoted leaf denotes the segments it denoted before. -/
theorem segments_promoted (pivots : List Addr) (slots : List Entry) (lo hi : Addr) :
    segments (.internal pivots (slots.map allocLeafNode)) lo hi =
      segments (.leaf pivots slots) lo hi := by
  rw [segments_internal, cells_map, segments_leaf, List.flatMap_map]
  simp [allocLeafNode]

theorem Wf.promoted {pivots : List Addr} {slots : List Entry} {lo hi : Addr}
    (wf : Wf (.leaf pivots slots) lo hi) :
    Wf (.internal pivots (slots.map allocLeafNode)) lo hi := by
  cases wf with
  | leaf filled inc length =>
    refine .internal filled inc (by simpa using length) ?_
    intro c mem
    rw [cells_map, List.mem_map] at mem
    obtain ⟨d, memD, rfl⟩ := mem
    exact wf_uniformLeaf d.val ((tiles_cells inc length).mem_bounds memD).2.1

theorem updateSlot_spec {σ : Type} {x : Addr} (f : Node → Addr → Addr → σ × Node) (fallback : σ)
    {slots : List Node} {ps : List Addr} {lo hi : Addr} (inc : Increasing lo hi ps)
    (length : slots.length = ps.length + 1) (low : lo ≤ x) (high : x < hi) :
    ∃ c ∈ cells lo hi ps slots, c.Has x ∧
      (updateSlot x f fallback slots ps lo hi).1 = (f c.val c.lo c.hi).1 ∧
      (updateSlot x f fallback slots ps lo hi).2.length = slots.length ∧
      ∀ d ∈ cells lo hi ps (updateSlot x f fallback slots ps lo hi).2,
        d = ⟨c.lo, c.hi, (f c.val c.lo c.hi).2⟩ ∨ (d ∈ cells lo hi ps slots ∧ ¬ d.Has x) := by
  induction ps generalizing lo slots with
  | nil =>
    obtain ⟨s, rfl⟩ := List.length_eq_one_iff.mp length
    refine ⟨⟨lo, hi, s⟩, by simp, ⟨low, high⟩, rfl, rfl, ?_⟩
    intro d mem
    exact .inl (by simpa [updateSlot] using mem)
  | cons p ps ih =>
    cases slots with
    | nil => simp at length
    | cons s ss =>
      by_cases below : x < p
      · refine ⟨⟨lo, p, s⟩, by simp, ⟨low, below⟩, by simp [updateSlot, below],
          by simp [updateSlot, below], ?_⟩
        intro d mem
        simp only [updateSlot, below, if_true, cells_cons, List.mem_cons] at mem
        rcases mem with rfl | tail
        · exact .inl rfl
        · refine .inr ⟨List.mem_cons_of_mem _ tail, fun has => ?_⟩
          have bounds := (tiles_cells inc.2 (by simpa using length)).mem_bounds tail
          exact absurd below (not_lt.mpr (le_trans bounds.1 has.1))
      · obtain ⟨c, mem, has, status, lengthNew, others⟩ :=
          ih inc.2 (by simpa using length) (not_lt.mp below)
        refine ⟨c, List.mem_cons_of_mem _ mem, has, by simp [updateSlot, below, status],
          by simp [updateSlot, below, lengthNew], ?_⟩
        intro d memD
        simp only [updateSlot, below, if_false, cells_cons, List.mem_cons] at memD
        rcases memD with rfl | tail
        · exact .inr ⟨by simp, fun h => below h.2⟩
        · rcases others d tail with eq | ⟨old, away⟩
          · exact .inl eq
          · exact .inr ⟨List.mem_cons_of_mem _ old, away⟩

/-- What `ensure_boundary_rec` guarantees about a node it returns. -/
structure Splits (x : Addr) (status : Status) (old new : Node) (lo hi : Addr) : Prop where
  wf : Wf new lo hi
  refines : CoveredBy Cell.val (segments new lo hi) (segments old lo hi)
  boundary : status = .ok → IsBoundary x (segments new lo hi)
  reported : status = .ok ∨ status = .errNomem

theorem Splits.of_child {x : Addr} {pivots : List Addr} {slots : List Node} {lo hi : Addr}
    (wf : Wf (.internal pivots slots) lo hi) (low : lo ≤ x) (high : x < hi)
    (f : Node → Addr → Addr → (Status × AllocOracle) × Node) (fallback : Status × AllocOracle)
    (child : ∀ c ∈ cells lo hi (usedPivots pivots) slots,
      Splits x (f c.val c.lo c.hi).1.1 c.val (f c.val c.lo c.hi).2 c.lo c.hi) :
    Splits x (updateSlot x f fallback slots (usedPivots pivots) lo hi).1.1
      (.internal pivots slots)
      (.internal pivots (updateSlot x f fallback slots (usedPivots pivots) lo hi).2) lo hi := by
  cases wf with
  | internal filled inc length wfs =>
    obtain ⟨c, mem, has, status, lengthNew, others⟩ :=
      updateSlot_spec f fallback inc length low high
    have here := child c mem
    rw [status]
    constructor
    · refine .internal filled inc (lengthNew.trans length) ?_
      intro d memD
      rcases others d memD with rfl | ⟨old, -⟩
      · exact here.wf
      · exact wfs d old
    · intro seg memSeg
      obtain ⟨d, memD, inside⟩ := mem_segments_internal.mp memSeg
      rcases others d memD with rfl | ⟨old, -⟩
      · obtain ⟨e, memE, covers⟩ := here.refines seg inside
        exact ⟨e, mem_segments_internal.mpr ⟨c, mem, memE⟩, covers⟩
      · exact ⟨seg, mem_segments_internal.mpr ⟨d, old, inside⟩, ⟨le_refl _, le_refl _⟩, rfl⟩
    · intro ok seg memSeg
      obtain ⟨d, memD, inside⟩ := mem_segments_internal.mp memSeg
      rcases others d memD with rfl | ⟨old, away⟩
      · exact here.boundary ok seg inside
      · -- a slot without `x` lies on one side of it
        obtain ⟨left, -, right⟩ := (wfs d old).tiles.mem_bounds inside
        rcases lt_or_ge x d.lo with below | above
        · exact .inl (le_trans (le_of_lt below) left)
        · exact .inr (le_trans right (not_lt.mp fun lt => away ⟨above, lt⟩))
    · exact here.reported

theorem ensureBoundaryRec_spec (x : Addr) (fuel : Nat) {node : Node} {lo hi : Addr}
    (mem : AllocOracle) (wf : Wf node lo hi) (top : hi ≤ uintptrMax) :
    Splits x (ensureBoundaryRec x fuel node lo hi mem).1.1 node
      (ensureBoundaryRec x fuel node lo hi mem).2 lo hi := by
  induction fuel generalizing node lo hi mem with
  | zero => exact ⟨wf, .refl _, by simp [ensureBoundaryRec], .inr rfl⟩
  | succ fuel ih =>
    by_cases outside : x ≤ lo ∨ hi ≤ x
    · have unchanged : ensureBoundaryRec x (fuel + 1) node lo hi mem = ((.ok, mem), node) := by
        cases node <;> rw [ensureBoundaryRec, if_pos outside]
      rw [unchanged]
      refine ⟨wf, .refl _, fun _ seg memSeg => ?_, .inl rfl⟩
      obtain ⟨low, -, high⟩ := wf.tiles.mem_bounds memSeg
      exact outside.imp (fun le => le_trans le low) (fun le => le_trans high le)
    · obtain ⟨low, high⟩ := not_or.mp outside
      rw [not_le] at low high
      cases node with
      | internal pivots slots =>
        rw [ensureBoundaryRec, if_neg outside]
        refine Splits.of_child wf (le_of_lt low) high _ _ fun c memC => ?_
        cases wf with
        | internal _ inc length wfs =>
          exact ih mem (wfs c memC)
            (le_trans ((tiles_cells inc length).mem_bounds memC).2.2 top)
      | leaf pivots slots =>
        rw [ensureBoundaryRec, if_neg outside]
        split
        · rename_i inserted eq
          obtain ⟨wfNew, refines, boundary⟩ := insertLeafBoundary_spec wf top low high eq
          exact ⟨wfNew, refines, fun _ => boundary, .inl rfl⟩
        · split
          · exact ⟨wf, .refl _, by simp, .inr rfl⟩
          · rename_i promoted later eq
            obtain rfl := promoteLeafToInternal_some eq
            have spec := ih later wf.promoted top
            refine ⟨spec.wf, ?_, spec.boundary, spec.reported⟩
            have refines := spec.refines
            rwa [segments_promoted] at refines

end Descent

section Progress

theorem le_heightSlots {slots : List Node} {c : Node} (mem : c ∈ slots) :
    height c ≤ heightSlots slots := by
  induction slots with
  | nil => simp at mem
  | cons s ss ih =>
    rw [heightSlots]
    rcases List.mem_cons.mp mem with rfl | tail
    · exact le_max_left _ _
    · exact le_trans (ih tail) (le_max_right _ _)

theorem allocLeafNodes_of_succeeds (entries : List Entry) {mem : AllocOracle}
    (succeeds : mem.Succeeds) :
    ∃ rest : AllocOracle, rest.Succeeds ∧
      allocLeafNodes entries mem = (some (entries.map allocLeafNode), rest) := by
  induction entries generalizing mem with
  | nil => exact ⟨mem, succeeds, rfl⟩
  | cons entry entries ih =>
    obtain ⟨rest, later, eq⟩ := ih succeeds.tail
    exact ⟨rest, later, by simp [allocLeafNodes, succeeds.head, eq]⟩

theorem ensureBoundaryRec_leaf_ok {x : Addr} (fuel : Nat) {pivots : List Addr}
    (slots : List Entry) (lo hi : Addr) (mem : AllocOracle) (filled : Filled pivots)
    (room : pivotCount pivots < nodeSlots - 1) :
    (ensureBoundaryRec x (fuel + 1) (.leaf pivots slots) lo hi mem).1 = (.ok, mem) := by
  rw [ensureBoundaryRec]
  split
  · rfl
  · obtain ⟨inserted, eq⟩ :=
      Option.isSome_iff_exists.mp (filled.insertLeafBoundary_isSome slots lo hi x room)
    rw [eq]

theorem ensureBoundaryRec_promoted_ok {x : Addr} (fuel : Nat) {pivots : List Addr}
    {slots : List Entry} {lo hi : Addr} (mem : AllocOracle)
    (wf : Wf (.leaf pivots slots) lo hi) :
    (ensureBoundaryRec x (fuel + 2) (.internal pivots (slots.map allocLeafNode)) lo hi
      mem).1 = (.ok, mem) := by
  cases wf with
  | leaf _ inc length =>
    rw [ensureBoundaryRec]
    split
    · rfl
    · rename_i inside
      obtain ⟨low, high⟩ := not_or.mp inside
      have lengthNew : (slots.map allocLeafNode).length = (usedPivots pivots).length + 1 := by
        rw [List.length_map]
        exact length
      obtain ⟨c, memC, -, status, -⟩ := updateSlot_spec
        (fun s lo hi => ensureBoundaryRec x (fuel + 1) s lo hi mem) (.ok, mem)
        inc lengthNew (le_of_lt (not_le.mp low)) (not_le.mp high)
      rw [status]
      obtain ⟨entry, -, eq⟩ := List.mem_map.mp (mem_of_mem_cells memC)
      rw [← eq]
      refine ensureBoundaryRec_leaf_ok fuel _ _ _ _ (@filled_fill [] (by simp) (by simp)) ?_
      rw [pivotCount, usedPivots_uniformLeaf]
      decide

/-- With memory at hand the fuel suffices: the model reports `NOMEM` for a failed
allocation only. -/
theorem ensureBoundaryRec_ok {x : Addr} (fuel : Nat) {node : Node} {lo hi : Addr}
    {mem : AllocOracle} (wf : Wf node lo hi) (succeeds : mem.Succeeds)
    (enough : height node + 3 ≤ fuel) :
    (ensureBoundaryRec x fuel node lo hi mem).1.1 = .ok ∧
      (ensureBoundaryRec x fuel node lo hi mem).1.2.Succeeds := by
  induction fuel generalizing node lo hi mem with
  | zero => omega
  | succ fuel ih =>
    cases wf with
    | @leaf pivots slots _ _ filled inc length =>
      rw [ensureBoundaryRec]
      split
      · exact ⟨rfl, succeeds⟩
      · split
        · exact ⟨rfl, succeeds⟩
        · obtain ⟨rest, later, eq⟩ := allocLeafNodes_of_succeeds slots succeeds
          simp only [promoteLeafToInternal, eq]
          rw [height] at enough
          obtain ⟨k, rfl⟩ : ∃ k, fuel = k + 2 := ⟨fuel - 2, by omega⟩
          rw [ensureBoundaryRec_promoted_ok k rest (.leaf filled inc length)]
          exact ⟨rfl, later⟩
    | @internal pivots slots _ _ _ inc length wfs =>
      rw [ensureBoundaryRec]
      split
      · exact ⟨rfl, succeeds⟩
      · rename_i inside
        obtain ⟨low, high⟩ := not_or.mp inside
        obtain ⟨c, memC, -, status, -⟩ := updateSlot_spec
          (fun s lo hi => ensureBoundaryRec x fuel s lo hi mem) (.ok, mem)
          inc length (le_of_lt (not_le.mp low)) (not_le.mp high)
        rw [status]
        refine ih (wfs c memC) succeeds ?_
        have le := le_heightSlots (mem_of_mem_cells memC)
        rw [height] at enough
        omega

end Progress

end Opal.VmTree
