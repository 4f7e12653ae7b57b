import Opal.Library.Cuts
import Opal.VmTree.Iteration

/-!
# Areas in a vmtree

When every entry is inserted once, the mapped segments of the tree are the areas it holds: an
insertion adds its own, a removal of an area takes that one away, and a call that runs out of
memory leaves them alone although it may cut holes.
-/

namespace Opal.VmTree

open Opal.Library

section Cuts

variable {x b lo hi : Addr}

theorem mem_of_isBoundary_cells {β : Type} {ps : List Addr} {ss : List β}
    (length : ss.length = ps.length + 1)
    (boundary : IsBoundary b (cells lo hi ps ss)) (low : lo < b) (high : b < hi) : b ∈ ps := by
  induction ps generalizing lo ss with
  | nil =>
    obtain ⟨s, rfl⟩ := List.length_eq_one_iff.mp length
    rcases boundary ⟨lo, hi, s⟩ (by simp) with le | le
    · exact absurd low (not_lt.mpr le)
    · exact absurd high (not_lt.mpr le)
  | cons p ps ih =>
    cases ss with
    | nil => simp at length
    | cons s ss =>
      rcases lt_trichotomy b p with less | rfl | greater
      · rcases boundary ⟨lo, p, s⟩ (by simp) with le | le
        · exact absurd low (not_lt.mpr le)
        · exact absurd less (not_lt.mpr le)
      · exact List.mem_cons_self
      · refine List.mem_cons_of_mem _ (ih (by simpa using length) (fun c mem => ?_) greater)
        exact boundary c (by simp [mem])

/-- What becomes of a cell when the slot with `x` is updated. -/
theorem mem_cells_updateSlot {σ : Type} (f : Node → Addr → Addr → σ × Node) (fallback : σ)
    {slots : List Node} {ps : List Addr} (inc : Increasing lo hi ps)
    (length : slots.length = ps.length + 1) (low : lo ≤ x) (high : x < hi)
    {d : Cell Addr Node} (mem : d ∈ cells lo hi ps slots) :
    (d.Has x ∧ ⟨d.lo, d.hi, (f d.val d.lo d.hi).2⟩ ∈
        cells lo hi ps (updateSlot x f fallback slots ps lo hi).2) ∨
      (¬ d.Has x ∧ d ∈ cells lo hi ps (updateSlot x f fallback slots ps lo hi).2) := by
  obtain ⟨c, memC, has, -, lengthNew, others⟩ := updateSlot_spec f fallback inc length low high
  have tiles : Tiles lo hi (cells lo hi ps slots) := tiles_cells inc length
  have bounds := tiles.mem_bounds mem
  obtain ⟨e, memE, hasE⟩ :=
    (tiles_cells inc (lengthNew.trans length)).exists_has bounds.1
      (lt_of_lt_of_le bounds.2.1 bounds.2.2)
  have start : d.Has d.lo := ⟨le_refl _, bounds.2.1⟩
  rcases others e memE with rfl | ⟨old, away⟩
  · obtain rfl := tiles.eq_of_has mem memC start hasE
    exact .inl ⟨has, memE⟩
  · obtain rfl := tiles.eq_of_has mem old start hasE
    exact .inr ⟨away, memE⟩

/-- Splitting at `x` cuts nowhere else. -/
theorem ensureBoundaryRec_cuts (x : Addr) (fuel : Nat) {node : Node} (mem : AllocOracle)
    (wf : Wf node lo hi) (top : hi ≤ uintptrMax)
    (boundary : IsBoundary b (segments (ensureBoundaryRec x fuel node lo hi mem).2 lo hi)) :
    b = x ∨ IsBoundary b (segments node lo hi) := by
  induction fuel generalizing node lo hi mem with
  | zero => exact .inr boundary
  | succ fuel ih =>
    by_cases outside : x ≤ lo ∨ hi ≤ x
    · have unchanged : ensureBoundaryRec x (fuel + 1) node lo hi mem = ((.ok, mem), node) := by
        cases node <;> rw [ensureBoundaryRec, if_pos outside]
      rw [unchanged] at boundary
      exact .inr boundary
    · obtain ⟨low, high⟩ := not_or.mp outside
      rw [not_le] at low high
      cases node with
      | internal pivots slots =>
        rw [ensureBoundaryRec, if_neg outside] at boundary
        cases wf with
        | internal _ inc length wfs =>
          by_cases same : b = x
          · exact .inl same
          refine .inr fun seg memSeg => ?_
          obtain ⟨d, memD, inside⟩ := mem_segments_internal.mp memSeg
          rcases mem_cells_updateSlot
              (fun s lo hi => ensureBoundaryRec x fuel s lo hi mem) (Status.ok, mem) inc length
              (le_of_lt low) high memD with ⟨has, new⟩ | ⟨away, kept⟩
          · have childTop := le_trans ((tiles_cells inc length).mem_bounds memD).2.2 top
            have child := ih mem (wfs d memD) childTop fun e memE =>
              boundary e (mem_segments_internal.mpr ⟨_, new, memE⟩)
            exact child.resolve_left same seg inside
          · exact boundary seg (mem_segments_internal.mpr ⟨d, kept, inside⟩)
      | leaf pivots slots =>
        rw [ensureBoundaryRec, if_neg outside] at boundary
        split at boundary
        · rename_i inserted eq
          obtain ⟨filled, inc, length⟩ : Filled pivots ∧ Increasing lo hi (usedPivots pivots) ∧
              slots.length = pivotCount pivots + 1 := by
            cases wf
            exact ⟨‹_›, ‹_›, ‹_›⟩
          rcases insertLeafBoundary_cases slots filled inc low high with
            ⟨-, here⟩ | ⟨-, -, here⟩ | ⟨fresh, -, here⟩
          · rw [here] at eq
            cases eq
            exact .inr boundary
          · rw [here] at eq
            cases eq
          · rw [here] at eq
            cases eq
            have le : position x (usedPivots pivots) ≤ (usedPivots pivots).length := position_le x _
            have incNew := increasing_insertIdx inc low high fresh
            have lengthPivots := List.length_insertIdx_of_le_length le x
            have lengthSlots : (slots.insertIdx (position x (usedPivots pivots) + 1)
                (slots.getD (position x (usedPivots pivots)) 0)).length = slots.length + 1 :=
              List.length_insertIdx_of_le_length (by rw [length, pivotCount]; omega) _
            rw [segments_leaf, usedPivots_fill (Increasing.lt_max incNew top)] at boundary
            rw [segments_leaf]
            by_cases inner : lo < b ∧ b < hi
            · have new := mem_of_isBoundary_cells
                (by rw [lengthSlots, lengthPivots, length, pivotCount]) boundary inner.1 inner.2
              rcases (List.mem_insertIdx le).mp new with same | old
              · exact .inl same
              · exact .inr (isBoundary_cells_of_mem inc length old)
            · refine .inr fun c memC => ?_
              obtain ⟨left, -, right⟩ := (tiles_cells inc length).mem_bounds memC
              rcases Nat.lt_or_ge lo b with above | below
              · exact .inr (le_trans right (not_lt.mp fun lt => inner ⟨above, lt⟩))
              · exact .inl (le_trans below left)
        · split at boundary
          · exact .inr boundary
          · rename_i promoted later eq
            obtain rfl := promoteLeafToInternal_some eq
            have spec := ih later wf.promoted top boundary
            rwa [segments_promoted] at spec

/-- An update that changes no node changes no slot. -/
theorem updateSlot_of_same {σ : Type} (f : Node → Addr → Addr → σ × Node) (status : σ)
    {slots : List Node} {ps : List Addr} (inc : Increasing lo hi ps)
    (length : slots.length = ps.length + 1) (low : lo ≤ x)
    (same : ∀ c ∈ cells lo hi ps slots, f c.val c.lo c.hi = (status, c.val)) :
    updateSlot x f status slots ps lo hi = (status, slots) := by
  induction ps generalizing lo slots with
  | nil =>
    obtain ⟨s, rfl⟩ := List.length_eq_one_iff.mp length
    rw [updateSlot, same ⟨lo, hi, s⟩ (by simp)]
  | cons p ps ih =>
    cases slots with
    | nil => simp at length
    | cons s ss =>
      by_cases below : x < p
      · simp only [updateSlot, below, if_true, same ⟨lo, p, s⟩ (by simp)]
      · have rest := ih inc.2 (by simpa using length) (not_lt.mp below)
          fun c mem => same c (by simp [mem])
        simp only [updateSlot, below, if_false, rest]

/-- Where there is a boundary already nothing happens. -/
theorem ensureBoundaryRec_of_isBoundary {fuel : Nat} {node : Node} (mem : AllocOracle)
    (wf : Wf node lo hi) (enough : height node < fuel)
    (boundary : IsBoundary x (segments node lo hi)) :
    ensureBoundaryRec x fuel node lo hi mem = ((.ok, mem), node) := by
  induction fuel generalizing node lo hi with
  | zero => exact absurd enough (Nat.not_lt_zero _)
  | succ fuel ih =>
    by_cases outside : x ≤ lo ∨ hi ≤ x
    · cases node <;> rw [ensureBoundaryRec, if_pos outside]
    · obtain ⟨low, high⟩ := not_or.mp outside
      rw [not_le] at low high
      cases wf with
      | @internal pivots slots _ _ filled inc length wfs =>
        rw [ensureBoundaryRec, if_neg outside]
        rw [height] at enough
        have child (c : Cell Addr Node) (memC : c ∈ cells lo hi (usedPivots pivots) slots) :
            ensureBoundaryRec x fuel c.val c.lo c.hi mem = ((.ok, mem), c.val) := by
          have le := le_heightSlots (mem_of_mem_cells memC)
          exact ih (wfs c memC) (by omega) fun e memE =>
            boundary e (mem_segments_internal.mpr ⟨c, memC, memE⟩)
        have whole := updateSlot_of_same
          (fun s lo hi => ensureBoundaryRec x fuel s lo hi mem) (.ok, mem) inc length
          (le_of_lt low) child
        rw [whole]
      | @leaf pivots slots _ _ filled inc length =>
        rw [ensureBoundaryRec, if_neg outside]
        rw [segments_leaf] at boundary
        have present := mem_of_isBoundary_cells length boundary low high
        rcases insertLeafBoundary_cases slots filled inc low high with
          ⟨-, here⟩ | ⟨fresh, -⟩ | ⟨fresh, -⟩
        · rw [here]
        · exact absurd present fresh
        · exact absurd present fresh

end Cuts

section Mapped

variable {root : Node}

/-- The segments that are no holes, from left to right. -/
def mapped (root : Node) : List Segment :=
  (segments root 0 uintptrMax).filter fun c => c.val != 0

theorem mem_mapped {c : Segment} :
    c ∈ mapped root ↔ c ∈ segments root 0 uintptrMax ∧ c.val ≠ 0 := by
  simp [mapped]

theorem Wf.mapped_pairwise (wf : Wf root 0 uintptrMax) :
    (mapped root).Pairwise fun c d => c.hi ≤ d.lo := wf.tiles.pairwise.filter _

theorem Wf.mapped_bounds (wf : Wf root 0 uintptrMax) {c : Segment} (mem : c ∈ mapped root) :
    c.lo < c.hi ∧ c.hi ≤ uintptrMax := (wf.tiles.mem_bounds (mem_mapped.mp mem).1).2

theorem Wf.shows (wf : Wf root 0 uintptrMax) :
    Shows (segments root 0 uintptrMax) (entryAt root) := by
  intro c mem addr has
  rw [entryAt, wf.vmtreeGet_eq_of_has mem has]

/-- A tree that is well formed yields its mapped segments. -/
theorem Wf.collect_mapped (wf : Wf root 0 uintptrMax) :
    collect root ((segments root 0 uintptrMax).length + 1)
      ((segments root 0 uintptrMax).length + 1) vmtreeBeforeBegin = mapped root :=
  wf.collect_eq (fun _ mem => mem) wf.tiles (Nat.lt_succ_self _) (Nat.lt_succ_self _)

end Mapped

section Calls

variable {root : Node} {start stop : Addr} {entry : Entry} {mem : AllocOracle}

theorem splitAndWrite_cuts (wf : Wf root 0 uintptrMax) {b : Addr}
    (boundary : IsBoundary b
      (segments (splitAndWrite root start stop entry mem).2 0 uintptrMax)) :
    b = start ∨ b = stop ∨ IsBoundary b (segments root 0 uintptrMax) := by
  have first := ensureBoundary_spec wf start mem
  have second := ensureBoundary_spec first.wf stop (ensureBoundary root start mem).1.2
  have cutFirst := @ensureBoundaryRec_cuts b _ _ start (height root + 3) root mem wf (le_refl _)
  have cutSecond := @ensureBoundaryRec_cuts b _ _ stop
    (height (ensureBoundary root start mem).2 + 3) (ensureBoundary root start mem).2
    (ensureBoundary root start mem).1.2 first.wf (le_refl _)
  simp only [splitAndWrite] at boundary
  split at boundary
  · exact (cutFirst boundary).imp id .inr
  split at boundary
  · rcases cutSecond boundary with same | before
    · exact .inr (.inl same)
    · exact (cutFirst before).imp id .inr
  · obtain ⟨wfWritten, written⟩ := second.wf.writeRangeRec_spec (le_refl _) start stop entry
    obtain ⟨-, normal⟩ := wfWritten.normalizeRec_spec (le_refl _)
    rcases cutSecond (boundary.of_coveredBy (written.trans normal)) with same | before
    · exact .inr (.inl same)
    · exact (cutFirst before).imp id .inr

theorem vmtreeInsert_cuts (wf : Wf root 0 uintptrMax) {b : Addr}
    (boundary : IsBoundary b
      (segments (vmtreeInsert root start stop entry mem).2 0 uintptrMax)) :
    b = start ∨ b = stop ∨ IsBoundary b (segments root 0 uintptrMax) := by
  simp only [vmtreeInsert] at boundary
  split at boundary
  · exact .inr (.inr boundary)
  split at boundary
  · exact .inr (.inr boundary)
  split at boundary
  · exact .inr (.inr boundary)
  split at boundary
  · exact .inr (.inr boundary)
  · exact splitAndWrite_cuts wf boundary

/-- What `vmtree_insert` does with a new entry: it adds its area, or it changes no area. -/
structure Inserts (root : Node) (start stop : Addr) (entry : Entry) (result : Status × Node) :
    Prop where
  wf : Wf result.2 0 uintptrMax
  ok : result.1 = .ok → Canonical result.2 ∧
    (∀ c ∈ mapped root, c.hi ≤ start ∨ stop ≤ c.lo) ∧
    ∀ c, c ∈ mapped result.2 ↔ c ∈ mapped root ∨ c = ⟨start, stop, entry⟩
  failed : result.1 ≠ .ok → ∀ c, c ∈ mapped result.2 ↔ c ∈ mapped root

theorem Canonical.inserts (canonical : Canonical root) (nonzero : entry ≠ 0)
    (nonempty : start < stop) (top : stop ≤ uintptrMax)
    (fresh : ∀ c ∈ mapped root, c.val ≠ entry) (mem : AllocOracle) :
    Inserts root start stop entry (vmtreeInsert root start stop entry mem) := by
  have wf := canonical.wf
  have valid : (Call.insert start stop entry).Valid := ⟨le_of_lt nonempty, top, nonzero⟩
  obtain ⟨outcome, exists_iff⟩ := vmtreeInsert_outcome wf valid mem
  have cuts := fun b => @vmtreeInsert_cuts root start stop entry mem wf b
  by_cases conflict : (vmtreeInsert root start stop entry mem).1 = .errExists
  · have same : (vmtreeInsert root start stop entry mem).2 = root := by
      obtain ⟨addr, low, high, found⟩ := (exists_iff nonempty).mp conflict
      have search := (wf.anyEntry_root_iff (· != 0) nonempty top).mpr
        ⟨addr, low, high, by simpa using found⟩
      have refused : insertValidate root start stop = .errExists := by
        rw [insertValidate, anyNonholeRec, if_pos search]
      rw [vmtreeInsert, if_neg nonzero, if_neg (not_lt.mpr (le_of_lt nonempty)),
        if_neg (ne_of_lt nonempty), refused]
      rfl
    refine ⟨outcome.wf, fun ok => absurd (conflict.symm.trans ok) (by decide), fun _ c => ?_⟩
    rw [same]
  · have free (addr : Addr) (low : start ≤ addr) (high : addr < stop) : entryAt root addr = 0 := by
      by_contra found
      exact conflict ((exists_iff nonempty).mpr ⟨addr, low, high, found⟩)
    have beside := fun c (member : c ∈ mapped root) =>
      beside_of_free wf.tiles wf.shows nonempty free (mem_mapped.mp member).1
        (mem_mapped.mp member).2
    refine ⟨outcome.wf, fun ok => ?_, fun failed c => ?_⟩
    · have values := outcome.ok ok
      have inside (addr : Addr) (low : start ≤ addr) (high : addr < stop) :
          entryAt (vmtreeInsert root start stop entry mem).2 addr = entry := by
        rw [entryAt, values addr (lt_of_lt_of_le high top)]
        exact if_pos ⟨low, high⟩
      have outside (addr : Addr) (_ : 0 ≤ addr) (below : addr < uintptrMax)
          (off : addr < start ∨ stop ≤ addr) :
          entryAt (vmtreeInsert root start stop entry mem).2 addr = entryAt root addr := by
        rw [entryAt, values addr below]
        refine if_neg fun within => ?_
        rcases off with before | behind
        · exact absurd within.1 (not_le.mpr before)
        · exact absurd within.2 (not_lt.mpr behind)
      have unused (addr : Addr) (_ : 0 ≤ addr) (below : addr < uintptrMax) :
          entryAt root addr ≠ entry := by
        intro same
        obtain ⟨member, -⟩ := wf.vmtreeGet_spec below
        exact fresh _ (mem_mapped.mpr ⟨member, by rw [← same] at nonzero; exact nonzero⟩) same
      refine ⟨⟨outcome.wf, ?_⟩, beside, fun c => ?_⟩
      · exact separate_of_written wf.tiles outcome.wf.tiles canonical.separated wf.shows
          outcome.wf.shows nonempty inside outside unused free cuts
      · rw [mem_mapped, mem_mapped]
        exact mem_of_written wf.tiles outcome.wf.tiles canonical.separated wf.shows
          outcome.wf.shows nonempty inside outside (Nat.zero_le _) top unused free cuts c
    · rw [mem_mapped, mem_mapped]
      refine mem_of_uncut wf.tiles outcome.wf.tiles canonical.separated wf.shows outcome.wf.shows
        (· ≠ 0) (fun addr _ below => outcome.unchanged failed addr below)
        (fun d memD ofKind b above under cut => ?_) c
      rcases cuts b cut with rfl | rfl | old
      · rcases beside d (mem_mapped.mpr ⟨memD, ofKind⟩) with le | le
        · exact absurd under (not_lt.mpr le)
        · exact absurd (lt_trans nonempty (lt_of_le_of_lt le above)) (lt_irrefl _)
      · rcases beside d (mem_mapped.mpr ⟨memD, ofKind⟩) with le | le
        · exact absurd (lt_trans (lt_of_lt_of_le under le) nonempty) (lt_irrefl _)
        · exact absurd above (not_lt.mpr le)
      · rcases old d memD with le | le
        · exact absurd above (not_lt.mpr le)
        · exact absurd under (not_lt.mpr le)

/-- Taking away one area needs no memory and leaves the others alone. -/
theorem Canonical.removes (canonical : Canonical root) {c : Segment} (member : c ∈ mapped root)
    (mem : AllocOracle) :
    (vmtreeRemove root c.lo c.hi mem).1 = .ok ∧
      Wf (vmtreeRemove root c.lo c.hi mem).2 0 uintptrMax ∧
      ∀ d, d ∈ mapped (vmtreeRemove root c.lo c.hi mem).2 ↔ d ∈ mapped root ∧ d ≠ c := by
  have wf := canonical.wf
  obtain ⟨segment, nonzero⟩ := mem_mapped.mp member
  obtain ⟨nonempty, top⟩ := wf.mapped_bounds member
  have ends := wf.tiles.isBoundary_ends segment
  have first (later : AllocOracle) : ensureBoundary root c.lo later = ((.ok, later), root) :=
    ensureBoundaryRec_of_isBoundary later wf (by omega) ends.1
  have second (later : AllocOracle) : ensureBoundary root c.hi later = ((.ok, later), root) :=
    ensureBoundaryRec_of_isBoundary later wf (by omega) ends.2
  have eq : vmtreeRemove root c.lo c.hi mem =
      (.ok, normalizeRec (writeRangeRec c.lo c.hi 0 root 0 uintptrMax)) := by
    rw [vmtreeRemove, writeRange, if_neg (not_lt.mpr (le_of_lt nonempty)),
      if_neg (ne_of_lt nonempty)]
    simp [validateRange, splitAndWrite, first, second]
  have valid : (Call.remove c.lo c.hi).Valid := ⟨le_of_lt nonempty, top⟩
  have outcome := vmtreeRemove_outcome wf valid mem
  have ok : (vmtreeRemove root c.lo c.hi mem).1 = .ok := by rw [eq]
  have values := outcome.ok ok
  have cuts (b : Addr)
      (cut : IsBoundary b (segments (vmtreeRemove root c.lo c.hi mem).2 0 uintptrMax)) :
      IsBoundary b (segments root 0 uintptrMax) := by
    rw [eq] at cut
    obtain ⟨wfWritten, written⟩ := wf.writeRangeRec_spec (le_refl _) c.lo c.hi 0
    obtain ⟨-, normal⟩ := wfWritten.normalizeRec_spec (le_refl _)
    exact cut.of_coveredBy (written.trans normal)
  refine ⟨ok, outcome.wf, fun d => ?_⟩
  rw [mem_mapped, mem_mapped]
  refine mem_of_erased wf.tiles outcome.wf.tiles canonical.separated wf.shows
    outcome.wf.shows nonempty (fun addr low high => ?_) (fun addr _ below off => ?_) segment rfl
    cuts d
  · rw [entryAt, values addr (lt_of_lt_of_le high top)]
    exact if_pos ⟨low, high⟩
  · rw [entryAt, values addr below]
    refine if_neg fun within => ?_
    rcases off with before | behind
    · exact absurd within.1 (not_le.mpr before)
    · exact absurd within.2 (not_lt.mpr behind)

end Calls

end Opal.VmTree
