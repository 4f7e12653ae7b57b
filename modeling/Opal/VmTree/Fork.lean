import Opal.VmTree.Rewrite

/-!
# Where a vmtree is cut by internal nodes

Equal neighbours are merged inside a leaf and between uniform children of one
node.  What remains are the pivots of internal nodes, here called forks with the
two pivots next to them.  A write keeps the forks of the tree, and splitting adds
forks only by promoting a full leaf.
-/

namespace Opal.VmTree

open Opal.Library

section Gaps

/-- The ranges between neighbouring pivots. -/
def gaps (lo hi : Addr) (ps : List Addr) : List (Cell Addr Unit) :=
  cells lo hi ps (List.replicate (ps.length + 1) ())

theorem mem_gaps_iff {α : Type} {lo hi : Addr} {ps : List Addr} {slots : List α}
    (length : slots.length = ps.length + 1) {g : Cell Addr Unit} :
    g ∈ gaps lo hi ps ↔ ∃ c ∈ cells lo hi ps slots, c.lo = g.lo ∧ c.hi = g.hi := by
  have units : List.replicate (ps.length + 1) () = slots.map fun _ => () := by
    rw [List.map_const', length]
  rw [gaps, units, cells_map, List.mem_map]
  constructor
  · rintro ⟨c, mem, rfl⟩
    exact ⟨c, mem, rfl, rfl⟩
  · rintro ⟨c, mem, low, high⟩
    exact ⟨c, mem, by cases g; simp_all⟩

/-- `l`, `b`, `r` follow each other among the ends of the range and its pivots. -/
def Neighbours (lo hi : Addr) (ps : List Addr) (l b r : Addr) : Prop :=
  ⟨l, b, ()⟩ ∈ gaps lo hi ps ∧ ⟨b, r, ()⟩ ∈ gaps lo hi ps

/-- The one in the middle is a pivot. -/
theorem Neighbours.mem {lo hi l b r : Addr} {ps : List Addr} (near : Neighbours lo hi ps l b r)
    (nonempty : lo < hi) : b ∈ ps := by
  rcases (ends_of_mem_cells near.1).2 with last | inside
  · rcases (ends_of_mem_cells near.2).1 with first | inside
    · exact absurd (first.symm.trans last) (ne_of_lt nonempty)
    · exact inside
  · exact inside

end Gaps

section Fork

/-- A pivot of an internal node below `node`, between its two neighbours. -/
inductive Fork : Node → Addr → Addr → Addr → Addr → Addr → Prop
  | here {pivots slots lo hi l b r} : Neighbours lo hi (usedPivots pivots) l b r →
      Fork (.internal pivots slots) lo hi l b r
  | child {pivots slots lo hi l b r c} : c ∈ cells lo hi (usedPivots pivots) slots →
      Fork c.val c.lo c.hi l b r → Fork (.internal pivots slots) lo hi l b r

/-- The pivots in use of a leaf below `node`, and the range of the leaf. -/
inductive LeafAt : Node → Addr → Addr → List Addr → Addr → Addr → Prop
  | here {pivots slots lo hi} : LeafAt (.leaf pivots slots) lo hi (usedPivots pivots) lo hi
  | child {pivots slots lo hi used low high c} : c ∈ cells lo hi (usedPivots pivots) slots →
      LeafAt c.val c.lo c.hi used low high → LeafAt (.internal pivots slots) lo hi used low high

/-- A boundary at `x` has to be inserted into a leaf with these pivots. -/
def Needs (x : Addr) (used : List Addr) (low high : Addr) : Prop :=
  low < x ∧ x < high ∧ x ∉ used

theorem not_fork_leaf {pivots : List Addr} {slots : List Entry} {lo hi l b r : Addr} :
    ¬ Fork (.leaf pivots slots) lo hi l b r := nofun

/-- How splitting at `x` changes forks and leaves. -/
structure Reshapes (x : Addr) (old new : Node) (lo hi : Addr) : Prop where
  fork : ∀ {l b r}, Fork new lo hi l b r → Fork old lo hi l b r ∨
    ∃ used low high, LeafAt old lo hi used low high ∧ Needs x used low high ∧
      used.length = nodeSlots - 1 ∧ Neighbours low high used l b r
  leaf : ∀ {used low high}, LeafAt new lo hi used low high →
    LeafAt old lo hi used low high ∨
    (∃ before, LeafAt old lo hi before low high ∧ Needs x before low high ∧
      used = before.insertIdx (position x before) x) ∨ used.length ≤ 1

theorem Reshapes.refl (x : Addr) (node : Node) (lo hi : Addr) : Reshapes x node node lo hi :=
  ⟨.inl, .inl⟩

theorem Reshapes.of_child {x : Addr} {pivots : List Addr} {slots slots' : List Node}
    {lo hi : Addr}
    (child : ∀ d ∈ cells lo hi (usedPivots pivots) slots',
      ∃ c ∈ cells lo hi (usedPivots pivots) slots,
        c.lo = d.lo ∧ c.hi = d.hi ∧ Reshapes x c.val d.val d.lo d.hi) :
    Reshapes x (.internal pivots slots) (.internal pivots slots') lo hi := by
  constructor
  · intro l b r fork
    cases fork with
    | here neighbours => exact .inl (.here neighbours)
    | @child _ _ _ _ _ _ _ d mem inner =>
      obtain ⟨c, memC, low, high, reshapes⟩ := child d mem
      rw [← low, ← high] at reshapes inner
      rcases reshapes.fork inner with old | ⟨used, l', h', leaf, rest⟩
      · exact .inl (.child memC old)
      · exact .inr ⟨used, l', h', .child memC leaf, rest⟩
  · intro used l' h' leaf
    cases leaf with
    | @child _ _ _ _ _ _ _ d mem inner =>
      obtain ⟨c, memC, low, high, reshapes⟩ := child d mem
      rw [← low, ← high] at reshapes inner
      rcases reshapes.leaf inner with old | ⟨before, old, rest⟩ | short
      · exact .inl (.child memC old)
      · exact .inr (.inl ⟨before, .child memC old, rest⟩)
      · exact .inr (.inr short)

theorem LeafAt.of_promoted {pivots : List Addr} {slots : List Entry} {lo hi : Addr}
    {used : List Addr} {low high : Addr}
    (leaf : LeafAt (.internal pivots (slots.map allocLeafNode)) lo hi used low high) :
    used = [] := by
  cases leaf with
  | @child _ _ _ _ _ _ _ c mem inner =>
    obtain ⟨entry, -, eq⟩ := List.mem_map.mp (mem_of_mem_cells mem)
    rw [← eq, allocLeafNode, uniformLeaf] at inner
    cases inner
    exact usedPivots_uniformLeaf

theorem Fork.of_promoted {pivots : List Addr} {slots : List Entry} {lo hi l b r : Addr}
    (fork : Fork (.internal pivots (slots.map allocLeafNode)) lo hi l b r) :
    Neighbours lo hi (usedPivots pivots) l b r := by
  cases fork with
  | here neighbours => exact neighbours
  | @child _ _ _ _ _ _ _ c mem inner =>
    obtain ⟨entry, -, eq⟩ := List.mem_map.mp (mem_of_mem_cells mem)
    rw [← eq] at inner
    exact absurd inner not_fork_leaf

/-- A promotion turns the pivots of the full leaf into forks and leaves behind
leaves of at most one pivot. -/
theorem Reshapes.of_promoted {x : Addr} {pivots : List Addr} {slots : List Entry} {lo hi : Addr}
    {new : Node} (needs : Needs x (usedPivots pivots) lo hi)
    (full : (usedPivots pivots).length = nodeSlots - 1)
    (after : Reshapes x (.internal pivots (slots.map allocLeafNode)) new lo hi) :
    Reshapes x (.leaf pivots slots) new lo hi := by
  constructor
  · intro l b r fork
    rcases after.fork fork with promoted | ⟨used, low, high, leaf, -, count, -⟩
    · exact .inr ⟨_, lo, hi, .here, needs, full, promoted.of_promoted⟩
    · rw [leaf.of_promoted] at count
      simp [nodeSlots] at count
  · intro used low high leaf
    refine .inr (.inr ?_)
    rcases after.leaf leaf with old | ⟨before, old, -, rfl⟩ | short
    · simp [old.of_promoted]
    · simp [old.of_promoted, position]
    · exact short

theorem ensureBoundaryRec_reshapes (x : Addr) (fuel : Nat) {node : Node} {lo hi : Addr}
    (mem : AllocOracle) (wf : Wf node lo hi) (top : hi ≤ uintptrMax) :
    Reshapes x node (ensureBoundaryRec x fuel node lo hi mem).2 lo hi := by
  induction fuel generalizing node lo hi mem with
  | zero => exact .refl _ _ _ _
  | succ fuel ih =>
    by_cases outside : x ≤ lo ∨ hi ≤ x
    · have unchanged : ensureBoundaryRec x (fuel + 1) node lo hi mem = ((.ok, mem), node) := by
        cases node <;> rw [ensureBoundaryRec, if_pos outside]
      rw [unchanged]
      exact .refl _ _ _ _
    obtain ⟨low, high⟩ := not_or.mp outside
    rw [not_le] at low high
    cases wf with
    | @internal pivots slots _ _ _ inc length wfs =>
      rw [ensureBoundaryRec, if_neg outside]
      refine Reshapes.of_child fun d memD => ?_
      obtain ⟨c, memC, -, -, -, others⟩ := updateSlot_spec
        (fun s lo hi => ensureBoundaryRec x fuel s lo hi mem) (.ok, mem)
        inc length (le_of_lt low) high
      rcases others d memD with rfl | ⟨old, -⟩
      · exact ⟨c, memC, rfl, rfl, ih mem (wfs c memC)
          (le_trans ((tiles_cells inc length).mem_bounds memC).2.2 top)⟩
      · exact ⟨d, old, rfl, rfl, .refl _ _ _ _⟩
    | @leaf pivots slots _ _ filled inc length =>
      rw [ensureBoundaryRec, if_neg outside]
      rcases insertLeafBoundary_cases slots filled inc low high with
        ⟨-, eq⟩ | ⟨fresh, full, eq⟩ | ⟨fresh, -, eq⟩
      · rw [eq]
        exact .refl _ _ _ _
      · simp only [eq]
        split
        · exact .refl _ _ _ _
        · rename_i promoted later eqPromoted
          obtain rfl := promoteLeafToInternal_some eqPromoted
          exact .of_promoted ⟨low, high, fresh⟩ full
            (ih later (Wf.leaf filled inc length).promoted top)
      · rw [eq]
        refine ⟨fun fork => absurd fork not_fork_leaf, fun leaf => .inr (.inl ?_)⟩
        cases leaf
        have small := Increasing.lt_max (increasing_insertIdx inc low high fresh) top
        exact ⟨_, .here, ⟨low, high, fresh⟩, usedPivots_fill small⟩

/-- A write keeps the forks of the nodes it does not replace. -/
theorem Wf.fork_writeRangeRec {node : Node} {lo hi : Addr} (wf : Wf node lo hi)
    {start stop : Addr} {entry : Entry} {l b r : Addr}
    (fork : Fork (writeRangeRec start stop entry node lo hi) lo hi l b r) :
    Fork node lo hi l b r := by
  induction wf with
  | leaf _ _ _ =>
    rw [writeRangeRec] at fork
    split at fork
    · exact fork
    split at fork
    · exact absurd fork not_fork_leaf
    · exact absurd fork not_fork_leaf
  | @internal pivots slots lo hi _ _ length _ ih =>
    rw [writeRangeRec] at fork
    split at fork
    · exact fork
    split at fork
    · exact absurd fork not_fork_leaf
    · cases fork with
      | here neighbours => exact .here neighbours
      | @child _ _ _ _ _ _ _ d mem inner =>
        rw [writeRangeSlots_eq start stop entry length, cells_map_cells _ length,
          List.mem_map] at mem
        obtain ⟨c, memC, rfl⟩ := mem
        dsimp only at inner
        split at inner
        · exact .child memC inner
        · exact .child memC (ih c memC inner)

end Fork

end Opal.VmTree
