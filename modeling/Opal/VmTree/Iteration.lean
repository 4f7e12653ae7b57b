import Opal.VmTree.Maximal
import Mathlib.Order.MinMax

/-!
# Iterating over a vmtree

While the segments of the tree are separated, every range `vmtree_get` reports is
maximal and the iterator yields the mapped segments from left to right.  A call
keeps the segments separated when no fork it leaves behind has equal entries on
both sides without its two children being constant.
-/

namespace Opal.VmTree

open Opal.Library

section Condition

/-- The forks of the tree once it is split at `start` and `stop`: those it has, the
pivots of a full leaf that needs a boundary, and the pivots of a leaf that has
room for the first boundary only. -/
inductive WillFork (root : Node) (start stop : Addr) : Addr → Addr → Addr → Prop
  | fork {l b r} : Fork root 0 uintptrMax l b r → WillFork root start stop l b r
  | full {used low high l b r} : LeafAt root 0 uintptrMax used low high →
      used.length = nodeSlots - 1 → Needs start used low high ∨ Needs stop used low high →
      Neighbours low high used l b r → WillFork root start stop l b r
  | second {used low high l b r} : LeafAt root 0 uintptrMax used low high →
      used.length = nodeSlots - 2 → Needs start used low high → Needs stop used low high →
      Neighbours low high (used.insertIdx (position start used) start) l b r →
      WillFork root start stop l b r

/-- The entries the call asks for. -/
def requested (root : Node) (call : Call) : Addr → Entry :=
  update (fun addr => (vmtreeGet root addr).val) call.start call.stop call.entry

/-- The call leaves equal entries on both sides of a fork only where the two
children around the fork are constant. -/
def Mergeable (root : Node) (call : Call) : Prop :=
  call.start < call.stop →
    ∀ l b r, WillFork root call.start call.stop l b r → Harmless (requested root call) l b r

theorem Needs.of_insertIdx {x y : Addr} {used : List Addr} {low high : Addr}
    (needs : Needs y (used.insertIdx (position x used) x) low high) : Needs y used low high := by
  refine ⟨needs.1, needs.2.1, fun mem => needs.2.2 ?_⟩
  exact (List.mem_insertIdx (position_le x used)).mpr (.inr mem)

theorem WillFork.of_fork {root middle split : Node} {start stop l b r : Addr}
    (first : Reshapes start root middle 0 uintptrMax)
    (second : Reshapes stop middle split 0 uintptrMax)
    (fork : Fork split 0 uintptrMax l b r) : WillFork root start stop l b r := by
  rcases second.fork fork with old | ⟨used, low, high, leaf, needs, count, near⟩
  · rcases first.fork old with before | ⟨used, low, high, leaf, needs, count, near⟩
    · exact .fork before
    · exact .full leaf count (.inl needs) near
  · rcases first.leaf leaf with same | ⟨before, old, needsStart, rfl⟩ | short
    · exact .full same count (.inr needs) near
    · have length := List.length_insertIdx_of_le_length (position_le start before) start
      refine .second old ?_ needsStart needs.of_insertIdx near
      simp only [nodeSlots] at count ⊢
      omega
    · simp only [nodeSlots] at count
      omega

end Condition

section Step

/-- Nothing is cut that could be one range. -/
structure Canonical (root : Node) : Prop where
  wf : Wf root 0 uintptrMax
  separated : Separated (segments root 0 uintptrMax)

theorem canonical_init : Canonical vmtreeInit := by
  refine ⟨agrees_init.wf, ?_⟩
  rw [show vmtreeInit = uniformLeaf 0 from rfl, segments_uniformLeaf]
  exact separated_singleton 0 (by decide)

theorem splitAndWrite_separated {root : Node} (wf : Wf root 0 uintptrMax) {call : Call}
    (harmless : ∀ l b r, WillFork root call.start call.stop l b r →
      Harmless (requested root call) l b r) (mem : AllocOracle)
    (ok : (splitAndWrite root call.start call.stop call.entry mem).1 = .ok) :
    Separated
      (segments (splitAndWrite root call.start call.stop call.entry mem).2 0 uintptrMax) := by
  rcases splitAndWrite_cases wf call.start call.stop call.entry mem with
    ⟨middle, split, later, eqMiddle, eqSplit, first, second, eq⟩ | ⟨split, -, -, eq⟩
  · obtain ⟨wfNew, value⟩ := first.write_val wf second call.entry
    have reshapesFirst : Reshapes call.start root middle 0 uintptrMax :=
      eqMiddle ▸ ensureBoundaryRec_reshapes call.start _ mem wf (le_refl _)
    have reshapesSecond : Reshapes call.stop middle split 0 uintptrMax :=
      eqSplit ▸ ensureBoundaryRec_reshapes call.stop _ later first.wf (le_refl _)
    rw [eq]
    obtain ⟨wfWritten, -⟩ :=
      second.wf.writeRangeRec_spec (le_refl _) call.start call.stop call.entry
    obtain ⟨wfNormal, normal⟩ := wfWritten.normalizeRec_spec (le_refl _)
    apply @Wf.normalizeRec_separated _ _ _ wfWritten (le_refl _) (requested root call)
    · intro c memC addr has
      have below : addr < uintptrMax :=
        lt_of_lt_of_le has.2 (wfWritten.tiles.mem_bounds memC).2.2
      obtain ⟨d, memD, inside, same⟩ := normal c memC
      rw [requested, update, ← value addr below,
        wfNormal.vmtreeGet_eq_of_has memD (has.inside inside), same]
    · intro l b r fork
      apply harmless
      exact .of_fork reshapesFirst reshapesSecond (second.wf.fork_writeRangeRec fork)
  · rw [eq] at ok
    cases ok

/-- A successful call that does not touch the tree or ends in a write. -/
theorem exec_ok_cases {root : Node} {mem : AllocOracle} {call : Call} (valid : call.Valid)
    (ok : (exec root mem call).1 = .ok) :
    (call.start = call.stop ∧ (exec root mem call).2 = root) ∨
      (call.start < call.stop ∧
        exec root mem call = splitAndWrite root call.start call.stop call.entry mem) := by
  have guarded {st : Status} {write : Status × Node}
      (ok : (if st ≠ .ok then (st, root) else write).1 = .ok) :
      (if st ≠ .ok then (st, root) else write) = write := by
    by_cases failed : st ≠ .ok
    · rw [if_pos failed] at ok
      exact absurd ok failed
    · rw [if_neg failed]
  rcases eq_or_lt_of_le valid.bounds.1 with empty | nonempty
  · refine .inl ⟨empty, ?_⟩
    cases call with
    | insert start stop entry =>
      simp only [Call.start, Call.stop] at empty
      rw [exec, vmtreeInsert, if_neg valid.2.2, if_neg (not_lt.mpr valid.1), if_pos empty]
    | set start stop entry =>
      simp only [Call.start, Call.stop] at empty
      rw [exec, vmtreeSet, if_neg valid.2.2, writeRange, if_neg (not_lt.mpr valid.1),
        if_pos empty]
    | remove start stop =>
      simp only [Call.start, Call.stop] at empty
      rw [exec, vmtreeRemove, writeRange, if_neg (not_lt.mpr valid.1), if_pos empty]
  · refine .inr ⟨nonempty, ?_⟩
    cases call with
    | insert start stop entry =>
      simp only [Call.start, Call.stop] at nonempty
      rw [exec, vmtreeInsert, if_neg valid.2.2, if_neg (not_lt.mpr valid.1),
        if_neg (ne_of_lt nonempty)] at ok ⊢
      exact guarded ok
    | set start stop entry =>
      simp only [Call.start, Call.stop] at nonempty
      rw [exec, vmtreeSet, if_neg valid.2.2, writeRange, if_neg (not_lt.mpr valid.1),
        if_neg (ne_of_lt nonempty)] at ok ⊢
      exact guarded ok
    | remove start stop =>
      simp only [Call.start, Call.stop] at nonempty
      rw [exec, vmtreeRemove, writeRange, if_neg (not_lt.mpr valid.1),
        if_neg (ne_of_lt nonempty)] at ok ⊢
      exact guarded ok

theorem Canonical.exec {root : Node} (canonical : Canonical root) {mem : AllocOracle}
    {call : Call} (valid : call.Valid) (ok : (exec root mem call).1 = .ok)
    (mergeable : Mergeable root call) : Canonical (exec root mem call).2 := by
  refine ⟨(exec_outcome canonical.wf valid mem).wf, ?_⟩
  rcases exec_ok_cases valid ok with ⟨-, same⟩ | ⟨nonempty, eq⟩
  · rw [same]
    exact canonical.separated
  · rw [eq] at ok ⊢
    exact splitAndWrite_separated canonical.wf (mergeable nonempty) mem ok

end Step

section Maximal

/-- The entry of an address, as `vmtree_get` reports it. -/
def entryAt (root : Node) (addr : Addr) : Entry := (vmtreeGet root addr).val

/-- A range with one entry that no larger range has. -/
structure MaximalRun (value : Addr → Entry) (c : Segment) : Prop where
  nonempty : c.lo < c.hi
  bound : c.hi ≤ uintptrMax
  const : ∀ addr, c.Has addr → value addr = c.val
  maximal : ∀ l h, l ≤ c.lo → c.hi ≤ h → h ≤ uintptrMax →
    (∀ addr, l ≤ addr → addr < h → value addr = c.val) → l = c.lo ∧ h = c.hi

theorem Canonical.maximalRun {root : Node} (canonical : Canonical root) {c : Segment}
    (mem : c ∈ segments root 0 uintptrMax) : MaximalRun (entryAt root) c := by
  have wf := canonical.wf
  obtain ⟨-, inner, top⟩ := wf.tiles.mem_bounds mem
  refine ⟨inner, top, fun addr has => by rw [entryAt, wf.vmtreeGet_eq_of_has mem has], ?_⟩
  intro l h low high bound const
  constructor
  · by_contra differ
    -- the segment in front of `c` would carry the same entry
    have outside : l < c.lo := lt_of_le_of_ne low differ
    have inside : c.lo - 1 < c.lo := Nat.sub_one_lt_of_lt outside
    have before : c.lo - 1 < uintptrMax := lt_trans inside (lt_of_lt_of_le inner top)
    obtain ⟨memLeft, hasLeft⟩ := wf.vmtreeGet_spec before
    apply canonical.separated _ memLeft _ mem
    · have ne : vmtreeGet root (c.lo - 1) ≠ c := by
        intro eq
        rw [eq] at hasLeft
        exact absurd hasLeft.1 (not_le.mpr inside)
      rcases wf.tiles.apart memLeft mem ne with left | right
      · exact le_antisymm left (Nat.le_of_pred_lt hasLeft.2)
      · exact absurd (le_trans right hasLeft.1) (not_le.mpr (lt_trans inside inner))
    · exact const _ (Nat.le_sub_one_of_lt outside) (lt_trans inside (lt_of_lt_of_le inner high))
  · by_contra differ
    have outside : c.hi < h := lt_of_le_of_ne high (Ne.symm differ)
    obtain ⟨memRight, hasRight⟩ := wf.vmtreeGet_spec (lt_of_lt_of_le outside bound)
    apply canonical.separated _ mem _ memRight
    · have ne : c ≠ vmtreeGet root c.hi := by
        intro eq
        rw [← eq] at hasRight
        exact absurd hasRight.2 (lt_irrefl _)
      rcases wf.tiles.apart mem memRight ne with left | right
      · exact le_antisymm left hasRight.1
      · exact absurd (le_trans (le_of_lt hasRight.2) right) (not_le.mpr inner)
    · exact (const _ (le_trans low (le_of_lt inner)) outside).symm

/-- Two maximal runs that share an address are the same. -/
theorem MaximalRun.eq_of_has {value : Addr → Entry} {c d : Segment} (left : MaximalRun value c)
    (right : MaximalRun value d) {addr : Addr} (hasC : c.Has addr) (hasD : d.Has addr) :
    c = d := by
  have same : c.val = d.val := by rw [← left.const addr hasC, right.const addr hasD]
  have union (other : Addr) (low : min c.lo d.lo ≤ other) (high : other < max c.hi d.hi) :
      value other = c.val := by
    by_cases inC : c.Has other
    · exact left.const other inC
    · rw [same]
      refine right.const other ⟨?_, ?_⟩
      · by_contra under
        rw [not_le] at under
        have lowC : c.lo ≤ other := (min_le_iff.mp low).resolve_right (not_le.mpr under)
        exact inC ⟨lowC, lt_trans under (lt_of_le_of_lt hasD.1 hasC.2)⟩
      · by_contra beyond
        rw [not_lt] at beyond
        have highC : other < c.hi := (lt_max_iff.mp high).resolve_right (not_lt.mpr beyond)
        exact inC ⟨le_trans hasC.1 (le_trans (le_of_lt hasD.2) beyond), highC⟩
  obtain ⟨loC, hiC⟩ := left.maximal _ _ (min_le_left _ _) (le_max_left _ _)
    (max_le left.bound right.bound) union
  obtain ⟨loD, hiD⟩ := right.maximal _ _ (min_le_right _ _) (le_max_right _ _)
    (max_le left.bound right.bound) (same ▸ union)
  cases c
  cases d
  simp_all

end Maximal

section Iterator

variable {root : Node} (wf : Wf root 0 uintptrMax)

include wf

/-- From the start of a segment the iterator finds the first one that is no hole. -/
theorem Wf.iterFrom_eq {rest : List Segment} (mem : ∀ c ∈ rest, c ∈ segments root 0 uintptrMax)
    {addr : Addr} (tiles : Tiles addr uintptrMax rest) {fuel : Nat}
    (enough : rest.length < fuel) :
    iterFrom root fuel addr = rest.find? fun c => c.val != 0 := by
  induction rest generalizing addr fuel with
  | nil =>
    obtain ⟨fuel, rfl⟩ := Nat.exists_eq_add_one_of_ne_zero (Nat.ne_of_gt enough)
    rw [tiles_nil] at tiles
    rw [iterFrom, if_pos tiles, List.find?_nil]
  | cons c cs ih =>
    obtain ⟨fuel, rfl⟩ := Nat.exists_eq_add_one_of_ne_zero (Nat.ne_of_gt (Nat.zero_lt_of_lt enough))
    obtain ⟨start, nonempty, follow⟩ := tiles
    have below : addr ≠ uintptrMax := ne_of_lt (lt_of_lt_of_le nonempty follow.le)
    have found : vmtreeGet root addr = c :=
      wf.vmtreeGet_eq_of_has (mem c (by simp)) ⟨le_of_eq start, nonempty⟩
    rw [iterFrom, if_neg below, found, List.find?_cons]
    by_cases hole : c.val = 0
    · simp only [hole, ne_eq, not_true_eq_false, if_false, bne_self_eq_false]
      by_cases last : c.hi = uintptrMax
      · rw [if_pos last]
        cases cs with
        | nil => rfl
        | cons d ds =>
          rw [last] at follow
          exact absurd (lt_of_lt_of_le follow.2.1 follow.2.2.le) (lt_irrefl _)
      · rw [if_neg last]
        exact ih (fun d memD => mem d (by simp [memD])) follow
          (by simp only [List.length_cons] at enough; omega)
    · have entry : (c.val != 0) = true := by simpa using hole
      simp [entry, hole]

/-- The iterator yields the segments that are no holes. -/
theorem Wf.collect_eq {rest : List Segment} (mem : ∀ c ∈ rest, c ∈ segments root 0 uintptrMax)
    {addr : Addr} (tiles : Tiles addr uintptrMax rest) {fuel rounds : Nat}
    (enough : rest.length < fuel) (turns : rest.length < rounds) :
    collect root fuel rounds ⟨addr, false⟩ = rest.filter fun c => c.val != 0 := by
  induction rounds generalizing rest addr with
  | zero => exact absurd turns (Nat.not_lt_zero _)
  | succ rounds ih =>
    have next := wf.iterFrom_eq mem tiles enough
    cases found : rest.find? fun c => c.val != 0 with
    | none =>
      rw [found] at next
      rw [List.find?_eq_none] at found
      rw [collect, vmtreeIterNext, next, List.filter_eq_nil_iff.mpr found]
      rfl
    | some c =>
      rw [found] at next
      obtain ⟨entry, holes, tail, rfl, skipped⟩ := List.find?_eq_some_iff_append.mp found
      have follow : Tiles c.hi uintptrMax tail := tiles.of_append
      have none : holes.filter (fun c => c.val != 0) = [] :=
        List.filter_eq_nil_iff.mpr fun d memD => by simpa using skipped d memD
      rw [List.filter_append, none, List.nil_append, List.filter_cons_of_pos (by exact entry)]
      simp only [collect, vmtreeIterNext, next, Bool.false_eq_true, if_false]
      congr 1
      by_cases last : c.hi = uintptrMax
      · rw [if_pos last]
        cases tail with
        | nil => cases rounds <;> simp [collect, vmtreeIterNext]
        | cons d ds =>
          rw [last] at follow
          exact absurd (lt_of_lt_of_le follow.2.1 follow.2.2.le) (lt_irrefl _)
      · rw [if_neg last]
        simp only [List.length_append, List.length_cons] at enough turns
        exact ih (fun d memD => mem d (by simp [memD])) follow (by omega) (by omega)

end Iterator

section Run

/-- Every call of the run is valid and reports success. -/
def Successful : Node → List (Call × AllocOracle) → Prop
  | _, [] => True
  | root, (call, mem) :: rest =>
      call.Valid ∧ (exec root mem call).1 = .ok ∧ Successful (exec root mem call).2 rest

/-- Every call of the run finds a tree in which it can be merged with its neighbours. -/
def MergeableRun : Node → List (Call × AllocOracle) → Prop
  | _, [] => True
  | root, (call, mem) :: rest => Mergeable root call ∧ MergeableRun (exec root mem call).2 rest

def Successful.decidable : (root : Node) → (requests : List (Call × AllocOracle)) →
    Decidable (Successful root requests)
  | _, [] => .isTrue trivial
  | root, (call, mem) :: rest =>
      have := Successful.decidable (exec root mem call).2 rest
      inferInstanceAs (Decidable (_ ∧ _ ∧ _))

instance (root : Node) (requests : List (Call × AllocOracle)) :
    Decidable (Successful root requests) := Successful.decidable root requests

theorem Canonical.foldl {requests : List (Call × AllocOracle)} {state : Node × (Addr → Entry)}
    (canonical : Canonical state.1) (successful : Successful state.1 requests)
    (mergeable : MergeableRun state.1 requests) :
    Canonical (requests.foldl step state).1 := by
  induction requests generalizing state with
  | nil => exact canonical
  | cons request rest ih =>
    obtain ⟨valid, ok, successfulRest⟩ := successful
    exact ih (canonical.exec valid ok mergeable.1) successfulRest mergeable.2

/-- Under the condition above every reported range is maximal, and the iterator
yields each maximal run of mapped addresses once, in ascending order. -/
theorem run_maximal (requests : List (Call × AllocOracle))
    (successful : Successful vmtreeInit requests)
    (mergeable : MergeableRun vmtreeInit requests) :
    (∀ addr < uintptrMax, (vmtreeGet (run requests).1 addr).Has addr ∧
      MaximalRun (entryAt (run requests).1) (vmtreeGet (run requests).1 addr)) ∧
    ∃ bound, ∀ fuel ≥ bound, ∀ rounds ≥ bound,
      (collect (run requests).1 fuel rounds vmtreeBeforeBegin).Pairwise (·.hi ≤ ·.lo) ∧
      ∀ c, c ∈ collect (run requests).1 fuel rounds vmtreeBeforeBegin ↔
        c.val ≠ 0 ∧ MaximalRun (entryAt (run requests).1) c := by
  have canonical : Canonical (run requests).1 :=
    @Canonical.foldl requests (vmtreeInit, fun _ => 0) canonical_init successful mergeable
  have wf := canonical.wf
  refine ⟨fun addr below => ?_, (segments (run requests).1 0 uintptrMax).length + 1, ?_⟩
  · obtain ⟨mem, has⟩ := wf.vmtreeGet_spec below
    exact ⟨has, canonical.maximalRun mem⟩
  · intro fuel enough rounds turns
    have yielded := wf.collect_eq (fun _ mem => mem) wf.tiles enough turns
    rw [vmtreeBeforeBegin, yielded]
    refine ⟨wf.tiles.pairwise.filter _, fun c => ?_⟩
    simp only [List.mem_filter, bne_iff_ne, ne_eq]
    constructor
    · rintro ⟨mem, entry⟩
      exact ⟨entry, canonical.maximalRun mem⟩
    · rintro ⟨entry, maximal⟩
      have has : c.Has c.lo := ⟨le_refl _, maximal.nonempty⟩
      obtain ⟨mem, found⟩ :=
        wf.vmtreeGet_spec (lt_of_lt_of_le maximal.nonempty maximal.bound)
      have eq := maximal.eq_of_has (canonical.maximalRun mem) has found
      exact ⟨eq ▸ mem, entry⟩

/-- A fork that comes of a leaf is one of its pivots, or the first of the new boundaries. -/
theorem WillFork.mem_of_leaf {pivots : List Addr} {slots : List Entry} {start stop l b r : Addr}
    (willFork : WillFork (.leaf pivots slots) start stop l b r) :
    b ∈ start :: usedPivots pivots := by
  cases willFork with
  | fork fork => exact absurd fork not_fork_leaf
  | full leaf _ _ near =>
    cases leaf
    exact List.mem_cons_of_mem _ (near.mem (by decide))
  | @second used low high _ _ _ leaf _ _ _ near =>
    cases leaf
    exact (List.mem_insertIdx (position_le start _)).mp (near.mem (by decide)) |>.elim
      (fun same => same ▸ List.mem_cons_self) (List.mem_cons_of_mem _)

/-- The tree is a leaf, and the call leaves different entries on both sides of its pivots and of
the start of the range. -/
def Parted (root : Node) (call : Call) : Bool :=
  match root with
  | .leaf pivots _ =>
      (call.start :: usedPivots pivots).all fun b =>
        requested root call (b - 1) ≠ requested root call b
  | .internal _ _ => false

theorem Parted.mergeable {root : Node} {call : Call} (parted : Parted root call = true) :
    Mergeable root call := by
  intro _ l b r willFork equal
  cases root with
  | internal pivots slots => cases parted
  | leaf pivots slots =>
    have apart := List.all_eq_true.mp parted b willFork.mem_of_leaf
    exact absurd equal (of_decide_eq_true apart)

/-- Every call of the run finds a leaf with different entries around its pivots. -/
def PartedRun : Node → List (Call × AllocOracle) → Bool
  | _, [] => true
  | root, (call, mem) :: rest => Parted root call && PartedRun (exec root mem call).2 rest

theorem PartedRun.mergeable {requests : List (Call × AllocOracle)} {root : Node}
    (parted : PartedRun root requests = true) : MergeableRun root requests := by
  induction requests generalizing root with
  | nil => trivial
  | cons request rest ih =>
    obtain ⟨here, later⟩ := (Bool.and_eq_true _ _).mp parted
    exact ⟨Parted.mergeable here, ih later⟩

/-- Eight calls fill the leaf, and the last one promotes it. -/
def promoting : List (Call × AllocOracle) :=
  [.insert 10 20 1, .insert 30 40 2, .insert 50 60 3, .insert 70 80 4, .insert 90 100 5,
    .insert 110 120 6, .insert 130 140 7, .insert 140 150 8, .insert 22 25 9].map
      (·, AllocOracle.always)

theorem run_maximal_promoting : Successful vmtreeInit promoting ∧
    MergeableRun vmtreeInit promoting ∧
    (∃ pivots slots, (run promoting).1 = .internal pivots slots) ∧
    vmtreeGet (run promoting).1 23 = ⟨22, 25, 9⟩ ∧
    MaximalRun (entryAt (run promoting).1) ⟨22, 25, 9⟩ := by
  have successful : Successful vmtreeInit promoting := by decide +kernel
  have mergeable : MergeableRun vmtreeInit promoting := PartedRun.mergeable (by decide +kernel)
  have found : vmtreeGet (run promoting).1 23 = ⟨22, 25, 9⟩ := by decide +kernel
  have height : 0 < height (run promoting).1 := by decide +kernel
  refine ⟨successful, mergeable, ?_, found, ?_⟩
  · cases shape : (run promoting).1 with
    | internal pivots slots => exact ⟨pivots, slots, rfl⟩
    | leaf pivots slots =>
      rw [shape] at height
      cases height
  · rw [← found]
    exact ((run_maximal _ successful mergeable).1 23 (by decide)).2

/-- The first nine calls leave a root whose pivots are `10, 20, 30, 40, …`; the last
one maps `[25, 30)` like `[30, 40)`, in the other child of the pivot `30`. -/
def neighboursApart : List (Call × AllocOracle) :=
  [.insert 10 20 1, .insert 30 40 2, .insert 50 60 3, .insert 70 80 4, .insert 90 100 5,
    .insert 110 120 6, .insert 130 140 7, .insert 140 150 8, .insert 22 25 9,
    .insert 25 30 2].map (·, AllocOracle.always)

theorem run_not_always_maximal :
    ¬ ∀ requests, Successful vmtreeInit requests → ∀ addr < uintptrMax,
      MaximalRun (entryAt (run requests).1) (vmtreeGet (run requests).1 addr) := by
  intro claim
  have found : vmtreeGet (run neighboursApart).1 27 = ⟨25, 30, 2⟩ := by decide +kernel
  have run := claim neighboursApart (by decide +kernel) 27 (by decide)
  rw [found] at run
  have const : ∀ addr < 40, 25 ≤ addr → entryAt (VmTree.run neighboursApart).1 addr = 2 := by
    decide +kernel
  have larger := run.maximal 25 40 (le_refl _) (by decide) (by decide)
    fun addr low high => const addr high low
  exact absurd larger.2 (by decide)

end Run

end Opal.VmTree
