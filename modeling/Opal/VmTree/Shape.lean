import Opal.VmTree.IntervalMap
import Mathlib.Data.List.Chain

/-!
# The shape of the nodes

Every node has its pivots in order inside its range and every internal node has
two children, whatever failed before.  That neighbouring slots differ is restored
by `normalize_rec`, from the bottom up, at the end of a successful write.
-/

namespace Opal.VmTree

open Opal.Library

section Definitions

/-- A node below `root`, or `root` itself, with the range it covers. -/
inductive NodeAt : Node → Addr → Addr → Node → Addr → Addr → Prop
  | here {node lo hi} : NodeAt node lo hi node lo hi
  | child {pivots slots lo hi node low high c} :
      c ∈ cells lo hi (usedPivots pivots) slots → NodeAt c.val c.lo c.hi node low high →
      NodeAt (.internal pivots slots) lo hi node low high

/-- The pivots of a node over `[lo, hi)` with `count` slots in use. -/
structure Ordered (pivots : List Addr) (count : Nat) (lo hi : Addr) : Prop where
  increasing : (usedPivots pivots).Pairwise (· < ·)
  inside : ∀ p ∈ usedPivots pivots, lo < p ∧ p < hi
  unused : pivots =
    usedPivots pivots ++ List.replicate (nodeSlots - 1 - pivotCount pivots) uintptrMax
  slots : count = pivotCount pivots + 1

def OrderedAt : Node → Addr → Addr → Prop
  | .leaf pivots slots, lo, hi => Ordered pivots slots.length lo hi
  | .internal pivots slots, lo, hi => Ordered pivots slots.length lo hi

def Wide : Node → Prop
  | .leaf _ _ => True
  | .internal _ slots => 2 ≤ slots.length

/-- Children that `normalize_rec` would merge. -/
def SameUniform (left right : Node) : Prop :=
  ∃ entry, childIsUniform left = some entry ∧ childIsUniform right = some entry

/-- No two neighbouring slots of the node are mergeable. -/
def Distinct : Node → Prop
  | .leaf _ slots => slots.IsChain (· ≠ ·)
  | .internal _ slots => slots.IsChain (¬ SameUniform · ·)

/-- What holds of the nodes of a tree at all times. -/
structure Sound (root : Node) : Prop where
  ordered : ∀ node lo hi, NodeAt root 0 uintptrMax node lo hi → OrderedAt node lo hi
  wide : ∀ node lo hi, NodeAt root 0 uintptrMax node lo hi → Wide node

/-- The shape of a normalized tree. -/
structure Shaped (root : Node) : Prop extends Sound root where
  distinct : ∀ node lo hi, NodeAt root 0 uintptrMax node lo hi → Distinct node

end Definitions

section Everywhere

/-- The property holds of the node and of all nodes below it. -/
inductive Everywhere (P : Node → Prop) : Node → Prop
  | leaf {pivots slots} : P (.leaf pivots slots) → Everywhere P (.leaf pivots slots)
  | internal {pivots slots} : P (.internal pivots slots) → (∀ s ∈ slots, Everywhere P s) →
      Everywhere P (.internal pivots slots)

variable {P : Node → Prop}

theorem Everywhere.self {node : Node} (all : Everywhere P node) : P node := by
  cases all with
  | leaf here => exact here
  | internal here _ => exact here

theorem Everywhere.nodeAt {root node : Node} {lo hi low high : Addr} (all : Everywhere P root)
    (found : NodeAt root lo hi node low high) : Everywhere P node := by
  induction found with
  | here => exact all
  | child mem _ ih =>
    cases all with
    | internal _ below => exact ih (below _ (mem_of_mem_cells mem))

theorem Wf.nodeAt {root node : Node} {lo hi low high : Addr} (wf : Wf root lo hi)
    (found : NodeAt root lo hi node low high) : Wf node low high := by
  induction found with
  | here => exact wf
  | child mem _ ih =>
    cases wf with
    | internal _ _ _ below => exact ih (below _ mem)

theorem Wf.orderedAt {node : Node} {lo hi : Addr} (wf : Wf node lo hi) : OrderedAt node lo hi := by
  cases wf with
  | leaf filled inc length =>
    exact ⟨inc.pairwise, fun _ mem => inc.mem_bounds mem, filled.eq_append, length⟩
  | internal filled inc length _ =>
    exact ⟨inc.pairwise, fun _ mem => inc.mem_bounds mem, filled.eq_append, length⟩

theorem Sound.of_wf {root : Node} (wf : Wf root 0 uintptrMax) (wide : Everywhere Wide root) :
    Sound root :=
  ⟨fun _ _ _ found => (wf.nodeAt found).orderedAt, fun _ _ _ found => (wide.nodeAt found).self⟩

theorem everywhere_uniformLeaf (entry : Entry) : Everywhere Wide (uniformLeaf entry) :=
  .leaf trivial

theorem everywhere_distinct_uniformLeaf (entry : Entry) :
    Everywhere Distinct (uniformLeaf entry) :=
  .leaf (List.isChain_singleton entry)

end Everywhere

section Merge

variable {β κ : Type} [DecidableEq κ] (key : β → Option κ)

theorem mergeNeighbors_subset (ps : List Addr) (ss : List β) :
    ∀ s ∈ (mergeNeighbors key ps ss).2, s ∈ ss := by
  fun_induction mergeNeighbors key ps ss with
  | case1 p ps s t ss same ih =>
    intro u mem
    rcases List.mem_cons.mp (ih u mem) with rfl | tail
    · simp
    · simp [tail]
  | case2 p ps s t ss differ rest ih =>
    intro u mem
    rcases List.mem_cons.mp mem with rfl | tail
    · simp
    · exact List.mem_cons_of_mem _ (ih u tail)
  | case3 => exact fun _ mem => mem

theorem mergeNeighbors_head (ps : List Addr) (ss : List β) :
    (mergeNeighbors key ps ss).2.head? = ss.head? := by
  fun_induction mergeNeighbors key ps ss with
  | case1 p ps s t ss same ih => exact ih
  | case2 => rfl
  | case3 => rfl

/-- What is left has no neighbours of one key. -/
theorem mergeNeighbors_isChain {ps : List Addr} {ss : List β}
    (length : ss.length = ps.length + 1) :
    (mergeNeighbors key ps ss).2.IsChain fun s t => ¬ (key s = key t ∧ (key s).isSome) := by
  induction ps generalizing ss with
  | nil =>
    obtain ⟨s, rfl⟩ := List.length_eq_one_iff.mp length
    exact List.isChain_singleton s
  | cons p ps ih =>
    obtain ⟨s, ss, rfl⟩ := List.exists_cons_of_length_eq_add_one length
    obtain ⟨t, rest, rfl⟩ := List.exists_cons_of_length_eq_add_one (Nat.add_right_cancel length)
    by_cases same : key s = key t ∧ (key s).isSome
    · rw [mergeNeighbors_same key ps rest same]
      exact ih (by simpa using length)
    · rw [mergeNeighbors_differ key ps rest same]
      refine List.isChain_cons.mpr ⟨fun u head => ?_, ih (by simpa using length)⟩
      rw [mergeNeighbors_head] at head
      obtain rfl : t = u := by simpa using head
      exact same

/-- Merging removes the last pivot only between slots that have a key. -/
theorem mergeNeighbors_keyed {ps : List Addr} {ss : List β}
    (length : ss.length = ps.length + 1) (cut : ps ≠ [])
    (removed : (mergeNeighbors key ps ss).1 = []) :
    ∃ s, (mergeNeighbors key ps ss).2.head? = some s ∧ (key s).isSome := by
  cases ps with
  | nil => exact absurd rfl cut
  | cons p ps =>
    obtain ⟨s, ss, rfl⟩ := List.exists_cons_of_length_eq_add_one length
    obtain ⟨t, rest, rfl⟩ := List.exists_cons_of_length_eq_add_one (Nat.add_right_cancel length)
    by_cases same : key s = key t ∧ (key s).isSome
    · exact ⟨s, mergeNeighbors_head key _ _, same.2⟩
    · rw [mergeNeighbors_differ key ps rest same] at removed
      exact absurd removed (List.cons_ne_nil _ _)

end Merge

section Boundary

theorem Wide.of_promoted {pivots : List Addr} {slots : List Entry} {lo hi x : Addr}
    (wf : Wf (.leaf pivots slots) lo hi) (full : insertLeafBoundary pivots slots lo hi x = none) :
    Everywhere Wide (.internal pivots (slots.map allocLeafNode)) := by
  cases wf with
  | leaf filled inc length =>
    refine .internal ?_ fun s mem => ?_
    · -- a leaf is promoted only when it has no room for a pivot
      have count : pivotCount pivots = nodeSlots - 1 := by
        apply filled.nodeIsFull_iff.mp
        simp only [insertLeafBoundary] at full
        split at full
        · cases full
        split at full
        · assumption
        · cases full
      rw [Wide, List.length_map, length, count]
      decide
    · obtain ⟨entry, -, rfl⟩ := List.mem_map.mp mem
      exact everywhere_uniformLeaf entry

theorem mem_updateSlot {σ : Type} {x : Addr} {f : Node → Addr → Addr → σ × Node} {fallback : σ}
    {slots : List Node} {ps : List Addr} {lo hi : Addr} (inc : Increasing lo hi ps)
    (length : slots.length = ps.length + 1) (low : lo ≤ x) (high : x < hi) {s : Node}
    (mem : s ∈ (updateSlot x f fallback slots ps lo hi).2) :
    s ∈ slots ∨ ∃ c ∈ cells lo hi ps slots, s = (f c.val c.lo c.hi).2 := by
  obtain ⟨c, memC, -, -, lengthNew, others⟩ := updateSlot_spec f fallback inc length low high
  obtain ⟨d, memD, rfl⟩ := @exists_cell_of_mem _ _ lo hi _ _ _ (lengthNew.trans length) mem
  rcases others d memD with rfl | ⟨old, -⟩
  · exact .inr ⟨c, memC, rfl⟩
  · exact .inl (mem_of_mem_cells old)

theorem Wf.ensureBoundaryRec_wide {x : Addr} {fuel : Nat} {node : Node} {lo hi : Addr}
    {mem : AllocOracle} (wf : Wf node lo hi) (wide : Everywhere Wide node) :
    Everywhere Wide (ensureBoundaryRec x fuel node lo hi mem).2 := by
  induction fuel generalizing node lo hi mem with
  | zero => exact wide
  | succ fuel ih =>
    by_cases outside : x ≤ lo ∨ hi ≤ x
    · cases node <;> rwa [ensureBoundaryRec, if_pos outside]
    obtain ⟨low, high⟩ := not_or.mp outside
    rw [not_le] at low high
    cases node with
    | internal pivots slots =>
      rw [ensureBoundaryRec, if_neg outside]
      cases wf with
      | internal _ inc length wfs =>
        cases wide with
        | internal here below =>
          refine .internal ?_ fun s memS => ?_
          · obtain ⟨_, _, _, _, lengthNew, _⟩ := updateSlot_spec
              (fun s lo hi => ensureBoundaryRec x fuel s lo hi mem) (Status.ok, mem) inc length
              (le_of_lt low) high
            exact le_of_le_of_eq here lengthNew.symm
          · rcases mem_updateSlot inc length (le_of_lt low) high memS with old | ⟨c, memC, rfl⟩
            · exact below s old
            · exact ih (wfs c memC) (below _ (mem_of_mem_cells memC))
    | leaf pivots slots =>
      rw [ensureBoundaryRec, if_neg outside]
      split
      · rename_i inserted eq
        simp only [insertLeafBoundary] at eq
        split at eq
        · cases eq
          exact wide
        split at eq
        · cases eq
        · cases eq
          exact .leaf trivial
      · rename_i full
        split
        · exact wide
        · rename_i promoted later eq
          obtain rfl := promoteLeafToInternal_some eq
          exact ih wf.promoted (Wide.of_promoted wf full)

end Boundary

section Write

variable (start stop : Addr) (entry : Entry)

theorem Wf.writeRangeRec_wide {node : Node} {lo hi : Addr} (wf : Wf node lo hi)
    (wide : Everywhere Wide node) :
    Everywhere Wide (writeRangeRec start stop entry node lo hi) := by
  induction wf with
  | leaf filled inc length =>
    rw [writeRangeRec]
    split
    · exact wide
    split
    · exact everywhere_uniformLeaf entry
    · exact .leaf trivial
  | @internal pivots slots lo hi filled inc length wfs ih =>
    rw [writeRangeRec]
    split
    · exact wide
    split
    · exact everywhere_uniformLeaf entry
    cases wide with
    | internal here below =>
      rw [writeRangeSlots_eq start stop entry length]
      refine .internal ?_ fun s mem => ?_
      · rw [Wide, List.length_map, length_cells length]
        exact here
      · obtain ⟨c, memC, rfl⟩ := List.mem_map.mp mem
        have child := below _ (mem_of_mem_cells memC)
        split
        · exact child
        · exact ih c memC child

end Write

section Normalize

theorem distinct_mergeLeafNeighbors {pivots : List Addr} {slots : List Entry}
    (length : slots.length = pivotCount pivots + 1) :
    Distinct (mergeLeafNeighbors pivots slots) := by
  refine (mergeNeighbors_isChain some length).imp fun s t differ same => differ ?_
  exact ⟨congrArg some same, rfl⟩

/-- A node that keeps no pivot had uniform children and becomes a leaf. -/
theorem normalizeChildren_wide {pivots : List Addr} {slots : List Node}
    (length : slots.length = pivotCount pivots + 1) (wide : 2 ≤ slots.length) :
    (normalizeChildren pivots slots = mergedNode pivots slots ∧
      (mergeNeighbors childIsUniform (usedPivots pivots) slots).1 ≠ []) ∨
      ∃ entry, normalizeChildren pivots slots = collapseToLeaf entry := by
  by_cases removed : (mergeNeighbors childIsUniform (usedPivots pivots) slots).1 = []
  · have cut : usedPivots pivots ≠ [] := by
      intro empty
      rw [pivotCount, empty] at length
      rw [length] at wide
      exact absurd wide (by decide)
    obtain ⟨s, head, keyed⟩ := mergeNeighbors_keyed childIsUniform length cut removed
    obtain ⟨entry, uniform⟩ := Option.isSome_iff_exists.mp keyed
    refine .inr ⟨entry, ?_⟩
    simp only [normalizeChildren, removed, head, List.length_nil, if_true, Option.bind_some,
      uniform]
  · refine .inl ⟨?_, removed⟩
    rcases normalizeChildren_cases pivots slots with eq | ⟨_, none, _⟩
    · exact eq
    · exact absurd none removed

theorem Wf.normalizeChildren_shaped {pivots : List Addr} {slots : List Node} {lo hi : Addr}
    (wf : Wf (.internal pivots slots) lo hi) (count : 2 ≤ slots.length)
    (wide : ∀ s ∈ slots, Everywhere Wide s) (distinct : ∀ s ∈ slots, Everywhere Distinct s) :
    Everywhere Wide (normalizeChildren pivots slots) ∧
      Everywhere Distinct (normalizeChildren pivots slots) := by
  cases wf with
  | internal _ inc length _ =>
    rcases normalizeChildren_wide length count with ⟨eq, some⟩ | ⟨entry, eq⟩
    · obtain ⟨-, lengthNew, -, -⟩ := mergeNeighbors_spec childIsUniform inc length
      have old := mergeNeighbors_subset childIsUniform (usedPivots pivots) slots
      rw [eq]
      constructor
      · refine .internal ?_ fun s mem => wide s (old s mem)
        rw [Wide, lengthNew]
        exact Nat.succ_le_succ (List.length_pos_iff.mpr some)
      · refine .internal ?_ fun s mem => distinct s (old s mem)
        refine (mergeNeighbors_isChain childIsUniform length).imp fun s t differ same => differ ?_
        obtain ⟨entry, left, right⟩ := same
        exact ⟨left.trans right.symm, left ▸ rfl⟩
    · rw [eq]
      exact ⟨everywhere_uniformLeaf entry, everywhere_distinct_uniformLeaf entry⟩

theorem Wf.normalizeRec_shaped {node : Node} {lo hi : Addr} (wf : Wf node lo hi)
    (top : hi ≤ uintptrMax) (wide : Everywhere Wide node) :
    Everywhere Wide (normalizeRec node) ∧ Everywhere Distinct (normalizeRec node) := by
  induction wf with
  | leaf _ _ length =>
    rw [normalizeRec]
    exact ⟨.leaf trivial, .leaf (distinct_mergeLeafNeighbors length)⟩
  | @internal pivots slots lo hi filled inc length wfs ih =>
    cases wide with
    | internal here below =>
      have child (s : Node) (mem : s ∈ slots.map normalizeRec) :
          Everywhere Wide s ∧ Everywhere Distinct s := by
        obtain ⟨t, memT, rfl⟩ := List.mem_map.mp mem
        obtain ⟨c, memC, rfl⟩ := @exists_cell_of_mem _ _ lo hi _ _ _ length memT
        have inside := ((tiles_cells inc length).mem_bounds memC).2.2
        exact ih c memC (le_trans inside top) (below _ memT)
      rw [normalizeRec, normalizeSlots_eq]
      apply Wf.normalizeChildren_shaped ((Wf.internal filled inc length wfs).normalizeSlots_wf top)
      · rw [List.length_map]
        exact here
      · exact fun s mem => (child s mem).1
      · exact fun s mem => (child s mem).2

end Normalize

section Run

/-- The invariant that gives a sound tree. -/
structure Grown (root : Node) : Prop where
  wf : Wf root 0 uintptrMax
  wide : Everywhere Wide root

theorem Grown.sound {root : Node} (grown : Grown root) : Sound root :=
  .of_wf grown.wf grown.wide

theorem Grown.shaped {root : Node} (grown : Grown root) (distinct : Everywhere Distinct root) :
    Shaped root :=
  { grown.sound with distinct := fun _ _ _ found => (distinct.nodeAt found).self }

theorem grown_init : Grown vmtreeInit := ⟨agrees_init.wf, everywhere_uniformLeaf 0⟩

theorem Grown.ensureBoundary {root : Node} (grown : Grown root) (x : Addr) (mem : AllocOracle) :
    Grown (ensureBoundary root x mem).2 :=
  ⟨(ensureBoundary_spec grown.wf x mem).wf, grown.wf.ensureBoundaryRec_wide grown.wide⟩

/-- The boundaries keep a tree sound and the write restores its shape. -/
theorem Grown.splitAndWrite {root : Node} (grown : Grown root) (start stop : Addr) (entry : Entry)
    (mem : AllocOracle) :
    Grown (splitAndWrite root start stop entry mem).2 ∧
      ((splitAndWrite root start stop entry mem).1 = .ok →
        Everywhere Distinct (splitAndWrite root start stop entry mem).2) ∧
      ((splitAndWrite root start stop entry mem).1 = .ok ∨
        (splitAndWrite root start stop entry mem).1 = .errNomem) := by
  have first := grown.ensureBoundary start mem
  have second := first.ensureBoundary stop (VmTree.ensureBoundary root start mem).1.2
  simp only [VmTree.splitAndWrite]
  split
  · rename_i failed
    have reported := (ensureBoundary_spec grown.wf start mem).reported.resolve_left failed
    exact ⟨first, fun ok => absurd ok failed, .inr reported⟩
  split
  · rename_i failed
    have reported := (ensureBoundary_spec first.wf stop _).reported.resolve_left failed
    exact ⟨second, fun ok => absurd ok failed, .inr reported⟩
  · obtain ⟨wfWritten, -⟩ := second.wf.writeRangeRec_spec (le_refl _) start stop entry
    have written := second.wf.writeRangeRec_wide start stop entry second.wide
    obtain ⟨wide, distinct⟩ := wfWritten.normalizeRec_shaped (le_refl _) written
    exact ⟨⟨(wfWritten.normalizeRec_spec (le_refl _)).1, wide⟩, fun _ => distinct, .inl rfl⟩

/-- A call that does not come to a write: it keeps the tree, and it succeeds on an empty
range only. -/
structure Refused (root : Node) (call : Call) (result : Status × Node) : Prop where
  kept : result.2 = root
  memory : result.1 ≠ .errNomem
  empty : result.1 = .ok → call.start = call.stop

theorem Refused.of_failed {root : Node} {call : Call} {st : Status} (failed : st ≠ .ok)
    (other : st ≠ .errNomem) : Refused root call (st, root) :=
  ⟨rfl, other, fun ok => absurd ok failed⟩

/-- The checks of the range that `write_range` and `vmtree_insert` begin with. -/
theorem ranged_cases {root : Node} {call : Call} {st : Status} {write : Status × Node}
    (other : st ≠ .errNomem) :
    let result :=
      if call.stop < call.start then (.errInval, root)
      else if call.start = call.stop then (.ok, root)
      else if st ≠ .ok then (st, root) else write
    Refused root call result ∨ call.start < call.stop ∧ result = write := by
  intro result
  rcases lt_trichotomy call.stop call.start with backward | empty | nonempty
  · have eq : result = (.errInval, root) := if_pos backward
    rw [eq]
    exact .inl (.of_failed (by simp) (by simp))
  · have eq : result = (.ok, root) := by
      simp only [result, if_neg (not_lt.mpr (le_of_eq empty.symm)), if_pos empty.symm]
    rw [eq]
    exact .inl ⟨rfl, by simp, fun _ => empty.symm⟩
  · have eq : result = if st ≠ .ok then (st, root) else write := by
      simp only [result, if_neg (not_lt.mpr (le_of_lt nonempty)), if_neg (ne_of_lt nonempty)]
    rw [eq]
    by_cases failed : st ≠ .ok
    · rw [if_pos failed]
      exact .inl (.of_failed failed other)
    · exact .inr ⟨nonempty, if_neg failed⟩

theorem insertValidate_ne_nomem (root : Node) (start stop : Addr) :
    insertValidate root start stop ≠ .errNomem := by
  rw [insertValidate]
  split <;> simp

theorem validateRange_ne_nomem (root : Node) (start stop : Addr) (mode : WriteMode) :
    validateRange root start stop mode ≠ .errNomem := by
  cases mode with
  | remove => simp [validateRange]
  | set =>
    rw [validateRange]
    split <;> simp

theorem exec_cases (root : Node) (mem : AllocOracle) (call : Call) :
    Refused root call (exec root mem call) ∨
      call.start < call.stop ∧
        exec root mem call = splitAndWrite root call.start call.stop call.entry mem := by
  cases call with
  | insert start stop entry =>
    rw [exec, vmtreeInsert]
    by_cases null : entry = 0
    · rw [if_pos null]
      exact .inl (.of_failed (by simp) (by simp))
    · rw [if_neg null]
      exact @ranged_cases root (.insert start stop entry) _ _ (insertValidate_ne_nomem _ _ _)
  | set start stop entry =>
    rw [exec, vmtreeSet]
    by_cases null : entry = 0
    · rw [if_pos null]
      exact .inl (.of_failed (by simp) (by simp))
    · rw [if_neg null]
      exact @ranged_cases root (.set start stop entry) _ _ (validateRange_ne_nomem _ _ _ _)
  | remove start stop =>
    exact @ranged_cases root (.remove start stop) _ _ (validateRange_ne_nomem _ _ _ _)

theorem Grown.exec {root : Node} (grown : Grown root) (mem : AllocOracle) (call : Call) :
    Grown (exec root mem call).2 := by
  rcases exec_cases root mem call with refused | ⟨-, eq⟩
  · rw [refused.kept]
    exact grown
  · rw [eq]
    exact (grown.splitAndWrite _ _ _ mem).1

theorem run_grown (requests : List (Call × AllocOracle)) : Grown (run requests).1 := by
  rw [run]
  refine List.foldlRecOn (motive := fun state => Grown state.1) requests step ?_ ?_
  · exact grown_init
  · exact fun state grown request _ => grown.exec request.2 request.1

/-- After every call the nodes have their pivots in order and the internal ones two children.
After a successful call on a nonempty range neighbours differ as well; a successful call on an
empty range changes nothing, and only a call that runs out of memory can break the shape. -/
theorem run_shaped (requests : List (Call × AllocOracle)) (mem : AllocOracle) (call : Call) :
    Sound (exec (run requests).1 mem call).2 ∧
    ((exec (run requests).1 mem call).1 = .ok → call.start < call.stop →
      Shaped (exec (run requests).1 mem call).2) ∧
    ((exec (run requests).1 mem call).1 = .ok → call.start = call.stop →
      (exec (run requests).1 mem call).2 = (run requests).1) ∧
    ((exec (run requests).1 mem call).1 ≠ .errNomem → Shaped (run requests).1 →
      Shaped (exec (run requests).1 mem call).2) := by
  have grown := run_grown requests
  have after := grown.exec mem call
  refine ⟨after.sound, ?_⟩
  rcases exec_cases (run requests).1 mem call with refused | ⟨nonempty, eq⟩
  · refine ⟨fun ok nonempty => absurd (refused.empty ok) (ne_of_lt nonempty),
      fun _ _ => refused.kept, fun _ shaped => ?_⟩
    rw [refused.kept]
    exact shaped
  · obtain ⟨-, distinct, status⟩ := grown.splitAndWrite call.start call.stop call.entry mem
    have shaped (ok : (exec (run requests).1 mem call).1 = .ok) :
        Shaped (exec (run requests).1 mem call).2 := by
      apply after.shaped
      rw [eq] at ok ⊢
      exact distinct ok
    refine ⟨fun ok _ => shaped ok, fun _ empty => absurd empty (ne_of_lt nonempty),
      fun memory _ => shaped ?_⟩
    rw [eq] at memory ⊢
    exact status.resolve_right memory

/-- Seven ranges fill fourteen of the fifteen pivots of the root.  The last insertion gets its
start in and finds no memory for its end. -/
def halfInserted : List (Call × AllocOracle) :=
  [.insert 10 20 1, .insert 30 40 2, .insert 50 60 3, .insert 70 80 4, .insert 90 100 5,
    .insert 110 120 6, .insert 130 140 7, .insert 150 160 8].map (·, Stream'.const false)

def Node.rootEntries : Node → List Entry
  | .leaf _ slots => slots
  | .internal _ _ => []

theorem Shaped.rootEntries {root : Node} (shaped : Shaped root) :
    root.rootEntries.IsChain (· ≠ ·) := by
  cases root with
  | leaf pivots slots => exact shaped.distinct _ _ _ .here
  | internal pivots slots => exact List.isChain_nil

theorem run_shaped_secondRange :
    let requests := [(Call.insert 0x1000 0x2000 7, AllocOracle.always)]
    let call := Call.insert 0x2000 0x3000 7
    (exec (run requests).1 AllocOracle.always call).1 = .ok ∧
      Shaped (exec (run requests).1 AllocOracle.always call).2 := by
  have ok : (exec (run [(Call.insert 0x1000 0x2000 7, AllocOracle.always)]).1 AllocOracle.always
      (Call.insert 0x2000 0x3000 7)).1 = .ok := by decide +kernel
  exact ⟨ok, (run_shaped _ _ _).2.1 ok (by decide)⟩

/-- An empty removal succeeds and leaves the half inserted range as it is. -/
theorem run_not_always_shaped :
    ¬ ∀ requests mem call, (exec (run requests).1 mem call).1 = .ok →
      Shaped (exec (run requests).1 mem call).2 := by
  intro claim
  have shaped := claim halfInserted AllocOracle.always (.remove 0 0) (by decide +kernel)
  exact absurd shaped.rootEntries (by decide +kernel)

end Run

end Opal.VmTree
