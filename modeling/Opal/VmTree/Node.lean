import Opal.Basic
import Opal.Library.Tiling
import Mathlib.Data.List.TakeWhile

/-!
# The nodes of a vmtree

A node covers an address range `[lo, hi)` and cuts it by its pivots into one
piece for each slot.  A slot of a leaf holds an entry (`0` is a hole), a slot of
an internal node holds a child.  The pivot array keeps its fixed length, and the
pivots in use are those before the first `UINTPTR_MAX`.  Slots behind the last
pivot in use are never read and are not represented.

The loops of the source run over slot indices and recompute the bounds of each
slot.  Here they walk along the pivots and slots and carry the lower bound.
-/

namespace Opal.VmTree

open Opal.Library

abbrev Addr := Nat

/-- The contents of a leaf slot; `0` is a hole. -/
abbrev Entry := Nat

/-- `VMTREE_NODE_SLOTS`. -/
def nodeSlots : Nat := 16

inductive Status where
  | ok
  | errNoent
  | errExists
  | errInval
  | errNomem
  deriving DecidableEq, Repr

/-- A tagged node pointer together with the subtree behind it. -/
inductive Node where
  | leaf (pivots : List Addr) (slots : List Entry)
  | internal (pivots : List Addr) (slots : List Node)

/-- A piece of the address space with its entry. -/
abbrev Segment := Cell Addr Entry

section Pivots

/-- Keep the first `count` pivots and overwrite the others with `UINTPTR_MAX`. -/
def fillUnusedPivots (pivots : List Addr) (count : Nat) : List Addr :=
  pivots.take count ++ List.replicate (nodeSlots - 1 - count) uintptrMax

def usedPivots (pivots : List Addr) : List Addr :=
  pivots.takeWhile (· != uintptrMax)

def pivotCount (pivots : List Addr) : Nat := (usedPivots pivots).length

def nodeIsFull (pivots : List Addr) : Bool := pivots[nodeSlots - 2]? != some uintptrMax

def slotForAddr (pivots : List Addr) (addr : Addr) : Nat :=
  ((usedPivots pivots).takeWhile (· ≤ addr)).length

def slotLo (pivots : List Addr) (slot : Nat) (lo : Addr) : Addr :=
  if slot = 0 then lo else pivots.getD (slot - 1) lo

def slotHi (pivots : List Addr) (slot : Nat) (hi : Addr) : Addr :=
  if pivotCount pivots ≤ slot then hi else pivots.getD slot hi

end Pivots

section Nodes

/-- A leaf without pivots: one entry for its whole range.  It is what
`alloc_leaf_node`, `collapse_to_leaf` and `set_subtree_uniform` leave behind. -/
def uniformLeaf (entry : Entry) : Node := .leaf (fillUnusedPivots [] 0) [entry]

def allocLeafNode (entry : Entry) : Node := uniformLeaf entry

def collapseToLeaf (entry : Entry) : Node := uniformLeaf entry

def setSubtreeUniform (entry : Entry) : Node := uniformLeaf entry

/-- The entry of a leaf without pivots. -/
def childIsUniform : Node → Option Entry
  | .leaf pivots slots => if pivotCount pivots = 0 then slots.head? else none
  | .internal _ _ => none

/-- The loop shared by `merge_leaf_neighbors` and `normalize_rec`.  Two
neighbouring slots with one key become the left one and the pivot between them
disappears, as `remove_leaf_pivot` and `remove_internal_pivot` do it; the walk
then compares the same slot with its new neighbour. -/
def mergeNeighbors {β κ : Type} [DecidableEq κ] (key : β → Option κ) :
    List Addr → List β → List Addr × List β
  | p :: ps, s :: t :: ss =>
      if key s = key t ∧ (key s).isSome then
        mergeNeighbors key ps (s :: ss)
      else
        let rest := mergeNeighbors key ps (t :: ss)
        (p :: rest.1, s :: rest.2)
  | ps, ss => (ps, ss)

def mergeLeafNeighbors (pivots : List Addr) (slots : List Entry) : Node :=
  let merged := mergeNeighbors some (usedPivots pivots) slots
  .leaf (fillUnusedPivots merged.1 merged.1.length) merged.2

/-- The outcome of the `alloc_leaf_node` loop of `promote_leaf_to_internal`; the
first failure gives up. -/
def allocLeafNodes : List Entry → AllocOracle → Option (List Node) × AllocOracle
  | [], mem => (some [], mem)
  | entry :: entries, mem =>
      if mem.head then
        match allocLeafNodes entries mem.tail with
        | (some nodes, mem) => (some (allocLeafNode entry :: nodes), mem)
        | (none, mem) => (none, mem)
      else (none, mem.tail)

def promoteLeafToInternal (pivots : List Addr) (slots : List Entry) (mem : AllocOracle) :
    Option Node × AllocOracle :=
  match allocLeafNodes slots mem with
  | (some children, mem) => (some (.internal pivots children), mem)
  | (none, mem) => (none, mem)

/-- `none` is the report that the leaf is full. -/
def insertLeafBoundary (pivots : List Addr) (slots : List Entry) (lo hi x : Addr) :
    Option Node :=
  let n := pivotCount pivots
  let slot := slotForAddr pivots x
  let left := slotLo pivots slot lo
  let right := slotHi pivots slot hi
  if x = left ∨ x = right then some (.leaf pivots slots)
  else if nodeIsFull pivots then none
  else some (.leaf (fillUnusedPivots (pivots.insertIdx slot x) (n + 1))
    (slots.insertIdx (slot + 1) (slots.getD slot 0)))

end Nodes

section Descent

/-- Apply `f` to the slot whose range contains `x`. -/
def updateSlot {σ : Type} (x : Addr) (f : Node → Addr → Addr → σ × Node) (fallback : σ) :
    List Node → List Addr → Addr → Addr → σ × List Node
  | [], _, _, _ => (fallback, [])
  | s :: ss, [], lo, hi =>
      let result := f s lo hi
      (result.1, result.2 :: ss)
  | s :: ss, p :: ps, lo, hi =>
      if x < p then
        let result := f s lo p
        (result.1, result.2 :: ss)
      else
        let result := updateSlot x f fallback ss ps p hi
        (result.1, s :: result.2)

mutual

def height : Node → Nat
  | .leaf _ _ => 0
  | .internal _ slots => heightSlots slots + 1

def heightSlots : List Node → Nat
  | [] => 0
  | s :: ss => max (height s) (heightSlots ss)

end

/-- The recursion of `ensure_boundary_rec`; a full leaf is promoted first and the
descent goes on in the promoted node.  A level of the tree uses one unit of fuel
and a promotion two more. -/
def ensureBoundaryRec (x : Addr) :
    Nat → Node → Addr → Addr → AllocOracle → (Status × AllocOracle) × Node
  | 0, node, _, _, mem => ((.errNomem, mem), node)
  | fuel + 1, node, lo, hi, mem =>
      if x ≤ lo ∨ hi ≤ x then ((.ok, mem), node)
      else
        match node with
        | .internal pivots slots =>
            let result := updateSlot x (fun s lo hi => ensureBoundaryRec x fuel s lo hi mem)
              (.ok, mem) slots (usedPivots pivots) lo hi
            (result.1, .internal pivots result.2)
        | .leaf pivots slots =>
            match insertLeafBoundary pivots slots lo hi x with
            | some inserted => ((.ok, mem), inserted)
            | none =>
                match promoteLeafToInternal pivots slots mem with
                | (none, mem) => ((.errNomem, mem), .leaf pivots slots)
                | (some promoted, mem) => ensureBoundaryRec x fuel promoted lo hi mem

end Descent

end Opal.VmTree
