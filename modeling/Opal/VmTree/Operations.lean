import Opal.VmTree.Node

/-!
# The operations of a vmtree

The tree is its root, which covers `[0, UINTPTR_MAX)`.  The recursive functions
come first, one walk over the slots for each of them, then the interface.
-/

namespace Opal.VmTree

open Opal.Library

section Get

def getLeaf (addr : Addr) : List Entry → List Addr → Addr → Addr → Segment
  | [], _, lo, hi => ⟨lo, hi, 0⟩
  | s :: _, [], lo, hi => ⟨lo, hi, s⟩
  | s :: ss, p :: ps, lo, hi => if addr < p then ⟨lo, p, s⟩ else getLeaf addr ss ps p hi

mutual

def getRec (addr : Addr) : Node → Addr → Addr → Segment
  | .leaf pivots slots, lo, hi => getLeaf addr slots (usedPivots pivots) lo hi
  | .internal pivots slots, lo, hi => getSlots addr slots (usedPivots pivots) lo hi

def getSlots (addr : Addr) : List Node → List Addr → Addr → Addr → Segment
  | [], _, lo, hi => ⟨lo, hi, 0⟩
  | s :: _, [], lo, hi => getRec addr s lo hi
  | s :: ss, p :: ps, lo, hi =>
      if addr < p then getRec addr s lo p else getSlots addr ss ps p hi

end

end Get

section Search

/-- The range does not meet `[start, stop)`. -/
abbrev Apart (start stop lo hi : Addr) : Prop := stop ≤ lo ∨ hi ≤ start

mutual

/-- `any_nonhole_rec` and `any_hole_rec`, which differ in the test on an entry. -/
def anyEntryRec (test : Entry → Bool) (start stop : Addr) : Node → Addr → Addr → Bool
  | .leaf pivots slots, lo, hi =>
      if Apart start stop lo hi then false
      else (cells lo hi (usedPivots pivots) slots).any fun c =>
        !decide (Apart start stop c.lo c.hi) && test c.val
  | .internal pivots slots, lo, hi =>
      if Apart start stop lo hi then false
      else anyEntrySlots test start stop slots (usedPivots pivots) lo hi

def anyEntrySlots (test : Entry → Bool) (start stop : Addr) :
    List Node → List Addr → Addr → Addr → Bool
  | [], _, _, _ => false
  | s :: _, [], lo, hi =>
      !decide (Apart start stop lo hi) && anyEntryRec test start stop s lo hi
  | s :: ss, p :: ps, lo, hi =>
      (!decide (Apart start stop lo p) && anyEntryRec test start stop s lo p) ||
        anyEntrySlots test start stop ss ps p hi

end

def anyNonholeRec (start stop : Addr) (node : Node) (lo hi : Addr) : Bool :=
  anyEntryRec (· != 0) start stop node lo hi

def anyHoleRec (start stop : Addr) (node : Node) (lo hi : Addr) : Bool :=
  anyEntryRec (· == 0) start stop node lo hi

end Search

section Write

mutual

def writeRangeRec (start stop : Addr) (entry : Entry) : Node → Addr → Addr → Node
  | .leaf pivots slots, lo, hi =>
      if Apart start stop lo hi then .leaf pivots slots
      else if start ≤ lo ∧ hi ≤ stop then setSubtreeUniform entry
      else mergeLeafNeighbors pivots
        ((cells lo hi (usedPivots pivots) slots).map fun c =>
          if Apart start stop c.lo c.hi then c.val else entry)
  | .internal pivots slots, lo, hi =>
      if Apart start stop lo hi then .internal pivots slots
      else if start ≤ lo ∧ hi ≤ stop then setSubtreeUniform entry
      else .internal pivots (writeRangeSlots start stop entry slots (usedPivots pivots) lo hi)

def writeRangeSlots (start stop : Addr) (entry : Entry) :
    List Node → List Addr → Addr → Addr → List Node
  | [], _, _, _ => []
  | s :: ss, [], lo, hi =>
      (if Apart start stop lo hi then s else writeRangeRec start stop entry s lo hi) :: ss
  | s :: ss, p :: ps, lo, hi =>
      (if Apart start stop lo p then s else writeRangeRec start stop entry s lo p) ::
        writeRangeSlots start stop entry ss ps p hi

end

/-- What `normalize_rec` does with a node after its children are normalized. -/
def normalizeChildren (pivots : List Addr) (slots : List Node) : Node :=
  let merged := mergeNeighbors childIsUniform (usedPivots pivots) slots
  let node := Node.internal (fillUnusedPivots merged.1 merged.1.length) merged.2
  if merged.1.length = 0 then
    match merged.2.head?.bind childIsUniform with
    | some entry => collapseToLeaf entry
    | none => node
  else node

mutual

def normalizeRec : Node → Node
  | .leaf pivots slots => mergeLeafNeighbors pivots slots
  | .internal pivots slots => normalizeChildren pivots (normalizeSlots slots)

def normalizeSlots : List Node → List Node
  | [] => []
  | s :: ss => normalizeRec s :: normalizeSlots ss

end

end Write

section Interface

inductive WriteMode where
  | set
  | remove
  deriving DecidableEq, Repr

def validateRange (root : Node) (start stop : Addr) : WriteMode → Status
  | .remove => .ok
  | .set => if anyHoleRec start stop root 0 uintptrMax then .errNoent else .ok

def insertValidate (root : Node) (start stop : Addr) : Status :=
  if anyNonholeRec start stop root 0 uintptrMax then .errExists else .ok

/-- `ensure_boundary_rec` at the root, with fuel for every level and one
promotion. -/
def ensureBoundary (root : Node) (x : Addr) (mem : AllocOracle) :
    (Status × AllocOracle) × Node :=
  ensureBoundaryRec x (height root + 3) root 0 uintptrMax mem

/-- The two boundaries, the write and the normalization that end both
`write_range` and `vmtree_insert`. -/
def splitAndWrite (root : Node) (start stop : Addr) (entry : Entry) (mem : AllocOracle) :
    Status × Node :=
  let first := ensureBoundary root start mem
  if first.1.1 ≠ .ok then (first.1.1, first.2)
  else
    let second := ensureBoundary first.2 stop first.1.2
    if second.1.1 ≠ .ok then (second.1.1, second.2)
    else (.ok, normalizeRec (writeRangeRec start stop entry second.2 0 uintptrMax))

def writeRange (root : Node) (start stop : Addr) (entry : Entry) (mode : WriteMode)
    (mem : AllocOracle) : Status × Node :=
  if stop < start then (.errInval, root)
  else if start = stop then (.ok, root)
  else
    let st := validateRange root start stop mode
    if st ≠ .ok then (st, root) else splitAndWrite root start stop entry mem

def vmtreeInit : Node := .leaf (fillUnusedPivots [] 0) [0]

def vmtreeGet (root : Node) (addr : Addr) : Segment :=
  if addr = uintptrMax then ⟨addr, addr, 0⟩ else getRec addr root 0 uintptrMax

def vmtreeInsert (root : Node) (start stop : Addr) (entry : Entry) (mem : AllocOracle) :
    Status × Node :=
  if entry = 0 then (.errInval, root)
  else if stop < start then (.errInval, root)
  else if start = stop then (.ok, root)
  else
    let st := insertValidate root start stop
    if st ≠ .ok then (st, root) else splitAndWrite root start stop entry mem

def vmtreeSet (root : Node) (start stop : Addr) (entry : Entry) (mem : AllocOracle) :
    Status × Node :=
  if entry = 0 then (.errInval, root) else writeRange root start stop entry .set mem

def vmtreeRemove (root : Node) (start stop : Addr) (mem : AllocOracle) : Status × Node :=
  writeRange root start stop 0 .remove mem

end Interface

section Iterator

structure Iter where
  nextAddr : Addr
  finished : Bool
  deriving DecidableEq, Repr

def vmtreeBeforeBegin : Iter := ⟨0, false⟩

/-- The loop of `vmtree_iter_next` from `addr` on: the first piece that is no hole.
Each hole uses one unit of fuel. -/
def iterFrom (root : Node) : Nat → Addr → Option Segment
  | 0, _ => none
  | fuel + 1, addr =>
      if addr = uintptrMax then none
      else
        let found := vmtreeGet root addr
        if found.val ≠ 0 then some found
        else if found.hi = uintptrMax then none
        else iterFrom root fuel found.hi

def vmtreeIterNext (root : Node) (fuel : Nat) (iter : Iter) : Option Segment × Iter :=
  if iter.finished then (none, iter)
  else
    match iterFrom root fuel iter.nextAddr with
    | none => (none, { iter with finished := true })
    | some found =>
        (some found,
          if found.hi = uintptrMax then { iter with finished := true }
          else { iter with nextAddr := found.hi })

/-- Everything the iterator yields until it reports the end. -/
def collect (root : Node) (fuel : Nat) : Nat → Iter → List Segment
  | 0, _ => []
  | rounds + 1, iter =>
      match vmtreeIterNext root fuel iter with
      | (some found, iter) => found :: collect root fuel rounds iter
      | (none, _) => []

end Iterator

end Opal.VmTree
