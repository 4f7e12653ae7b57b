import Opal.Basic
import Mathlib.Algebra.Group.Nat.Defs
import Mathlib.Logic.Function.Basic

/-!
# The radix tree of an xarray

A node has 64 slots.  A slot is a machine word, and its lowest bit says whether
the rest of the word is a value or the address of a node.  The nodes a slot can
point to are kept in the slot itself here; a word without the flag that is not
zero is an address at which the array has no node.
-/

namespace Opal.XArray


def slotBits : Nat := 6

def slotSize : Nat := 2 ^ slotBits

def flagMask : Nat := 1

def flagValue : Nat := 1

def uint64Max : Nat := 2 ^ 64 - 1

inductive Slot where
  | word (slot : Nat)
  | node (slots : Fin slotSize → Slot)

abbrev Node := Fin slotSize → Slot

/-- What `kzalloc` returns. -/
def emptyNode : Node := fun _ => .word 0

structure Xarray where
  root : Node
  stride : Nat
  depth : Nat

/-- How a run of the C code can go wrong. -/
inductive Fault where
  | panic
  | wildPointer
  deriving DecidableEq, Repr

section Words

/-- The bits of a slot that are not flags. -/
def payload (slot : Nat) : Nat := slot &&& (uint64Max - flagMask)

def isValue (slot : Nat) : Bool := slot &&& flagValue != 0

def shr64 (a b : Nat) : Nat := if b ≥ 64 then 0 else a >>> b

/-- `none` stands for the overflow that the C function reports as `true`. -/
def addmulU64Checked (base mulA mulB : Nat) : Option Nat :=
  if mulA ≠ 0 ∧ mulB > uint64Max / mulA then none
  else if base > uint64Max - mulA * mulB then none
  else some (base + mulA * mulB)

theorem and_lt_slotSize (n : Nat) : n &&& (slotSize - 1) < slotSize :=
  lt_of_le_of_lt Nat.and_le_right (by decide)

def slotIndex (index : Nat) (shift : Nat) : Fin slotSize :=
  ⟨shr64 index shift &&& (slotSize - 1), and_lt_slotSize _⟩

/-- The value of an index inside a slot of the given shift. -/
def storedValue (stride : Nat) (index : Nat) (shift : Nat) (slot : Nat) : Nat :=
  (payload slot + (index &&& (2 ^ shift - 1)) * stride) % 2 ^ 64

end Words

section Get

/-- The loop of `xarray_get` with this many levels left. -/
def getNode (stride : Nat) (index : Nat) : Nat → Node → Except Fault Nat
  | 0, _ => .error .panic
  | level + 1, node =>
      match node (slotIndex index (level * slotBits)) with
      | .node child => getNode stride index level child
      | .word slot =>
          if isValue slot then .ok (storedValue stride index (level * slotBits) slot)
          else if payload slot = 0 then .ok 0
          else if level = 0 then .error .panic
          else .error .wildPointer

def xarrayGet (xa : Xarray) (index : Nat) : Except Fault Nat :=
  if shr64 index (xa.depth * slotBits) ≠ 0 then .ok 0
  else getNode xa.stride index xa.depth xa.root

end Get

section Set

def xarrayInit (stride : Nat) : Xarray := ⟨emptyNode, stride, 1⟩

/-- The loop of `ensure_depth`.  A tree of eleven levels holds every index, so the
loop makes at most ten rounds. -/
def ensureDepthLoop (index : Nat) : Nat → Xarray → AllocOracle → (Bool × Xarray) × AllocOracle
  | 0, xa, mem => ((true, xa), mem)
  | rounds + 1, xa, mem =>
      if shr64 index (xa.depth * slotBits) = 0 then ((true, xa), mem)
      else if mem.head then
        let root := Function.update emptyNode ⟨0, by decide⟩ (.node xa.root)
        ensureDepthLoop index rounds { xa with root := root, depth := xa.depth + 1 } mem.tail
      else ((false, xa), mem.tail)

def ensureDepth (xa : Xarray) (index : Nat) (mem : AllocOracle) :
    (Bool × Xarray) × AllocOracle :=
  ensureDepthLoop index 11 xa mem

/-- The node `expand_slot` puts in the place of a value. -/
def expandSlot (slot : Nat) (stride : Nat) : Node :=
  fun i => .word ((payload slot + i * stride) % 2 ^ 64)

/-- What a write leaves behind: whether it succeeded, the node and the allocator. -/
abbrev Written := Except Fault ((Bool × Node) × AllocOracle)

/-- Writes into the child of a slot and stores it back. -/
def intoChild (node : Node) (i : Fin slotSize) (written : Written) : Written :=
  written.map fun result => ((result.1.1, Function.update node i (.node result.1.2)), result.2)

/-- The child below a slot that is not a whole value any more: the node it points
to, a new one, or the expansion of the value. -/
def childOf (stride : Nat) (shift : Nat) (slot : Slot) (mem : AllocOracle) :
    Except Fault (Option Node × AllocOracle) :=
  match slot with
  | .node child => .ok (some child, mem)
  | .word slot =>
      if isValue slot then
        if mem.head then .ok (some (expandSlot slot (2 ^ shift * stride % 2 ^ 64)), mem.tail)
        else .ok (none, mem.tail)
      else if payload slot = 0 then
        if mem.head then .ok (some emptyNode, mem.tail) else .ok (none, mem.tail)
      else .error .wildPointer

/-- The slot holds a value that gives the index this value already. -/
def holds (stride : Nat) (index : Nat) (shift : Nat) (value : Nat) : Slot → Bool
  | .node _ => false
  | .word slot => isValue slot && value == storedValue stride index shift slot

/-- The loop of `xarray_set` with this many levels left. -/
def setNode (stride : Nat) (index : Nat) (value : Nat) : Nat → Node → AllocOracle → Written
  | 0, _, _ => .error .panic
  | level + 1, node, mem =>
      let shift := level * slotBits
      let i := slotIndex index shift
      if shift = 0 then
        .ok ((true, Function.update node i (.word (value ||| flagValue))), mem)
      else if holds stride index shift value (node i) then .ok ((true, node), mem)
      else
        match childOf stride shift (node i) mem with
        | .error fault => .error fault
        | .ok (none, mem) => .ok ((false, node), mem)
        | .ok (some child, mem) => intoChild node i (setNode stride index value level child mem)

/-- A call that succeeded or not, with the array it leaves, or a fault. -/
abbrev Outcome := Except Fault ((Bool × Xarray) × AllocOracle)

def xarraySet (xa : Xarray) (index : Nat) (value : Nat) (mem : AllocOracle) : Outcome :=
  match ensureDepth xa index mem with
  | ((false, xa), mem) => .ok ((false, xa), mem)
  | ((true, xa), mem) =>
      (setNode xa.stride index value xa.depth xa.root mem).map fun result =>
        ((result.1.1, { xa with root := result.1.2 }), result.2)

end Set

section SetRange

/-- The arguments `set_range_node` hands down unchanged. -/
structure Range where
  first : Nat
  last : Nat
  startIndex : Nat
  startValue : Nat

def valueForIndex (stride : Nat) (range : Range) (index : Nat) : Except Fault (Option Nat) :=
  if index < range.startIndex then .error .panic
  else .ok (addmulU64Checked range.startValue (index - range.startIndex) stride)

/-- The body of the loop of `set_range_node` for a slot that meets the range. -/
def writeSlot (stride : Nat) (range : Range) (shift : Nat) (slotFirst slotLast : Nat)
    (below : Node → Nat → AllocOracle → Written) (node : Node) (i : Fin slotSize)
    (mem : AllocOracle) : Written :=
  if (range.first ≤ slotFirst ∧ slotLast ≤ range.last) ∨ shift = 0 then
    match valueForIndex stride range slotFirst with
    | .error fault => .error fault
    | .ok none => .ok ((false, node), mem)
    | .ok (some value) => .ok ((true, Function.update node i (.word (value ||| flagValue))), mem)
  else
    match childOf stride shift (node i) mem with
    | .error fault => .error fault
    | .ok (none, mem) => .ok ((false, node), mem)
    | .ok (some child, mem) => intoChild node i (below child slotFirst mem)

/-- The loop of `set_range_node` over the slots that are left. -/
def slotLoop (stride : Nat) (range : Range) (shift : Nat) (nodeBase : Nat)
    (below : Node → Nat → AllocOracle → Written) :
    List (Fin slotSize) → Node → AllocOracle → Written
  | [], node, mem => .ok ((true, node), mem)
  | i :: rest, node, mem =>
      match addmulU64Checked nodeBase i (2 ^ shift) with
      | none => .ok ((true, node), mem)
      | some slotFirst =>
          let slotEnd := (slotFirst + (2 ^ shift - 1)) % 2 ^ 64
          let slotLast := if slotEnd < slotFirst then uint64Max else slotEnd
          if range.last < slotFirst then .ok ((true, node), mem)
          else if slotLast < range.first then
            slotLoop stride range shift nodeBase below rest node mem
          else
            match writeSlot stride range shift slotFirst slotLast below node i mem with
            | .ok ((true, node), mem) => slotLoop stride range shift nodeBase below rest node mem
            | failed => failed

def setRangeNode (stride : Nat) (range : Range) : Nat → Node → Nat → AllocOracle → Written
  | 0, node, nodeBase, mem =>
      slotLoop stride range 0 nodeBase (fun node _ mem => .ok ((true, node), mem))
        (List.finRange slotSize) node mem
  | level + 1, node, nodeBase, mem =>
      slotLoop stride range ((level + 1) * slotBits) nodeBase
        (fun child base mem => setRangeNode stride range level child base mem)
        (List.finRange slotSize) node mem

def xarraySetRange (xa : Xarray) (index : Nat) (len : Nat) (start : Nat) (mem : AllocOracle) :
    Outcome :=
  if len = 0 then .ok ((true, xa), mem)
  else
    match addmulU64Checked index (len - 1) 1 with
    | none => .ok ((false, xa), mem)
    | some last =>
        match ensureDepth xa last mem with
        | ((false, xa), mem) => .ok ((false, xa), mem)
        | ((true, xa), mem) =>
            (setRangeNode xa.stride ⟨index, last, index, start⟩ (xa.depth - 1) xa.root 0 mem).map
              fun result => ((result.1.1, { xa with root := result.1.2 }), result.2)

end SetRange

end Opal.XArray
