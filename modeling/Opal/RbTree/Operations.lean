import Opal.Library.RedBlack
import Opal.Library.Outcome
import Mathlib.Order.Lattice
import Mathlib.Order.Basic
import Mathlib.Logic.Function.Basic

/-!
# Red-black tree operations

The operations of `rbtree.c` and the insertion template of `rbtree.h`.  Nodes are
addressed by `ν` and live in a heap; a null pointer is `none`.  The branches that the
source writes twice, once for each side, are one definition with the side as a
parameter.  Loops and recursions carry fuel, which running out of is a stop of its
own beside a null dereference and a failed assertion; `linked` counts the insertions
so far and bounds every walk.
-/

namespace Opal.RbTree

open RedBlack

variable {ν κ : Type}

/-- `struct rbtree_node`. -/
@[ext]
structure Node (ν : Type) where
  color : Color
  parent : Option ν
  left : Option ν
  right : Option ν

def Node.child (node : Node ν) : Side → Option ν
  | .left => node.left
  | .right => node.right

def Node.withChild (node : Node ν) (side : Side) (child : Option ν) : Node ν :=
  match side with
  | .left => { node with left := child }
  | .right => { node with right := child }

/-- `struct rbtree`, with the memory its nodes live in. -/
structure Rbtree (ν : Type) where
  heap : ν → Node ν
  root : Option ν
  first : Option ν
  linked : Nat

/-- Where a `struct rbtree_node **` points to. -/
inductive Link (ν : Type) where
  | root
  | child (node : ν) (side : Side)
  deriving DecidableEq

inductive Stop where
  | nullDereference
  | assertion
  | fuel
  deriving DecidableEq, Repr

abbrev Run := Except Stop

def deref (pointer : Option ν) : Run ν :=
  match pointer with
  | some node => .ok node
  | none => .error .nullDereference

namespace Rbtree

variable [DecidableEq ν]

def modify (tree : Rbtree ν) (node : ν) (change : Node ν → Node ν) : Rbtree ν :=
  { tree with heap := Function.update tree.heap node (change (tree.heap node)) }

def setColor (tree : Rbtree ν) (node : ν) (color : Color) : Rbtree ν :=
  tree.modify node fun record => { record with color }

def setParent (tree : Rbtree ν) (node : ν) (parent : Option ν) : Rbtree ν :=
  tree.modify node fun record => { record with parent }

def setChild (tree : Rbtree ν) (node : ν) (side : Side) (child : Option ν) : Rbtree ν :=
  tree.modify node fun record => record.withChild side child

def readLink (tree : Rbtree ν) : Link ν → Option ν
  | .root => tree.root
  | .child node side => (tree.heap node).child side

def writeLink (tree : Rbtree ν) (link : Link ν) (target : Option ν) : Rbtree ν :=
  match link with
  | .root => { tree with root := target }
  | .child node side => tree.setChild node side target

end Rbtree

section Shape

variable [DecidableEq ν]

def isBlkOrNil (tree : Rbtree ν) : Option ν → Bool
  | none => true
  | some node => (tree.heap node).color = .black

def isRed (tree : Rbtree ν) : Option ν → Bool
  | none => false
  | some node => (tree.heap node).color = .red

def getSibling (tree : Rbtree ν) (node : ν) : Option ν :=
  match (tree.heap node).parent with
  | none => none
  | some parent =>
      if (tree.heap parent).left = some node then (tree.heap parent).right
      else (tree.heap parent).left

def rbtreeInit (tree : Rbtree ν) : Rbtree ν :=
  { tree with root := none, first := none }

def getMinNode : Nat → Rbtree ν → ν → Run ν
  | 0, _, _ => .error .fuel
  | fuel + 1, tree, node =>
      match (tree.heap node).left with
      | none => .ok node
      | some left => getMinNode fuel tree left

/-- The loop of `rbtree_next` that leaves right subtrees. -/
def climb : Nat → Rbtree ν → ν → Run (Option ν)
  | 0, _, _ => .error .fuel
  | fuel + 1, tree, node =>
      match (tree.heap node).parent with
      | none => .ok none
      | some parent =>
          if (tree.heap parent).left = some node then .ok (some parent)
          else climb fuel tree parent

def rbtreeNext (fuel : Nat) (tree : Rbtree ν) (node : ν) : Run (Option ν) :=
  match (tree.heap node).right with
  | some right => some <$> getMinNode fuel tree right
  | none => climb fuel tree node

/-- `if (parent->left == node) parent->left = child; else parent->right = child;`. -/
def replaceChild (tree : Rbtree ν) (parent node : ν) (child : Option ν) : Rbtree ν :=
  if (tree.heap parent).left = some node then tree.setChild parent .left child
  else tree.setChild parent .right child

/-- The link to `node`, in its parent or in the tree, leads to `child` instead. -/
def replaceIn (tree : Rbtree ν) (parent : Option ν) (node : ν) (child : Option ν) : Rbtree ν :=
  match parent with
  | some parent => replaceChild tree parent node child
  | none => { tree with root := child }

/-- `if (child != NULL) child->parent = parent;`. -/
def adopt (tree : Rbtree ν) (child parent : Option ν) : Rbtree ν :=
  match child with
  | some child => tree.setParent child parent
  | none => tree

/-- The child of `node` away from `side` moves up into its place. -/
def rotate (side : Side) (tree : Rbtree ν) (node : ν) : Run (Rbtree ν) :=
  let parent := (tree.heap node).parent
  match (tree.heap node).child side.other with
  | none => .error .assertion
  | some up =>
      let inner := (tree.heap up).child side
      let tree := adopt tree inner (some node)
      let tree := tree.setChild node side.other inner
      let tree := tree.setParent node (some up)
      let tree := tree.setChild up side (some node)
      let tree := tree.setParent up parent
      .ok (replaceIn tree parent node (some up))

def rotateLeft (tree : Rbtree ν) (node : ν) : Run (Rbtree ν) := rotate .left tree node

def rotateRight (tree : Rbtree ν) (node : ν) : Run (Rbtree ν) := rotate .right tree node

end Shape

section Insertion

variable [DecidableEq ν]

/-- Case 4 for a node on the other side of its parent than the parent of its parent:
after the rotation the three pointers are taken again. -/
def straighten (rotation : Rbtree ν → ν → Run (Rbtree ν)) (tree : Rbtree ν) (parent : ν) :
    Run (Rbtree ν × ν × ν × ν) := do
  let tree ← rotation tree parent
  let node := parent
  let parent ← deref (tree.heap node).parent
  let grand ← deref (tree.heap parent).parent
  pure (tree, node, parent, grand)

/-- Case 4 of `insertion_balancing`: rotation for parent. -/
def insertionCase4 (tree : Rbtree ν) (node parent grand : ν) : Run (Rbtree ν × ν × ν × ν) :=
  if (tree.heap parent).right = some node ∧ (tree.heap grand).left = some parent then
    straighten rotateLeft tree parent
  else if (tree.heap parent).left = some node ∧ (tree.heap grand).right = some parent then
    straighten rotateRight tree parent
  else .ok (tree, node, parent, grand)

/-- Case 5 of `insertion_balancing`: rotation for grand. -/
def insertionCase5 (tree : Rbtree ν) (node parent grand : ν) : Run (Rbtree ν) :=
  let tree := tree.setColor parent .black
  let tree := tree.setColor grand .red
  if (tree.heap parent).left = some node then rotateRight tree grand else rotateLeft tree grand

def insertionRotations (tree : Rbtree ν) (node parent : ν) (grand : Option ν) :
    Run (Rbtree ν) := do
  let grand ← deref grand
  let (tree, node, parent, grand) ← insertionCase4 tree node parent grand
  insertionCase5 tree node parent grand

def insertionBalancing : Nat → Rbtree ν → ν → Run (Rbtree ν)
  | 0, _, _ => .error .fuel
  | fuel + 1, tree, node =>
      match (tree.heap node).parent with
      | none => .ok (tree.setColor node .black)
      | some parent =>
          let tree := tree.setColor node .red
          if (tree.heap parent).color = .black then .ok tree
          else
            let grand := (tree.heap parent).parent
            match getSibling tree parent with
            | some uncle =>
                if (tree.heap uncle).color = .red then do
                  let tree := tree.setColor parent .black
                  let tree := tree.setColor uncle .black
                  let grand ← deref grand
                  let tree := tree.setColor grand .red
                  insertionBalancing fuel tree grand
                else insertionRotations tree node parent grand
            | none => insertionRotations tree node parent grand

/-- `tree->first == NULL || link == &tree->first->left`. -/
def atFront (tree : Rbtree ν) (link : Link ν) : Bool :=
  match tree.first with
  | none => true
  | some first => link = .child first .left

def rbtreeLinkInsert (tree : Rbtree ν) (parent : Option ν) (link : Link ν) (node : ν) :
    Run (Rbtree ν) :=
  let tree := if atFront tree link then { tree with first := some node } else tree
  let tree := tree.setParent node parent
  let tree := (tree.setChild node .left none).setChild node .right none
  let tree := tree.writeLink link (some node)
  let tree := { tree with linked := tree.linked + 1 }
  insertionBalancing (tree.linked + 1) tree node

end Insertion

section Template

/-- A three-way comparison of keys that follows a strict total order. -/
structure Comparator (κ : Type) [LinearOrder κ] where
  comp : κ → κ → Int
  comp_neg_iff : ∀ found data, comp found data < 0 ↔ found < data
  comp_pos_iff : ∀ found data, 0 < comp found data ↔ data < found

variable [DecidableEq ν] [LinearOrder κ]

/-- The search loop of the template: the link to insert at and the node above it, or
nothing when the key is there. -/
def descend (order : Comparator κ) (key : ν → κ) (data : κ) :
    Nat → Rbtree ν → Link ν → Option ν → Run (Option (Link ν × Option ν))
  | 0, _, _, _ => .error .fuel
  | fuel + 1, tree, link, parent =>
      match tree.readLink link with
      | none => .ok (some (link, parent))
      | some found =>
          if order.comp (key found) data < 0 then
            descend order key data fuel tree (.child found .right) (some found)
          else if 0 < order.comp (key found) data then
            descend order key data fuel tree (.child found .left) (some found)
          else .ok none

/-- `rbtree_insert` as `RBTREE_INSERT_TEMPLATE` expands it. -/
def rbtreeInsert (order : Comparator κ) (key : ν → κ) (tree : Rbtree ν) (data : ν) :
    Run (Rbtree ν) := do
  match ← descend order key (key data) (tree.linked + 1) tree .root none with
  | none => .ok tree
  | some (link, parent) => rbtreeLinkInsert tree parent link data

end Template

section Removal

variable [DecidableEq ν]

/-- Case 2 of `removal_balancing`, the removed node having been on `side`. -/
def raiseSibling (side : Side) (tree : Rbtree ν) (parent sibling : ν) :
    Run (Rbtree ν × Option ν) := do
  let inner := (tree.heap sibling).child side
  let tree ← rotate side tree parent
  pure (tree, inner)

/-- Case 2 of `removal_balancing`: sibling is red. -/
def removalCase2 (tree : Rbtree ν) (parent sibling : ν) : Run (Rbtree ν × Option ν) :=
  if (tree.heap sibling).color = .red then
    let tree := tree.setColor sibling .black
    let tree := tree.setColor parent .red
    if (tree.heap parent).right = some sibling then raiseSibling .left tree parent sibling
    else raiseSibling .right tree parent sibling
  else .ok (tree, some sibling)

def turnSibling (side : Side) (tree : Rbtree ν) (sibling : ν) : Run (Rbtree ν × ν) := do
  let tree := tree.setColor sibling .red
  let inner ← deref ((tree.heap sibling).child side)
  let tree := tree.setColor inner .black
  let tree ← rotate side.other tree sibling
  let sibling ← deref (tree.heap sibling).parent
  pure (tree, sibling)

/-- Case 5 of `removal_balancing`: sibling rotation. -/
def removalCase5 (tree : Rbtree ν) (parent sibling : ν) : Run (Rbtree ν × ν) :=
  if (tree.heap parent).right = some sibling ∧ isRed tree (tree.heap sibling).left ∧
      isBlkOrNil tree (tree.heap sibling).right then
    turnSibling .left tree sibling
  else if (tree.heap parent).left = some sibling ∧ isRed tree (tree.heap sibling).right ∧
      isBlkOrNil tree (tree.heap sibling).left then
    turnSibling .right tree sibling
  else .ok (tree, sibling)

def closeUp (side : Side) (tree : Rbtree ν) (parent sibling : ν) : Run (Rbtree ν) := do
  let outer ← deref ((tree.heap sibling).child side.other)
  let tree := tree.setColor outer .black
  rotate side tree parent

/-- Case 6 of `removal_balancing`: parent rotation. -/
def removalCase6 (tree : Rbtree ν) (parent sibling : ν) : Run (Rbtree ν) :=
  let tree := tree.setColor sibling (tree.heap parent).color
  let tree := tree.setColor parent .black
  if (tree.heap parent).right = some sibling then closeUp .left tree parent sibling
  else closeUp .right tree parent sibling

/-- Cases 3 to 6 of `removal_balancing`; `recur` is the call of case 3. -/
def removalCases (recur : Rbtree ν → Option ν → Run (Rbtree ν)) (tree : Rbtree ν)
    (parent sibling : ν) : Run (Rbtree ν) :=
  if (tree.heap parent).color = .black ∧ isBlkOrNil tree (tree.heap sibling).left ∧
      isBlkOrNil tree (tree.heap sibling).right then
    let tree := tree.setColor sibling .red
    recur tree (getSibling tree parent)
  else if (tree.heap parent).color = .red ∧ isBlkOrNil tree (tree.heap sibling).left ∧
      isBlkOrNil tree (tree.heap sibling).right then
    let tree := tree.setColor sibling .red
    .ok (tree.setColor parent .black)
  else do
    let (tree, sibling) ← removalCase5 tree parent sibling
    removalCase6 tree parent sibling

def removalBalancing : Nat → Rbtree ν → Option ν → Run (Rbtree ν)
  | 0, _, _ => .error .fuel
  | _ + 1, tree, none => .ok tree
  | fuel + 1, tree, some sibling => do
      let parent ← deref (tree.heap sibling).parent
      let (tree, sibling) ← removalCase2 tree parent sibling
      let sibling ← deref sibling
      removalCases (removalBalancing fuel) tree parent sibling

/-- `rbtree_remove` of a node with a missing child. -/
def unlink (fuel : Nat) (tree : Rbtree ν) (node : ν) : Run (Rbtree ν) :=
  let record := tree.heap node
  let child := if record.left.isSome then record.left else record.right
  let sibling := getSibling tree node
  let tree := replaceIn tree record.parent node child
  match child with
  | some child => .ok ((tree.setParent child record.parent).setColor child .black)
  | none => if record.color = .red then .ok tree else removalBalancing fuel tree sibling

/-- The parent of the node leads to the successor. -/
def redirect (tree : Rbtree ν) (parent : Option ν) (node successor : ν) : Rbtree ν :=
  match parent with
  | some parent => replaceChild tree parent node (some successor)
  | none => tree

/-- The successor, taken out of the tree, takes the place of the node. -/
def transplant (tree : Rbtree ν) (node successor : ν) : Rbtree ν :=
  let parent := (tree.heap node).parent
  let tree := redirect tree parent node successor
  let tree := tree.setParent successor parent
  let tree := tree.setChild successor .left (tree.heap node).left
  let tree := tree.setChild successor .right (tree.heap node).right
  let tree := tree.setColor successor (tree.heap node).color
  let tree := adopt tree (tree.heap successor).left (some successor)
  let tree := adopt tree (tree.heap successor).right (some successor)
  if tree.root = some node then { tree with root := some successor } else tree

/-- `if (tree->first == node) tree->first = rbtree_next(node);`. -/
def advance (fuel : Nat) (tree : Rbtree ν) (node : ν) : Run (Rbtree ν) :=
  if tree.first = some node then do
    let next ← rbtreeNext fuel tree node
    .ok { tree with first := next }
  else .ok tree

/-- `rbtree_remove`; the recursion is bounded by `depth`, every loop by `fuel`. -/
def removeNode (fuel : Nat) : Nat → Rbtree ν → ν → Run (Rbtree ν)
  | 0, _, _ => .error .fuel
  | depth + 1, tree, node => do
      let tree ← advance fuel tree node
      match (tree.heap node).left, (tree.heap node).right with
      | some _, some right => do
          let successor ← getMinNode fuel tree right
          let tree ← removeNode fuel depth tree successor
          .ok (transplant tree node successor)
      | _, _ => unlink fuel tree node

def rbtreeRemove (tree : Rbtree ν) (node : ν) : Run (Rbtree ν) :=
  removeNode (tree.linked + 1) 2 tree node

end Removal

end Opal.RbTree
