import Mathlib.Data.List.Nodup
import Mathlib.Tactic.Tauto

/-!
# Red-black trees with a focus

Coloured binary trees, the contexts that surround a subtree, and what the red-black
rules say about a context and the subtree in its hole.  The mirrored cases of the
algorithms are one case here: `join` builds a node from the subtree on a chosen side
and the subtree on the other, so every statement is made for both sides at once.
-/

namespace Opal.RedBlack

inductive Color where
  | red
  | black
  deriving DecidableEq, Repr

inductive Side where
  | left
  | right
  deriving DecidableEq, Repr

def Side.other : Side → Side
  | .left => .right
  | .right => .left

@[simp]
theorem Side.other_other (side : Side) : side.other.other = side := by
  cases side <;> rfl

inductive Tree (α : Type) where
  | nil
  | node (color : Color) (left : Tree α) (label : α) (right : Tree α)

variable {α : Type}

namespace Tree

/-- The colour of the root, a missing subtree counting as black. -/
def tint : Tree α → Color
  | nil => .black
  | node color _ _ _ => color

def root : Tree α → Option α
  | nil => none
  | node _ _ label _ => some label

def inorder : Tree α → List α
  | nil => []
  | node _ left label right => inorder left ++ label :: inorder right

/-- The node with `near` on the given side and `far` on the other one. -/
def join (side : Side) (color : Color) (near : Tree α) (label : α) (far : Tree α) : Tree α :=
  match side with
  | .left => node color near label far
  | .right => node color far label near

section Join

variable {side : Side} {color : Color} {near far : Tree α} {label : α}

theorem join_other : join side.other color far label near = join side color near label far := by
  cases side <;> rfl

@[simp]
theorem tint_join : (join side color near label far).tint = color := by
  cases side <;> rfl

@[simp]
theorem root_join : (join side color near label far).root = some label := by
  cases side <;> rfl

theorem mem_inorder_join {x : α} : x ∈ (join side color near label far).inorder ↔
    x = label ∨ x ∈ near.inorder ∨ x ∈ far.inorder := by
  cases side <;> simp only [join, inorder, List.mem_append, List.mem_cons] <;> tauto

/-- The labels of a node are distinct when its parts have distinct labels and share none. -/
theorem nodup_inorder_join : (join side color near label far).inorder.Nodup ↔
    near.inorder.Nodup ∧ far.inorder.Nodup ∧ label ∉ near.inorder ∧ label ∉ far.inorder ∧
      ∀ x ∈ near.inorder, x ∉ far.inorder := by
  cases side <;> simp only [join, inorder, List.nodup_append, List.nodup_cons, List.mem_cons] <;>
    grind

theorem inorder_join_congr {near' far' : Tree α} {color' : Color}
    (sameNear : near'.inorder = near.inorder)
    (sameFar : far'.inorder = far.inorder) :
    (join side color' near' label far').inorder = (join side color near label far).inorder := by
  cases side <;> simp [join, inorder, sameNear, sameFar]

/-- Rotating keeps the order, whatever the colours. -/
theorem inorder_rotate {mid : Tree α} {label' : α} {color' color₁ color₂ : Color} :
    (join side color₁ (join side color₂ near label mid) label' far).inorder =
      (join side color near label (join side color' mid label' far)).inorder := by
  cases side <;> simp [join, inorder]

/-- Every nonempty tree is a join, seen from either side. -/
theorem exists_join (side : Side) {tree : Tree α} {x : α} (found : tree.root = some x) :
    ∃ color near far, tree = join side color near x far := by
  cases tree with
  | nil => cases found
  | node color left label right =>
      cases found
      cases side with
      | left => exact ⟨color, left, right, rfl⟩
      | right => exact ⟨color, right, left, rfl⟩

theorem exists_red (side : Side) {tree : Tree α} (red : tree.tint = .red) :
    ∃ near x far, tree = join side .red near x far := by
  cases tree with
  | nil => cases red
  | node color left label right =>
      cases red
      cases side with
      | left => exact ⟨left, label, right, rfl⟩
      | right => exact ⟨right, label, left, rfl⟩

end Join

theorem root_eq_none_iff {tree : Tree α} : tree.root = none ↔ tree = nil := by
  cases tree <;> simp [root]

theorem mem_inorder_of_root {tree : Tree α} {x : α} (found : tree.root = some x) :
    x ∈ tree.inorder := by
  obtain ⟨color, near, far, rfl⟩ := exists_join .left found
  exact mem_inorder_join.mpr (Or.inl rfl)

/-- The red-black rules below the root: both children of a red node are black, and
every way down to a missing child passes the same number of black nodes. -/
def Balanced : Tree α → Nat → Prop
  | nil, height => height = 0
  | node .red left _ right, height =>
      left.tint = .black ∧ right.tint = .black ∧ Balanced left height ∧ Balanced right height
  | node .black left _ right, height =>
      ∃ below, height = below + 1 ∧ Balanced left below ∧ Balanced right below

/-- A red-black tree: balanced, with a black root. -/
def Sound (tree : Tree α) : Prop := tree.tint = .black ∧ ∃ height, Balanced tree height

section Balanced

variable {side : Side} {near far tree : Tree α} {label : α} {height : Nat}

@[simp]
theorem balanced_nil : Balanced (nil : Tree α) height ↔ height = 0 := Iff.rfl

@[simp]
theorem balanced_red : Balanced (join side .red near label far) height ↔
    near.tint = .black ∧ far.tint = .black ∧ Balanced near height ∧ Balanced far height := by
  cases side with
  | left => rfl
  | right =>
      simp only [join, Balanced]
      tauto

@[simp]
theorem balanced_black : Balanced (join side .black near label far) (height + 1) ↔
    Balanced near height ∧ Balanced far height := by
  cases side <;> simp [join, Balanced, and_comm]

theorem not_balanced_black : ¬ Balanced (join side .black near label far) 0 := by
  cases side <;> simp [join, Balanced]

/-- The rules do not look at the labels. -/
theorem Balanced.relabel {color : Color} {label' : α}
    (balanced : Balanced (join side color near label far) height) :
    Balanced (join side color near label' far) height := by
  cases side <;> cases color <;> exact balanced

/-- A tree of positive black height is not missing. -/
theorem Balanced.exists_root (balanced : Balanced tree (height + 1)) :
    ∃ x, tree.root = some x := by
  cases tree with
  | nil => exact absurd balanced (Nat.succ_ne_zero height)
  | node color left label right => exact ⟨label, rfl⟩

/-- A tree of black height zero under a red node is missing. -/
theorem Balanced.eq_nil (balanced : Balanced tree 0) (black : tree.tint = .black) : tree = nil := by
  cases tree with
  | nil => rfl
  | node color left label right =>
      cases black
      exact absurd balanced (not_balanced_black : ¬ Balanced (join .left .black left label right) 0)

end Balanced

section Meaning

/-- No red node has a red child. -/
def NoRedRed : Tree α → Prop
  | nil => True
  | node color left _ right =>
      (color = .red → left.tint = .black ∧ right.tint = .black) ∧ NoRedRed left ∧ NoRedRed right

/-- The number of black nodes on the way to each missing child, from left to right. -/
def blackCounts : Tree α → List Nat
  | nil => [0]
  | node color left _ right =>
      (blackCounts left ++ blackCounts right).map (· + if color = .black then 1 else 0)

theorem Balanced.noRedRed {tree : Tree α} {height : Nat} (balanced : Balanced tree height) :
    NoRedRed tree := by
  induction tree generalizing height with
  | nil => trivial
  | node color left label right leftHypothesis rightHypothesis =>
      cases color with
      | red =>
          obtain ⟨leftBlack, rightBlack, balancedLeft, balancedRight⟩ := balanced
          exact ⟨fun _ => ⟨leftBlack, rightBlack⟩, leftHypothesis balancedLeft,
            rightHypothesis balancedRight⟩
      | black =>
          obtain ⟨below, -, balancedLeft, balancedRight⟩ := balanced
          exact ⟨nofun, leftHypothesis balancedLeft, rightHypothesis balancedRight⟩

theorem Balanced.blackCounts {tree : Tree α} {height : Nat} (balanced : Balanced tree height) :
    ∀ count ∈ tree.blackCounts, count = height := by
  induction tree generalizing height with
  | nil => simpa [Tree.blackCounts] using balanced.symm
  | node color left label right leftHypothesis rightHypothesis =>
      cases color with
      | red =>
          obtain ⟨-, -, balancedLeft, balancedRight⟩ := balanced
          have fromLeft := leftHypothesis balancedLeft
          have fromRight := rightHypothesis balancedRight
          simp only [Tree.blackCounts, List.mem_map, List.mem_append]
          grind
      | black =>
          obtain ⟨below, rfl, balancedLeft, balancedRight⟩ := balanced
          have fromLeft := leftHypothesis balancedLeft
          have fromRight := rightHypothesis balancedRight
          simp only [Tree.blackCounts, List.mem_map, List.mem_append]
          grind

end Meaning

end Tree

/-- One step up from a hole: the node above it, the side the hole is on, and the
subtree on the other side. -/
structure Frame (α : Type) where
  side : Side
  color : Color
  label : α
  sibling : Tree α

/-- What surrounds a subtree, the innermost frame first. -/
abbrev Context (α : Type) := List (Frame α)

def Frame.fill (frame : Frame α) (tree : Tree α) : Tree α :=
  Tree.join frame.side frame.color tree frame.label frame.sibling

namespace Context

def plug : Context α → Tree α → Tree α
  | [], tree => tree
  | frame :: rest, tree => plug rest (frame.fill tree)

/-- The label above the hole. -/
def top : Context α → Option α
  | [] => none
  | frame :: _ => some frame.label

/-- The root of a whole tree is not in the hole, unless the context is empty. -/
theorem root_plug_cons (frame : Frame α) (rest : Context α) (tree tree' : Tree α) :
    (plug (frame :: rest) tree).root = (plug (frame :: rest) tree').root := by
  induction rest generalizing frame tree tree' with
  | nil => simp [plug, Frame.fill]
  | cons next rest inductionHypothesis => exact inductionHypothesis next _ _

/-- The labels before the hole, in order. -/
def lefts : Context α → List α
  | [] => []
  | frame :: rest =>
      match frame.side with
      | .left => lefts rest
      | .right => lefts rest ++ frame.sibling.inorder ++ [frame.label]

/-- The labels behind the hole, in order. -/
def rights : Context α → List α
  | [] => []
  | frame :: rest =>
      match frame.side with
      | .left => frame.label :: frame.sibling.inorder ++ rights rest
      | .right => rights rest

def labels (context : Context α) : List α := lefts context ++ rights context

theorem inorder_plug (context : Context α) (tree : Tree α) :
    (plug context tree).inorder = lefts context ++ tree.inorder ++ rights context := by
  induction context generalizing tree with
  | nil => simp [plug, lefts, rights]
  | cons frame rest inductionHypothesis =>
      obtain ⟨side, color, label, sibling⟩ := frame
      cases side <;>
        simp [plug, inductionHypothesis, lefts, rights, Frame.fill, Tree.join, Tree.inorder]

theorem inorder_plug_congr {context : Context α} {tree tree' : Tree α}
    (same : tree'.inorder = tree.inorder) :
    (plug context tree').inorder = (plug context tree).inorder := by
  rw [inorder_plug, inorder_plug, same]

theorem mem_labels_cons {frame : Frame α} {rest : Context α} {x : α} :
    x ∈ labels (frame :: rest) ↔ x = frame.label ∨ x ∈ frame.sibling.inorder ∨ x ∈ labels rest := by
  obtain ⟨side, color, label, sibling⟩ := frame
  cases side <;> simp only [labels, lefts, rights, List.mem_append, List.mem_cons,
    List.not_mem_nil, or_false] <;> tauto

theorem length_le_labels (context : Context α) : context.length ≤ (labels context).length := by
  induction context with
  | nil => exact Nat.zero_le _
  | cons frame rest inductionHypothesis =>
      obtain ⟨side, color, label, sibling⟩ := frame
      cases side <;> simp [labels, lefts, rights] at inductionHypothesis ⊢ <;> omega

/-- Every label of a tree stands at a focus. -/
theorem exists_focus {tree : Tree α} {x : α} (inside : x ∈ tree.inorder) (context : Context α) :
    ∃ context' color left right,
      plug context' (Tree.join .left color left x right) = plug context tree := by
  induction tree generalizing context with
  | nil => cases inside
  | node color left label right leftHypothesis rightHypothesis =>
      rcases List.mem_append.mp inside with before | behind
      · exact leftHypothesis before (⟨.left, color, label, right⟩ :: context)
      · rcases List.mem_cons.mp behind with rfl | after
        · exact ⟨context, color, left, right, rfl⟩
        · exact rightHypothesis after (⟨.right, color, label, left⟩ :: context)

theorem nodup_plug {context : Context α} {tree : Tree α} :
    (plug context tree).inorder.Nodup ↔
      tree.inorder.Nodup ∧ (labels context).Nodup ∧ ∀ x ∈ tree.inorder, x ∉ labels context := by
  simp only [inorder_plug, labels, List.nodup_append, List.mem_append]
  grind

/-- A red subtree may stand in the hole. -/
def AcceptsRed : Context α → Prop
  | [] => False
  | frame :: _ => frame.color = .black

/-- The red-black rules for everything outside a hole of the given black height. -/
def Fits : Context α → Nat → Prop
  | [], _ => True
  | frame :: rest, height =>
      match frame.color with
      | .red => frame.sibling.tint = .black ∧ frame.sibling.Balanced height ∧ Fits rest height ∧
          AcceptsRed rest
      | .black => frame.sibling.Balanced height ∧ Fits rest (height + 1)

/-- The rules for a whole tree are those for a subtree and for what surrounds it. -/
theorem sound_plug {context : Context α} {tree : Tree α} :
    (plug context tree).Sound ↔
      ∃ height, tree.Balanced height ∧ Fits context height ∧
        (tree.tint = .red → AcceptsRed context) := by
  induction context generalizing tree with
  | nil =>
      cases shade : tree.tint <;> simp [plug, Fits, AcceptsRed, Tree.Sound, shade]
  | cons frame rest inductionHypothesis =>
      obtain ⟨side, color, label, sibling⟩ := frame
      rw [plug, inductionHypothesis]
      cases color with
      | red =>
          simp only [Frame.fill, Tree.balanced_red, Tree.tint_join, Fits, AcceptsRed]
          constructor
          · rintro ⟨height, ⟨inner, outer, balanced, balancedSibling⟩, fits, accepts⟩
            refine ⟨height, balanced, ⟨outer, balancedSibling, fits, accepts trivial⟩, ?_⟩
            simp [inner]
          · rintro ⟨height, balanced, ⟨outer, balancedSibling, fits, accepts⟩, shade⟩
            have inner : tree.tint = .black := by
              cases tint : tree.tint with
              | red => exact absurd (shade tint) nofun
              | black => rfl
            exact ⟨height, ⟨inner, outer, balanced, balancedSibling⟩, fits, fun _ => accepts⟩
      | black =>
          simp only [Frame.fill, Tree.tint_join, Fits, AcceptsRed]
          constructor
          · rintro ⟨height, balanced, fits, -⟩
            cases height with
            | zero => exact absurd balanced Tree.not_balanced_black
            | succ below =>
                obtain ⟨inner, outer⟩ := Tree.balanced_black.mp balanced
                exact ⟨below, inner, ⟨outer, fits⟩, fun _ => trivial⟩
          · rintro ⟨height, inner, ⟨outer, fits⟩, -⟩
            exact ⟨height + 1, Tree.balanced_black.mpr ⟨inner, outer⟩, fits, nofun⟩

end Context

end Opal.RedBlack
