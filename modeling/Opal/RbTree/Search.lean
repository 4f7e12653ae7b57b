import Opal.RbTree.Focus
import Mathlib.Data.List.Pairwise

/-!
# Walks through the tree

The loops that only read: `get_min_node`, `rbtree_next` and the search of the insertion
template.  Each is specified by the order of the nodes, and ends within as many steps as
the tree has nodes.
-/

namespace Opal.RbTree

open RedBlack

variable {ν : Type} [DecidableEq ν] {tree : Rbtree ν} {context : Context ν}
  {focus : RedBlack.Tree ν} {x : ν}
  {fuel : Nat}

section Neighbours

omit [DecidableEq ν] in
/-- The least node of a subtree has no left child. -/
theorem getMinNode_spec (holds : At tree context focus) (found : focus.root = some x)
    (enough : focus.inorder.length ≤ fuel) :
    ∃ least later context' color right, getMinNode fuel tree x = .ok least ∧
      focus.inorder = least :: later ∧
      Context.plug context' (Tree.join .left color .nil least right) =
        Context.plug context focus := by
  induction focus generalizing context x fuel with
  | nil => cases found
  | node color left label right leftHypothesis _ =>
      cases found
      have record : tree.heap label = _ := holds.below.1
      obtain ⟨fuel, rfl⟩ : ∃ less, fuel = less + 1 := by
        simp only [Tree.inorder, List.length_append, List.length_cons] at enough
        exact ⟨fuel - 1, by omega⟩
      unfold getMinNode
      simp only [record]
      cases leftFound : left.root with
      | none =>
          obtain rfl := Tree.root_eq_none_iff.mp leftFound
          exact ⟨label, right.inorder, context, color, right, rfl, rfl, rfl⟩
      | some next =>
          have leftAt : At tree (⟨.left, color, label, right⟩ :: context) left :=
            at_join_iff.mp holds
          have enoughLeft : left.inorder.length ≤ fuel := by
            simp only [Tree.inorder, List.length_append, List.length_cons] at enough
            omega
          obtain ⟨least, later, context', color', right', returned, order, same⟩ :=
            leftHypothesis leftAt leftFound enoughLeft
          refine ⟨least, later ++ label :: right.inorder, context', color', right', returned,
            ?_, same⟩
          simp [Tree.inorder, order]

/-- Leaving right subtrees leads to the next label behind the focus. -/
theorem climb_spec (holds : At tree context focus) (found : focus.root = some x)
    (enough : context.length < fuel) : climb fuel tree x = .ok (Context.rights context).head? := by
  induction context generalizing focus x fuel with
  | nil =>
      obtain ⟨fuel, rfl⟩ := Nat.exists_eq_add_one_of_ne_zero (Nat.ne_of_gt enough)
      obtain ⟨color, left, right, rfl⟩ := Tree.exists_join .left found
      simp [climb, holds.record, Context.top, Context.rights]
  | cons frame rest inductionHypothesis =>
      obtain ⟨fuel, rfl⟩ :=
        Nat.exists_eq_add_one_of_ne_zero (Nat.ne_of_gt (Nat.zero_lt_of_lt enough))
      obtain ⟨color, left, right, rfl⟩ := Tree.exists_join .left found
      have pointer := holds.left_iff found
      have upper := inductionHypothesis (at_cons_iff.mp holds) Tree.root_join
        (Nat.lt_of_succ_lt_succ enough)
      obtain ⟨side, frameColor, label, sibling⟩ := frame
      simp only [climb, holds.record, Node.of_parent, Context.top, pointer]
      cases side with
      | left => rfl
      | right => exact upper

theorem rbtreeNext_spec {color : Color} {left right : RedBlack.Tree ν}
    (holds : At tree context (Tree.join .left color left x right))
    (enough : (Context.plug context (Tree.join .left color left x right)).inorder.length < fuel) :
    rbtreeNext fuel tree x = .ok (right.inorder ++ Context.rights context).head? := by
  have pointer : (tree.heap x).right = right.root := by rw [holds.record]; rfl
  have bound := Context.length_le_labels context
  simp only [Context.inorder_plug, Context.labels, Tree.join, Tree.inorder, List.length_append,
    List.length_cons] at enough bound
  unfold rbtreeNext
  rw [pointer]
  cases found : right.root with
  | none =>
      obtain rfl := Tree.root_eq_none_iff.mp found
      exact climb_spec holds Tree.root_join (by omega)
  | some next =>
      obtain ⟨least, later, -, -, -, returned, order, -⟩ :=
        getMinNode_spec (at_join_iff.mp holds).turn found
          (show right.inorder.length ≤ fuel by omega)
      simp only [returned, order]
      rfl

end Neighbours

section Descent

variable {κ : Type} [LinearOrder κ] {key : ν → κ} {data : κ}

/-- The link that leads to the hole of a context. -/
def linkOf : Context ν → Link ν
  | [] => .root
  | frame :: _ => .child frame.label frame.side

omit [DecidableEq ν] in
theorem At.readLink (holds : At tree context focus) :
    tree.readLink (linkOf context) = focus.root := by
  cases context with
  | nil => exact holds.root
  | cons frame rest =>
      show (tree.heap frame.label).child frame.side = focus.root
      rw [holds.frameRecord, Node.of_near]

/-- The key belongs into the hole. -/
def Between (key : ν → κ) (data : κ) (context : Context ν) : Prop :=
  (∀ p ∈ Context.lefts context, key p < data) ∧ ∀ p ∈ Context.rights context, data < key p

section Turns

variable {color : Color} {label : ν} {left right : RedBlack.Tree ν}

omit [DecidableEq ν] in
theorem pairwise_focus
    (sorted : ((Context.plug context focus).inorder.map key).Pairwise (· < ·)) :
    (focus.inorder.map key).Pairwise (· < ·) := by
  rw [Context.inorder_plug, List.map_append, List.map_append] at sorted
  exact (List.pairwise_append.mp (List.pairwise_append.mp sorted).1).2.1

omit [DecidableEq ν] in
/-- A key above that of the node belongs to the right of it. -/
theorem Between.turnRight (between : Between key data context)
    (sorted : ((Context.plug context (.node color left label right)).inorder.map key).Pairwise
      (· < ·)) (less : key label < data) :
    Between key data (⟨.right, color, label, left⟩ :: context) := by
  have ordered := pairwise_focus sorted
  rw [Tree.inorder, List.map_append, List.pairwise_append] at ordered
  refine ⟨fun p inside => ?_, between.2⟩
  simp only [Context.lefts, List.mem_append, List.mem_singleton] at inside
  rcases inside with (before | inside) | rfl
  · exact between.1 p before
  · exact (ordered.2.2 (key p) (List.mem_map_of_mem inside) (key label) List.mem_cons_self).trans
      less
  · exact less

omit [DecidableEq ν] in
/-- A key below that of the node belongs to the left of it. -/
theorem Between.turnLeft (between : Between key data context)
    (sorted : ((Context.plug context (.node color left label right)).inorder.map key).Pairwise
      (· < ·)) (greater : data < key label) :
    Between key data (⟨.left, color, label, right⟩ :: context) := by
  have ordered := pairwise_focus sorted
  rw [Tree.inorder, List.map_append, List.pairwise_append, List.map_cons,
    List.pairwise_cons] at ordered
  refine ⟨between.1, fun p inside => ?_⟩
  simp only [Context.rights, List.cons_append, List.mem_append, List.mem_cons] at inside
  rcases inside with rfl | inside | behind
  · exact greater
  · exact greater.trans (ordered.2.1.1 (key p) (List.mem_map_of_mem inside))
  · exact between.2 p behind

end Turns

omit [DecidableEq ν] in
/-- The search of the template ends at a node with the key, or at the empty place where
the key belongs. -/
theorem descend_spec (order : Comparator κ) (holds : At tree context focus)
    (sorted : ((Context.plug context focus).inorder.map key).Pairwise (· < ·))
    (between : Between key data context) (enough : focus.inorder.length < fuel) :
    (descend order key data fuel tree (linkOf context) (Context.top context) = .ok none ∧
        ∃ p ∈ focus.inorder, key p = data) ∨
      ∃ context', descend order key data fuel tree (linkOf context) (Context.top context) =
          .ok (some (linkOf context', Context.top context')) ∧
        Context.plug context' .nil = Context.plug context focus ∧ Between key data context' := by
  induction focus generalizing context fuel with
  | nil =>
      obtain ⟨fuel, rfl⟩ := Nat.exists_eq_add_one_of_ne_zero (Nat.ne_of_gt enough)
      refine Or.inr ⟨context, ?_, rfl, between⟩
      simp [descend, holds.readLink, Tree.root]
  | node color left label right leftHypothesis rightHypothesis =>
      obtain ⟨fuel, rfl⟩ :=
        Nat.exists_eq_add_one_of_ne_zero (Nat.ne_of_gt (Nat.zero_lt_of_lt enough))
      simp only [Tree.inorder, List.length_append, List.length_cons] at enough
      have leftAt : At tree (⟨.left, color, label, right⟩ :: context) left := at_join_iff.mp holds
      unfold descend
      simp only [holds.readLink, Tree.root, order.comp_neg_iff, order.comp_pos_iff]
      by_cases less : key label < data
      · rw [if_pos less]
        have between' := between.turnRight sorted less
        have enoughRight : right.inorder.length < fuel := by omega
        rcases rightHypothesis leftAt.turn sorted between' enoughRight with
          ⟨returned, p, inside, same⟩ | later
        · refine Or.inl ⟨returned, p, ?_, same⟩
          simp [Tree.inorder, inside]
        · exact Or.inr later
      · rw [if_neg less]
        by_cases greater : data < key label
        · rw [if_pos greater]
          have between' := between.turnLeft sorted greater
          have enoughLeft : left.inorder.length < fuel := by omega
          rcases leftHypothesis leftAt sorted between' enoughLeft with
            ⟨returned, p, inside, same⟩ | later
          · refine Or.inl ⟨returned, p, ?_, same⟩
            simp [Tree.inorder, inside]
          · exact Or.inr later
        · rw [if_neg greater]
          refine Or.inl ⟨rfl, label, by simp [Tree.inorder], ?_⟩
          exact le_antisymm (not_lt.mp greater) (not_lt.mp less)

end Descent

end Opal.RbTree
