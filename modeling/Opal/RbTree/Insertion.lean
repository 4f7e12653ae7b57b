import Opal.RbTree.Focus

/-!
# Balancing after an insertion

`insertion_balancing` is called on a node that the red-black rules allow to be red,
except that its parent may be red too.  By induction on the context it ends in a sound
tree with the same nodes in the same order, and it never follows a null pointer.
-/

namespace Opal.RbTree

open RedBlack

variable {ν : Type}

/-- The computation returns a sound tree with the given nodes in order. -/
def Settles (tree : Rbtree ν) (nodes : List ν) (result : Run (Rbtree ν)) : Prop :=
  ∃ tree' shape, result = .ok tree' ∧ Kept tree tree' ∧ At tree' [] shape ∧ shape.Sound ∧
    shape.inorder = nodes

section

variable {tree tree' : Rbtree ν} {context : Context ν} {focus : RedBlack.Tree ν} {nodes : List ν}

theorem Settles.of_at (kept : Kept tree tree') (holds : At tree' context focus)
    (sound : (Context.plug context focus).Sound)
    (order : (Context.plug context focus).inorder = nodes) : Settles tree nodes (.ok tree') :=
  ⟨tree', _, rfl, kept, at_nil_plug_iff.mpr holds, sound, order⟩

theorem Kept.settles {result : Run (Rbtree ν)} (kept : Kept tree tree')
    (settles : Settles tree' nodes result) : Settles tree nodes result := by
  obtain ⟨last, shape, returned, keeps, rest⟩ := settles
  exact ⟨last, shape, returned, kept.trans keeps, rest⟩

theorem Settles.reorder {result : Run (Rbtree ν)} {nodes' : List ν}
    (settles : Settles tree nodes result) (same : nodes = nodes') : Settles tree nodes' result :=
  same ▸ settles

variable [DecidableEq ν]

theorem kept_setColor {node : ν} {color : Color} : Kept tree (tree.setColor node color) :=
  ⟨rfl, rfl⟩

/-- The sibling of a node, as the shape has it. -/
theorem At.getSibling {frame : Frame ν} {x : ν} (holds : At tree (frame :: context) focus)
    (found : focus.root = some x) : getSibling tree x = frame.sibling.root := by
  obtain ⟨color, near, far, rfl⟩ := Tree.exists_join .left found
  have record := holds.frameRecord
  simp only [RbTree.getSibling, holds.record, Node.of_parent, Context.top, holds.left_iff found]
  rw [record]
  cases side : frame.side <;> rfl

end

section Lift

variable [DecidableEq ν] {tree : Rbtree ν} {rest : Context ν} {grand : Frame ν}
  {far node : RedBlack.Tree ν} {parent x : ν}
  {height : Nat}

/-- Case 5: the red parent rises above the grandparent, which turns red. -/
theorem lift_settles
    (holds : At tree (⟨grand.side, .red, parent, far⟩ :: grand :: rest) node)
    (found : node.root = some x) (balancedNode : node.Balanced height)
    (balancedFar : far.Balanced height) (farBlack : far.tint = .black)
    (grandBlack : grand.color = .black) (uncleBlack : grand.sibling.tint = .black)
    (fits : Context.Fits (grand :: rest) height) :
    Settles tree (Context.plug (⟨grand.side, .red, parent, far⟩ :: grand :: rest) node).inorder
      (insertionCase5 tree x parent grand.label) := by
  obtain ⟨side, color, label, uncle⟩ := grand
  obtain rfl : color = .black := grandBlack
  obtain ⟨balancedUncle, fitsRest⟩ := fits
  have parentBlack : At (tree.setColor parent .black) (⟨side, .black, label, uncle⟩ :: rest)
      (Tree.join side .black node parent far) := (at_join_iff.mpr holds).setColor .black
  have grandRed := (at_join_iff.mpr parentBlack).setColor .red
  have pointer := (at_join_iff.mp (at_join_iff.mp grandRed)).left_iff found
  have turned : insertionCase5 tree x parent label =
      rotate side.other ((tree.setColor parent .black).setColor label .red) label := by
    simp only [insertionCase5, pointer]
    cases side <;> rfl
  dsimp only
  rw [turned]
  obtain ⟨tree', returned, kept, holds'⟩ := grandRed.rotateOther
  rw [returned]
  refine Settles.of_at ((kept_setColor.trans kept_setColor).trans kept) holds' ?_ ?_
  · refine Context.sound_plug.mpr ⟨height + 1, ?_, fitsRest, by simp⟩
    simp [balancedUncle, balancedFar, balancedNode, farBlack, show uncle.tint =
      .black from uncleBlack]
  · exact Context.inorder_plug_congr Tree.inorder_rotate.symm

/-- Cases 4 and 5. -/
theorem insertionRotations_settles {side : Side}
    (holds : At tree (⟨side, .red, parent, far⟩ :: grand :: rest) node)
    (found : node.root = some x) (nodeRed : node.tint = .red) (balancedNode : node.Balanced height)
    (balancedFar : far.Balanced height) (farBlack : far.tint = .black)
    (grandBlack : grand.color = .black) (uncleBlack : grand.sibling.tint = .black)
    (fits : Context.Fits (grand :: rest) height) :
    Settles tree (Context.plug (⟨side, .red, parent, far⟩ :: grand :: rest) node).inorder
      (insertionRotations tree x parent (some grand.label)) := by
  have upper := at_cons_iff.mp holds
  have parentFound : (Frame.fill ⟨side, .red, parent, far⟩ node).root = some parent :=
    Tree.root_join
  have bends : insertionCase4 tree x parent grand.label =
      if side = grand.side then .ok (tree, x, parent, grand.label)
      else straighten (rotate grand.side) tree parent := by
    simp only [insertionCase4, holds.right_iff found, holds.left_iff found,
      upper.right_iff parentFound, upper.left_iff parentFound]
    cases side <;> cases grand.side <;> rfl
  simp only [insertionRotations, deref, ok_bind, bends]
  by_cases straight : side = grand.side
  · subst straight
    rw [if_pos rfl]
    exact lift_settles holds found balancedNode balancedFar farBlack grandBlack uncleBlack fits
  · rw [if_neg straight]
    obtain rfl : side = grand.side.other := by
      revert straight
      cases side <;> cases grand.side <;> simp [Side.other]
    obtain ⟨color, near, outer, rfl⟩ := Tree.exists_join grand.side found
    obtain rfl : color = .red := by simpa using nodeRed
    rw [Frame.fill, Tree.join_other] at upper
    obtain ⟨tree', returned, kept, holds'⟩ := upper.rotate
    obtain ⟨nearBlack, outerBlack, balancedNear, balancedOuter⟩ := Tree.balanced_red.mp balancedNode
    have parentRecord := (at_join_iff.mp holds').record
    have nodeRecord := holds'.record
    have settles := lift_settles (at_join_iff.mp holds') Tree.root_join
      (Tree.balanced_red.mpr ⟨farBlack, nearBlack, balancedFar, balancedNear⟩) balancedOuter
        outerBlack
      grandBlack uncleBlack fits
    have order : (Context.plug (⟨grand.side, .red, x, outer⟩ :: grand :: rest)
        (Tree.join grand.side .red far parent near)).inorder =
        (Context.plug (⟨grand.side.other, .red, parent, far⟩ :: grand :: rest)
          (Tree.join grand.side .red near x outer)).inorder := by
      show (Context.plug (grand :: rest) _).inorder = (Context.plug (grand :: rest) _).inorder
      refine Context.inorder_plug_congr ?_
      simp only [Frame.fill, Tree.join_other]
      exact Tree.inorder_rotate
    rw [order] at settles
    refine kept.settles ?_
    have straightened : straighten (rotate grand.side) tree parent =
        .ok (tree', parent, x, grand.label) := by
      unfold straighten
      rw [returned]
      simp [parentRecord, nodeRecord, deref, Context.top, bind, Except.bind, pure, Except.pure]
    rw [straightened]
    exact settles

end Lift

section Climb

variable [DecidableEq ν] {tree : Rbtree ν}

/-- Case 3: parent and uncle turn black, the grandparent red. -/
theorem At.recolor {rest : Context ν} {side grandSide : Side} {grandColor : Color}
    {node sibling inner outer : RedBlack.Tree ν} {parent grand uncle : ν}
    (holds : At tree (⟨side, .red, parent, sibling⟩ ::
      ⟨grandSide, grandColor, grand, Tree.join .left .red inner uncle outer⟩ :: rest) node) :
    At (((tree.setColor parent .black).setColor uncle .black).setColor grand .red) rest
      (Tree.join grandSide .red (Tree.join side .black node parent sibling) grand
        (Tree.join .left .black inner uncle outer)) := by
  have parentBlack := (at_join_iff.mpr holds).setColor .black
  have uncleBlack := at_cons_iff.mp (parentBlack.turn.setColor .black)
  rw [Frame.fill, Tree.join_other] at uncleBlack
  exact uncleBlack.setColor .red

/-- `insertion_balancing` ends in a sound tree; the induction follows the red parents up
the context. -/
theorem insertionBalancing_settles {context : Context ν} {side : Side} {color : Color}
    {near far : RedBlack.Tree ν} {x : ν} {height fuel : Nat}
    (holds : At tree context (Tree.join side color near x far))
    (nearBlack : near.tint = .black) (farBlack : far.tint = .black)
    (balancedNear : near.Balanced height) (balancedFar : far.Balanced height)
    (fits : Context.Fits context height) (enough : context.length < fuel) :
    Settles tree (Context.plug context (Tree.join side color near x far)).inorder
      (insertionBalancing fuel tree x) := by
  induction fuel generalizing context tree side color near far x height with
  | zero => exact absurd enough (Nat.not_lt_zero _)
  | succ fuel inductionHypothesis =>
  unfold insertionBalancing
  simp only [holds.record, Node.of_parent]
  cases context with
  | nil =>
      refine Settles.of_at kept_setColor (holds.setColor .black) ?_ ?_
      · exact Context.sound_plug.mpr
          ⟨height + 1, Tree.balanced_black.mpr ⟨balancedNear, balancedFar⟩,
          trivial, by simp⟩
      · exact Context.inorder_plug_congr (Tree.inorder_join_congr rfl rfl)
  | cons frame rest =>
      have nodeRed := holds.setColor .red
      have balancedNode : (Tree.join side .red near x far).Balanced height :=
        Tree.balanced_red.mpr ⟨nearBlack, farBlack, balancedNear, balancedFar⟩
      have order : (Context.plug (frame :: rest) (Tree.join side .red near x far)).inorder =
          (Context.plug (frame :: rest) (Tree.join side color near x far)).inorder :=
        Context.inorder_plug_congr (Tree.inorder_join_congr rfl rfl)
      rw [← order]
      have keeps : Kept tree (tree.setColor x .red) := kept_setColor
      refine keeps.settles ?_
      obtain ⟨parentSide, parentColor, parent, sibling⟩ := frame
      simp only [Context.top, nodeRed.frameRecord, Node.of_color, Node.of_parent]
      cases parentColor with
      | black =>
          refine Settles.of_at ⟨rfl, rfl⟩ nodeRed ?_ rfl
          exact Context.sound_plug.mpr ⟨height, balancedNode, fits, fun _ => rfl⟩
      | red =>
          obtain ⟨siblingBlack, balancedSibling, fitsRest, accepts⟩ := fits
          cases rest with
          | nil => exact accepts.elim
          | cons frame rest =>
              obtain ⟨grandSide, grandColor, grand, uncle⟩ := frame
              obtain rfl : grandColor = .black := accepts
              have uncleRead : getSibling (tree.setColor x .red) parent = uncle.root :=
                (at_cons_iff.mp nodeRed).getSibling Tree.root_join
              have rotates (uncleBlack : uncle.tint = .black) :=
                insertionRotations_settles nodeRed Tree.root_join Tree.tint_join balancedNode
                  balancedSibling siblingBlack rfl uncleBlack fitsRest
              rw [if_neg (by simp), uncleRead]
              cases uncleRoot : uncle.root with
              | none =>
                  obtain rfl := Tree.root_eq_none_iff.mp uncleRoot
                  exact rotates rfl
              | some uncleLabel =>
                  obtain ⟨uncleColor, inner, outer, rfl⟩ := Tree.exists_join .left uncleRoot
                  have uncleRecord := (at_cons_iff.mp nodeRed).turn.record
                  simp only [uncleRecord, Node.of_color, deref, ok_bind, Context.top]
                  cases uncleColor with
                  | black => exact rotates rfl
                  | red =>
                      obtain ⟨balancedUncle, fitsAbove⟩ :
                        (Tree.join .left .red inner uncleLabel outer).Balanced height ∧
                          Context.Fits rest (height + 1) := fitsRest
                      obtain ⟨-, -, balancedInner, balancedOuter⟩ :=
                        Tree.balanced_red.mp balancedUncle
                      have climbs :=
                        inductionHypothesis nodeRed.recolor Tree.tint_join Tree.tint_join
                        (Tree.balanced_black.mpr ⟨balancedNode, balancedSibling⟩)
                        (Tree.balanced_black.mpr ⟨balancedInner, balancedOuter⟩) fitsAbove
                        (by simp only [List.length_cons] at enough; omega)
                      rw [if_pos rfl]
                      refine Settles.reorder (Kept.settles ⟨rfl, rfl⟩ climbs) ?_
                      exact Context.inorder_plug_congr (Tree.inorder_join_congr
                        (Tree.inorder_join_congr rfl rfl) (Tree.inorder_join_congr rfl rfl))

end Climb

end Opal.RbTree
