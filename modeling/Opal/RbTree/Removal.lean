import Opal.RbTree.Insertion

/-!
# Balancing after a removal

`removal_balancing` is called with the sibling of a subtree that lacks one black node.
The induction follows the context upwards: a step either ends in a sound tree or moves
the deficit to the parent.
-/

namespace Opal.RbTree

open RedBlack

variable {ν : Type} [DecidableEq ν] {tree : Rbtree ν} {rest : Context ν} {side : Side}
  {color : Color}
  {focus near mid far : RedBlack.Tree ν} {parent sibling inner outer : ν} {height : Nat}

section Tests

omit [DecidableEq ν] in
theorem At.isBlkOrNil {context : Context ν} (holds : At tree context focus) :
    isBlkOrNil tree focus.root = (focus.tint = .black) := by
  cases found : focus.root with
  | none =>
      rw [Tree.root_eq_none_iff.mp found]
      simp [RbTree.isBlkOrNil, Tree.tint]
  | some x =>
      obtain ⟨color, near, far, rfl⟩ := Tree.exists_join .left found
      simp [RbTree.isBlkOrNil, holds.record]

omit [DecidableEq ν] in
theorem At.isRed {context : Context ν} (holds : At tree context focus) :
    isRed tree focus.root = (focus.tint = .red) := by
  cases found : focus.root with
  | none =>
      rw [Tree.root_eq_none_iff.mp found]
      simp [RbTree.isRed, Tree.tint]
  | some x =>
      obtain ⟨color, near, far, rfl⟩ := Tree.exists_join .left found
      simp [RbTree.isRed, holds.record]

omit [DecidableEq ν] in
/-- The test for two black children does not depend on the side. -/
theorem At.bothBlack {context : Context ν}
    (holds : At tree context (Tree.join side color near sibling far)) :
    (RbTree.isBlkOrNil tree (tree.heap sibling).left ∧
        RbTree.isBlkOrNil tree (tree.heap sibling).right) ↔
      near.tint = .black ∧ far.tint = .black := by
  have nearTest := (at_join_iff.mp holds).isBlkOrNil
  have farTest := (at_join_iff.mp holds).turn.isBlkOrNil
  rw [holds.record]
  cases side with
  | left => simp only [Node.of, nearTest, farTest]
  | right =>
      simp only [Node.of, nearTest, farTest]
      exact and_comm

/-- Where the source tells the side of the removed node by its sibling. -/
theorem At.bySide {α : Type} {context : Context ν}
    (holds : At tree (⟨side, color, parent, far⟩ :: context) near)
    (found : far.root = some sibling) (branch : Side → α) :
    (if (tree.heap parent).right = some sibling then branch .left else branch .right) =
      branch side := by
  have pointer := holds.turn.right_iff found
  simp only [pointer]
  cases side <;> simp [Side.other]

end Tests

section Cases

/-- Case 6: the sibling rises above the parent with its colour. -/
theorem removalCase6_settles
    (holds : At tree (⟨side, color, parent,
      Tree.join side .black near sibling (Tree.join side .red mid outer far)⟩ :: rest) focus)
    (balanced : focus.Balanced height) (balancedNear : near.Balanced height)
    (balancedFar : (Tree.join side .red mid outer far).Balanced height)
    (fits : Context.Fits (⟨side, color, parent,
      Tree.join side .black near sibling (Tree.join side .red mid outer far)⟩ :: rest)
        (height + 1)) :
    Settles tree (Context.plug (⟨side, color, parent,
        Tree.join side .black near sibling (Tree.join side .red mid outer far)⟩ :: rest)
          focus).inorder
      (removalCase6 tree parent sibling) := by
  have siblingSet := (holds.turn.setColor color).turn
  rw [Side.other_other] at siblingSet
  have parentBlack := (at_join_iff.mpr siblingSet).setColor .black
  have outerBlack := (at_join_iff.mp (at_join_iff.mp parentBlack).turn).turn.setColor .black
  have siblingRecord := (at_join_iff.mp parentBlack).turn.record
  have computed : removalCase6 tree parent sibling =
      rotate side (((tree.setColor sibling color).setColor parent .black).setColor outer .black)
        parent := by
    have chosen := (at_join_iff.mp parentBlack).bySide Tree.root_join
      fun side => closeUp side ((tree.setColor sibling color).setColor parent .black) parent sibling
    simp only [removalCase6, holds.frameRecord, Node.of_color]
    rw [chosen]
    simp [closeUp, siblingRecord, deref]
  have ready := at_cons_iff.mp (at_cons_iff.mp outerBlack)
  simp only [Frame.fill, Tree.join_other] at ready
  obtain ⟨tree', returned, kept, holds'⟩ := ready.rotate
  rw [computed, returned]
  refine Settles.of_at (Kept.trans ⟨rfl, rfl⟩ kept) holds' ?_ ?_
  · obtain ⟨-, -, balancedMid, balancedOuter⟩ := Tree.balanced_red.mp balancedFar
    rw [Context.sound_plug]
    cases color with
    | red =>
        obtain ⟨-, -, fitsRest, accepts⟩ := fits
        refine ⟨height + 1, ?_, fitsRest, fun _ => accepts⟩
        simp [balanced, balancedNear, balancedMid, balancedOuter]
    | black =>
        obtain ⟨-, fitsRest⟩ := fits
        refine ⟨height + 2, ?_, fitsRest, by simp⟩
        simp [balanced, balancedNear, balancedMid, balancedOuter]
  · refine Context.inorder_plug_congr ?_
    cases side <;> simp [Frame.fill, Tree.join, Tree.inorder]

/-- Case 5: the inner red child rises above the sibling. -/
theorem At.turnSibling
    (holds : At tree (⟨side, color, parent,
      Tree.join side .black (Tree.join side .red near inner mid) sibling far⟩ :: rest) focus) :
    ∃ tree', turnSibling side tree sibling = .ok (tree', inner) ∧ Kept tree tree' ∧
      At tree' (⟨side, color, parent,
        Tree.join side .black near inner (Tree.join side .red mid sibling far)⟩ :: rest) focus := by
  have siblingRed := holds.turn.setColor .red
  have innerBlack := at_join_iff.mpr ((at_join_iff.mp siblingRed).setColor .black)
  obtain ⟨tree', returned, kept, holds'⟩ := innerBlack.rotateOther
  have record := (at_join_iff.mp holds').turn.record
  refine ⟨tree', ?_, Kept.trans ⟨rfl, rfl⟩ kept, ?_⟩
  · simp [RbTree.turnSibling, siblingRed.record, deref, returned, record, Context.top, pure,
      Except.pure]
  · have back := holds'.turn
    rwa [Side.other_other] at back

/-- Case 5 turns the sibling when only its inner child is red. -/
theorem removalCase5_eq
    (holds :
      At tree (⟨side, color, parent, Tree.join side .black near sibling far⟩ :: rest) focus) :
    removalCase5 tree parent sibling =
      if near.tint = .red ∧ far.tint = .black then turnSibling side tree sibling
      else .ok (tree, sibling) := by
  have siblingAt := holds.turn
  have nearAt := at_join_iff.mp siblingAt
  have left := siblingAt.left_iff Tree.root_join
  have right := siblingAt.right_iff Tree.root_join
  simp only [removalCase5, left, right, siblingAt.record]
  cases side with
  | left => simp [Side.other, Node.of, nearAt.isRed, nearAt.turn.isBlkOrNil]
  | right => simp [Side.other, Node.of, nearAt.isRed, nearAt.turn.isBlkOrNil]

/-- Cases 3 to 6.  In case 3 the deficit is left to `recur`, one frame higher. -/
theorem removalCases_settles {recur : Rbtree ν → Option ν → Run (Rbtree ν)}
    (holds : At tree (⟨side, color, parent, Tree.join side .black near sibling far⟩ :: rest) focus)
    (balanced : focus.Balanced height)
    (fits : Context.Fits (⟨side, color, parent, Tree.join side .black near sibling far⟩ :: rest)
      (height + 1))
    (climbs : ∀ tree' focus', color = .black → At tree' rest focus' → focus'.Balanced (height + 1) →
      focus'.tint = .black → ∀ x, focus'.root = some x →
      Settles tree' (Context.plug rest focus').inorder (recur tree' (getSibling tree' x))) :
    Settles tree
      (Context.plug (⟨side, color, parent, Tree.join side .black near sibling far⟩ :: rest)
        focus).inorder
      (removalCases recur tree parent sibling) := by
  have balancedSibling : near.Balanced height ∧ far.Balanced height := by
    cases color with
    | red => exact Tree.balanced_black.mp fits.2.1
    | black => exact Tree.balanced_black.mp fits.1
  obtain ⟨balancedNear, balancedFar⟩ := balancedSibling
  simp only [removalCases, holds.frameRecord, Node.of_color, holds.turn.bothBlack]
  by_cases both : near.tint = .black ∧ far.tint = .black
  · have siblingRed := (holds.turn.setColor .red).turn
    rw [Side.other_other] at siblingRed
    have filled := at_join_iff.mpr siblingRed
    cases color with
    | black =>
        rw [if_pos ⟨rfl, both⟩]
        have settles := climbs _ _ rfl filled
          (Tree.balanced_black.mpr
            ⟨balanced, Tree.balanced_red.mpr ⟨both.1, both.2, balancedNear, balancedFar⟩⟩)
          Tree.tint_join parent Tree.root_join
        refine (Kept.settles ⟨rfl, rfl⟩ settles).reorder ?_
        exact Context.inorder_plug_congr
          (Tree.inorder_join_congr rfl (Tree.inorder_join_congr rfl rfl))
    | red =>
        rw [if_neg (by simp), if_pos ⟨rfl, both⟩]
        obtain ⟨-, -, fitsRest, -⟩ := fits
        refine Settles.of_at ⟨rfl, rfl⟩ (filled.setColor .black) ?_ ?_
        · refine Context.sound_plug.mpr ⟨height + 1, ?_, fitsRest, by simp⟩
          simp [balanced, both, balancedNear, balancedFar]
        · exact Context.inorder_plug_congr
            (Tree.inorder_join_congr rfl (Tree.inorder_join_congr rfl rfl))
  · rw [if_neg fun test => both test.2, if_neg fun test => both test.2, removalCase5_eq holds]
    by_cases turns : near.tint = .red ∧ far.tint = .black
    · obtain ⟨first, inner, second, rfl⟩ := Tree.exists_red side turns.1
      obtain ⟨-, secondBlack, balancedFirst, balancedSecond⟩ := Tree.balanced_red.mp balancedNear
      have balancedTurned : (Tree.join side .red second sibling far).Balanced height :=
        Tree.balanced_red.mpr ⟨secondBlack, turns.2, balancedSecond, balancedFar⟩
      obtain ⟨tree', returned, kept, holds'⟩ := holds.turnSibling
      rw [if_pos turns, returned, ok_bind]
      have settles := removalCase6_settles holds' balanced balancedFirst balancedTurned ?_
      · refine (kept.settles settles).reorder ?_
        show (Context.plug rest _).inorder = (Context.plug rest _).inorder
        exact Context.inorder_plug_congr (Tree.inorder_join_congr rfl Tree.inorder_rotate.symm)
      · have balancedSibling : (Tree.join side .black first inner
            (Tree.join side .red second sibling far)).Balanced (height + 1) :=
          Tree.balanced_black.mpr ⟨balancedFirst, balancedTurned⟩
        cases color with
        | red => exact ⟨Tree.tint_join, balancedSibling, fits.2.2⟩
        | black => exact ⟨balancedSibling, fits.2⟩
    · rw [if_neg turns, ok_bind]
      have farRed : far.tint = .red := by
        cases shade : near.tint <;> cases shade' : far.tint <;> simp_all
      obtain ⟨mid, outer, last, rfl⟩ := Tree.exists_red side farRed
      exact removalCase6_settles holds balanced balancedNear balancedFar fits

end Cases

section Climb

/-- Case 2: the red sibling rises above the parent, which turns red. -/
theorem At.removalCase2
    (holds : At tree (⟨side, color, parent, Tree.join side .red near sibling far⟩ :: rest) focus) :
    ∃ tree', removalCase2 tree parent sibling = .ok (tree', near.root) ∧ Kept tree tree' ∧
      At tree' (⟨side, .red, parent, near⟩ :: ⟨side, .black, sibling, far⟩ :: rest) focus := by
  have siblingBlack := (holds.turn.setColor .black).turn
  rw [Side.other_other] at siblingBlack
  have parentRed := (at_join_iff.mpr siblingBlack).setColor .red
  obtain ⟨tree', returned, kept, holds'⟩ := parentRed.rotate
  have chosen := (at_join_iff.mp parentRed).bySide Tree.root_join
    fun side =>
      raiseSibling side ((tree.setColor sibling .black).setColor parent .red) parent sibling
  refine ⟨tree', ?_, Kept.trans ⟨rfl, rfl⟩ kept, at_join_iff.mp (at_join_iff.mp holds')⟩
  simp only [RbTree.removalCase2, holds.turn.record, Node.of_color, if_true, chosen]
  simp [raiseSibling, (at_join_iff.mp parentRed).turn.record, returned, pure, Except.pure]

/-- The sibling of the hole of a context. -/
def siblingOf : Context ν → Option ν
  | [] => none
  | frame :: _ => frame.sibling.root

theorem At.getSibling_eq {context : Context ν} {x : ν} (holds : At tree context focus)
    (found : focus.root = some x) : RbTree.getSibling tree x = siblingOf context := by
  cases context with
  | nil =>
      obtain ⟨color, near, far, rfl⟩ := Tree.exists_join .left found
      simp [RbTree.getSibling, holds.record, Context.top, siblingOf]
  | cons frame rest => exact holds.getSibling found

/-- `removal_balancing` makes up for a missing black node below any context. -/
theorem removalBalancing_settles {context : Context ν} {fuel : Nat} (holds : At tree context focus)
    (balanced : focus.Balanced height) (black : focus.tint = .black)
    (fits : Context.Fits context (height + 1)) (enough : context.length < fuel) :
    Settles tree (Context.plug context focus).inorder
      (removalBalancing fuel tree (siblingOf context)) := by
  induction context generalizing tree focus height fuel with
  | nil =>
      obtain ⟨fuel, rfl⟩ := Nat.exists_eq_add_one_of_ne_zero (Nat.ne_of_gt enough)
      refine Settles.of_at ⟨rfl, rfl⟩ holds ?_ rfl
      exact Context.sound_plug.mpr ⟨height, balanced, trivial, by simp [black]⟩
  | cons frame rest inductionHypothesis =>
      obtain ⟨fuel, rfl⟩ :=
        Nat.exists_eq_add_one_of_ne_zero (Nat.ne_of_gt (Nat.zero_lt_of_lt enough))
      obtain ⟨side, color, parent, siblingTree⟩ := frame
      have balancedSibling : siblingTree.Balanced (height + 1) := by
        cases color with
        | red => exact fits.2.1
        | black => exact fits.1
      obtain ⟨sibling, found⟩ := balancedSibling.exists_root
      obtain ⟨siblingColor, near, far, rfl⟩ := Tree.exists_join side found
      simp only [siblingOf, Tree.root_join, removalBalancing, holds.turn.record, Node.of_parent,
        Context.top, deref, ok_bind]
      cases siblingColor with
      | black =>
          have skipped : removalCase2 tree parent sibling = .ok (tree, some sibling) := by
            simp [removalCase2, holds.turn.record]
          rw [skipped]
          simp only [ok_bind]
          refine removalCases_settles holds balanced fits ?_
          intro tree' focus' parentBlack holds' balanced' black' x found'
          subst parentBlack
          rw [holds'.getSibling_eq found']
          exact inductionHypothesis holds' balanced' black' fits.2 (Nat.lt_of_succ_lt_succ enough)
      | red =>
          obtain ⟨tree', returned, kept, holds'⟩ := holds.removalCase2
          obtain ⟨nearBlack, farBlack, balancedNear, balancedFar⟩ :=
            Tree.balanced_red.mp balancedSibling
          obtain ⟨inner, innerFound⟩ := balancedNear.exists_root
          obtain ⟨innerColor, first, second, rfl⟩ := Tree.exists_join side innerFound
          obtain rfl : innerColor = .black := by simpa using nearBlack
          have fitsRest : Context.Fits rest (height + 2) := by
            cases color with
            | red => exact absurd fits.1 (by simp)
            | black => exact fits.2
          rw [returned]
          simp only [ok_bind, Tree.root_join]
          have settles :
            Settles tree' _ (removalCases (removalBalancing fuel) tree' parent inner) :=
            removalCases_settles holds' balanced
              ⟨Tree.tint_join, balancedNear, ⟨balancedFar, fitsRest⟩, rfl⟩ (by simp)
          refine (kept.settles settles).reorder ?_
          show (Context.plug rest _).inorder = (Context.plug rest _).inorder
          exact Context.inorder_plug_congr Tree.inorder_rotate

end Climb

end Opal.RbTree
