import Opal.RbTree.Operations

/-!
# The tree in the heap

`At tree context focus` says that the heap holds the red-black tree `context.plug focus`
with every record linked as the shape demands: colours, both children and the way back to
the parent.  The operations write only around a focus, so each is one lemma that replaces
the focus and keeps the context.
-/

namespace Opal.RbTree

open RedBlack

variable {ν : Type}

/-- The record of a node, seen from one side. -/
def Node.of (side : Side) (color : Color) (parent near far : Option ν) : Node ν :=
  match side with
  | .left => ⟨color, parent, near, far⟩
  | .right => ⟨color, parent, far, near⟩

section Record

variable {side : Side} {color : Color} {parent near far : Option ν}

@[simp]
theorem Node.of_color : (Node.of side color parent near far).color = color := by
  cases side <;> rfl

@[simp]
theorem Node.of_parent : (Node.of side color parent near far).parent = parent := by
  cases side <;> rfl

@[simp]
theorem Node.of_near : (Node.of side color parent near far).child side = near := by
  cases side <;> rfl

@[simp]
theorem Node.of_far : (Node.of side color parent near far).child side.other = far := by
  cases side <;> rfl

@[simp]
theorem Node.of_withNear {child : Option ν} :
    (Node.of side color parent near far).withChild side child =
      Node.of side color parent child far := by
  cases side <;> rfl

@[simp]
theorem Node.of_withFar {child : Option ν} :
    (Node.of side color parent near far).withChild side.other child =
      Node.of side color parent near child := by
  cases side <;> rfl

@[simp]
theorem Node.of_withColor {color' : Color} :
    { Node.of side color parent near far with color := color' } =
      Node.of side color' parent near far := by
  cases side <;> rfl

@[simp]
theorem Node.of_withParent {parent' : Option ν} :
    { Node.of side color parent near far with parent := parent' } =
      Node.of side color parent' near far := by
  cases side <;> rfl

end Record

/-- The heap holds `tree` below the given parent. -/
def Below (heap : ν → Node ν) : Option ν → RedBlack.Tree ν → Prop
  | _, .nil => True
  | parent, .node color left label right =>
      heap label = ⟨color, parent, left.root, right.root⟩ ∧ Below heap (some label) left ∧
        Below heap (some label) right

/-- The heap holds the context around a hole in which `hole` stands. -/
def Above (heap : ν → Node ν) : Option ν → Context ν → Prop
  | _, [] => True
  | hole, frame :: rest =>
      heap frame.label = Node.of frame.side frame.color (Context.top rest) hole frame.sibling.root ∧
        Below heap (some frame.label) frame.sibling ∧ Above heap (some frame.label) rest

/-- The heap holds `focus` inside `context`. -/
structure At (tree : Rbtree ν) (context : Context ν) (focus : RedBlack.Tree ν) : Prop where
  below : Below tree.heap (Context.top context) focus
  above : Above tree.heap focus.root context
  root : tree.root = (Context.plug context focus).root
  nodup : (Context.plug context focus).inorder.Nodup

section Moves

variable {heap : ν → Node ν} {parent : Option ν} {side : Side} {color : Color}
  {near far : RedBlack.Tree ν}
  {label : ν} {tree : Rbtree ν} {context : Context ν} {focus : RedBlack.Tree ν} {frame : Frame ν}

theorem below_join : Below heap parent (Tree.join side color near label far) ↔
    heap label = Node.of side color parent near.root far.root ∧ Below heap (some label) near ∧
      Below heap (some label) far := by
  cases side with
  | left => rfl
  | right => exact and_congr_right fun _ => and_comm

/-- Moving the focus to the node above. -/
theorem at_cons_iff : At tree (frame :: context) focus ↔ At tree context (frame.fill focus) := by
  constructor
  · rintro ⟨below, ⟨record, sibling, above⟩, root, nodup⟩
    exact ⟨below_join.mpr ⟨record, below, sibling⟩, by simpa [Frame.fill] using above, root, nodup⟩
  · rintro ⟨below, above, root, nodup⟩
    obtain ⟨record, inner, sibling⟩ := below_join.mp below
    exact ⟨inner, ⟨record, sibling, by simpa [Frame.fill] using above⟩, root, nodup⟩

theorem at_nil_plug_iff : At tree [] (Context.plug context focus) ↔ At tree context focus := by
  induction context generalizing focus with
  | nil => rfl
  | cons frame rest inductionHypothesis =>
      rw [at_cons_iff]
      exact inductionHypothesis

/-- Moving the focus to the sibling. -/
theorem At.turn (holds : At tree (⟨side, color, label, far⟩ :: context) near) :
    At tree (⟨side.other, color, label, near⟩ :: context) far := by
  rw [at_cons_iff, Frame.fill, Tree.join_other]
  exact at_cons_iff.mp holds

/-- Moving the focus to the subtree on one side. -/
theorem at_join_iff : At tree context (Tree.join side color near label far) ↔
    At tree (⟨side, color, label, far⟩ :: context) near :=
  Iff.symm (@at_cons_iff ν tree context near ⟨side, color, label, far⟩)

theorem At.record (holds : At tree context (Tree.join side color near label far)) :
    tree.heap label = Node.of side color (Context.top context) near.root far.root :=
  (below_join.mp holds.below).1

theorem At.frameRecord (holds : At tree (frame :: context) focus) :
    tree.heap frame.label =
      Node.of frame.side frame.color (Context.top context) focus.root frame.sibling.root :=
  holds.above.1

/-- A child pointer leads to the focus on its side only. -/
theorem At.child_iff {x : ν} (holds : At tree (frame :: context) focus)
    (found : focus.root = some x)
    (side : Side) : (tree.heap frame.label).child side = some x ↔ frame.side = side := by
  rw [holds.frameRecord, found]
  constructor
  · intro pointer
    by_contra differs
    obtain rfl : side = frame.side.other := by
      revert differs
      cases side <;> cases frame.side <;> simp [Side.other]
    rw [Node.of_far] at pointer
    obtain ⟨-, -, apart⟩ := Context.nodup_plug.mp holds.nodup
    refine apart x (Tree.mem_inorder_of_root found) (Context.mem_labels_cons.mpr ?_)
    exact Or.inr (Or.inl (Tree.mem_inorder_of_root pointer))
  · rintro rfl
    exact Node.of_near

theorem At.left_iff {x : ν} (holds : At tree (frame :: context) focus)
    (found : focus.root = some x) :
    (tree.heap frame.label).left = some x ↔ frame.side = .left :=
  holds.child_iff found .left

theorem At.right_iff {x : ν} (holds : At tree (frame :: context) focus)
    (found : focus.root = some x) :
    (tree.heap frame.label).right = some x ↔ frame.side = .right :=
  holds.child_iff found .right

end Moves

section Frames

variable {heap heap' : ν → Node ν} {parent hole : Option ν} {focus : RedBlack.Tree ν}
  {context : Context ν}

theorem Below.congr (holds : Below heap parent focus)
    (same : ∀ x ∈ focus.inorder, heap' x = heap x) : Below heap' parent focus := by
  induction focus generalizing parent with
  | nil => trivial
  | node color left label right leftHypothesis rightHypothesis =>
      obtain ⟨record, belowLeft, belowRight⟩ := holds
      simp only [Tree.inorder, List.mem_append, List.mem_cons] at same
      refine ⟨?_, leftHypothesis belowLeft fun x inside => same x (Or.inl inside),
        rightHypothesis belowRight fun x inside => same x (Or.inr (Or.inr inside))⟩
      rw [same label (Or.inr (Or.inl rfl)), record]

theorem Above.congr (holds : Above heap hole context)
    (same : ∀ x ∈ Context.labels context, heap' x = heap x) : Above heap' hole context := by
  induction context generalizing hole with
  | nil => trivial
  | cons frame rest inductionHypothesis =>
      obtain ⟨record, sibling, above⟩ := holds
      simp only [Context.mem_labels_cons] at same
      refine ⟨?_, sibling.congr fun x inside => same x (Or.inr (Or.inl inside)),
        inductionHypothesis above fun x inside => same x (Or.inr (Or.inr inside))⟩
      rw [same frame.label (Or.inl rfl), record]

variable [DecidableEq ν]

/-- A tree moves under another parent when its root is told so. -/
theorem Below.reparent {parent' : Option ν} (holds : Below heap parent focus)
    (nodup : focus.inorder.Nodup)
    (same : ∀ x ∈ focus.inorder, heap' x =
      if focus.root = some x then { heap x with parent := parent' } else heap x) :
    Below heap' parent' focus := by
  cases focus with
  | nil => trivial
  | node color left label right =>
      obtain ⟨record, belowLeft, belowRight⟩ := holds
      have distinct : (Tree.join .left color left label right).inorder.Nodup := nodup
      obtain ⟨-, -, notLeft, notRight, -⟩ := Tree.nodup_inorder_join.mp distinct
      simp only [Tree.inorder, List.mem_append, List.mem_cons, Tree.root, Option.some.injEq] at same
      refine ⟨?_, belowLeft.congr fun x inside => ?_, belowRight.congr fun x inside => ?_⟩
      · rw [same label (Or.inr (Or.inl rfl)), if_pos rfl, record]
      · rw [same x (Or.inl inside), if_neg (ne_of_mem_of_not_mem inside notLeft).symm]
      · rw [same x (Or.inr (Or.inr inside)), if_neg (ne_of_mem_of_not_mem inside notRight).symm]

/-- The heap with another node in the hole of the context. -/
def relink (heap : ν → Node ν) (context : Context ν) (hole : Option ν) : ν → Node ν :=
  match context with
  | [] => heap
  | frame :: _ =>
      Function.update heap frame.label ((heap frame.label).withChild frame.side hole)

theorem Above.relink {hole' : Option ν} (holds : Above heap hole context)
    (nodup : (Context.labels context).Nodup)
    (same : ∀ x ∈ Context.labels context, heap' x = relink heap context hole' x) :
    Above heap' hole' context := by
  cases context with
  | nil => trivial
  | cons frame rest =>
      obtain ⟨record, sibling, above⟩ := holds
      have apart : frame.label ∉ frame.sibling.inorder ∧ frame.label ∉ Context.labels rest := by
        obtain ⟨side, color, label, sibling⟩ := frame
        cases side <;> simp [Context.labels, Context.lefts, Context.rights, List.nodup_append]
          at nodup ⊢ <;>
          grind
      simp only [Context.mem_labels_cons, RbTree.relink] at same
      refine ⟨?_, sibling.congr fun x inside => ?_, above.congr fun x inside => ?_⟩
      · rw [same frame.label (Or.inl rfl), Function.update_self, record, Node.of_withNear]
      · rw [same x (Or.inr (Or.inl inside)),
          Function.update_of_ne (ne_of_mem_of_not_mem inside apart.1)]
      · rw [same x (Or.inr (Or.inr inside)),
          Function.update_of_ne (ne_of_mem_of_not_mem inside apart.2)]

/-- Writes inside a focus, and to the link that leads to it, put another focus in its
context. -/
theorem At.replace {tree tree' : Rbtree ν} {focus' : RedBlack.Tree ν}
    (holds : At tree context focus)
    (same : ∀ x ∈ Context.labels context,
      tree'.heap x = RbTree.relink tree.heap context focus'.root x)
    (below : Below tree'.heap (Context.top context) focus')
    (root : tree'.root = (Context.plug context focus').root)
    (nodup : focus'.inorder.Nodup)
    (apart : ∀ x ∈ focus'.inorder, x ∉ Context.labels context) : At tree' context focus' := by
  obtain ⟨-, distinct, -⟩ := Context.nodup_plug.mp holds.nodup
  exact ⟨below, holds.above.relink distinct same, root,
    Context.nodup_plug.mpr ⟨nodup, distinct, apart⟩⟩

theorem relink_of_not_mem {x : ν} (outside : x ∉ Context.labels context) :
    RbTree.relink heap context hole x = heap x := by
  cases context with
  | nil => rfl
  | cons frame rest =>
      refine Function.update_of_ne (fun eq => outside ?_) _ _
      exact Context.mem_labels_cons.mpr (Or.inl eq)

theorem relink_congr (same : ∀ x ∈ Context.labels context, heap' x = heap x) {x : ν}
    (inside : x ∈ Context.labels context) :
    RbTree.relink heap' context hole x = RbTree.relink heap context hole x := by
  cases context with
  | nil => exact same x inside
  | cons frame rest =>
      simp only [RbTree.relink, Function.update_apply, same x inside,
        same frame.label (Context.mem_labels_cons.mpr (Or.inl rfl))]

end Frames

section Writes

variable {tree tree' : Rbtree ν} {context : Context ν} {focus focus' : RedBlack.Tree ν}

/-- Writes inside a focus that keep its root. -/
theorem At.rewrite (holds : At tree context focus)
    (same : ∀ x ∈ Context.labels context, tree'.heap x = tree.heap x)
    (root : tree'.root = tree.root) (kept : focus'.root = focus.root)
    (below : Below tree'.heap (Context.top context) focus') (nodup : focus'.inorder.Nodup)
    (apart : ∀ x ∈ focus'.inorder, x ∉ Context.labels context) : At tree' context focus' := by
  obtain ⟨-, distinct, -⟩ := Context.nodup_plug.mp holds.nodup
  refine ⟨below, kept ▸ holds.above.congr same, ?_, Context.nodup_plug.mpr ⟨nodup, distinct, apart⟩⟩
  rw [root, holds.root]
  cases context with
  | nil => exact kept.symm
  | cons frame rest => exact Context.root_plug_cons frame rest focus focus'

variable [DecidableEq ν]

/-- Redirecting the link to the focus, possibly after writes inside it. -/
theorem At.heap_replaceIn {x : ν} {child : Option ν} (holds : At tree context focus)
    (found : focus.root = some x)
    (same : ∀ z ∈ Context.labels context, tree'.heap z = tree.heap z) :
    (replaceIn tree' (Context.top context) x child).heap =
      RbTree.relink tree'.heap context child := by
  cases context with
  | nil => rfl
  | cons frame rest =>
      have record := same frame.label (Context.mem_labels_cons.mpr (Or.inl rfl))
      rw [holds.frameRecord, found] at record
      obtain ⟨side, color, label, sibling⟩ := frame
      simp only at record
      cases side with
      | left => simp [replaceIn, Context.top, replaceChild, record, Node.of, RbTree.relink,
          Rbtree.setChild, Rbtree.modify]
      | right =>
          have other : sibling.root ≠ some x := by
            intro eq
            have inside := Tree.mem_inorder_of_root eq
            obtain ⟨-, -, distinct⟩ := Context.nodup_plug.mp holds.nodup
            refine distinct x (Tree.mem_inorder_of_root found) ?_
            exact Context.mem_labels_cons.mpr (Or.inr (Or.inl inside))
          simp [replaceIn, Context.top, replaceChild, record, Node.of, RbTree.relink,
            Rbtree.setChild, Rbtree.modify, other]

theorem At.root_replaceIn {x : ν} (holds : At tree context focus) (root : tree'.root = tree.root) :
    (replaceIn tree' (Context.top context) x focus'.root).root =
      (Context.plug context focus').root := by
  cases context with
  | nil => rfl
  | cons frame rest =>
      rw [Context.root_plug_cons frame rest focus' focus, ← holds.root, ← root]
      simp only [replaceIn, Context.top, replaceChild]
      split <;> rfl

/-- Writes inside a focus, the link to it then being redirected. -/
theorem At.rewire {x : ν} (holds : At tree context focus) (found : focus.root = some x)
    (same : ∀ z ∈ Context.labels context, tree'.heap z = tree.heap z)
    (root : tree'.root = tree.root)
    (below : Below tree'.heap (Context.top context) focus') (nodup : focus'.inorder.Nodup)
    (apart : ∀ z ∈ focus'.inorder, z ∉ Context.labels context) :
    At (replaceIn tree' (Context.top context) x focus'.root) context focus' := by
  refine holds.replace (fun z inside => ?_) (below.congr fun z inside => ?_)
    (holds.root_replaceIn root) nodup apart
  · rw [holds.heap_replaceIn found same]
    exact relink_congr same inside
  · rw [holds.heap_replaceIn found same]
    exact relink_of_not_mem (apart z inside)

@[simp]
theorem heap_modify {node x : ν} {change : Node ν → Node ν} :
    (tree.modify node change).heap x = if x = node then change (tree.heap x) else tree.heap x := by
  unfold Rbtree.modify
  dsimp only
  rw [Function.update_apply]
  split <;> simp_all

@[simp]
theorem heap_adopt {child parent : Option ν} {x : ν} :
    (adopt tree child parent).heap x =
      if child = some x then { tree.heap x with parent := parent } else tree.heap x := by
  cases child with
  | none => rfl
  | some child =>
      simp only [adopt, Rbtree.setParent, heap_modify, Option.some.injEq]
      exact if_congr eq_comm rfl rfl

/-- The parts that balancing leaves alone. -/
def Kept (tree tree' : Rbtree ν) : Prop := tree'.first = tree.first ∧ tree'.linked = tree.linked

omit [DecidableEq ν] in
theorem Kept.trans {tree'' : Rbtree ν} (first : Kept tree tree') (second : Kept tree' tree'') :
    Kept tree tree'' :=
  ⟨second.1.trans first.1, second.2.trans first.2⟩

theorem kept_replaceIn {parent child : Option ν} {node : ν} :
    Kept tree (replaceIn tree parent node child) := by
  cases parent with
  | none => exact ⟨rfl, rfl⟩
  | some parent =>
      simp only [replaceIn, replaceChild]
      split <;> exact ⟨rfl, rfl⟩

end Writes

section Rotation

variable [DecidableEq ν] {tree : Rbtree ν} {context : Context ν} {side : Side}
  {color color' : Color}
  {near mid far : RedBlack.Tree ν} {label label' : ν}

theorem At.setColor (holds : At tree context (Tree.join side color near label far))
    (color' : Color) :
    At (tree.setColor label color') context (Tree.join side color' near label far) := by
  obtain ⟨nodup, -, apart⟩ := Context.nodup_plug.mp holds.nodup
  obtain ⟨record, belowNear, belowFar⟩ := below_join.mp holds.below
  obtain ⟨distinctNear, distinctFar, notNear, notFar, disjoint⟩ := Tree.nodup_inorder_join.mp nodup
  have outside : ∀ x, x ≠ label → (tree.setColor label color').heap x = tree.heap x := by
    intro x ne
    simp [Rbtree.setColor, ne]
  refine holds.rewrite (fun x inside => outside x ?_) rfl (by simp) (below_join.mpr ⟨?_, ?_, ?_⟩)
    (Tree.nodup_inorder_join.mpr ⟨distinctNear, distinctFar, notNear, notFar, disjoint⟩) ?_
  · rintro rfl
    exact apart x (Tree.mem_inorder_join.mpr (Or.inl rfl)) inside
  · simp only [Rbtree.setColor, heap_modify, if_true, record, Node.of_withColor]
  · exact belowNear.congr fun x inside => outside x (ne_of_mem_of_not_mem inside notNear)
  · exact belowFar.congr fun x inside => outside x (ne_of_mem_of_not_mem inside notFar)
  · intro x inside
    exact apart x (Tree.mem_inorder_join.mpr (Tree.mem_inorder_join.mp inside))

/-- A rotation turns the focus and keeps what surrounds it. -/
theorem At.rotate
    (holds : At tree context
      (Tree.join side color near label (Tree.join side color' mid label' far))) :
    ∃ tree', RbTree.rotate side tree label = .ok tree' ∧ Kept tree tree' ∧
      At tree' context
        (Tree.join side color' (Tree.join side color near label mid) label' far) := by
  obtain ⟨nodup, -, apart⟩ := Context.nodup_plug.mp holds.nodup
  obtain ⟨record, belowNear, belowUp⟩ := below_join.mp holds.below
  obtain ⟨recordUp, belowMid, belowFar⟩ := below_join.mp belowUp
  simp only [Tree.nodup_inorder_join, Tree.mem_inorder_join, not_or] at nodup
  simp only [Tree.mem_inorder_join] at apart
  obtain ⟨distinctNear, ⟨distinctMid, distinctFar, upMid, upFar, midFar⟩, notNear,
    ⟨labelsDiffer, notMid, notFar⟩, nearRest⟩ := nodup
  have midRoot : ∀ {x}, x ∉ mid.inorder → mid.root ≠ some x :=
    fun outside eq => outside (Tree.mem_inorder_of_root eq)
  let turned := ((((adopt tree mid.root (some label)).setChild label side.other mid.root).setParent
    label (some label')).setChild label' side (some label)).setParent label' (Context.top context)
  have computed : RbTree.rotate side tree label =
      .ok (replaceIn turned (Context.top context) label (some label')) := by
    simp [RbTree.rotate, record, recordUp, turned]
  have atLabel : turned.heap label = Node.of side color (some label') near.root mid.root := by
    simp only [turned, Rbtree.setParent, Rbtree.setChild, heap_modify, heap_adopt,
      if_neg labelsDiffer,
      if_true, if_neg (midRoot notMid), record, Node.of_withFar, Node.of_withParent]
  have atUp : turned.heap label' =
    Node.of side color' (Context.top context) (some label) far.root := by
    simp only [turned, Rbtree.setParent, Rbtree.setChild, heap_modify, heap_adopt,
      if_neg (Ne.symm labelsDiffer), if_true, if_neg (midRoot upMid), recordUp, Node.of_withNear,
      Node.of_withParent]
  have moved : ∀ x, x ≠ label → x ≠ label' → turned.heap x =
      if mid.root = some x then { tree.heap x with parent := some label } else tree.heap x := by
    intro x ne ne'
    simp [turned, Rbtree.setParent, Rbtree.setChild, ne, ne']
  have still : ∀ x, x ≠ label → x ≠ label' → x ∉ mid.inorder → turned.heap x = tree.heap x := by
    intro x ne ne' outside
    rw [moved x ne ne', if_neg (midRoot outside)]
  have below : Below turned.heap (Context.top context)
      (Tree.join side color' (Tree.join side color near label mid) label' far) := by
    refine below_join.mpr ⟨by rw [atUp, Tree.root_join], below_join.mpr ⟨atLabel, ?_, ?_⟩, ?_⟩
    · refine belowNear.congr fun x inside => still x (ne_of_mem_of_not_mem inside notNear) ?_ ?_
      · exact (nearRest x inside).1
      · exact (nearRest x inside).2.1
    · refine belowMid.reparent distinctMid fun x inside => moved x ?_ ?_
      · exact ne_of_mem_of_not_mem inside notMid
      · exact ne_of_mem_of_not_mem inside upMid
    · refine belowFar.congr fun x inside => still x (ne_of_mem_of_not_mem inside notFar) ?_ ?_
      · exact ne_of_mem_of_not_mem inside upFar
      · exact fun both => midFar x both inside
  refine ⟨_, computed, Kept.trans ?_ kept_replaceIn, ?_⟩
  · cases shape : mid.root <;> simp [Kept, turned, adopt, shape, Rbtree.setParent, Rbtree.setChild,
      Rbtree.modify]
  · have rewired := holds.rewire Tree.root_join (fun x inside => still x ?_ ?_ ?_) ?_ below ?_ ?_
    · rwa [Tree.root_join] at rewired
    · rintro rfl
      exact apart x (Or.inl rfl) inside
    · rintro rfl
      exact apart x (Or.inr (Or.inr (Or.inl rfl))) inside
    · exact fun both => apart x (Or.inr (Or.inr (Or.inr (Or.inl both)))) inside
    · cases shape : mid.root <;> simp [turned, adopt, shape, Rbtree.setParent, Rbtree.setChild,
        Rbtree.modify]
    · simp only [Tree.nodup_inorder_join, Tree.mem_inorder_join]
      grind
    · simp only [Tree.mem_inorder_join]
      grind

/-- The rotation that undoes the one above. -/
theorem At.rotateOther
    (holds : At tree context
      (Tree.join side color' (Tree.join side color near label mid) label' far)) :
    ∃ tree', RbTree.rotate side.other tree label' = .ok tree' ∧ Kept tree tree' ∧
      At tree' context
        (Tree.join side color near label (Tree.join side color' mid label' far)) := by
  have mirrored : At tree context
      (Tree.join side.other color' far label' (Tree.join side.other color mid label near)) := by
    rwa [Tree.join_other, Tree.join_other]
  obtain ⟨tree', returned, kept, holds'⟩ := mirrored.rotate
  rw [Tree.join_other, Tree.join_other] at holds'
  exact ⟨tree', returned, kept, holds'⟩

end Rotation

end Opal.RbTree
