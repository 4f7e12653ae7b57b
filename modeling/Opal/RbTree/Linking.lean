import Opal.RbTree.Removal
import Opal.RbTree.Search

/-!
# Putting nodes in and taking them out

`rbtree_link_insert` fills an empty place, `unlink` closes the gap a node with a missing
child leaves, and `transplant` puts the successor of a node in its place.  Every
operation ends in a sound tree, with `first` at the least node.
-/

namespace Opal.RbTree

open RedBlack

variable {ν : Type} [DecidableEq ν] {tree : Rbtree ν} {context : Context ν} {x : ν}

/-- The tree holds `nodes`, in order, as a sound red-black tree with `first` at the least
of them. -/
structure Holds (tree : Rbtree ν) (nodes : List ν) : Prop where
  shape : ∃ shape, At tree [] shape ∧ shape.Sound ∧ shape.inorder = nodes
  first : tree.first = nodes.head?
  bound : nodes.length ≤ tree.linked

omit [DecidableEq ν] in
theorem Holds.nodup {nodes : List ν} (holds : Holds tree nodes) : nodes.Nodup := by
  obtain ⟨⟨shape, place, -, rfl⟩, -, -⟩ := holds
  exact place.nodup

section Link

/-- A new node in an empty place. -/
theorem At.link (holds : At tree context .nil) (fresh : x ∉ Context.labels context)
    (first : Option ν) (linked : Nat) :
    At { ((((tree.setParent x (Context.top context)).setChild x .left none).setChild x
        .right none).writeLink (linkOf context) (some x)) with first, linked } context
      (Tree.join .left (tree.heap x).color .nil x .nil) := by
  have placed : (((tree.setParent x (Context.top context)).setChild x .left none).setChild x
      .right none).heap x = Node.of .left (tree.heap x).color (Context.top context) none none := by
    simp [Rbtree.setParent, Rbtree.setChild, Node.withChild, Node.of]
  have kept : ∀ z, z ≠ x →
    (((tree.setParent x (Context.top context)).setChild x .left none).setChild x
      .right none).heap z = tree.heap z := by
    intro z ne
    simp [Rbtree.setParent, Rbtree.setChild, ne]
  have root : (((tree.setParent x (Context.top context)).setChild x .left none).setChild x
      .right none).root = tree.root := rfl
  generalize ((tree.setParent x (Context.top context)).setChild x .left none).setChild x
    .right none =
    prepared at placed kept root
  have leafLabels : ∀ z ∈ (Tree.join .left (tree.heap x).color .nil x .nil).inorder, z = x := by
    intro z inside
    simpa [Tree.mem_inorder_join, Tree.inorder] using inside
  refine holds.replace (fun z inside => ?_) (below_join.mpr ⟨?_, trivial, trivial⟩) ?_
    (by simp [Tree.join, Tree.inorder]) (fun z inside => leafLabels z inside ▸ fresh)
  · have ne : z ≠ x := ne_of_mem_of_not_mem inside fresh
    cases context with
    | nil => cases inside
    | cons frame rest =>
        simp only [linkOf, Rbtree.writeLink, Rbtree.setChild, heap_modify, relink,
          Function.update_apply, kept z ne, Tree.root_join]
        split <;> simp_all
  · cases context with
    | nil => exact placed
    | cons frame rest =>
        have ne : x ≠ frame.label := fun eq => fresh (Context.mem_labels_cons.mpr (Or.inl eq))
        simp only [linkOf, Rbtree.writeLink, Rbtree.setChild, heap_modify, if_neg ne]
        exact placed
  · cases context with
    | nil => exact Tree.root_join.symm
    | cons frame rest =>
        rw [Context.root_plug_cons frame rest _ .nil, ← holds.root, ← root]
        rfl

/-- The test of `rbtree_link_insert` keeps `first` at the least node. -/
theorem first_link (distinct : (Context.labels context).Nodup)
    (first : tree.first = (Context.labels context).head?) :
    (if atFront tree (linkOf context) then some x else tree.first) =
      (Context.lefts context ++ x :: Context.rights context).head? := by
  cases before : Context.lefts context with
  | nil =>
      have front : atFront tree (linkOf context) = true := by
        unfold atFront
        cases context with
        | nil => rw [first]; rfl
        | cons frame rest =>
            obtain ⟨side, color, label, sibling⟩ := frame
            cases side with
            | left =>
                simp only [Context.labels, before, Context.rights, List.nil_append,
                  List.cons_append, List.head?_cons] at first
                simp [first, linkOf]
            | right => simp [Context.lefts] at before
      rw [if_pos front]
      rfl
  | cons least later =>
      have least_first : tree.first = some least := by rw [first, Context.labels, before]; rfl
      have behind : atFront tree (linkOf context) = false := by
        unfold atFront
        simp only [least_first, decide_eq_false_iff_not]
        intro same
        cases context with
        | nil => cases same
        | cons frame rest =>
            obtain ⟨side, color, label, sibling⟩ := frame
            cases same
            refine (List.disjoint_of_nodup_append distinct) (a := label) ?_ ?_
            · rw [before]
              exact List.mem_cons_self
            · exact List.mem_cons_self
      rw [behind, least_first]
      rfl

theorem rbtreeLinkInsert_holds (holds : At tree context .nil)
    (sound : (Context.plug context .nil).Sound) (fresh : x ∉ Context.labels context)
    (first : tree.first = (Context.labels context).head?)
    (bound : (Context.labels context).length ≤ tree.linked) :
    ∃ tree', rbtreeLinkInsert tree (Context.top context) (linkOf context) x = .ok tree' ∧
      Holds tree' (Context.lefts context ++ x :: Context.rights context) := by
  have linkedAt := holds.link fresh (if atFront tree (linkOf context) then some x else tree.first)
    (tree.linked + 1)
  have computed : rbtreeLinkInsert tree (Context.top context) (linkOf context) x =
      insertionBalancing (tree.linked + 1 + 1)
        { ((((tree.setParent x (Context.top context)).setChild x .left none).setChild x
          .right none).writeLink (linkOf context) (some x)) with
          first := if atFront tree (linkOf context) then some x else tree.first
          linked := tree.linked + 1 } x := by
    unfold rbtreeLinkInsert
    cases atFront tree (linkOf context) <;> cases linkOf context <;> rfl
  obtain ⟨-, distinct, -⟩ := Context.nodup_plug.mp holds.nodup
  obtain ⟨height, leaf, fits, -⟩ := Context.sound_plug.mp sound
  have enough := Context.length_le_labels context
  obtain ⟨tree', shape, returned, kept, holds', sound', inorder⟩ :=
    insertionBalancing_settles linkedAt rfl rfl leaf leaf fits
      (show context.length < tree.linked + 1 + 1 by omega)
  have nodes : shape.inorder = Context.lefts context ++ x :: Context.rights context := by
    rw [inorder, Context.inorder_plug]
    simp [Tree.join, Tree.inorder]
  refine ⟨tree', computed.trans returned, ⟨shape, holds', sound', nodes⟩, ?_, ?_⟩
  · rw [kept.1, ← first_link distinct first]
  · rw [kept.2]
    simp only [Context.labels, List.length_append, List.length_cons] at bound ⊢
    omega

end Link

section Unlink

variable {side : Side} {color : Color} {child : RedBlack.Tree ν}

/-- The one child of a node moves into its place and turns black. -/
theorem At.promote {y : ν} {left right : RedBlack.Tree ν} {shade : Color}
    (holds : At tree context (Tree.join side color .nil x (Tree.join .left shade left y right))) :
    At (((replaceIn tree (Context.top context) x (some y)).setParent y
      (Context.top context)).setColor y .black) context (Tree.join .left .black left y right) := by
  obtain ⟨nodup, -, apart⟩ := Context.nodup_plug.mp holds.nodup
  obtain ⟨-, -, below⟩ := below_join.mp holds.below
  obtain ⟨record, belowLeft, belowRight⟩ := below_join.mp below
  simp only [Tree.mem_inorder_join, Tree.inorder, List.not_mem_nil, false_or] at apart
  obtain ⟨-, distinct, -⟩ := Tree.nodup_inorder_join.mp nodup
  obtain ⟨distinctLeft, distinctRight, notLeft, notRight, disjoint⟩ :=
    Tree.nodup_inorder_join.mp distinct
  have redirected : (replaceIn tree (Context.top context) x (some y)).heap =
      relink tree.heap context (some y) :=
    holds.heap_replaceIn Tree.root_join fun _ _ => rfl
  have inner : ∀ z, z ∉ Context.labels context → z ≠ y →
      (((replaceIn tree (Context.top context) x (some y)).setParent y
        (Context.top context)).setColor
        y .black).heap z = tree.heap z := by
    intro z outside ne
    simp [Rbtree.setParent, Rbtree.setColor, ne, redirected, relink_of_not_mem outside]
  refine holds.replace (fun z inside => ?_) (below_join.mpr ⟨?_, ?_, ?_⟩) ?_
    (Tree.nodup_inorder_join.mpr ⟨distinctLeft, distinctRight, notLeft, notRight, disjoint⟩)
    (fun z inside => apart z (Or.inr (Tree.mem_inorder_join.mp inside)))
  · have ne : z ≠ y := by
      rintro rfl
      exact apart z (Or.inr (Or.inl rfl)) inside
    simp [Rbtree.setParent, Rbtree.setColor, ne, redirected]
  · have outside := apart y (Or.inr (Or.inl rfl))
    simp only [Rbtree.setParent, Rbtree.setColor, heap_modify, if_true, redirected,
      relink_of_not_mem outside, record, Node.of_withParent, Node.of_withColor]
  · exact belowLeft.congr fun z inside => inner z (apart z (Or.inr (Or.inr (Or.inl inside))))
      (ne_of_mem_of_not_mem inside notLeft)
  · exact belowRight.congr fun z inside => inner z (apart z (Or.inr (Or.inr (Or.inr inside))))
      (ne_of_mem_of_not_mem inside notRight)
  · exact (holds.root_replaceIn rfl : _ =
      (Context.plug context (Tree.join .left .black left y right)).root)

/-- `rbtree_remove` of a node with a missing child. -/
theorem unlink_settles {fuel : Nat} (holds : At tree context (Tree.join side color .nil x child))
    (sound : (Context.plug context (Tree.join side color .nil x child)).Sound)
    (enough : context.length < fuel) :
    Settles tree (Context.plug context child).inorder (unlink fuel tree x) := by
  obtain ⟨height, balanced, fits, accepts⟩ := Context.sound_plug.mp sound
  have chosen : (if (tree.heap x).left.isSome then (tree.heap x).left else (tree.heap x).right) =
      child.root := by
    rw [holds.record]
    cases side with
    | left => rfl
    | right => cases found : child.root <;> rfl
  simp only [unlink, chosen, holds.getSibling_eq Tree.root_join]
  simp only [holds.record, Node.of_parent, Node.of_color]
  cases found : child.root with
  | some y =>
      obtain ⟨shade, left, right, rfl⟩ := Tree.exists_join .left found
      have kept : Kept tree (((replaceIn tree (Context.top context) x (some y)).setParent y
          (Context.top context)).setColor y .black) := Kept.trans kept_replaceIn ⟨rfl, rfl⟩
      refine Settles.of_at kept holds.promote ?_
        (Context.inorder_plug_congr (Tree.inorder_join_congr rfl rfl))
      -- A node with one child is black, and its child is red.
      cases color with
      | red =>
          obtain ⟨-, childBlack, rfl, balancedChild⟩ := Tree.balanced_red.mp balanced
          have missing := balancedChild.eq_nil childBlack
          cases missing
      | black =>
          cases height with
          | zero => exact absurd balanced Tree.not_balanced_black
          | succ below =>
              obtain ⟨rfl, balancedChild⟩ := Tree.balanced_black.mp balanced
              cases shade with
              | black => exact absurd balancedChild Tree.not_balanced_black
              | red =>
                  obtain ⟨-, -, balancedLeft, balancedRight⟩ := Tree.balanced_red.mp balancedChild
                  exact Context.sound_plug.mpr
                    ⟨1, Tree.balanced_black.mpr ⟨balancedLeft, balancedRight⟩, fits, by simp⟩
  | none =>
      obtain rfl := Tree.root_eq_none_iff.mp found
      have gone : ∀ z ∈ (RedBlack.Tree.nil : RedBlack.Tree ν).inorder,
        z ∉ Context.labels context := nofun
      have emptied : At (replaceIn tree (Context.top context) x none) context .nil :=
        holds.rewire Tree.root_join (fun _ _ => rfl) rfl
          (show Below _ _ RedBlack.Tree.nil from trivial)
          List.nodup_nil gone
      cases color with
      | red =>
          obtain ⟨-, -, rfl, -⟩ := Tree.balanced_red.mp balanced
          refine Settles.of_at kept_replaceIn emptied ?_ rfl
          exact Context.sound_plug.mpr ⟨0, rfl, fits, nofun⟩
      | black =>
          cases height with
          | zero => exact absurd balanced Tree.not_balanced_black
          | succ below =>
              obtain ⟨rfl, -⟩ := Tree.balanced_black.mp balanced
              exact kept_replaceIn.settles (removalBalancing_settles emptied rfl rfl fits enough)

end Unlink

section Remove

/-- The computation returns a sound tree with the given nodes, `first` at the least. -/
def Leaves (tree : Rbtree ν) (nodes : List ν) (result : Run (Rbtree ν)) : Prop :=
  ∃ tree' shape, result = .ok tree' ∧ At tree' [] shape ∧ shape.Sound ∧ shape.inorder = nodes ∧
    tree'.first = nodes.head? ∧ tree'.linked = tree.linked

variable {color : Color} {left right : RedBlack.Tree ν} {y : ν}

omit [DecidableEq ν] in
/-- The root of a tree lies in any nonempty context of it. -/
theorem root_mem_labels {frame : Frame ν} {rest : Context ν} {focus : RedBlack.Tree ν}
    (found : (Context.plug (frame :: rest) focus).root = some x) :
    x ∈ Context.labels (frame :: rest) := by
  rw [Context.root_plug_cons frame rest focus .nil] at found
  have inside := Tree.mem_inorder_of_root found
  rwa [Context.inorder_plug, Tree.inorder, List.append_nil] at inside

theorem At.heap_redirect {focus : RedBlack.Tree ν} (holds : At tree context focus)
    (found : focus.root = some x) :
    (redirect tree (Context.top context) x y).heap = relink tree.heap context (some y) := by
  rw [← holds.heap_replaceIn found fun _ _ => rfl]
  cases context <;> rfl

theorem redirect_keeps {parent : Option ν} :
    Kept tree (redirect tree parent x y) ∧ (redirect tree parent x y).root = tree.root := by
  cases parent with
  | none => exact ⟨⟨rfl, rfl⟩, rfl⟩
  | some parent =>
      simp only [redirect, replaceChild]
      split <;> exact ⟨⟨rfl, rfl⟩, rfl⟩

theorem adopt_keeps {child parent : Option ν} :
    Kept tree (adopt tree child parent) ∧ (adopt tree child parent).root = tree.root := by
  cases child <;> exact ⟨⟨rfl, rfl⟩, rfl⟩

theorem At.transplant (holds : At tree context (Tree.join .left color left x right))
    (fresh : y ∉ (Context.plug context (Tree.join .left color left x right)).inorder) :
    At (transplant tree x y) context (Tree.join .left color left y right) ∧
      Kept tree (RbTree.transplant tree x y) := by
  obtain ⟨nodup, -, apart⟩ := Context.nodup_plug.mp holds.nodup
  obtain ⟨record, belowLeft, belowRight⟩ := below_join.mp holds.below
  obtain ⟨distinctLeft, distinctRight, notLeft, notRight, disjoint⟩ :=
    Tree.nodup_inorder_join.mp nodup
  simp only [Tree.mem_inorder_join] at apart
  have freshAll : y ∉ Context.labels context ∧ y ≠ x ∧ y ∉ left.inorder ∧ y ∉ right.inorder := by
    simp only [Context.inorder_plug, Tree.join, Tree.inorder, List.mem_append, List.mem_cons,
      not_or] at fresh
    simp only [Context.labels, List.mem_append, not_or]
    tauto
  obtain ⟨freshContext, freshNode, freshLeft, freshRight⟩ := freshAll
  have redirected : (redirect tree (Context.top context) x y).heap =
    relink tree.heap context (some y) :=
    holds.heap_redirect Tree.root_join
  have atNode : (redirect tree (Context.top context) x y).heap x =
      Node.of .left color (Context.top context) left.root right.root := by
    rw [redirected, relink_of_not_mem (apart x (Or.inl rfl)), record]
  let placed :=
    ((((redirect tree (Context.top context) x y).setParent y (Context.top context)).setChild y
    .left left.root).setChild y .right right.root).setColor y color
  let adopted := adopt (adopt placed left.root (some y)) right.root (some y)
  have leftRoot : left.root ≠ some y := fun eq => freshLeft (Tree.mem_inorder_of_root eq)
  have rightRoot : right.root ≠ some y := fun eq => freshRight (Tree.mem_inorder_of_root eq)
  have atSuccessor : placed.heap y =
    Node.of .left color (Context.top context) left.root right.root := by
    simp [placed, Rbtree.setParent, Rbtree.setChild, Rbtree.setColor, Node.withChild, Node.of]
  have computed : RbTree.transplant tree x y =
      if adopted.root = some x then { adopted with root := some y } else adopted := by
    have apartNode := freshNode.symm
    have left₁ : (((redirect tree (Context.top context) x y).setParent y
        (Context.top context)).heap x).left = left.root := by
      simp [Rbtree.setParent, apartNode, atNode, Node.of]
    have right₁ : ((((redirect tree (Context.top context) x y).setParent y
        (Context.top context)).setChild y .left left.root).heap x).right = right.root := by
      simp [Rbtree.setParent, Rbtree.setChild, apartNode, atNode, Node.of]
    have color₁ : (((((redirect tree (Context.top context) x y).setParent y
        (Context.top context)).setChild y .left left.root).setChild y .right right.root).heap
          x).color =
          color := by
      simp [Rbtree.setParent, Rbtree.setChild, apartNode, atNode, Node.of]
    have left₂ : (placed.heap y).left = left.root := by rw [atSuccessor]; rfl
    have right₂ : ((adopt placed left.root (some y)).heap y).right = right.root := by
      rw [heap_adopt, if_neg leftRoot, atSuccessor]
      rfl
    simp only [placed] at left₂ right₂
    simp only [RbTree.transplant, record, Node.of_parent, left₁, right₁, color₁, left₂, right₂]
    rfl
  have outside : ∀ z, z ≠ y → z ∉ left.inorder → z ∉ right.inorder →
      adopted.heap z = relink tree.heap context (some y) z := by
    intro z ne notLeft' notRight'
    have leftNe : left.root ≠ some z := fun eq => notLeft' (Tree.mem_inorder_of_root eq)
    have rightNe : right.root ≠ some z := fun eq => notRight' (Tree.mem_inorder_of_root eq)
    simp [adopted, placed, leftNe, rightNe, Rbtree.setParent, Rbtree.setChild, Rbtree.setColor, ne,
      redirected]
  have finalHeap : (RbTree.transplant tree x y).heap = adopted.heap := by
    rw [computed]
    split <;> rfl
  have keptRoot : adopted.root = tree.root := by
    calc adopted.root = (adopt placed left.root (some y)).root := adopt_keeps.2
      _ = placed.root := adopt_keeps.2
      _ = tree.root := redirect_keeps.2
  have kept : Kept tree adopted := by
    have placedKept : Kept (redirect tree (Context.top context) x y) placed := ⟨rfl, rfl⟩
    exact ((redirect_keeps.1.trans placedKept).trans adopt_keeps.1).trans adopt_keeps.1
  have inside : ∀ z, z ∉ Context.labels context → z ≠ y → adopted.heap z =
      if right.root = some z then { tree.heap z with parent := some y }
      else if left.root = some z then { tree.heap z with parent := some y } else tree.heap z := by
    intro z notContext ne
    simp only [adopted, placed, heap_adopt, Rbtree.setParent, Rbtree.setChild, Rbtree.setColor,
      heap_modify, if_neg ne, redirected, relink_of_not_mem notContext]
    split <;> split <;> rfl
  refine ⟨holds.replace ?_ (below_join.mpr ⟨?_, ?_, ?_⟩) ?_ ?_ ?_, ?_⟩
  · intro z among
    have ne : z ≠ y := ne_of_mem_of_not_mem among freshContext
    rw [finalHeap, Tree.root_join]
    exact outside z ne (fun z' => apart z (Or.inr (Or.inl z')) among)
      fun z' => apart z (Or.inr (Or.inr z')) among
  · rw [finalHeap]
    simp only [adopted, heap_adopt, if_neg rightRoot, if_neg leftRoot, atSuccessor]
  · rw [finalHeap]
    refine belowLeft.reparent distinctLeft fun z among => ?_
    have rightNe : right.root ≠ some z :=
      fun eq => disjoint z among (Tree.mem_inorder_of_root eq)
    rw [inside z (apart z (Or.inr (Or.inl among))) (ne_of_mem_of_not_mem among freshLeft),
      if_neg rightNe]
  · rw [finalHeap]
    refine belowRight.reparent distinctRight fun z among => ?_
    have leftNe : left.root ≠ some z :=
      fun eq => disjoint z (Tree.mem_inorder_of_root eq) among
    rw [inside z (apart z (Or.inr (Or.inr among))) (ne_of_mem_of_not_mem among freshRight),
      if_neg leftNe]
  · rw [computed, keptRoot, holds.root]
    cases context with
    | nil => simp [Context.plug]
    | cons frame rest =>
        rw [if_neg fun found => apart x (Or.inl rfl) (root_mem_labels found), keptRoot, holds.root]
        exact Context.root_plug_cons frame rest _ _
  · exact Tree.nodup_inorder_join.mpr ⟨distinctLeft, distinctRight, freshLeft, freshRight, disjoint⟩
  · intro z among
    rcases Tree.mem_inorder_join.mp among with rfl | among
    · exact freshContext
    · exact apart z (Or.inr among)
  · rw [computed]
    split <;> exact kept

omit [DecidableEq ν] in
theorem At.withFirst {focus : RedBlack.Tree ν} (holds : At tree context focus) (first : Option ν) :
    At { tree with first } context focus :=
  ⟨holds.below, holds.above, holds.root, holds.nodup⟩

/-- Before a node leaves, `first` moves past it. -/
theorem advance_spec {fuel : Nat} (holds : At tree context (Tree.join .left color left x right))
    (first : tree.first =
      (Context.plug context (Tree.join .left color left x right)).inorder.head?)
    (enough : (Context.plug context (Tree.join .left color left x right)).inorder.length < fuel) :
    advance fuel tree x = .ok { tree with
      first := (Context.lefts context ++ left.inorder ++
        (right.inorder ++ Context.rights context)).head? } := by
  have next := rbtreeNext_spec holds enough
  have nodup := holds.nodup
  simp only [Context.inorder_plug, Tree.join, Tree.inorder] at first nodup
  unfold advance
  cases before : Context.lefts context ++ left.inorder with
  | nil =>
      obtain ⟨noLefts, noLeft⟩ := List.append_eq_nil_iff.mp before
      have isFirst : tree.first = some x := by
        rw [first, noLefts, noLeft]
        rfl
      rw [if_pos isFirst, next]
      rfl
  | cons least later =>
      have least_first : tree.first = some least := by
        rw [first, ← List.append_assoc, before]
        rfl
      have ne : least ≠ x := by
        rintro rfl
        rw [← List.append_assoc, before] at nodup
        simp at nodup
      rw [if_neg (by simpa [least_first] using ne)]
      simp only [List.cons_append, List.head?_cons, ← least_first]

/-- `rbtree_remove` of a node with a missing child. -/
theorem removeNode_missing {side : Side} {child : RedBlack.Tree ν} {fuel : Nat} (depth : Nat)
    (holds : At tree context (Tree.join side color .nil x child))
    (sound : (Context.plug context (Tree.join side color .nil x child)).Sound)
    (first : tree.first = (Context.plug context (Tree.join side color .nil x child)).inorder.head?)
    (enough : (Context.plug context (Tree.join side color .nil x child)).inorder.length < fuel) :
    Leaves tree (Context.plug context child).inorder (removeNode fuel (depth + 1) tree x) := by
  have advanced : advance fuel tree x =
      .ok { tree with first := (Context.plug context child).inorder.head? } := by
    rw [Context.inorder_plug]
    cases side with
    | left =>
        have spec := advance_spec holds first enough
        simpa [Tree.inorder] using spec
    | right =>
        have mirrored : At tree context (Tree.join .left color child x .nil) := holds
        have spec := advance_spec mirrored first enough
        simpa [Tree.inorder] using spec
  have short : context.length < fuel := by
    have bound := Context.length_le_labels context
    simp only [Context.inorder_plug, Context.labels, List.length_append] at enough bound
    omega
  obtain ⟨tree', shape, returned, kept, holds', sound', order⟩ :=
    unlink_settles (holds.withFirst (Context.plug context child).inorder.head?) sound short
  refine ⟨tree', shape, ?_, holds', sound', order, kept.1, kept.2⟩
  simp only [removeNode, advanced, ok_bind, holds.record]
  cases side with
  | left => exact returned
  | right => cases found : child.root <;> exact returned

omit [DecidableEq ν] in
/-- The nodes around one of them. -/
theorem inorder_around : (Context.plug context (Tree.join .left color left x right)).inorder =
    (Context.lefts context ++ left.inorder) ++ x :: (right.inorder ++ Context.rights context) := by
  simp [Context.inorder_plug, Tree.join, Tree.inorder]

omit [DecidableEq ν] in
/-- The place of a node in the order is unique. -/
theorem split_unique {before after before' after' : List ν}
    (distinct : (before ++ x :: after).Nodup) (same : before' ++ x :: after' =
      before ++ x :: after) :
    before' = before ∧ after' = after := by
  rw [← same, List.nodup_append] at distinct
  obtain ⟨-, tail, apart⟩ := distinct
  have notBefore : x ∉ before' := fun inside => apart x inside x List.mem_cons_self rfl
  have notAfter : x ∉ after' := (List.nodup_cons.mp tail).1
  obtain ⟨sameBefore, -, sameAfter⟩ := (List.append_cons_inj_of_notMem notBefore notAfter).mp same
  exact ⟨sameBefore, sameAfter⟩

/-- `rbtree_remove` of a node with two children: the successor leaves the tree and takes
the place of the node, wherever the balancing has moved it. -/
theorem removeNode_between {fuel depth : Nat}
    (holds : At tree context (Tree.join .left color left x right))
    (sound : (Context.plug context (Tree.join .left color left x right)).Sound)
    (first : tree.first =
      (Context.plug context (Tree.join .left color left x right)).inorder.head?)
    (enough : (Context.plug context (Tree.join .left color left x right)).inorder.length < fuel)
    {lesser greater : ν} (leftFound : left.root = some lesser) (rightFound : right.root =
      some greater) :
    Leaves tree (Context.lefts context ++ left.inorder ++ (right.inorder ++ Context.rights context))
      (removeNode fuel (depth + 2) tree x) := by
  have nonempty : Context.lefts context ++ left.inorder ≠ [] :=
    List.append_ne_nil_of_right_ne_nil _ (List.ne_nil_of_mem (Tree.mem_inorder_of_root leftFound))
  have advanced : advance fuel tree x = .ok tree := by
    rw [advance_spec holds first enough, List.head?_append_of_ne_nil _ nonempty]
    rw [inorder_around, List.head?_append_of_ne_nil _ nonempty] at first
    rw [← first]
  have rightAt := (at_join_iff.mp holds).turn
  have enoughRight : right.inorder.length ≤ fuel := by
    simp only [inorder_around, List.length_append, List.length_cons] at enough
    omega
  obtain ⟨successor, later, context₁, color₁, right₁, found, order, same⟩ :=
    getMinNode_spec rightAt rightFound enoughRight
  replace same : Context.plug context₁ (Tree.join .left color₁ .nil successor right₁) =
    Context.plug context (Tree.join .left color left x right) := same
  have distinct := holds.nodup
  rw [inorder_around, order] at distinct
  -- The successor follows the node in the order.
  have position := congrArg Tree.inorder same
  have regroup : ∀ before after : List ν, before ++ x :: (successor :: after) =
      (before ++ [x]) ++ successor :: after := by simp
  rw [inorder_around, inorder_around, order, List.cons_append, regroup] at position
  rw [List.cons_append, regroup] at distinct
  obtain ⟨before, after⟩ := split_unique distinct position
  have successorAt : At tree context₁ (Tree.join .left color₁ .nil successor right₁) := by
    rw [← at_nil_plug_iff, same, at_nil_plug_iff]
    exact holds
  rw [← same] at sound first enough
  obtain ⟨tree₁, shape₁, removed, holds₁, sound₁, order₁, first₁, linked₁⟩ :=
    removeNode_missing depth successorAt sound first enough
  rw [Tree.inorder, List.append_nil] at before
  rw [Context.inorder_plug, List.append_assoc, before, after, List.append_assoc,
    List.singleton_append] at order₁ first₁
  -- The node is still in the tree, the successor is not.
  have inside : x ∈ shape₁.inorder := by
    rw [order₁]
    exact List.mem_append_right _ List.mem_cons_self
  obtain ⟨context₂, color₂, left₂, right₂, same₂⟩ := Context.exists_focus inside []
  obtain rfl : shape₁ = _ := same₂.symm
  have nodeAt := at_nil_plug_iff.mp holds₁
  have distinct₁ : (Context.lefts context ++ left.inorder ++
      x :: (later ++ Context.rights context)).Nodup := order₁ ▸ nodeAt.nodup
  rw [inorder_around] at order₁
  obtain ⟨before₂, after₂⟩ := split_unique distinct₁ order₁
  have gone : successor ∉
      (Context.plug context₂ (Tree.join .left color₂ left₂ x right₂)).inorder := by
    rw [inorder_around, order₁]
    have apart := (List.nodup_cons.mp (List.nodup_middle.mp distinct)).1
    rwa [List.append_assoc, List.singleton_append] at apart
  obtain ⟨holds₂, kept⟩ := nodeAt.transplant gone
  have balanced :
    (Context.plug context₂ (Tree.join .left color₂ left₂ successor right₂)).Sound := by
    obtain ⟨height, balanced, fits, accepts⟩ := Context.sound_plug.mp sound₁
    exact Context.sound_plug.mpr ⟨height, balanced.relabel, fits, accepts⟩
  refine ⟨_, _, ?_, at_nil_plug_iff.mpr holds₂, balanced, ?_, ?_, kept.2.trans linked₁⟩
  · unfold removeNode
    simp only [advanced, ok_bind, holds.record, Node.of, leftFound, rightFound, found, removed]
  · rw [inorder_around, before₂, after₂, order]
    rfl
  · rw [kept.1, first₁, List.head?_append_of_ne_nil _ nonempty,
      List.head?_append_of_ne_nil _ nonempty]

/-- `rbtree_remove` of a node of the tree. -/
theorem removeNode_holds {nodes : List ν} {fuel : Nat} (depth : Nat) (holds : Holds tree nodes)
    (present : x ∈ nodes) (enough : nodes.length < fuel) :
    ∃ tree', removeNode fuel (depth + 2) tree x = .ok tree' ∧ Holds tree' (nodes.erase x) := by
  obtain ⟨⟨shape, holds, sound, rfl⟩, first, bound⟩ := holds
  obtain ⟨context, color, left, right, same⟩ := Context.exists_focus present []
  obtain rfl : shape = _ := same.symm
  have focused := at_nil_plug_iff.mp holds
  have erased : (Context.plug context (Tree.join .left color left x right)).inorder.erase x =
      Context.lefts context ++ left.inorder ++ (right.inorder ++ Context.rights context) := by
    have distinct := focused.nodup
    rw [inorder_around] at distinct ⊢
    rw [List.erase_append_right _ fun before =>
      (List.disjoint_of_nodup_append distinct) before List.mem_cons_self, List.erase_cons_head]
  have leaves : Leaves tree
      (Context.lefts context ++ left.inorder ++ (right.inorder ++ Context.rights context))
      (removeNode fuel (depth + 2) tree x) := by
    cases leftFound : left.root with
    | none =>
        obtain rfl := Tree.root_eq_none_iff.mp leftFound
        have missing := removeNode_missing (depth + 1) focused sound first enough
        rw [Context.inorder_plug, List.append_assoc] at missing
        rwa [Tree.inorder, List.append_nil]
    | some lesser =>
        cases rightFound : right.root with
        | none =>
            obtain rfl := Tree.root_eq_none_iff.mp rightFound
            have mirrored : At tree context (Tree.join .right color .nil x left) := focused
            have missing := removeNode_missing (depth + 1) mirrored sound first enough
            rwa [Context.inorder_plug] at missing
        | some greater =>
            exact removeNode_between focused sound first enough leftFound rightFound
  obtain ⟨tree', shape', returned, holds', sound', order, first', linked⟩ := leaves
  rw [← erased] at order first'
  refine ⟨tree', returned, ⟨shape', holds', sound', order⟩, first', ?_⟩
  rw [linked]
  exact Nat.le_trans List.length_erase_le bound

end Remove

end Opal.RbTree
