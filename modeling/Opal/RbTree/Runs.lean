import Opal.RbTree.Linking
import Mathlib.Data.Finset.Sort

/-!
# Runs of insertions and removals

The nodes of the tree are told apart from the set of nodes a user has put in and not
taken out again.  After every run the tree lists that set by key, obeys the red-black
rules and is linked consistently, and the next operation returns.
-/

namespace Opal.RbTree

open RedBlack

variable {ν κ : Type} [DecidableEq ν] [LinearOrder κ]

/-- A tree with the keys of all nodes; `members` are the nodes put in. -/
structure System (ν κ : Type) where
  tree : Rbtree ν
  key : ν → κ
  members : Finset ν

inductive Action (ν κ : Type) where
  | setKey (node : ν) (key : κ)
  | insert (node : ν)
  | remove (node : ν)

/-- A key may change outside the tree only, and a removed node is in the tree. -/
def Admits (s : System ν κ) : Action ν κ → Prop
  | .setKey node _ => node ∉ s.members
  | .insert _ => True
  | .remove node => node ∈ s.members

instance (s : System ν κ) (action : Action ν κ) : Decidable (Admits s action) :=
  match action with
  | .setKey node _ => inferInstanceAs (Decidable (node ∉ s.members))
  | .insert _ => isTrue trivial
  | .remove node => inferInstanceAs (Decidable (node ∈ s.members))

/-- A node joins the set unless its key is taken. -/
def addMember (key : ν → κ) (members : Finset ν) (node : ν) : Finset ν :=
  if ∃ q ∈ members, key q = key node then members else insert node members

def exec (order : Comparator κ) (s : System ν κ) : Action ν κ → Run (System ν κ)
  | .setKey node key => .ok { s with key := Function.update s.key node key }
  | .insert node => do
      let tree ← rbtreeInsert order s.key s.tree node
      .ok { s with tree, members := addMember s.key s.members node }
  | .remove node => do
      let tree ← rbtreeRemove s.tree node
      .ok { s with tree, members := s.members.erase node }

/-- An initialised tree in any memory. -/
def start (heap : ν → Node ν) (key : ν → κ) : System ν κ :=
  { tree := rbtreeInit ⟨heap, none, none, 0⟩, key, members := ∅ }

section Insert

variable {key : ν → κ} {tree : Rbtree ν} {nodes : List ν} {data : ν}

omit [DecidableEq ν] in
theorem Between.ne {context : Context ν} {goal : κ} (between : Between key goal context) {q : ν}
    (inside : q ∈ Context.labels context) : key q ≠ goal := by
  rcases List.mem_append.mp inside with before | behind
  · exact (between.1 q before).ne
  · exact (between.2 q behind).ne'

omit [DecidableEq ν] in
/-- The search finds the key, or the place where it belongs. -/
theorem search_spec (order : Comparator κ) (holds : Holds tree nodes)
    (sorted : (nodes.map key).Pairwise (· < ·)) (goal : κ) :
    (descend order key goal (tree.linked + 1) tree .root none = .ok none ∧
        ∃ q ∈ nodes, key q = goal) ∨
      ∃ context, descend order key goal (tree.linked + 1) tree .root none =
          .ok (some (linkOf context, Context.top context)) ∧
        At tree context .nil ∧ (Context.plug context .nil).Sound ∧
        Context.labels context = nodes ∧ Between key goal context := by
  obtain ⟨⟨shape, holds, sound, rfl⟩, -, bound⟩ := holds
  have outside : Between key goal ([] : Context ν) := ⟨nofun, nofun⟩
  rcases descend_spec order holds sorted outside (Nat.lt_succ_of_le bound) with
    found | ⟨context, returned, same, between⟩
  · exact Or.inl found
  · replace same : Context.plug context .nil = shape := same
    subst same
    refine Or.inr ⟨context, returned, at_nil_plug_iff.mp holds, sound, ?_, between⟩
    rw [Context.inorder_plug, Tree.inorder, List.append_nil]
    rfl

theorem rbtreeInsert_present (order : Comparator κ) (holds : Holds tree nodes)
    (sorted : (nodes.map key).Pairwise (· < ·))
    (present : ∃ q ∈ nodes, key q = key data) : rbtreeInsert order key tree data = .ok tree := by
  rcases search_spec order holds sorted (key data) with
    ⟨returned, -⟩ | ⟨context, -, -, -, rfl, between⟩
  · unfold rbtreeInsert
    rw [returned]
    rfl
  · obtain ⟨q, inside, same⟩ := present
    exact absurd same (between.ne inside)

theorem rbtreeInsert_absent (order : Comparator κ) (holds : Holds tree nodes)
    (sorted : (nodes.map key).Pairwise (· < ·))
    (absent : ∀ q ∈ nodes, key q ≠ key data) :
    ∃ tree' nodes', rbtreeInsert order key tree data = .ok tree' ∧ Holds tree' nodes' ∧
      (nodes'.map key).Pairwise (· < ·) ∧ ∀ p, p ∈ nodes' ↔ p = data ∨ p ∈ nodes := by
  rcases search_spec order holds sorted (key data) with
    ⟨-, q, inside, same⟩ | ⟨context, returned, place, sound, rfl, between⟩
  · exact absurd same (absent q inside)
  · have fresh : data ∉ Context.labels context := fun inside => absent data inside rfl
    obtain ⟨tree', inserted, holds'⟩ :=
      rbtreeLinkInsert_holds place sound fresh holds.first holds.bound
    refine ⟨tree', _, ?_, holds', ?_, ?_⟩
    · unfold rbtreeInsert
      rw [returned]
      exact inserted
    · simp only [Context.labels, List.map_append, List.pairwise_append, List.map_cons,
        List.pairwise_cons, List.mem_cons, List.mem_map, forall_exists_index, and_imp,
        forall_apply_eq_imp_iff₂] at sorted ⊢
      obtain ⟨lefts, rights, apart⟩ := sorted
      refine ⟨lefts, ⟨between.2, rights⟩, fun p before k other => ?_⟩
      rcases other with rfl | ⟨q, behind, rfl⟩
      · exact between.1 p before
      · exact apart p before q behind
    · intro p
      simp only [Context.labels, List.mem_append, List.mem_cons]
      tauto

end Insert

section Meaning

/-- The records of the tree are linked both ways. -/
structure Consistent (tree : Rbtree ν) (nodes : List ν) : Prop where
  children : ∀ p ∈ nodes, ∀ side q, (tree.heap p).child side = some q →
    q ∈ nodes ∧ (tree.heap q).parent = some p
  parents : ∀ p ∈ nodes, ∀ q, (tree.heap p).parent = some q →
    q ∈ nodes ∧ ∃ side, (tree.heap q).child side = some p
  top : ∀ p ∈ nodes, ((tree.heap p).parent = none ↔ tree.root = some p)
  empty : tree.root = none ↔ nodes = []

variable {tree : Rbtree ν} {shape : RedBlack.Tree ν}

omit [DecidableEq ν] in
theorem At.consistent (holds : At tree [] shape) : Consistent tree shape.inorder := by
  have focus : ∀ p ∈ shape.inorder, ∃ context color left right,
      Context.plug context (Tree.join .left color left p right) = shape ∧
        At tree context (Tree.join .left color left p right) := by
    intro p inside
    obtain ⟨context, color, left, right, same⟩ := Context.exists_focus inside []
    refine ⟨context, color, left, right, same, at_nil_plug_iff.mp ?_⟩
    rw [same]
    exact holds
  refine ⟨?_, ?_, ?_, ?_⟩
  · intro p inside side q pointer
    obtain ⟨context, color, left, right, rfl, place⟩ := focus p inside
    obtain ⟨color', near, far, turned⟩ := Tree.exists_join side
      (Tree.root_join : (Tree.join .left color left p right).root = some p)
    rw [turned] at place ⊢
    rw [place.record, Node.of_near] at pointer
    obtain ⟨shade, left', right', rfl⟩ := Tree.exists_join .left pointer
    refine ⟨?_, by rw [(at_join_iff.mp place).record, Node.of_parent]; rfl⟩
    rw [Context.inorder_plug]
    simp only [List.mem_append, Tree.mem_inorder_join]
    tauto
  · intro p inside q pointer
    obtain ⟨context, color, left, right, rfl, place⟩ := focus p inside
    rw [place.record, Node.of_parent] at pointer
    cases context with
    | nil => cases pointer
    | cons frame rest =>
        cases pointer
        refine ⟨?_, frame.side, ?_⟩
        · have among : frame.label ∈ Context.labels (frame :: rest) :=
            Context.mem_labels_cons.mpr (Or.inl rfl)
          rw [Context.inorder_plug]
          simp only [Context.labels, List.mem_append] at among ⊢
          tauto
        · rw [place.frameRecord, Node.of_near, Tree.root_join]
  · intro p inside
    obtain ⟨context, color, left, right, rfl, place⟩ := focus p inside
    rw [place.record, Node.of_parent, place.root]
    cases context with
    | nil => simp [Context.top, Context.plug]
    | cons frame rest =>
        simp only [Context.top, reduceCtorEq, false_iff]
        intro found
        obtain ⟨-, -, apart⟩ := Context.nodup_plug.mp place.nodup
        exact apart p (Tree.mem_inorder_join.mpr (Or.inl rfl)) (root_mem_labels found)
  · rw [holds.root]
    cases shape <;> simp [Context.plug, Tree.root, Tree.inorder]

/-- What the heap holds: a red-black tree of exactly the members, by key, with `first` at
the least of them. -/
structure RedBlackSet (s : System ν κ) (shape : RedBlack.Tree ν) : Prop where
  records : Below s.tree.heap none shape
  root : s.tree.root = shape.root
  consistent : Consistent s.tree shape.inorder
  members : ∀ p, p ∈ shape.inorder ↔ p ∈ s.members
  keys : shape.inorder.map s.key = (s.members.image s.key).sort (· ≤ ·)
  rootBlack : shape.tint = .black
  noRedRed : shape.NoRedRed
  blackHeight : ∀ m ∈ shape.blackCounts, ∀ n ∈ shape.blackCounts, m = n
  first : ∀ p, s.tree.first = some p → p ∈ s.members ∧ ∀ q ∈ s.members, s.key p ≤ s.key q
  firstNull : s.tree.first = none ↔ s.members = ∅

/-- The nodes of the tree are the members, by strictly increasing keys. -/
def Listed (s : System ν κ) : Prop :=
  ∃ nodes, Holds s.tree nodes ∧ (nodes.map s.key).Pairwise (· < ·) ∧ ∀ p, p ∈ nodes ↔ p ∈ s.members

omit [DecidableEq ν] in
theorem Listed.redBlackSet {s : System ν κ} (listed : Listed s) : ∃ shape, RedBlackSet s shape := by
  obtain ⟨nodes, ⟨⟨shape, holds, ⟨black, height, balanced⟩, rfl⟩, first, -⟩, sorted, members⟩
    := listed
  have image : (shape.inorder.map s.key).toFinset = s.members.image s.key := by
    ext k
    simp only [List.mem_toFinset, List.mem_map, Finset.mem_image, members]
  refine ⟨shape, holds.below, holds.root, holds.consistent, members, ?_, black, balanced.noRedRed,
    ?_, ?_, ?_⟩
  · rw [← image]
    have distinct : (shape.inorder.map s.key).Nodup := sorted.imp fun less => less.ne
    exact ((List.toFinset_sort (· ≤ ·) distinct).mpr (sorted.imp fun less => less.le)).symm
  · intro m inM n inN
    rw [balanced.blackCounts m inM, balanced.blackCounts n inN]
  · intro p found
    rw [found] at first
    cases order : shape.inorder with
    | nil => simp [order] at first
    | cons least later =>
        obtain rfl : p = least := by simpa [order] using first
        rw [order, List.map_cons, List.pairwise_cons] at sorted
        simp only [order, List.mem_cons] at members
        refine ⟨(members p).mp (Or.inl rfl), fun q member => ?_⟩
        rcases (members q).mpr member with rfl | behind
        · exact le_refl _
        · exact (sorted.1 _ (List.mem_map_of_mem behind)).le
  · rw [first, List.head?_eq_none_iff, List.eq_nil_iff_forall_not_mem,
      Finset.eq_empty_iff_forall_notMem]
    simp only [members]

end Meaning

section Steps

variable {order : Comparator κ} {s : System ν κ}

/-- One operation: it returns, and the tree lists the new set. -/
theorem exec_listed (listed : Listed s) {action : Action ν κ} (admitted : Admits s action) :
    ∃ after, exec order s action = .ok after ∧ Listed after := by
  obtain ⟨nodes, holds, sorted, members⟩ := listed
  cases action with
  | setKey node key =>
      refine ⟨_, rfl, nodes, holds, ?_, members⟩
      have unchanged : nodes.map (Function.update s.key node key) = nodes.map s.key := by
        refine List.map_congr_left fun p inside => Function.update_of_ne ?_ _ _
        rintro rfl
        exact admitted ((members p).mp inside)
      show (nodes.map (Function.update s.key node key)).Pairwise (· < ·)
      rwa [unchanged]
  | insert node =>
      simp only [exec]
      by_cases taken : ∃ q ∈ s.members, s.key q = s.key node
      · have present : ∃ q ∈ nodes, s.key q = s.key node := by
          obtain ⟨q, member, same⟩ := taken
          exact ⟨q, (members q).mpr member, same⟩
        rw [rbtreeInsert_present order holds sorted present]
        refine ⟨_, rfl, nodes, holds, sorted, ?_⟩
        simpa only [addMember, if_pos taken] using members
      · have absent : ∀ q ∈ nodes, s.key q ≠ s.key node :=
          fun q inside same => taken ⟨q, (members q).mp inside, same⟩
        obtain ⟨tree', nodes', returned, holds', sorted', members'⟩ :=
          rbtreeInsert_absent order holds sorted absent
        rw [returned]
        refine ⟨_, rfl, nodes', holds', sorted', fun p => ?_⟩
        simp only [addMember, if_neg taken, Finset.mem_insert, members', members]
  | remove node =>
      have present := (members node).mpr admitted
      obtain ⟨tree', returned, holds'⟩ := removeNode_holds 0 holds present
        (Nat.lt_succ_of_le holds.bound)
      refine ⟨{ s with tree := tree', members := s.members.erase node }, ?_,
        nodes.erase node, holds',
        ?_, fun p => ?_⟩
      · simp only [exec, rbtreeRemove, returned, ok_bind]
      · exact sorted.sublist (List.Sublist.map s.key List.erase_sublist)
      · rw [holds.nodup.mem_erase_iff, Finset.mem_erase, members]

/-- After any run the tree lists the members. -/
theorem reaches_listed {heap : ν → Node ν} {key : ν → κ}
    (reached : Reaches (exec order) Admits (start heap key) s) : Listed s := by
  induction reached with
  | start =>
      refine ⟨[], ⟨⟨.nil, ⟨trivial, trivial, rfl, List.nodup_nil⟩, ⟨rfl, 0, rfl⟩, rfl⟩, rfl, ?_⟩,
        List.Pairwise.nil, fun p => ?_⟩
      · exact Nat.zero_le _
      · simp [start]
  | step _ admitted returned listed =>
      obtain ⟨after, returned', listed'⟩ := exec_listed listed admitted
      rw [returned] at returned'
      cases returned'
      exact listed'

/-- After any run of insertions and removals the heap holds a red-black tree of the
members, and every operation a user may call next returns. -/
theorem run_rbtree {heap : ν → Node ν} {key : ν → κ}
    (reached : Reaches (exec order) Admits (start heap key) s) :
    (∃ shape, RedBlackSet s shape) ∧
      ∀ action, Admits s action → ∃ after, exec order s action = .ok after := by
  have listed := reaches_listed reached
  refine ⟨listed.redBlackSet, fun action admitted => ?_⟩
  obtain ⟨after, returned, -⟩ := exec_listed listed admitted
  exact ⟨after, returned⟩

/-- Numbers compared by their difference. -/
def byDifference : Comparator Nat where
  comp found data := (found : Int) - data
  comp_neg_iff found data := by omega
  comp_pos_iff found data := by omega

/-- Ascending insertions that rotate, then removals with two children, of the root and of
the least node. -/
def ascending : List (Action Nat Nat) :=
  [.insert 1, .insert 2, .insert 3, .insert 4, .insert 5, .insert 6, .insert 3, .remove 4,
    .remove 2,
    .setKey 4 9, .insert 4, .remove 1]

theorem run_rbtree_ascending : ∃ s, runFrom (exec byDifference) Admits
    (start (fun _ => ⟨.red, none, none, none⟩) id) ascending = some s ∧ s.tree.first = some 3 ∧
      ∃ shape, RedBlackSet s shape := by
  have runs : ((runFrom (exec byDifference) Admits
      (start (fun _ => ⟨.red, none, none, none⟩) id) ascending).map (·.tree.first)) =
        some (some 3) := by decide +kernel
  obtain ⟨s, ran, first⟩ := Option.map_eq_some_iff.mp runs
  exact ⟨s, ran, first, (run_rbtree (Reaches.start.of_runFrom ran)).1⟩

end Steps

end Opal.RbTree
