import Opal.RbTree.Runs

/-!
# Finding a key and walking through all nodes

The search of `rbtree_find` remembers the last node at which it turned right and the last at
which it turned left: the neighbours of the place it has come to.  The walk from `rbtree_first`
by `rbtree_next` leaves out no node, since each step leads to the next one in the order.
-/

namespace Opal.RbTree

open RedBlack

section Search

variable {ν κ : Type} [LinearOrder κ]

/-- `struct rbtree_find_result`. -/
structure FindResult (ν : Type) where
  lower : Option ν
  upper : Option ν
  deriving DecidableEq, Repr

/-- The loop of `rbtree_find`. -/
def findLoop (order : Comparator κ) (key : ν → κ) (goal : κ) (tree : Rbtree ν) :
    Nat → Option ν → FindResult ν → Run (FindResult ν)
  | 0, _, _ => .error .fuel
  | fuel + 1, node, result =>
      match node with
      | none => .ok result
      | some found =>
          if order.comp (key found) goal < 0 then
            findLoop order key goal tree fuel (tree.heap found).right
              { result with lower := some found }
          else if 0 < order.comp (key found) goal then
            findLoop order key goal tree fuel (tree.heap found).left
              { result with upper := some found }
          else .ok ⟨some found, some found⟩

/-- `rbtree_find` as `RBTREE_TEMPLATE` expands it. -/
def rbtreeFind (order : Comparator κ) (key : ν → κ) (fuel : Nat) (tree : Rbtree ν) (goal : κ) :
    Run (FindResult ν) :=
  findLoop order key goal tree fuel tree.root ⟨none, none⟩

/-- The node with the greatest key below the goal, if there is any. -/
def IsLower (key : ν → κ) (nodes : List ν) (goal : κ) : Option ν → Prop
  | none => ∀ p ∈ nodes, goal ≤ key p
  | some lower => lower ∈ nodes ∧ key lower < goal ∧ ∀ p ∈ nodes, key p < goal → key p ≤ key lower

/-- The node with the least key above the goal, if there is any. -/
def IsUpper (key : ν → κ) (nodes : List ν) (goal : κ) : Option ν → Prop
  | none => ∀ p ∈ nodes, key p ≤ goal
  | some upper => upper ∈ nodes ∧ goal < key upper ∧ ∀ p ∈ nodes, goal < key p → key upper ≤ key p

/-- The result is the node with the key twice, or its neighbours where there is none. -/
def Finds (key : ν → κ) (nodes : List ν) (goal : κ) (result : FindResult ν) : Prop :=
  (∃ p ∈ nodes, key p = goal ∧ result = ⟨some p, some p⟩) ∨
    ((∀ p ∈ nodes, key p ≠ goal) ∧ IsLower key nodes goal result.lower ∧
      IsUpper key nodes goal result.upper)

variable {key : ν → κ} {goal : κ} {tree : Rbtree ν} {context : Context ν}
  {focus : RedBlack.Tree ν} {fuel : Nat} {before behind : List ν}

/-- The last of the nodes below and the first of those above. -/
theorem finds_between (sorted : ((before ++ behind).map key).Pairwise (· < ·))
    (below : ∀ p ∈ before, key p < goal) (above : ∀ p ∈ behind, goal < key p) :
    Finds key (before ++ behind) goal ⟨before.getLast?, behind.head?⟩ := by
  rw [List.map_append, List.pairwise_append] at sorted
  obtain ⟨sortedBefore, sortedBehind, -⟩ := sorted
  refine .inr ⟨fun p member => ?_, ?_, ?_⟩
  · rcases List.mem_append.mp member with inside | inside
    · exact (below p inside).ne
    · exact (above p inside).ne'
  · cases last : before.getLast? with
    | none =>
        obtain rfl := List.getLast?_eq_none_iff.mp last
        exact fun p member => (above p member).le
    | some lower =>
        obtain ⟨first, rfl⟩ := List.getLast?_eq_some_iff.mp last
        have own : lower ∈ first ++ [lower] := List.mem_append_right _ List.mem_cons_self
        refine ⟨List.mem_append_left _ own, below lower own, fun p member less => ?_⟩
        rw [List.map_append, List.pairwise_append] at sortedBefore
        rcases List.mem_append.mp member with inside | inside
        · rcases List.mem_append.mp inside with earlier | same
          · exact (sortedBefore.2.2 (key p) (List.mem_map_of_mem earlier) (key lower)
              List.mem_cons_self).le
          · rw [List.mem_singleton.mp same]
        · exact absurd less (not_lt.mpr (above p inside).le)
  · cases behind with
    | nil =>
        rw [List.append_nil]
        exact fun p member => (below p member).le
    | cons upper later =>
        refine ⟨List.mem_append_right _ List.mem_cons_self, above upper List.mem_cons_self,
          fun p member greater => ?_⟩
        rw [List.map_cons, List.pairwise_cons] at sortedBehind
        rcases List.mem_append.mp member with inside | inside
        · exact absurd greater (not_lt.mpr (below p inside).le)
        · rcases List.mem_cons.mp inside with rfl | later
          · exact le_refl _
          · exact (sortedBehind.1 (key p) (List.mem_map_of_mem later)).le

theorem findLoop_finds (order : Comparator κ) (holds : At tree context focus)
    (sorted : ((Context.plug context focus).inorder.map key).Pairwise (· < ·))
    (between : Between key goal context) (enough : focus.inorder.length < fuel) :
    ∃ result, findLoop order key goal tree fuel focus.root
        ⟨(Context.lefts context).getLast?, (Context.rights context).head?⟩ = .ok result ∧
      Finds key (Context.plug context focus).inorder goal result := by
  induction focus generalizing context fuel with
  | nil =>
      obtain ⟨fuel, rfl⟩ := Nat.exists_eq_add_one_of_ne_zero (Nat.ne_of_gt enough)
      refine ⟨_, rfl, ?_⟩
      rw [Context.inorder_plug, Tree.inorder, List.append_nil] at sorted ⊢
      exact finds_between sorted between.1 between.2
  | node color left label right leftHypothesis rightHypothesis =>
      obtain ⟨fuel, rfl⟩ :=
        Nat.exists_eq_add_one_of_ne_zero (Nat.ne_of_gt (Nat.zero_lt_of_lt enough))
      simp only [Tree.inorder, List.length_append, List.length_cons] at enough
      have leftAt : At tree (⟨.left, color, label, right⟩ :: context) left := at_join_iff.mp holds
      have record : tree.heap label = _ := holds.below.1
      unfold findLoop
      simp only [Tree.root, record, order.comp_neg_iff, order.comp_pos_iff]
      by_cases less : key label < goal
      · rw [if_pos less]
        have rightAt : At tree (⟨.right, color, label, left⟩ :: context) right := leftAt.turn
        have last : (Context.lefts (⟨.right, color, label, left⟩ :: context)).getLast? =
            some label := List.getLast?_concat
        obtain ⟨result, returned, finds⟩ := rightHypothesis rightAt sorted
          (between.turnRight sorted less) (by omega : right.inorder.length < fuel)
        rw [last] at returned
        exact ⟨result, returned, finds⟩
      · rw [if_neg less]
        by_cases greater : goal < key label
        · rw [if_pos greater]
          obtain ⟨result, returned, finds⟩ := leftHypothesis leftAt sorted
            (between.turnLeft sorted greater) (by omega : left.inorder.length < fuel)
          exact ⟨result, returned, finds⟩
        · rw [if_neg greater]
          have own : label ∈ (Context.plug context (.node color left label right)).inorder := by
            rw [Context.inorder_plug]
            simp [Tree.inorder]
          exact ⟨_, rfl, .inl ⟨label, own, le_antisymm (not_lt.mp greater) (not_lt.mp less), rfl⟩⟩

end Search

section Walk

variable {ν κ : Type} [DecidableEq ν] [LinearOrder κ] {key : ν → κ} {tree : Rbtree ν}
  {shape : RedBlack.Tree ν} {fuel : Nat} {x : ν} {before behind : List ν}

def rbtreeFirst (tree : Rbtree ν) : Option ν := tree.first

/-- The nodes that a walk by `rbtree_next` visits before it comes to a null pointer. -/
def walk (fuel : Nat) (tree : Rbtree ν) : Nat → Option ν → Run (List ν)
  | 0, _ => .error .fuel
  | _ + 1, none => .ok []
  | rounds + 1, some node => do
      let next ← rbtreeNext fuel tree node
      let later ← walk fuel tree rounds next
      .ok (node :: later)

/-- The nodes are linked as the shape demands and in the order of their keys, and `first` is the
least of them. -/
structure SearchTree (key : ν → κ) (tree : Rbtree ν) (shape : RedBlack.Tree ν) : Prop where
  linked : At tree [] shape
  sorted : (shape.inorder.map key).Pairwise (· < ·)
  first : tree.first = shape.inorder.head?

omit [DecidableEq ν] in
/-- What the operations keep in every run is a search tree. -/
theorem Holds.searchTree {nodes : List ν} (holds : Holds tree nodes)
    (sorted : (nodes.map key).Pairwise (· < ·)) : ∃ shape, SearchTree key tree shape ∧
      shape.inorder = nodes := by
  obtain ⟨⟨shape, linked, -, rfl⟩, first, -⟩ := holds
  exact ⟨shape, ⟨linked, sorted, first⟩, rfl⟩

/-- `rbtree_next` leads to the next node in the order. -/
theorem rbtreeNext_between (linked : At tree [] shape)
    (around : shape.inorder = before ++ x :: behind) (enough : shape.inorder.length < fuel) :
    rbtreeNext fuel tree x = .ok behind.head? := by
  have inside : x ∈ shape.inorder := by
    rw [around]
    exact List.mem_append_right _ List.mem_cons_self
  obtain ⟨context, color, left, right, same⟩ := Context.exists_focus inside []
  replace same : Context.plug context (Tree.join .left color left x right) = shape := same
  subst same
  have distinct := linked.nodup
  change (Context.plug context _).inorder.Nodup at distinct
  rw [around] at distinct
  obtain ⟨-, after⟩ := split_unique distinct (inorder_around.symm.trans around)
  rw [← after]
  exact rbtreeNext_spec (at_nil_plug_iff.mp linked) enough

theorem walk_from {rounds : Nat} (linked : At tree [] shape)
    (around : shape.inorder = before ++ behind) (enough : shape.inorder.length < fuel)
    (left : behind.length < rounds) : walk fuel tree rounds behind.head? = .ok behind := by
  induction behind generalizing before rounds with
  | nil =>
      obtain ⟨rounds, rfl⟩ := Nat.exists_eq_add_one_of_ne_zero (Nat.ne_of_gt left)
      rfl
  | cons x later inductionHypothesis =>
      obtain ⟨rounds, rfl⟩ :=
        Nat.exists_eq_add_one_of_ne_zero (Nat.ne_of_gt (Nat.zero_lt_of_lt left))
      have around' : shape.inorder = (before ++ [x]) ++ later := by
        rw [around, List.append_assoc]
        rfl
      have rest := inductionHypothesis around' (Nat.lt_of_succ_lt_succ left)
      rw [List.head?_cons, walk, rbtreeNext_between linked around enough, ok_bind, rest]
      rfl

omit [DecidableEq ν] in
theorem SearchTree.finds (searchTree : SearchTree key tree shape) (order : Comparator κ)
    (enough : shape.inorder.length < fuel) (goal : κ) :
    ∃ result, rbtreeFind order key fuel tree goal = .ok result ∧
      Finds key shape.inorder goal result := by
  have outside : Between key goal ([] : Context ν) := by
    constructor <;>
      · intro p member
        cases member
  obtain ⟨result, returned, finds⟩ :=
    findLoop_finds order searchTree.linked searchTree.sorted outside enough
  have root : tree.root = shape.root := searchTree.linked.root
  rw [← root] at returned
  exact ⟨result, returned, finds⟩

theorem SearchTree.walks (searchTree : SearchTree key tree shape)
    (enough : shape.inorder.length < fuel) :
    walk fuel tree fuel (rbtreeFirst tree) = .ok shape.inorder := by
  rw [rbtreeFirst, searchTree.first]
  exact walk_from searchTree.linked (List.nil_append _).symm enough enough

/-- In every search tree `rbtree_find` finds the key or its neighbours, and the walk from
`rbtree_first` visits every node once, in ascending order, up to the null pointer. -/
theorem searchTree_walks (order : Comparator κ) (searchTree : SearchTree key tree shape)
    (enough : shape.inorder.length < fuel) :
    (∀ goal, ∃ result, rbtreeFind order key fuel tree goal = .ok result ∧
      Finds key shape.inorder goal result) ∧
    ∃ visited, walk fuel tree fuel (rbtreeFirst tree) = .ok visited ∧ visited.Nodup ∧
      (∀ x, x ∈ visited ↔ x ∈ shape.inorder) ∧ (visited.map key).Pairwise (· < ·) := by
  refine ⟨fun goal => searchTree.finds order enough goal, shape.inorder, ?_, ?_, ?_, ?_⟩
  · exact searchTree.walks enough
  · exact searchTree.linked.nodup
  · exact fun _ => Iff.rfl
  · exact searchTree.sorted

/-- Three nodes whose keys are their addresses. -/
def threeNodes : Rbtree Nat where
  heap
    | 3 => ⟨.red, some 5, none, none⟩
    | 5 => ⟨.black, none, some 3, some 8⟩
    | _ => ⟨.red, some 5, none, none⟩
  root := some 5
  first := some 3
  linked := 3

def threeShape : RedBlack.Tree Nat :=
  .node .black (.node .red .nil 3 .nil) 5 (.node .red .nil 8 .nil)

theorem searchTree_walks_threeNodes : SearchTree id threeNodes threeShape ∧
    (∃ result, rbtreeFind byDifference id 4 threeNodes 6 = .ok result ∧
      Finds id threeShape.inorder 6 result) ∧
    ∃ visited, walk 4 threeNodes 4 (rbtreeFirst threeNodes) = .ok visited ∧ visited.Nodup := by
  have linked : At threeNodes [] threeShape := by
    refine ⟨?_, trivial, rfl, by decide⟩
    simp [threeShape, threeNodes, Below, Tree.root, Context.top]
  have searchTree : SearchTree id threeNodes threeShape := ⟨linked, by decide, rfl⟩
  obtain ⟨finds, visited, walked, once, -⟩ :=
    searchTree_walks byDifference searchTree (by decide : threeShape.inorder.length < 4)
  exact ⟨searchTree, finds 6, visited, walked, once⟩

/-- So it is after every run of insertions and removals. -/
theorem run_walks {order : Comparator κ} {heap : ν → Node ν} {key : ν → κ} {s : System ν κ}
    (reached : Reaches (exec order) Admits (start heap key) s) :
    (∀ goal, ∃ result, rbtreeFind order s.key (s.tree.linked + 1) s.tree goal = .ok result) ∧
      ∃ visited, walk (s.tree.linked + 1) s.tree (s.tree.linked + 1) (rbtreeFirst s.tree) =
        .ok visited ∧ (∀ x, x ∈ visited ↔ x ∈ s.members) := by
  obtain ⟨nodes, holds, sorted, members⟩ := reaches_listed reached
  have enough := Nat.lt_succ_of_le holds.bound
  obtain ⟨shape, searchTree, rfl⟩ := holds.searchTree sorted
  refine ⟨fun goal => ?_, shape.inorder, searchTree.walks enough, members⟩
  obtain ⟨result, returned, -⟩ := searchTree.finds order enough goal
  exact ⟨result, returned⟩

end Walk

end Opal.RbTree
