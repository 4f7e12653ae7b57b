import Opal.Buddy.Operations
import Opal.Library.Dyadic
import Mathlib.Algebra.BigOperators.Group.Finset.Basic
import Mathlib.Algebra.BigOperators.Intervals

/-!
# Free lists and page descriptors

The free blocks are those in the lists.  The descriptors say the same once more:
the free flag marks their pages and the head flag their first pages.  Putting a
block into a list and taking it out keep the two in step.
-/

namespace Opal.Buddy

open Opal.Library

/-- The block is in the list of its order. -/
def Free (s : State) (b : Block) : Prop := b.start ∈ s.freeList b.order

def FreePage (s : State) (x : Nat) : Prop := ∃ b, Free s b ∧ b.Has x

/-- The total size of the blocks in the lists. -/
def listedPages (s : State) : Nat :=
  ∑ order ∈ Finset.range maxOrders, (s.freeList order).length * 2 ^ order

/-- The lists and the descriptors describe one set of disjoint aligned blocks. -/
structure Core (map : SectionMap) (s : State) : Prop where
  bounded : s.maxOrder < maxOrders
  order : ∀ b, Free s b → b.order ≤ s.maxOrder
  aligned : ∀ b, Free s b → b.Aligned
  inside : ∀ b, Free s b → b.start + b.size ≤ getPfnEnd map
  nodup : ∀ order, (s.freeList order).Nodup
  apart : ∀ b c, Free s b → Free s c → b ≠ c → b.Apart c
  flag : ∀ x, (s.pages x).buddyFree = true ↔ FreePage s x
  head : ∀ x order, ((s.pages x).buddyHead = true ∧ (s.pages x).buddyOrder = order) ↔
    x ∈ s.freeList order

/-- What putting blocks into lists and taking them out leaves alone. -/
structure Frame (s s' : State) : Prop where
  maxOrder : s'.maxOrder = s.maxOrder
  freePages : s'.freePages = s.freePages
  metadata : ∀ x, (s'.pages x).metadata = (s.pages x).metadata

structure Pushed (map : SectionMap) (s : State) (b : Block) (s' : State) : Prop
    extends Frame s s' where
  core : Core map s'
  free : ∀ c, Free s' c ↔ c = b ∨ Free s c
  listed : listedPages s' = listedPages s + b.size

structure Removed (map : SectionMap) (s : State) (b : Block) (s' : State) : Prop
    extends Frame s s' where
  core : Core map s'
  free : ∀ c, Free s' c ↔ Free s c ∧ c ≠ b
  listed : listedPages s' + b.size = listedPages s

theorem Frame.trans {s s' s'' : State} (first : Frame s s') (second : Frame s' s'') :
    Frame s s'' where
  maxOrder := second.maxOrder.trans first.maxOrder
  freePages := second.freePages.trans first.freePages
  metadata x := (second.metadata x).trans (first.metadata x)

theorem orderPages_of_le {s : State} {order : Nat} (bounded : s.maxOrder < maxOrders)
    (le : order ≤ s.maxOrder) : orderPages order = some (2 ^ order) :=
  if_pos (lt_of_le_of_lt le bounded)

/-- A list of the right order is replaced by one of another length. -/
theorem listedPages_update (lists : Nat → List Nat) {order : Nat} (small : order < maxOrders)
    (list : List Nat) :
    (∑ k ∈ Finset.range maxOrders, (Function.update lists order list k).length * 2 ^ k) +
        (lists order).length * 2 ^ order =
      (∑ k ∈ Finset.range maxOrders, (lists k).length * 2 ^ k) + list.length * 2 ^ order := by
  have mem : order ∈ Finset.range maxOrders := Finset.mem_range.mpr small
  rw [← Finset.add_sum_erase _ _ mem, ← Finset.add_sum_erase _ _ mem, Function.update_self]
  have rest : ∀ k ∈ (Finset.range maxOrders).erase order,
      (Function.update lists order list k).length * 2 ^ k = (lists k).length * 2 ^ k := by
    intro k inRest
    rw [Function.update_of_ne (Finset.ne_of_mem_erase inRest)]
  rw [Finset.sum_congr rfl rest]
  omega

section Push

variable {map : SectionMap} {s : State} {b : Block}

/-- The state after `list_push` of the block. -/
def pushed (s : State) (b : Block) : State where
  freeList := Function.update s.freeList b.order (b.start :: s.freeList b.order)
  maxOrder := s.maxOrder
  freePages := s.freePages
  reservedPages := s.reservedPages
  totalPages := s.totalPages
  pages x :=
    { metadata := (s.pages x).metadata
      buddyFree := if b.Has x then true else (s.pages x).buddyFree
      buddyHead := if x = b.start then true else if b.Has x then false else (s.pages x).buddyHead
      buddyOrder := if x = b.start then b.order else (s.pages x).buddyOrder }

theorem listPush_eq (core : Core map s) (order : b.order ≤ s.maxOrder)
    (inside : b.start + b.size ≤ getPfnEnd map) :
    listPush map s b.order b.start = some (pushed s b) := by
  have pages := orderPages_of_le core.bounded order
  have fits : b.start + 2 ^ b.order ≤ getPfnEnd map := inside
  simp only [listPush, setBlockFreeState, pages, Option.bind_eq_bind, Option.bind_some, fits,
    if_true, pushed, Option.some.injEq, State.mk.injEq, true_and]
  funext x
  have has : b.Has x ↔ b.start ≤ x ∧ x < b.start + 2 ^ b.order := Iff.rfl
  by_cases first : x = b.start
  · subst first
    simp [b.has_start]
  · rw [Function.update_of_ne first]
    by_cases inBlock : b.Has x
    · rw [if_pos (has.mp inBlock), if_pos inBlock, if_neg first, if_pos inBlock, if_neg first]
    · rw [if_neg (fun both => inBlock (has.mpr both)), if_neg inBlock, if_neg first,
        if_neg inBlock, if_neg first]

theorem free_pushed (c : Block) : Free (pushed s b) c ↔ c = b ∨ Free s c := by
  simp only [Free, pushed]
  by_cases same : c.order = b.order
  · have eqIff : c = b ↔ c.start = b.start := by
      cases b
      cases c
      simp_all
    rw [same, Function.update_self, List.mem_cons, eqIff]
  · have ne : c ≠ b := fun eq => same (congrArg Block.order eq)
    simp only [Function.update_of_ne same, ne, false_or]

theorem freePage_pushed (x : Nat) : FreePage (pushed s b) x ↔ b.Has x ∨ FreePage s x := by
  unfold FreePage
  constructor
  · rintro ⟨c, freeC, has⟩
    rcases (free_pushed c).mp freeC with rfl | old
    · exact .inl has
    · exact .inr ⟨c, old, has⟩
  · rintro (has | ⟨c, old, has⟩)
    · exact ⟨b, (free_pushed b).mpr (.inl rfl), has⟩
    · exact ⟨c, (free_pushed c).mpr (.inr old), has⟩

theorem listedPages_pushed (small : b.order < maxOrders) :
    listedPages (pushed s b) = listedPages s + b.size := by
  have count := listedPages_update s.freeList small (b.start :: s.freeList b.order)
  simp only [listedPages, pushed, List.length_cons, Block.size, add_mul, one_mul] at count ⊢
  omega

/-- The head flags name the lists after a push. -/
theorem Core.head_pushed (core : Core map s) (apart : ∀ c, Free s c → b.Apart c)
    (x order : Nat) :
    (((pushed s b).pages x).buddyHead = true ∧ ((pushed s b).pages x).buddyOrder = order) ↔
      x ∈ (pushed s b).freeList order := by
  have listed := @free_pushed s b ⟨x, order⟩
  refine Iff.trans ?_ listed.symm
  simp only [pushed]
  by_cases first : x = b.start
  · subst first
    simp only [if_true, true_and]
    constructor
    · rintro rfl
      exact .inl rfl
    · rintro (same | old)
      · exact (congrArg Block.order same).symm
      · exact absurd (Block.has_start ⟨b.start, order⟩) (apart _ old b.start b.has_start)
  · have ne : (⟨x, order⟩ : Block) ≠ b := fun eq => first (congrArg Block.start eq)
    simp only [if_neg first, ne, false_or]
    by_cases inBlock : b.Has x
    · have notFree : ¬ Free s ⟨x, order⟩ :=
        fun old => apart _ old x inBlock (Block.has_start ⟨x, order⟩)
      simp [inBlock, notFree]
    · rw [if_neg inBlock]
      exact core.head x order

theorem Core.pushed (core : Core map s) (order : b.order ≤ s.maxOrder) (aligned : b.Aligned)
    (inside : b.start + b.size ≤ getPfnEnd map) (apart : ∀ c, Free s c → b.Apart c) :
    Core map (pushed s b) where
  bounded := core.bounded
  order c freeC := by
    rcases (free_pushed c).mp freeC with rfl | old
    · exact order
    · exact core.order c old
  aligned c freeC := by
    rcases (free_pushed c).mp freeC with rfl | old
    · exact aligned
    · exact core.aligned c old
  inside c freeC := by
    rcases (free_pushed c).mp freeC with rfl | old
    · exact inside
    · exact core.inside c old
  nodup k := by
    simp only [Buddy.pushed]
    by_cases same : k = b.order
    · subst same
      rw [Function.update_self]
      exact List.nodup_cons.mpr ⟨fun old => (apart b old).ne rfl, core.nodup b.order⟩
    · simp only [Function.update_of_ne same]
      exact core.nodup k
  apart c d freeC freeD ne := by
    rcases (free_pushed c).mp freeC with rfl | oldC <;> rcases (free_pushed d).mp freeD
      with rfl | oldD
    · exact absurd rfl ne
    · exact apart d oldD
    · exact (apart c oldC).symm
    · exact core.apart c d oldC oldD ne
  flag x := by
    rw [freePage_pushed]
    simp only [Buddy.pushed]
    by_cases inBlock : b.Has x
    · simp [inBlock]
    · simp only [inBlock, if_false, false_or]
      exact core.flag x
  head := core.head_pushed apart

theorem Core.listPush (core : Core map s) (order : b.order ≤ s.maxOrder) (aligned : b.Aligned)
    (inside : b.start + b.size ≤ getPfnEnd map) (apart : ∀ c, Free s c → b.Apart c) :
    ∃ s', listPush map s b.order b.start = some s' ∧ Pushed map s b s' := by
  refine ⟨Buddy.pushed s b, listPush_eq core order inside, ?_⟩
  exact { maxOrder := rfl, freePages := rfl, metadata := fun _ => rfl,
          core := core.pushed order aligned inside apart, free := free_pushed,
          listed := listedPages_pushed (lt_of_le_of_lt order core.bounded) }

end Push

section Remove

variable {map : SectionMap} {s : State} {b : Block}

/-- The state after the block was taken out of its list. -/
def removed (s : State) (b : Block) : State where
  freeList := Function.update s.freeList b.order ((s.freeList b.order).erase b.start)
  maxOrder := s.maxOrder
  freePages := s.freePages
  reservedPages := s.reservedPages
  totalPages := s.totalPages
  pages x :=
    { metadata := (s.pages x).metadata
      buddyFree := if b.Has x then false else (s.pages x).buddyFree
      buddyHead := if b.Has x then false else (s.pages x).buddyHead
      buddyOrder := if x = b.start then 0 else (s.pages x).buddyOrder }

theorem unmark_eq (core : Core map s) (free : Free s b) :
    unmark map { s with
      freeList := Function.update s.freeList b.order ((s.freeList b.order).erase b.start) }
      b.order b.start = some (removed s b) := by
  have pages := orderPages_of_le core.bounded (core.order b free)
  have fits : b.start + 2 ^ b.order ≤ getPfnEnd map := core.inside b free
  simp only [unmark, setBlockFreeState, pages, Option.bind_eq_bind, Option.bind_some, fits,
    if_true, removed, Option.some.injEq, State.mk.injEq, true_and]
  funext x
  have has : b.Has x ↔ b.start ≤ x ∧ x < b.start + 2 ^ b.order := Iff.rfl
  by_cases first : x = b.start
  · subst first
    simp [b.has_start]
  · rw [Function.update_of_ne first]
    by_cases inBlock : b.Has x
    · rw [if_pos (has.mp inBlock), if_pos inBlock, if_pos inBlock, if_neg first]
    · rw [if_neg (fun both => inBlock (has.mpr both)), if_neg inBlock, if_neg inBlock,
        if_neg first]

theorem Core.free_removed (core : Core map s) (c : Block) :
    Free (removed s b) c ↔ Free s c ∧ c ≠ b := by
  simp only [Free, removed]
  by_cases same : c.order = b.order
  · have eqIff : c = b ↔ c.start = b.start := by
      cases b
      cases c
      simp_all
    rw [same, Function.update_self, (core.nodup b.order).mem_erase_iff]
    exact ⟨fun both => ⟨both.2, fun eq => both.1 (eqIff.mp eq)⟩,
      fun both => ⟨fun eq => both.2 (eqIff.mpr eq), both.1⟩⟩
  · have ne : c ≠ b := fun eq => same (congrArg Block.order eq)
    simp only [Function.update_of_ne same, ne_eq, ne, not_false_eq_true, and_true]

theorem Core.freePage_removed (core : Core map s) (free : Free s b) (x : Nat) :
    FreePage (removed s b) x ↔ FreePage s x ∧ ¬ b.Has x := by
  unfold FreePage
  constructor
  · rintro ⟨c, freeC, has⟩
    obtain ⟨old, ne⟩ := (core.free_removed c).mp freeC
    exact ⟨⟨c, old, has⟩, core.apart c b old free ne x has⟩
  · rintro ⟨⟨c, old, has⟩, out⟩
    refine ⟨c, (core.free_removed c).mpr ⟨old, ?_⟩, has⟩
    rintro rfl
    exact out has

theorem listedPages_removed (small : b.order < maxOrders) (free : Free s b) :
    listedPages (removed s b) + b.size = listedPages s := by
  have count := listedPages_update s.freeList small ((s.freeList b.order).erase b.start)
  have length := List.length_erase_add_one free
  rw [← length] at count
  simp only [listedPages, removed, Block.size, add_mul, one_mul] at count ⊢
  omega

/-- The head flags name the lists after a removal. -/
theorem Core.head_removed (core : Core map s) (free : Free s b) (x order : Nat) :
    (((removed s b).pages x).buddyHead = true ∧ ((removed s b).pages x).buddyOrder = order) ↔
      x ∈ (removed s b).freeList order := by
  refine Iff.trans ?_ (core.free_removed ⟨x, order⟩).symm
  simp only [removed]
  by_cases inBlock : b.Has x
  · simp only [if_pos inBlock, Bool.false_eq_true, false_and, false_iff, not_and, not_not]
    intro old
    by_contra ne
    exact core.apart _ b old free ne x (Block.has_start ⟨x, order⟩) inBlock
  · have first : x ≠ b.start := fun eq => inBlock (eq ▸ b.has_start)
    have ne : (⟨x, order⟩ : Block) ≠ b := fun eq => first (congrArg Block.start eq)
    simp only [if_neg inBlock, if_neg first, ne_eq, ne, not_false_eq_true, and_true]
    exact core.head x order

theorem Core.removed (core : Core map s) (free : Free s b) : Core map (removed s b) where
  bounded := core.bounded
  order c freeC := core.order c ((core.free_removed c).mp freeC).1
  aligned c freeC := core.aligned c ((core.free_removed c).mp freeC).1
  inside c freeC := core.inside c ((core.free_removed c).mp freeC).1
  nodup k := by
    simp only [Buddy.removed]
    by_cases same : k = b.order
    · subst same
      rw [Function.update_self]
      exact (core.nodup b.order).erase b.start
    · simp only [Function.update_of_ne same]
      exact core.nodup k
  apart c d freeC freeD :=
    core.apart c d ((core.free_removed c).mp freeC).1 ((core.free_removed d).mp freeD).1
  flag x := by
    rw [core.freePage_removed free]
    simp only [Buddy.removed]
    by_cases inBlock : b.Has x
    · simp [inBlock]
    · simp only [inBlock, if_false, not_false_eq_true, and_true]
      exact core.flag x
  head := core.head_removed free

theorem Core.isRemoved (core : Core map s) (free : Free s b) :
    Removed map s b (Buddy.removed s b) where
  maxOrder := rfl
  freePages := rfl
  metadata _ := rfl
  core := core.removed free
  free := core.free_removed
  listed := listedPages_removed (lt_of_le_of_lt (core.order b free) core.bounded) free

theorem Core.listPop (core : Core map s) {order : Nat} (nonempty : s.freeList order ≠ []) :
    ∃ pfn s', listPop map s order = some (pfn, s') ∧ Free s ⟨pfn, order⟩ ∧
      Removed map s ⟨pfn, order⟩ s' := by
  obtain ⟨pfn, rest, list⟩ := List.exists_cons_of_ne_nil nonempty
  have free : Free s ⟨pfn, order⟩ := by
    unfold Free
    rw [list]
    exact List.mem_cons_self
  have erased : rest = (s.freeList order).erase pfn := by
    rw [list, List.erase_cons_head]
  refine ⟨pfn, Buddy.removed s ⟨pfn, order⟩, ?_, free, core.isRemoved free⟩
  have unmarked := unmark_eq core free
  simp only [← erased] at unmarked
  simp only [Buddy.listPop, list, unmarked, Option.bind_eq_bind, Option.bind_some]

theorem Core.isFreeHeadOfOrder_iff (core : Core map s)
    (valid : Free s b → pfnIsValid map b.start = true) :
    isFreeHeadOfOrder map s b.start b.order = true ↔ Free s b := by
  have head := core.head b.start b.order
  simp only [isFreeHeadOfOrder, Bool.and_eq_true, beq_iff_eq]
  constructor
  · rintro ⟨⟨-, isHead⟩, order⟩
    exact head.mp ⟨isHead, order⟩
  · intro free
    obtain ⟨isHead, order⟩ := head.mpr free
    exact ⟨⟨⟨valid free, (core.flag b.start).mpr ⟨b, free, b.has_start⟩⟩, isHead⟩, order⟩

theorem Core.listRemove (core : Core map s) (free : Free s b)
    (valid : pfnIsValid map b.start = true) :
    ∃ s', listRemove map s b.order b.start = some s' ∧ Removed map s b s' := by
  have isHead := (core.isFreeHeadOfOrder_iff fun _ => valid).mpr free
  refine ⟨Buddy.removed s b, ?_, core.isRemoved free⟩
  rw [Buddy.listRemove, if_pos ⟨isHead, free⟩]
  exact unmark_eq core free

end Remove

end Opal.Buddy
