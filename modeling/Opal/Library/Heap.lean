import Mathlib.Data.List.Nodup
import Mathlib.Logic.Equiv.Basic

/-!
# Heaps in arrays

The children of index `i` are `2 * i + 1` and `2 * i + 2`.  A heap may begin at any index, which
is how it is built from its leaves, and end at any index, which is how it is emptied from the
back; the one hole it may have is what a step of sifting moves down.
-/

namespace Opal.Heap

variable {α : Type} {r : α → α → Prop} {v : Nat → α} {start stop hole child n : Nat}

def Child (i j : Nat) : Prop := j = 2 * i + 1 ∨ j = 2 * i + 2

theorem Child.lt {i j : Nat} (below : Child i j) : i < j := by
  rcases below with rfl | rfl <;> omega

theorem Child.parent_unique {i i' j : Nat} (first : Child i j) (second : Child i' j) : i = i' := by
  unfold Child at first second
  omega

/-- No child from `start` on is above its parent. -/
def HeapFrom (r : α → α → Prop) (v : Nat → α) (start stop : Nat) : Prop :=
  ∀ i j, start ≤ i → Child i j → j < stop → r (v j) (v i)

/-- A heap but for the hole, which may be below its children, while its parent is not. -/
structure HeapBut (r : α → α → Prop) (v : Nat → α) (start stop hole : Nat) : Prop where
  others : ∀ i j, start ≤ i → i ≠ hole → Child i j → j < stop → r (v j) (v i)
  past : ∀ i j, start ≤ i → Child i hole → Child hole j → j < stop → r (v j) (v i)

/-- Behind the heap every value is above all values before it. -/
def Settled (r : α → α → Prop) (v : Nat → α) (stop n : Nat) : Prop :=
  ∀ i j, i ≤ j → stop ≤ j → j < n → r (v i) (v j)

section Sift

/-- One more index is put in front of a heap. -/
theorem HeapFrom.descend (heap : HeapFrom r v (start + 1) stop) :
    HeapBut r v start stop start where
  others i j first differs below := heap i j (by omega) below
  past i j first above := absurd above.lt (Nat.not_lt.mpr first)

/-- Indices without children are heaps. -/
theorem heapFrom_leaves (leaves : stop ≤ 2 * start + 1) : HeapFrom r v start stop := by
  intro i j first below inside
  rcases below with rfl | rfl <;> omega

theorem HeapBut.settle (heap : HeapBut r v start stop hole)
    (above : ∀ j, Child hole j → j < stop → r (v j) (v hole)) : HeapFrom r v start stop := by
  intro i j first below inside
  by_cases own : i = hole
  · subst own
    exact above j below inside
  · exact heap.others i j first own below inside

/-- The hole changes places with the child that is above the others. -/
theorem HeapBut.sink (heap : HeapBut r v start stop hole) (first : start ≤ hole)
    (below : Child hole child) (inside : child < stop)
    (greatest : ∀ j, Child hole j → j < stop → r (v j) (v child))
    (greater : r (v hole) (v child)) :
    HeapBut r (v ∘ Equiv.swap hole child) start stop child where
  others i j from' differs below' inside' := by
    have apart := below.lt
    simp only [Function.comp_apply]
    by_cases own : i = hole
    · subst own
      rw [Equiv.swap_apply_left]
      by_cases same : j = child
      · subst same
        rwa [Equiv.swap_apply_right]
      · rw [Equiv.swap_apply_of_ne_of_ne (Nat.ne_of_gt below'.lt) same]
        exact greatest j below' inside'
    · rw [Equiv.swap_apply_of_ne_of_ne own differs]
      by_cases above : j = hole
      · subst above
        rw [Equiv.swap_apply_left]
        exact heap.past i child from' below' below inside
      · have other : j ≠ child := by
          rintro rfl
          exact own (below'.parent_unique below)
        rw [Equiv.swap_apply_of_ne_of_ne above other]
        exact heap.others i j from' own below' inside'
  past i j from' above below' inside' := by
    obtain rfl := above.parent_unique below
    have under := below.lt
    have apart := below'.lt
    simp only [Function.comp_apply]
    rw [Equiv.swap_apply_left, Equiv.swap_apply_of_ne_of_ne (by omega) (by omega)]
    exact heap.others child j (by omega) (by omega) below' inside'

end Sift

section Empty

variable (trans : ∀ a b c, r a b → r b c → r a c) (refl : ∀ a, r a a)

include trans refl in
/-- The root is above all others. -/
theorem HeapFrom.top (heap : HeapFrom r v 0 stop) (j : Nat) (inside : j < stop) :
    r (v j) (v 0) := by
  induction j using Nat.strongRecOn with
  | ind j inductionHypothesis =>
      cases j with
      | zero => exact refl _
      | succ j =>
          have below : Child (j / 2) (j + 1) := by
            unfold Child
            omega
          have lower : j / 2 < j + 1 := below.lt
          exact trans _ _ _ (heap _ _ (Nat.zero_le _) below inside)
            (inductionHypothesis _ lower (Nat.lt_trans lower inside))

/-- The root changes places with the last value, which leaves the heap. -/
theorem HeapFrom.pop (heap : HeapFrom r v 0 (stop + 1)) :
    HeapBut r (v ∘ Equiv.swap 0 stop) 0 stop 0 where
  others i j _ differs below inside := by
    have apart := below.lt
    simp only [Function.comp_apply]
    rw [Equiv.swap_apply_of_ne_of_ne (by omega) (by omega),
      Equiv.swap_apply_of_ne_of_ne differs (by omega)]
    exact heap i j (Nat.zero_le _) below (by omega)
  past i j _ above := absurd above.lt (Nat.not_lt_zero _)

/-- A change of places of two values with indices below a third. -/
theorem swap_le {a b i j : Nat} (ha : a ≤ j) (hb : b ≤ j) (hi : i ≤ j) : Equiv.swap a b i ≤ j := by
  rw [Equiv.swap_apply_def]
  split
  · exact hb
  · split
    · exact ha
    · exact hi

theorem Settled.swap {a b : Nat} (settled : Settled r v stop n) (ha : a < stop) (hb : b < stop) :
    Settled r (v ∘ Equiv.swap a b) stop n := by
  intro i j before behind inside
  simp only [Function.comp_apply]
  rw [@Equiv.swap_apply_of_ne_of_ne _ _ a b j (by omega) (by omega)]
  exact settled _ j (swap_le (by omega) (by omega) before) behind inside

include trans refl in
theorem Settled.pop (settled : Settled r v (stop + 1) n) (heap : HeapFrom r v 0 (stop + 1)) :
    Settled r (v ∘ Equiv.swap 0 stop) stop n := by
  intro i j before behind inside
  simp only [Function.comp_apply]
  by_cases last : j = stop
  · subst last
    rw [Equiv.swap_apply_right]
    exact heap.top trans refl _ (Nat.lt_succ_of_le (swap_le (Nat.zero_le _) (Nat.le_refl _) before))
  · rw [@Equiv.swap_apply_of_ne_of_ne _ _ 0 stop j (by omega) last]
    exact settled _ j (swap_le (Nat.zero_le _) behind before) (by omega) inside

/-- Changing the places of two values permutes the list of all. -/
theorem range_map_swap_perm {a b : Nat} (ha : a < n) (hb : b < n) :
    ((List.range n).map (v ∘ Equiv.swap a b)).Perm ((List.range n).map v) := by
  rw [← List.map_map]
  apply List.Perm.map
  have distinct : ((List.range n).map (Equiv.swap a b)).Nodup :=
    List.nodup_range.map (Equiv.injective _)
  rw [List.perm_ext_iff_of_nodup distinct List.nodup_range]
  intro i
  rw [List.mem_map]
  constructor
  · rintro ⟨j, member, rfl⟩
    rw [List.mem_range] at member ⊢
    have below := @swap_le a b j (n - 1) (by omega) (by omega) (by omega)
    omega
  · intro member
    rw [List.mem_range] at member
    refine ⟨Equiv.swap a b i, ?_, Equiv.swap_apply_self a b i⟩
    have below := @swap_le a b i (n - 1) (by omega) (by omega) (by omega)
    rw [List.mem_range]
    omega

end Empty

end Opal.Heap
