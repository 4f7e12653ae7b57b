import Opal.Slab.Slots
import Mathlib.Data.List.Perm.Subperm

/-!
# The slots of a page

The chain of free slots starts at the head that the page header keeps and names each free
slot once; all other slots are live.  Taking the first slot of the chain and putting a live
one in front of it keep the page formatted.
-/

namespace Opal.Slab

section Chain

variable {slab : Slab} {mem mem' : Memory} {page head i : Nat} {free rest : List Nat}

/-- The headers of the free slots link them in this order, from `head` on. -/
def Chained (slab : Slab) (mem : Memory) (page : Nat) : Nat → List Nat → Prop
  | head, [] => head = 0
  | head, i :: rest => head = slotAt slab i ∧
      ∃ next, FreeSlot slab mem (slotObject slab page i) next ∧ Chained slab mem page next rest

theorem Chained.congr (geometry : Geometry slab) (chained : Chained slab mem page head free)
    (same : ∀ i ∈ free, ∀ addr, InSlot slab (slotObject slab page i) addr →
      mem' addr = mem addr) : Chained slab mem' page head free := by
  induction free generalizing head with
  | nil => exact chained
  | cons i rest inductionHypothesis =>
      obtain ⟨first, next, slot, links⟩ := chained
      refine ⟨first, next, slot.congr geometry (same i List.mem_cons_self), ?_⟩
      exact inductionHypothesis links fun j member => same j (List.mem_cons_of_mem _ member)

theorem Chained.head_eq_zero_iff (geometry : Geometry slab)
    (chained : Chained slab mem page head free) : head = 0 ↔ free = [] := by
  cases free with
  | nil => exact ⟨fun _ => rfl, fun _ => chained⟩
  | cons i rest =>
      have place := geometry.offset
      have nonzero : head ≠ 0 := by
        rw [chained.1]
        simp only [slotAt, sizeofSlabPage] at *
        omega
      exact ⟨fun zero => absurd zero nonzero, fun empty => absurd empty (List.cons_ne_nil _ _)⟩

theorem Geometry.slotAt_small (geometry : Geometry slab) (below : i < slab.pageCapacity) :
    slotAt slab i < 2 ^ 15 := by
  have place := (geometry.slotAt_le below).2
  simp only [pageSize] at place
  omega

theorem Chained.head_small (geometry : Geometry slab)
    (chained : Chained slab mem page head free) (below : ∀ i ∈ free, i < slab.pageCapacity) :
    head < 2 ^ 15 := by
  cases free with
  | nil => rw [show head = 0 from chained]; decide
  | cons i rest =>
      rw [chained.1]
      exact geometry.slotAt_small (below i List.mem_cons_self)

end Chain

section Formatted

variable {slab : Slab} {mem mem' : Memory} {page head i : Nat} {free rest : List Nat}

/-- The slots of the page, of which those in `free` are free. -/
structure Formatted (slab : Slab) (mem : Memory) (page head : Nat) (free : List Nat) : Prop where
  nodup : free.Nodup
  below : ∀ i ∈ free, i < slab.pageCapacity
  chained : Chained slab mem page head free
  live : ∀ i < slab.pageCapacity, i ∉ free → LiveSlot slab mem (slotObject slab page i)

/-- Only payloads of live slots may change. -/
theorem Formatted.congr (geometry : Geometry slab) (formatted : Formatted slab mem page head free)
    (same : ∀ i < slab.pageCapacity, ∀ addr, InSlot slab (slotObject slab page i) addr →
      (i ∉ free → ¬ InPayload slab (slotObject slab page i) addr) → mem' addr = mem addr) :
    Formatted slab mem' page head free where
  nodup := formatted.nodup
  below := formatted.below
  chained := formatted.chained.congr geometry fun i member addr inside =>
    same i (formatted.below i member) addr inside fun absent => absurd member absent
  live := fun i below absent => (formatted.live i below absent).congr geometry
    fun addr inside out => same i below addr inside fun _ => out

theorem Formatted.length_le (formatted : Formatted slab mem page head free) :
    free.length ≤ slab.pageCapacity := by
  have inRange : free ⊆ List.range slab.pageCapacity := fun i member =>
    List.mem_range.mpr (formatted.below i member)
  have bound := (List.Nodup.subperm formatted.nodup inRange).length_le
  rwa [List.length_range] at bound

/-- A page with a live slot has fewer free slots than slots. -/
theorem Formatted.length_lt (formatted : Formatted slab mem page head free)
    (below : i < slab.pageCapacity) (absent : i ∉ free) : free.length < slab.pageCapacity := by
  have all : ∀ j ∈ i :: free, j < slab.pageCapacity :=
    List.forall_mem_cons.mpr ⟨below, formatted.below⟩
  have inRange : i :: free ⊆ List.range slab.pageCapacity := fun j member =>
    List.mem_range.mpr (all j member)
  have bound := (List.Nodup.subperm (List.nodup_cons.mpr ⟨absent, formatted.nodup⟩)
    inRange).length_le
  rwa [List.length_range] at bound

theorem Formatted.all_free (formatted : Formatted slab mem page head free)
    (length : free.length = slab.pageCapacity) : ∀ i < slab.pageCapacity, i ∈ free := by
  intro i below
  by_contra absent
  exact absurd length (Nat.ne_of_lt (formatted.length_lt below absent))

/-- A page with fewer free slots than slots has a live one. -/
theorem Formatted.exists_live (formatted : Formatted slab mem page head free)
    (fewer : free.length < slab.pageCapacity) : ∃ i < slab.pageCapacity, i ∉ free := by
  by_contra full
  push Not at full
  have all : List.range slab.pageCapacity ⊆ free := fun i member =>
    full i (List.mem_range.mp member)
  have bound := (List.Nodup.subperm List.nodup_range all).length_le
  rw [List.length_range] at bound
  omega

/-- The first slot of the chain becomes live. -/
theorem Formatted.take (geometry : Geometry slab)
    (formatted : Formatted slab mem page head (i :: rest))
    (becomes : Becomes slab mem mem' (slotObject slab page i) fun mem' =>
      LiveSlot slab mem' (slotObject slab page i)) :
    Formatted slab mem' page (nextFree mem (slotObject slab page i)) rest := by
  obtain ⟨-, next, slot, links⟩ := formatted.chained
  obtain ⟨absent, nodup⟩ := List.nodup_cons.mp formatted.nodup
  have others : ∀ j ≠ i, ∀ addr, InSlot slab (slotObject slab page j) addr →
      mem' addr = mem addr := fun j differs addr inside =>
    becomes.outside addr (slot_apart differs inside)
  refine ⟨nodup, fun j member => formatted.below j (List.mem_cons_of_mem _ member), ?_, ?_⟩
  · rw [slot.link]
    refine links.congr geometry fun j member addr inside => others j ?_ addr inside
    exact fun same => absent (same ▸ member)
  · intro j below out
    by_cases own : j = i
    · exact own ▸ becomes.state
    · have absent' : j ∉ i :: rest := by simp [own, out]
      exact (formatted.live j below absent').congr geometry fun addr inside _ =>
        others j own addr inside

/-- A live slot is put in front of the chain. -/
theorem Formatted.give (geometry : Geometry slab) (formatted : Formatted slab mem page head free)
    (below : i < slab.pageCapacity) (absent : i ∉ free)
    (becomes : Becomes slab mem mem' (slotObject slab page i) fun mem' =>
      FreeSlot slab mem' (slotObject slab page i) head) :
    Formatted slab mem' page (slotAt slab i) (i :: free) := by
  have others : ∀ j ≠ i, ∀ addr, InSlot slab (slotObject slab page j) addr →
      mem' addr = mem addr := fun j differs addr inside =>
    becomes.outside addr (slot_apart differs inside)
  refine ⟨List.nodup_cons.mpr ⟨absent, formatted.nodup⟩, ?_, ⟨rfl, head, becomes.state, ?_⟩, ?_⟩
  · intro j member
    rcases List.mem_cons.mp member with rfl | old
    · exact below
    · exact formatted.below j old
  · refine formatted.chained.congr geometry fun j member addr inside => others j ?_ addr inside
    exact fun same => absent (same ▸ member)
  · intro j belowJ out
    have differs := List.ne_of_not_mem_cons out
    have old := List.not_mem_of_not_mem_cons out
    exact (formatted.live j belowJ old).congr geometry fun addr inside _ =>
      others j differs addr inside

end Formatted

section Create

variable {slab : Slab} {heap : Heap} {page n : Nat} {free : List Nat}

/-- What formatting a page leaves alone. -/
structure OnlyPage (page : Nat) (heap heap' : Heap) : Prop where
  bytes : ∀ addr, ¬ (page ≤ addr ∧ addr < page + pageSize) → heap'.bytes addr = heap.bytes addr
  pages : ∀ other ≠ page, heap'.pages other = heap.pages other
  held : heap'.held = heap.held
  owner : (heap'.pages page).owner = (heap.pages page).owner
  inuse : (heap'.pages page).inuse = (heap.pages page).inuse

theorem OnlyPage.trans {heap' heap'' : Heap} (first : OnlyPage page heap heap')
    (second : OnlyPage page heap' heap'') : OnlyPage page heap heap'' where
  bytes := fun addr out => (second.bytes addr out).trans (first.bytes addr out)
  pages := fun other differs => (second.pages other differs).trans (first.pages other differs)
  held := second.held.trans first.held
  owner := second.owner.trans first.owner
  inuse := second.inuse.trans first.inuse

/-- The loop formats the slots below `n`, when those from `n` on are chained already. -/
theorem formatLoop_spec (geometry : Geometry slab) (le : n ≤ slab.pageCapacity)
    (nodup : free.Nodup) (mem_iff : ∀ i, i ∈ free ↔ n ≤ i ∧ i < slab.pageCapacity)
    (chained : Chained slab heap.bytes page (heap.pages page).freeHead free) :
    ∃ free', Formatted slab (formatLoop slab page n heap).bytes page
        ((formatLoop slab page n heap).pages page).freeHead free' ∧
      (∀ i, i ∈ free' ↔ i < slab.pageCapacity) ∧
      OnlyPage page heap (formatLoop slab page n heap) := by
  induction n generalizing heap free with
  | zero =>
      have all : ∀ i, i ∈ free ↔ i < slab.pageCapacity := fun i => by simp [mem_iff i]
      refine ⟨free, ⟨nodup, fun i => (all i).mp, chained, ?_⟩, all, ?_⟩
      · exact fun i below absent => absurd ((all i).mpr below) absent
      · exact ⟨fun _ _ => rfl, fun _ _ => rfl, rfl, rfl, rfl⟩
  | succ n inductionHypothesis =>
      have below : n < slab.pageCapacity := le
      have small := chained.head_small geometry fun i member => ((mem_iff i).mp member).2
      have becomes := @format_slot slab heap.bytes (slotObject slab page n) _ geometry small
      have absent : n ∉ free := fun member =>
        absurd ((mem_iff n).mp member).1 (Nat.not_succ_le_self n)
      have bytes : (formatSlot slab page n heap).bytes = fillUnusedPayload slab (fillRedzones slab
          (setIsFree (setNextFree heap.bytes (slotObject slab page n)
            (heap.pages page).freeHead) (slotObject slab page n) true)
          (slotObject slab page n)) (slotObject slab page n) := rfl
      have pages : (formatSlot slab page n heap).pages = Function.update heap.pages page
          { heap.pages page with freeHead := slotAt slab n } := by
        rw [← geometry.hdrToOffset_eq below]
        rfl
      have held : (formatSlot slab page n heap).held = heap.held := rfl
      rw [formatLoop]
      generalize formatSlot slab page n heap = next at *
      rw [← bytes] at becomes
      have chained' : Chained slab next.bytes page (next.pages page).freeHead (n :: free) := by
        rw [pages, Function.update_self]
        refine ⟨rfl, _, becomes.state, chained.congr geometry fun i member addr inside => ?_⟩
        refine becomes.outside addr (slot_apart ?_ inside)
        exact fun same => absent (same ▸ member)
      have only : OnlyPage page heap next := by
        refine ⟨fun addr out => becomes.outside addr fun inside => ?_, ?_, held, ?_, ?_⟩
        · have place := geometry.inPage_of_slot below inside
          exact out ⟨by omega, place.2⟩
        · intro other differs
          rw [pages, Function.update_of_ne differs]
        · rw [pages, Function.update_self]
        · rw [pages, Function.update_self]
      obtain ⟨free', formatted, all, only'⟩ := inductionHypothesis (Nat.le_of_succ_le le)
        (List.nodup_cons.mpr ⟨absent, nodup⟩) (fun i => by
          rw [List.mem_cons, mem_iff i]
          omega) chained'
      exact ⟨free', formatted, all, only.trans only'⟩

end Create

end Opal.Slab
