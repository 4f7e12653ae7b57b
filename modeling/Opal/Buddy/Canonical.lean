import Opal.Buddy.Conservation
import Opal.Library.Coalesced

/-!
# The free lists are determined by the free pages

The free blocks of a balanced state are a coalesced family over its free pages, so two
states with the same free pages have the same blocks in every list.  A release turns the
pages of its block into free pages and no others, hence neither the order of several
releases nor the pieces in which a block is released shows afterwards.
-/

namespace Opal.Buddy

open Opal.Library

section Unique

variable {map : SectionMap} {s s' : State} {taken taken' : Nat → Prop}

theorem Balanced.coalesced (balanced : Balanced map s taken) :
    Coalesced s.maxOrder (FreePage s) (Free s) where
  order := balanced.core.order
  aligned := balanced.core.aligned
  apart := balanced.core.apart
  covers := fun _ => Iff.rfl
  noPair := balanced.noPair

theorem Balanced.freePage_iff (balanced : Balanced map s taken) (x : Nat) :
    FreePage s x ↔ Usable map x ∧ ¬ taken x := by
  have cover := balanced.cover x
  have apart := balanced.apart x
  tauto

/-- Two balanced states with the same free pages have the same blocks in every list. -/
theorem Balanced.perm (balanced : Balanced map s taken) (balanced' : Balanced map s' taken')
    (maxOrder : s'.maxOrder = s.maxOrder) (same : ∀ x, FreePage s x ↔ FreePage s' x)
    (order : Nat) : (s.freeList order).Perm (s'.freeList order) := by
  have pages : FreePage s' = FreePage s := funext fun x => propext (same x).symm
  have coalesced' : Coalesced s.maxOrder (FreePage s) (Free s') := by
    have own := balanced'.coalesced
    rwa [maxOrder, pages] at own
  refine
    (List.perm_ext_iff_of_nodup (balanced.core.nodup order) (balanced'.core.nodup order)).mpr ?_
  intro pfn
  exact balanced.coalesced.unique coalesced' ⟨pfn, order⟩

end Unique

section Pieces

variable {map : SectionMap}

/-- `buddy_free` of one block after the other. -/
def freeAll (map : SectionMap) (s : State) (blocks : List Block) : Option State :=
  blocks.foldlM (fun s b => buddyFree map s b.start b.order) s

/-- Separate aligned pieces of held blocks. -/
structure Pieces (held : Finset Block) (blocks : List Block) : Prop where
  aligned : ∀ b ∈ blocks, b.Aligned
  inside : ∀ b ∈ blocks, ∃ c ∈ held, ∀ x, b.Has x → c.Has x
  apart : blocks.Pairwise Block.Apart

/-- The page is in one of the blocks. -/
def CoveredBy (blocks : List Block) (x : Nat) : Prop := ∃ b ∈ blocks, b.Has x

theorem order_le_of_inside {b c : Block} (inside : ∀ x, b.Has x → c.Has x) : b.order ≤ c.order := by
  have first := inside b.start b.has_start
  have last : b.Has (b.start + b.size - 1) := by
    have positive := b.size_pos
    constructor <;> omega
  have sizes : b.size ≤ c.size := by
    have end_ := inside _ last
    have positive := b.size_pos
    simp only [Block.Has] at first end_
    omega
  exact (Nat.pow_le_pow_iff_right (by decide)).mp sizes

/-- Releasing separate taken blocks passes all assertions and gives back their pages. -/
theorem freeAll_spec (ok : WellFormed map) {blocks : List Block} {s : State} {taken : Nat → Prop}
    (balanced : Balanced map s taken) (counted : s.freePages = listedPages s)
    (order : ∀ b ∈ blocks, b.order ≤ s.maxOrder) (aligned : ∀ b ∈ blocks, b.Aligned)
    (inside : ∀ b ∈ blocks, ∀ x, b.Has x → taken x) (apart : blocks.Pairwise Block.Apart) :
    ∃ s', freeAll map s blocks = some s' ∧ s'.maxOrder = s.maxOrder ∧
      Balanced map s' fun x => taken x ∧ ¬ CoveredBy blocks x := by
  induction blocks generalizing s taken with
  | nil =>
      refine ⟨s, rfl, rfl, balanced.congr fun x => ?_⟩
      simp [CoveredBy]
  | cons b rest inductionHypothesis =>
      obtain ⟨separate, apart'⟩ := List.pairwise_cons.mp apart
      obtain ⟨s₁, freed, maxOrder, counted₁, -, balanced₁⟩ := buddyFree_spec ok balanced counted
        (order b List.mem_cons_self) (aligned b List.mem_cons_self) (inside b List.mem_cons_self)
      obtain ⟨s₂, rest₂, maxOrder₂, balanced₂⟩ := inductionHypothesis balanced₁ counted₁
        (fun c member => maxOrder ▸ order c (List.mem_cons_of_mem _ member))
        (fun c member => aligned c (List.mem_cons_of_mem _ member))
        (fun c member x has => ⟨inside c (List.mem_cons_of_mem _ member) x has,
          (separate c member).symm x has⟩) apart'
      refine ⟨s₂, ?_, maxOrder₂.trans maxOrder, balanced₂.congr fun x => ?_⟩
      · rw [freeAll, List.foldlM_cons, freed]
        exact rest₂
      · simp only [CoveredBy, List.mem_cons, or_and_right, exists_or, exists_eq_left, not_or,
          and_assoc]

/-- The largest order is the one `buddy_create` chose. -/
theorem Reaches.maxOrder_eq (ok : WellFormed map) {created s : State} {held : Finset Block}
    (start : buddyCreate map = some created) (reached : Reaches map s held) :
    s.maxOrder = created.maxOrder := by
  induction reached with
  | create eq =>
      cases start.symm.trans eq
      rfl
  | @fail s held order s' reached eq inductionHypothesis =>
      have inv := reached.invariant ok
      rcases buddyAlloc_spec ok inv.balanced inv.counter order with same | ⟨pfn, t, eq', valid, -⟩
      · cases eq.symm.trans same
        exact inductionHypothesis
      · cases eq.symm.trans eq'
        exact absurd valid (lt_irrefl _)
  | @alloc s held order pfn s' reached eq valid inductionHypothesis =>
      have inv := reached.invariant ok
      rcases buddyAlloc_spec ok inv.balanced inv.counter order with
        same | ⟨p, t, eq', -, -, -, -, maxOrder, -⟩
      · cases eq.symm.trans same
        exact absurd rfl valid
      · cases eq.symm.trans eq'
        exact maxOrder.trans inductionHypothesis
  | halve _ _ inductionHypothesis => exact inductionHypothesis
  | @free s held b s' reached mem eq inductionHypothesis =>
      have inv := reached.invariant ok
      obtain ⟨t, eq', maxOrder, -⟩ := buddyFree_spec ok inv.balanced inv.counter
        (inv.order b mem) (inv.aligned b mem) fun x has => ⟨b, mem, has⟩
      cases eq.symm.trans eq'
      exact maxOrder.trans inductionHypothesis

/-- In all states that allocations and releases reach from `buddy_create`, the lists depend on
the free pages only; and releasing held blocks as a whole or in aligned pieces, in any order,
succeeds and ends with the same blocks in every list. -/
theorem canonical (map : SectionMap) (ok : WellFormed map) :
    (∀ s held s' held', Reaches map s held → Reaches map s' held' →
      (∀ x, FreePage s x ↔ FreePage s' x) →
      ∀ order, (s.freeList order).Perm (s'.freeList order)) ∧
    ∀ s held, Reaches map s held → ∀ blocks blocks', Pieces held blocks → Pieces held blocks' →
      (∀ x, CoveredBy blocks x ↔ CoveredBy blocks' x) →
      ∃ t t', freeAll map s blocks = some t ∧ freeAll map s blocks' = some t' ∧
        ∀ order, (t.freeList order).Perm (t'.freeList order) := by
  constructor
  · intro s held s' held' reached reached' same
    obtain ⟨created, start, -⟩ := buddyCreate_spec ok
    have maxOrder : s'.maxOrder = s.maxOrder :=
      (reached'.maxOrder_eq ok start).trans (reached.maxOrder_eq ok start).symm
    exact (reached.invariant ok).balanced.perm (reached'.invariant ok).balanced maxOrder same
  · intro s held reached blocks blocks' pieces pieces' same
    have inv := reached.invariant ok
    have release (blocks : List Block) (pieces : Pieces held blocks) :=
      freeAll_spec ok inv.balanced inv.counter
        (fun b member => by
          obtain ⟨c, memberC, inside⟩ := pieces.inside b member
          exact (order_le_of_inside inside).trans (inv.order c memberC))
        pieces.aligned
        (fun b member x has => by
          obtain ⟨c, memberC, inside⟩ := pieces.inside b member
          exact ⟨c, memberC, inside x has⟩)
        pieces.apart
    obtain ⟨t, freed, maxOrder, balanced⟩ := release blocks pieces
    obtain ⟨t', freed', maxOrder', balanced'⟩ := release blocks' pieces'
    refine ⟨t, t', freed, freed', balanced.perm balanced' (maxOrder'.trans maxOrder.symm) ?_⟩
    intro x
    rw [balanced.freePage_iff, balanced'.freePage_iff, same]

/-- Two usable sections around a metadata section. -/
def twoSections : SectionMap :=
  [⟨0x1000, 0x5000, .usable⟩, ⟨0x6000, 0x1000, .metadata⟩, ⟨0x7000, 0x9000, .usable⟩]

/-- A block of two pages is released as a whole, and page by page from the upper one on. -/
theorem canonical_twoSections : ∃ s t t', Reaches twoSections s {⟨4, 1⟩} ∧
    freeAll twoSections s [⟨4, 1⟩] = some t ∧ freeAll twoSections s [⟨5, 0⟩, ⟨4, 0⟩] = some t' ∧
    ∀ order, (t.freeList order).Perm (t'.freeList order) := by
  have ok : WellFormed twoSections := by
    refine ⟨?_, ?_, ?_, ?_⟩ <;> simp [twoSections, pageSize]
  obtain ⟨-, release⟩ := canonical twoSections ok
  have found : ((buddyCreate twoSections).bind fun s => buddyAlloc twoSections s 1).map
      (·.1) = some 4 := by decide +kernel
  obtain ⟨⟨pfn, s⟩, ran, rfl⟩ := Option.map_eq_some_iff.mp found
  obtain ⟨created, start, allocated⟩ := Option.bind_eq_some_iff.mp ran
  have reached : Reaches twoSections s {⟨4, 1⟩} := by
    have next := (Reaches.create start).alloc allocated (by decide)
    rwa [insert_empty_eq] at next
  have whole : Pieces {⟨4, 1⟩} [⟨4, 1⟩] := by
    refine ⟨?_, ?_, ?_⟩ <;> simp [Block.Aligned, Block.size]
  have single : Pieces {⟨4, 1⟩} [⟨5, 0⟩, ⟨4, 0⟩] := by
    refine ⟨?_, ?_, ?_⟩
    · simp [Block.Aligned, Block.size]
    · simp only [List.mem_cons, List.not_mem_nil, or_false, forall_eq_or_imp, forall_eq,
        Finset.mem_singleton, exists_eq_left, Block.Has, Block.size]
      exact ⟨fun x has => by omega, fun x has => by omega⟩
    · refine List.pairwise_pair.mpr fun x upper lower => ?_
      simp only [Block.Has, Block.size] at upper lower
      omega
  obtain ⟨t, t', freed, freed', same⟩ := release s {⟨4, 1⟩} reached _ _ whole single (by
    intro x
    simp only [CoveredBy, List.mem_cons, List.not_mem_nil, or_false, exists_eq_or_imp,
      exists_eq_left, Block.Has, Block.size]
    omega)
  exact ⟨s, t, t', reached, freed, freed', same⟩

end Pieces

end Opal.Buddy
