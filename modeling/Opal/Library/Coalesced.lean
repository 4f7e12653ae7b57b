import Opal.Library.Dyadic

/-!
# Coalesced families of dyadic blocks

A family of disjoint aligned blocks is coalesced when no two buddies below the largest
order are both in it.  Such a family is determined by the numbers it covers: its members
are the maximal aligned blocks among these numbers.
-/

namespace Opal.Library

namespace Block

theorem Aligned.has_iff {b : Block} (aligned : b.Aligned) (x : Nat) :
    b.Has x ↔ x / b.size = b.start / b.size := by
  obtain ⟨n, start⟩ := aligned
  have positive := b.size_pos
  rw [start, Nat.mul_div_cancel_left n positive, Nat.div_eq_iff positive, Has, start, mul_comm]
  omega

theorem Aligned.eq_of_has {b c : Block} (alignedB : b.Aligned) (alignedC : c.Aligned)
    (order : b.order = c.order) {x : Nat} (hasB : b.Has x) (hasC : c.Has x) : b = c := by
  have size : b.size = c.size := congrArg (2 ^ ·) order
  have quotients : b.start / b.size = c.start / b.size := by
    rw [← (alignedB.has_iff x).mp hasB, size, ← (alignedC.has_iff x).mp hasC]
  have starts : b.start = c.start := by
    rw [← Nat.mul_div_cancel' alignedB, quotients, size, Nat.mul_div_cancel' alignedC]
  cases b
  cases c
  simp_all

/-- Of two aligned blocks that meet, the one of the larger order contains the other. -/
theorem Aligned.nested {b c : Block} (alignedB : b.Aligned) (alignedC : c.Aligned)
    (order : b.order ≤ c.order) {x : Nat} (hasB : b.Has x) (hasC : c.Has x) {y : Nat}
    (has : b.Has y) : c.Has y := by
  have same : y / b.size = x / b.size :=
    ((alignedB.has_iff y).mp has).trans ((alignedB.has_iff x).mp hasB).symm
  have coarser (z : Nat) : z / c.size = z / b.size / 2 ^ (c.order - b.order) := by
    rw [Nat.div_div_eq_div_mul, size, size, ← pow_add, Nat.add_sub_cancel' order]
  rw [alignedC.has_iff, coarser y, same, ← coarser x]
  exact (alignedC.has_iff x).mp hasC

end Block

section Coalesced

variable {maxOrder : Nat} {covered : Nat → Prop} {family family' : Block → Prop}

/-- Disjoint aligned blocks over the covered numbers, no two of which could be merged. -/
structure Coalesced (maxOrder : Nat) (covered : Nat → Prop) (family : Block → Prop) : Prop where
  order : ∀ b, family b → b.order ≤ maxOrder
  aligned : ∀ b, family b → b.Aligned
  apart : ∀ b c, family b → family c → b ≠ c → b.Apart c
  covers : ∀ x, covered x ↔ ∃ b, family b ∧ b.Has x
  noPair : ∀ b, family b → b.order < maxOrder → ¬ family b.buddy

/-- An aligned block of covered numbers that is not part of a larger one. -/
structure Maximal (maxOrder : Nat) (covered : Nat → Prop) (b : Block) : Prop where
  order : b.order ≤ maxOrder
  aligned : b.Aligned
  inside : ∀ x, b.Has x → covered x
  largest : b.order < maxOrder → ∃ x, b.parent.Has x ∧ ¬ covered x

/-- A block of covered numbers lies in a member: the halves of a block that is in no member
would be buddies of the family. -/
theorem Coalesced.exists_around (coalesced : Coalesced maxOrder covered family) (p k : Nat)
    (order : k ≤ maxOrder) (aligned : (⟨p, k⟩ : Block).Aligned)
    (inside : ∀ x, (⟨p, k⟩ : Block).Has x → covered x) :
    ∃ c, family c ∧ k ≤ c.order ∧ ∀ x, (⟨p, k⟩ : Block).Has x → c.Has x := by
  induction k generalizing p with
  | zero =>
      obtain ⟨c, member, has⟩ := (coalesced.covers p).mp (inside p (Block.has_start ⟨p, 0⟩))
      refine ⟨c, member, Nat.zero_le _, fun x single => ?_⟩
      have same : x = p := by
        simp only [Block.Has, Block.size] at single
        omega
      exact same ▸ has
  | succ k inductionHypothesis =>
      have whole := Block.has_halves p k
      have below : k ≤ maxOrder := Nat.le_of_succ_le order
      have lowerAligned := aligned.of_le (Nat.le_succ k)
      obtain ⟨low, lowMember, lowOrder, lowInside⟩ := inductionHypothesis p below lowerAligned
        fun x has => inside x ((whole x).mpr (.inl has))
      obtain ⟨high, highMember, highOrder, highInside⟩ :=
        inductionHypothesis (p + 2 ^ k) below aligned.upper
          fun x has => inside x ((whole x).mpr (.inr has))
      have lowStart := lowInside p (Block.has_start ⟨p, k⟩)
      have highStart := highInside (p + 2 ^ k) (Block.has_start ⟨p + 2 ^ k, k⟩)
      rcases Nat.lt_or_eq_of_le lowOrder with larger | sameLow
      · refine ⟨low, lowMember, larger, fun x has => ?_⟩
        exact aligned.nested (coalesced.aligned low lowMember) larger
          ((whole p).mpr (.inl (Block.has_start ⟨p, k⟩))) lowStart has
      · rcases Nat.lt_or_eq_of_le highOrder with larger | sameHigh
        · refine ⟨high, highMember, larger, fun x has => ?_⟩
          exact aligned.nested (coalesced.aligned high highMember) larger
            ((whole _).mpr (.inr (Block.has_start ⟨p + 2 ^ k, k⟩))) highStart has
        · -- both halves are members themselves
          have lower : (⟨p, k⟩ : Block) = low := lowerAligned.eq_of_has
            (coalesced.aligned low lowMember) sameLow (Block.has_start ⟨p, k⟩) lowStart
          have upper : (⟨p + 2 ^ k, k⟩ : Block) = high := aligned.upper.eq_of_has
            (coalesced.aligned high highMember) sameHigh (Block.has_start ⟨p + 2 ^ k, k⟩) highStart
          have pair := coalesced.noPair ⟨p, k⟩ (lower ▸ lowMember) (Nat.lt_of_succ_le order)
          rw [aligned.buddy_lower] at pair
          exact absurd (upper ▸ highMember) pair

/-- The members are the maximal blocks. -/
theorem Coalesced.mem_iff (coalesced : Coalesced maxOrder covered family) (b : Block) :
    family b ↔ Maximal maxOrder covered b := by
  constructor
  · intro member
    have aligned := coalesced.aligned b member
    refine ⟨coalesced.order b member, aligned, fun x has =>
      (coalesced.covers x).mpr ⟨b, member, has⟩,
      fun below => ?_⟩
    by_contra whole
    push Not at whole
    obtain ⟨c, memberC, larger, around⟩ := coalesced.exists_around b.parent.start b.parent.order
      below aligned.parent whole
    have differs : b ≠ c := by
      rintro rfl
      exact absurd larger (Nat.not_succ_le_self b.order)
    have start : b.parent.Has b.start := (aligned.has_parent _).mpr (.inl b.has_start)
    exact coalesced.apart b c member memberC differs b.start b.has_start (around _ start)
  · intro maximal
    obtain ⟨c, member, order, around⟩ :=
      coalesced.exists_around b.start b.order maximal.order maximal.aligned maximal.inside
    have aligned := coalesced.aligned c member
    rcases Nat.lt_or_eq_of_le order with larger | same
    · have below : b.order < maxOrder := Nat.lt_of_lt_of_le larger (coalesced.order c member)
      obtain ⟨x, inParent, uncovered⟩ := maximal.largest below
      have start : b.parent.Has b.start := (maximal.aligned.has_parent _).mpr (.inl b.has_start)
      have inC : c.Has x := maximal.aligned.parent.nested aligned larger start
        (around _ b.has_start) inParent
      exact absurd ((coalesced.covers x).mpr ⟨c, member, inC⟩) uncovered
    · have equal := maximal.aligned.eq_of_has aligned same b.has_start (around _ b.has_start)
      exact equal ▸ member

theorem Coalesced.unique (coalesced : Coalesced maxOrder covered family)
    (coalesced' : Coalesced maxOrder covered family') (b : Block) : family b ↔ family' b :=
  (coalesced.mem_iff b).trans (coalesced'.mem_iff b).symm

end Coalesced

end Opal.Library
