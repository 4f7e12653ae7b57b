import Mathlib.Data.Nat.Bitwise
import Mathlib.Algebra.Order.Group.Nat
import Mathlib.Algebra.Order.Ring.Nat

/-!
# Dyadic blocks of natural numbers

A block of order `k` has `2 ^ k` members.  It is aligned when its start is a
multiple of its size.  The buddy of an aligned block is the other half of the
block of the next order that contains it.
-/

namespace Opal.Library

structure Block where
  start : Nat
  order : Nat
  deriving DecidableEq, Repr

namespace Block

def size (b : Block) : Nat := 2 ^ b.order

def Has (b : Block) (x : Nat) : Prop := b.start ≤ x ∧ x < b.start + b.size

instance (b : Block) (x : Nat) : Decidable (b.Has x) :=
  inferInstanceAs (Decidable (_ ∧ _))

def Aligned (b : Block) : Prop := b.size ∣ b.start

def Apart (b c : Block) : Prop := ∀ x, b.Has x → ¬ c.Has x

def buddy (b : Block) : Block := ⟨b.start ^^^ b.size, b.order⟩

/-- The block of the next order around a block and its buddy. -/
def parent (b : Block) : Block := ⟨min b.start (b.start ^^^ b.size), b.order + 1⟩

theorem size_pos (b : Block) : 0 < b.size := Nat.pow_pos (by decide)

theorem has_start (b : Block) : b.Has b.start :=
  ⟨le_refl _, Nat.lt_add_of_pos_right b.size_pos⟩

theorem Apart.symm {b c : Block} (apart : b.Apart c) : c.Apart b :=
  fun x inC inB => apart x inB inC

theorem Apart.ne {b c : Block} (apart : b.Apart c) : b ≠ c := by
  rintro rfl
  exact apart b.start b.has_start b.has_start

theorem Apart.mono {b c d : Block} (apart : b.Apart c) (inside : ∀ x, d.Has x → b.Has x) :
    d.Apart c := fun x inD => apart x (inside x inD)

end Block

section Xor

theorem xor_two_pow_of_even (m k : Nat) :
    (2 ^ (k + 1) * m) ^^^ 2 ^ k = 2 ^ (k + 1) * m + 2 ^ k := by
  have small : 2 ^ k < 2 ^ (k + 1) := Nat.pow_lt_pow_right (by decide) (Nat.lt_succ_self k)
  apply Nat.eq_of_testBit_eq
  intro i
  rw [Nat.testBit_xor, Nat.testBit_two_pow_mul_add m small]
  by_cases low : i < k + 1
  · rw [if_pos low, Nat.testBit_two_pow_mul]
    simp [Nat.not_le.mpr low]
  · rw [if_neg low, Nat.testBit_two_pow_mul, Nat.testBit_two_pow]
    have above : ¬ k = i := by omega
    simp [above, Nat.not_lt.mp low]

theorem xor_two_pow_of_odd (m k : Nat) :
    (2 ^ (k + 1) * m + 2 ^ k) ^^^ 2 ^ k = 2 ^ (k + 1) * m := by
  rw [← xor_two_pow_of_even, Nat.xor_assoc, Nat.xor_self, Nat.xor_zero]

end Xor

namespace Block

/-- An aligned block is the lower or the upper half of its parent. -/
theorem Aligned.cases {b : Block} (aligned : b.Aligned) :
    ∃ m, (b.start = 2 ^ (b.order + 1) * m ∧ b.start ^^^ b.size = b.start + b.size) ∨
      (b.start = 2 ^ (b.order + 1) * m + b.size ∧
        b.start ^^^ b.size = 2 ^ (b.order + 1) * m) := by
  obtain ⟨n, eq⟩ := aligned
  refine ⟨n / 2, ?_⟩
  have split := Nat.div_add_mod n 2
  have double : b.size * (2 * (n / 2)) = 2 ^ (b.order + 1) * (n / 2) := by
    rw [pow_succ, mul_assoc, size]
  rcases Nat.mod_two_eq_zero_or_one n with even | odd
  · left
    have start : b.start = 2 ^ (b.order + 1) * (n / 2) := by
      rw [← double, eq]
      congr 1
      omega
    refine ⟨start, ?_⟩
    rw [start]
    exact xor_two_pow_of_even _ _
  · right
    have start : b.start = 2 ^ (b.order + 1) * (n / 2) + b.size := by
      rw [← double, eq, ← Nat.mul_succ]
      congr 1
      omega
    refine ⟨start, ?_⟩
    rw [start]
    exact xor_two_pow_of_odd _ _

theorem size_parent (b : Block) : b.parent.size = b.size + b.size := by
  rw [size, parent, pow_succ, mul_two]
  rfl

theorem Aligned.parent {b : Block} (aligned : b.Aligned) : b.parent.Aligned := by
  obtain ⟨m, ⟨start, buddy⟩ | ⟨start, buddy⟩⟩ := aligned.cases
  · refine ⟨m, ?_⟩
    rw [Block.parent, buddy, min_eq_left (Nat.le_add_right _ _)]
    exact start
  · refine ⟨m, ?_⟩
    rw [Block.parent, buddy, min_eq_right (by rw [start]; exact Nat.le_add_right _ _)]
    rfl

theorem Aligned.has_parent {b : Block} (aligned : b.Aligned) (x : Nat) :
    b.parent.Has x ↔ b.Has x ∨ b.buddy.Has x := by
  simp only [Has, size_parent]
  have sameSize : b.buddy.size = b.size := rfl
  rw [sameSize, Block.parent, Block.buddy]
  obtain ⟨m, ⟨start, buddy⟩ | ⟨start, buddy⟩⟩ := aligned.cases
  · rw [buddy, min_eq_left (Nat.le_add_right _ _)]
    simp only
    omega
  · rw [buddy, min_eq_right (by rw [start]; exact Nat.le_add_right _ _)]
    simp only
    omega

theorem Aligned.apart_buddy {b : Block} (aligned : b.Aligned) : b.Apart b.buddy := by
  rintro x ⟨low, high⟩ ⟨lowBuddy, highBuddy⟩
  rw [show b.buddy.size = b.size from rfl] at highBuddy
  simp only [Block.buddy] at lowBuddy highBuddy
  obtain ⟨m, ⟨start, buddy⟩ | ⟨start, buddy⟩⟩ := aligned.cases
  · omega
  · omega

theorem buddy_buddy (b : Block) : b.buddy.buddy = b := by
  simp only [buddy, size, Nat.xor_assoc, Nat.xor_self, Nat.xor_zero]

theorem Aligned.buddy {b : Block} (aligned : b.Aligned) : b.buddy.Aligned := by
  obtain ⟨m, ⟨start, buddy⟩ | ⟨start, buddy⟩⟩ := aligned.cases
  · show b.size ∣ b.start ^^^ b.size
    rw [buddy]
    exact Nat.dvd_add aligned (dvd_refl _)
  · show b.size ∣ b.start ^^^ b.size
    rw [buddy, pow_succ, mul_assoc]
    exact Nat.dvd_mul_right _ _

/-- The lower half of its parent starts at a multiple of the next power. -/
theorem Aligned.buddy_of_dvd {b : Block} (aligned : b.Aligned)
    (even : 2 ^ (b.order + 1) ∣ b.start) :
    b.buddy.start = b.start + b.size := by
  obtain ⟨m, ⟨-, buddy⟩ | ⟨start, -⟩⟩ := aligned.cases
  · exact buddy
  · rw [start, Nat.dvd_add_right (Nat.dvd_mul_right _ _)] at even
    have small : b.size < 2 ^ (b.order + 1) :=
      Nat.pow_lt_pow_right (by decide) (Nat.lt_succ_self _)
    exact absurd (Nat.le_of_dvd b.size_pos even) (not_le.mpr small)

section Halves

variable {p k l : Nat}

theorem Aligned.of_le (aligned : (⟨p, l⟩ : Block).Aligned) (le : k ≤ l) :
    (⟨p, k⟩ : Block).Aligned := dvd_trans (pow_dvd_pow 2 le) aligned

theorem Has.of_le {x : Nat} (has : (⟨p, k⟩ : Block).Has x) (le : k ≤ l) :
    (⟨p, l⟩ : Block).Has x := by
  have grows : 2 ^ k ≤ 2 ^ l := Nat.pow_le_pow_right (by decide) le
  simp only [Has, size] at has ⊢
  omega

/-- A block consists of its lower and its upper half. -/
theorem has_halves (p k x : Nat) : (⟨p, k + 1⟩ : Block).Has x ↔
    (⟨p, k⟩ : Block).Has x ∨ (⟨p + 2 ^ k, k⟩ : Block).Has x := by
  simp only [Has, size, pow_succ, mul_two]
  omega

theorem apart_halves (p k : Nat) : (⟨p, k⟩ : Block).Apart ⟨p + 2 ^ k, k⟩ := by
  intro x
  simp only [Has, size]
  omega

theorem Aligned.buddy_lower (aligned : (⟨p, k + 1⟩ : Block).Aligned) :
    (⟨p, k⟩ : Block).buddy = ⟨p + 2 ^ k, k⟩ := by
  have start := (aligned.of_le (Nat.le_succ k)).buddy_of_dvd aligned
  simp only [Block.buddy] at start ⊢
  rw [start]
  rfl

theorem Aligned.upper (aligned : (⟨p, k + 1⟩ : Block).Aligned) :
    (⟨p + 2 ^ k, k⟩ : Block).Aligned :=
  Nat.dvd_add (aligned.of_le (Nat.le_succ k)) (dvd_refl _)

end Halves

end Block

end Opal.Library
