import Mathlib.Data.List.Basic
import Mathlib.Order.Basic

/-!
# Lists of separated ranges

A free list keeps ranges in order with a gap between any two neighbours.  How often a list
of ranges covers a point is counted, so that a partition of an interval into several lists
is one equation.
-/

namespace Opal.Library

structure Range where
  addr : Nat
  len : Nat
  deriving DecidableEq, Repr

namespace Range

def stop (r : Range) : Nat := r.addr + r.len

def Has (r : Range) (a : Nat) : Prop := r.addr ≤ a ∧ a < r.stop

instance (r : Range) (a : Nat) : Decidable (r.Has a) := by
  unfold Has
  infer_instance

/-- The first range ends before the second begins, and does not touch it. -/
def Before (r s : Range) : Prop := r.stop < s.addr

end Range

/-- How many of the ranges contain the point. -/
def covers (ranges : List Range) (a : Nat) : Nat := ranges.countP (·.Has a)

section Covers

variable {ranges more : List Range} {r s t : Range} {a : Nat}

@[simp]
theorem covers_nil : covers [] a = 0 := rfl

@[simp]
theorem covers_cons : covers (r :: ranges) a = (if r.Has a then 1 else 0) + covers ranges a := by
  unfold covers
  rw [List.countP_cons, Nat.add_comm]
  simp

@[simp]
theorem covers_append : covers (ranges ++ more) a = covers ranges a + covers more a :=
  List.countP_append

theorem covers_pos (member : r ∈ ranges) (has : r.Has a) : 0 < covers ranges a :=
  List.countP_pos_iff.mpr ⟨r, member, decide_eq_true has⟩

/-- A range counts as much as the two parts it is cut into. -/
theorem has_of_parts (start : t.addr = r.addr) (middle : r.stop = s.addr)
    (finish : t.stop = s.stop) :
    (if t.Has a then 1 else 0) = (if r.Has a then 1 else 0) + (if s.Has a then 1 else 0) := by
  have left : r.addr ≤ r.stop := Nat.le_add_right _ _
  have right : s.addr ≤ s.stop := Nat.le_add_right _ _
  simp only [Range.Has, start, finish, ← middle] at right ⊢
  by_cases low : r.addr ≤ a
  · by_cases inFirst : a < r.stop
    · have notSecond : ¬r.stop ≤ a := Nat.not_le.mpr inFirst
      simp [low, inFirst, notSecond, Nat.lt_of_lt_of_le inFirst right]
    · simp [inFirst, low, Nat.not_lt.mp inFirst]
  · have notSecond : ¬r.stop ≤ a := fun reached => low (Nat.le_trans left reached)
    simp [low, notSecond]

end Covers

section Separated

variable {before after : List Range} {r s t : Range}

/-- A range in the middle of a separated list is replaced by one between its neighbours. -/
theorem pairwise_replace (sorted : (before ++ r :: after).Pairwise Range.Before)
    (low : r.addr ≤ t.addr) (high : t.stop ≤ r.stop) :
    (before ++ t :: after).Pairwise Range.Before := by
  rw [List.pairwise_append, List.pairwise_cons] at *
  obtain ⟨left, ⟨lower, right⟩, across⟩ := sorted
  refine ⟨left, ⟨fun s member => Nat.lt_of_le_of_lt high (lower s member), right⟩, ?_⟩
  intro q inBefore s member
  rcases List.mem_cons.mp member with rfl | later
  · exact Nat.lt_of_lt_of_le (across q inBefore r List.mem_cons_self) low
  · exact across q inBefore s (List.mem_cons_of_mem _ later)

theorem pairwise_remove (sorted : (before ++ r :: after).Pairwise Range.Before) :
    (before ++ after).Pairwise Range.Before :=
  sorted.sublist ((List.sublist_cons_self r after).append_left before)

/-- A range is put between two parts of a separated list that it does not touch. -/
theorem pairwise_insert (sorted : (before ++ after).Pairwise Range.Before)
    (low : ∀ q ∈ before, q.Before t) (high : ∀ s ∈ after, t.Before s) :
    (before ++ t :: after).Pairwise Range.Before := by
  rw [List.pairwise_append] at *
  refine ⟨sorted.1, List.pairwise_cons.mpr ⟨high, sorted.2.1⟩, ?_⟩
  intro q inBefore s member
  rcases List.mem_cons.mp member with rfl | later
  · exact low q inBefore
  · exact sorted.2.2 q inBefore s later

end Separated

end Opal.Library
