import Mathlib.Logic.Function.Basic

/-!
# Bitmaps in words

A set of numbers is kept in words of `w` bits each.  The searches go word by word and skip
those with nothing to find: upwards for the first bit that is clear, downwards for the last
one that is set.
-/

namespace Opal.Bitmap

variable {w : Nat} {words : Nat → BitVec w} {i j : Nat}

def bit (words : Nat → BitVec w) (i : Nat) : Bool := (words (i / w)).getLsbD (i % w)

def setBit (words : Nat → BitVec w) (i : Nat) : Nat → BitVec w :=
  Function.update words (i / w) (words (i / w) ||| (1#w <<< (i % w)))

def clearBit (words : Nat → BitVec w) (i : Nat) : Nat → BitVec w :=
  Function.update words (i / w) (words (i / w) &&& ~~~(1#w <<< (i % w)))

theorem getLsbD_one_shiftLeft {k b : Nat} (positive : 0 < w) (inside : k < w) :
    (1#w <<< b).getLsbD k = decide (k = b) := by
  rw [BitVec.getLsbD_shiftLeft, BitVec.getLsbD_one, Bool.eq_iff_iff]
  simp only [Bool.and_eq_true, Bool.not_eq_true', decide_eq_true_eq, decide_eq_false_iff_not]
  omega

theorem same_word_iff (same : j / w = i / w) : j % w = i % w ↔ j = i := by
  constructor
  · intro offset
    rw [← Nat.div_add_mod j w, ← Nat.div_add_mod i w, same, offset]
  · intro equal
    rw [equal]

theorem bit_setBit (positive : 0 < w) :
    bit (setBit words i) j = (decide (j = i) || bit words j) := by
  unfold bit setBit
  by_cases same : j / w = i / w
  · rw [same, Function.update_self, BitVec.getLsbD_or,
      getLsbD_one_shiftLeft positive (Nat.mod_lt _ positive), Bool.or_comm]
    simp only [same_word_iff same]
  · have differs : j ≠ i := fun equal => same (congrArg (· / w) equal)
    rw [Function.update_of_ne same, decide_eq_false differs, Bool.false_or]

theorem bit_clearBit (positive : 0 < w) :
    bit (clearBit words i) j = (!decide (j = i) && bit words j) := by
  unfold bit clearBit
  by_cases same : j / w = i / w
  · rw [same, Function.update_self, BitVec.getLsbD_and, BitVec.getLsbD_not,
      getLsbD_one_shiftLeft positive (Nat.mod_lt _ positive), Bool.and_comm]
    simp only [same_word_iff same, Nat.mod_lt _ positive, decide_true, Bool.true_and]
  · have differs : j ≠ i := fun equal => same (congrArg (· / w) equal)
    rw [Function.update_of_ne same, decide_eq_false differs, Bool.not_false, Bool.true_and]

/-- The bits of one word. -/
theorem bit_of_word {idx b : Nat} (inside : b < w) :
    bit words (idx * w + b) = (words idx).getLsbD b := by
  have positive : 0 < w := Nat.zero_lt_of_lt inside
  unfold bit
  rw [Nat.mul_comm, Nat.mul_add_div positive, Nat.div_eq_of_lt inside, Nat.add_zero,
    Nat.mul_add_mod, Nat.mod_eq_of_lt inside]

/-- The first bit that is clear in the `n` words from `begin` on. -/
def firstClear (words : Nat → BitVec w) (begin n : Nat) : Option Nat :=
  (List.range' begin n).findSome? fun idx =>
    if words idx = BitVec.allOnes w then none
    else ((List.range w).find? fun b => !(words idx).getLsbD b).map fun b => idx * w + b

/-- The last bit that is set in the first `n` words. -/
def lastSet (words : Nat → BitVec w) (n : Nat) : Option Nat :=
  (List.range n).reverse.findSome? fun idx =>
    if words idx = 0#w then none
    else ((List.range w).reverse.find? fun b => (words idx).getLsbD b).map fun b => idx * w + b

theorem lt_word_iff {m idx b : Nat} (inside : b < w) :
    idx * w + b < m ↔ idx < m / w ∨ (idx = m / w ∧ b < m % w) := by
  have positive : 0 < w := Nat.zero_lt_of_lt inside
  have whole := Nat.div_add_mod m w
  have rest := Nat.mod_lt m positive
  rcases Nat.lt_trichotomy idx (m / w) with less | equal | greater
  · have next : (idx + 1) * w ≤ m / w * w := Nat.mul_le_mul_right w less
    rw [Nat.succ_mul] at next
    rw [Nat.mul_comm] at whole
    omega
  · subst equal
    rw [Nat.mul_comm] at whole
    omega
  · have next : (m / w + 1) * w ≤ idx * w := Nat.mul_le_mul_right w greater
    rw [Nat.succ_mul] at next
    rw [Nat.mul_comm] at whole
    omega

theorem word_lt_iff {m idx b : Nat} (inside : b < w) :
    m < idx * w + b ↔ m / w < idx ∨ (m / w = idx ∧ m % w < b) := by
  have positive : 0 < w := Nat.zero_lt_of_lt inside
  have whole := Nat.div_add_mod m w
  have rest := Nat.mod_lt m positive
  rw [Nat.mul_comm] at whole
  rcases Nat.lt_trichotomy (m / w) idx with less | equal | greater
  · have next : (m / w + 1) * w ≤ idx * w := Nat.mul_le_mul_right w less
    rw [Nat.succ_mul] at next
    omega
  · subst equal
    omega
  · have next : (idx + 1) * w ≤ m / w * w := Nat.mul_le_mul_right w greater
    rw [Nat.succ_mul] at next
    omega

theorem firstClear_eq {m begin n : Nat} (positive : 0 < w) (clear : bit words m = false)
    (low : begin ≤ m / w) (high : m / w < begin + n)
    (least : ∀ j, begin * w ≤ j → j < m → bit words j = true) :
    firstClear words begin n = some m := by
  induction n generalizing begin with
  | zero => omega
  | succ n inductionHypothesis =>
      have inWord : m % w < w := Nat.mod_lt m positive
      have whole : m / w * w + m % w = m := by
        rw [Nat.mul_comm]
        exact Nat.div_add_mod m w
      unfold firstClear
      rw [List.range'_succ, List.findSome?_cons]
      rcases Nat.lt_or_eq_of_le low with later | here
      · -- all bits of the first word come before the one looked for
        have full : words begin = BitVec.allOnes w := by
          refine BitVec.eq_of_getLsbD_eq fun b inside => ?_
          rw [← bit_of_word inside, least _ (Nat.le_add_right _ _)
            ((lt_word_iff inside).mpr (.inl later)), BitVec.getLsbD_allOnes, decide_eq_true inside]
        rw [if_pos full]
        refine inductionHypothesis (by omega) (by omega) fun j lower => least j ?_
        rw [Nat.succ_mul] at lower
        omega
      · have found : (List.range w).find? (fun b => !(words begin).getLsbD b) = some (m % w) := by
          rw [List.find?_range_eq_some]
          refine ⟨?_, List.mem_range.mpr inWord, fun b lower => ?_⟩
          · rw [here, ← bit_of_word inWord, whole, clear]
            rfl
          · have inside : b < w := Nat.lt_trans lower inWord
            rw [← bit_of_word inside, least _ (Nat.le_add_right _ _)
              ((lt_word_iff inside).mpr (.inr ⟨here, lower⟩))]
            rfl
        have some : words begin ≠ BitVec.allOnes w := by
          intro full
          rw [← whole, ← here, bit_of_word inWord, full, BitVec.getLsbD_allOnes,
            decide_eq_true inWord] at clear
          cases clear
        rw [if_neg some, found, Option.map_some, here, whole]

theorem find?_reverse_range {p : Nat → Bool} {n b : Nat} (holds : p b = true) (inside : b < n)
    (last : ∀ c, b < c → c < n → p c = false) : (List.range n).reverse.find? p = some b := by
  induction n with
  | zero => omega
  | succ n inductionHypothesis =>
      rw [List.range_succ, List.reverse_append, List.reverse_singleton, List.singleton_append,
        List.find?_cons]
      rcases Nat.lt_or_eq_of_le (Nat.le_of_lt_succ inside) with lower | here
      · rw [last n lower (Nat.lt_succ_self n)]
        exact inductionHypothesis lower fun c above below => last c above (by omega)
      · rw [← here, holds]

theorem lastSet_eq_some {m n : Nat} (positive : 0 < w) (set : bit words m = true)
    (high : m / w < n) (last : ∀ j, m < j → j / w < n → bit words j = false) :
    lastSet words n = some m := by
  induction n with
  | zero => exact absurd high (Nat.not_lt_zero _)
  | succ n inductionHypothesis =>
      have inWord : m % w < w := Nat.mod_lt m positive
      have whole : m / w * w + m % w = m := by
        rw [Nat.mul_comm]
        exact Nat.div_add_mod m w
      have above : ∀ b < w, m / w < n ∨ (m / w = n ∧ m % w < b) → (words n).getLsbD b = false := by
        intro b inside later
        have inRange : (n * w + b) / w = n := by
          rw [Nat.mul_comm, Nat.mul_add_div positive, Nat.div_eq_of_lt inside, Nat.add_zero]
        rw [← bit_of_word inside]
        exact last _ ((word_lt_iff inside).mpr later) (by omega)
      unfold lastSet
      rw [List.range_succ, List.reverse_append, List.reverse_singleton, List.singleton_append,
        List.findSome?_cons]
      rcases Nat.lt_or_eq_of_le (Nat.le_of_lt_succ high) with lower | here
      · have empty : words n = 0#w := by
          refine BitVec.eq_of_getLsbD_eq fun b inside => ?_
          rw [above b inside (.inl lower), BitVec.getLsbD_zero]
        rw [if_pos empty]
        exact inductionHypothesis lower fun j later below => last j later (by omega)
      · have own : (words n).getLsbD (m % w) = true := by
          rw [← here, ← bit_of_word inWord, whole, set]
        have nonzero : words n ≠ 0#w := by
          intro empty
          rw [empty, BitVec.getLsbD_zero] at own
          cases own
        have found : (List.range w).reverse.find? (fun b => (words n).getLsbD b) = some (m % w) :=
          find?_reverse_range own inWord fun b later inside => above b inside (.inr ⟨here, later⟩)
        rw [if_neg nonzero, found, Option.map_some, ← here, whole]

theorem lastSet_eq_none {n : Nat} (positive : 0 < w)
    (clear : ∀ j, j / w < n → bit words j = false) :
    lastSet words n = none := by
  refine List.findSome?_eq_none_iff.mpr fun idx member => if_pos ?_
  have below : idx < n := List.mem_range.mp (List.mem_reverse.mp member)
  refine BitVec.eq_of_getLsbD_eq fun b inside => ?_
  rw [← bit_of_word inside, BitVec.getLsbD_zero]
  refine clear _ ?_
  rw [Nat.mul_comm, Nat.mul_add_div positive, Nat.div_eq_of_lt inside, Nat.add_zero]
  exact below

end Opal.Bitmap
