import Mathlib.Data.Nat.Basic
import Mathlib.Tactic.Ring

/-!
# Bytes of memory

A region of memory is a function from offsets to bytes.  `copyInto` is `memcpy`, `word`
reads a little-endian number and `bytesOf` writes one down.
-/

namespace Opal

abbrev Memory := Nat → UInt8

namespace Memory

variable {mem mem' source : Memory} {pos size : Nat}

/-- `memcpy(mem + pos, source, size)`. -/
def copyInto (mem : Memory) (pos size : Nat) (source : Memory) : Memory :=
  fun i => if pos ≤ i ∧ i < pos + size then source (i - pos) else mem i

/-- `memset(mem + pos, value, size)`. -/
def fill (mem : Memory) (pos size : Nat) (value : UInt8) : Memory :=
  fun i => if pos ≤ i ∧ i < pos + size then value else mem i

/-- The region that starts at an offset. -/
def region (mem : Memory) (pos : Nat) : Memory := fun i => mem (pos + i)

theorem copyInto_inside {i : Nat} (inside : i < size) :
    copyInto mem pos size source (pos + i) = source i := by
  unfold copyInto
  rw [if_pos ⟨Nat.le_add_right pos i, Nat.add_lt_add_left inside pos⟩, Nat.add_sub_cancel_left]

theorem copyInto_outside {i : Nat} (outside : i < pos ∨ pos + size ≤ i) :
    copyInto mem pos size source i = mem i := by
  unfold copyInto
  rw [if_neg (by omega)]

theorem fill_inside {value : UInt8} {i : Nat} (first : pos ≤ i) (last : i < pos + size) :
    fill mem pos size value i = value := if_pos ⟨first, last⟩

theorem fill_outside {value : UInt8} {i : Nat} (outside : i < pos ∨ pos + size ≤ i) :
    fill mem pos size value i = mem i := by
  unfold fill
  rw [if_neg (by omega)]

/-- The little-endian number in `width` bytes. -/
def word (mem : Memory) (pos : Nat) : Nat → Nat
  | 0 => 0
  | width + 1 => (mem pos).toNat + 256 * word mem (pos + 1) width

/-- The little-endian bytes of a number. -/
def bytesOf (value : Nat) : Memory := fun i => UInt8.ofNat (value / 256 ^ i)

theorem word_congr {width : Nat} {pos' : Nat}
    (same : ∀ i < width, mem' (pos' + i) = mem (pos + i)) :
    word mem' pos' width = word mem pos width := by
  induction width generalizing pos pos' with
  | zero => rfl
  | succ width inductionHypothesis =>
      have first : mem' pos' = mem pos := by simpa using same 0 (Nat.succ_pos width)
      have rest : word mem' (pos' + 1) width = word mem (pos + 1) width :=
        inductionHypothesis fun i lower => by
          have next := same (i + 1) (Nat.succ_lt_succ lower)
          rwa [← Nat.add_assoc, ← Nat.add_assoc, Nat.add_right_comm, Nat.add_right_comm pos] at next
      rw [word, word, first, rest]

theorem word_bytesOf (value width : Nat) (shift : Nat) :
    word (bytesOf value) shift width = value / 256 ^ shift % 256 ^ width := by
  induction width generalizing shift with
  | zero => simp [word, Nat.mod_one]
  | succ width inductionHypothesis =>
      rw [word, inductionHypothesis, bytesOf, UInt8.toNat_ofNat', Nat.pow_succ 256 width,
        Nat.pow_succ 256 shift, Nat.mul_comm (256 ^ width), Nat.mod_mul, Nat.div_div_eq_div_mul]

theorem word_lt (width : Nat) : word mem pos width < 256 ^ width := by
  induction width generalizing pos with
  | zero => simp [word]
  | succ width inductionHypothesis =>
      have byte := (mem pos).toNat_lt
      have rest := @inductionHypothesis (pos + 1)
      rw [word, Nat.pow_succ]
      omega

/-- A number determines its bytes. -/
theorem word_injective {width : Nat} (same : word mem' pos width = word mem pos width) :
    ∀ i < width, mem' (pos + i) = mem (pos + i) := by
  induction width generalizing pos with
  | zero => exact fun _ lower => absurd lower (Nat.not_lt_zero _)
  | succ width inductionHypothesis =>
      have byte := (mem pos).toNat_lt
      have byte' := (mem' pos).toNat_lt
      rw [word, word] at same
      have first : (mem' pos).toNat = (mem pos).toNat := by omega
      have rest : word mem' (pos + 1) width = word mem (pos + 1) width := by omega
      intro i lower
      cases i with
      | zero => exact UInt8.toNat_inj.mp first
      | succ i =>
          have next := inductionHypothesis rest i (Nat.lt_of_succ_lt_succ lower)
          rwa [Nat.add_right_comm] at next

end Memory

end Opal
