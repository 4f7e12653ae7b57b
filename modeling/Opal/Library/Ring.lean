import Mathlib.Data.Nat.ModEq
import Mathlib.Logic.Function.Basic

/-!
# Windows of a ring

A ring of `size` cells is a function of the cell number.  The window of `count` cells
from `start` on wraps around at the end of the ring.  Reading takes cells off its front,
writing the next cell puts one at its back.
-/

namespace Opal.Ring

variable {α : Type} {size start count : Nat} {cells : Nat → α}

def window (size : Nat) (cells : Nat → α) (start count : Nat) : List α :=
  (List.range count).map fun i => cells ((start + i) % size)

theorem length_window : (window size cells start count).length = count := by
  simp [window]

theorem window_zero : window size cells start 0 = [] := rfl

/-- The window without its first cell starts one cell later. -/
theorem window_succ (inside : start < size) :
    window size cells start (count + 1) =
      cells start :: window size cells ((start + 1) % size) count := by
  unfold window
  rw [List.range_succ_eq_map, List.map_cons, List.map_map, Nat.add_zero, Nat.mod_eq_of_lt inside]
  congr 1
  refine List.map_congr_left fun i _ => ?_
  simp only [Function.comp_apply, Nat.succ_eq_add_one, Nat.mod_add_mod]
  congr 2
  omega

/-- A window is cut into a first part and the window after it. -/
theorem window_add {more : Nat} :
    window size cells start (count + more) =
      window size cells start count ++ window size cells ((start + count) % size) more := by
  unfold window
  rw [List.range_add, List.map_append, List.map_map]
  congr 1
  refine List.map_congr_left fun i _ => ?_
  simp only [Function.comp_apply, Nat.mod_add_mod, Nat.add_assoc]

/-- Numbers of one lap are told apart by their cells. -/
theorem eq_of_mod_eq {low m n : Nat} (lowM : low ≤ m) (highM : m < low + size) (lowN : low ≤ n)
    (highN : n < low + size) (same : m % size = n % size) : m = n := by
  obtain ⟨i, rfl⟩ := Nat.exists_eq_add_of_le lowM
  obtain ⟨j, rfl⟩ := Nat.exists_eq_add_of_le lowN
  have shifted := Nat.ModEq.add_left_cancel' low (show Nat.ModEq size _ _ from same)
  rw [Nat.ModEq, Nat.mod_eq_of_lt (by omega), Nat.mod_eq_of_lt (by omega)] at shifted
  rw [shifted]

/-- The cell after the window is not in it while the ring is not full. -/
theorem window_push {value : α} (room : count < size) :
    window size (Function.update cells ((start + count) % size) value) start (count + 1) =
      window size cells start count ++ [value] := by
  unfold window
  rw [List.range_succ, List.map_append, List.map_singleton, Function.update_self]
  congr 1
  refine List.map_congr_left fun i member => Function.update_of_ne ?_ _ _
  have lower : i < count := List.mem_range.mp member
  intro same
  have := eq_of_mod_eq (Nat.le_add_right start i) (by omega) (Nat.le_add_right start count)
    (by omega) same
  omega

end Opal.Ring
