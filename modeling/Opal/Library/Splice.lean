import Mathlib.Data.List.Basic

/-!
# Writing into a list

`splice old pos new` is a list with another one written over it from a position on.
-/

namespace Opal.Library

universe u

variable {α : Type u} {old new : List α} {pos : Nat}

def splice (old : List α) (pos : Nat) (new : List α) : List α :=
  old.take pos ++ new ++ old.drop (pos + new.length)

theorem splice_nil : splice old pos [] = old := by
  rw [splice, List.append_nil, List.length_nil, Nat.add_zero, List.take_append_drop]

theorem length_splice (fits : pos + new.length ≤ old.length) :
    (splice old pos new).length = old.length := by
  rw [splice, List.length_append, List.length_append, List.length_take_of_le (by omega),
    List.length_drop]
  omega

/-- What was written ends the part before the rest of the old list. -/
theorem take_splice (fits : pos + new.length ≤ old.length) :
    (splice old pos new).take (pos + new.length) = old.take pos ++ new := by
  have length : (old.take pos ++ new).length = pos + new.length := by
    rw [List.length_append, List.length_take_of_le (by omega)]
  rw [splice, List.take_append_of_le_length (Nat.le_of_eq length.symm), ← length,
    List.take_length]

end Opal.Library
