import Mathlib.Data.List.Basic
import Mathlib.Logic.Function.Basic

/-!
# Copies one after the other

A list of moves copies cells of a memory one after the other.  If no move reads or writes a
cell that an earlier one wrote, the moves together are one simultaneous copy.
-/

namespace Opal.Library

universe u v

variable {ι : Type u} {α : Type v} [DecidableEq ι]

/-- A cell to be written and the cell it is read from. -/
structure Move (ι : Type u) where
  target : ι
  source : ι

namespace Move

def apply (f : ι → α) (move : Move ι) : ι → α := Function.update f move.target (f move.source)

/-- The later move does not touch what the earlier one wrote. -/
def Before (earlier later : Move ι) : Prop :=
  later.source ≠ earlier.target ∧ later.target ≠ earlier.target

end Move

theorem foldl_apply_other {moves : List (Move ι)} {f : ι → α} {cell : ι}
    (other : ∀ move ∈ moves, move.target ≠ cell) : moves.foldl Move.apply f cell = f cell := by
  induction moves generalizing f with
  | nil => rfl
  | cons move rest inductionHypothesis =>
      have apart : cell ≠ move.target := (other move List.mem_cons_self).symm
      calc
        rest.foldl Move.apply (move.apply f) cell = move.apply f cell :=
          inductionHypothesis fun later member => other later (List.mem_cons_of_mem _ member)
        _ = f cell := Function.update_of_ne apart ..

/-- What no move reads stays where it is, so every other cell keeps the value they all share. -/
theorem foldl_apply_unread {moves : List (Move ι)} {f : ι → α} {source cell : ι} {value : α}
    (unread : ∀ move ∈ moves, move.source ≠ source) (shared : ∀ c ≠ source, f c = value)
    (differs : cell ≠ source) : moves.foldl Move.apply f cell = value := by
  induction moves generalizing f with
  | nil => exact shared cell differs
  | cons move rest inductionHypothesis =>
      refine inductionHypothesis (fun later member => unread later (List.mem_cons_of_mem _ member))
        fun c apart => ?_
      unfold Move.apply
      by_cases written : c = move.target
      · subst written
        rw [Function.update_self]
        exact shared move.source (unread move List.mem_cons_self)
      · rw [Function.update_of_ne written]
        exact shared c apart

theorem foldl_apply_self {moves : List (Move ι)} {f : ι → α}
    (still : ∀ move ∈ moves, move.target = move.source) : moves.foldl Move.apply f = f := by
  induction moves with
  | nil => rfl
  | cons move rest inductionHypothesis =>
      rw [List.foldl_cons, Move.apply, still move List.mem_cons_self, Function.update_eq_self]
      exact inductionHypothesis fun later member => still later (List.mem_cons_of_mem _ member)

theorem foldl_apply_target {moves : List (Move ι)} {f : ι → α} {move : Move ι}
    (ordered : moves.Pairwise Move.Before) (member : move ∈ moves) :
    moves.foldl Move.apply f move.target = f move.source := by
  induction moves generalizing f with
  | nil => cases member
  | cons first rest inductionHypothesis =>
      obtain ⟨before, ordered⟩ := List.pairwise_cons.mp ordered
      rcases List.mem_cons.mp member with rfl | member
      · calc
          rest.foldl Move.apply (move.apply f) move.target = move.apply f move.target :=
            foldl_apply_other fun later member => (before later member).2
          _ = f move.source := Function.update_self ..
      · calc
          rest.foldl Move.apply (first.apply f) move.target = first.apply f move.source :=
            inductionHypothesis ordered member
          _ = f move.source := Function.update_of_ne (before move member).1 ..

end Opal.Library
