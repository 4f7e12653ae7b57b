import Opal.Library.Bytes
import Mathlib.Data.List.Pairwise

/-!
# Computations that read a memory

A computation returns a value together with the places it has read on the way, so that one can say
where it reads.  `Within limit` bounds all of them; its rules follow the sequencing.
-/

namespace Opal

universe u

/-- A value and the places that were read for it. -/
structure Reading (α : Type u) where
  value : α
  places : List Nat

namespace Reading

variable {α β : Type} {mem : Memory} {limit : Nat}

instance : Monad Reading where
  pure value := { value := value, places := [] }
  bind x f := { value := (f x.value).value, places := x.places ++ (f x.value).places }

/-- The byte at a place. -/
def byte (mem : Memory) (place : Nat) : Reading UInt8 := { value := mem place, places := [place] }

/-- The little-endian number in the bytes from a place on. -/
def word (mem : Memory) (place width : Nat) : Reading Nat where
  value := mem.word place width
  places := List.range' place width

/-- The bytes from a place on, `size` of which are read. -/
def window (mem : Memory) (place size : Nat) : Reading Memory where
  value := mem.region place
  places := List.range' place size

@[simp]
theorem value_pure {value : α} : (pure value : Reading α).value = value := rfl

@[simp]
theorem value_bind {x : Reading α} {f : α → Reading β} : (x >>= f).value = (f x.value).value := rfl

@[simp]
theorem value_byte {place : Nat} : (byte mem place).value = mem place := rfl

@[simp]
theorem value_word {place width : Nat} : (word mem place width).value = mem.word place width := rfl

@[simp]
theorem value_window {place size : Nat} : (window mem place size).value = mem.region place := rfl

/-- Every place read lies before the limit. -/
def Within (limit : Nat) (x : Reading α) : Prop := ∀ place ∈ x.places, place < limit

@[simp]
theorem within_pure {value : α} : (pure value : Reading α).Within limit ↔ True :=
  iff_true_intro fun _ absent => absurd absent List.not_mem_nil

@[simp]
theorem within_bind {x : Reading α} {f : α → Reading β} :
    (x >>= f).Within limit ↔ x.Within limit ∧ (f x.value).Within limit :=
  List.forall_mem_append

@[simp]
theorem within_byte {place : Nat} : (byte mem place).Within limit ↔ place < limit :=
  List.forall_mem_singleton

theorem within_word {place width : Nat} (inside : place + width ≤ limit) :
    (word mem place width).Within limit := by
  intro read member
  have bounds := List.mem_range'_1.mp member
  exact Nat.lt_of_lt_of_le bounds.2 inside

theorem within_window {place size : Nat} (inside : place + size ≤ limit) :
    (window mem place size).Within limit := by
  intro read member
  have bounds := List.mem_range'_1.mp member
  exact Nat.lt_of_lt_of_le bounds.2 inside

theorem not_within_word {place width : Nat} (positive : 0 < width)
    (outside : limit < place + width) : ¬ (word mem place width).Within limit := by
  intro within
  have last := within (place + width - 1) (List.mem_range'_1.mpr (by omega))
  omega

/-- Compares bytes with what they should be, up to the first that differs. -/
def bytesAre (mem : Memory) : List (Nat × UInt8) → Reading Bool
  | [] => pure true
  | (place, expected) :: rest => do
      let value ← byte mem place
      if value ≠ expected then pure false else bytesAre mem rest

theorem value_bytesAre (expected : List (Nat × UInt8)) :
    (bytesAre mem expected).value = true ↔ ∀ field ∈ expected, mem field.1 = field.2 := by
  induction expected with
  | nil => simp [bytesAre]
  | cons field rest inductionHypothesis =>
      obtain ⟨place, expected⟩ := field
      by_cases same : mem place = expected
      · simp [bytesAre, same, inductionHypothesis]
      · simp [bytesAre, same]

/-- The comparison stays before the limit when all bytes do, or when one that does differs. -/
theorem within_bytesAre {expected : List (Nat × UInt8)}
    (increasing : expected.Pairwise fun a b => a.1 < b.1) :
    (bytesAre mem expected).Within limit ↔ (∀ field ∈ expected, field.1 < limit) ∨
      ∃ field ∈ expected, field.1 < limit ∧ mem field.1 ≠ field.2 := by
  induction expected with
  | nil => simp [bytesAre]
  | cons field rest inductionHypothesis =>
      obtain ⟨above, ordered⟩ := List.pairwise_cons.mp increasing
      have later := inductionHypothesis ordered
      obtain ⟨place, expected⟩ := field
      rw [bytesAre, within_bind, within_byte, value_byte]
      by_cases same : mem place = expected
      · rw [if_neg (not_not.mpr same), later]
        constructor
        · rintro ⟨here, all | ⟨field, member, inside, differs⟩⟩
          · exact .inl (List.forall_mem_cons.mpr ⟨here, all⟩)
          · exact .inr ⟨field, List.mem_cons_of_mem _ member, inside, differs⟩
        · rintro (all | ⟨field, member, inside, differs⟩)
          · obtain ⟨here, rest⟩ := List.forall_mem_cons.mp all
            exact ⟨here, .inl rest⟩
          · rcases List.mem_cons.mp member with rfl | member
            · exact absurd same differs
            · have here := Nat.lt_trans (above field member) inside
              exact ⟨here, .inr ⟨field, member, inside, differs⟩⟩
      · rw [if_pos same, within_pure, and_true]
        constructor
        · exact fun here => .inr ⟨_, List.mem_cons_self, here, same⟩
        · rintro (all | ⟨field, member, inside, -⟩)
          · exact all _ List.mem_cons_self
          · rcases List.mem_cons.mp member with rfl | member
            · exact inside
            · exact Nat.lt_trans (above field member) inside

end Reading

end Opal
