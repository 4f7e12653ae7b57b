import Mathlib.Data.List.Basic
import Mathlib.Data.List.Pairwise
import Mathlib.Order.Lattice

/-!
# Lists of segments

A map of an ordered space is a list of segments, each with a start and a stop, in order and
apart.  The segment at a point is found by walking along the list; replacing some neighbours
by others between the same bounds keeps the order and changes nothing elsewhere.
-/

namespace Opal.Library

/-- Where each element of a type starts and where it stops. -/
structure Extent (α β : Type*) where
  start : α → β
  stop : α → β

namespace Extent

variable {α β γ : Type*} [LinearOrder β] (extent : Extent α β)

def Has (x : α) (a : β) : Prop := extent.start x ≤ a ∧ a < extent.stop x

instance (x : α) (a : β) : Decidable (extent.Has x a) := inferInstanceAs (Decidable (_ ∧ _))

/-- In order, apart from each other, and none of them empty. -/
structure Apart (xs : List α) : Prop where
  sorted : xs.Pairwise fun x y => extent.stop x ≤ extent.start y
  positive : ∀ x ∈ xs, extent.start x < extent.stop x

/-- All segments lie between two points. -/
def Within (low high : β) (xs : List α) : Prop :=
  ∀ x ∈ xs, low ≤ extent.start x ∧ extent.stop x ≤ high

/-- The first segment that contains the point. -/
def segmentAt (xs : List α) (a : β) : Option α := xs.find? fun x => extent.Has x a

section Lookup

variable {extent} {xs ys before middle middle' after : List α} {x : α} {a low high : β}

@[simp]
theorem apart_nil : extent.Apart [] := ⟨List.Pairwise.nil, List.forall_mem_nil _⟩

theorem apart_append : extent.Apart (xs ++ ys) ↔ extent.Apart xs ∧ extent.Apart ys ∧
    ∀ x ∈ xs, ∀ y ∈ ys, extent.stop x ≤ extent.start y := by
  constructor
  · rintro ⟨sorted, positive⟩
    obtain ⟨left, right, across⟩ := List.pairwise_append.mp sorted
    obtain ⟨positiveLeft, positiveRight⟩ := List.forall_mem_append.mp positive
    exact ⟨⟨left, positiveLeft⟩, ⟨right, positiveRight⟩, across⟩
  · rintro ⟨left, right, across⟩
    exact ⟨List.pairwise_append.mpr ⟨left.sorted, right.sorted, across⟩,
      List.forall_mem_append.mpr ⟨left.positive, right.positive⟩⟩

theorem segmentAt_append :
    extent.segmentAt (xs ++ ys) a = (extent.segmentAt xs a).or (extent.segmentAt ys a) :=
  List.find?_append

theorem segmentAt_eq_none_iff : extent.segmentAt xs a = none ↔ ∀ x ∈ xs, ¬extent.Has x a := by
  simp only [segmentAt, List.find?_eq_none, decide_eq_true_eq]

/-- Two segments of a map that share a point are the same. -/
theorem Apart.unique (apart : extent.Apart xs) {x y : α} (member : x ∈ xs) (member' : y ∈ xs)
    (has : extent.Has x a) (has' : extent.Has y a) : x = y := by
  by_contra differs
  have ordered : ∀ {u v : α}, extent.Has u a → extent.Has v a →
      ¬extent.stop u ≤ extent.start v := by
    intro u v hasU hasV below
    exact absurd (lt_of_lt_of_le hasU.2 (le_trans below hasV.1)) (lt_irrefl a)
  have either : xs.Pairwise fun u v => ¬(extent.Has u a ∧ extent.Has v a) := by
    refine apart.sorted.imp ?_
    rintro u v below ⟨hasU, hasV⟩
    exact ordered hasU hasV below
  have symmetric : Std.Symm fun u v => ¬(extent.Has u a ∧ extent.Has v a) :=
    ⟨fun u v none_ both => none_ both.symm⟩
  exact either.forall member member' differs ⟨has, has'⟩

theorem of_segmentAt (found : extent.segmentAt xs a = some x) : x ∈ xs ∧ extent.Has x a := by
  have has := List.find?_some (p := fun x => decide (extent.Has x a)) found
  exact ⟨List.mem_of_find?_eq_some found, of_decide_eq_true has⟩

theorem Apart.segmentAt_eq_some_iff (apart : extent.Apart xs) :
    extent.segmentAt xs a = some x ↔ x ∈ xs ∧ extent.Has x a := by
  refine ⟨of_segmentAt, fun ⟨member, has⟩ => ?_⟩
  cases found : extent.segmentAt xs a with
  | none => exact absurd has (segmentAt_eq_none_iff.mp found x member)
  | some y =>
      obtain ⟨memberY, hasY⟩ := of_segmentAt found
      rw [apart.unique memberY member hasY has]

/-- Nothing is found outside the bounds of a map. -/
theorem Within.segmentAt_eq_none (within : extent.Within low high xs)
    (outside : ¬(low ≤ a ∧ a < high)) : extent.segmentAt xs a = none := by
  refine segmentAt_eq_none_iff.mpr fun x member has => outside ?_
  obtain ⟨above, below⟩ := within x member
  exact ⟨le_trans above has.1, lt_of_lt_of_le has.2 below⟩

theorem Within.mono {low' high' : β} (within : extent.Within low high xs) (lower : low' ≤ low)
    (higher : high ≤ high') : extent.Within low' high' xs := by
  intro x member
  obtain ⟨above, below⟩ := within x member
  exact ⟨le_trans lower above, le_trans below higher⟩

end Lookup

section Replacement

variable {extent} {before middle middle' after : List α} {a low high : β}

/-- The segments in the middle of a map are replaced by others between the same bounds. -/
theorem Apart.replace (apart : extent.Apart (before ++ (middle ++ after)))
    (apart' : extent.Apart middle') (within : extent.Within low high middle')
    (lower : ∀ x ∈ before, extent.stop x ≤ low) (upper : ∀ y ∈ after, high ≤ extent.start y) :
    extent.Apart (before ++ (middle' ++ after)) := by
  rw [apart_append, apart_append] at apart ⊢
  obtain ⟨left, ⟨-, right, -⟩, across⟩ := apart
  refine ⟨left, ⟨apart', right, fun x member y later => ?_⟩, fun x earlier y member => ?_⟩
  · exact le_trans (within x member).2 (upper y later)
  · rcases List.mem_append.mp member with inMiddle | later
    · exact le_trans (lower x earlier) (within y inMiddle).1
    · exact across x earlier y (List.mem_append_right middle later)

/-- A replacement is seen between its bounds only. -/
theorem segmentAt_replace (within : extent.Within low high middle)
    (within' : extent.Within low high middle') (outside : ¬(low ≤ a ∧ a < high)) :
    extent.segmentAt (before ++ (middle' ++ after)) a =
      extent.segmentAt (before ++ (middle ++ after)) a := by
  simp only [segmentAt_append, within.segmentAt_eq_none outside,
    within'.segmentAt_eq_none outside]

/-- Between the bounds of a replacement only the replacement is seen. -/
theorem segmentAt_middle (lower : ∀ x ∈ before, extent.stop x ≤ low)
    (upper : ∀ y ∈ after, high ≤ extent.start y) (inside : low ≤ a ∧ a < high) :
    extent.segmentAt (before ++ (middle ++ after)) a = extent.segmentAt middle a := by
  have earlier : extent.segmentAt before a = none := by
    refine segmentAt_eq_none_iff.mpr fun x member has => ?_
    exact absurd (lt_of_lt_of_le has.2 (le_trans (lower x member) inside.1)) (lt_irrefl a)
  have later : extent.segmentAt after a = none := by
    refine segmentAt_eq_none_iff.mpr fun y member has => ?_
    exact absurd (lt_of_lt_of_le inside.2 (le_trans (upper y member) has.1)) (lt_irrefl a)
  rw [segmentAt_append, segmentAt_append, earlier, later, Option.none_or, Option.or_none]

end Replacement

section Refinement

variable {extent} {outer : Extent γ β} {xs : List γ} {pieces : γ → List α} {a : β}

/-- Every segment of a map is divided into pieces. -/
theorem Apart.flatMap (apart : outer.Apart xs) (each : ∀ x ∈ xs, extent.Apart (pieces x))
    (within : ∀ x ∈ xs, extent.Within (outer.start x) (outer.stop x) (pieces x)) :
    extent.Apart (xs.flatMap pieces) := by
  induction xs with
  | nil => exact apart_nil
  | cons x rest inductionHypothesis =>
      obtain ⟨first, others⟩ := List.forall_mem_cons.mp each
      obtain ⟨inside, insideOthers⟩ := List.forall_mem_cons.mp within
      obtain ⟨ahead, sorted⟩ := List.pairwise_cons.mp apart.sorted
      have positive := (List.forall_mem_cons.mp apart.positive).2
      rw [List.flatMap_cons, apart_append]
      refine ⟨first, inductionHypothesis ⟨sorted, positive⟩ others insideOthers, ?_⟩
      intro p member q later
      obtain ⟨y, inRest, memberQ⟩ := List.mem_flatMap.mp later
      exact le_trans (inside p member).2
        (le_trans (ahead y inRest) (insideOthers y inRest q memberQ).1)

/-- What is found in a divided map is found in the pieces of what is found in the map. -/
theorem Apart.segmentAt_flatMap (apart : outer.Apart xs)
    (within : ∀ x ∈ xs, extent.Within (outer.start x) (outer.stop x) (pieces x)) :
    extent.segmentAt (xs.flatMap pieces) a =
      (outer.segmentAt xs a).bind fun x => extent.segmentAt (pieces x) a := by
  cases found : outer.segmentAt xs a with
  | none =>
      rw [Option.bind_none, segmentAt_eq_none_iff]
      intro p member has
      obtain ⟨x, inside, memberP⟩ := List.mem_flatMap.mp member
      obtain ⟨above, below⟩ := within x inside p memberP
      exact segmentAt_eq_none_iff.mp found x inside
        ⟨le_trans above has.1, lt_of_lt_of_le has.2 below⟩
  | some x =>
      obtain ⟨member, has⟩ := apart.segmentAt_eq_some_iff.mp found
      obtain ⟨before, after, rfl⟩ := List.append_of_mem member
      have split := apart_append.mp apart
      have ahead : ∀ p ∈ before.flatMap pieces, extent.stop p ≤ outer.start x := by
        intro p inPieces
        obtain ⟨y, inBefore, memberP⟩ := List.mem_flatMap.mp inPieces
        have inside := within y (List.mem_append_left _ inBefore) p memberP
        exact le_trans inside.2 (split.2.2 y inBefore x List.mem_cons_self)
      have behind : ∀ p ∈ after.flatMap pieces, outer.stop x ≤ extent.start p := by
        intro p inPieces
        obtain ⟨y, inAfter, memberP⟩ := List.mem_flatMap.mp inPieces
        have inside := within y (List.mem_append_right _ (List.mem_cons_of_mem _ inAfter)) p memberP
        exact le_trans (List.rel_of_pairwise_cons split.2.1.sorted inAfter) inside.1
      rw [List.flatMap_append, List.flatMap_cons, segmentAt_middle ahead behind has,
        Option.bind_some]

end Refinement

end Extent

section Search

variable {α : Type*}

/-- A search along a list divides it where it stops. -/
theorem findIdx_split (p : α → Bool) (xs : List α) :
    ∃ before after, xs = before ++ after ∧ xs.findIdx p = before.length ∧
      (∀ x ∈ before, p x = false) ∧ ∀ x ∈ after.head?, p x = true := by
  induction xs with
  | nil => exact ⟨[], [], rfl, rfl, by simp, by simp⟩
  | cons x rest inductionHypothesis =>
      cases holds : p x with
      | true =>
          exact ⟨[], x :: rest, rfl, by simp [List.findIdx_cons, holds], by simp, by simp [holds]⟩
      | false =>
          obtain ⟨before, after, split, index, fails, stops⟩ := inductionHypothesis
          refine ⟨x :: before, after, by rw [split, List.cons_append], ?_, ?_, stops⟩
          · simp [List.findIdx_cons, holds, index]
          · exact List.forall_mem_cons.mpr ⟨holds, fails⟩

theorem insertIdx_length (before after : List α) (x : α) :
    (before ++ after).insertIdx before.length x = before ++ x :: after := by
  induction before with
  | nil => simp
  | cons head tail inductionHypothesis => simp [inductionHypothesis]

/-- The element before a place in a list. -/
theorem prev_eq_getLast? {before after : List α} :
    (if before.length > 0 then (before ++ after)[before.length - 1]? else none) =
      before.getLast? := by
  rcases List.eq_nil_or_concat' before with rfl | ⟨init, last, rfl⟩ <;> simp

/-- The element behind a place in a list. -/
theorem next_eq_head? {before after : List α} :
    (before ++ after)[before.length]? = after.head? := by
  rw [List.getElem?_append_right le_rfl, Nat.sub_self, List.head?_eq_getElem?]

end Search

end Opal.Library
