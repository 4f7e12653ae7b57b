import Opal.PageTable.Exact
import Opal.Process.Operations

/-!
# Address spaces

A page table of the user half is a function from pages to page frames: an address is found at the
frame of its page.  `pagetable_map` adds pages to the function, or fails and takes away a few that
precede its range; `pagetable_unmap` takes pages away, whatever memory it gets.
-/

namespace Opal.Process

open Opal.PageTable

section Shrink

variable {ptbl : Pagetable} {va stop : Nat} {mem : AllocOracle}

/-- A page table in which some pages of another one are no longer mapped. -/
def Shrinks (ptbl after : Pagetable) : Prop :=
  ∃ gone : Set Nat, ∀ a, Canonical a →
    (a / pageSize ∈ gone → pagetableLookup after a = none) ∧
      (a / pageSize ∉ gone → pagetableLookup after a = pagetableLookup ptbl a)

theorem Shrinks.refl : Shrinks ptbl ptbl :=
  ⟨∅, fun _ _ => ⟨fun absent => absent.elim, fun _ => rfl⟩⟩

theorem Shrinks.trans {mid after : Pagetable} (first : Shrinks ptbl mid)
    (second : Shrinks mid after) : Shrinks ptbl after := by
  obtain ⟨gone, before⟩ := first
  obtain ⟨gone', later⟩ := second
  refine ⟨gone ∪ gone', fun a canonical => ⟨?_, fun kept => ?_⟩⟩
  · rintro (early | late)
    · by_cases late : a / pageSize ∈ gone'
      · exact (later a canonical).1 late
      · rw [(later a canonical).2 late, (before a canonical).1 early]
    · exact (later a canonical).1 late
  · rw [(later a canonical).2 fun late => kept (.inr late),
      (before a canonical).2 fun early => kept (.inl early)]

/-- The pages of an entry are whole. -/
theorem div_span_div (level a : Nat) : a / span level = a / pageSize / 2 ^ (9 * level) := by
  unfold pageSize span
  rw [Nat.div_div_eq_div_mul, ← pow_add, Nat.mul_zero, Nat.add_zero]

theorem unmapNext_shrinks (wf : ptbl.Wf) (user : va < 2 ^ 47) (aligned : va % pageSize = 0) :
    Shrinks ptbl (unmapNext ptbl va stop mem).ptbl := by
  have inner : (ptbl (index 3 va)).Wf := wf _ (index_root_lt user)
  rcases @unmapEntry_spec 3 va stop (ptbl (index 3 va)) mem inner aligned with
    ⟨k, clears⟩ | stuck
  · have root := clears.atRoot user
    refine ⟨{ page | page / 2 ^ (9 * k) = va / span k }, fun a canonical => ?_⟩
    have lookup := root.lookup a canonical
    rw [div_span_div k a] at lookup
    exact ⟨fun inside => lookup.trans (if_pos inside), fun outside => lookup.trans (if_neg outside)⟩
  · have same : (unmapNext ptbl va stop mem).ptbl = ptbl := by
      simp only [unmapNext, stuck.same, Function.update_eq_self]
    rw [same]
    exact .refl

theorem unmapLoop_shrinks (fuel : Nat) (wf : ptbl.Wf) (user : stop ≤ 2 ^ 47)
    (aligned : va % pageSize = 0) (alignedStop : stop % pageSize = 0) (le : va ≤ stop) :
    Shrinks ptbl (unmapLoop stop fuel ptbl va mem).ptbl := by
  induction fuel generalizing ptbl va mem with
  | zero => exact .refl
  | succ fuel inductionHypothesis =>
      rcases Nat.eq_or_lt_of_le le with done | before
      · simp only [unmapLoop, done, if_true]
        exact .refl
      · obtain ⟨after, eq⟩ : ∃ after, unmapNext ptbl va stop mem = after := ⟨_, rfl⟩
        have round : Round ptbl va stop mem after :=
          eq ▸ unmapNext_spec wf (by omega) aligned
        have shrinks : Shrinks ptbl after.ptbl := eq ▸ unmapNext_shrinks wf (by omega) aligned
        by_cases moved : after.va = va
        · simp only [unmapLoop, before.ne, if_false, eq, moved, if_true]
          exact shrinks
        · rw [unmapLoop_step eq before moved]
          rcases round.outcome with ⟨k, clears⟩ | ⟨stays, -⟩
          · refine shrinks.trans (inductionHypothesis round.wf ?_ (Nat.min_le_right _ _))
            rcases min_choice after.va stop with same | same
            · rw [same]
              exact clears.aligned
            · rw [same]
              exact alignedStop
          · exact absurd stays moved

/-- Whatever memory it gets, `pagetable_unmap` maps no page anew. -/
theorem pagetableUnmap_shrinks {len : Nat} (wf : ptbl.Wf) (range : UserRange va len) :
    ∃ after, pagetableUnmap ptbl va len mem = some after ∧ after.ptbl.Wf ∧
      Shrinks ptbl after.ptbl := by
  refine ⟨_, if_pos ⟨range.aligned, range.whole⟩, ?_, ?_⟩
  · exact unmapLoop_wf _ wf range.user range.aligned range.alignedStop (Nat.le_add_right _ _)
  · exact unmapLoop_shrinks _ wf range.user range.aligned range.alignedStop (Nat.le_add_right _ _)

end Shrink

section Space

/-- The page frame of each page. -/
abbrev Space := Nat → Option Nat

/-- The pages from `page` on get the frames that `frames` lists. -/
def Space.put (space : Space) (page count : Nat) (frames : Nat → Nat) : Space :=
  fun p => if page ≤ p ∧ p < page + count then some (frames (p - page)) else space p

/-- Some pages of a space, and no others. -/
def Space.Sub (less space : Space) : Prop := ∀ p f, less p = some f → space p = some f

/-- The number of pages in the user half. -/
def userPages : Nat := 2 ^ 35

/-- The address space a page table describes. -/
def Maps (ptbl : Pagetable) (space : Space) : Prop :=
  ∀ a < 2 ^ 47, pagetableLookup ptbl a =
    (space (a / pageSize)).map fun frame => frame * pageSize + a % pageSize

variable {ptbl : Pagetable} {space : Space} {mem : AllocOracle}

theorem pageSize_eq : pageSize = 4096 := rfl

theorem Space.Sub.refl : space.Sub space := fun _ _ found => found

theorem Space.Sub.trans {less least : Space} (first : Space.Sub least less)
    (second : less.Sub space) : Space.Sub least space :=
  fun p f found => second p f (first p f found)

@[simp]
theorem Space.put_zero {page : Nat} {frames : Nat → Nat} : space.put page 0 frames = space := by
  funext p
  exact if_neg (by omega)

theorem Space.put_inside {page count i : Nat} {frames : Nat → Nat} (inside : i < count) :
    space.put page count frames (page + i) = some (frames i) := by
  unfold Space.put
  rw [if_pos (by omega), Nat.add_sub_cancel_left]

theorem Space.put_outside {page count p : Nat} {frames : Nat → Nat}
    (outside : p < page ∨ page + count ≤ p) : space.put page count frames p = space p :=
  if_neg (by omega)

/-- A page of the new space is an old one or among those that were added. -/
theorem Space.put_cases {page count p f : Nat} {frames : Nat → Nat}
    (found : space.put page count frames p = some f) :
    (∃ i < count, p = page + i ∧ f = frames i) ∨
      ((p < page ∨ page + count ≤ p) ∧ space p = some f) := by
  unfold Space.put at found
  split at found
  · rename_i inside
    exact .inl ⟨p - page, by omega, by omega, (Option.some.inj found).symm⟩
  · rename_i outside
    exact .inr ⟨by omega, found⟩

/-- The start of a page is found at the start of its frame. -/
theorem Maps.page (maps : Maps ptbl space) {p : Nat} (user : p < userPages) :
    pagetableLookup ptbl (p * pageSize) = (space p).map (· * pageSize) := by
  unfold userPages at user
  rw [maps (p * pageSize) (by rw [pageSize_eq]; omega),
    Nat.mul_div_cancel p (by decide : 0 < pageSize), Nat.mul_mod_left]
  simp only [Nat.add_zero]

theorem Maps.shrinks {after : Pagetable} (maps : Maps ptbl space) (shrinks : Shrinks ptbl after) :
    ∃ less : Space, less.Sub space ∧ Maps after less := by
  classical
  obtain ⟨gone, kept⟩ := shrinks
  refine ⟨fun p => if p ∈ gone then none else space p, fun p f found => ?_, fun a user => ?_⟩
  · dsimp only at found
    split at found
    · cases found
    · exact found
  · dsimp only
    split
    · rename_i inside
      exact (kept a (.inl user)).1 inside
    · rename_i outside
      rw [(kept a (.inl user)).2 outside, maps a user]

/-- A range of whole pages below the end of the user half. -/
theorem userRange {page count : Nat} (user : page + count ≤ userPages) :
    UserRange (page * pageSize) (count * pageSize) where
  aligned := Nat.mul_mod_left _ _
  whole := Nat.mul_mod_left _ _
  user := by
    unfold userPages at user
    rw [pageSize_eq]
    omega

theorem mapRange {page count frame : Nat} (user : page + count ≤ userPages)
    (bounded : frame + count ≤ 2 ^ 40) :
    MapRange (page * pageSize) (frame * pageSize) (count * pageSize) where
  toUserRange := userRange user
  physical := Nat.mul_mod_left _ _
  bounded := by
    rw [pageSize_eq]
    omega

/-- A call of `pagetable_map` adds the pages of its range, or fails and loses pages at most. -/
theorem Maps.map (maps : Maps ptbl space) (wf : ptbl.Wf) {page count frame : Nat}
    (user : page + count ≤ userPages) (bounded : frame + count ≤ 2 ^ 40)
    (flags : Flags) (mem : AllocOracle) :
    ∃ after, pagetableMap ptbl (page * pageSize) (frame * pageSize) (count * pageSize) flags mem =
        some after ∧ after.ptbl.Wf ∧
      (after.va ≠ 0 ∧ Maps after.ptbl (space.put page count (frame + ·)) ∨
        after.va = 0 ∧ ∃ less : Space, less.Sub space ∧ Maps after.ptbl less) := by
  have range := mapRange user bounded
  rcases Nat.eq_zero_or_pos page with rfl | positive
  · -- the call refuses address 0, which it could not tell from a failure
    refine ⟨{ ptbl := ptbl, va := 0, mem := mem }, ?_, wf, .inr ⟨rfl, space, .refl, maps⟩⟩
    unfold pagetableMap
    rw [if_pos ⟨range.physical, range.whole, range.aligned⟩, if_pos (Nat.zero_mul pageSize)]
  have start : 0 < page * pageSize := Nat.mul_pos positive (span_pos 0)
  obtain ⟨after, returned, wf', outcome⟩ := pagetableMap_spec wf range start flags mem
  refine ⟨after, returned, wf', ?_⟩
  rcases outcome with ⟨arrived, reached⟩ | ⟨zero, o, -, lookup⟩
  · refine .inl ⟨by omega, fun a low => ?_⟩
    rw [reached.lookup a (.inl low)]
    unfold Space.put
    rw [maps a low]
    by_cases inside : page * pageSize ≤ a ∧ a < page * pageSize + count * pageSize
    · rw [if_pos inside, if_pos (by rw [pageSize_eq] at *; omega)]
      refine congrArg some ?_
      dsimp only
      rw [pageSize_eq] at *
      omega
    · rw [if_neg inside, if_neg (by rw [pageSize_eq] at *; omega)]
  · refine .inr ⟨zero, maps.shrinks ⟨{ p | clearedFrom (page * pageSize) (page * pageSize + o) ≤
      p * pageSize ∧ p < page }, fun a canonical => ?_⟩⟩
    have whole : clearedFrom (page * pageSize) (page * pageSize + o) % pageSize = 0 := by
      have aligned : span 0 ∣ clearedFrom (page * pageSize) (page * pageSize + o) :=
        (span_dvd (Nat.zero_le _)).mul_left _
      exact Nat.mod_eq_zero_of_dvd aligned
    have found := lookup a canonical
    generalize clearedFrom (page * pageSize) (page * pageSize + o) = low at whole found
    constructor
    · rintro ⟨above, under⟩
      rw [found, if_pos (by rw [pageSize_eq] at *; omega)]
    · intro outside
      rw [found, if_neg]
      rintro ⟨above, under⟩
      exact outside ⟨by rw [pageSize_eq] at *; omega, by rw [pageSize_eq] at *; omega⟩

theorem Maps.unmap (maps : Maps ptbl space) (wf : ptbl.Wf) {page count : Nat}
    (user : page + count ≤ userPages) (mem : AllocOracle) :
    ∃ after, pagetableUnmap ptbl (page * pageSize) (count * pageSize) mem = some after ∧
      after.ptbl.Wf ∧ ∃ less : Space, less.Sub space ∧ Maps after.ptbl less := by
  obtain ⟨after, returned, wf', shrinks⟩ := @pagetableUnmap_shrinks _ _ mem _ wf (userRange user)
  exact ⟨after, returned, wf', maps.shrinks shrinks⟩

end Space

end Opal.Process
