import Opal.Process.Images

/-!
# What a call leaves behind

The loader and `fork` build an image by a sequence of calls.  Each of them takes only what was
free, and either leaves a sound image with a known memory or fails with an image that can be given
back.
-/

namespace Opal.Process

open Opal.PageTable
open Opal.VmTree

section Memory

/-- What a process finds at its addresses. -/
def Image.memory (image : Image) (host : Host) : Nat → Option UInt8 :=
  fun a => if a < 2 ^ 47 then (pagetableLookup image.ptbl a).map host.bytes else none

variable {image : Image} {host after : Host} {space : Space}

/-- A page of an area lies in the user half. -/
theorem Releasable.user (releasable : Releasable image host space) {p : Nat}
    (mem : p ∈ pagesOf (areasOf image.vmtree)) : p < userPages := by
  obtain ⟨c, memC, -, high⟩ := mem
  have user := (releasable.aligned.bounds c memC).2
  unfold userPages
  rw [pageSize_eq] at *
  omega

theorem Sound.memory_eq (sound : Sound image host space) (a : Nat) : image.memory host a =
    (space (a / pageSize)).map fun f => host.bytes (f * pageSize + a % pageSize) := by
  unfold Image.memory
  split
  · rename_i user
    rw [sound.maps a user, Option.map_map]
    rfl
  · rename_i outside
    rcases found : space (a / pageSize) with _ | f
    · rfl
    · have user := sound.user (sound.mem_pages found)
      unfold userPages at user
      rw [pageSize_eq] at *
      omega

/-- The memory of a process is that of the pages of its areas. -/
theorem Sound.memory_isSome (sound : Sound image host space) (a : Nat) :
    (image.memory host a).isSome ↔ a / pageSize ∈ pagesOf (areasOf image.vmtree) := by
  rw [sound.memory_eq, Option.isSome_map]
  exact sound.covered _

/-- A process keeps its memory when its frames are spared. -/
theorem Sound.memory_spared (sound : Sound image host space) {frames live : Set Nat}
    (spares : Spares host after frames live) (owned : ∀ p f, space p = some f → f ∉ frames) :
    image.memory after = image.memory host := by
  funext a
  unfold Image.memory
  split
  · rename_i user
    rw [sound.maps a user]
    rcases found : space (a / pageSize) with _ | f
    · rfl
    · refine congrArg some ?_
      exact spares.bytes f (owned _ f found) (sound.frame_taken found).1 _
        (Nat.mod_lt a (by decide))
  · rfl

end Memory

section Fresh

variable {host : Host}

/-- A new image has no area. -/
theorem areasOf_init : areasOf processImageInit.vmtree = [] := by
  have leaf : processImageInit.vmtree = uniformLeaf 0 := rfl
  unfold areasOf mapped
  rw [leaf, segments_uniformLeaf]
  rfl

theorem sound_init : Sound processImageInit host fun _ => none := by
  have nothing (c : Area) : c ∉ areasOf processImageInit.vmtree := by
    rw [areasOf_init]
    exact List.not_mem_nil
  have noPage (p : Nat) : p ∉ pagesOf (areasOf processImageInit.vmtree) := by
    rintro ⟨c, mem, -⟩
    exact nothing c mem
  refine ⟨⟨fun _ _ => trivial, canonical_init.wf, fun _ _ => rfl, ⟨?_, ?_, ?_⟩, ?_, ?_, ?_, ?_⟩,
    canonical_init.separated, fun p => ⟨fun found => ?_, fun mem => absurd mem (noPage p)⟩⟩
  · rw [areasOf_init]
    exact .nil
  · exact fun c mem => absurd mem (nothing c)
  · exact fun c mem => absurd mem (nothing c)
  · exact fun c mem => absurd mem (nothing c)
  · exact fun c mem => absurd mem (nothing c)
  · exact fun p mem => absurd mem (noPage p)
  · exact fun p mem => absurd mem (noPage p)
  · cases found

theorem memory_init : processImageInit.memory host = fun _ => none := by
  funext a
  rw [sound_init.memory_eq]
  rfl

end Fresh

section Growth

/-- The frames of an image. -/
def framesOf (image : Image) (space : Space) : Set Nat :=
  { f | ∃ p ∈ pagesOf (areasOf image.vmtree), space p = some f }

/-- The addresses of the areas of an image. -/
def valuesOf (image : Image) : Set Nat := { a | ∃ c ∈ areasOf image.vmtree, c.val = a }

/-- An image has changed by taking frames and areas that were free. -/
structure Grows (image : Image) (host : Host) (space : Space) (image' : Image) (after : Host)
    (space' : Space) : Prop where
  frames : ∀ p ∈ pagesOf (areasOf image'.vmtree), ∀ f, space' p = some f →
    (p ∈ pagesOf (areasOf image.vmtree) ∧ space p = some f) ∨ f ∈ host.pool
  areas : ∀ c ∈ areasOf image'.vmtree, c ∈ areasOf image.vmtree ∨ host.areas c.val = none
  spares : Spares host after ∅ ∅

variable {image image' image'' : Image} {host mid after : Host} {space space' space'' : Space}

theorem Grows.refl : Grows image host space image host space :=
  ⟨fun _ mem _ found => .inl ⟨mem, found⟩, fun _ mem => .inl mem, .refl⟩

theorem Grows.trans (first : Grows image host space image' mid space')
    (second : Grows image' mid space' image'' after space'') :
    Grows image host space image'' after space'' where
  frames := by
    intro p mem f found
    rcases second.frames p mem f found with ⟨mem', found'⟩ | free
    · exact first.frames p mem' f found'
    · refine .inr ?_
      by_contra taken
      exact first.spares.pool f (Set.notMem_empty f) taken free
  areas := by
    intro c mem
    rcases second.areas c mem with mem' | unused
    · exact first.areas c mem'
    · refine .inr ?_
      by_contra live
      rw [first.spares.areas c.val (Set.notMem_empty _) (Option.isSome_iff_ne_none.mpr live)]
        at unused
      exact live unused
  spares := first.spares.trans second.spares

/-- An image has got all that is no longer free. -/
structure Extends (image : Image) (host : Host) (space : Space) (image' : Image) (after : Host)
    (space' : Space) : Prop extends Grows image host space image' after space' where
  pages : space.Sub space'
  old : ∀ c ∈ areasOf image.vmtree, c ∈ areasOf image'.vmtree
  pool : ∀ f ∈ host.pool, f ∈ after.pool ∨ ∃ p, space' p = some f
  live : ∀ a, (after.areas a).isSome → (host.areas a).isSome ∨ a ∈ valuesOf image'

theorem Extends.refl : Extends image host space image host space :=
  ⟨.refl, .refl, fun _ mem => mem, fun _ mem => .inl mem, fun _ live => .inl live⟩

theorem Extends.trans (first : Extends image host space image' mid space')
    (second : Extends image' mid space' image'' after space'') :
    Extends image host space image'' after space'' where
  toGrows := first.toGrows.trans second.toGrows
  pages := first.pages.trans second.pages
  old := fun c mem => second.old c (first.old c mem)
  pool := by
    intro f free
    rcases first.pool f free with still | ⟨p, found⟩
    · exact second.pool f still
    · exact .inr ⟨p, second.pages p f found⟩
  live := by
    intro a live
    rcases second.live a live with before | own
    · rcases first.live a before with earlier | ⟨c, mem, same⟩
      · exact .inl earlier
      · exact .inr ⟨c, second.old c mem, same⟩
    · exact .inr own

/-- A call succeeds with a sound image and a memory as it should be, or fails with an image that
can be given back. -/
inductive Outcome (image : Image) (host : Host) (space : Space)
    (goal : (Nat → Option UInt8) → Prop) : Errno × Image × Host → Prop where
  | done {image' : Image} {after : Host} {space' : Space} :
      Sound image' after space' →
      Extends image host space image' after space' →
      goal (image'.memory after) →
      Outcome image host space goal (.ok, image', after)
  | failed {err : Errno} {image' : Image} {after : Host} {less : Space} :
      err ≠ .ok →
      Releasable image' after less →
      Grows image host space image' after less →
      Outcome image host space goal (err, image', after)

variable {goal goal' : (Nat → Option UInt8) → Prop} {result : Errno × Image × Host}

/-- A call after others. -/
theorem Outcome.later (grown : Extends image host space image' mid space')
    (outcome : Outcome image' mid space' goal' result)
    (mono : ∀ memory, goal' memory → goal memory) : Outcome image host space goal result := by
  cases outcome with
  | done sound more reached => exact .done sound (grown.trans more) (mono _ reached)
  | failed err releasable more => exact .failed err releasable (grown.toGrows.trans more)

theorem Outcome.mono (outcome : Outcome image host space goal' result)
    (mono : ∀ memory, goal' memory → goal memory) : Outcome image host space goal result :=
  outcome.later .refl mono

end Growth

section Addition

/-- A range of addresses that was empty has got bytes. -/
structure Adds (before : Nat → Option UInt8) (start len : Nat) (byte : Nat → UInt8)
    (after : Nat → Option UInt8) : Prop where
  free : ∀ a, start ≤ a → a < start + len → before a = none
  inside : ∀ a, start ≤ a → a < start + len → after a = some (byte (a - start))
  outside : ∀ a, a < start ∨ start + len ≤ a → after a = before a

variable {image image' : Image} {host after : Host} {space : Space}

/-- The memory of an image that has got some pages more. -/
theorem Sound.adds (sound : Sound image host space) {page count : Nat} {frames : Nat → Nat}
    {byte : Nat → UInt8} (sound' : Sound image' after (space.put page count frames))
    (free : ∀ i < count, space (page + i) = none) (spares : Spares host after ∅ ∅)
    (content : ∀ i < count, ∀ r < pageSize,
      after.bytes (frames i * pageSize + r) = byte (i * pageSize + r)) :
    Adds (image.memory host) (page * pageSize) (count * pageSize) byte (image'.memory after) where
  free := by
    intro a low high
    have place : a / pageSize = page + (a / pageSize - page) := by
      rw [pageSize_eq] at *
      omega
    rw [sound.memory_eq, place, free _ (by rw [pageSize_eq] at *; omega)]
    rfl
  inside := by
    intro a low high
    have place : a / pageSize = page + (a / pageSize - page) := by
      rw [pageSize_eq] at *
      omega
    have lower : a / pageSize - page < count := by
      rw [pageSize_eq] at *
      omega
    rw [sound'.memory_eq, place, Space.put_inside lower, Option.map_some,
      content _ lower _ (Nat.mod_lt a (by decide))]
    refine congrArg some (congrArg byte ?_)
    rw [pageSize_eq] at *
    omega
  outside := by
    intro a off
    have away : a / pageSize < page ∨ page + count ≤ a / pageSize := by
      rw [pageSize_eq] at *
      omega
    rw [sound'.memory_eq, sound.memory_eq, Space.put_outside away]
    rcases found : space (a / pageSize) with _ | f
    · rfl
    · refine congrArg some ?_
      exact spares.bytes f (Set.notMem_empty f) (sound.frame_taken found).1 _
        (Nat.mod_lt a (by decide))

end Addition

end Opal.Process
