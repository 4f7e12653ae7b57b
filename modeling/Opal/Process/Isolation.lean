import Opal.Process.Elf
import Opal.Process.Fork

/-!
# Isolation of the processes

No two processes share a frame or an area, and no frame of a process is free.  Every call of the
kernel keeps this, also one that fails half-way and has to give back what it has built.
-/

namespace Opal.Process

open Opal.PageTable
open Opal.VmTree

section Apart

/-- Two images share no frame and no area. -/
structure Apart (image : Image) (space : Space) (image' : Image) (space' : Space) : Prop where
  frames : ∀ p ∈ pagesOf (areasOf image.vmtree), ∀ q ∈ pagesOf (areasOf image'.vmtree), ∀ f,
    space p = some f → space' q ≠ some f
  areas : ∀ c ∈ areasOf image.vmtree, ∀ d ∈ areasOf image'.vmtree, c.val ≠ d.val

variable {image image' other : Image} {space space' otherSpace : Space} {host after : Host}

theorem Apart.symm (apart : Apart image space image' space') : Apart image' space' image space where
  frames := fun p memP q memQ f found same => apart.frames q memQ p memP f same found
  areas := fun c memC d memD same => apart.areas d memD c memC same.symm

/-- An image that grows stays apart from the others, since it takes only what is free. -/
theorem Apart.grows (apart : Apart image space other otherSpace)
    (sound : Sound other host otherSpace) (grows : Grows image host space image' after space') :
    Apart image' space' other otherSpace where
  frames := by
    intro p memP q memQ f found found'
    rcases grows.frames p memP f found with ⟨mem, old⟩ | free
    · exact apart.frames p mem q memQ f old found'
    · exact (sound.taken q memQ f found').1 free
  areas := by
    intro c memC d memD same
    rcases grows.areas c memC with mem | unused
    · exact apart.areas c mem d memD same
    · have live := sound.live d memD
      rw [← same, unused] at live
      cases live

theorem Apart.frame_notMem (apart : Apart image space other otherSpace)
    (sound : Sound other host otherSpace) {q f : Nat} (found : otherSpace q = some f) :
    f ∉ framesOf image space := by
  rintro ⟨p, memP, same⟩
  exact apart.frames p memP q (sound.mem_pages found) f same found

theorem Apart.area_notMem (apart : Apart image space other otherSpace) {d : Area}
    (mem : d ∈ areasOf other.vmtree) : d.val ∉ valuesOf image := by
  rintro ⟨c, memC, same⟩
  exact apart.areas c memC d mem same

/-- Exactly what an image has is given back. -/
structure Returns (image : Image) (host : Host) (space : Space) (after : Host) : Prop where
  frames : ∀ f, f ∈ after.pool ↔ f ∈ host.pool ∨ f ∈ framesOf image space
  areas : ∀ a, (after.areas a).isSome ↔ (host.areas a).isSome ∧ a ∉ valuesOf image

/-- Giving an image back touches nothing but its own frames and areas. -/
theorem Releasable.destroyed (releasable : Releasable image host space) :
    ∃ after, processImageDestroyParts image host = some after ∧
      Spares host after (framesOf image space) (valuesOf image) ∧
      Returns image host space after := by
  obtain ⟨pool, destroyed, returned⟩ := releasable.destroy
  have gone (a : Nat) : a ∈ (areasOf image.vmtree).map Library.Cell.val ↔ a ∈ valuesOf image :=
    List.mem_map
  refine ⟨_, destroyed, ⟨fun f away taken back => ?_, fun _ _ _ _ _ => rfl, fun a away live => ?_⟩,
    ⟨returned, fun a => ?_⟩⟩
  · exact ((returned f).mp back).elim taken fun ⟨p, mem, found⟩ => away ⟨p, mem, found⟩
  · exact if_neg ((gone a).not.mpr away)
  · simp only [without, gone]
    split <;> simp_all

/-- What grows out of a new image is apart from everything. -/
theorem Grows.apart (sound : Sound other host otherSpace)
    (grows : Grows processImageInit host (fun _ => none) image after space) :
    Apart image space other otherSpace := by
  have start : Apart processImageInit (fun _ => none) other otherSpace := by
    refine ⟨fun _ _ _ _ _ found => absurd found (by simp), fun c mem => ?_⟩
    rw [areasOf_init] at mem
    exact absurd mem List.not_mem_nil
  exact start.grows sound grows

end Apart

section Systems

/-- The processes have sound images that are apart from each other. -/
structure Isolated (s : System) (spaces : Nat → Space) : Prop where
  sound : ∀ pid image, s.images pid = some image → Sound image s.host (spaces pid)
  apart : ∀ pid image pid' image', s.images pid = some image → s.images pid' = some image' →
    pid ≠ pid' → Apart image (spaces pid) image' (spaces pid')
  fresh : ∀ pid, s.next ≤ pid → s.images pid = none

/-- The memory of each process. -/
def System.memories (s : System) : Nat → Option (Nat → Option UInt8) :=
  fun pid => (s.images pid).map fun image => image.memory s.host

/-- The processes but one. -/
def System.drop (s : System) (pid : Nat) : System :=
  { s with images := Function.update s.images pid none }

/-- An image is apart from those of all processes. -/
def Aside (s : System) (spaces : Nat → Space) (image : Image) (space : Space) : Prop :=
  ∀ pid other, s.images pid = some other → Apart image space other (spaces pid)

variable {s : System} {spaces : Nat → Space} {image : Image} {space : Space} {host after : Host}
  {pid : Nat}

/-- A change of the kernel's memory that spares the processes. -/
theorem Isolated.change (isolated : Isolated s spaces) {frames areas : Set Nat}
    (spares : Spares s.host after frames areas)
    (frames' : ∀ pid image, s.images pid = some image → ∀ p f, spaces pid p = some f → f ∉ frames)
    (areas' : ∀ pid image, s.images pid = some image → ∀ c ∈ areasOf image.vmtree,
      c.val ∉ areas) :
    Isolated { s with host := after } spaces ∧
      System.memories { s with host := after } = s.memories := by
  refine ⟨⟨fun pid image found => ?_, isolated.apart, isolated.fresh⟩, funext fun pid => ?_⟩
  · exact (isolated.sound pid image found).spared spares (frames' pid image found)
      (areas' pid image found)
  · unfold System.memories
    rcases found : s.images pid with _ | image
    · simp only [Option.map_none]
    · simp only [Option.map_some]
      exact congrArg some
        ((isolated.sound pid image found).memory_spared spares (frames' pid image found))

/-- What a growing image has taken does not concern the processes. -/
theorem Isolated.grown (isolated : Isolated s spaces)
    (grows : Grows processImageInit s.host (fun _ => none) image after space) :
    (Isolated { s with host := after } spaces ∧
      System.memories { s with host := after } = s.memories) ∧
      Aside { s with host := after } spaces image space :=
  ⟨isolated.change grows.spares (fun _ _ _ _ _ _ => Set.notMem_empty _)
    fun _ _ _ _ _ => Set.notMem_empty _,
    fun pid other found => grows.apart (isolated.sound pid other found)⟩

/-- An image that is apart from the processes can be given back. -/
theorem Isolated.destroy (isolated : Isolated s spaces)
    (releasable : Releasable image s.host space) (aside : Aside s spaces image space) :
    ∃ after, processImageDestroyParts image s.host = some after ∧
      (Isolated { s with host := after } spaces ∧
        System.memories { s with host := after } = s.memories) ∧
      Returns image s.host space after := by
  obtain ⟨after, destroyed, spares, returns⟩ := releasable.destroyed
  refine ⟨after, destroyed, isolated.change spares ?_ ?_, returns⟩
  · exact fun pid other found p f =>
      (aside pid other found).frame_notMem (isolated.sound pid other found)
  · exact fun pid other found c mem => (aside pid other found).area_notMem mem

theorem System.drop_some {pid' : Nat} {other : Image}
    (found : (s.drop pid).images pid' = some other) : pid' ≠ pid ∧ s.images pid' = some other := by
  have updated : Function.update s.images pid none pid' = some other := found
  by_cases same : pid' = pid
  · rw [same, Function.update_self] at updated
    cases updated
  · rw [Function.update_of_ne same] at updated
    exact ⟨same, updated⟩

theorem Isolated.drop (isolated : Isolated s spaces) (pid : Nat) :
    Isolated (s.drop pid) spaces where
  sound := fun pid' image found => isolated.sound pid' image (System.drop_some found).2
  apart := fun pid₁ image₁ pid₂ image₂ found₁ found₂ =>
    isolated.apart pid₁ image₁ pid₂ image₂ (System.drop_some found₁).2 (System.drop_some found₂).2
  fresh := by
    intro pid' above
    rcases found : (s.drop pid).images pid' with _ | other
    · rfl
    · exact (System.drop_some found).2.symm.trans (isolated.fresh pid' above)

/-- A process is apart from the others. -/
theorem Isolated.aside_drop (isolated : Isolated s spaces) (found : s.images pid = some image) :
    Aside (s.drop pid) spaces image (spaces pid) := by
  intro pid' other found'
  obtain ⟨ne, found'⟩ := System.drop_some found'
  exact isolated.apart pid image pid' other found found' ne.symm

/-- A process gets an image that is apart from those of the others. -/
theorem Isolated.insert (isolated : Isolated s spaces) (low : pid < s.next)
    (sound : Sound image s.host space) (aside : Aside (s.drop pid) spaces image space) :
    Isolated { s with images := Function.update s.images pid (some image) }
      (Function.update spaces pid space) := by
  have others {pid' : Nat} (ne : pid' ≠ pid) {other : Image} (found : s.images pid' = some other) :
      (s.drop pid).images pid' = some other := (Function.update_of_ne ne _ _).trans found
  refine ⟨fun pid' other found => ?_, fun pid₁ image₁ pid₂ image₂ found₁ found₂ ne => ?_,
    fun pid' above => ?_⟩
  · by_cases same : pid' = pid
    · subst same
      simp only [Function.update_self, Option.some.injEq] at found ⊢
      exact found ▸ sound
    · simp only [Function.update_of_ne same] at found ⊢
      exact isolated.sound pid' other found
  · by_cases first : pid₁ = pid <;> by_cases second : pid₂ = pid
    · exact absurd (first.trans second.symm) ne
    · subst first
      simp only [Function.update_self, Option.some.injEq, Function.update_of_ne second]
        at found₁ found₂ ⊢
      exact found₁ ▸ aside pid₂ image₂ (others second found₂)
    · subst second
      simp only [Function.update_self, Option.some.injEq, Function.update_of_ne first]
        at found₁ found₂ ⊢
      exact found₂ ▸ (aside pid₁ image₁ (others first found₁)).symm
    · simp only [Function.update_of_ne first, Function.update_of_ne second] at found₁ found₂ ⊢
      exact isolated.apart pid₁ image₁ pid₂ image₂ found₁ found₂ ne
  · have ne : pid' ≠ pid := by
      dsimp only at above
      omega
    exact (Function.update_of_ne ne _ _).trans (isolated.fresh pid' above)

theorem System.memories_update :
    System.memories { s with images := Function.update s.images pid (some image) } =
      Function.update s.memories pid (some (image.memory s.host)) := by
  funext pid'
  unfold System.memories
  by_cases same : pid' = pid
  · subst same
    simp only [Function.update_self, Option.map_some]
  · simp only [Function.update_of_ne same]

theorem System.memories_drop : (s.drop pid).memories = Function.update s.memories pid none := by
  funext pid'
  unfold System.memories System.drop
  by_cases same : pid' = pid
  · subst same
    simp only [Function.update_self, Option.map_none]
  · simp only [Function.update_of_ne same]

end Systems

section Conservation

/-- The frames that an image maps. -/
def Image.frames (image : Image) : Set Nat :=
  { f | ∃ p < userPages, pagetableLookup image.ptbl (p * pageSize) = some (f * pageSize) }

/-- What all processes have together. -/
def System.everyone (s : System) (has : Image → Set Nat) : Set Nat :=
  { x | ∃ pid image, s.images pid = some image ∧ x ∈ has image }

/-- The page frames of the processes. -/
def System.frames (s : System) : Set Nat := s.everyone Image.frames

/-- The areas of the processes. -/
def System.areas (s : System) : Set Nat := s.everyone valuesOf

/-- The frames that are free or belong to a process. -/
def System.stock (s : System) : Set Nat := { f | f ∈ s.host.pool ∨ f ∈ s.frames }

/-- The areas that are live and belong to no process. -/
def System.foreign (s : System) : Set Nat := { a | (s.host.areas a).isSome ∧ a ∉ s.areas }

/-- No frame and no area is lost or made up. -/
structure Conserves (s after : System) : Prop where
  frames : after.stock = s.stock
  areas : after.foreign = s.foreign

variable {s : System} {image : Image} {host after : Host} {space : Space} {has : Image → Set Nat}
  {pid x f : Nat}

theorem Sound.mem_frames (sound : Sound image host space) :
    f ∈ image.frames ↔ f ∈ framesOf image space := by
  constructor
  · rintro ⟨p, user, lookup⟩
    rw [sound.maps.page user, Option.map_eq_some_iff] at lookup
    obtain ⟨g, found, same⟩ := lookup
    obtain rfl : g = f := Nat.eq_of_mul_eq_mul_right (by decide : 0 < pageSize) same
    exact ⟨p, sound.mem_pages found, found⟩
  · rintro ⟨p, mem, found⟩
    refine ⟨p, sound.user mem, ?_⟩
    rw [sound.maps.page (sound.user mem), found]
    rfl

theorem System.mem_everyone_of (found : s.images pid = some image) :
    x ∈ s.everyone has ↔ x ∈ (s.drop pid).everyone has ∨ x ∈ has image := by
  constructor
  · rintro ⟨pid', other, there, mem⟩
    by_cases same : pid' = pid
    · subst same
      rw [found] at there
      cases there
      exact .inr mem
    · exact .inl ⟨pid', other, (Function.update_of_ne same _ _).trans there, mem⟩
  · rintro (⟨pid', other, there, mem⟩ | mem)
    · exact ⟨pid', other, (System.drop_some there).2, mem⟩
    · exact ⟨pid, image, found, mem⟩

theorem System.mem_everyone_update {next : System}
    (images : next.images = Function.update s.images pid (some image)) :
    x ∈ next.everyone has ↔ x ∈ (s.drop pid).everyone has ∨ x ∈ has image := by
  have found : next.images pid = some image := by
    rw [images, Function.update_self]
  have others : (next.drop pid).images = (s.drop pid).images := by
    unfold System.drop
    dsimp only
    rw [images, Function.update_idem]
  rw [System.mem_everyone_of found]
  refine or_congr_left ?_
  unfold System.everyone
  rw [others]

/-- What a new image takes was free, and what it leaves still is. -/
theorem Extends.takes (grown : Extends processImageInit host (fun _ => none) image after space)
    (sound : Sound image after space) :
    (∀ f, f ∈ host.pool ↔ f ∈ after.pool ∨ f ∈ image.frames) ∧
      (∀ a, (after.areas a).isSome ↔ (host.areas a).isSome ∨ a ∈ valuesOf image) ∧
      ∀ a ∈ valuesOf image, ¬ (host.areas a).isSome := by
  have noArea (c : Area) : c ∉ areasOf processImageInit.vmtree := by
    rw [areasOf_init]
    exact List.not_mem_nil
  have unused : ∀ a ∈ valuesOf image, ¬ (host.areas a).isSome := by
    rintro a ⟨c, mem, rfl⟩ live
    rw [(grown.areas c mem).resolve_left (noArea c)] at live
    cases live
  refine ⟨fun f => ?_, fun a => ?_, unused⟩
  · rw [sound.mem_frames]
    constructor
    · intro free
      exact (grown.pool f free).imp_right fun ⟨p, found⟩ => ⟨p, sound.mem_pages found, found⟩
    · rintro (still | ⟨p, mem, found⟩)
      · by_contra taken
        exact grown.spares.pool f (Set.notMem_empty f) taken still
      · refine (grown.frames p mem f found).resolve_left ?_
        rintro ⟨-, absent⟩
        cases absent
  · constructor
    · exact grown.live a
    · rintro (live | ⟨c, mem, rfl⟩)
      · rw [grown.spares.areas a (Set.notMem_empty a) live]
        exact live
      · exact sound.live c mem

/-- A process has got an image for a new one. -/
theorem conserves_adopt {next : System} (fresh : s.images pid = none)
    (grown : Extends processImageInit s.host (fun _ => none) image next.host space)
    (sound : Sound image next.host space)
    (images : next.images = Function.update s.images pid (some image)) : Conserves s next := by
  obtain ⟨pool, live, unused⟩ := grown.takes sound
  have drop : s.drop pid = s := by
    unfold System.drop
    rw [← fresh, Function.update_eq_self]
  constructor
  · ext f
    simp only [System.stock, System.frames, Set.mem_ofPred_eq, pool,
      System.mem_everyone_update images, drop]
    tauto
  · ext a
    have taken := unused a
    simp only [System.foreign, System.areas, Set.mem_ofPred_eq, live,
      System.mem_everyone_update images, drop]
    tauto

/-- A process has gone. -/
theorem conserves_release {next : System} (found : s.images pid = some image)
    (sound : Sound image s.host space) (returns : Returns image s.host space next.host)
    (images : next.images = (s.drop pid).images) : Conserves s next := by
  have same (has : Image → Set Nat) : next.everyone has = (s.drop pid).everyone has := by
    unfold System.everyone
    rw [images]
  constructor
  · ext f
    simp only [System.stock, System.frames, Set.mem_ofPred_eq, returns.frames, same,
      System.mem_everyone_of found, sound.mem_frames]
    tauto
  · ext a
    simp only [System.foreign, System.areas, Set.mem_ofPred_eq, returns.areas, same,
      System.mem_everyone_of found]
    tauto

/-- A process has got an image for its old one. -/
theorem conserves_replace {next : System} {old : Image} {mid : Host} {oldSpace : Space}
    (found : s.images pid = some old)
    (grown : Extends processImageInit s.host (fun _ => none) image mid space)
    (sound : Sound image mid space) (soundOld : Sound old mid oldSpace)
    (returns : Returns old mid oldSpace next.host)
    (images : next.images = Function.update s.images pid (some image)) : Conserves s next := by
  obtain ⟨pool, live, unused⟩ := grown.takes sound
  constructor
  · ext f
    simp only [System.stock, System.frames, Set.mem_ofPred_eq, returns.frames, pool,
      System.mem_everyone_update images, System.mem_everyone_of found, soundOld.mem_frames]
    tauto
  · ext a
    have taken := unused a
    simp only [System.foreign, System.areas, Set.mem_ofPred_eq, returns.areas, live,
      System.mem_everyone_update images, System.mem_everyone_of found]
    tauto

end Conservation

section Loading

variable {image : Image} {host mid after : Host} {space : Space}

/-- Giving a new image back takes nothing from anybody. -/
theorem Grows.undone (grows : Grows processImageInit host (fun _ => none) image mid space)
    (spares : Spares mid after (framesOf image space) (valuesOf image)) :
    Spares host after ∅ ∅ := by
  have foreign (f : Nat) (taken : f ∉ host.pool) : f ∉ framesOf image space := by
    rintro ⟨p, mem, found⟩
    rcases grows.frames p mem f found with ⟨-, absent⟩ | free
    · cases absent
    · exact taken free
  refine ⟨fun f away taken => ?_, fun f away taken r small => ?_, fun a away live => ?_⟩
  · exact spares.pool f (foreign f taken) (grows.spares.pool f away taken)
  · rw [spares.bytes f (foreign f taken) (grows.spares.pool f away taken) r small]
    exact grows.spares.bytes f away taken r small
  · have same := grows.spares.areas a away live
    have others : a ∉ valuesOf image := by
      rintro ⟨c, mem, rfl⟩
      rcases grows.areas c mem with old | unused
      · rw [areasOf_init] at old
        exact absurd old List.not_mem_nil
      · rw [unused] at live
        cases live
    rw [spares.areas a others (same ▸ live), same]

/-- Loading a file never reads behind its end.  When it succeeds, the memory of the new image is
the one the file describes; whatever its outcome, the image can be given back, which takes nothing
from anybody, and after a success nothing is missing then. -/
theorem loadElfImage_lays (file : Memory) (size : Nat) (host : Host) :
    (loadElfImage file size processImageInit host).Within size ∧
      ∃ loaded, (loadElfImage file size processImageInit host).value = some loaded ∧
        (loaded.status = .ok → Laid file (program file) (loaded.image.memory loaded.host) ∧
          LoadedOk file size loaded) ∧
        ∃ after, processImageDestroyParts loaded.image loaded.host = some after ∧
          Spares host after ∅ ∅ ∧ (loaded.status = .ok → after.pool = host.pool) := by
  refine ⟨loadElfImage_within file size processImageInit host, ?_⟩
  obtain ⟨⟨status, image, mid, start⟩, returned, outcome, ok⟩ :=
    loadElfImage_spec (@sound_init host) memory_init file size
  refine ⟨_, returned, ?_⟩
  cases outcome with
  | failed ne releasable grows =>
      obtain ⟨after, destroyed, spares, -⟩ := releasable.destroyed
      exact ⟨fun succeeded => absurd succeeded ne, after, destroyed, grows.undone spares,
        fun succeeded => absurd succeeded ne⟩
  | done sound grown laid =>
      obtain ⟨after, destroyed, spares, returns⟩ := sound.toReleasable.destroyed
      refine ⟨fun succeeded => ⟨laid, ok succeeded⟩, after, destroyed,
        grown.toGrows.undone spares, fun _ => ?_⟩
      ext f
      rw [returns.frames f, (grown.takes sound).1 f, sound.mem_frames]

end Loading

end Opal.Process
