import Opal.Process.Outcomes

/-!
# Adding an area to an image

`map_section` and `clone_vmem_range` insert an area and fill its pages.  On success the image is
sound with one area more.  On failure the area is gone again, and the image can be given back.
-/

namespace Opal.Process

open Opal.Library
open Opal.PageTable
open Opal.VmTree

section Areas

variable {image : Image} {host after : Host} {space : Space} {area : Nat} {flags : Flags}

/-- The heap with a new area. -/
def Host.withArea (host : Host) (area : Nat) (flags : Flags) : Host :=
  { host with pointers := host.pointers.tail,
              areas := Function.update host.areas area (some flags) }

theorem kzallocArea_some (returned : kzallocArea flags host = (some area, after)) :
    area ≠ 0 ∧ host.areas area = none ∧ after = host.withArea area flags := by
  unfold kzallocArea at returned
  split at returned
  · cases returned
  · split at returned
    · rename_i fresh
      cases returned
      exact ⟨fresh.1, fresh.2, rfl⟩
    · cases returned

theorem kzallocArea_none (returned : kzallocArea flags host = (none, after)) :
    after = { host with pointers := host.pointers.tail } := by
  unfold kzallocArea at returned
  split at returned
  · cases returned
    rfl
  · split at returned
    · cases returned
    · cases returned
      rfl

theorem spares_withArea (unused : host.areas area = none) :
    Spares host (host.withArea area flags) ∅ ∅ where
  pool := fun _ _ taken => taken
  bytes := fun _ _ _ _ _ => rfl
  areas := by
    intro a _ live
    have ne : a ≠ area := by
      rintro rfl
      rw [unused] at live
      cases live
    exact Function.update_of_ne ne _ _

/-- Freeing a new area undoes its allocation. -/
theorem kfreeArea_new (unused : host.areas area = none)
    (areas : after.areas = (host.withArea area flags).areas) :
    kfreeArea area after = some { after with areas := host.areas } := by
  have found : after.areas area = some flags := by
    rw [areas]
    exact Function.update_self area (some flags) host.areas
  have undone : Function.update after.areas area none = host.areas := by
    rw [areas]
    unfold Host.withArea
    rw [Function.update_idem, ← unused, Function.update_eq_self]
  simp only [kfreeArea, found, undone]

end Areas

section Undo

/-- An area that is to be added to an image: it starts with a page, and nothing has it yet. -/
structure NewArea (image : Image) (host : Host) (space : Space) (page stop area : Nat)
    (flags : Flags) : Prop where
  sound : Sound image host space
  nonempty : page * pageSize < stop
  user : stop ≤ 2 ^ 47
  nonzero : area ≠ 0
  unused : host.areas area = none

variable {image : Image} {host after : Host} {space : Space} {page stop area : Nat} {flags : Flags}

theorem NewArea.fresh (new : NewArea image host space page stop area flags)
    {c : Area} (mem : c ∈ areasOf image.vmtree) : c.val ≠ area := by
  rintro rfl
  have live := new.sound.live c mem
  rw [new.unused] at live
  cases live

theorem NewArea.inserts (new : NewArea image host space page stop area flags)
    (mem : AllocOracle) : Inserts image.vmtree (page * pageSize) stop area
      (vmtreeInsert image.vmtree (page * pageSize) stop area mem) := by
  have top : stop ≤ uintptrMax := by
    have := new.user
    unfold uintptrMax
    omega
  exact new.sound.canonicalTree.inserts new.nonzero new.nonempty top (fun c mem => new.fresh mem)
    mem

/-- An image whose vmtree was only cut elsewhere can be given back. -/
theorem Releasable.recut (sound : Sound image host space) {less : Space} {ptbl : Pagetable}
    {vmtree : Node} (wf : ptbl.Wf) (tree : VmTree.Wf vmtree 0 uintptrMax) (maps : Maps ptbl less)
    (sub : ∀ p ∈ pagesOf (areasOf image.vmtree), ∀ f, less p = some f → space p = some f)
    (areas : ∀ c, c ∈ areasOf vmtree ↔ c ∈ areasOf image.vmtree)
    (spares : Spares host after ∅ ∅) :
    Releasable { ptbl := ptbl, vmtree := vmtree } after less := by
  have same : pagesOf (areasOf vmtree) = pagesOf (areasOf image.vmtree) := by
    ext p
    simp only [pagesOf, Set.mem_ofPred_eq, areas]
  refine ⟨wf, tree, maps, ⟨tree.mapped_pairwise, ?_, ?_⟩, ?_, ?_, ?_, ?_⟩
  · exact fun c mem => sound.aligned.bounds c ((areas c).mp mem)
  · exact fun c mem => sound.aligned.aligned c ((areas c).mp mem)
  · intro c mem
    have live := sound.live c ((areas c).mp mem)
    rw [spares.areas c.val (Set.notMem_empty _) live]
    exact live
  · exact fun c memC d memD => sound.distinct c ((areas c).mp memC) d ((areas d).mp memD)
  · intro p mem f found
    dsimp only at mem
    rw [same] at mem
    obtain ⟨out, small⟩ := sound.taken p mem f (sub p mem f found)
    exact ⟨spares.pool f (Set.notMem_empty f) out, small⟩
  · intro p memP q memQ f foundP foundQ
    dsimp only at memP memQ
    rw [same] at memP memQ
    exact sound.injective p memP q memQ f (sub p memP f foundP) (sub q memQ f foundQ)

/-- The vmtree has taken the new area, and nothing else has happened yet. -/
structure Placed (image : Image) (host : Host) (page stop area : Nat) (flags : Flags)
    (vmtree : Node) (mid : Host) : Prop where
  canonical : Canonical vmtree
  outside : ∀ c ∈ areasOf image.vmtree, c.hi ≤ page * pageSize ∨ stop ≤ c.lo
  areas : ∀ c, c ∈ areasOf vmtree ↔ c ∈ areasOf image.vmtree ∨ c = ⟨page * pageSize, stop, area⟩
  live : mid.areas = (host.withArea area flags).areas
  pool : mid.pool = host.pool
  bytes : mid.bytes = host.bytes

theorem NewArea.placed (new : NewArea image host space page stop area flags) {mem : AllocOracle}
    (inserted : (vmtreeInsert image.vmtree (page * pageSize) stop area mem).1 = .ok) :
    Placed image host page stop area flags
      (vmtreeInsert image.vmtree (page * pageSize) stop area mem).2
      { host.withArea area flags with nodes := host.nodes.tail } := by
  obtain ⟨canonical, outside, areas⟩ := (new.inserts mem).ok inserted
  exact ⟨canonical, outside, areas, rfl, rfl, rfl⟩

variable {vmtree : Node} {mid : Host}

/-- A page of the new area belongs to no area that was there before. -/
theorem Placed.apart (placed : Placed image host page stop area flags vmtree mid)
    (nonempty : page * pageSize < stop) {p : Nat} (mem : p ∈ pagesOf (areasOf image.vmtree)) :
    p < page ∨ page + pageCount (stop - page * pageSize) ≤ p := by
  obtain ⟨c, memC, low, high⟩ := mem
  have either := placed.outside c memC
  unfold pageCount
  rw [pageSize_eq] at *
  omega

/-- The pages of the new area were not mapped. -/
theorem NewArea.unmapped (new : NewArea image host space page stop area flags)
    (placed : Placed image host page stop area flags vmtree mid) {i : Nat}
    (lower : i < pageCount (stop - page * pageSize)) : space (page + i) = none := by
  rcases found : space (page + i) with _ | f
  · rfl
  · have apart := placed.apart new.nonempty (new.sound.mem_pages found)
    omega

/-- What is spared from here on was spared by placing the area, too. -/
theorem NewArea.spares (new : NewArea image host space page stop area flags)
    (placed : Placed image host page stop area flags vmtree mid)
    (spares : Spares mid after ∅ ∅) : Spares host after ∅ ∅ := by
  have first : Spares host (host.withArea area flags) ∅ ∅ := spares_withArea new.unused
  have second : Spares (host.withArea area flags) mid ∅ ∅ :=
    .of_same placed.pool placed.bytes placed.live
  exact (first.trans second).trans spares

/-- Once all its pages are mapped, the image is sound with the new area. -/
theorem NewArea.complete (new : NewArea image host space page stop area flags)
    (placed : Placed image host page stop area flags vmtree mid)
    {ptbl : Pagetable} {frames : Nat → Nat}
    (wf : ptbl.Wf) (maps : Maps ptbl (space.put page (pageCount (stop - page * pageSize)) frames))
    (takes : Takes mid (pageCount (stop - page * pageSize)) frames after) :
    Sound { ptbl := ptbl, vmtree := vmtree } after
      (space.put page (pageCount (stop - page * pageSize)) frames) := by
  have sound := new.sound
  have nonempty := new.nonempty
  have pool := placed.pool
  have areas := placed.areas
  have covers (p : Nat) : p ∈ pagesOf (areasOf vmtree) ↔ p ∈ pagesOf (areasOf image.vmtree) ∨
      (page ≤ p ∧ p < page + pageCount (stop - page * pageSize)) := by
    have range : (page * pageSize ≤ p * pageSize ∧ p * pageSize < stop) ↔
        page ≤ p ∧ p < page + pageCount (stop - page * pageSize) := by
      unfold pageCount
      rw [pageSize_eq] at *
      omega
    simp only [pagesOf, Set.mem_ofPred_eq, areas, or_and_right, exists_or, exists_eq_left, range]
  have taken (p f : Nat)
      (found : space.put page (pageCount (stop - page * pageSize)) frames p = some f) :
      f ∉ after.pool ∧ f < 2 ^ 40 := by
    rcases Space.put_cases found with ⟨i, lower, -, rfl⟩ | ⟨-, old⟩
    · exact ⟨fun mem => ((takes.pool _).mp mem).2 i lower rfl, takes.small i lower⟩
    · obtain ⟨out, small⟩ := sound.frame_taken old
      exact ⟨fun mem => out (pool ▸ ((takes.pool f).mp mem).1), small⟩
  refine ⟨⟨wf, placed.canonical.wf, maps, ⟨placed.canonical.wf.mapped_pairwise, ?_, ?_⟩, ?_, ?_,
    fun p _ f => taken p f, ?_⟩, placed.canonical.separated, fun p => ?_⟩
  · intro c mem
    rcases (areas c).mp mem with old | rfl
    · exact sound.aligned.bounds c old
    · exact ⟨nonempty, new.user⟩
  · intro c mem
    rcases (areas c).mp mem with old | rfl
    · exact sound.aligned.aligned c old
    · exact Nat.mul_mod_left _ _
  · intro c mem
    rcases (areas c).mp mem with old | rfl
    · rw [(new.spares placed takes.spares).areas c.val (Set.notMem_empty _) (sound.live c old)]
      exact sound.live c old
    · rw [takes.areas, placed.live]
      simp [Host.withArea]
  · intro c memC d memD same
    rcases (areas c).mp memC with oldC | rfl <;> rcases (areas d).mp memD with oldD | rfl
    · exact sound.distinct c oldC d oldD same
    · exact absurd same (new.fresh oldC)
    · exact absurd same.symm (new.fresh oldD)
    · rfl
  · intro p _ q _ f foundP foundQ
    rcases Space.put_cases foundP with ⟨i, lower, rfl, rfl⟩ | ⟨-, oldP⟩ <;>
      rcases Space.put_cases foundQ with ⟨j, lower', rfl, same⟩ | ⟨-, oldQ⟩
    · rw [takes.distinct i lower j lower' same]
    · exact absurd (pool ▸ takes.free i lower) (sound.frame_taken oldQ).1
    · subst same
      exact absurd (pool ▸ takes.free j lower') (sound.frame_taken oldP).1
    · exact sound.injective p (sound.mem_pages oldP) q (sound.mem_pages oldQ) f oldP oldQ
  · rw [covers p, ← sound.covered p]
    unfold Space.put
    split
    · rename_i inside
      simp [inside]
    · rename_i off
      simp [off]

/-- All that the new image has beyond the old one was free. -/
theorem NewArea.grows (new : NewArea image host space page stop area flags)
    (placed : Placed image host page stop area flags vmtree mid)
    {ptbl : Pagetable} {frames : Nat → Nat} {count : Nat}
    (takes : Takes mid count frames after) :
    Grows image host space { ptbl := ptbl, vmtree := vmtree } after
      (space.put page count frames) where
  frames := by
    intro p _ f found
    rcases Space.put_cases found with ⟨i, lower, -, rfl⟩ | ⟨-, old⟩
    · exact .inr (placed.pool ▸ takes.free i lower)
    · exact .inl ⟨new.sound.mem_pages old, old⟩
  areas := by
    intro c mem
    rcases (placed.areas c).mp mem with old | rfl
    · exact .inl old
    · exact .inr new.unused
  spares := new.spares placed takes.spares

/-- With all its pages the new area accounts for what is no longer free. -/
theorem NewArea.extends (new : NewArea image host space page stop area flags)
    (placed : Placed image host page stop area flags vmtree mid)
    {ptbl : Pagetable} {frames : Nat → Nat}
    (takes : Takes mid (pageCount (stop - page * pageSize)) frames after) :
    Extends image host space { ptbl := ptbl, vmtree := vmtree } after
      (space.put page (pageCount (stop - page * pageSize)) frames) where
  toGrows := new.grows placed takes
  pages := by
    intro p f found
    have apart := placed.apart new.nonempty (new.sound.mem_pages found)
    rw [Space.put_outside apart]
    exact found
  old := fun c mem => (placed.areas c).mpr (.inl mem)
  pool := by
    intro f free
    by_cases chosen : ∃ i < pageCount (stop - page * pageSize), frames i = f
    · obtain ⟨i, lower, rfl⟩ := chosen
      exact .inr ⟨page + i, Space.put_inside lower⟩
    · refine .inl ((takes.pool f).mpr ⟨placed.pool ▸ free, fun i lower same => ?_⟩)
      exact chosen ⟨i, lower, same⟩
  live := by
    intro a live
    by_cases own : a = area
    · exact .inr ⟨_, (placed.areas _).mpr (.inr rfl), own.symm⟩
    · have same : after.areas a = host.areas a := by
        rw [takes.areas, placed.live]
        exact Function.update_of_ne own _ _
      exact .inl (same ▸ live)

/-- An image has the areas it had before and can be given back. -/
structure Undone (image : Image) (host : Host) (space : Space) (image' : Image) (after : Host)
    (less : Space) : Prop where
  releasable : Releasable image' after less
  areas : ∀ c, c ∈ areasOf image'.vmtree ↔ c ∈ areasOf image.vmtree
  sub : ∀ p ∈ pagesOf (areasOf image.vmtree), ∀ f, less p = some f → space p = some f
  spares : Spares host after ∅ ∅

theorem Undone.grows {image' : Image} {less : Space}
    (undone : Undone image host space image' after less) :
    Grows image host space image' after less where
  frames := by
    rintro p ⟨c, memC, range⟩ f found
    have mem : p ∈ pagesOf (areasOf image.vmtree) := ⟨c, (undone.areas c).mp memC, range⟩
    exact .inl ⟨mem, undone.sub p mem f found⟩
  areas := fun c mem => .inl ((undone.areas c).mp mem)
  spares := undone.spares

/-- The area is freed when the vmtree does not take it. -/
theorem NewArea.refused (new : NewArea image host space page stop area flags) {mem : AllocOracle}
    (failed : (vmtreeInsert image.vmtree (page * pageSize) stop area mem).1 ≠ .ok) {mid : Host}
    (live : mid.areas = (host.withArea area flags).areas) (pool : mid.pool = host.pool)
    (bytes : mid.bytes = host.bytes) :
    ∃ after, kfreeArea area mid = some after ∧ Undone image host space
      { image with vmtree := (vmtreeInsert image.vmtree (page * pageSize) stop area mem).2 } after
      space := by
  have inserts := new.inserts mem
  have kept := inserts.failed failed
  have spares : Spares host { mid with areas := host.areas } ∅ ∅ := .of_same pool bytes rfl
  have sub : ∀ p ∈ pagesOf (areasOf image.vmtree), ∀ f, space p = some f → space p = some f :=
    fun _ _ _ found => found
  refine ⟨_, kfreeArea_new new.unused live, ?_, kept, sub, spares⟩
  exact .recut new.sound new.sound.wf inserts.wf new.sound.maps sub kept spares

/-- The end of a call that has stopped takes the area away. -/
theorem NewArea.undo (new : NewArea image host space page stop area flags)
    (placed : Placed image host page stop area flags vmtree mid)
    {ptbl : Pagetable} {frames : Nat → Nat} {count current : Nat}
    (stopped : Stopped space page (pageCount (stop - page * pageSize)) mid count frames ptbl
      current after) :
    ∃ image' after' less, undoRange { ptbl := ptbl, vmtree := vmtree } area (page * pageSize) stop
        current after = some (image', after') ∧ Undone image host space image' after' less := by
  obtain ⟨wf, ⟨less, sub, maps⟩, takes, le, here⟩ := stopped
  have areas := placed.areas
  have pool := placed.pool
  have user : page + count ≤ userPages := by
    have := new.user
    have := new.nonempty
    unfold userPages pageCount at *
    rw [pageSize_eq] at *
    omega
  have len : current - page * pageSize = count * pageSize := by
    rw [here, Nat.add_mul, Nat.add_sub_cancel_left]
  have rounds : pageCount (count * pageSize) = count := by
    unfold pageCount
    rw [pageSize_eq]
    omega
  have returnable : Returnable less page count after := by
    refine ⟨user, fun i lower f found => ?_, fun i lower j lower' f found found' => ?_⟩
    · have kept := sub _ _ found
      rw [Space.put_inside lower] at kept
      cases kept
      exact ⟨fun mem => ((takes.pool _).mp mem).2 i lower rfl, takes.small i lower⟩
    · have first := sub _ _ found
      have second := sub _ _ found'
      rw [Space.put_inside lower] at first
      rw [Space.put_inside lower'] at second
      have same := (Option.some.inj first).trans (Option.some.inj second).symm
      exact takes.distinct i lower j lower' same
  obtain ⟨pool', freed, returned⟩ := freePages_spec maps returnable
  obtain ⟨unmapped, call, wf', less', sub', maps'⟩ := maps.unmap wf user after.tables
  have member : (⟨page * pageSize, stop, area⟩ : Area) ∈ areasOf vmtree := (areas _).mpr (.inr rfl)
  obtain ⟨-, tree, removed⟩ := placed.canonical.removes member after.nodes.head
  let last : Host := { after with
    pool := pool', tables := unmapped.mem, nodes := after.nodes.tail, areas := host.areas }
  have unlinked : kfreeArea area { after with
      pool := pool', tables := unmapped.mem, nodes := after.nodes.tail } = some last :=
    kfreeArea_new new.unused (takes.areas.trans placed.live)
  refine ⟨{ ptbl := unmapped.ptbl
            vmtree := (vmtreeRemove vmtree (page * pageSize) stop after.nodes.head).2 },
    last, less', ?_, ?_⟩
  · unfold undoRange freeMappedRange
    rw [len, rounds, freed]
    simp only [Option.bind_eq_bind, Option.bind_some, call, unlinked]
    rfl
  have kept (c : Area) : c ∈ areasOf (vmtreeRemove vmtree (page * pageSize) stop
      after.nodes.head).2 ↔ c ∈ areasOf image.vmtree := by
    refine (removed c).trans ?_
    constructor
    · rintro ⟨mem, ne⟩
      exact ((areas c).mp mem).resolve_right ne
    · intro mem
      refine ⟨(areas c).mpr (.inl mem), ?_⟩
      rintro rfl
      exact new.fresh mem rfl
  have spares : Spares host last ∅ ∅ := by
    refine ⟨fun f _ out back => ?_, fun f away out r small => ?_, fun _ _ _ => rfl⟩
    · rcases (returned f).mp back with old | ⟨p, ⟨low, high⟩, found⟩
      · exact out (pool ▸ ((takes.pool f).mp old).1)
      · rcases Space.put_cases (sub p f found) with ⟨i, lower, -, rfl⟩ | ⟨off, -⟩
        · exact out (pool ▸ takes.free i lower)
        · omega
    · have same := takes.spares.bytes f away (pool ▸ out) r small
      rw [placed.bytes] at same
      exact same
  have inside : ∀ p ∈ pagesOf (areasOf image.vmtree), ∀ f, less' p = some f → space p = some f := by
    intro p mem f found
    have off := placed.apart new.nonempty mem
    rcases Space.put_cases (sub p f (sub' p f found)) with ⟨i, lower, rfl, -⟩ | ⟨-, old⟩
    · omega
    · exact old
  exact ⟨.recut new.sound wf' tree maps' inside kept spares, kept, inside, spares⟩

end Undo

section MapSection

variable {image : Image} {host : Host} {space : Space}

theorem Adds.empty {memory : Nat → Option UInt8} {start : Nat} {byte : Nat → UInt8} :
    Adds memory start 0 byte memory :=
  ⟨fun _ _ _ => by omega, fun _ _ _ => by omega, fun _ _ => rfl⟩

/-- `map_section` adds the pages of a section with its bytes, or fails. -/
theorem mapSection_spec (sound : Sound image host space) (file : Memory) (data filesz flags : Nat)
    {page memsz : Nat} (user : page * pageSize + memsz ≤ 2 ^ 47) :
    ∃ result, (mapSection file image data filesz (page * pageSize) memsz flags host).value =
        some result ∧
      Outcome image host space (Adds (image.memory host) (page * pageSize)
        (pageCount memsz * pageSize) (sectionByte file data filesz)) result := by
  unfold mapSection
  by_cases empty : memsz = 0
  · rw [if_pos empty]
    refine ⟨_, rfl, .done sound .refl ?_⟩
    rw [empty]
    exact .empty
  rw [if_neg empty]
  rcases allocated : kzallocArea (elfFlagsToPtblFlags flags) host with ⟨_ | area, mid⟩
  · obtain rfl := kzallocArea_none allocated
    have spares : Spares host { host with pointers := host.pointers.tail } ∅ ∅ :=
      .of_same rfl rfl rfl
    refine ⟨_, rfl, .failed (by decide) ?_ ⟨fun p mem f found => .inl ⟨mem, found⟩,
      fun c mem => .inl mem, spares⟩⟩
    exact sound.toReleasable.spared spares (fun _ _ _ _ => Set.notMem_empty _)
      fun _ _ => Set.notMem_empty _
  obtain ⟨nonzero, unused, rfl⟩ := kzallocArea_some allocated
  have new : NewArea image host space page (page * pageSize + memsz) area
      (elfFlagsToPtblFlags flags) := ⟨sound, by omega, user, nonzero, unused⟩
  have len : page * pageSize + memsz - page * pageSize = memsz := Nat.add_sub_cancel_left _ _
  let mid : Host := { host.withArea area (elfFlagsToPtblFlags flags) with nodes := host.nodes.tail }
  have nodes : (host.withArea area (elfFlagsToPtblFlags flags)).nodes = host.nodes := rfl
  simp only [nodes]
  by_cases inserted : (vmtreeInsert image.vmtree (page * pageSize) (page * pageSize + memsz) area
      host.nodes.head).1 = .ok
  swap
  · obtain ⟨after, freed, undone⟩ := @NewArea.refused _ _ _ _ _ _ _ new _ inserted mid rfl rfl rfl
    rw [if_pos inserted]
    refine ⟨_, congrArg (Option.map _) freed, .failed ?_ undone.releasable undone.grows⟩
    split <;> decide
  rw [if_neg (not_not.mpr inserted)]
  have placed := new.placed inserted
  let job : Job := { file := file, data := data, filesz := filesz, page := page, memsz := memsz
                     space := space, host := mid }
  have filling : Filling job 0 (fun _ => 0)
      { order := sectionOrder memsz 64 0, filesz := filesz, bytes := data,
        current := page * pageSize, memsz := memsz, ptbl := image.ptbl, host := mid } := by
    refine ⟨.start sound.wf sound.maps, Nat.zero_le _, rfl, ?_, ?_, ?_⟩ <;> simp [job]
  have room : page + pageCount memsz ≤ userPages := by
    unfold userPages pageCount
    rw [pageSize_eq] at *
    omega
  obtain ⟨whole, s', count, frames, returned, reached⟩ := sectionLoop_spec
    (elfFlagsToPtblFlags flags) room (sectionOrder memsz 64 0 + pageCount memsz + 1) filling
    (Nat.lt_succ_self _)
  dsimp only [job, mid] at returned
  simp only [Reading.value_bind, returned, Reading.value_pure, Option.bind_eq_bind,
    Option.bind_some]
  cases whole with
  | true =>
      obtain ⟨rfl, filled⟩ := reached
      rw [if_pos rfl]
      have maps : Maps s'.ptbl (space.put page (pageCount memsz) frames) := filled.maps
      have takes : Takes mid (pageCount memsz) frames s'.host := filled.takes
      have sound' := new.complete placed filled.wf (len.symm ▸ maps) (len.symm ▸ takes)
      have grown : Extends image host space { ptbl := s'.ptbl, vmtree := _ } s'.host _ :=
        new.extends placed (len.symm ▸ takes)
      rw [len] at sound' grown
      refine ⟨_, rfl, .done sound' grown ?_⟩
      refine sound.adds sound' (fun i lower => ?_) (new.spares placed filled.takes.spares)
        filled.content
      exact new.unmapped placed (len.symm ▸ lower)
  | false =>
      have stopped : Stopped space page (pageCount (page * pageSize + memsz - page * pageSize)) mid
          count frames s'.ptbl s'.current s'.host := len.symm ▸ reached
      obtain ⟨image', after, less, undoing, undone⟩ := new.undo placed stopped
      rw [if_neg Bool.false_ne_true, undoing]
      exact ⟨_, rfl, .failed (by decide) undone.releasable undone.grows⟩

end MapSection

end Opal.Process
