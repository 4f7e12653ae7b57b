import Opal.Process.MapSection

/-!
# Copying the memory of a process

`process_clone_vmem` copies the areas of the parent one after the other.  A child that gets all of
them finds what its parent finds, in frames of its own.
-/

namespace Opal.Process

open Opal.PageTable
open Opal.VmTree

section Copy

/-- The bytes of a memory from an address on. -/
def bytesFrom (memory : Nat → Option UInt8) (start : Nat) : Nat → UInt8 :=
  fun offset => (memory (start + offset)).getD 0

variable {parent : Image} {start mid : Host} {parentSpace space : Space} {page count : Nat}
  {frames : Nat → Nat} {child : Pagetable}

theorem bytesFrom_eq (sound : Sound parent start parentSpace) {f r : Nat}
    (found : parentSpace (page + count) = some f) (small : r < pageSize) :
    bytesFrom (parent.memory start) (page * pageSize) (count * pageSize + r) =
      start.bytes (f * pageSize + r) := by
  have place : (page * pageSize + (count * pageSize + r)) / pageSize = page + count ∧
      (page * pageSize + (count * pageSize + r)) % pageSize = r := by
    rw [pageSize_eq] at *
    omega
  unfold bytesFrom
  rw [sound.memory_eq, place.1, place.2, found]
  rfl

/-- The loop copies the pages that are left, or stops. -/
theorem cloneLoop_spec (sound : Sound parent start parentSpace) (flags : Flags) (left : Nat)
    (user : page + (count + left) ≤ userPages)
    (mapped : ∀ i < count + left, (parentSpace (page + i)).isSome)
    (filled : Filled space page (bytesFrom (parent.memory start) (page * pageSize)) start count
      frames child mid) :
    ∃ err current ptbl after count' frames',
      cloneLoop parent.ptbl flags left ((page + count) * pageSize) child mid =
        some (err, current, ptbl, after) ∧
      (if err = .ok then count' = count + left ∧
          Filled space page (bytesFrom (parent.memory start) (page * pageSize)) start count'
            frames' ptbl after
        else Stopped space page (count + left) start count' frames' ptbl current after) := by
  induction left generalizing count frames child mid with
  | zero => exact ⟨.ok, _, child, mid, count, frames, rfl, rfl, filled⟩
  | succ left inductionHypothesis =>
      have lookup := sound.maps.page (p := page + count) (by omega)
      obtain ⟨f, found⟩ := Option.isSome_iff_exists.mp (mapped count (by omega))
      rw [found, Option.map_some] at lookup
      obtain ⟨taken, small⟩ := sound.frame_taken found
      have next : (page + count) * pageSize + pageSize = (page + (count + 1)) * pageSize := by
        rw [← Nat.add_assoc, Nat.succ_mul]
      unfold cloneLoop
      simp only [lookup, physToPfn_frame small, next]
      rcases allocated : mmAllocPage 0 mid with ⟨_ | dst, host⟩
      · obtain rfl := mmAllocPage_none allocated
        refine ⟨.enomem, _, child, _, count, frames, rfl, ?_⟩
        exact ⟨filled.wf, ⟨_, .refl, filled.maps⟩,
          filled.takes.congr rfl (fun _ _ _ _ => rfl) rfl, by omega, rfl⟩
      obtain ⟨offers, rfl⟩ := mmAllocPage_some allocated
      have room : page + count + 2 ^ 0 ≤ userPages := by omega
      obtain ⟨after, returned, wf, outcome⟩ := filled.maps.map filled.wf room offers.2.1 flags
        mid.tables
      have call : pagetableMap child ((page + count) * pageSize) (dst * pageSize) pageSize flags
          mid.tables = some after := by
        rw [pow_zero, Nat.one_mul] at returned
        exact returned
      simp only [call]
      let copied : Host := { mid with
        blocks := mid.blocks.tail, pool := mid.pool \ block dst 0, tables := after.mem
        bytes := mid.bytes.copyInto (dst * pageSize) pageSize (mid.bytes.region (f * pageSize)) }
      have away (g : Nat) (outside : g < dst ∨ dst + 2 ^ 0 ≤ g) (r : Nat) (small' : r < pageSize) :
          copied.bytes (g * pageSize + r) = mid.bytes (g * pageSize + r) :=
        Memory.copyInto_outside (by rw [pageSize_eq] at *; omega)
      rcases outcome with ⟨nonzero, maps⟩ | ⟨zero, less, sub, maps⟩
      · rw [if_neg nonzero]
        have bytes (r : Nat) (small' : r < pageSize) : mid.bytes (f * pageSize + r) =
            bytesFrom (parent.memory start) (page * pageSize) (count * pageSize + r) := by
          rw [bytesFrom_eq sound found small']
          exact filled.takes.bytes f taken r small'
        have inside (j : Nat) (lower : j < 2 ^ 0) (r : Nat) (small' : r < pageSize) :
            copied.bytes ((dst + j) * pageSize + r) =
              bytesFrom (parent.memory start) (page * pageSize) ((count + j) * pageSize + r) := by
          obtain rfl : j = 0 := by omega
          exact (Memory.copyInto_inside small').trans (bytes r small')
        have more : Filled space page (bytesFrom (parent.memory start) (page * pageSize)) start
            (count + 1) (withBlock frames count dst) after.ptbl copied :=
          filled.block offers wf maps rfl rfl away inside
        have total : count + 1 + left = count + (left + 1) := by omega
        rw [← total] at user mapped ⊢
        exact inductionHypothesis user mapped more
      · rw [if_pos zero, mmFreePage_block offers rfl, Option.map_some]
        refine ⟨.enomem, _, after.ptbl, _, count, frames, rfl, ?_⟩
        refine ⟨wf, ⟨less, sub, maps⟩, ?_, by omega, rfl⟩
        refine filled.takes.congr rfl (fun g taken' => away g ?_) rfl
        have free := offers.2.2 (mem_block.mpr ⟨le_refl dst, by omega⟩)
        have ne : g ≠ dst := fun same => taken' (same ▸ free)
        omega

end Copy

section Clone

variable {child parent : Image} {host : Host} {space parentSpace : Space}

/-- `clone_vmem_range` adds an area of the parent with its bytes, or fails. -/
theorem cloneVmemRange_spec (sound : Sound child host space)
    (soundParent : Sound parent host parentSpace) {entry : Area}
    (mem : entry ∈ areasOf parent.vmtree) :
    ∃ result, cloneVmemRange child parent.ptbl entry host = some result ∧
      Outcome child host space (Adds (child.memory host) entry.lo
        (pageCount (entry.hi - entry.lo) * pageSize)
        (bytesFrom (parent.memory host) entry.lo)) result := by
  obtain ⟨flags, live⟩ := Option.isSome_iff_exists.mp (soundParent.live entry mem)
  obtain ⟨page, start, user, range⟩ := soundParent.aligned.pages mem
  obtain ⟨nonempty, top⟩ := soundParent.aligned.bounds entry mem
  unfold cloneVmemRange
  simp only [live]
  rcases allocated : kzallocArea flags host with ⟨_ | area, mid⟩
  · obtain rfl := kzallocArea_none allocated
    have spares : Spares host { host with pointers := host.pointers.tail } ∅ ∅ :=
      .of_same rfl rfl rfl
    refine ⟨_, rfl, .failed (by decide) ?_ ⟨fun p mem f found => .inl ⟨mem, found⟩,
      fun c mem => .inl mem, spares⟩⟩
    exact sound.toReleasable.spared spares (fun _ _ _ _ => Set.notMem_empty _)
      fun _ _ => Set.notMem_empty _
  obtain ⟨nonzero, unused, rfl⟩ := kzallocArea_some allocated
  have new : NewArea child host space page entry.hi area flags :=
    ⟨sound, start ▸ nonempty, top, nonzero, unused⟩
  let mid : Host := { host.withArea area flags with nodes := host.nodes.tail }
  have nodes : (host.withArea area flags).nodes = host.nodes := rfl
  simp only [nodes, start] at range user ⊢
  by_cases inserted : (vmtreeInsert child.vmtree (page * pageSize) entry.hi area
      host.nodes.head).1 = .ok
  swap
  · obtain ⟨after, freed, undone⟩ := @NewArea.refused _ _ _ _ _ _ _ new _ inserted mid rfl rfl rfl
    rw [if_pos inserted]
    refine ⟨_, congrArg (Option.map _) freed, .failed ?_ undone.releasable undone.grows⟩
    split <;> decide
  rw [if_neg (not_not.mpr inserted)]
  have placed := new.placed inserted
  have spares : Spares host mid ∅ ∅ := new.spares placed .refl
  have soundMid : Sound parent mid parentSpace :=
    soundParent.spared spares (fun _ _ _ => Set.notMem_empty _) fun _ _ => Set.notMem_empty _
  have same : parent.memory mid = parent.memory host :=
    soundParent.memory_spared spares fun _ _ _ => Set.notMem_empty _
  have mapped (i : Nat) (lower : i < 0 + pageCount (entry.hi - page * pageSize)) :
      (parentSpace (page + i)).isSome := by
    refine (soundParent.covered _).mpr ⟨entry, mem, ?_⟩
    rw [start]
    exact (range _).mp ⟨by omega, by omega⟩
  obtain ⟨err, current, ptbl, after, count, frames, returned, reached⟩ :=
    cloneLoop_spec soundMid flags (pageCount (entry.hi - page * pageSize)) (by omega) mapped
      (.start sound.wf sound.maps)
  simp only [Nat.add_zero, Nat.zero_add] at returned reached
  dsimp only [mid] at returned
  simp only [returned, Option.bind_eq_bind, Option.bind_some]
  by_cases whole : err = .ok
  · rw [if_pos whole] at reached
    obtain ⟨rfl, filled⟩ := reached
    rw [if_pos whole]
    have sound' := new.complete placed filled.wf filled.maps filled.takes
    refine ⟨_, rfl, .done sound' (new.extends placed filled.takes) ?_⟩
    rw [← same]
    exact sound.adds sound' (fun i lower => new.unmapped placed lower)
      (new.spares placed filled.takes.spares) filled.content
  · rw [if_neg whole] at reached
    obtain ⟨image', last, less, undoing, undone⟩ := new.undo placed reached
    rw [if_neg whole, undoing]
    exact ⟨_, rfl, .failed whole undone.releasable undone.grows⟩

/-- Some pages of a memory. -/
structure Copied (memory : Nat → Option UInt8) (pages : Set Nat) (copy : Nat → Option UInt8) :
    Prop where
  inside : ∀ a, a / pageSize ∈ pages → copy a = memory a
  outside : ∀ a, a / pageSize ∉ pages → copy a = none

/-- The pages of one more area are copied. -/
theorem Copied.more {memory copy copy' : Nat → Option UInt8} {pages : Set Nat} {c : Area}
    {areas : List Area} (aligned : Aligned areas) (mem : c ∈ areas)
    (whole : ∀ a, a / pageSize ∈ pagesOf areas → (memory a).isSome)
    (copied : Copied memory pages copy)
    (adds : Adds copy c.lo (pageCount (c.hi - c.lo) * pageSize) (bytesFrom memory c.lo) copy') :
    Copied memory (pages ∪ pagesOf [c]) copy' := by
  obtain ⟨page, start, -, range⟩ := aligned.pages mem
  have covers (a : Nat) : a / pageSize ∈ pagesOf [c] ↔
      c.lo ≤ a ∧ a < c.lo + pageCount (c.hi - c.lo) * pageSize := by
    rw [mem_pagesOf_cons, pagesOf_nil, Set.mem_empty_iff_false, or_false, ← range, start]
    unfold pageRange
    rw [Set.mem_ofPred_eq, pageSize_eq]
    omega
  constructor
  · intro a within
    by_cases new : a / pageSize ∈ pagesOf [c]
    · obtain ⟨low, high⟩ := (covers a).mp new
      obtain ⟨d, memD, inside⟩ := new
      obtain rfl := List.mem_singleton.mp memD
      obtain ⟨byte, found⟩ := Option.isSome_iff_exists.mp (whole a ⟨d, mem, inside⟩)
      rw [adds.inside a low high]
      unfold bytesFrom
      rw [Nat.add_sub_cancel' low, found]
      rfl
    · have off := (covers a).not.mp new
      rw [adds.outside a (by omega)]
      exact copied.inside a (within.resolve_right new)
  · intro a off
    have away := (covers a).not.mp fun new => off (.inr new)
    rw [adds.outside a (by omega)]
    exact copied.outside a fun old => off (.inl old)

theorem cloneEntries_spec {rest : List Area} {pages : Set Nat} (sound : Sound child host space)
    (soundParent : Sound parent host parentSpace)
    (subset : ∀ c ∈ rest, c ∈ areasOf parent.vmtree)
    (copied : Copied (parent.memory host) pages (child.memory host)) :
    ∃ result, cloneEntries parent.ptbl rest child host = some result ∧
      Outcome child host space (Copied (parent.memory host) (pages ∪ pagesOf rest)) result := by
  induction rest generalizing child host space pages with
  | nil =>
      refine ⟨_, rfl, .done sound .refl ?_⟩
      rw [pagesOf_nil, Set.union_empty]
      exact copied
  | cons c rest inductionHypothesis =>
      have mem := subset c List.mem_cons_self
      obtain ⟨result, returned, outcome⟩ := cloneVmemRange_spec sound soundParent mem
      unfold cloneEntries
      rw [returned]
      cases outcome with
      | @failed err _ _ _ ne releasable grows =>
          cases err with
          | ok => exact absurd rfl ne
          | _ => exact ⟨_, rfl, .failed ne releasable grows⟩
      | @done image' after _ sound' grown adds =>
          have soundParent' : Sound parent after parentSpace :=
            soundParent.spared grown.spares (fun _ _ _ => Set.notMem_empty _)
              fun _ _ => Set.notMem_empty _
          have same : parent.memory after = parent.memory host :=
            soundParent.memory_spared grown.spares fun _ _ _ => Set.notMem_empty _
          have copied' := copied.more soundParent.aligned mem
            (fun a within => (soundParent.memory_isSome a).mpr within) adds
          rw [← same] at copied'
          obtain ⟨result', returned', outcome'⟩ := inductionHypothesis sound' soundParent'
            (fun d memD => subset d (List.mem_cons_of_mem _ memD)) copied'
          refine ⟨result', returned', outcome'.later grown fun memory copied'' => ?_⟩
          have pagesEq : pages ∪ pagesOf (c :: rest) = pages ∪ pagesOf [c] ∪ pagesOf rest := by
            ext p
            simp only [Set.mem_union, mem_pagesOf_cons, pagesOf_nil, Set.mem_empty_iff_false,
              or_false, or_assoc]
          rw [pagesEq, ← same]
          exact copied''

/-- A child finds what its parent finds, or it can be given back. -/
theorem processCloneVmem_spec (sound : Sound child host space)
    (soundParent : Sound parent host parentSpace)
    (empty : child.memory host = fun _ => none) :
    ∃ result, processCloneVmem child parent host = some result ∧
      Outcome child host space (· = parent.memory host) result := by
  have copied : Copied (parent.memory host) ∅ (child.memory host) :=
    ⟨fun _ absent => absent.elim, fun _ _ => by rw [empty]⟩
  obtain ⟨result, returned, outcome⟩ := cloneEntries_spec sound soundParent
    (fun c mem => mem) copied
  refine ⟨result, ?_, outcome.mono fun memory copied => ?_⟩
  · unfold processCloneVmem
    rw [soundParent.entries]
    exact returned
  · funext a
    by_cases within : a / pageSize ∈ pagesOf (areasOf parent.vmtree)
    · exact copied.inside a (.inr within)
    · rw [copied.outside a (fun either => either.elim (fun absent => absent.elim) within)]
      have := (soundParent.memory_isSome a).not.mpr within
      exact (Option.not_isSome_iff_eq_none.mp this).symm

end Clone

end Opal.Process
