import Opal.Library.Ranges
import Opal.Sections.Temporary

/-!
# The page descriptors

`build_metadata` maps the part of the array of page descriptors that describes the frames of
the sections.  The descriptors of a section seldom end with a page, so the next section may
need a page that is mapped already; only where the mapped part ends is remembered.
-/

namespace Opal.Sections

open Buddy Library

section Operations

/-- `sizeof(struct page)`. -/
def sizeofPage : Nat := 24

/-- `PAGES_START_VIRT`. -/
def pagesStartVirt : Nat := 0xffffc90000000000

structure MetaRanges where
  pfnStart : Nat
  pfnEnd : Nat
  pageStart : Nat
  pageEnd : Nat
  deriving DecidableEq, Repr

def metaRangesForEntry (entry : Section) : MetaRanges :=
  let pfnStart := entry.addr / pageSize
  let pfnEnd := (pfnStart + entry.len / pageSize) % wordSize
  let byteStart := pfnStart * sizeofPage % wordSize
  let byteEnd := pfnEnd * sizeofPage % wordSize
  { pfnStart := pfnStart
    pfnEnd := pfnEnd
    pageStart := byteStart / pageSize
    pageEnd := (byteEnd + pageSize - 1) % wordSize / pageSize }

/-- A call of `pagetable_map`. -/
structure Mapping where
  va : Nat
  pa : Nat
  len : Nat
  deriving DecidableEq, Repr

def Mapping.range (mapping : Mapping) : Range := { addr := mapping.va, len := mapping.len }

/-- The allocator, the end of what is mapped and the calls of `pagetable_map`. -/
structure Mapped where
  ta : Tmpalloc
  allocatedEnd : Nat
  calls : List Mapping
  deriving DecidableEq, Repr

/-- The loop of `allocate_pages`, of which each round maps one page at least. -/
def allocatePagesLoop : Nat → Tmpalloc → Nat → Nat → Option Mapped
  | 0, _, _, _ => none
  | fuel + 1, ta, va, pagesNeeded =>
      if pagesNeeded = 0 then some { ta := ta, allocatedEnd := va, calls := [] }
      else do
        let (allocation, ta) ← tmpallocAllocPages ta pagesNeeded
        let len := allocation.pages * pageSize % wordSize
        let mapped ← allocatePagesLoop fuel ta ((va + len) % wordSize)
          (pagesNeeded - allocation.pages)
        some { mapped with
          calls := { va := va, pa := allocation.addr, len := len } :: mapped.calls }

def allocatePages (ta : Tmpalloc) (va pagesNeeded allocatedEnd : Nat) : Option Mapped :=
  let pagesAllocated := if allocatedEnd > va then (allocatedEnd - va) / pageSize else 0
  if allocatedEnd > va ∧ pagesNeeded ≤ pagesAllocated then
    some { ta := ta, allocatedEnd := allocatedEnd, calls := [] }
  else
    allocatePagesLoop (pagesNeeded + 1) ta ((va + pagesAllocated * pageSize) % wordSize)
      (pagesNeeded - pagesAllocated)

/-- `build_metadata` with `STAGE_ALLOC`, from one section on. -/
def buildMetadataFrom (ta : Tmpalloc) (allocatedEnd : Nat) : SectionMap → Option Mapped
  | [] => some { ta := ta, allocatedEnd := allocatedEnd, calls := [] }
  | entry :: rest => do
      let ranges := metaRangesForEntry entry
      let pagesNeeded := (ranges.pageEnd + (wordSize - ranges.pageStart)) % wordSize
      let vaStart := (pagesStartVirt + ranges.pageStart * pageSize) % wordSize
      let mapped ← allocatePages ta vaStart pagesNeeded allocatedEnd
      let more ← buildMetadataFrom mapped.ta mapped.allocatedEnd rest
      some { more with calls := mapped.calls ++ more.calls }

/-- `build_metadata` with `STAGE_ALLOC`; `none` stands for a panic of the allocator. -/
def buildMetadata (ta : Tmpalloc) (sectionMap : SectionMap) : Option Mapped :=
  buildMetadataFrom ta pagesStartVirt sectionMap

end Operations

section Rounds

variable {fuel fuel' va pagesNeeded : Nat} {ta : Tmpalloc} {mapped : Mapped}

/-- The fuel is enough for all rounds of the loop. -/
theorem allocatePagesLoop_fuel (enough : pagesNeeded < fuel) (enough' : pagesNeeded < fuel') :
    allocatePagesLoop fuel ta va pagesNeeded = allocatePagesLoop fuel' ta va pagesNeeded := by
  induction fuel generalizing fuel' ta va pagesNeeded with
  | zero => cases enough
  | succ fuel inductionHypothesis =>
      cases fuel' with
      | zero => cases enough'
      | succ fuel' =>
          simp only [allocatePagesLoop]
          split
          · rfl
          · refine Option.bind_congr fun ⟨allocation, ta₁⟩ call => ?_
            have positive := (tmpallocAllocPages_pages call).1
            simp only
            rw [@inductionHypothesis fuel' _ _ _ (by omega) (by omega)]

/-- The loop maps the pages that are needed, each once. -/
theorem allocatePagesLoop_spec (bounded : va + pagesNeeded * pageSize < wordSize)
    (returned : allocatePagesLoop fuel ta va pagesNeeded = some mapped) :
    mapped.allocatedEnd = va + pagesNeeded * pageSize ∧
      ∀ a, covers (mapped.calls.map Mapping.range) a =
        if va ≤ a ∧ a < va + pagesNeeded * pageSize then 1 else 0 := by
  induction fuel generalizing ta va pagesNeeded mapped with
  | zero => cases returned
  | succ fuel inductionHypothesis =>
      unfold allocatePagesLoop at returned
      split at returned
      · rename_i none_left
        cases returned
        subst none_left
        refine ⟨by simp, fun a => ?_⟩
        rw [if_neg (by omega)]
        rfl
      · obtain ⟨⟨allocation, ta₁⟩, call, continued⟩ := Option.bind_eq_some_iff.mp returned
        obtain ⟨later, loop, finished⟩ := Option.bind_eq_some_iff.mp continued
        clear returned continued
        cases finished
        obtain ⟨positive, few⟩ := tmpallocAllocPages_pages call
        have split : pagesNeeded * pageSize =
            allocation.pages * pageSize + (pagesNeeded - allocation.pages) * pageSize := by
          rw [← Nat.add_mul, Nat.add_sub_cancel' few]
        have len : allocation.pages * pageSize % wordSize = allocation.pages * pageSize :=
          Nat.mod_eq_of_lt (by omega)
        have next : (va + allocation.pages * pageSize) % wordSize =
            va + allocation.pages * pageSize := Nat.mod_eq_of_lt (by omega)
        rw [len, next] at loop
        obtain ⟨ends, counts⟩ := inductionHypothesis (by omega) loop
        refine ⟨by rw [ends]; omega, fun a => ?_⟩
        rw [len, List.map_cons, covers_cons, counts]
        by_cases first : Range.Has { addr := va, len := allocation.pages * pageSize } a
        · have inside : va ≤ a ∧ a < va + allocation.pages * pageSize := first
          rw [Mapping.range, if_pos first, if_neg (by omega), if_pos (by omega)]
        · have outside : ¬(va ≤ a ∧ a < va + allocation.pages * pageSize) := first
          rw [Mapping.range, if_neg first, Nat.zero_add]
          exact if_congr (by omega) rfl rfl

end Rounds

section Pages

variable {ta : Tmpalloc} {mapped : Mapped} {map : SectionMap} {s t : Section}
  {first last mark p : Nat}

/-- The first page with descriptors of a section. -/
def firstPage (s : Section) : Nat := s.addr / pageSize * sizeofPage / pageSize

/-- The page behind the last one with descriptors of a section. -/
def endPage (s : Section) : Nat := (s.stop / pageSize * sizeofPage + pageSize - 1) / pageSize

/-- The page of the descriptor array holds bytes of the descriptor of a frame of a section. -/
def Describes (map : SectionMap) (p : Nat) : Prop :=
  ∃ s ∈ map, ∃ frame, s.addr ≤ frame * pageSize ∧ frame * pageSize < s.stop ∧
    ∃ byte, frame * sizeofPage ≤ byte ∧ byte < (frame + 1) * sizeofPage ∧ byte / pageSize = p

/-- A section of whole pages whose descriptors lie below the last page of the addresses. -/
structure Describable (s : Section) : Prop where
  addr : pageSize ∣ s.addr
  len : pageSize ∣ s.len
  positive : s.addr < s.stop
  reach : pagesStartVirt + s.stop / pageSize * sizeofPage + pageSize ≤ wordSize

theorem Describable.firstPage_lt (describable : Describable s) :
    firstPage s < endPage s ∧ pagesStartVirt + endPage s * pageSize < wordSize := by
  obtain ⟨⟨m, addr⟩, ⟨n, len⟩, positive, reach⟩ := describable
  have start : pagesStartVirt = 0xffffc90000000000 := rfl
  have word : wordSize = 0x10000000000000000 := rfl
  have stop : s.stop = s.addr + s.len := rfl
  unfold firstPage endPage
  unfold pageSize sizeofPage at *
  omega

/-- The pages with descriptors of a section. -/
theorem describes_iff (describable : Describable s) :
    Describes [s] p ↔ firstPage s ≤ p ∧ p < endPage s := by
  obtain ⟨⟨m, addr⟩, ⟨n, len⟩, positive, -⟩ := describable
  have stop : s.stop = s.addr + s.len := rfl
  unfold firstPage endPage
  simp only [Describes, List.mem_singleton, exists_eq_left]
  unfold pageSize sizeofPage at *
  constructor
  · rintro ⟨frame, low, high, byte, lowByte, highByte, rfl⟩
    omega
  · rintro ⟨low, high⟩
    -- the first byte that the page and the descriptors have in common
    have common := le_max_left (m * 24) (p * 4096)
    refine ⟨max (m * 24) (p * 4096) / 24, ?_, ?_, max (m * 24) (p * 4096), ?_, ?_, ?_⟩
    all_goals omega

theorem describes_cons : Describes (s :: map) p ↔ Describes [s] p ∨ Describes map p := by
  simp [Describes]

theorem metaRangesForEntry_eq (describable : Describable s) :
    (metaRangesForEntry s).pageStart = firstPage s ∧
      (metaRangesForEntry s).pageEnd = endPage s := by
  obtain ⟨⟨m, addr⟩, ⟨n, len⟩, positive, reach⟩ := describable
  have start : pagesStartVirt = 0xffffc90000000000 := rfl
  have word : wordSize = 0x10000000000000000 := rfl
  have stop : s.stop = s.addr + s.len := rfl
  unfold metaRangesForEntry firstPage endPage
  unfold pageSize sizeofPage at *
  simp only [word]
  omega

/-- Descriptors of later sections begin in the last page of an earlier one, or behind it. -/
theorem endPage_le (ordered : s.stop ≤ t.addr) :
    endPage s ≤ firstPage t + 1 := by
  have frames : s.stop / pageSize ≤ t.addr / pageSize := Nat.div_le_div_right ordered
  unfold firstPage endPage
  unfold pageSize sizeofPage at *
  omega

/-- One call of `allocate_pages` maps the pages that are not mapped already. -/
theorem allocatePages_spec {base : Nat} (ordered : first ≤ last)
    (bounded : base + last * pageSize < wordSize) (boundedMark : base + mark * pageSize < wordSize)
    (returned : allocatePages ta (base + first * pageSize) (last - first)
      (base + mark * pageSize) = some mapped) :
    mapped.allocatedEnd = base + max mark last * pageSize ∧
      ∀ a, covers (mapped.calls.map Mapping.range) a =
        if base + max mark first * pageSize ≤ a ∧ a < base + last * pageSize then 1 else 0 := by
  have size : pageSize = 4096 := rfl
  unfold allocatePages at returned
  rcases le_or_gt mark first with fresh | shared
  · have untouched : ¬base + mark * pageSize > base + first * pageSize := by
      rw [size]
      omega
    have start : (base + first * pageSize) % wordSize = base + first * pageSize :=
      Nat.mod_eq_of_lt (lt_of_le_of_lt
        (Nat.add_le_add_left (Nat.mul_le_mul_right _ ordered) _) bounded)
    have whole : base + first * pageSize + (last - first) * pageSize = base + last * pageSize := by
      rw [size]
      omega
    simp only [untouched, false_and, if_false, Nat.zero_mul, Nat.add_zero, Nat.sub_zero,
      start] at returned
    obtain ⟨ends, counts⟩ := allocatePagesLoop_spec (whole.trans_lt bounded) returned
    rw [whole] at ends counts
    rw [max_eq_right (by omega), max_eq_right fresh]
    exact ⟨ends, counts⟩
  · have touched : base + mark * pageSize > base + first * pageSize := by
      rw [size]
      omega
    have allocated : (base + mark * pageSize - (base + first * pageSize)) / pageSize =
        mark - first := by
      rw [size]
      omega
    simp only [touched, allocated, true_and, if_true] at returned
    by_cases enough : last - first ≤ mark - first
    · rw [if_pos enough] at returned
      cases returned
      rw [max_eq_left (by omega), max_eq_left shared.le]
      refine ⟨rfl, fun a => ?_⟩
      rw [if_neg]
      · rfl
      · rw [size]
        omega
    · have start : (base + first * pageSize + (mark - first) * pageSize) % wordSize =
          base + mark * pageSize := by
        have same : base + first * pageSize + (mark - first) * pageSize =
            base + mark * pageSize := by
          rw [size]
          omega
        rw [same, Nat.mod_eq_of_lt boundedMark]
      have needed : last - first - (mark - first) = last - mark := by omega
      have whole : base + mark * pageSize + (last - mark) * pageSize = base + last * pageSize := by
        rw [size]
        omega
      rw [if_neg enough, start, needed] at returned
      obtain ⟨ends, counts⟩ := allocatePagesLoop_spec (whole.trans_lt bounded) returned
      rw [whole] at ends counts
      rw [max_eq_right (by omega), max_eq_left shared.le]
      exact ⟨ends, counts⟩

/-- The address lies in a page of the descriptor array that a section needs. -/
def Needed (map : SectionMap) (a : Nat) : Prop :=
  ∃ p, Describes map p ∧ pagesStartVirt + p * pageSize ≤ a ∧
    a < pagesStartVirt + (p + 1) * pageSize

/-- The count is one where the proposition holds and zero elsewhere. -/
def Indicates (count : Nat) (holds : Prop) : Prop := (holds → count = 1) ∧ (¬holds → count = 0)

theorem Indicates.congr {count : Nat} {holds holds' : Prop} (indicates : Indicates count holds)
    (same : holds ↔ holds') : Indicates count holds' := by
  rwa [propext same.symm]

/-- The pages of one section and of the sections behind it. -/
theorem indicates_add {base a count : Nat} {later : Prop} (ordered : first < last)
    (behind : mark ≤ first + 1) (shared : later → max mark last ≤ (a - base) / pageSize + 1)
    (indicates : Indicates count
      (base ≤ a ∧ max mark last ≤ (a - base) / pageSize ∧ later)) :
    Indicates ((if base + max mark first * pageSize ≤ a ∧ a < base + last * pageSize then 1 else 0)
        + count)
      (base ≤ a ∧ mark ≤ (a - base) / pageSize ∧
        ((first ≤ (a - base) / pageSize ∧ (a - base) / pageSize < last) ∨ later)) := by
  have size : pageSize = 4096 := rfl
  simp only [size] at shared indicates ⊢
  by_cases here : base + max mark first * 4096 ≤ a ∧ a < base + last * 4096
  · have nothing : count = 0 := indicates.2 fun beyond => by omega
    rw [if_pos here, nothing]
    exact ⟨fun _ => rfl, fun outside => absurd ⟨by omega, by omega, .inl (by omega)⟩ outside⟩
  · rw [if_neg here, Nat.zero_add]
    refine indicates.congr ⟨fun ⟨above, beyond, isLater⟩ => ⟨above, by omega, .inr isLater⟩, ?_⟩
    rintro ⟨above, beyond, inside | isLater⟩
    · omega
    · have bound := shared isLater
      exact ⟨above, by omega, isLater⟩

/-- What is mapped for the sections from one on, if all pages before the mark are done. -/
theorem buildMetadataFrom_spec (apart : extent.Apart map)
    (describable : ∀ s ∈ map, Describable s)
    (boundedMark : pagesStartVirt + mark * pageSize < wordSize)
    (behind : ∀ s ∈ map, mark ≤ firstPage s + 1)
    (returned : buildMetadataFrom ta (pagesStartVirt + mark * pageSize) map = some mapped)
    (a : Nat) : Indicates (covers (mapped.calls.map Mapping.range) a)
      (pagesStartVirt ≤ a ∧ mark ≤ (a - pagesStartVirt) / pageSize ∧
        Describes map ((a - pagesStartVirt) / pageSize)) := by
  induction map generalizing ta mark mapped with
  | nil =>
      cases returned
      refine ⟨?_, fun _ => rfl⟩
      rintro ⟨-, -, s, member, -⟩
      cases member
  | cons s rest inductionHypothesis =>
      obtain ⟨describableS, describableRest⟩ := List.forall_mem_cons.mp describable
      obtain ⟨behindS, behindRest⟩ := List.forall_mem_cons.mp behind
      obtain ⟨ahead, sorted⟩ := List.pairwise_cons.mp apart.sorted
      have positive := (List.forall_mem_cons.mp apart.positive).2
      obtain ⟨ordered, bounded⟩ := describableS.firstPage_lt
      obtain ⟨start, stop⟩ := metaRangesForEntry_eq describableS
      obtain ⟨done, call, continued⟩ := Option.bind_eq_some_iff.mp returned
      obtain ⟨more, later, finished⟩ := Option.bind_eq_some_iff.mp continued
      clear returned continued
      cases finished
      have pages : ((metaRangesForEntry s).pageEnd +
          (wordSize - (metaRangesForEntry s).pageStart)) % wordSize = endPage s - firstPage s := by
        have few : endPage s < wordSize := by
          refine lt_of_le_of_lt ?_ bounded
          exact le_trans (Nat.le_mul_of_pos_right _ (by decide)) (Nat.le_add_left _ _)
        rw [start, stop]
        rw [show endPage s + (wordSize - firstPage s) = endPage s - firstPage s + wordSize by omega,
          Nat.add_mod_right, Nat.mod_eq_of_lt (by omega)]
      have begins : (pagesStartVirt + (metaRangesForEntry s).pageStart * pageSize) % wordSize =
          pagesStartVirt + firstPage s * pageSize := by
        rw [start, Nat.mod_eq_of_lt]
        exact lt_of_le_of_lt (Nat.add_le_add_left (Nat.mul_le_mul_right _ ordered.le) _) bounded
      rw [pages, begins] at call
      obtain ⟨ends, counts⟩ := allocatePages_spec ordered.le bounded boundedMark call
      rw [ends] at later
      have marked : pagesStartVirt + max mark (endPage s) * pageSize < wordSize := by
        rcases le_total mark (endPage s) with later | earlier
        · exact (max_eq_right later).symm ▸ bounded
        · exact (max_eq_left earlier).symm ▸ boundedMark
      have behindMore (t : Section) (member : t ∈ rest) :
          max mark (endPage s) ≤ firstPage t + 1 :=
        max_le (behindRest t member) (endPage_le (ahead t member))
      have found := inductionHypothesis ⟨sorted, positive⟩ describableRest marked behindMore later
      -- a page that a later section shares with this one is the last one of this section
      have shared (p : Nat) (later : Describes rest p) : max mark (endPage s) ≤ p + 1 := by
        obtain ⟨t, member, rest⟩ := later
        have single : Describes [t] p := ⟨t, List.mem_singleton_self t, rest⟩
        have inFirst := (describes_iff (describableRest t member)).mp single
        exact le_trans (behindMore t member) (Nat.succ_le_succ inFirst.1)
      rw [List.map_append, covers_append, counts, describes_cons, describes_iff describableS]
      exact indicates_add ordered behindS (shared _) found

theorem needed_iff {base a : Nat} {holds : Nat → Prop} :
    (∃ p, holds p ∧ base + p * pageSize ≤ a ∧ a < base + (p + 1) * pageSize) ↔
      base ≤ a ∧ 0 ≤ (a - base) / pageSize ∧ holds ((a - base) / pageSize) := by
  have size : pageSize = 4096 := rfl
  rw [size]
  constructor
  · rintro ⟨p, holdsP, low, high⟩
    have page : (a - base) / 4096 = p := by omega
    rw [page]
    exact ⟨by omega, Nat.zero_le p, holdsP⟩
  · rintro ⟨above, -, holdsP⟩
    exact ⟨_, holdsP, by omega, by omega⟩

/-- The allocation stage maps each page that holds descriptors once, and nothing else. -/
theorem buildMetadata_exact (apart : extent.Apart map) (describable : ∀ s ∈ map, Describable s)
    (returned : buildMetadata ta map = some mapped) (a : Nat) :
    (Needed map a → covers (mapped.calls.map Mapping.range) a = 1) ∧
      (¬Needed map a → covers (mapped.calls.map Mapping.range) a = 0) := by
  have begun : pagesStartVirt + 0 * pageSize = pagesStartVirt := by
    rw [Nat.zero_mul, Nat.add_zero]
  have spec := @buildMetadataFrom_spec _ _ _ 0 apart describable (by rw [begun]; decide)
    (fun s _ => Nat.zero_le _) (by rwa [begun]) a
  exact spec.congr needed_iff.symm

/-- The allocator as `mm_init` makes it, on the section map. -/
def onSections (map : SectionMap) : Tmpalloc := { mm := map, capacity := maxMmapEntries }

/-- Two sections whose descriptors share a page. -/
def sharingSections : SectionMap := [⟨0, 0x4000, .usable⟩, ⟨0x8000, 0x2000, .usable⟩]

theorem buildMetadata_exact_sharing : ∃ mapped,
    buildMetadata (onSections sharingSections) sharingSections = some mapped ∧
      ∀ a, (Needed sharingSections a → covers (mapped.calls.map Mapping.range) a = 1) ∧
        (¬Needed sharingSections a → covers (mapped.calls.map Mapping.range) a = 0) := by
  obtain ⟨mapped, returned⟩ : ∃ mapped,
      buildMetadata (onSections sharingSections) sharingSections = some mapped :=
    Option.isSome_iff_exists.mp (by decide +kernel)
  refine ⟨mapped, returned, buildMetadata_exact ⟨by decide, by decide⟩ ?_ returned⟩
  simp only [sharingSections, List.forall_mem_cons]
  exact ⟨⟨by decide, by decide, by decide, by decide⟩, ⟨by decide, by decide, by decide, by decide⟩,
    nofun⟩

/-- An empty section before another one. -/
def emptySection : SectionMap := [⟨0x1000, 0, .usable⟩, ⟨0x100000, 0x4000, .usable⟩]

/-- Two sections, of which the descriptors of the second are beyond the address space. -/
def farSection : SectionMap := [⟨0, 0x4000, .usable⟩, ⟨55 * 2 ^ 49, 0x1000, .usable⟩]

/-- A page is mapped for a section without frames, and none for descriptors whose addresses
wrap around. -/
theorem buildMetadata_inexact :
    (∃ mapped, buildMetadata (onSections emptySection) emptySection = some mapped ∧
      emptySection.Pairwise (fun s t => s.stop ≤ t.addr) ∧ ¬Needed emptySection pagesStartVirt ∧
        covers (mapped.calls.map Mapping.range) pagesStartVirt = 1) ∧
    ∃ mapped p, buildMetadata (onSections farSection) farSection = some mapped ∧
      extent.Apart farSection ∧ Describes farSection p ∧
        covers (mapped.calls.map Mapping.range)
          ((pagesStartVirt + p * pageSize) % wordSize) = 0 := by
  refine ⟨⟨⟨⟨[⟨0x100000, 0x2000, .metadata⟩, ⟨0x102000, 0x2000, .usable⟩].insertIdx 0
      ⟨0x1000, 0, .usable⟩, maxMmapEntries⟩, pagesStartVirt + 0x2000,
      [⟨pagesStartVirt, 0x100000, 0x1000⟩, ⟨pagesStartVirt + 0x1000, 0x101000, 0x1000⟩]⟩,
      by decide +kernel, by decide, ?_, by decide⟩,
    ⟨⟨[⟨0, 0x1000, .metadata⟩, ⟨0x1000, 0x3000, .usable⟩, ⟨55 * 2 ^ 49, 0x1000, .usable⟩],
      maxMmapEntries⟩, pagesStartVirt + 0x1000, [⟨pagesStartVirt, 0, 0x1000⟩]⟩, 165 * 2 ^ 28,
      by decide +kernel, ⟨by decide, by decide⟩, ?_, by decide⟩
  · intro needed
    obtain ⟨-, -, s, member, frame, low, high, byte, lowByte, highByte, page⟩ :=
      needed_iff.mp needed
    rw [Nat.sub_self, Nat.zero_div] at page
    simp only [emptySection, List.mem_cons, List.not_mem_nil, or_false] at member
    simp only [pageSize, sizeofPage] at low high lowByte page
    rcases member with rfl | rfl
    · change 0x1000 ≤ frame * 4096 at low
      change frame * 4096 < 0x1000 at high
      omega
    · change 0x100000 ≤ frame * 4096 at low
      omega
  · exact ⟨⟨55 * 2 ^ 49, 0x1000, .usable⟩, by decide, 55 * 2 ^ 37, by decide, by decide,
      165 * 2 ^ 40, by decide, by decide, by decide⟩

end Pages

end Opal.Sections
