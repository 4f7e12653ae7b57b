import Opal.Slab.Format

/-!
# What the slab keeps

The pages that are held are formatted, their free slots are those whose payload no client
owns, and the partial list has the pages with a free slot.  Between two calls every page has
a live object; inside a call one page may be spare, without any.
-/

namespace Opal.Slab

section Kept

/-- The slab with other counters and another list of partial pages. -/
def Slab.withCounts (slab : Slab) (inuseObjects totalObjects : Nat) (partialPages : List Nat) :
    Slab := { slab with inuseObjects, totalObjects, partialPages }

/-- A page that the page allocator can give out. -/
structure DirectPage (page : Nat) : Prop where
  aligned : pageSize ∣ page
  low : directMapStart ≤ page
  high : page < directMapEnd

/-- The payload of a slot. -/
def payloadAt (base : Slab) (page i : Nat) : Nat := payloadPtr base (slotObject base page i)

/-- A page, its free slots and the payloads in use. -/
structure PageState (base : Slab) (heap : Heap) (live : List Nat) (page : Nat)
    (free : List Nat) : Prop where
  formatted : Formatted base heap.bytes page (heap.pages page).freeHead free
  owner : (heap.pages page).owner = base.self
  inuse : (heap.pages page).inuse + free.length = base.pageCapacity
  unowned : ∀ i < base.pageCapacity, i ∈ free ↔ payloadAt base page i ∉ live

structure Kept (base : Slab) (spare : Option Nat) (inuseObjects totalObjects : Nat)
    (partialPages : List Nat) (heap : Heap) (live : List Nat) : Prop where
  heldNodup : heap.held.Nodup
  direct : ∀ page ∈ heap.held, DirectPage page
  page : ∀ page ∈ heap.held, ∃ free, PageState base heap live page free
  used : ∀ page ∈ heap.held, spare ≠ some page → 0 < (heap.pages page).inuse
  liveAt : ∀ ptr ∈ live, ∃ page ∈ heap.held, ∃ i < base.pageCapacity, ptr = payloadAt base page i
  liveNodup : live.Nodup
  partialNodup : partialPages.Nodup
  partial_iff : ∀ page, page ∈ partialPages ↔
    page ∈ heap.held ∧ (heap.pages page).freeHead ≠ 0
  inuseObjects : inuseObjects = live.length % 2 ^ 32
  totalObjects : totalObjects = heap.held.length * base.pageCapacity % 2 ^ 32

end Kept

section Pages

variable {base : Slab} {page other i j addr : Nat}

theorem page_apart (aligned : pageSize ∣ page) (aligned' : pageSize ∣ other)
    (differs : page ≠ other)
    (inside : page ≤ addr ∧ addr < page + pageSize) :
    ¬ (other ≤ addr ∧ addr < other + pageSize) := by
  obtain ⟨n, rfl⟩ := aligned
  obtain ⟨m, rfl⟩ := aligned'
  have apart : n ≠ m := fun same => differs (congrArg _ same)
  simp only [pageSize] at *
  omega

theorem Geometry.capacity_le (geometry : Geometry base) : base.pageCapacity ≤ pageSize := by
  have fits := geometry.fits
  have stride := geometry.stride
  have size := geometry.objectSize
  have single : base.pageCapacity ≤ base.slotStride * base.pageCapacity :=
    Nat.le_mul_of_pos_left _ (by omega)
  omega

theorem Geometry.inPayload (geometry : Geometry base) :
    InPayload base (slotObject base page i) (payloadAt base page i) := by
  have size := geometry.objectSize
  simp only [InPayload, payloadAt, payloadPtr]
  omega

theorem Geometry.payload_inPage (geometry : Geometry base) (below : i < base.pageCapacity) :
    page ≤ payloadAt base page i ∧ payloadAt base page i < page + pageSize := by
  have place := geometry.inPage_of_slot below (geometry.inSlot_of_payload
    (@Geometry.inPayload base page i geometry))
  exact ⟨Nat.le_of_add_right_le place.1, place.2⟩

/-- A payload belongs to one slot of one page. -/
theorem Geometry.payloadAt_inj (geometry : Geometry base) (aligned : pageSize ∣ page)
    (aligned' : pageSize ∣ other) (below : i < base.pageCapacity) (below' : j < base.pageCapacity)
    (same : payloadAt base page i = payloadAt base other j) : page = other ∧ i = j := by
  have pages : page = other := by
    by_contra differs
    refine page_apart aligned aligned' differs (geometry.payload_inPage below) ?_
    rw [same]
    exact geometry.payload_inPage below'
  subst pages
  refine ⟨rfl, geometry.slotAt_inj ?_⟩
  simp only [payloadAt, payloadPtr, slotObject_eq] at same
  omega

variable {heap heap' : Heap} {live live' free : List Nat}

/-- A page to which nothing happens but writes into its live payloads. -/
theorem PageState.congr (geometry : Geometry base) (state : PageState base heap live page free)
    (header : heap'.pages page = heap.pages page)
    (owned : ∀ i < base.pageCapacity, payloadAt base page i ∈ live' ↔ payloadAt base page i ∈ live)
    (same : ∀ addr, page ≤ addr → addr < page + pageSize →
      (∀ i < base.pageCapacity, payloadAt base page i ∈ live →
        ¬ InPayload base (slotObject base page i) addr) → heap'.bytes addr = heap.bytes addr) :
    PageState base heap' live' page free where
  formatted := by
    rw [header]
    refine state.formatted.congr geometry fun i below addr inside out => ?_
    have place := geometry.inPage_of_slot below inside
    refine same addr (Nat.le_of_add_right_le place.1) place.2 fun j belowJ ownedJ within => ?_
    by_cases own : j = i
    · subst own
      exact out (fun member => (state.unowned j below).mp member ownedJ) within
    · exact slot_apart own (geometry.inSlot_of_payload within) inside
  owner := header ▸ state.owner
  inuse := header ▸ state.inuse
  unowned := fun i below => by rw [state.unowned i below, owned i below]

/-- A page no byte of which has changed. -/
theorem PageState.frame (geometry : Geometry base) (state : PageState base heap live page free)
    (header : heap'.pages page = heap.pages page)
    (owned : ∀ i < base.pageCapacity, payloadAt base page i ∈ live' ↔ payloadAt base page i ∈ live)
    (same : ∀ addr, page ≤ addr → addr < page + pageSize → heap'.bytes addr = heap.bytes addr) :
    PageState base heap' live' page free :=
  state.congr geometry header owned fun addr low high _ => same addr low high

end Pages

section Create

variable {base : Slab} {heap : Heap} {live partialPages : List Nat} {page inuse total : Nat}

/-- Formatting reads the layout only. -/
theorem formatLoop_withCounts (n : Nat) :
    formatLoop (base.withCounts inuse total partialPages) page n heap =
      formatLoop base page n heap := by
  induction n generalizing heap with
  | zero => rfl
  | succ n inductionHypothesis => exact inductionHypothesis

/-- A fresh page enters the list of partial pages; it is spare until its first slot is taken. -/
theorem Kept.create (geometry : Geometry base)
    (kept : Kept base none inuse total partialPages heap live) (direct : DirectPage page)
    (fresh : page ∉ heap.held) :
    ∃ total' heap', createSlabPage (base.withCounts inuse total partialPages) heap page =
        (base.withCounts inuse total' partialPages, heap') ∧ (heap'.pages page).freeHead ≠ 0 ∧
      Kept base (some page) inuse total' (page :: partialPages) heap' live := by
  have started : Chained base heap.bytes page 0 [] := rfl
  obtain ⟨free, formatted, all, only⟩ := @formatLoop_spec base
    ({ heap with held := page :: heap.held }.setPage page
      { owner := base.self, inuse := 0, freeHead := 0 }) page base.pageCapacity [] geometry
    (Nat.le_refl _) List.nodup_nil (fun i => by simp) (by
      simp only [Heap.setPage, Function.update_self]
      exact started)
  generalize made : formatLoop base page base.pageCapacity
    ({ heap with held := page :: heap.held }.setPage page
      { owner := base.self, inuse := 0, freeHead := 0 }) = heap' at *
  have held : heap'.held = page :: heap.held := only.held
  have owner : (heap'.pages page).owner = base.self := by
    rw [only.owner]
    simp only [Heap.setPage, Function.update_self]
  have inuse_eq : (heap'.pages page).inuse = 0 := by
    rw [only.inuse]
    simp only [Heap.setPage, Function.update_self]
  have others : ∀ other ≠ page, heap'.pages other = heap.pages other := by
    intro other differs
    rw [only.pages other differs]
    simp only [Heap.setPage, Function.update_of_ne differs]
  have length : free.length = base.pageCapacity := by
    have perm : free.Perm (List.range base.pageCapacity) :=
      (List.perm_ext_iff_of_nodup formatted.nodup List.nodup_range).mpr fun i => by
        rw [all i, List.mem_range]
    rw [perm.length_eq, List.length_range]
  have nonzero : (heap'.pages page).freeHead ≠ 0 := by
    intro zero
    have empty := (formatted.chained.head_eq_zero_iff geometry).mp zero
    rw [empty, List.length_nil] at length
    exact absurd length.symm (Nat.ne_of_gt geometry.capacity)
  -- no client owns a payload of a page that was not held
  have unowned : ∀ i < base.pageCapacity, payloadAt base page i ∉ live := by
    intro i below member
    obtain ⟨other, otherHeld, j, belowJ, same⟩ := kept.liveAt _ member
    obtain ⟨rfl, -⟩ := geometry.payloadAt_inj direct.aligned (kept.direct other otherHeld).aligned
      below belowJ same
    exact fresh otherHeld
  refine ⟨(total + base.pageCapacity) % 2 ^ 32, heap', ?_, nonzero, ?_⟩
  · exact congrArg (Prod.mk _) ((formatLoop_withCounts _).trans made)
  refine ⟨?_, ?_, ?_, ?_, ?_, kept.liveNodup, ?_, ?_, kept.inuseObjects, ?_⟩
  · rw [held]
    exact List.nodup_cons.mpr ⟨fresh, kept.heldNodup⟩
  · rw [held]
    exact List.forall_mem_cons.mpr ⟨direct, kept.direct⟩
  · rw [held]
    refine List.forall_mem_cons.mpr ⟨⟨free, formatted, owner, ?_, ?_⟩, fun other member => ?_⟩
    · rw [inuse_eq, Nat.zero_add, length]
    · intro i below
      exact ⟨fun _ => unowned i below, fun _ => (all i).mpr below⟩
    · have differs : other ≠ page := fun same => fresh (same ▸ member)
      obtain ⟨free', state⟩ := kept.page other member
      refine ⟨free', state.frame geometry (others other differs) (fun _ _ => Iff.rfl) ?_⟩
      intro addr low high
      exact only.bytes addr (page_apart (kept.direct other member).aligned direct.aligned differs
        ⟨low, high⟩)
  · rw [held]
    refine List.forall_mem_cons.mpr ⟨fun spare => absurd rfl spare, fun other member _ => ?_⟩
    have differs : other ≠ page := fun same => fresh (same ▸ member)
    rw [others other differs]
    exact kept.used other member nofun
  · intro ptr member
    obtain ⟨other, otherHeld, place⟩ := kept.liveAt ptr member
    exact ⟨other, held ▸ List.mem_cons_of_mem _ otherHeld, place⟩
  · refine List.nodup_cons.mpr ⟨fun member => ?_, kept.partialNodup⟩
    exact fresh ((kept.partial_iff page).mp member).1
  · intro other
    rw [held, List.mem_cons, List.mem_cons]
    by_cases same : other = page
    · subst same
      exact ⟨fun _ => ⟨.inl rfl, nonzero⟩, fun _ => .inl rfl⟩
    · rw [others other same]
      simp only [same, false_or]
      exact kept.partial_iff other
  · have before := kept.totalObjects
    rw [held, List.length_cons, Nat.succ_mul]
    omega

end Create

end Opal.Slab
