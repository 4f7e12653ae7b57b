import Opal.Slab.Kept

/-!
# Taking and giving back objects

`slab_alloc` takes the first slot of a partial page and `slab_free` puts the slot back in
front of the chain; a page without free slots leaves the partial list, and one without live
objects goes back to the page allocator.
-/

namespace Opal.Slab

section Take

/-- What `slab_alloc` does with the page it picked. -/
def allocFrom (slab : Slab) (heap : Heap) (page : Nat) : Run (Option Nat × Slab × Heap) := do
  kassert ((heap.pages page).freeHead ≠ 0) .noFreeObjects
  let hdr := page + (heap.pages page).freeHead
  kassert (isFree heap.bytes hdr) .objectState
  checkRedzones slab heap.bytes hdr
  checkUnusedPayload slab heap.bytes hdr
  let heap := heap.setPage page
    { heap.pages page with
      freeHead := nextFree heap.bytes hdr
      inuse := ((heap.pages page).inuse + 1) % 2 ^ 32 }
  let bytes := setIsFree (setNextFree heap.bytes hdr 0) hdr false
  let slab := { slab with inuseObjects := (slab.inuseObjects + 1) % 2 ^ 32 }
  let partialPages ← if (heap.pages page).freeHead = 0 then unlink page slab.partialPages
    else .ok slab.partialPages
  let payload := payloadPtr slab hdr
  .ok (some payload, { slab with partialPages },
    { heap with bytes := bytes.fill payload slab.objectSize 0 })

theorem slabAlloc_eq (slab : Slab) (heap : Heap) (fresh : Option Nat) :
    slabAlloc slab heap fresh = (pickAllocPage slab heap fresh >>= fun (page, slab, heap) =>
      match page with
      | none => .ok (none, slab, heap)
      | some page => allocFrom slab heap page) := rfl

theorem kassert_bind {condition : Prop} [Decidable condition] {stop : Stop} {α : Type}
    {f : Unit → Run α} (holds : condition) : (kassert condition stop >>= f) = f () := by
  rw [kassert, if_pos holds, ok_bind]

theorem unlink_ok {page : Nat} {list : List Nat} (listed : page ∈ list) :
    unlink page list = .ok (list.erase page) := by
  rw [unlink, if_pos listed]

variable {base : Slab} {spare : Option Nat} {heap : Heap} {live partialPages free rest : List Nat}
  {page i inuse total : Nat}

/-- The page after its first free slot has been taken. -/
def takenPage (base : Slab) (heap : Heap) (page i : Nat) : Heap where
  bytes := (setIsFree (setNextFree heap.bytes (slotObject base page i) 0)
    (slotObject base page i) false).fill (payloadAt base page i) base.objectSize 0
  pages := Function.update heap.pages page
    { heap.pages page with
      freeHead := nextFree heap.bytes (slotObject base page i)
      inuse := (heap.pages page).inuse + 1 }
  held := heap.held

theorem allocFrom_eq (geometry : Geometry base)
    (state : PageState base heap live page (i :: rest)) (member : page ∈ partialPages) :
    allocFrom (base.withCounts inuse total partialPages) heap page =
      .ok (some (payloadAt base page i), base.withCounts ((inuse + 1) % 2 ^ 32) total
          (if nextFree heap.bytes (slotObject base page i) = 0 then partialPages.erase page
            else partialPages),
        takenPage base heap page i) := by
  obtain ⟨head, next, slot, links⟩ := state.formatted.chained
  have nonzero : (heap.pages page).freeHead ≠ 0 := by
    intro zero
    have empty := (state.formatted.chained.head_eq_zero_iff geometry).mp zero
    exact absurd empty nofun
  have place : page + (heap.pages page).freeHead = slotObject base page i := by
    rw [head, slotObject_eq]
  have free : isFree heap.bytes (page + (heap.pages page).freeHead) := place ▸ slot.free
  have fenced : checkRedzones (base.withCounts inuse total partialPages) heap.bytes
      (page + (heap.pages page).freeHead) = .ok () := by
    have intact := checkRedzones_ok geometry slot.fenced
    rw [place]
    exact intact
  have unused : checkUnusedPayload (base.withCounts inuse total partialPages) heap.bytes
      (page + (heap.pages page).freeHead) = .ok () := by
    have filled := checkUnusedPayload_ok slot
    rw [place]
    exact filled
  have small : ((heap.pages page).inuse + 1) % 2 ^ 32 = (heap.pages page).inuse + 1 := by
    have count := state.inuse
    have capacity := geometry.capacity_le
    simp only [List.length_cons, pageSize] at *
    omega
  rw [allocFrom, kassert_bind nonzero]
  simp only
  rw [kassert_bind free, fenced, unused, ok_bind, ok_bind]
  simp only [place, small, Heap.setPage, Function.update_self]
  split
  · have listed : page ∈ (base.withCounts inuse total partialPages).partialPages := member
    rw [unlink_ok listed]
    rfl
  · rfl

/-- What becomes of the pages and payloads when one payload enters or leaves the live ones. -/
theorem Kept.others (geometry : Geometry base)
    (kept : Kept base spare inuse total partialPages heap live) {heap' : Heap} {live' : List Nat}
    {other : Nat} (held : page ∈ heap.held) (otherHeld : other ∈ heap.held)
    (differs : other ≠ page) (below : i < base.pageCapacity)
    (owned : ∀ ptr, ptr ≠ payloadAt base page i → (ptr ∈ live' ↔ ptr ∈ live))
    (pages : heap'.pages other = heap.pages other)
    (bytes : ∀ addr, ¬ InSlot base (slotObject base page i) addr →
      heap'.bytes addr = heap.bytes addr) :
    ∃ free, PageState base heap' live' other free := by
  obtain ⟨free, state⟩ := kept.page other otherHeld
  have aligned := (kept.direct page held).aligned
  have aligned' := (kept.direct other otherHeld).aligned
  refine ⟨free, state.frame geometry pages (fun j belowJ => owned _ fun same => ?_) ?_⟩
  · exact differs (geometry.payloadAt_inj aligned' aligned belowJ below same).1
  · intro addr low high
    refine bytes addr fun inside => page_apart aligned' aligned differs ⟨low, high⟩ ?_
    have place := geometry.inPage_of_slot below inside
    exact ⟨Nat.le_of_add_right_le place.1, place.2⟩

/-- Taking the first free slot of a page; the page is not spare any more. -/
theorem Kept.take (geometry : Geometry base)
    (kept : Kept base spare inuse total partialPages heap live) (held : page ∈ heap.held)
    (own : ∀ other, spare = some other → other = page)
    (state : PageState base heap live page (i :: rest)) :
    Kept base none ((inuse + 1) % 2 ^ 32) total
      (if nextFree heap.bytes (slotObject base page i) = 0 then partialPages.erase page
        else partialPages)
      (takenPage base heap page i) (payloadAt base page i :: live) := by
  obtain ⟨head, next, slot, links⟩ := state.formatted.chained
  have below : i < base.pageCapacity := state.formatted.below i List.mem_cons_self
  have becomes := slot.take geometry
  have formatted := state.formatted.take geometry becomes
  have absent : payloadAt base page i ∉ live :=
    (state.unowned i below).mp List.mem_cons_self
  obtain ⟨notRest, nodup⟩ := List.nodup_cons.mp state.formatted.nodup
  have aligned := (kept.direct page held).aligned
  have header : (takenPage base heap page i).pages page = { heap.pages page with
      freeHead := nextFree heap.bytes (slotObject base page i)
      inuse := (heap.pages page).inuse + 1 } := Function.update_self _ _ _
  have others : ∀ other ≠ page, (takenPage base heap page i).pages other = heap.pages other :=
    fun other differs => Function.update_of_ne differs _ _
  refine ⟨kept.heldNodup, kept.direct, ?_, ?_, ?_, List.nodup_cons.mpr ⟨absent, kept.liveNodup⟩,
    ?_, ?_, ?_, kept.totalObjects⟩
  · intro other otherHeld
    by_cases differs : other = page
    · subst differs
      refine ⟨rest, ?_, ?_, ?_, ?_⟩
      · rw [header]
        exact formatted
      · rw [header]
        exact state.owner
      · rw [header]
        have count := state.inuse
        simp only [List.length_cons] at count ⊢
        omega
      · intro j belowJ
        have before := state.unowned j belowJ
        rw [List.mem_cons, not_or]
        constructor
        · intro member
          refine ⟨fun same => ?_, before.mp (List.mem_cons_of_mem _ member)⟩
          obtain ⟨-, rfl⟩ := geometry.payloadAt_inj aligned aligned belowJ below same
          exact notRest member
        · rintro ⟨apart, out⟩
          rcases List.mem_cons.mp (before.mpr out) with rfl | member
          · exact absurd rfl apart
          · exact member
    · exact kept.others geometry held otherHeld differs below
        (fun ptr apart => by simp [apart]) (others other differs) becomes.outside
  · intro other otherHeld _
    by_cases differs : other = page
    · subst differs
      rw [header]
      exact Nat.succ_pos _
    · rw [others other differs]
      exact kept.used other otherHeld fun same => differs (own other same)
  · intro ptr member
    rcases List.mem_cons.mp member with rfl | old
    · exact ⟨page, held, i, below, rfl⟩
    · exact kept.liveAt ptr old
  · split
    · exact kept.partialNodup.erase _
    · exact kept.partialNodup
  · intro other
    by_cases differs : other = page
    · subst differs
      rw [header]
      have nonzero : (heap.pages other).freeHead ≠ 0 := fun zero =>
        absurd ((state.formatted.chained.head_eq_zero_iff geometry).mp zero) nofun
      have listed := (kept.partial_iff other).mpr ⟨held, nonzero⟩
      split
      · rename_i zero
        exact ⟨fun member => absurd rfl ((kept.partialNodup.mem_erase_iff.mp member).1),
          fun both => absurd zero both.2⟩
      · rename_i more
        exact ⟨fun _ => ⟨held, more⟩, fun _ => listed⟩
    · rw [others other differs]
      split
      · rw [List.mem_erase_of_ne differs]
        exact kept.partial_iff other
      · exact kept.partial_iff other
  · have count := kept.inuseObjects
    rw [List.length_cons]
    omega

end Take

section Give

variable {base : Slab} {heap : Heap} {live partialPages free : List Nat}
  {page i inuse total : Nat}

@[simp] theorem withCounts_self :
    (base.withCounts inuse total partialPages).self = base.self := rfl

@[simp] theorem withCounts_slotOffset :
    (base.withCounts inuse total partialPages).slotOffset = base.slotOffset := rfl

@[simp] theorem withCounts_slotStride :
    (base.withCounts inuse total partialPages).slotStride = base.slotStride := rfl

@[simp] theorem withCounts_pageCapacity :
    (base.withCounts inuse total partialPages).pageCapacity = base.pageCapacity := rfl

/-- The page after a live slot has been put in front of its free slots. -/
def givenPage (base : Slab) (heap : Heap) (page i : Nat) : Heap where
  bytes := setNextFree (setIsFree (fillRedzones base
    (fillUnusedPayload base heap.bytes (slotObject base page i)) (slotObject base page i))
    (slotObject base page i) true) (slotObject base page i) (heap.pages page).freeHead
  pages := Function.update heap.pages page
    { heap.pages page with
      freeHead := slotAt base i
      inuse := (heap.pages page).inuse - 1 }
  held := heap.held

/-- What `slab_free` does with the page once the slot is free. -/
def giveBack (slab : Slab) (heap : Heap) (page : Nat) : Run (Slab × Heap) :=
  if (heap.pages page).inuse = 0 then do
    let partialPages ← unlink page slab.partialPages
    destroySlabPage { slab with partialPages } heap page
  else .ok (slab, heap)

theorem slabFree_eq (geometry : Geometry base) (direct : DirectPage page)
    (state : PageState base heap live page free) (below : i < base.pageCapacity)
    (member : payloadAt base page i ∈ live) :
    slabFree (base.withCounts inuse total partialPages) heap (payloadAt base page i) =
      giveBack (base.withCounts ((inuse + 2 ^ 32 - 1) % 2 ^ 32) total
        (if (heap.pages page).freeHead = 0 then page :: partialPages else partialPages))
        (givenPage base heap page i) page := by
  have absent : i ∉ free := fun inside => (state.unowned i below).mp inside member
  have slot := state.formatted.live i below absent
  have inPage := @Geometry.payload_inPage base page i geometry below
  have range : directMapStart ≤ payloadAt base page i ∧ payloadAt base page i < directMapEnd := by
    obtain ⟨⟨n, rfl⟩, low, high⟩ := direct
    simp only [directMapStart, directMapEnd, pageSize] at *
    omega
  have header : slotFromPayload (base.withCounts inuse total partialPages)
      (payloadAt base page i) = slotObject base page i := Nat.add_sub_cancel _ _
  have found : hdrToPage (slotObject base page i) = page :=
    geometry.hdrToPage_eq below direct.aligned direct.high
  have offset : slotObject base page i - page = slotAt base i := Nat.add_sub_cancel_left _ _
  have behind : base.slotOffset ≤ slotAt base i := Nat.le_add_right _ _
  have delta : slotAt base i - base.slotOffset = base.slotStride * i := Nat.add_sub_cancel_left _ _
  have positive : 0 < base.slotStride := by
    have stride := geometry.stride
    have size := geometry.objectSize
    omega
  have inside : (slotAt base i - base.slotOffset) / base.slotStride < base.pageCapacity := by
    rw [delta, Nat.mul_div_cancel_left _ positive]
    exact below
  have exact : (slotAt base i - base.slotOffset) % base.slotStride = 0 := by
    rw [delta, Nat.mul_mod_right]
  have used : 0 < (heap.pages page).inuse := by
    have count := state.inuse
    have shorter := state.formatted.length_lt below absent
    omega
  have intact := checkRedzones_ok geometry slot.fenced
  have fenced : checkRedzones (base.withCounts inuse total partialPages) heap.bytes
      (slotObject base page i) = .ok () := intact
  rw [slabFree, kassert_bind range]
  simp only [header, found, offset, withCounts_self, withCounts_slotOffset,
    withCounts_slotStride, withCounts_pageCapacity]
  rw [kassert_bind behind, kassert_bind inside, kassert_bind exact, kassert_bind state.owner,
    kassert_bind slot.live, kassert_bind used, fenced, ok_bind]
  have place : hdrToOffset page (slotObject base page i) = slotAt base i :=
    geometry.hdrToOffset_eq below
  by_cases full : (heap.pages page).freeHead = 0
  · simp only [giveBack, givenPage, Heap.setPage, place, if_pos full, Slab.withCounts]
    rfl
  · simp only [giveBack, givenPage, Heap.setPage, place, if_neg full, Slab.withCounts]
    rfl

/-- Giving a slot back; the page may be left without live objects. -/
theorem Kept.give (geometry : Geometry base)
    (kept : Kept base none inuse total partialPages heap live) (held : page ∈ heap.held)
    (state : PageState base heap live page free) (below : i < base.pageCapacity)
    (member : payloadAt base page i ∈ live) :
    Kept base (some page) ((inuse + 2 ^ 32 - 1) % 2 ^ 32) total
      (if (heap.pages page).freeHead = 0 then page :: partialPages else partialPages)
      (givenPage base heap page i) (live.erase (payloadAt base page i)) := by
  have absent : i ∉ free := fun inside => (state.unowned i below).mp inside member
  have small := state.formatted.chained.head_small geometry state.formatted.below
  have becomes := @give_slot base heap.bytes (slotObject base page i) _ geometry small
  have formatted := state.formatted.give geometry below absent becomes
  have aligned := (kept.direct page held).aligned
  have header : (givenPage base heap page i).pages page = { heap.pages page with
      freeHead := slotAt base i
      inuse := (heap.pages page).inuse - 1 } := Function.update_self _ _ _
  have others : ∀ other ≠ page, (givenPage base heap page i).pages other = heap.pages other :=
    fun other differs => Function.update_of_ne differs _ _
  have nonzero : slotAt base i ≠ 0 := by
    have place := (geometry.slotAt_le below).1
    simp only [sizeofSlabPage] at place
    omega
  refine ⟨kept.heldNodup, kept.direct, ?_, ?_, ?_, kept.liveNodup.erase _, ?_, ?_, ?_,
    kept.totalObjects⟩
  · intro other otherHeld
    by_cases differs : other = page
    · subst differs
      refine ⟨i :: free, ?_, ?_, ?_, ?_⟩
      · rw [header]
        exact formatted
      · rw [header]
        exact state.owner
      · rw [header]
        have count := state.inuse
        have used := kept.used other held (by simp)
        simp only [List.length_cons]
        omega
      · intro j belowJ
        rw [List.mem_cons, kept.liveNodup.mem_erase_iff, not_and, state.unowned j belowJ]
        constructor
        · rintro (rfl | out) apart
          · exact absurd rfl apart
          · exact out
        · intro out
          by_cases same : j = i
          · exact .inl same
          · refine .inr (out fun equal => same ?_)
            exact (geometry.payloadAt_inj aligned aligned belowJ below equal).2
    · exact kept.others geometry held otherHeld differs below
        (fun ptr apart => List.mem_erase_of_ne apart) (others other differs) becomes.outside
  · intro other otherHeld spare
    have differs : other ≠ page := fun same => spare (same ▸ rfl)
    rw [others other differs]
    exact kept.used other otherHeld (by simp)
  · intro ptr old
    exact kept.liveAt ptr (List.mem_of_mem_erase old)
  · split
    · rename_i full
      refine List.nodup_cons.mpr ⟨fun listed => ?_, kept.partialNodup⟩
      exact ((kept.partial_iff page).mp listed).2 full
    · exact kept.partialNodup
  · intro other
    by_cases differs : other = page
    · subst differs
      rw [header]
      have both : other ∈ (givenPage base heap other i).held ∧ slotAt base i ≠ 0 := ⟨held, nonzero⟩
      split
      · exact ⟨fun _ => both, fun _ => List.mem_cons_self⟩
      · rename_i room
        exact ⟨fun _ => both, fun _ => (kept.partial_iff other).mpr ⟨held, room⟩⟩
    · rw [others other differs]
      have before := kept.partial_iff other
      split
      · rw [List.mem_cons, or_iff_right differs]
        exact before
      · exact before
  · have count := kept.inuseObjects
    have positive : 0 < live.length := List.length_pos_of_mem member
    rw [List.length_erase_of_mem member]
    omega

/-- A page all of whose slots are free is given back. -/
theorem Kept.destroy (geometry : Geometry base)
    (kept : Kept base (some page) inuse total partialPages heap live) (held : page ∈ heap.held)
    (empty : (heap.pages page).inuse = 0) :
    ∃ total', giveBack (base.withCounts inuse total partialPages) heap page =
        .ok (base.withCounts inuse total' (partialPages.erase page),
          { heap with held := heap.held.erase page }) ∧
      Kept base none inuse total' (partialPages.erase page)
        { heap with held := heap.held.erase page } live := by
  obtain ⟨free, state⟩ := kept.page page held
  have length : free.length = base.pageCapacity := by
    have count := state.inuse
    omega
  have nonzero : (heap.pages page).freeHead ≠ 0 := by
    intro zero
    have none := (state.formatted.chained.head_eq_zero_iff geometry).mp zero
    rw [none, List.length_nil] at length
    exact absurd length (Nat.ne_of_lt geometry.capacity)
  have listed : page ∈ partialPages := (kept.partial_iff page).mpr ⟨held, nonzero⟩
  have direct := kept.direct page held
  refine ⟨(total + 2 ^ 32 - base.pageCapacity) % 2 ^ 32, ?_, ?_⟩
  · have linked : page ∈ (base.withCounts inuse total partialPages).partialPages := listed
    rw [giveBack, if_pos empty, unlink_ok linked, ok_bind, destroySlabPage, kassert_bind empty]
    simp only
    rw [kassert_bind ⟨direct.low, direct.high⟩, kassert_bind held]
    rfl
  · have live_iff : ∀ i < base.pageCapacity, payloadAt base page i ∉ live := fun i below =>
      (state.unowned i below).mp (state.formatted.all_free length i below)
    refine ⟨kept.heldNodup.erase _, ?_, ?_, ?_, ?_, kept.liveNodup, kept.partialNodup.erase _,
      ?_, kept.inuseObjects, ?_⟩
    · exact fun other member => kept.direct other (List.mem_of_mem_erase member)
    · intro other member
      obtain ⟨free', state'⟩ := kept.page other (List.mem_of_mem_erase member)
      exact ⟨free', state'.formatted, state'.owner, state'.inuse, state'.unowned⟩
    · intro other member _
      obtain ⟨differs, old⟩ := kept.heldNodup.mem_erase_iff.mp member
      exact kept.used other old fun same => differs (Option.some.inj same).symm
    · intro ptr member
      obtain ⟨other, otherHeld, i, below, place⟩ := kept.liveAt ptr member
      have differs : other ≠ page := by
        rintro rfl
        exact live_iff i below (place ▸ member)
      exact ⟨other, kept.heldNodup.mem_erase_iff.mpr ⟨differs, otherHeld⟩, i, below, place⟩
    · intro other
      rw [kept.partialNodup.mem_erase_iff, kept.heldNodup.mem_erase_iff, kept.partial_iff other,
        and_assoc]
    · have count := kept.totalObjects
      have capacity := geometry.capacity_le
      have positive : 0 < heap.held.length := List.length_pos_of_mem held
      obtain ⟨n, size⟩ := Nat.exists_eq_succ_of_ne_zero positive.ne'
      rw [List.length_erase_of_mem held, size, Nat.succ_sub_one]
      rw [size, Nat.succ_mul] at count
      simp only [pageSize] at capacity
      omega

end Give

end Opal.Slab
