import Opal.Slab.Transfer
import Mathlib.Data.List.Nodup

/-!
# Runs of the slab allocator

In every run live objects are apart from each other and from all headers and red zones, the
partial list has the pages with a free slot, no page is kept without a live object, and no
assertion fails.  The two counters of the slab have 32 bits, so they count modulo `2 ^ 32`.
-/

namespace Opal.Slab

section Statement

/-- The byte belongs to the object at `ptr`. -/
def World.InObject (w : World) (ptr addr : Nat) : Prop :=
  ptr ≤ addr ∧ addr < ptr + w.slab.objectSize

/-- The byte belongs to the header of the slot or to one of its red zones. -/
def InGuard (slab : Slab) (hdr addr : Nat) : Prop :=
  let redzones := getRedzones slab hdr
  (hdr ≤ addr ∧ addr < hdr + sizeofSlabObjHdr) ∨
  (redzones.prefixPtr ≤ addr ∧ addr < redzones.prefixPtr + redzones.prefixLen) ∨
  (redzones.suffixPtr ≤ addr ∧ addr < redzones.suffixPtr + redzones.suffixLen)

/-- The payload of the slot is not owned. -/
def World.Free (w : World) (page i : Nat) : Prop :=
  i < w.slab.pageCapacity ∧ payloadPtr w.slab (slotObject w.slab page i) ∉ w.live

structure Sound (objectSize objectAlign : Nat) (w : World) : Prop where
  objectSize : w.slab.objectSize = objectSize
  aligned : ∀ ptr ∈ w.live, objectAlign ∣ ptr
  nodup : w.live.Nodup
  disjoint : ∀ ptr ∈ w.live, ∀ other ∈ w.live, ptr ≠ other → ∀ addr, w.InObject ptr addr →
    ¬ w.InObject other addr
  inPage : ∀ ptr ∈ w.live, ∃ page ∈ w.heap.held, ∀ addr, w.InObject ptr addr →
    page + sizeofSlabPage ≤ addr ∧ addr < page + pageSize
  clear : ∀ ptr ∈ w.live, ∀ addr, w.InObject ptr addr → ∀ page ∈ w.heap.held,
    ∀ i < w.slab.pageCapacity, ¬ InGuard w.slab (slotObject w.slab page i) addr
  isFree_iff : ∀ page ∈ w.heap.held, ∀ i < w.slab.pageCapacity,
    isFree w.heap.bytes (slotObject w.slab page i) ↔ w.Free page i
  partialNodup : w.slab.partialPages.Nodup
  partial_iff : ∀ page, page ∈ w.slab.partialPages ↔ page ∈ w.heap.held ∧ ∃ i, w.Free page i
  used : ∀ page ∈ w.heap.held, ∃ i < w.slab.pageCapacity, ¬ w.Free page i
  inuseObjects : w.slab.inuseObjects = w.live.length % 2 ^ 32
  totalObjects : w.slab.totalObjects = w.heap.held.length * w.slab.pageCapacity % 2 ^ 32

end Statement

section Steps

variable {base : Slab} {w after : World} {call : Call}

/-- The slab has the layout of `base`, and what it keeps is in order. -/
def Holds (base : Slab) (w : World) : Prop :=
  ∃ inuse total partialPages, w.slab = base.withCounts inuse total partialPages ∧
    Kept base none inuse total partialPages w.heap w.live

theorem holds_start {slab : Slab} {bytes : Memory} {pages : Nat → SlabPage}
    (inuse : slab.inuseObjects = 0) (total : slab.totalObjects = 0)
    (none : slab.partialPages = []) : Holds slab (start slab bytes pages) := by
  refine ⟨slab.inuseObjects, slab.totalObjects, slab.partialPages, rfl, ?_⟩
  rw [inuse, total, none]
  exact ⟨List.nodup_nil, nofun, nofun, nofun, nofun, List.nodup_nil, List.nodup_nil,
    fun page => ⟨nofun, fun both => nomatch both.1⟩, rfl, by simp [start]⟩

/-- A page of the partial list gives an object. -/
theorem Kept.alloc {spare : Option Nat} {inuse total page : Nat} {partialPages live : List Nat}
    {heap : Heap} (geometry : Geometry base)
    (kept : Kept base spare inuse total partialPages heap live) (member : page ∈ partialPages)
    (own : ∀ other, spare = some other → other = page) :
    ∃ ptr slab heap', allocFrom (base.withCounts inuse total partialPages) heap page =
      .ok (some ptr, slab, heap') ∧ Holds base ⟨slab, heap', ptr :: live⟩ := by
  obtain ⟨held, nonzero⟩ := (kept.partial_iff page).mp member
  obtain ⟨free, state⟩ := kept.page page held
  cases free with
  | nil =>
      exact absurd ((state.formatted.chained.head_eq_zero_iff geometry).mpr rfl) nonzero
  | cons i rest =>
      exact ⟨_, _, _, allocFrom_eq geometry state member, _, _, _, rfl,
        kept.take geometry held own state⟩

theorem slabAlloc_pick {slab slab' : Slab} {heap heap' : Heap} {fresh : Option Nat} {page : Nat}
    (picked : pickAllocPage slab heap fresh = .ok (some page, slab', heap')) :
    slabAlloc slab heap fresh = allocFrom slab' heap' page := by
  rw [slabAlloc_eq, picked, ok_bind]

theorem pickAllocPage_fresh {slab slab' : Slab} {heap heap' : Heap} {page : Nat}
    (none : slab.partialPages = []) (created : createSlabPage slab heap page = (slab', heap'))
    (nonzero : (heap'.pages page).freeHead ≠ 0) :
    pickAllocPage slab heap (some page) =
      .ok (some page, { slab' with partialPages := page :: slab'.partialPages }, heap') := by
  unfold pickAllocPage
  rw [none]
  simp only [created]
  exact kassert_bind nonzero

theorem alloc_returns (geometry : Geometry base) (holds : Holds base w) {fresh : Option Nat}
    (admits : Admits w (.alloc fresh)) :
    ∃ after, exec w (.alloc fresh) = .ok after ∧ Holds base after ∧
      (fresh.isSome → after.live.length = w.live.length + 1) := by
  obtain ⟨inuse, total, partialPages, config, kept⟩ := holds
  cases partialPages with
  | cons page rest =>
      obtain ⟨ptr, slab, heap, returned, holds⟩ := kept.alloc geometry List.mem_cons_self nofun
      have nonzero := ((kept.partial_iff page).mp List.mem_cons_self).2
      have picked : pickAllocPage (base.withCounts inuse total (page :: rest)) w.heap fresh =
          .ok (some page, base.withCounts inuse total (page :: rest), w.heap) :=
        kassert_bind nonzero
      refine ⟨_, ?_, holds, fun _ => rfl⟩
      rw [exec, config, slabAlloc_pick picked, returned]
      rfl
  | nil =>
      cases fresh with
      | none =>
          refine ⟨{ w with slab := base.withCounts inuse total [] }, ?_,
            ⟨inuse, total, [], rfl, kept⟩, nofun⟩
          rw [exec, config]
          rfl
      | some page =>
          obtain ⟨aligned, low, high, absent⟩ := admits page rfl
          obtain ⟨total', heap', created, nonzero, made⟩ :=
            kept.create geometry ⟨aligned, low, high⟩ absent
          obtain ⟨ptr, slab, heap, returned, holds⟩ := made.alloc geometry List.mem_cons_self
            fun other same => (Option.some.inj same).symm
          have picked : pickAllocPage (base.withCounts inuse total []) w.heap (some page) =
              .ok (some page, base.withCounts inuse total' [page], heap') :=
            pickAllocPage_fresh rfl created nonzero
          refine ⟨_, ?_, holds, fun _ => rfl⟩
          rw [exec, config, slabAlloc_pick picked, returned]
          rfl

theorem free_returns (geometry : Geometry base) (holds : Holds base w) {ptr : Nat}
    (member : ptr ∈ w.live) : ∃ after, exec w (.free ptr) = .ok after ∧ Holds base after := by
  obtain ⟨inuse, total, partialPages, config, kept⟩ := holds
  obtain ⟨page, held, i, below, rfl⟩ := kept.liveAt ptr member
  obtain ⟨free, state⟩ := kept.page page held
  have given := kept.give geometry held state below member
  simp only [exec, config]
  rw [slabFree_eq geometry (kept.direct page held) state below member]
  by_cases empty : ((givenPage base w.heap page i).pages page).inuse = 0
  · obtain ⟨total', returned, kept'⟩ := given.destroy geometry held empty
    rw [returned, ok_bind]
    exact ⟨_, rfl, _, _, _, rfl, kept'⟩
  · rw [giveBack, if_neg empty, ok_bind]
    refine ⟨_, rfl, _, _, _, rfl, { given with used := fun other otherHeld _ => ?_ }⟩
    by_cases same : other = page
    · rw [same]
      exact Nat.pos_of_ne_zero empty
    · exact given.used other otherHeld fun spare => same (Option.some.inj spare).symm

theorem write_holds (geometry : Geometry base) (holds : Holds base w) {bytes : Memory}
    (admits : Admits w (.write bytes)) :
    Holds base { w with heap := { w.heap with bytes } } := by
  obtain ⟨inuse, total, partialPages, config, kept⟩ := holds
  refine ⟨inuse, total, partialPages, config, { kept with page := fun page held => ?_ }⟩
  obtain ⟨free, state⟩ := kept.page page held
  refine ⟨free, state.congr geometry rfl (fun _ _ => Iff.rfl) fun addr low high apart => ?_⟩
  refine admits addr ⟨page, held, low, high⟩ ?_
  rintro ⟨ptr, member, inside⟩
  obtain ⟨other, otherHeld, i, below, rfl⟩ := kept.liveAt ptr member
  have within : InPayload base (slotObject base other i) addr := by
    rw [config] at inside
    exact inside
  have place := geometry.inPage_of_slot below (geometry.inSlot_of_payload within)
  by_cases same : page = other
  · subst same
    exact apart i below member within
  · exact page_apart (kept.direct page held).aligned (kept.direct other otherHeld).aligned same
      ⟨low, high⟩ ⟨Nat.le_of_add_right_le place.1, place.2⟩

/-- An admitted call returns and keeps the slab in order. -/
theorem exec_returns (geometry : Geometry base) (holds : Holds base w) (admits : Admits w call) :
    ∃ after, exec w call = .ok after ∧ Holds base after := by
  cases call with
  | alloc fresh =>
      obtain ⟨after, returned, kept, -⟩ := alloc_returns geometry holds admits
      exact ⟨after, returned, kept⟩
  | free ptr => exact free_returns geometry holds admits
  | write bytes => exact ⟨_, rfl, write_holds geometry holds admits⟩

end Steps

section Soundness

variable {base : Slab} {w : World}

theorem Geometry.guard_apart (geometry : Geometry base) {hdr addr : Nat}
    (guarded : InGuard base hdr addr) : InSlot base hdr addr ∧ ¬ InPayload base hdr addr := by
  have stride := geometry.stride
  have payload := geometry.payload
  simp only [InGuard, getRedzones, InSlot, InPayload, sizeofSlabObjHdr, slabRedzoneSize] at *
  omega

theorem Chained.isFree {mem : Memory} {page head i : Nat} {free : List Nat}
    (chained : Chained base mem page head free) (member : i ∈ free) :
    isFree mem (slotObject base page i) := by
  induction free generalizing head with
  | nil => cases member
  | cons j rest inductionHypothesis =>
      obtain ⟨-, next, slot, links⟩ := chained
      rcases List.mem_cons.mp member with rfl | later
      · exact slot.free
      · exact inductionHypothesis links later

/-- The header says whether a slot is free. -/
theorem Formatted.isFree_iff {mem : Memory} {page head i : Nat} {free : List Nat}
    (formatted : Formatted base mem page head free) (below : i < base.pageCapacity) :
    isFree mem (slotObject base page i) ↔ i ∈ free := by
  constructor
  · intro marked
    by_contra absent
    exact (formatted.live i below absent).live marked
  · exact formatted.chained.isFree

theorem Holds.sound (geometry : Geometry base) (holds : Holds base w) :
    Sound base.objectSize base.objectAlign w := by
  obtain ⟨slab, heap, live⟩ := w
  obtain ⟨inuse, total, partialPages, rfl, kept⟩ := holds
  have object : ∀ ptr ∈ live, ∃ page ∈ heap.held, ∃ i < base.pageCapacity,
      ptr = payloadAt base page i ∧ ∀ addr, ptr ≤ addr ∧ addr < ptr + base.objectSize →
        InPayload base (slotObject base page i) addr := by
    intro ptr member
    obtain ⟨page, held, i, below, rfl⟩ := kept.liveAt ptr member
    exact ⟨page, held, i, below, rfl, fun addr inside => inside⟩
  have apart : ∀ page ∈ heap.held, ∀ other ∈ heap.held, page ≠ other → ∀ i < base.pageCapacity,
      ∀ j < base.pageCapacity, ∀ addr, InSlot base (slotObject base page i) addr →
        ¬ InSlot base (slotObject base other j) addr := by
    intro page held other otherHeld differs i belowI j belowJ addr inside within
    have first := geometry.inPage_of_slot belowI inside
    have second := geometry.inPage_of_slot belowJ within
    exact page_apart (kept.direct page held).aligned (kept.direct other otherHeld).aligned differs
      ⟨Nat.le_of_add_right_le first.1, first.2⟩ ⟨Nat.le_of_add_right_le second.1, second.2⟩
  refine ⟨rfl, ?_, kept.liveNodup, ?_, ?_, ?_, ?_, kept.partialNodup, ?_, ?_, kept.inuseObjects,
    kept.totalObjects⟩
  · intro ptr member
    obtain ⟨page, held, i, below, rfl⟩ := kept.liveAt ptr member
    have pageAligned := geometry.alignPage.trans (kept.direct page held).aligned
    have slotAligned := Nat.dvd_add geometry.alignOffset (geometry.alignStride.mul_right i)
    exact Nat.dvd_add (Nat.dvd_add pageAligned slotAligned) geometry.alignPayload
  · intro ptr member other otherMember differs addr inside within
    obtain ⟨page, held, i, belowI, rfl, bytes⟩ := object ptr member
    obtain ⟨page', held', j, belowJ, rfl, bytes'⟩ := object other otherMember
    have slot := geometry.inSlot_of_payload (bytes addr inside)
    have slot' := geometry.inSlot_of_payload (bytes' addr within)
    by_cases same : page = page'
    · subst same
      refine slot_apart (fun equal => differs ?_) slot slot'
      rw [equal]
    · exact apart page held page' held' same i belowI j belowJ addr slot slot'
  · intro ptr member
    obtain ⟨page, held, i, below, rfl, bytes⟩ := object ptr member
    exact ⟨page, held, fun addr inside =>
      geometry.inPage_of_slot below (geometry.inSlot_of_payload (bytes addr inside))⟩
  · intro ptr member addr inside page' held' j belowJ guarded
    obtain ⟨page, held, i, belowI, rfl, bytes⟩ := object ptr member
    have slot := geometry.inSlot_of_payload (bytes addr inside)
    obtain ⟨slot', out⟩ := geometry.guard_apart
      (show InGuard base (slotObject base page' j) addr from guarded)
    by_cases same : page = page'
    · subst same
      by_cases equal : i = j
      · subst equal
        exact out (bytes addr inside)
      · exact slot_apart equal slot slot'
    · exact apart page held page' held' same i belowI j belowJ addr slot slot'
  · intro page held i below
    obtain ⟨free, state⟩ := kept.page page held
    have marked := state.formatted.isFree_iff below
    have unowned := state.unowned i below
    exact (marked.trans unowned).trans ⟨fun out => ⟨below, out⟩, fun both => both.2⟩
  · intro page
    refine (kept.partial_iff page).trans (and_congr_right fun held => ?_)
    obtain ⟨free, state⟩ := kept.page page held
    rw [ne_eq, state.formatted.chained.head_eq_zero_iff geometry]
    constructor
    · intro some
      obtain ⟨i, member⟩ := List.exists_mem_of_ne_nil free some
      have below := state.formatted.below i member
      exact ⟨i, below, (state.unowned i below).mp member⟩
    · rintro ⟨i, below, out⟩ rfl
      exact absurd ((state.unowned i below).mpr out) nofun
  · intro page held
    obtain ⟨free, state⟩ := kept.page page held
    have count := state.inuse
    have used := kept.used page held nofun
    obtain ⟨i, below, absent⟩ := state.formatted.exists_live (by omega)
    exact ⟨i, below, fun both => absent ((state.unowned i below).mpr both.2)⟩

variable {self objectSize objectAlign : Nat} {slab : Slab} {bytes : Memory}
  {pages : Nat → SlabPage}

theorem reaches_holds (created : slabCreate self objectSize objectAlign = .ok slab)
    (reached : Reaches exec Admits (start slab bytes pages) w) : Geometry slab ∧ Holds slab w := by
  obtain ⟨geometry, -, -, -, inuse, total, none⟩ := slabCreate_geometry created
  have preserved : ∀ before call, Holds slab before → Admits before call →
      Ensures (fun _ => False) (Holds slab) (exec before call) := by
    intro before call holds admits
    exact Ensures.of_returns (exec_returns geometry holds admits)
  exact ⟨geometry, reached.invariant (holds_start inuse total none) preserved⟩

/-- Whatever is allocated, freed and written, the slab is in order and its next call returns. -/
theorem run_sound (created : slabCreate self objectSize objectAlign = .ok slab)
    (reached : Reaches exec Admits (start slab bytes pages) w) :
    Sound objectSize objectAlign w ∧
      ∀ call, Admits w call → ∃ after, exec w call = .ok after := by
  obtain ⟨geometry, holds⟩ := reaches_holds created reached
  obtain ⟨-, -, size, align, -⟩ := slabCreate_geometry created
  refine ⟨size ▸ align ▸ holds.sound geometry, fun call admits => ?_⟩
  obtain ⟨after, returned, -⟩ := exec_returns geometry holds admits
  exact ⟨after, returned⟩

end Soundness

section Wrap

variable {base : Slab} {w : World}

theorem exists_absent {f : Nat → Nat} (injective : Function.Injective f) {n : Nat}
    {list : List Nat} (short : list.length < n) : ∃ k < n, f k ∉ list := by
  by_contra all
  push Not at all
  have inside : (List.range n).map f ⊆ list := by
    intro value member
    obtain ⟨k, below, rfl⟩ := List.mem_map.mp member
    exact all k (List.mem_range.mp below)
  have bound := (List.Nodup.subperm (List.Nodup.map injective List.nodup_range) inside).length_le
  rw [List.length_map, List.length_range] at bound
  omega

/-- The direct map has `2 ^ 34` pages. -/
theorem exists_fresh {held : List Nat} (short : held.length < 2 ^ 34) :
    ∃ page, DirectPage page ∧ page ∉ held := by
  have injective : Function.Injective fun k => directMapStart + pageSize * k := by
    intro k k' same
    simp only [pageSize] at same
    omega
  obtain ⟨k, below, absent⟩ := exists_absent injective short
  refine ⟨_, ⟨?_, Nat.le_add_right _ _, ?_⟩, absent⟩
  · simp only [directMapStart, pageSize]
    omega
  · simp only [directMapStart, directMapEnd, pageSize]
    omega

/-- Each page has a live object. -/
theorem Holds.held_le (geometry : Geometry base) (holds : Holds base w) :
    w.heap.held.length ≤ w.live.length := by
  obtain ⟨inuse, total, partialPages, -, kept⟩ := holds
  have inside : w.heap.held ⊆ w.live.map fun ptr => ptr / pageSize * pageSize := by
    intro page held
    obtain ⟨free, state⟩ := kept.page page held
    have count := state.inuse
    have used := kept.used page held nofun
    obtain ⟨i, below, absent⟩ := state.formatted.exists_live (by omega)
    have owned : payloadAt base page i ∈ w.live :=
      Decidable.not_not.mp fun out => absent ((state.unowned i below).mpr out)
    refine List.mem_map.mpr ⟨_, owned, ?_⟩
    have place := @Geometry.payload_inPage base page i geometry below
    obtain ⟨n, rfl⟩ := (kept.direct page held).aligned
    simp only [pageSize] at place ⊢
    omega
  have bound := (List.Nodup.subperm kept.heldNodup inside).length_le
  rwa [List.length_map] at bound

variable {self objectSize objectAlign : Nat} {slab : Slab} {bytes : Memory}
  {pages : Nat → SlabPage}

/-- As long as the direct map has pages, one more object can be allocated. -/
theorem reaches_many (created : slabCreate self objectSize objectAlign = .ok slab) (n : Nat)
    (le : n ≤ 2 ^ 32) :
    ∃ w, Reaches exec Admits (start slab bytes pages) w ∧ w.live.length = n := by
  induction n with
  | zero => exact ⟨_, .start, rfl⟩
  | succ n inductionHypothesis =>
      obtain ⟨before, reached, length⟩ := inductionHypothesis (Nat.le_of_succ_le le)
      obtain ⟨geometry, holds⟩ := reaches_holds created reached
      have short := holds.held_le geometry
      obtain ⟨page, direct, absent⟩ := @exists_fresh before.heap.held (by omega)
      have admits : Admits before (.alloc (some page)) := by
        intro page' same
        cases same
        exact ⟨direct.aligned, direct.low, direct.high, absent⟩
      obtain ⟨after, returned, -, grown⟩ := alloc_returns geometry holds admits
      exact ⟨after, reached.step admits returned, by rw [grown rfl, length]⟩

/-- The layout for objects of one byte. -/
def byteSlab : Slab where
  self := 4096
  objectSize := 1
  objectAlign := 1
  payloadOffset := 4
  slotStride := 7
  slotOffset := 32
  pageCapacity := 580
  inuseObjects := 0
  totalObjects := 0
  partialPages := []

theorem byteSlab_created : slabCreate 4096 1 1 = .ok byteSlab := rfl

/-- A thousand objects are allocated, and one of them is written and freed. -/
theorem run_sound_byteSlab : ∃ w ptr written freed,
    Reaches exec Admits (start byteSlab 0 fun _ => ⟨0, 0, 0⟩) w ∧ w.live.length = 1000 ∧
      ptr ∈ w.live ∧ exec w (.write (w.heap.bytes.fill ptr 1 0xff)) = .ok written ∧
      exec written (.free ptr) = .ok freed ∧ Sound 1 1 freed := by
  have many : ∃ w, Reaches exec Admits (start byteSlab 0 fun _ => ⟨0, 0, 0⟩) w ∧
      w.live.length = 1000 := reaches_many byteSlab_created 1000 (by decide)
  obtain ⟨w, reached, length⟩ := many
  obtain ⟨ptr, live⟩ := List.exists_mem_of_length_pos (l := w.live) (by omega)
  have size := (run_sound byteSlab_created reached).1.objectSize
  have admitted : Admits w (.write (w.heap.bytes.fill ptr 1 0xff)) := by
    intro addr _ outside
    refine Memory.fill_outside ?_
    by_contra inside
    exact outside ⟨ptr, live, by omega⟩
  have reached' := reached.step admitted rfl
  have owned : Admits { w with heap := { w.heap with
      bytes := w.heap.bytes.fill ptr 1 0xff } } (.free ptr) := live
  obtain ⟨freed, ran⟩ := (run_sound byteSlab_created reached').2 _ owned
  exact ⟨w, ptr, _, freed, reached, length, live, rfl, ran,
    (run_sound byteSlab_created (reached'.step owned ran)).1⟩

/-- After `2 ^ 32` allocations the counter is zero again. -/
theorem inuseObjects_wraps : slabCreate 4096 1 1 = .ok byteSlab ∧
    ∃ w, Reaches exec Admits (start byteSlab 0 fun _ => ⟨0, 0, 0⟩) w ∧
      w.live.length = 2 ^ 32 ∧ w.slab.inuseObjects = 0 := by
  have many : ∃ w, Reaches exec Admits (start byteSlab 0 fun _ => ⟨0, 0, 0⟩) w ∧
      w.live.length = 2 ^ 32 := reaches_many byteSlab_created (2 ^ 32) (Nat.le_refl _)
  obtain ⟨w, reached, length⟩ := many
  obtain ⟨geometry, holds⟩ := reaches_holds byteSlab_created reached
  refine ⟨byteSlab_created, w, reached, length, ?_⟩
  rw [(holds.sound geometry).inuseObjects, length, Nat.mod_self]

end Wrap

end Opal.Slab
