import Opal.Slab.Layout

/-!
# Slots and the chain of free slots

A slot is free or live; either way its red zones are intact, and the payload of a free slot
is filled with the unused pattern.  The free slots of a page are linked by their headers,
from the head that the page header keeps.  Each function writes inside one slot.
-/

namespace Opal.Slab

section States

variable {slab : Slab} {mem mem' : Memory} {hdr next : Nat}

/-- Both red zones of the slot are intact. -/
structure Fenced (slab : Slab) (mem : Memory) (hdr : Nat) : Prop where
  before : ∀ addr, hdr + sizeofSlabObjHdr ≤ addr → addr < hdr + slab.payloadOffset →
    mem addr = slabRedzonePattern
  behind : ∀ addr, hdr + slab.payloadOffset + slab.objectSize ≤ addr →
    addr < hdr + slab.slotStride → mem addr = slabRedzonePattern

structure LiveSlot (slab : Slab) (mem : Memory) (hdr : Nat) : Prop where
  live : ¬ isFree mem hdr
  fenced : Fenced slab mem hdr

structure FreeSlot (slab : Slab) (mem : Memory) (hdr next : Nat) : Prop where
  free : isFree mem hdr
  link : nextFree mem hdr = next
  fenced : Fenced slab mem hdr
  unused : ∀ addr, InPayload slab hdr addr → mem addr = slabUnusedPattern

theorem word_hdr_congr (same : ∀ addr, hdr ≤ addr → addr < hdr + sizeofSlabObjHdr →
    mem' addr = mem addr) : mem'.word hdr sizeofSlabObjHdr = mem.word hdr sizeofSlabObjHdr :=
  Memory.word_congr fun i below => same (hdr + i) (Nat.le_add_right _ _)
    (Nat.add_lt_add_left below _)

theorem Fenced.congr (geometry : Geometry slab) (fenced : Fenced slab mem hdr)
    (same : ∀ addr, InSlot slab hdr addr → ¬ InPayload slab hdr addr → mem' addr = mem addr) :
    Fenced slab mem' hdr := by
  have stride := geometry.stride
  constructor
  · intro addr low high
    rw [same addr _ _]
    · exact fenced.before addr low high
    all_goals
      simp only [InSlot, InPayload, sizeofSlabObjHdr, slabRedzoneSize] at *
      omega
  · intro addr low high
    rw [same addr _ _]
    · exact fenced.behind addr low high
    all_goals
      simp only [InSlot, InPayload, sizeofSlabObjHdr, slabRedzoneSize] at *
      omega

theorem word_slot_congr (geometry : Geometry slab)
    (same : ∀ addr, InSlot slab hdr addr → ¬ InPayload slab hdr addr → mem' addr = mem addr) :
    mem'.word hdr sizeofSlabObjHdr = mem.word hdr sizeofSlabObjHdr := by
  have stride := geometry.stride
  have payload := geometry.payload
  refine word_hdr_congr fun addr low high => same addr ?_ ?_
  all_goals
    simp only [InSlot, InPayload, sizeofSlabObjHdr, slabRedzoneSize] at *
    omega

/-- A client may write into the payload of a live slot. -/
theorem LiveSlot.congr (geometry : Geometry slab) (slot : LiveSlot slab mem hdr)
    (same : ∀ addr, InSlot slab hdr addr → ¬ InPayload slab hdr addr → mem' addr = mem addr) :
    LiveSlot slab mem' hdr := by
  refine ⟨?_, slot.fenced.congr geometry same⟩
  unfold isFree
  rw [word_slot_congr geometry same]
  exact slot.live

theorem FreeSlot.congr (geometry : Geometry slab) (slot : FreeSlot slab mem hdr next)
    (same : ∀ addr, InSlot slab hdr addr → mem' addr = mem addr) :
    FreeSlot slab mem' hdr next := by
  have header := word_slot_congr geometry fun addr inside _ => same addr inside
  refine ⟨?_, ?_, slot.fenced.congr geometry fun addr inside _ => same addr inside, ?_⟩
  · unfold isFree
    rw [header]
    exact slot.free
  · unfold nextFree
    rw [header]
    exact slot.link
  · intro addr inside
    rw [same addr (geometry.inSlot_of_payload inside)]
    exact slot.unused addr inside

end States

section Checks

variable {slab : Slab} {mem : Memory} {hdr next : Nat}

theorem checkRedzones_ok (geometry : Geometry slab) (fenced : Fenced slab mem hdr) :
    checkRedzones slab mem hdr = .ok () := by
  have stride := geometry.stride
  have payload := geometry.payload
  have before : allBytes mem (getRedzones slab hdr).prefixPtr (getRedzones slab hdr).prefixLen
      slabRedzonePattern := by
    intro i below
    simp only [getRedzones, sizeofSlabObjHdr, slabRedzoneSize] at *
    exact fenced.before _ (by simp only [sizeofSlabObjHdr]; omega) (by omega)
  have behind : allBytes mem (getRedzones slab hdr).suffixPtr (getRedzones slab hdr).suffixLen
      slabRedzonePattern := by
    intro i below
    simp only [getRedzones, slabRedzoneSize] at *
    exact fenced.behind _ (by omega) (by omega)
  simp only [checkRedzones, kassert, if_pos before, if_pos behind, ok_bind]

theorem checkUnusedPayload_ok (slot : FreeSlot slab mem hdr next) :
    checkUnusedPayload slab mem hdr = .ok () := by
  have unused : allBytes mem (payloadPtr slab hdr) slab.objectSize slabUnusedPattern := by
    intro i below
    refine slot.unused _ ⟨Nat.le_add_right _ _, ?_⟩
    exact Nat.add_lt_add_left below _
  simp only [checkUnusedPayload, kassert, if_pos unused]

end Checks

section Writes

variable {slab : Slab} {mem : Memory} {hdr next addr value : Nat} {free : Bool}

theorem writeHdr_word (small : value < 2 ^ 16) :
    (writeHdr mem hdr value).word hdr sizeofSlabObjHdr = value := by
  have copied : (writeHdr mem hdr value).word hdr sizeofSlabObjHdr =
      Memory.word (Memory.bytesOf value) 0 sizeofSlabObjHdr := by
    refine Memory.word_congr fun i below => ?_
    rw [Nat.zero_add]
    exact Memory.copyInto_inside below
  rw [copied, Memory.word_bytesOf, pow_zero, Nat.div_one]
  exact Nat.mod_eq_of_lt small

theorem writeHdr_outside (outside : addr < hdr ∨ hdr + sizeofSlabObjHdr ≤ addr) :
    writeHdr mem hdr value addr = mem addr := Memory.copyInto_outside outside

theorem word_hdr_lt : mem.word hdr sizeofSlabObjHdr < 2 ^ 16 := Memory.word_lt _

/-- The header after both of its fields have been written. -/
structure Headed (mem mem' : Memory) (hdr next : Nat) (free : Bool) : Prop where
  word : mem'.word hdr sizeofSlabObjHdr = next * 2 + free.toNat
  outside : ∀ addr, addr < hdr ∨ hdr + sizeofSlabObjHdr ≤ addr → mem' addr = mem addr

theorem Headed.isFree_iff {mem' : Memory} (headed : Headed mem mem' hdr next free) :
    isFree mem' hdr ↔ free = true := by
  rw [isFree, headed.word]
  cases free <;> simp

theorem Headed.nextFree_eq {mem' : Memory} (headed : Headed mem mem' hdr next free) :
    nextFree mem' hdr = next := by
  have bit : free.toNat < 2 := free.toNat_lt
  rw [nextFree, headed.word]
  omega

theorem setIsFree_setNextFree (small : next < 2 ^ 15) :
    Headed mem (setIsFree (setNextFree mem hdr next) hdr free) hdr next free := by
  have bit : free.toNat < 2 := free.toNat_lt
  have linked : (setNextFree mem hdr next).word hdr sizeofSlabObjHdr =
      next * 2 + mem.word hdr sizeofSlabObjHdr % 2 := by
    rw [setNextFree, Nat.mod_eq_of_lt small]
    exact writeHdr_word (by omega)
  constructor
  · rw [setIsFree, linked, writeHdr_word (by omega)]
    omega
  · intro addr outside
    rw [setIsFree, writeHdr_outside outside, setNextFree, writeHdr_outside outside]

theorem setNextFree_setIsFree (small : next < 2 ^ 15) :
    Headed mem (setNextFree (setIsFree mem hdr free) hdr next) hdr next free := by
  have bit : free.toNat < 2 := free.toNat_lt
  have old := @word_hdr_lt mem hdr
  have marked : (setIsFree mem hdr free).word hdr sizeofSlabObjHdr =
      mem.word hdr sizeofSlabObjHdr / 2 * 2 + free.toNat := writeHdr_word (by omega)
  constructor
  · rw [setNextFree, Nat.mod_eq_of_lt small, marked, writeHdr_word (by omega)]
    omega
  · intro addr outside
    rw [setNextFree, writeHdr_outside outside, setIsFree, writeHdr_outside outside]

/-- `fill_redzones` writes the red zones and nothing else. -/
theorem fillRedzones_fenced (geometry : Geometry slab) :
    Fenced slab (fillRedzones slab mem hdr) hdr := by
  have stride := geometry.stride
  have payload := geometry.payload
  constructor
  · intro addr low high
    simp only [fillRedzones, getRedzones, sizeofSlabObjHdr, slabRedzoneSize] at *
    rw [Memory.fill_outside (by omega), Memory.fill_inside low (by omega)]
  · intro addr low high
    simp only [fillRedzones, getRedzones] at *
    exact Memory.fill_inside (by omega) (by omega)

theorem fillRedzones_outside (geometry : Geometry slab)
    (outside : addr < hdr + sizeofSlabObjHdr ∨ hdr + slab.slotStride ≤ addr ∨
      InPayload slab hdr addr) : fillRedzones slab mem hdr addr = mem addr := by
  have stride := geometry.stride
  have payload := geometry.payload
  simp only [fillRedzones, getRedzones, InPayload, sizeofSlabObjHdr, slabRedzoneSize] at *
  rw [Memory.fill_outside (by omega), Memory.fill_outside (by omega)]

theorem fillUnusedPayload_outside (outside : ¬ InPayload slab hdr addr) :
    fillUnusedPayload slab mem hdr addr = mem addr := by
  simp only [InPayload] at outside
  exact Memory.fill_outside (by simp only [payloadPtr]; omega)

theorem fillUnusedPayload_inside (inside : InPayload slab hdr addr) :
    fillUnusedPayload slab mem hdr addr = slabUnusedPattern :=
  Memory.fill_inside inside.1 inside.2

end Writes

section Slots

variable {slab : Slab} {mem : Memory} {hdr next : Nat}

/-- The slot has the new state, and nothing outside of it changed. -/
structure Becomes (slab : Slab) (mem mem' : Memory) (hdr : Nat) (state : Memory → Prop) : Prop where
  state : state mem'
  outside : ∀ addr, ¬ InSlot slab hdr addr → mem' addr = mem addr

/-- `create_slab_page` makes a free slot of whatever was there. -/
theorem format_slot (geometry : Geometry slab) (small : next < 2 ^ 15) :
    Becomes slab mem (fillUnusedPayload slab (fillRedzones slab
      (setIsFree (setNextFree mem hdr next) hdr true) hdr) hdr) hdr
      fun mem' => FreeSlot slab mem' hdr next := by
  have headed := @setIsFree_setNextFree mem hdr next true small
  generalize setIsFree (setNextFree mem hdr next) hdr true = mem₁ at headed
  have stride := geometry.stride
  have payload := geometry.payload
  have header : (fillUnusedPayload slab (fillRedzones slab mem₁ hdr) hdr).word hdr
      sizeofSlabObjHdr = mem₁.word hdr sizeofSlabObjHdr := by
    refine word_hdr_congr fun addr low high => ?_
    rw [fillUnusedPayload_outside, fillRedzones_outside geometry (.inl high)]
    simp only [InPayload, sizeofSlabObjHdr, slabRedzoneSize] at *
    omega
  refine ⟨⟨?_, ?_, ?_, fun addr inside => fillUnusedPayload_inside inside⟩, fun addr outside => ?_⟩
  · rw [isFree, header]
    exact headed.isFree_iff.mpr rfl
  · rw [nextFree, header]
    exact headed.nextFree_eq
  · exact (fillRedzones_fenced geometry).congr geometry fun addr _ out =>
      fillUnusedPayload_outside out
  · have apart : ¬ InPayload slab hdr addr := fun inside =>
      outside (geometry.inSlot_of_payload inside)
    have place : addr < hdr ∨ hdr + slab.slotStride ≤ addr := by
      simp only [InSlot] at outside
      omega
    rw [fillUnusedPayload_outside apart, fillRedzones_outside geometry, headed.outside]
    all_goals
      simp only [sizeofSlabObjHdr, slabRedzoneSize] at *
      omega

/-- `slab_alloc` takes a free slot. -/
theorem FreeSlot.take (geometry : Geometry slab) (slot : FreeSlot slab mem hdr next) :
    Becomes slab mem ((setIsFree (setNextFree mem hdr 0) hdr false).fill (payloadPtr slab hdr)
      slab.objectSize 0) hdr fun mem' => LiveSlot slab mem' hdr := by
  have headed := @setIsFree_setNextFree mem hdr 0 false (by decide)
  generalize setIsFree (setNextFree mem hdr 0) hdr false = mem₁ at headed
  have stride := geometry.stride
  have payload := geometry.payload
  have untouched : ∀ addr, ¬ InPayload slab hdr addr →
      mem₁.fill (payloadPtr slab hdr) slab.objectSize 0 addr = mem₁ addr := by
    intro addr out
    simp only [InPayload] at out
    exact Memory.fill_outside (by simp only [payloadPtr]; omega)
  refine ⟨LiveSlot.congr geometry ⟨?_, ?_⟩ fun addr _ out => untouched addr out, ?_⟩
  · exact fun free => absurd (headed.isFree_iff.mp free) Bool.false_ne_true
  · constructor
    · intro addr low high
      rw [headed.outside addr (.inr low)]
      exact slot.fenced.before addr low high
    · intro addr low high
      rw [headed.outside addr (by simp only [sizeofSlabObjHdr, slabRedzoneSize] at *; omega)]
      exact slot.fenced.behind addr low high
  · intro addr outside
    rw [untouched addr fun inside => outside (geometry.inSlot_of_payload inside)]
    refine headed.outside addr ?_
    simp only [InSlot, sizeofSlabObjHdr, slabRedzoneSize] at *
    omega

/-- `slab_free` makes the slot free again. -/
theorem give_slot (geometry : Geometry slab) (small : next < 2 ^ 15) :
    Becomes slab mem (setNextFree (setIsFree (fillRedzones slab (fillUnusedPayload slab mem hdr)
      hdr) hdr true) hdr next) hdr fun mem' => FreeSlot slab mem' hdr next := by
  have headed := @setNextFree_setIsFree (fillRedzones slab (fillUnusedPayload slab mem hdr) hdr)
    hdr next true small
  have fenced := @fillRedzones_fenced slab (fillUnusedPayload slab mem hdr) hdr geometry
  have filled := fun addr (inside : InPayload slab hdr addr) =>
    (fillRedzones_outside geometry (.inr (.inr inside))).trans
      (@fillUnusedPayload_inside slab mem hdr addr inside)
  have stride := geometry.stride
  have payload := geometry.payload
  refine ⟨⟨headed.isFree_iff.mpr rfl, headed.nextFree_eq, ⟨?_, ?_⟩, ?_⟩, ?_⟩
  · intro addr low high
    rw [headed.outside addr (.inr low)]
    exact fenced.before addr low high
  · intro addr low high
    rw [headed.outside addr (by simp only [sizeofSlabObjHdr, slabRedzoneSize] at *; omega)]
    exact fenced.behind addr low high
  · intro addr inside
    rw [headed.outside addr _]
    · exact filled addr inside
    · simp only [InPayload, sizeofSlabObjHdr, slabRedzoneSize] at *
      omega
  · intro addr outside
    have apart : ¬ InPayload slab hdr addr := fun inside =>
      outside (geometry.inSlot_of_payload inside)
    have place : addr < hdr ∨ hdr + slab.slotStride ≤ addr := by
      simp only [InSlot] at outside
      omega
    rw [headed.outside, fillRedzones_outside geometry, fillUnusedPayload_outside apart]
    all_goals
      simp only [sizeofSlabObjHdr, slabRedzoneSize] at *
      omega

end Slots

end Opal.Slab
