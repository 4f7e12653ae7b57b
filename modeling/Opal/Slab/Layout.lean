import Opal.Slab.Operations

/-!
# The layout of a slab page

What `slab_create` accepts fits into a page: the slots follow the page header, each with
its own header, a red zone, the payload and another red zone, and every payload is aligned.
-/

namespace Opal.Slab

section Align

theorem alignFloor_two_pow {x k : Nat} (word : x < wordSize) (small : k < 64) :
    alignFloor x (2 ^ k) = x / 2 ^ k * 2 ^ k := by
  have below : 2 ^ k - 1 < 2 ^ 64 := by
    have grows : 2 ^ k < 2 ^ 64 := Nat.pow_lt_pow_right (by decide) small
    omega
  have mask : wordSize - 1 - (2 ^ k - 1) = 2 ^ 64 - (2 ^ k - 1 + 1) := by
    unfold wordSize
    omega
  rw [alignFloor, mask]
  apply Nat.eq_of_testBit_eq
  intro i
  rw [Nat.testBit_and, Nat.testBit_two_pow_sub_succ below, Nat.testBit_two_pow_sub_one,
    Nat.testBit_mul_two_pow, Nat.testBit_div_two_pow]
  by_cases low : i < k
  · simp [low, Nat.not_le.mpr low]
  · have place : i - k + k = i := Nat.sub_add_cancel (Nat.not_lt.mp low)
    by_cases high : i < 64
    · simp [low, high, Nat.not_lt.mp low, place]
    · have zero : x.testBit i = false := Nat.testBit_lt_two_pow
        (lt_of_lt_of_le word (Nat.pow_le_pow_right (by decide) (Nat.not_lt.mp high)))
      simp [zero, place]

theorem ispower2_iff {value : Nat} : ispower2 value ↔ ∃ k, value = 2 ^ k :=
  Nat.ne_zero_and_sub_one_eq_zero_iff_isPowerOfTwo

/-- The smallest multiple that is not less. -/
theorem alignCeil_spec {x align : Nat} (power : ispower2 align) (small : align ≤ uint16Max)
    (room : x ≤ 2 ^ 32) :
    align ∣ alignCeil x align ∧ x ≤ alignCeil x align ∧ alignCeil x align < x + align := by
  obtain ⟨k, rfl⟩ := ispower2_iff.mp power
  have positive : 0 < 2 ^ k := Nat.pow_pos (by decide)
  have order : k < 64 := by
    by_contra large
    have grows : 2 ^ 64 ≤ 2 ^ k := Nat.pow_le_pow_right (by decide) (Nat.not_lt.mp large)
    simp only [uint16Max] at small
    omega
  have fits : x + (2 ^ k - 1) < wordSize := by
    simp only [uint16Max, wordSize] at *
    omega
  rw [alignCeil, Nat.mod_eq_of_lt fits, alignFloor_two_pow fits order]
  have division := Nat.div_add_mod' (x + (2 ^ k - 1)) (2 ^ k)
  have remainder := Nat.mod_lt (x + (2 ^ k - 1)) positive
  exact ⟨Nat.dvd_mul_left _ _, by omega, by omega⟩

end Align

section Geometry

/-- The layout of the slots in a page. -/
structure Geometry (slab : Slab) : Prop where
  objectSize : 0 < slab.objectSize
  objectAlign : 0 < slab.objectAlign
  payload : sizeofSlabObjHdr + slabRedzoneSize ≤ slab.payloadOffset
  stride : slab.payloadOffset + slab.objectSize + slabRedzoneSize ≤ slab.slotStride
  offset : sizeofSlabPage ≤ slab.slotOffset
  fits : slab.slotOffset + slab.slotStride * slab.pageCapacity ≤ pageSize
  capacity : 0 < slab.pageCapacity
  alignPage : slab.objectAlign ∣ pageSize
  alignPayload : slab.objectAlign ∣ slab.payloadOffset
  alignStride : slab.objectAlign ∣ slab.slotStride
  alignOffset : slab.objectAlign ∣ slab.slotOffset

theorem kassert_ok {condition : Prop} [Decidable condition] {stop : Stop} {α : Type}
    {f : Unit → Run α} {value : α} (returned : (kassert condition stop >>= f) = .ok value) :
    condition ∧ f () = .ok value := by
  unfold kassert at returned
  split at returned
  · exact ⟨‹_›, returned⟩
  · cases returned

/-- What `slab_create` accepts. -/
theorem slabCreate_geometry {self objectSize objectAlign : Nat} {slab : Slab}
    (created : slabCreate self objectSize objectAlign = .ok slab) :
    Geometry slab ∧ slab.self = self ∧ slab.objectSize = objectSize ∧
      slab.objectAlign = objectAlign ∧ slab.inuseObjects = 0 ∧ slab.totalObjects = 0 ∧
      slab.partialPages = [] := by
  unfold slabCreate at created
  obtain ⟨⟨positive, sizeFits⟩, created⟩ := kassert_ok created
  obtain ⟨⟨power, alignFits⟩, created⟩ := kassert_ok created
  obtain ⟨strideFits, created⟩ := kassert_ok created
  obtain ⟨offsetFits, created⟩ := kassert_ok created
  obtain ⟨capacity, created⟩ := kassert_ok created
  obtain ⟨capacityFits, created⟩ := kassert_ok created
  obtain ⟨k, rfl⟩ := ispower2_iff.mp power
  have alignPositive : 0 < 2 ^ k := Nat.pow_pos (by decide)
  have slotAlign : max (2 ^ k) alignofSlabObjHdr = 2 ^ k := max_eq_left alignPositive
  rw [slotAlign] at strideFits offsetFits capacity capacityFits created
  obtain ⟨payloadDvd, payloadLow, payloadHigh⟩ :=
    alignCeil_spec power alignFits (x := sizeofSlabObjHdr + slabRedzoneSize) (by decide)
  generalize alignCeil (sizeofSlabObjHdr + slabRedzoneSize) (2 ^ k) = prefixEnd at *
  have dataSmall : prefixEnd + objectSize + slabRedzoneSize ≤ 2 ^ 32 := by
    simp only [uint16Max, sizeofSlabObjHdr, slabRedzoneSize] at *
    omega
  obtain ⟨strideDvd, strideLow, -⟩ := alignCeil_spec power alignFits dataSmall
  obtain ⟨offsetDvd, offsetLow, -⟩ :=
    alignCeil_spec power alignFits (x := sizeofSlabPage) (by decide)
  generalize alignCeil (prefixEnd + objectSize + slabRedzoneSize) (2 ^ k) = slotStride at *
  generalize alignCeil sizeofSlabPage (2 ^ k) = slotOffset at *
  have room : (pageSize + wordSize - slotOffset) % wordSize = pageSize - slotOffset := by
    simp only [pageSize, wordSize] at *
    omega
  rw [room] at capacity capacityFits created
  have used : slotStride * ((pageSize - slotOffset) / slotStride) ≤ pageSize - slotOffset :=
    Nat.mul_div_le _ _
  -- the casts of the assignments lose nothing
  have smallPayload : prefixEnd % 2 ^ 16 = prefixEnd := by
    apply Nat.mod_eq_of_lt
    simp only [uint16Max, slabRedzoneSize, sizeofSlabObjHdr] at *
    omega
  have smallStride : slotStride % 2 ^ 16 = slotStride := by
    apply Nat.mod_eq_of_lt
    simp only [uint16Max] at strideFits
    omega
  have smallOffset : slotOffset % 2 ^ 32 = slotOffset := by
    apply Nat.mod_eq_of_lt
    simp only [pageSize] at offsetFits
    omega
  have smallCapacity : (pageSize - slotOffset) / slotStride % 2 ^ 32 =
      (pageSize - slotOffset) / slotStride := by
    apply Nat.mod_eq_of_lt
    simp only [int16Max] at capacityFits
    omega
  rw [smallPayload, smallStride, smallOffset, smallCapacity] at created
  have fits : slotOffset + slotStride * ((pageSize - slotOffset) / slotStride) ≤ pageSize := by
    omega
  cases created
  refine ⟨?_, rfl, rfl, rfl, rfl, rfl, rfl⟩
  -- a power of two that divides a number between it and the page size
  have alignPage : 2 ^ k ∣ pageSize := by
    have le : 2 ^ k ≤ slotOffset :=
      Nat.le_of_dvd (by simp only [sizeofSlabPage] at *; omega) offsetDvd
    have exponent : k ≤ 12 := by
      by_contra large
      have grows : 2 ^ 13 ≤ 2 ^ k := Nat.pow_le_pow_right (by decide) (Nat.not_le.mp large)
      simp only [pageSize] at offsetFits
      omega
    exact pow_dvd_pow 2 exponent
  exact ⟨positive, alignPositive, payloadLow, strideLow, offsetLow, fits, capacity, alignPage,
    payloadDvd, strideDvd, offsetDvd⟩

end Geometry

section Slots

variable {slab : Slab} {page i j addr : Nat}

/-- The offset of a slot in its page. -/
def slotAt (slab : Slab) (i : Nat) : Nat := slab.slotOffset + slab.slotStride * i

theorem slotObject_eq : slotObject slab page i = page + slotAt slab i := rfl

/-- The byte belongs to the slot with that header. -/
def InSlot (slab : Slab) (hdr addr : Nat) : Prop := hdr ≤ addr ∧ addr < hdr + slab.slotStride

/-- The byte belongs to the payload of the slot with that header. -/
def InPayload (slab : Slab) (hdr addr : Nat) : Prop :=
  hdr + slab.payloadOffset ≤ addr ∧ addr < hdr + slab.payloadOffset + slab.objectSize

theorem slotAt_lt (below : i < j) : slotAt slab i + slab.slotStride ≤ slotAt slab j := by
  have steps := Nat.mul_le_mul_left slab.slotStride below
  rw [Nat.mul_succ] at steps
  simp only [slotAt]
  omega

theorem Geometry.inSlot_of_payload (geometry : Geometry slab) {hdr : Nat}
    (inside : InPayload slab hdr addr) : InSlot slab hdr addr := by
  have stride := geometry.stride
  simp only [InPayload, InSlot] at *
  omega

theorem Geometry.slotAt_le (geometry : Geometry slab) (below : i < slab.pageCapacity) :
    sizeofSlabPage ≤ slotAt slab i ∧ slotAt slab i + slab.slotStride ≤ pageSize := by
  have last := @slotAt_lt slab _ _ below
  have offset := geometry.offset
  have fits := geometry.fits
  simp only [slotAt] at *
  omega

theorem slot_apart (differs : i ≠ j) (inside : InSlot slab (slotObject slab page i) addr) :
    ¬ InSlot slab (slotObject slab page j) addr := by
  simp only [slotObject_eq, InSlot] at *
  rcases Nat.lt_or_gt_of_ne differs with below | above
  · have apart := @slotAt_lt slab _ _ below
    omega
  · have apart := @slotAt_lt slab _ _ above
    omega

/-- Slots lie in the page, behind its header. -/
theorem Geometry.inPage_of_slot (geometry : Geometry slab) (below : i < slab.pageCapacity)
    (inside : InSlot slab (slotObject slab page i) addr) :
    page + sizeofSlabPage ≤ addr ∧ addr < page + pageSize := by
  have place := geometry.slotAt_le below
  simp only [slotObject_eq, InSlot] at *
  omega

theorem Geometry.slotAt_inj (geometry : Geometry slab)
    (same : slotAt slab i = slotAt slab j) : i = j := by
  by_contra differs
  have stride := geometry.stride
  have size := geometry.objectSize
  rcases Nat.lt_or_gt_of_ne differs with below | above
  · have apart := @slotAt_lt slab _ _ below
    omega
  · have apart := @slotAt_lt slab _ _ above
    omega

theorem Geometry.hdrToOffset_eq (geometry : Geometry slab) (below : i < slab.pageCapacity) :
    hdrToOffset page (slotObject slab page i) = slotAt slab i := by
  have place := geometry.slotAt_le below
  rw [hdrToOffset, slotObject_eq, Nat.add_sub_cancel_left]
  apply Nat.mod_eq_of_lt
  have stride := geometry.stride
  have size := geometry.objectSize
  simp only [pageSize] at place
  omega

/-- The page of a slot is found by rounding down. -/
theorem Geometry.hdrToPage_eq (geometry : Geometry slab) (below : i < slab.pageCapacity)
    (aligned : pageSize ∣ page)
    (direct : page < directMapEnd) : hdrToPage (slotObject slab page i) = page := by
  have place := geometry.slotAt_le below
  have stride := geometry.stride
  have size := geometry.objectSize
  have word : page + slotAt slab i < wordSize := by
    simp only [directMapEnd, pageSize, wordSize] at *
    omega
  obtain ⟨n, rfl⟩ := aligned
  have quotient : (pageSize * n + slotAt slab i) / pageSize = n := by
    rw [Nat.mul_add_div (by decide), Nat.div_eq_of_lt (by omega), Nat.add_zero]
  have floor : hdrToPage (slotObject slab (pageSize * n) i) =
      (pageSize * n + slotAt slab i) / pageSize * pageSize :=
    alignFloor_two_pow word (show 12 < 64 by decide)
  rw [floor, quotient, Nat.mul_comm]

end Slots

end Opal.Slab
