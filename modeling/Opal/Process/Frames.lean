import Opal.Process.Space

/-!
# Page frames and what they hold

A call of the loader takes frames from the pool and writes nothing but them, so whatever belongs
to somebody else stays as it is.  `Takes` says which frames a run of the loops has taken,
`Spares` what a change of the kernel's memory spares.
-/

namespace Opal.Process

open Opal.PageTable

section Spares

/-- Everything but some frames, some areas and what was free is spared. -/
structure Spares (host after : Host) (frames areas : Set Nat) : Prop where
  pool : ∀ f, f ∉ frames → f ∉ host.pool → f ∉ after.pool
  bytes : ∀ f, f ∉ frames → f ∉ host.pool → ∀ r < pageSize,
    after.bytes (f * pageSize + r) = host.bytes (f * pageSize + r)
  areas : ∀ a, a ∉ areas → (host.areas a).isSome → after.areas a = host.areas a

variable {host mid after : Host} {frames areas : Set Nat}

theorem Spares.refl : Spares host host frames areas :=
  ⟨fun _ _ taken => taken, fun _ _ _ _ _ => rfl, fun _ _ _ => rfl⟩

theorem Spares.trans (first : Spares host mid frames areas)
    (second : Spares mid after frames areas) : Spares host after frames areas where
  pool := fun f away taken => second.pool f away (first.pool f away taken)
  bytes := fun f away taken r small =>
    (second.bytes f away (first.pool f away taken) r small).trans
      (first.bytes f away taken r small)
  areas := by
    intro a away live
    have same := first.areas a away live
    rw [second.areas a away (same ▸ live), same]

/-- The streams are nobody's memory. -/
theorem Spares.of_same (pool : after.pool = host.pool) (bytes : after.bytes = host.bytes)
    (live : after.areas = host.areas) : Spares host after frames areas :=
  ⟨fun _ _ taken => pool ▸ taken, fun _ _ _ _ _ => by rw [bytes], fun _ _ _ => by rw [live]⟩

end Spares

section Blocks

variable {host after : Host} {frame order f : Nat}

theorem mem_block : f ∈ block frame order ↔ frame ≤ f ∧ f < frame + 2 ^ order := by
  unfold block
  rw [Finset.mem_Ico]

/-- An allocation yields a block of free frames, which it takes from the pool. -/
theorem mmAllocPage_some (returned : mmAllocPage order host = (some frame, after)) :
    host.Offers frame order ∧
      after = { host with blocks := host.blocks.tail, pool := host.pool \ block frame order } := by
  unfold mmAllocPage at returned
  split at returned
  · cases returned
  · split at returned
    · rename_i offers
      cases returned
      exact ⟨offers, rfl⟩
    · cases returned

theorem mmAllocPage_none (returned : mmAllocPage order host = (none, after)) :
    after = { host with blocks := host.blocks.tail } := by
  unfold mmAllocPage at returned
  split at returned
  · cases returned
    rfl
  · split at returned
    · cases returned
    · cases returned
      rfl

/-- Giving a block back undoes its allocation. -/
theorem mmFreePage_block (offers : host.Offers frame order) (pool : after.pool =
    host.pool \ block frame order) : mmFreePage frame order after =
      some { after with pool := host.pool } := by
  unfold mmFreePage
  rw [pool, if_pos Finset.sdiff_disjoint.symm, Finset.sdiff_union_of_subset offers.2.2]

theorem block_zero : block frame 0 = {frame} := by
  ext
  rw [mem_block, Finset.mem_singleton]
  omega

theorem mmFreePage_single (taken : frame ∉ host.pool) :
    mmFreePage frame 0 host = some { host with pool := insert frame host.pool } := by
  unfold mmFreePage
  rw [block_zero, if_pos (Finset.disjoint_singleton_left.mpr taken), Finset.union_comm,
    ← Finset.insert_eq]

end Blocks

section Takes

/-- `count` frames have been taken, and none is written that was not free. -/
structure Takes (host : Host) (count : Nat) (frames : Nat → Nat) (after : Host) : Prop where
  free : ∀ i < count, frames i ∈ host.pool
  small : ∀ i < count, frames i < 2 ^ 40
  distinct : ∀ i < count, ∀ j < count, frames i = frames j → i = j
  pool : ∀ f, f ∈ after.pool ↔ f ∈ host.pool ∧ ∀ i < count, frames i ≠ f
  bytes : ∀ f, f ∉ host.pool → ∀ r < pageSize,
    after.bytes (f * pageSize + r) = host.bytes (f * pageSize + r)
  areas : after.areas = host.areas

variable {host mid after : Host} {count : Nat} {frames : Nat → Nat}

theorem Takes.refl : Takes host 0 frames host where
  free := fun _ none => absurd none (Nat.not_lt_zero _)
  small := fun _ none => absurd none (Nat.not_lt_zero _)
  distinct := fun _ none => absurd none (Nat.not_lt_zero _)
  pool := fun _ => ⟨fun mem => ⟨mem, fun _ none => absurd none (Nat.not_lt_zero _)⟩, And.left⟩
  bytes := fun _ _ _ _ => rfl
  areas := rfl

theorem Takes.spares (takes : Takes host count frames after) : Spares host after ∅ ∅ where
  pool := fun f _ taken mem => taken ((takes.pool f).mp mem).1
  bytes := fun f _ taken => takes.bytes f taken
  areas := fun _ _ _ => by rw [takes.areas]

/-- What touches no memory but free frames does not matter. -/
theorem Takes.congr (takes : Takes host count frames mid) (pool : after.pool = mid.pool)
    (bytes : ∀ f, f ∉ mid.pool → ∀ r < pageSize,
      after.bytes (f * pageSize + r) = mid.bytes (f * pageSize + r))
    (areas : after.areas = mid.areas) :
    Takes host count frames after where
  free := takes.free
  small := takes.small
  distinct := takes.distinct
  pool := by
    rw [pool]
    exact takes.pool
  bytes := fun f taken r small =>
    (bytes f (fun mem => taken ((takes.pool f).mp mem).1) r small).trans
      (takes.bytes f taken r small)
  areas := areas.trans takes.areas

/-- Some frames and behind them those of a block. -/
def withBlock (frames : Nat → Nat) (count frame : Nat) : Nat → Nat :=
  fun i => if i < count then frames i else frame + (i - count)

theorem withBlock_old {frame i : Nat} (old : i < count) :
    withBlock frames count frame i = frames i := if_pos old

theorem withBlock_new {frame i : Nat} : withBlock frames count frame (count + i) = frame + i := by
  unfold withBlock
  rw [if_neg (by omega), Nat.add_sub_cancel_left]

/-- One more block is taken, in which alone something is written. -/
theorem Takes.block (takes : Takes host count frames mid) {frame order : Nat}
    (offers : mid.Offers frame order) (pool : after.pool = mid.pool \ Process.block frame order)
    (bytes : ∀ f, f < frame ∨ frame + 2 ^ order ≤ f → ∀ r < pageSize,
      after.bytes (f * pageSize + r) = mid.bytes (f * pageSize + r))
    (areas : after.areas = mid.areas) :
    Takes host (count + 2 ^ order) (withBlock frames count frame) after := by
  have size : 0 < 2 ^ order := Nat.two_pow_pos order
  have inside (i : Nat) (new : count ≤ i) (lower : i < count + 2 ^ order) :
      withBlock frames count frame i = frame + (i - count) ∧
        withBlock frames count frame i ∈ mid.pool := by
    have eq : withBlock frames count frame i = frame + (i - count) := if_neg (by omega)
    exact ⟨eq, eq ▸ offers.2.2 (mem_block.mpr ⟨by omega, by omega⟩)⟩
  have old (i : Nat) (lower : i < count) : withBlock frames count frame i = frames i :=
    withBlock_old lower
  -- a frame of the new block is none of the old ones
  have apart (i j : Nat) (lower : i < count) (new : count ≤ j) (upper : j < count + 2 ^ order) :
      withBlock frames count frame i ≠ withBlock frames count frame j := by
    intro same
    have mem := (inside j new upper).2
    rw [← same, old i lower] at mem
    exact ((takes.pool _).mp mem).2 i lower rfl
  constructor
  · intro i lower
    by_cases first : i < count
    · rw [old i first]
      exact takes.free i first
    · exact ((takes.pool _).mp (inside i (by omega) lower).2).1
  · intro i lower
    by_cases first : i < count
    · rw [old i first]
      exact takes.small i first
    · rw [(inside i (by omega) lower).1]
      have := offers.2.1
      omega
  · intro i lower j lower' same
    by_cases first : i < count <;> by_cases second : j < count
    · rw [old i first, old j second] at same
      exact takes.distinct i first j second same
    · exact absurd same (apart i j first (by omega) lower')
    · exact absurd same.symm (apart j i second (by omega) lower)
    · rw [(inside i (by omega) lower).1, (inside j (by omega) lower').1] at same
      omega
  · intro f
    rw [pool, Finset.mem_sdiff, takes.pool f, mem_block]
    constructor
    · rintro ⟨⟨mem, others⟩, outside⟩
      refine ⟨mem, fun i lower same => ?_⟩
      by_cases first : i < count
      · exact others i first ((old i first).symm.trans same)
      · rw [(inside i (by omega) lower).1] at same
        omega
    · rintro ⟨mem, others⟩
      refine ⟨⟨mem, fun i lower same => others i (by omega) ((old i lower).trans same)⟩, ?_⟩
      rintro ⟨low, high⟩
      apply others (count + (f - frame)) (by omega)
      rw [withBlock_new]
      omega
  · intro f taken r small
    rw [bytes f ?_ r small]
    · exact takes.bytes f taken r small
    · by_contra within
      have mem := offers.2.2 (mem_block.mpr ⟨by omega, by omega⟩ : f ∈ _)
      exact taken ((takes.pool f).mp mem).1
  · exact areas.trans takes.areas

end Takes

section Bytes

variable {bytes part : Memory} {frame count toCopy : Nat}

/-- The bytes of a block: a part of the file, then zeros. -/
theorem fillBlock_inside {i r : Nat} (fits : toCopy ≤ count * pageSize) (page : i < count)
    (small : r < pageSize) :
    fillBlock bytes frame (count * pageSize) toCopy part ((frame + i) * pageSize + r) =
      if i * pageSize + r < toCopy then part (i * pageSize + r) else 0 := by
  have place : (frame + i) * pageSize + r = frame * pageSize + (i * pageSize + r) := by ring
  have last : i * pageSize + r < count * pageSize := by
    have := Nat.mul_le_mul_right pageSize (Nat.succ_le_of_lt page)
    rw [Nat.succ_mul] at this
    omega
  unfold fillBlock
  rw [place]
  split
  · rename_i copied
    rw [Memory.fill_outside (.inl (by omega)), Memory.copyInto_inside copied]
  · rename_i cleared
    exact Memory.fill_inside (by omega) (by omega)

theorem fillBlock_outside {f r : Nat} (fits : toCopy ≤ count * pageSize)
    (outside : f < frame ∨ frame + count ≤ f) (small : r < pageSize) :
    fillBlock bytes frame (count * pageSize) toCopy part (f * pageSize + r) =
      bytes (f * pageSize + r) := by
  have away : f * pageSize + r < frame * pageSize ∨
      frame * pageSize + count * pageSize ≤ f * pageSize + r := by
    rw [pageSize_eq] at *
    omega
  unfold fillBlock
  rw [Memory.fill_outside (by omega), Memory.copyInto_outside (by omega)]

end Bytes

end Opal.Process
