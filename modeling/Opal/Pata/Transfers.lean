import Opal.Pata.Driver
import Opal.Library.Tiling
import Mathlib.Data.BitVec

/-!
# What the device sees

The device reads a command out of its registers: which sectors of which disk it is about.  The
sectors of the buffer that go through the data register after it belong to these in ascending
order.
-/

namespace Opal.Pata

open Disk Library

section Registers

namespace Registers

variable (registers : Registers)

/-- The sector a device with 28-bit addresses reads out of its registers. -/
def lba : Nat :=
  registers.lba0.toNat + registers.lba1.toNat * 2 ^ 8 + registers.lba2.toNat * 2 ^ 16 +
    (registers.driveHead &&& 0x0f).toNat * 2 ^ 24

/-- Which of the two devices of the port is selected. -/
def drive : Bool := registers.driveHead &&& 0x10 ≠ 0

/-- The number of sectors; zero stands for 256. -/
def sectors : Nat := if registers.sectorCount = 0 then 256 else registers.sectorCount.toNat

end Registers

theorem head_and_mask (drive : Bool) (head : UInt8) :
    ((0xe0 ||| (if drive then 0x10 else 0) ||| (head &&& 0x0f)) &&& 0x0f).toNat =
      head.toNat % 16 := by
  have all : ∀ drive : Bool, ∀ head : BitVec 8,
      (((0xe0 : BitVec 8) ||| (if drive then 0x10 else 0) ||| (head &&& 0x0f)) &&& 0x0f).toNat =
        head.toNat % 16 := by decide +kernel
  have value := all drive head.toBitVec
  rw [← UInt8.toNat_toBitVec, ← UInt8.toNat_toBitVec]
  simp only [UInt8.toBitVec_and, UInt8.toBitVec_or, apply_ite UInt8.toBitVec]
  exact value

theorem registers_drive (drive : Bool) (lba sectors : Nat) :
    (Registers.of drive lba sectors).drive = drive := by
  have all : ∀ drive : Bool, ∀ head : BitVec 8,
      decide (((0xe0 : BitVec 8) ||| (if drive then 0x10 else 0) ||| (head &&& 0x0f)) &&& 0x10 ≠
        0) = drive := by decide +kernel
  have value := all drive (UInt8.ofNat (lba / 2 ^ 24)).toBitVec
  unfold Registers.of Registers.drive
  dsimp only
  simp only [ne_eq, ← UInt8.toBitVec_inj, UInt8.toBitVec_and, UInt8.toBitVec_or,
    apply_ite UInt8.toBitVec]
  exact value

/-- The registers name the sectors of the command on a disk with 28-bit addresses. -/
theorem registers_lba (drive : Bool) {lba sectors : Nat} (small : lba < 2 ^ 28) :
    (Registers.of drive lba sectors).lba = lba := by
  unfold Registers.of Registers.lba
  dsimp only
  rw [head_and_mask]
  simp only [UInt8.toNat_ofNat']
  omega

theorem registers_sectors (drive : Bool) {lba sectors : Nat} (some : 1 ≤ sectors)
    (limit : sectors ≤ 256) : (Registers.of drive lba sectors).sectors = sectors := by
  unfold Registers.of Registers.sectors
  dsimp only
  by_cases whole : sectors = 256
  · simp [whole]
  · have small : sectors < 256 := by omega
    have nonzero : UInt8.ofNat sectors ≠ 0 := by
      intro zero
      have value := congrArg UInt8.toNat zero
      rw [UInt8.toNat_ofNat', Nat.mod_eq_of_lt small] at value
      exact absurd value (Nat.ne_of_gt some)
    rw [if_neg whole, if_neg nonzero, UInt8.toNat_ofNat', Nat.mod_eq_of_lt small]

end Registers

section Device

/-- The sector of the disk that the data register is at, how many are left of the last
command, and the sectors moved so far: the sector of the disk and that of the buffer. -/
structure Device where
  cursor : Nat
  left : Nat
  moves : List (Nat × Nat)
  deriving DecidableEq, Repr

def Device.after (device : Device) : Event → Device
  | .command _ registers => { device with cursor := registers.lba, left := registers.sectors }
  | .moved sectorIndex =>
      if device.left = 0 then device
      else ⟨device.cursor + 1, device.left - 1, device.moves ++ [(device.cursor, sectorIndex)]⟩
  | .cacheFlush => device

def deviceAfter (events : List Event) : Device := events.foldl Device.after ⟨0, 0, []⟩

/-- The ranges of sectors that the commands name. -/
def commands (events : List Event) : List (Cell Nat Unit) :=
  events.filterMap fun
    | .command _ registers => some ⟨registers.lba, registers.lba + registers.sectors, ()⟩
    | _ => none

/-- The sectors of the buffer that were used. -/
def sectorIndices (events : List Event) : List Nat :=
  events.filterMap fun
    | .moved sectorIndex => some sectorIndex
    | _ => none

variable {events : List Event} {event : Event}

theorem deviceAfter_concat : deviceAfter (events ++ [event]) =
    (deviceAfter events).after event := by
  simp [deviceAfter]

theorem deviceAfter_command (isWrite : Bool) (registers : Registers) :
    deviceAfter (events ++ [.command isWrite registers]) =
      ⟨registers.lba, registers.sectors, (deviceAfter events).moves⟩ := by
  rw [deviceAfter_concat]
  rfl

theorem commands_command (isWrite : Bool) (registers : Registers) :
    commands [.command isWrite registers] =
      [⟨registers.lba, registers.lba + registers.sectors, ()⟩] := rfl

theorem commands_concat : commands (events ++ [event]) = commands events ++ commands [event] := by
  simp [commands]

theorem sectorIndices_concat :
    sectorIndices (events ++ [event]) = sectorIndices events ++ sectorIndices [event] := by
  simp [sectorIndices]

end Device

section Covers

variable {drive isWrite : Bool} {lba upto sent : Nat} {events : List Event}

/-- The commands name the sectors from `lba` to before `lba + upto`, and the first `sent`
of these went through the data register.  Which sectors of the disk they are is known as long
as they have 28-bit addresses. -/
structure Covers (drive isWrite : Bool) (lba upto sent : Nat) (events : List Event) : Prop where
  shape : ∀ isWrite' registers, .command isWrite' registers ∈ events →
    registers.drive = drive ∧ isWrite' = isWrite ∧ 1 ≤ registers.sectors ∧ registers.sectors ≤ 256
  left : (deviceAfter events).left = upto - sent
  indices : sectorIndices events = List.range sent
  bound : sent ≤ upto
  tiles : lba + upto ≤ 2 ^ 28 → Tiles lba (lba + upto) (commands events)
  cursor : lba + upto ≤ 2 ^ 28 → sent < upto → (deviceAfter events).cursor = lba + sent
  moves : lba + upto ≤ 2 ^ 28 →
    (deviceAfter events).moves = (List.range sent).map fun i => (lba + i, i)

theorem Covers.nil : Covers drive isWrite lba 0 0 [] where
  shape := fun _ _ member => nomatch member
  left := rfl
  indices := rfl
  bound := Nat.le_refl 0
  tiles := fun _ => rfl
  cursor := fun _ lower => absurd lower (Nat.lt_irrefl 0)
  moves := fun _ => rfl

theorem Covers.command (covers : Covers drive isWrite lba upto upto events) {sectors : Nat}
    (some : 1 ≤ sectors) (limit : sectors ≤ 256) :
    Covers drive isWrite lba (upto + sectors) upto
      (events ++ [.command isWrite (Registers.of drive (lba + upto) sectors)]) where
  shape := by
    intro isWrite' registers member
    rcases List.mem_append.mp member with old | new
    · exact covers.shape _ _ old
    · cases List.mem_singleton.mp new
      rw [registers_sectors drive some limit]
      exact ⟨registers_drive .., rfl, some, limit⟩
  left := by
    rw [deviceAfter_command]
    dsimp only
    rw [registers_sectors drive some limit, Nat.add_sub_cancel_left]
  indices := by
    rw [sectorIndices_concat, covers.indices]
    exact List.append_nil _
  bound := Nat.le_add_right _ _
  tiles := by
    intro small
    have lower : lba + upto < 2 ^ 28 := by omega
    rw [commands_concat, commands_command, registers_lba drive lower,
      registers_sectors drive some limit]
    refine (covers.tiles (Nat.le_of_lt lower)).append ?_
    exact ⟨rfl, Nat.lt_add_of_pos_right some, Nat.add_assoc lba upto sectors⟩
  cursor := by
    intro small _
    rw [deviceAfter_command]
    dsimp only
    rw [registers_lba drive (by omega)]
  moves := by
    intro small
    rw [deviceAfter_command]
    exact covers.moves (by omega)

theorem Covers.moved (covers : Covers drive isWrite lba upto sent events) (more : sent < upto) :
    Covers drive isWrite lba upto (sent + 1) (events ++ [.moved sent]) := by
  have open' : (deviceAfter events).left ≠ 0 := by
    rw [covers.left]
    omega
  have after : deviceAfter (events ++ [.moved sent]) =
      ⟨(deviceAfter events).cursor + 1, upto - sent - 1,
        (deviceAfter events).moves ++ [((deviceAfter events).cursor, sent)]⟩ := by
    rw [deviceAfter_concat]
    unfold Device.after
    dsimp only
    rw [if_neg open', covers.left]
  refine
    { shape := ?_
      left := ?_
      indices := ?_
      bound := more
      tiles := ?_
      cursor := ?_
      moves := ?_ }
  · intro isWrite' registers member
    rcases List.mem_append.mp member with old | new
    · exact covers.shape _ _ old
    · cases List.mem_singleton.mp new
  · rw [after]
    exact Nat.sub_sub _ _ _
  · rw [sectorIndices_concat, covers.indices, List.range_succ]
    rfl
  · rw [commands_concat]
    simpa [commands] using covers.tiles
  · intro small _
    rw [after, covers.cursor small more]
    rfl
  · intro small
    rw [after, covers.cursor small more, covers.moves small, List.range_succ, List.map_append]
    rfl

theorem Covers.flush (covers : Covers drive isWrite lba upto sent events) :
    Covers drive isWrite lba upto sent (events ++ [.cacheFlush]) where
  shape := by
    intro isWrite' registers member
    rcases List.mem_append.mp member with old | new
    · exact covers.shape _ _ old
    · cases List.mem_singleton.mp new
  left := by
    rw [deviceAfter_concat]
    exact covers.left
  indices := by
    rw [sectorIndices_concat, covers.indices]
    exact List.append_nil _
  bound := covers.bound
  tiles := by
    rw [commands_concat]
    simpa [commands] using covers.tiles
  cursor := by
    rw [deviceAfter_concat]
    exact covers.cursor
  moves := by
    rw [deviceAfter_concat]
    exact covers.moves

theorem Covers.index_lt (covers : Covers drive isWrite lba upto sent events) {i : Nat}
    (used : i ∈ sectorIndices events) : i < sent := by
  rw [covers.indices] at used
  exact List.mem_range.mp used

end Covers

end Opal.Pata
