import Opal.Fat.Table
import Mathlib.Data.Nat.ModEq

/-!
# Entries of the allocation table

What `table_at` and `table_set` read and write, as functions of the loaded table: `stored`
is the number an entry holds, `encode` the table with another number in one entry.  The
packed entries of the 12-bit table are told apart by their half bytes.
-/

namespace Opal.Fat

/-- What the table holds for its users: the buffer, or the first copy before it is read. -/
def FatTable.view (fat : FatTable) : Memory := fat.buffer.getD (fat.copies 0)

namespace Width

/-- The offset of the entry of a cluster, computed in 32 bits. -/
def pos : Width → Nat → Nat
  | fat12, cluster => cluster * 3 % 2 ^ 32 / 2
  | fat16, cluster => cluster * 2 % 2 ^ 32
  | fat32, cluster => cluster * 4 % 2 ^ 32

/-- The bytes an entry is read with. -/
def bytes : Width → Nat
  | fat12 => 2
  | fat16 => 2
  | fat32 => 4

/-- The number of values of an entry. -/
def values : Width → Nat
  | fat12 => 2 ^ 12
  | fat16 => 2 ^ 16
  | fat32 => 2 ^ 32

/-- The first of the marks that are widened. -/
def limit : Width → Nat
  | fat12 => 0xff0
  | fat16 => 0xfff0
  | fat32 => 2 ^ 32

/-- The end mark of a new cluster. -/
def mark : Width → Nat
  | fat12 => 0xfff
  | fat16 => 0xffff
  | fat32 => 0x0fffffff

/-- The number in a packed entry, from the two bytes it lies in. -/
def unpack (cluster low high : Nat) : Nat :=
  if cluster % 2 = 0 then low + high % 16 * 256 else low / 16 + high * 16

/-- The two bytes of a packed entry that takes another number. -/
def pack (cluster low high value : Nat) : Memory :=
  if cluster % 2 = 0 then fun i =>
    if i = 0 then UInt8.ofNat value else UInt8.ofNat (high / 16 * 16 + value / 256 % 16)
  else fun i =>
    if i = 0 then UInt8.ofNat (low % 16 + value % 16 * 16) else UInt8.ofNat (value / 16)

/-- The number that the entry of a cluster holds. -/
def stored (width : Width) (mem : Memory) (cluster : Nat) : Nat :=
  match width with
  | fat12 => unpack cluster (mem (pos fat12 cluster)).toNat (mem (pos fat12 cluster + 1)).toNat
  | fat16 => mem.word (pos fat16 cluster) 2
  | fat32 => mem.word (pos fat32 cluster) 4

/-- The table with `value` in the entry of a cluster. -/
def encode (width : Width) (mem : Memory) (cluster value : Nat) : Memory :=
  match width with
  | fat12 => mem.copyInto (pos fat12 cluster) 2
      (pack cluster (mem (pos fat12 cluster)).toNat (mem (pos fat12 cluster + 1)).toNat value)
  | fat16 => mem.copyInto (pos fat16 cluster) 2 (Memory.bytesOf value)
  | fat32 => mem.copyInto (pos fat32 cluster) 4 (Memory.bytesOf value)

section Packed

variable {low high value : Nat}

theorem unpack_lt (cluster : Nat) (lowByte : low < 256) (highByte : high < 256) :
    unpack cluster low high < 2 ^ 12 := by
  unfold unpack
  split <;> omega

theorem unpack_pack (cluster : Nat) :
    unpack cluster (pack cluster low high value 0).toNat (pack cluster low high value 1).toNat =
      value % 2 ^ 12 := by
  unfold unpack pack
  split
  · simp only [if_true, one_ne_zero, if_false, UInt8.toNat_ofNat']
    omega
  · simp only [if_true, one_ne_zero, if_false, UInt8.toNat_ofNat']
    omega

/-- Writing the number that is there changes nothing. -/
theorem pack_unpack (mem : Memory) (cluster : Nat) {i : Nat}
    (same : unpack cluster (mem 0).toNat (mem 1).toNat = value % 2 ^ 12) (two : i < 2) :
    pack cluster (mem 0).toNat (mem 1).toNat value i = mem i := by
  have lowByte := (mem 0).toNat_lt
  have highByte := (mem 1).toNat_lt
  rw [← UInt8.toNat_inj]
  by_cases even : cluster % 2 = 0
  · simp only [unpack, pack, if_pos even] at same ⊢
    obtain rfl | rfl : i = 0 ∨ i = 1 := by omega
    · simp only [if_true, UInt8.toNat_ofNat']
      omega
    · simp only [one_ne_zero, if_false, UInt8.toNat_ofNat']
      omega
  · simp only [unpack, pack, if_neg even] at same ⊢
    obtain rfl | rfl : i = 0 ∨ i = 1 := by omega
    · simp only [if_true, UInt8.toNat_ofNat']
      omega
    · simp only [one_ne_zero, if_false, UInt8.toNat_ofNat']
      omega

/-- A half byte of a region. -/
def nibble (mem : Memory) (i : Nat) : Nat :=
  if i % 2 = 0 then (mem (i / 2)).toNat % 16 else (mem (i / 2)).toNat / 16

/-- The offset of the entry of a cluster in half bytes. -/
def half : Width → Nat → Nat
  | fat12, cluster => cluster * 3 % 2 ^ 32
  | fat16, cluster => 2 * pos fat16 cluster
  | fat32, cluster => 2 * pos fat32 cluster

/-- The half bytes of an entry. -/
def halves : Width → Nat
  | fat12 => 3
  | fat16 => 4
  | fat32 => 8

theorem half_parity (cluster : Nat) : half fat12 cluster % 2 = cluster % 2 := by
  show cluster * 3 % 2 ^ 32 % 2 = cluster % 2
  omega

/-- A packed entry is the number of its three half bytes. -/
theorem stored_nibbles (mem : Memory) (cluster : Nat) :
    stored fat12 mem cluster = nibble mem (half fat12 cluster) +
      16 * nibble mem (half fat12 cluster + 1) + 256 * nibble mem (half fat12 cluster + 2) := by
  have parity := half_parity cluster
  have place : pos fat12 cluster = half fat12 cluster / 2 := rfl
  have lowByte := (mem (half fat12 cluster / 2)).toNat_lt
  have highByte := (mem (half fat12 cluster / 2 + 1)).toNat_lt
  simp only [stored, place]
  generalize half fat12 cluster = n at *
  by_cases even : cluster % 2 = 0
  · have second : (n + 1) / 2 = n / 2 := by omega
    have third : (n + 2) / 2 = n / 2 + 1 := by omega
    have shift : (n + 1) % 2 = 1 := by omega
    have shift' : (n + 2) % 2 = 0 := by omega
    simp only [unpack, nibble, parity, even, second, third, shift, shift', if_true,
      one_ne_zero, if_false]
    omega
  · have odd : n % 2 = 1 := by omega
    have second : (n + 1) / 2 = n / 2 + 1 := by omega
    have third : (n + 2) / 2 = n / 2 + 1 := by omega
    have shift : (n + 1) % 2 = 0 := by omega
    have shift' : (n + 2) % 2 = 1 := by omega
    simp only [unpack, nibble, if_neg even, odd, second, third, shift, shift', if_true,
      one_ne_zero, if_false]
    omega

end Packed

section Entry

variable {mem : Memory} {cluster cluster' value : Nat}

/-- The entries of two clusters share no half byte. -/
def Apart (width : Width) (cluster cluster' : Nat) : Prop :=
  half width cluster + halves width ≤ half width cluster' ∨
    half width cluster' + halves width ≤ half width cluster

theorem Apart.symm {width : Width} (apart : Apart width cluster cluster') :
    Apart width cluster' cluster := Or.symm apart

theorem stored_lt (width : Width) : stored width mem cluster < values width := by
  cases width with
  | fat12 => exact unpack_lt cluster (mem _).toNat_lt (mem _).toNat_lt
  | fat16 => exact Memory.word_lt 2
  | fat32 => exact Memory.word_lt 4

theorem word_copyInto {pos width : Nat} :
    (mem.copyInto pos width (Memory.bytesOf value)).word pos width = value % 256 ^ width := by
  have same : (mem.copyInto pos width (Memory.bytesOf value)).word pos width =
      (Memory.bytesOf value).word 0 width :=
    Memory.word_congr fun i lower => by rw [Memory.copyInto_inside lower, Nat.zero_add]
  rw [same, Memory.word_bytesOf, Nat.pow_zero, Nat.div_one]

theorem copyInto_low (mem source : Memory) (pos : Nat) : mem.copyInto pos 2 source pos = source 0 :=
  Memory.copyInto_inside (i := 0) (by decide)

theorem copyInto_high (mem source : Memory) (pos : Nat) :
    mem.copyInto pos 2 source (pos + 1) = source 1 :=
  Memory.copyInto_inside (by decide)

theorem stored_encode (width : Width) :
    stored width (encode width mem cluster value) cluster = value % values width := by
  cases width with
  | fat12 =>
      simp only [stored, encode, copyInto_low, copyInto_high]
      exact unpack_pack cluster
  | fat16 => exact word_copyInto
  | fat32 => exact word_copyInto

/-- An entry that takes the number it holds stays as it is. -/
theorem encode_stored (width : Width) (same : stored width mem cluster = value % values width) :
    encode width mem cluster value = mem := by
  have copied : ∀ {pos size : Nat} {source : Memory}, (∀ i < size, source i = mem (pos + i)) →
      mem.copyInto pos size source = mem := by
    intro pos size source equal
    funext i
    unfold Memory.copyInto
    split
    · rename_i inside
      rw [equal (i - pos) (by omega), Nat.add_sub_cancel' inside.1]
    · rfl
  have words : ∀ {pos width : Nat}, mem.word pos width = value % 256 ^ width →
      ∀ i < width, Memory.bytesOf value i = mem (pos + i) := by
    intro pos width equal i lower
    have written : (mem.copyInto pos width (Memory.bytesOf value)).word pos width =
        value % 256 ^ width := word_copyInto
    have bytes := Memory.word_injective (written.trans equal.symm) i lower
    rwa [Memory.copyInto_inside lower] at bytes
  cases width with
  | fat12 =>
      refine copied fun i lower => ?_
      exact pack_unpack (mem.region (pos fat12 cluster)) cluster same lower
  | fat16 => exact copied (words same)
  | fat32 => exact copied (words same)

/-- The number in an entry that shares no half byte with the one written. -/
theorem stored_encode_apart (width : Width) (apart : Apart width cluster cluster') :
    stored width (encode width mem cluster value) cluster' = stored width mem cluster' := by
  have words : ∀ {pos pos' width : Nat}, pos + width ≤ pos' ∨ pos' + width ≤ pos →
      (mem.copyInto pos width (Memory.bytesOf value)).word pos' width = mem.word pos' width := by
    intro pos pos' width separate
    exact Memory.word_congr fun i lower => Memory.copyInto_outside (by omega)
  cases width with
  | fat12 =>
      have parity := half_parity cluster
      have parity' := half_parity cluster'
      have place : pos fat12 cluster = half fat12 cluster / 2 := rfl
      have place' : pos fat12 cluster' = half fat12 cluster' / 2 := rfl
      simp only [Apart, halves] at apart
      simp only [stored, encode]
      by_cases separate : pos fat12 cluster + 2 ≤ pos fat12 cluster' ∨
          pos fat12 cluster' + 2 ≤ pos fat12 cluster
      · rw [Memory.copyInto_outside (by omega), Memory.copyInto_outside (by omega)]
      · -- The two entries share a byte, each has one half of it.
        rcases apart with before | behind
        · have shared : pos fat12 cluster' = pos fat12 cluster + 1 := by omega
          have even : cluster % 2 = 0 := by omega
          have odd : ¬ cluster' % 2 = 0 := by omega
          rw [shared, copyInto_high, Memory.copyInto_outside (by omega)]
          simp only [unpack, pack, if_pos even, if_neg odd, one_ne_zero, if_false,
            UInt8.toNat_ofNat']
          have byte := (mem (pos fat12 cluster + 1)).toNat_lt
          omega
        · have shared : pos fat12 cluster = pos fat12 cluster' + 1 := by omega
          have odd : ¬ cluster % 2 = 0 := by omega
          have even : cluster' % 2 = 0 := by omega
          rw [Memory.copyInto_outside (by omega), ← shared, copyInto_low]
          simp only [unpack, pack, if_pos even, if_neg odd, if_true, UInt8.toNat_ofNat']
          omega
  | fat16 => exact words (by simp only [Apart, half, halves] at apart; omega)
  | fat32 => exact words (by simp only [Apart, half, halves] at apart; omega)

end Entry

end Width

end Opal.Fat
