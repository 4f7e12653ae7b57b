import Opal.Cpio.Entries

/-!
# The records of a cpio archive

A record lies at an offset when the bytes there follow the format: a header with its numbers
in hexadecimal, the name and the data, each up to a multiple of four bytes.  `cpio_mount`
reads exactly such records, and no byte outside of the buffer.
-/

namespace Opal.Cpio

section Numbers

variable {image : Image}

/-- The value of a hexadecimal digit. -/
def digitValue (ch : UInt8) : Option Nat :=
  if 48 ≤ ch.toNat ∧ ch.toNat ≤ 57 then some (ch.toNat - 48)
  else if 97 ≤ ch.toNat ∧ ch.toNat ≤ 102 then some (ch.toNat - 97 + 10)
  else if 65 ≤ ch.toNat ∧ ch.toNat ≤ 70 then some (ch.toNat - 65 + 10)
  else none

/-- The hexadecimal number that the bytes are, behind the digits of `value`. -/
def hexNumber : List UInt8 → Nat → Option Nat
  | [], value => some value
  | ch :: rest, value => (digitValue ch).bind fun digit => hexNumber rest (value * 16 + digit)

theorem digitValue_lt {ch : UInt8} {digit : Nat} (found : digitValue ch = some digit) :
    digit < 16 := by
  unfold digitValue at found
  split at found
  · cases found
    omega
  · split at found
    · cases found
      omega
    · split at found
      · cases found
        omega
      · cases found

theorem hexDigit_eq (ch : UInt8) : hexDigit ch = (digitValue ch).map (BitVec.ofNat 32) := by
  have bound := ch.toNat_lt
  have widen (x : UInt8) (n : Nat) (same : x.toNat = n) :
      x.toBitVec.setWidth 32 = BitVec.ofNat 32 n := by
    apply BitVec.eq_of_toNat_eq
    have small := x.toNat_lt
    rw [BitVec.toNat_setWidth, BitVec.toNat_ofNat, ← same]
    rfl
  unfold hexDigit digitValue
  simp only [UInt8.le_iff_toNat_le, UInt8.reduceToNat]
  split
  · rename_i range
    refine congrArg some (widen _ _ ?_)
    rw [UInt8.toNat_sub_of_le _ _ (by rw [UInt8.le_iff_toNat_le]; exact range.1)]
    rfl
  · split
    · rename_i range
      refine congrArg some (widen _ _ ?_)
      rw [UInt8.toNat_add, UInt8.toNat_sub_of_le _ _ (by rw [UInt8.le_iff_toNat_le]; exact range.1)]
      simp only [UInt8.reduceToNat]
      omega
    · split
      · rename_i range
        refine congrArg some (widen _ _ ?_)
        rw [UInt8.toNat_add,
          UInt8.toNat_sub_of_le _ _ (by rw [UInt8.le_iff_toNat_le]; exact range.1)]
        simp only [UInt8.reduceToNat]
        omega
      · rfl

theorem hexNumber_lt {bytes : List UInt8} {value k number : Nat} (small : value < 16 ^ k)
    (read : hexNumber bytes value = some number) : number < 16 ^ (k + bytes.length) := by
  induction bytes generalizing value k with
  | nil =>
      cases read
      exact small
  | cons ch rest inductionHypothesis =>
      obtain ⟨digit, found, read'⟩ := Option.bind_eq_some_iff.mp read
      have digitLt := digitValue_lt found
      have next : value * 16 + digit < 16 ^ (k + 1) := by
        rw [Nat.pow_succ]
        omega
      have := inductionHypothesis next read'
      rwa [List.length_cons, Nat.add_comm rest.length, ← Nat.add_assoc]

theorem parseHexLoop_eq {pos n : Nat} {value : BitVec 32} (inside : pos + n ≤ image.len)
    (room : value.toNat < 16 ^ (8 - n)) (atMost : n ≤ 8) :
    parseHexLoop image pos n value =
      match hexNumber (image.window pos n) value.toNat with
      | none => .error .einval
      | some number => .ok (BitVec.ofNat 32 number) := by
  induction n generalizing pos value with
  | zero =>
      unfold parseHexLoop Image.window hexNumber
      simp
      rfl
  | succ n inductionHypothesis =>
      unfold parseHexLoop Image.window hexNumber
      rw [read_eq (by omega), ok_bind, hexDigit_eq]
      cases found : digitValue (image.bytes pos) with
      | none => rfl
      | some digit =>
          have digitLt := digitValue_lt found
          have wider : 8 - n = 8 - (n + 1) + 1 := by omega
          have bound : 16 ^ (8 - n) ≤ 16 ^ 8 := Nat.pow_le_pow_right (by decide) (by omega)
          have next : value.toNat * 16 + digit < 16 ^ (8 - n) := by
            rw [wider, Nat.pow_succ]
            omega
          have shifted : ((value <<< 4) ||| BitVec.ofNat 32 digit).toNat =
            value.toNat * 16 + digit := by
            rw [BitVec.toNat_or, BitVec.toNat_shiftLeft, BitVec.toNat_ofNat, Nat.shiftLeft_eq,
              Nat.mod_eq_of_lt (by omega), Nat.mod_eq_of_lt (by omega), ← Nat.shiftLeft_eq,
              ← Nat.shiftLeft_add_eq_or_of_lt (by omega)]
          dsimp only [Option.map, Option.bind]
          rw [inductionHypothesis (by omega) (by rw [shifted]; exact next) (by omega), shifted]

/-- `parse_hex_u32` reads a number of eight digits. -/
theorem parseHexU32_eq {pos : Nat} (inside : pos + 8 ≤ image.len) :
    parseHexU32 image pos 8 =
      match hexNumber (image.window pos 8) 0 with
      | none => .error .einval
      | some number => .ok (BitVec.ofNat 32 number) :=
  parseHexLoop_eq inside (by decide) (by decide)

end Numbers

section Records

variable {image : Image} {off : Nat} {header : Header}

def roundUp4 (x : Nat) : Nat := (x + 3) / 4 * 4

theorem advanceAligned4_eq (inside : off ≤ image.len) : advanceAligned4 image off =
    if roundUp4 off ≤ image.len then .ok (roundUp4 off) else .error .einval := by
  have bound := image.bound
  unfold advanceAligned4 alignCeil4 roundUp4
  by_cases wraps : off + 3 < 2 ^ 64
  · rw [Nat.mod_eq_of_lt wraps]
    dsimp only
    by_cases fits : (off + 3) / 4 * 4 ≤ image.len
    · rw [if_pos fits, if_neg (by omega)]
    · rw [if_neg fits, if_pos (by omega)]
  · dsimp only
    rw [if_pos (by omega), if_neg (by omega)]

/-- The bytes at the offset are a record with these fields. -/
structure RecordAt (image : Image) (off : Nat) (header : Header) : Prop where
  magic : image.window off 6 = newcMagic ∨ image.window off 6 = crcMagic
  mode : hexNumber (image.window (off + 14) 8) 0 = some header.mode.toNat
  size : hexNumber (image.window (off + 54) 8) 0 = some header.size
  nameSize : hexNumber (image.window (off + 94) 8) 0 = some (header.nameLen + 1)
  name : header.name = off + cpioHdrSize
  ended : image.bytes (header.name + header.nameLen) = 0
  noZero : 0 ∉ image.window header.name header.nameLen
  data : header.data = roundUp4 (header.name + header.nameLen + 1)
  next : header.next = roundUp4 (header.data + header.size)
  inside : header.next ≤ image.len

theorem le_roundUp4 (x : Nat) : x ≤ roundUp4 x := by
  unfold roundUp4
  omega

theorem RecordAt.bounds (record : RecordAt image off header) :
    off + cpioHdrSize + header.nameLen + 1 ≤ header.data ∧
      header.data + header.size ≤ header.next ∧ header.next ≤ image.len := by
  refine ⟨?_, ?_, record.inside⟩
  · rw [← record.name, record.data]
    exact le_roundUp4 _
  · rw [record.next]
    exact le_roundUp4 _

/-- There is at most one record at an offset. -/
theorem RecordAt.unique {other : Header} (record : RecordAt image off header)
    (record' : RecordAt image off other) : header = other := by
  have mode : header.mode = other.mode :=
    BitVec.eq_of_toNat_eq (Option.some.inj (record.mode.symm.trans record'.mode))
  have name : header.name = other.name := record.name.trans record'.name.symm
  have nameLen : header.nameLen = other.nameLen :=
    Nat.succ.inj (Option.some.inj (record.nameSize.symm.trans record'.nameSize))
  have size : header.size = other.size := Option.some.inj (record.size.symm.trans record'.size)
  have data : header.data = other.data := by rw [record.data, record'.data, name, nameLen]
  have next : header.next = other.next := by rw [record.next, record'.next, data, size]
  cases header
  cases other
  cases mode
  cases name
  cases nameLen
  cases size
  cases data
  cases next
  rfl

/-- What the record has behind its header. -/
structure BodyAt (image : Image) (off nameSize : Nat) (header : Header) : Prop where
  nameSize : nameSize = header.nameLen + 1
  name : header.name = off
  ended : image.bytes (header.name + header.nameLen) = 0
  noZero : 0 ∉ image.window header.name header.nameLen
  data : header.data = roundUp4 (header.name + header.nameLen + 1)
  next : header.next = roundUp4 (header.data + header.size)
  inside : header.next ≤ image.len

theorem BodyAt.bounds {nameSize : Nat} (body : BodyAt image off nameSize header) :
    off + nameSize ≤ header.data ∧ header.data + header.size ≤ header.next ∧
      header.next ≤ image.len := by
  refine ⟨?_, ?_, body.inside⟩
  · rw [body.nameSize, ← body.name, ← Nat.add_assoc, body.data]
    exact le_roundUp4 _
  · rw [body.next]
    exact le_roundUp4 _

theorem readBody_cases (mode filesize namesize : BitVec 32) :
    (∃ header, readBody image off mode filesize namesize = .ok header ∧ header.mode = mode ∧
      header.size = filesize.toNat ∧ BodyAt image off namesize.toNat header) ∨
      readBody image off mode filesize namesize = .error .einval ∧
        ∀ header, header.size = filesize.toNat → ¬ BodyAt image off namesize.toNat header := by
  unfold readBody
  by_cases tooLong : namesize = 0 ∨ namesize.toNat > image.len - off
  · rw [if_pos tooLong]
    refine .inr ⟨rfl, fun header _ body => ?_⟩
    have bounds := body.bounds
    have nameSize := body.nameSize
    rcases tooLong with zero | long
    · rw [zero] at nameSize
      cases nameSize
    · omega
  rw [if_neg tooLong]
  obtain ⟨notZero, inside⟩ := not_or.mp tooLong
  have positive : namesize.toNat ≠ 0 := fun zero => notZero (BitVec.eq_of_toNat_eq zero)
  have nameLen (header : Header) (body : BodyAt image off namesize.toNat header) :
      header.nameLen = namesize.toNat - 1 := by
    have := body.nameSize
    omega
  dsimp only
  rw [read_eq (by omega), ok_bind]
  by_cases last : image.bytes (off + (namesize.toNat - 1)) ≠ 0
  · rw [if_pos last]
    refine .inr ⟨rfl, fun header _ body => last ?_⟩
    rw [← nameLen header body, ← body.name]
    exact body.ended
  rw [if_neg last, slice_eq (by omega), ok_bind]
  by_cases zero : 0 ∈ image.window off (namesize.toNat - 1)
  · rw [if_pos zero]
    refine .inr ⟨rfl, fun header _ body => body.noZero ?_⟩
    rw [nameLen header body, body.name]
    exact zero
  rw [if_neg zero, advanceAligned4_eq (by omega)]
  have data (header : Header) (body : BodyAt image off namesize.toNat header) :
      header.data = roundUp4 (off + namesize.toNat) := by
    rw [body.data, body.nameSize, body.name, Nat.add_assoc]
  by_cases dataInside : roundUp4 (off + namesize.toNat) ≤ image.len
  · rw [if_pos dataInside, ok_bind]
    by_cases tooLarge : filesize.toNat > image.len - roundUp4 (off + namesize.toNat)
    · rw [if_pos tooLarge]
      refine .inr ⟨rfl, fun header size body => ?_⟩
      have bounds := body.bounds
      rw [data header body, size] at bounds
      omega
    · rw [if_neg tooLarge, advanceAligned4_eq (by omega)]
      by_cases nextInside : roundUp4 (roundUp4 (off + namesize.toNat) + filesize.toNat) ≤ image.len
      · rw [if_pos nextInside]
        refine .inl ⟨_, rfl, rfl, rfl, ?_, rfl, not_not.mp last, zero, ?_, rfl, nextInside⟩
        · dsimp only
          omega
        · dsimp only
          rw [Nat.add_assoc, Nat.sub_add_cancel (Nat.pos_of_ne_zero positive)]
      · rw [if_neg nextInside]
        refine .inr ⟨rfl, fun header size body => nextInside ?_⟩
        rw [← data header body, ← size, ← body.next]
        exact body.inside
  · rw [if_neg dataInside]
    refine .inr ⟨rfl, fun header size body => ?_⟩
    have bounds := body.bounds
    rw [data header body] at bounds
    omega

/-- One record is read, or there is none and the archive is refused. -/
theorem readRecord_cases (image : Image) (off : Nat) :
    (∃ header, readRecord image off = .ok header ∧ RecordAt image off header) ∨
      readRecord image off = .error .einval ∧ ∀ header, ¬ RecordAt image off header := by
  unfold readRecord
  by_cases short : image.len - off < cpioHdrSize
  · rw [if_pos short]
    refine .inr ⟨rfl, fun header record => ?_⟩
    have := record.bounds
    omega
  rw [if_neg short]
  have room : off + cpioHdrSize ≤ image.len := by
    unfold cpioHdrSize at short ⊢
    omega
  unfold cpioHdrSize at room
  rw [slice_eq (by omega), ok_bind]
  by_cases magic : image.window off 6 ≠ newcMagic ∧ image.window off 6 ≠ crcMagic
  · rw [if_pos magic]
    refine .inr ⟨rfl, fun header record => ?_⟩
    rcases record.magic with newc | crc
    · exact magic.1 newc
    · exact magic.2 crc
  rw [if_neg magic, parseHexU32_eq (by omega), parseHexU32_eq (by omega),
    parseHexU32_eq (by omega)]
  cases mode : hexNumber (image.window (off + 14) 8) 0 with
  | none =>
      refine .inr ⟨rfl, fun header record => ?_⟩
      rw [record.mode] at mode
      cases mode
  | some mode' =>
  cases size : hexNumber (image.window (off + 54) 8) 0 with
  | none =>
      refine .inr ⟨rfl, fun header record => ?_⟩
      rw [record.size] at size
      cases size
  | some size' =>
  cases nameSize : hexNumber (image.window (off + 94) 8) 0 with
  | none =>
      refine .inr ⟨rfl, fun header record => ?_⟩
      rw [record.nameSize] at nameSize
      cases nameSize
  | some nameSize' =>
  have modeLt := hexNumber_lt (show 0 < 16 ^ 0 by decide) mode
  have sizeLt := hexNumber_lt (show 0 < 16 ^ 0 by decide) size
  have nameSizeLt := hexNumber_lt (show 0 < 16 ^ 0 by decide) nameSize
  rw [length_window] at modeLt sizeLt nameSizeLt
  have numbers : ∀ number < 16 ^ (0 + 8), (BitVec.ofNat 32 number).toNat = number :=
    fun number small => Nat.mod_eq_of_lt small
  simp only [ok_bind]
  rcases readBody_cases (BitVec.ofNat 32 mode') (BitVec.ofNat 32 size') (BitVec.ofNat 32 nameSize')
    with ⟨header, ran, sameMode, sameSize, body⟩ | ⟨ran, none⟩
  · refine .inl ⟨header, ran, ?_⟩
    have nameLen := body.nameSize
    rw [numbers _ nameSizeLt] at nameLen
    refine ⟨by_contra fun neither => magic (not_or.mp neither), ?_, ?_, ?_, body.name, body.ended,
      body.noZero, body.data, body.next, body.inside⟩
    · rw [mode, sameMode, numbers _ modeLt]
    · rw [size, sameSize, numbers _ sizeLt]
    · rw [nameSize, nameLen]
  · refine .inr ⟨ran, fun header record => none header ?_ ?_⟩
    · rw [numbers _ sizeLt]
      exact Option.some.inj (record.size.symm.trans size)
    · refine ⟨?_, record.name, record.ended, record.noZero, record.data, record.next,
        record.inside⟩
      rw [numbers _ nameSizeLt]
      exact Option.some.inj (nameSize.symm.trans record.nameSize)

end Records

end Opal.Cpio
