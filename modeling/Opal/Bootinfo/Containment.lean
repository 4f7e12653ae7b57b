import Opal.Bootinfo.Operations

/-!
# Where the parser of the boot information reads

A tag is handed to its parser only when it ends inside the block, and its parser stays inside the
tag, with one exception: `parse_mb2_fb` takes a framebuffer tag for the longer one with the
fields of direct colours.  Besides, the walk does not stop at a tag that ends where the 32-bit
offset wraps.
-/

namespace Opal.Bootinfo

section Condition

variable (image : Memory)

/-- The field at the start of the block. -/
def totalSize : Nat := image.word 0 4

def tagType (off : Nat) : Nat := image.word off 4

def tagSize (off : Nat) : Nat := image.word (off + 4) 4

/-- Where the tag behind the one at `off` starts. -/
def nextOff (off : Nat) : Nat := alignCeilU32P2 ((off + tagSize image off) % 2 ^ 32) tagAlign

/-- A tag lies at `off` and another offset comes behind it. -/
structure Continues (off : Nat) : Prop where
  header : off + 8 ≤ totalSize image
  size : 8 ≤ tagSize image off
  type : tagType image off ≠ tagTypeEnd
  forward : off < nextOff image off
  bounds : nextOff image off ≤ totalSize image

/-- The tag at `off` describes a framebuffer in direct colours of the given depth and layout. -/
structure IsRgb (off : Nat) : Prop where
  type : tagType image off = tagTypeFramebuffer
  size : 32 ≤ tagSize image off
  rgb : image (off + 29) = framebufferTypeRgb

/-- The tag at `off` describes a framebuffer that the kernel takes. -/
structure Fills (off : Nat) : Prop extends IsRgb image off where
  supported : ∀ field ∈ rgbFields off, image field.1 = field.2
  addr : image.word (off + 8) 8 ≠ 0

/-- The offsets of the tags, each with whether no framebuffer came before it. -/
inductive TagAt (unset : Prop) : Nat → Prop → Prop where
  | first : TagAt unset 8 unset
  | next {off : Nat} {free : Prop} (tag : TagAt unset off free) (continues : Continues image off) :
      TagAt unset (nextOff image off) (free ∧ ¬ Fills image off)

/-- The fields of direct colours lie in the block, or one that does is not as the kernel asks. -/
def DirectInside (off : Nat) : Prop :=
  off + 38 ≤ totalSize image ∨
    ∃ field ∈ rgbFields off, field.1 < totalSize image ∧ image field.1 ≠ field.2

/-- The block holds its own size, no tag ends eight bytes before 4 GiB, and the first framebuffer
tags that are looked at have their fields of direct colours inside. -/
structure Safe (info : Info) : Prop where
  header : 4 ≤ totalSize image
  last : ∀ free, ¬ TagAt image (info.fb.addr = 0) (2 ^ 32 - 8) free
  direct : ∀ off free, TagAt image (info.fb.addr = 0) off free → free → Continues image off →
    IsRgb image off → DirectInside image off

/-- The parser returns, and reads nothing behind the block. -/
def Contained (info : Info) : Prop :=
  (∃ after, ∀ fuel, 2 ^ 32 ≤ fuel → (parseMb2Info image fuel info).value = some after) ∧
    ∀ fuel, (parseMb2Info image fuel info).Within (totalSize image)

end Condition

section Offsets

variable {image : Memory} {off : Nat}

theorem and_alignMask {x : Nat} (word : x < 2 ^ 32) : x &&& (2 ^ 32 - 1 - 7) = x / 8 * 8 := by
  have mask : 2 ^ 32 - 1 - 7 = (2 ^ 29 - 1) <<< 3 := by decide
  have floor : x / 8 * 8 = (x >>> 3) <<< 3 := by
    rw [Nat.shiftLeft_eq, Nat.shiftRight_eq_div_pow]
  rw [mask, floor]
  apply Nat.eq_of_testBit_eq
  intro i
  rw [Nat.testBit_and, Nat.testBit_shiftLeft, Nat.testBit_shiftLeft, Nat.testBit_shiftRight,
    Nat.testBit_two_pow_sub_one]
  by_cases low : 3 ≤ i
  · rw [Nat.add_sub_cancel' low]
    by_cases high : i < 32
    · have inside : i - 3 < 29 := by omega
      simp [low, inside]
    · have outside : x.testBit i = false :=
        Nat.testBit_lt_two_pow (Nat.lt_of_lt_of_le word (Nat.pow_le_pow_right (by decide)
          (Nat.le_of_not_lt high)))
      simp [outside]
  · simp [low]

theorem nextOff_eq : nextOff image off =
    ((off + tagSize image off) % 2 ^ 32 + 7) % 2 ^ 32 / 8 * 8 := by
  unfold nextOff alignCeilU32P2 tagAlign
  exact and_alignMask (Nat.mod_lt _ (by decide))

theorem tagSize_lt : tagSize image off < 2 ^ 32 := Memory.word_lt 4

theorem totalSize_lt : totalSize image < 2 ^ 32 := Memory.word_lt 4

theorem nextOff_aligned : nextOff image off % 8 = 0 := by
  rw [nextOff_eq]
  exact Nat.mul_mod_left _ 8

theorem nextOff_lt : nextOff image off < 2 ^ 32 := by
  rw [nextOff_eq]
  omega

/-- Where the walk goes on, the tag ends inside the block. -/
theorem Continues.inside (continues : Continues image off) (aligned : off % 8 = 0) :
    off + tagSize image off ≤ totalSize image := by
  have forward := continues.forward
  have bounds := continues.bounds
  have small : tagSize image off < 2 ^ 32 := tagSize_lt
  have total : totalSize image < 2 ^ 32 := totalSize_lt
  have header := continues.header
  rw [nextOff_eq] at forward bounds
  omega

theorem Continues.before (continues : Continues image off) : off ≠ 2 ^ 32 - 8 := by
  have header := continues.header
  have total := @totalSize_lt image
  omega

/-- Offsets are multiples of eight. -/
structure Offset (off : Nat) : Prop where
  aligned : off % 8 = 0
  word : off < 2 ^ 32

theorem offset_first : Offset 8 := ⟨by decide, by decide⟩

theorem offset_nextOff : Offset (nextOff image off) := ⟨nextOff_aligned, nextOff_lt⟩

theorem TagAt.offset {unset free : Prop} (tag : TagAt image unset off free) : Offset off := by
  cases tag with
  | first => exact offset_first
  | next _ _ => exact offset_nextOff

/-- There is a second tag only in a block with room for a first one. -/
theorem TagAt.large {unset free : Prop} (tag : TagAt image unset off free) :
    off = 8 ∨ 8 ≤ totalSize image := by
  cases tag with
  | first => exact .inl rfl
  | next _ continues => exact .inr (Nat.le_trans (Nat.le_add_left 8 _) continues.header)

end Offsets

section Parsers

variable {image : Memory} {info : Info} {limit : Nat}

theorem strsncpyLoop_within {src n : Nat} (inside : src + n ≤ limit) :
    (strsncpyLoop image src n).Within limit := by
  induction n generalizing src with
  | zero => simp [strsncpyLoop]
  | succ n inductionHypothesis =>
      have here : src < limit := by omega
      have rest := @inductionHypothesis (src + 1) (by omega)
      rw [strsncpyLoop, Reading.within_bind, Reading.within_byte]
      refine ⟨here, ?_⟩
      split
      · simp
      · simp [rest]

theorem strsncpy_within {dest : List UInt8} {destsz src n : Nat} (inside : src + n ≤ limit) :
    (strsncpy image dest destsz src n).Within limit := by
  unfold strsncpy
  split
  · simp
  · apply strsncpyLoop_within
    split <;> omega

variable {tag : Nat}

theorem parseMb2Cmdline_within (size : 8 ≤ tagSize image tag)
    (inside : tag + tagSize image tag ≤ limit) :
    (parseMb2Cmdline image tag info).Within limit := by
  unfold parseMb2Cmdline
  split
  · simp
  · have string : tag + 8 + (tagSize image tag - 8) ≤ limit := by omega
    have copied := @strsncpy_within image limit info.cmdline maxBootCmdline _ _ string
    have header : (Reading.word image (tag + 4) 4).Within limit := Reading.within_word (by omega)
    rw [Reading.within_bind, Reading.within_bind, Reading.within_pure]
    exact ⟨header, copied, trivial⟩

theorem parseMb2Module_within (size : 16 ≤ tagSize image tag)
    (inside : tag + tagSize image tag ≤ limit) :
    (parseMb2Module image tag info).Within limit := by
  unfold parseMb2Module
  split
  · simp
  · have string : tag + 16 + (tagSize image tag - 16) ≤ limit := by omega
    have copied := @strsncpy_within image limit [] maxBootModuleName _ _ string
    have field (place : Nat) (last : place + 4 ≤ tag + 16) :
        (Reading.word image place 4).Within limit := Reading.within_word (by omega)
    simp only [Reading.within_bind, Reading.within_pure, and_true]
    exact ⟨field _ (by omega), field _ (by omega), field _ (by omega), copied⟩

theorem mmapLoop_within {entryEnd room entryPtr : Nat} {entries : List MmapEntry}
    (header : tag + 12 ≤ limit) (wide : 24 ≤ image.word (tag + 8) 4) (inside : entryEnd ≤ limit) :
    (mmapLoop image tag entryEnd room entryPtr entries).Within limit := by
  have size : (Reading.word image (tag + 8) 4).Within limit := Reading.within_word (by omega)
  induction room generalizing entryPtr entries with
  | zero =>
      rw [mmapLoop, Reading.within_bind]
      exact ⟨size, Reading.within_pure.mpr trivial⟩
  | succ room inductionHypothesis =>
      rw [mmapLoop, Reading.within_bind, Reading.value_word]
      refine ⟨size, ?_⟩
      split
      · rename_i fits
        simp only [Reading.within_bind]
        exact ⟨Reading.within_word (by omega), Reading.within_word (by omega),
          Reading.within_word (by omega), size, inductionHypothesis⟩
      · simp

theorem parseMb2Mmap_within (size : 16 ≤ tagSize image tag)
    (inside : tag + tagSize image tag ≤ limit) : (parseMb2Mmap image tag info).Within limit := by
  have sizeField : (Reading.word image (tag + 4) 4).Within limit := Reading.within_word (by omega)
  have widthField : (Reading.word image (tag + 8) 4).Within limit := Reading.within_word (by omega)
  unfold parseMb2Mmap
  split
  · simp
  · rw [Reading.within_bind, Reading.within_bind, Reading.value_word, Reading.value_word]
    refine ⟨sizeField, widthField, ?_⟩
    split
    · simp
    · rename_i wide
      rw [Reading.within_bind, Reading.within_pure, and_true]
      exact mmapLoop_within (by omega) (Nat.le_of_not_lt wide) inside

theorem rgbFields_increasing : (rgbFields tag).Pairwise fun a b => a.1 < b.1 := by
  simp [rgbFields]

theorem rgbFields_below : (∀ field ∈ rgbFields tag, field.1 < limit) ↔ tag + 38 ≤ limit := by
  simp only [rgbFields, List.forall_mem_cons]
  constructor
  · rintro ⟨-, -, -, -, -, -, last, -⟩
    omega
  · intro inside
    refine ⟨?_, ?_, ?_, ?_, ?_, ?_, ?_, ?_⟩
    · omega
    · omega
    · omega
    · omega
    · omega
    · omega
    · omega
    · exact fun _ absent => absurd absent List.not_mem_nil

/-- Only the fields of direct colours may lie behind the tag. -/
theorem parseMb2Fb_within (size : 32 ≤ tagSize image tag)
    (inside : tag + tagSize image tag ≤ totalSize image) :
    (parseMb2Fb image tag info).Within (totalSize image) ↔
      (info.fb.addr = 0 → image (tag + 29) = framebufferTypeRgb → DirectInside image tag) := by
  have field (place width : Nat) (last : place + width ≤ tag + 32) :
      (Reading.word image place width).Within (totalSize image) := Reading.within_word (by omega)
  have typeField : tag + 29 < totalSize image := by omega
  have depthField : tag + 28 < totalSize image := by omega
  have compared : (isSupportedRgb image tag).Within (totalSize image) ↔ DirectInside image tag := by
    unfold isSupportedRgb DirectInside
    rw [Reading.within_bytesAre rgbFields_increasing, rgbFields_below]
  unfold parseMb2Fb
  by_cases known : info.fb.addr ≠ 0
  · rw [if_pos known, Reading.within_pure]
    exact iff_of_true trivial fun unset => absurd unset known
  rw [if_neg known, Reading.within_bind, Reading.within_byte, Reading.value_byte]
  by_cases other : image (tag + 29) ≠ framebufferTypeRgb
  · rw [if_pos other, Reading.within_pure]
    exact iff_of_true ⟨typeField, trivial⟩ fun _ rgb => absurd rgb other
  rw [if_neg other, Reading.within_bind, compared]
  constructor
  · exact fun within _ _ => within.2.1
  · intro direct
    refine ⟨typeField, direct (not_not.mp known) (not_not.mp other), ?_⟩
    split
    · simp
    · simp only [Reading.within_bind, Reading.within_byte, Reading.within_pure, and_true]
      exact ⟨field _ _ (by omega), field _ _ (by omega), field _ _ (by omega),
        field _ _ (by omega), depthField⟩

theorem caseType_within {sizeofType : Nat} {func : Nat → Info → Reading Info}
    (header : tag + 8 ≤ limit) : (caseType image sizeofType func tag info).Within limit ↔
      (sizeofType ≤ tagSize image tag → (func tag info).Within limit) := by
  have size : (Reading.word image (tag + 4) 4).Within limit := Reading.within_word (by omega)
  unfold caseType
  rw [Reading.within_bind, Reading.value_word]
  change _ ∧ (if tagSize image tag < sizeofType then _ else _ : Reading Info).Within limit ↔ _
  by_cases short : tagSize image tag < sizeofType
  · rw [if_pos short, Reading.within_pure]
    exact iff_of_true ⟨size, trivial⟩ fun long => absurd short (Nat.not_lt.mpr long)
  · rw [if_neg short]
    exact ⟨fun within _ => within.2, fun within => ⟨size, within (Nat.le_of_not_lt short)⟩⟩

end Parsers

section Framebuffer

variable {image : Memory} {info : Info} {tag : Nat}

theorem parseMb2Cmdline_fb : (parseMb2Cmdline image tag info).value.fb = info.fb := by
  unfold parseMb2Cmdline
  split <;> rfl

theorem parseMb2Module_fb : (parseMb2Module image tag info).value.fb = info.fb := by
  unfold parseMb2Module
  split <;> rfl

theorem parseMb2Mmap_fb : (parseMb2Mmap image tag info).value.fb = info.fb := by
  unfold parseMb2Mmap
  split
  · rfl
  · simp only [Reading.value_bind]
    split <;> rfl

theorem parseMb2Fb_unset : (parseMb2Fb image tag info).value.fb.addr = 0 ↔ info.fb.addr = 0 ∧
    ¬ (image (tag + 29) = framebufferTypeRgb ∧
      (∀ field ∈ rgbFields tag, image field.1 = field.2) ∧ image.word (tag + 8) 8 ≠ 0) := by
  have supported := @Reading.value_bytesAre image (rgbFields tag)
  unfold parseMb2Fb
  by_cases known : info.fb.addr ≠ 0
  · rw [if_pos known]
    exact iff_of_false known fun unset => known unset.1
  rw [if_neg known, Reading.value_bind, Reading.value_byte]
  rw [not_not] at known
  by_cases other : image (tag + 29) ≠ framebufferTypeRgb
  · rw [if_pos other]
    exact iff_of_true known ⟨known, fun fills => other fills.1⟩
  rw [if_neg other, Reading.value_bind]
  rw [not_not] at other
  unfold isSupportedRgb
  by_cases refused : (Reading.bytesAre image (rgbFields tag)).value = false
  · rw [if_pos refused]
    refine iff_of_true known ⟨known, fun fills => ?_⟩
    rw [supported.mpr fills.2.1] at refused
    cases refused
  · rw [if_neg refused]
    rw [Bool.not_eq_false] at refused
    simp only [Reading.value_bind, Reading.value_word, Reading.value_pure]
    constructor
    · exact fun zero => ⟨known, fun fills => fills.2.2 zero⟩
    · intro unset
      by_contra nonzero
      exact unset.2 ⟨other, supported.mp refused, nonzero⟩

theorem caseType_value {sizeofType : Nat} {func : Nat → Info → Reading Info} :
    (caseType image sizeofType func tag info).value =
      if tagSize image tag < sizeofType then info else (func tag info).value := by
  unfold caseType
  rw [Reading.value_bind, Reading.value_word]
  exact apply_ite Reading.value _ _ _

theorem caseType_fb {sizeofType : Nat} {func : Nat → Info → Reading Info}
    (kept : (func tag info).value.fb = info.fb) :
    (caseType image sizeofType func tag info).value.fb = info.fb := by
  rw [caseType_value]
  split
  · rfl
  · exact kept

/-- No framebuffer is known after a tag when none was before and the tag does not bring one. -/
theorem parseTag_unset : (parseTag image (tagType image tag) tag info).value.fb.addr = 0 ↔
    info.fb.addr = 0 ∧ ¬ Fills image tag := by
  unfold parseTag
  by_cases framebuffer : tagType image tag = tagTypeFramebuffer
  · rw [framebuffer, if_neg (by decide), if_neg (by decide), if_neg (by decide), if_pos rfl,
      caseType_value]
    by_cases short : tagSize image tag < 32
    · rw [if_pos short]
      exact ⟨fun unset => ⟨unset, fun fills => absurd fills.size (Nat.not_le.mpr short)⟩, And.left⟩
    · rw [if_neg short, parseMb2Fb_unset]
      refine and_congr_right fun _ => not_congr ⟨?_, ?_⟩
      · rintro ⟨rgb, supported, addr⟩
        exact ⟨⟨framebuffer, Nat.le_of_not_lt short, rgb⟩, supported, addr⟩
      · intro fills
        exact ⟨fills.rgb, fills.supported, fills.addr⟩
  · have kept : (parseTag image (tagType image tag) tag info).value.fb = info.fb := by
      unfold parseTag
      split
      · exact caseType_fb parseMb2Cmdline_fb
      split
      · exact caseType_fb parseMb2Module_fb
      split
      · exact caseType_fb parseMb2Mmap_fb
      · rfl
    unfold parseTag at kept
    rw [kept]
    exact ⟨fun unset => ⟨unset, fun fills => framebuffer fills.type⟩, And.left⟩

/-- A tag that is passed by is read inside the block, unless it is such a framebuffer. -/
theorem parseTag_within (continues : Continues image tag) (aligned : tag % 8 = 0) :
    (parseTag image (tagType image tag) tag info).Within (totalSize image) ↔
      (info.fb.addr = 0 → IsRgb image tag → DirectInside image tag) := by
  have inside := continues.inside aligned
  have header := continues.header
  unfold parseTag
  by_cases framebuffer : tagType image tag = tagTypeFramebuffer
  · rw [framebuffer, if_neg (by decide), if_neg (by decide), if_neg (by decide), if_pos rfl,
      caseType_within header]
    constructor
    · intro within unset rgb
      exact (parseMb2Fb_within rgb.size inside).mp (within rgb.size) unset rgb.rgb
    · intro direct size
      refine (parseMb2Fb_within size inside).mpr fun unset rgb => ?_
      exact direct unset ⟨framebuffer, size, rgb⟩
  · refine iff_of_true ?_ fun _ rgb => absurd rgb.type framebuffer
    split
    · exact (caseType_within header).mpr fun size => parseMb2Cmdline_within size inside
    split
    · exact (caseType_within header).mpr fun size => parseMb2Module_within size inside
    split
    · exact (caseType_within header).mpr fun size => parseMb2Mmap_within size inside
    · exact Reading.within_pure.mpr trivial

end Framebuffer

section Loop

variable {image : Memory} {info : Info} {off : Nat}

/-- One round, where the offset behind the header does not wrap. -/
theorem tagLoop_within {fuel : Nat} (offset : Offset off) (before : off ≠ 2 ^ 32 - 8) :
    (tagLoop image (totalSize image) (fuel + 1) off info).Within (totalSize image) ↔
      (Continues image off →
        (parseTag image (tagType image off) off info).Within (totalSize image) ∧
        (tagLoop image (totalSize image) fuel (nextOff image off)
          (parseTag image (tagType image off) off info).value).Within (totalSize image)) := by
  have aligned := offset.aligned
  have word := offset.word
  have small : (off + 8) % 2 ^ 32 = off + 8 := Nat.mod_eq_of_lt (by omega)
  rw [tagLoop, small]
  by_cases behind : totalSize image < off + 8
  · rw [if_pos behind, Reading.within_pure]
    exact iff_of_true trivial fun continues =>
      absurd continues.header (Nat.not_le.mpr behind)
  rw [if_neg behind]
  have header := Nat.le_of_not_lt behind
  have sizeField : (Reading.word image (off + 4) 4).Within (totalSize image) :=
    Reading.within_word (by omega)
  have typeField : (Reading.word image off 4).Within (totalSize image) :=
    Reading.within_word (by omega)
  simp only [Reading.within_bind, Reading.value_word]
  change _ ∧ (if tagSize image off < 8 then _ else _ : Reading (Option Info)).Within _ ↔ _
  by_cases short : tagSize image off < 8
  · rw [if_pos short, Reading.within_pure]
    exact iff_of_true ⟨sizeField, trivial⟩ fun continues =>
      absurd continues.size (Nat.not_le.mpr short)
  rw [if_neg short, Reading.within_bind, Reading.value_word]
  change _ ∧ _ ∧ (if tagType image off = tagTypeEnd then _ else _ :
    Reading (Option Info)).Within _ ↔ _
  by_cases last : tagType image off = tagTypeEnd
  · rw [if_pos last, Reading.within_pure]
    exact iff_of_true ⟨sizeField, typeField, trivial⟩ fun continues => absurd last continues.type
  rw [if_neg last, Reading.within_bind, Reading.value_word]
  change _ ∧ _ ∧ _ ∧ (if nextOff image off ≤ off ∨ totalSize image < nextOff image off then _
    else _ : Reading (Option Info)).Within _ ↔ _
  by_cases out : nextOff image off ≤ off ∨ totalSize image < nextOff image off
  · rw [if_pos out, Reading.within_pure]
    refine iff_of_true ⟨sizeField, typeField, sizeField, trivial⟩ fun continues => ?_
    have forward := continues.forward
    have bounds := continues.bounds
    omega
  rw [if_neg out, Reading.within_bind, Reading.within_bind, Reading.value_word]
  obtain ⟨forward, bounds⟩ := not_or.mp out
  have continues : Continues image off :=
    ⟨header, Nat.le_of_not_lt short, last, Nat.lt_of_not_le forward, Nat.le_of_not_lt bounds⟩
  constructor
  · exact fun within _ => within.2.2.2.2
  · exact fun within => ⟨sizeField, typeField, sizeField, typeField, within continues⟩

/-- The checks of a round, with the sum that may wrap. -/
structure Passes (image : Memory) (total off : Nat) : Prop where
  header : (off + 8) % 2 ^ 32 ≤ total
  size : 8 ≤ tagSize image off
  type : tagType image off ≠ tagTypeEnd
  forward : off < nextOff image off
  bounds : nextOff image off ≤ total

/-- One round goes on behind the tag or returns. -/
theorem tagLoop_value {total : Nat} (fuel : Nat) :
    (Passes image total off → (tagLoop image total (fuel + 1) off info).value =
      (tagLoop image total fuel (nextOff image off)
        (parseTag image (tagType image off) off info).value).value) ∧
    (¬ Passes image total off → (tagLoop image total (fuel + 1) off info).value = some info) := by
  rw [tagLoop]
  by_cases behind : total < (off + 8) % 2 ^ 32
  · rw [if_pos behind]
    exact ⟨fun passes => absurd passes.header (Nat.not_le.mpr behind), fun _ => rfl⟩
  rw [if_neg behind, Reading.value_bind, Reading.value_word]
  change (_ → (if tagSize image off < 8 then _ else _ : Reading (Option Info)).value = _) ∧
    (_ → (if tagSize image off < 8 then _ else _ : Reading (Option Info)).value = _)
  by_cases short : tagSize image off < 8
  · rw [if_pos short]
    exact ⟨fun passes => absurd passes.size (Nat.not_le.mpr short), fun _ => rfl⟩
  rw [if_neg short, Reading.value_bind, Reading.value_word]
  change (_ → (if tagType image off = tagTypeEnd then _ else _ :
      Reading (Option Info)).value = _) ∧
    (_ → (if tagType image off = tagTypeEnd then _ else _ : Reading (Option Info)).value = _)
  by_cases last : tagType image off = tagTypeEnd
  · rw [if_pos last]
    exact ⟨fun passes => absurd last passes.type, fun _ => rfl⟩
  rw [if_neg last, Reading.value_bind, Reading.value_word]
  change (_ → (if nextOff image off ≤ off ∨ total < nextOff image off then _ else _ :
      Reading (Option Info)).value = _) ∧
    (_ → (if nextOff image off ≤ off ∨ total < nextOff image off then _ else _ :
      Reading (Option Info)).value = _)
  by_cases out : nextOff image off ≤ off ∨ total < nextOff image off
  · rw [if_pos out]
    refine ⟨fun passes => ?_, fun _ => rfl⟩
    have forward := passes.forward
    have bounds := passes.bounds
    omega
  · rw [if_neg out]
    obtain ⟨forward, bounds⟩ := not_or.mp out
    exact ⟨fun _ => rfl, fun stops => absurd ⟨Nat.le_of_not_lt behind, Nat.le_of_not_lt short, last,
      Nat.lt_of_not_le forward, Nat.le_of_not_lt bounds⟩ stops⟩

/-- Offsets rise, so the walk ends. -/
theorem tagLoop_returns {total : Nat} (rounds : Nat) (near : 2 ^ 32 ≤ off + rounds)
    (word : off < 2 ^ 32) :
    ∃ after, ∀ fuel, rounds < fuel → (tagLoop image total fuel off info).value = some after := by
  induction rounds generalizing off info with
  | zero => omega
  | succ rounds inductionHypothesis =>
      by_cases passes : Passes image total off
      · have forward := passes.forward
        obtain ⟨after, returns⟩ := @inductionHypothesis
          (parseTag image (tagType image off) off info).value (nextOff image off) (by omega)
          nextOff_lt
        refine ⟨after, fun fuel enough => ?_⟩
        obtain ⟨fuel, rfl⟩ := Nat.exists_eq_succ_of_ne_zero (Nat.ne_zero_of_lt enough)
        rw [(tagLoop_value fuel).1 passes]
        exact returns fuel (Nat.lt_of_succ_lt_succ enough)
      · refine ⟨info, fun fuel enough => ?_⟩
        obtain ⟨fuel, rfl⟩ := Nat.exists_eq_succ_of_ne_zero (Nat.ne_zero_of_lt enough)
        exact (tagLoop_value fuel).2 passes

end Loop

section Block

variable {image : Memory} {info : Info} {off : Nat}

theorem parseMb2Info_value {fuel : Nat} : (parseMb2Info image fuel info).value =
    if totalSize image < 8 then some info
    else (tagLoop image (totalSize image) fuel 8 info).value := by
  unfold parseMb2Info
  rw [Reading.value_bind, Reading.value_word]
  exact apply_ite Reading.value _ _ _

theorem parseMb2Info_within {fuel : Nat} :
    (parseMb2Info image fuel info).Within (totalSize image) ↔ 4 ≤ totalSize image ∧
      (8 ≤ totalSize image →
        (tagLoop image (totalSize image) fuel 8 info).Within (totalSize image)) := by
  have header : (Reading.word image 0 4).Within (totalSize image) ↔ 4 ≤ totalSize image := by
    constructor
    · intro within
      by_contra short
      exact Reading.not_within_word (by decide) (by omega) within
    · exact fun long => Reading.within_word (by omega)
  unfold parseMb2Info
  rw [Reading.within_bind, Reading.value_word, header]
  change _ ∧ (if totalSize image < 8 then _ else _ : Reading (Option Info)).Within _ ↔ _
  by_cases empty : totalSize image < 8
  · rw [if_pos empty, Reading.within_pure]
    exact and_congr_right fun _ => iff_of_true trivial fun long =>
      absurd empty (Nat.not_lt.mpr long)
  · rw [if_neg empty]
    exact and_congr_right fun _ => ⟨fun within _ => within, fun within =>
      within (Nat.le_of_not_lt empty)⟩

/-- The parser returns on every block. -/
theorem parseMb2Info_returns : ∃ after, ∀ fuel, 2 ^ 32 ≤ fuel →
    (parseMb2Info image fuel info).value = some after := by
  by_cases empty : totalSize image < 8
  · refine ⟨info, fun fuel _ => ?_⟩
    rw [parseMb2Info_value, if_pos empty]
  · obtain ⟨after, returns⟩ := @tagLoop_returns image info 8 (totalSize image) (2 ^ 32 - 8)
      (by decide) (by decide)
    refine ⟨after, fun fuel enough => ?_⟩
    rw [parseMb2Info_value, if_neg empty]
    exact returns fuel (Nat.lt_of_lt_of_le (by decide) enough)

/-- In a safe block the walk stays inside from every tag on. -/
theorem Safe.tagLoop_within (safe : Safe image info) {free : Prop} {info' : Info} (fuel : Nat)
    (tag : TagAt image (info.fb.addr = 0) off free) (unset : info'.fb.addr = 0 → free) :
    (tagLoop image (totalSize image) fuel off info').Within (totalSize image) := by
  induction fuel generalizing off free info' with
  | zero => exact Reading.within_pure.mpr trivial
  | succ fuel inductionHypothesis =>
      have before : off ≠ 2 ^ 32 - 8 := by
        rintro rfl
        exact safe.last free tag
      refine (Bootinfo.tagLoop_within tag.offset before).mpr fun continues => ⟨?_, ?_⟩
      · refine (parseTag_within continues tag.offset.aligned).mpr fun zero rgb => ?_
        exact safe.direct off free tag (unset zero) continues rgb
      · refine inductionHypothesis (tag.next continues) fun zero => ?_
        obtain ⟨before, kept⟩ := parseTag_unset.mp zero
        exact ⟨unset before, kept⟩

/-- A walk that stays inside comes to every tag and stays inside from there on. -/
theorem TagAt.walked {free : Prop} (tag : TagAt image (info.fb.addr = 0) off free)
    (within : ∀ fuel, (tagLoop image (totalSize image) fuel 8 info).Within (totalSize image)) :
    ∃ info', (info'.fb.addr = 0 ↔ free) ∧
      ∀ fuel, (tagLoop image (totalSize image) fuel off info').Within (totalSize image) := by
  induction tag with
  | first => exact ⟨info, Iff.rfl, within⟩
  | @next off free tag continues inductionHypothesis =>
      obtain ⟨info', unset, here⟩ := inductionHypothesis
      refine ⟨(parseTag image (tagType image off) off info').value, ?_, fun fuel => ?_⟩
      · rw [parseTag_unset, unset]
      · exact ((tagLoop_within tag.offset continues.before).mp (here (fuel + 1)) continues).2

/-- At the offset whose successor wraps, the walk reads a header that ends behind the block. -/
theorem not_within_last {info' : Info} :
    ¬ (tagLoop image (totalSize image) 1 (2 ^ 32 - 8) info').Within (totalSize image) := by
  intro within
  have wraps : ¬ totalSize image < (2 ^ 32 - 8 + 8) % 2 ^ 32 := by
    rw [show (2 ^ 32 - 8 + 8) % 2 ^ 32 = 0 by decide]
    exact Nat.not_lt_zero _
  rw [tagLoop, if_neg wraps, Reading.within_bind] at within
  have total := @totalSize_lt image
  exact Reading.not_within_word (by decide) (by omega) within.1

/-- The parser keeps to the block exactly if the block is safe: it holds its own size field, no tag
ends at the offset from which the check of the next header wraps, and a framebuffer tag in direct
colours that is looked at has its fields of direct colours inside the block, as far as they are
compared. -/
theorem parseMb2Info_contained_iff (image : Memory) (info : Info) :
    Contained image info ↔ Safe image info := by
  constructor
  · rintro ⟨-, within⟩
    have walked {off : Nat} {free : Prop} (tag : TagAt image (info.fb.addr = 0) off free)
        (large : 8 ≤ totalSize image) :=
      tag.walked fun fuel => (parseMb2Info_within.mp (within fuel)).2 large
    refine ⟨(parseMb2Info_within.mp (within 0)).1, fun free tag => ?_,
      fun off free tag unset continues rgb => ?_⟩
    · obtain ⟨info', -, here⟩ := walked tag (tag.large.resolve_left (by decide))
      exact not_within_last (here 1)
    · obtain ⟨info', same, here⟩ :=
        walked tag (Nat.le_trans (Nat.le_add_left 8 off) continues.header)
      have round := ((tagLoop_within tag.offset continues.before).mp (here 1) continues).1
      exact (parseTag_within continues tag.offset.aligned).mp round (same.mpr unset) rgb
  · intro safe
    refine ⟨parseMb2Info_returns, fun fuel => parseMb2Info_within.mpr ⟨safe.header, fun _ => ?_⟩⟩
    exact safe.tagLoop_within fuel .first id

/-- The block of a framebuffer tag of 32 bytes and nothing behind it. -/
def lastTag : Memory := fun place =>
  if place = 0 then 40 else if place = 8 then 8 else if place = 12 then 32
  else if place = 36 then 32 else if place = 37 then 1 else 0

/-- The position of the red field is read behind the block. -/
theorem parseMb2Info_not_contained : ¬ ∀ image info, Contained image info := by
  intro claim
  have read : 40 ∈ (parseMb2Info lastTag 1 noInfo).places := by decide +kernel
  have size : totalSize lastTag = 40 := by decide +kernel
  have inside := (claim lastTag noInfo).2 1 40 read
  rw [size] at inside
  exact Nat.lt_irrefl 40 inside

end Block

end Opal.Bootinfo
