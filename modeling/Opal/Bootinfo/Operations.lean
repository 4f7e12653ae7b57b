import Opal.Library.Reading

/-!
# Boot information of a multiboot2 loader

The loader leaves a block of tags in memory.  `parse_mb2_info` walks from tag to tag and hands
those it knows to their parsers.  Places are offsets from the start of the block: it lies at a
32-bit address, and pointers into it do not wrap.
-/

namespace Opal.Bootinfo

section Data

/-- `MAX_MODULE_ENTRIES`. -/
def maxModuleEntries : Nat := 128

/-- `MAX_MMAP_ENTRIES`. -/
def maxMmapEntries : Nat := 128

/-- `MAX_BOOT_CMDLINE`. -/
def maxBootCmdline : Nat := 1024

/-- `MAX_BOOT_MODULE_NAME`. -/
def maxBootModuleName : Nat := 64

/-- `struct bootinfo_module`. -/
structure BootModule where
  start : Nat
  stop : Nat
  name : List UInt8
  deriving DecidableEq, Repr

/-- `struct mmap_entry`. -/
structure MmapEntry where
  addr : Nat
  len : Nat
  type : Nat
  deriving DecidableEq, Repr

/-- `struct bootinfo_fb`. -/
structure BootFb where
  addr : Nat
  pitch : Nat
  width : Nat
  height : Nat
  bpp : Nat
  deriving DecidableEq, Repr

/-- What is known from the tags; a string is its bytes before the terminator. -/
structure Info where
  cmdline : List UInt8
  modules : List BootModule
  mmap : List MmapEntry
  fb : BootFb
  deriving DecidableEq, Repr

/-- The values the variables start with. -/
def noInfo : Info where
  cmdline := []
  modules := []
  mmap := []
  fb := { addr := 0, pitch := 0, width := 0, height := 0, bpp := 0 }

def tagTypeEnd : Nat := 0

def tagTypeCmdline : Nat := 1

def tagTypeModule : Nat := 3

def tagTypeMmap : Nat := 6

def tagTypeFramebuffer : Nat := 8

/-- `MULTIBOOT_TAG_ALIGN`. -/
def tagAlign : Nat := 8

/-- `MULTIBOOT_FRAMEBUFFER_TYPE_RGB`. -/
def framebufferTypeRgb : UInt8 := 1

/-- `align_ceil_u32_p2`. -/
def alignCeilU32P2 (x align : Nat) : Nat :=
  let mask := align - 1
  (x + mask) % 2 ^ 32 &&& (2 ^ 32 - 1 - mask)

end Data

section Parsers

variable (image : Memory)

/-- The copying loop of `strsncpy`. -/
def strsncpyLoop : Nat → Nat → Reading (List UInt8)
  | _, 0 => pure []
  | src, n + 1 => do
      let char ← Reading.byte image src
      if char = 0 then pure [] else do
        let rest ← strsncpyLoop (src + 1) n
        pure (char :: rest)

/-- `strsncpy`; the value is the string in the destination afterwards. -/
def strsncpy (dest : List UInt8) (destsz src n : Nat) : Reading (List UInt8) :=
  if destsz = 0 then pure dest
  else strsncpyLoop image src (if n > destsz - 1 then destsz - 1 else n)

def parseMb2Cmdline (strtag : Nat) (info : Info) : Reading Info :=
  if info.cmdline ≠ [] then pure info
  else do
    let size ← Reading.word image (strtag + 4) 4
    let cmdline ← strsncpy image info.cmdline maxBootCmdline (strtag + 8) (size - 8)
    pure { info with cmdline := cmdline }

def parseMb2Module (module : Nat) (info : Info) : Reading Info :=
  if maxModuleEntries ≤ info.modules.length then pure info
  else do
    let modStart ← Reading.word image (module + 8) 4
    let modEnd ← Reading.word image (module + 12) 4
    let size ← Reading.word image (module + 4) 4
    let name ← strsncpy image [] maxBootModuleName (module + 16) (size - 16)
    pure { info with
      modules := info.modules ++ [{ start := modStart, stop := modEnd, name := name }] }

/-- The loop of `parse_mb2_mmap`, with the number of entries there is room for. -/
def mmapLoop (mmap entryEnd : Nat) : Nat → Nat → List MmapEntry → Reading (List MmapEntry)
  | 0, _, entries => do
      let _ ← Reading.word image (mmap + 8) 4
      pure entries
  | room + 1, entryPtr, entries => do
      let entrySize ← Reading.word image (mmap + 8) 4
      if entryPtr + entrySize ≤ entryEnd then do
        let addr ← Reading.word image entryPtr 8
        let len ← Reading.word image (entryPtr + 8) 8
        let type ← Reading.word image (entryPtr + 16) 4
        let entrySize ← Reading.word image (mmap + 8) 4
        mmapLoop mmap entryEnd room (entryPtr + entrySize)
          (entries ++ [{ addr := addr, len := len, type := type }])
      else pure entries

def parseMb2Mmap (mmap : Nat) (info : Info) : Reading Info :=
  if info.mmap ≠ [] then pure info
  else do
    let size ← Reading.word image (mmap + 4) 4
    let entrySize ← Reading.word image (mmap + 8) 4
    if entrySize < 24 then pure info
    else do
      let entries ← mmapLoop image mmap (mmap + size) maxMmapEntries (mmap + 16) []
      pure { info with mmap := entries }

/-- The fields that `is_supported_rgb` checks, in its order, with the values it asks for: the depth
of `mb_tag_framebuffer`, then position and size of the red, green and blue field, which only
`mb_tag_framebuffer_direct` has. -/
def rgbFields (fb : Nat) : List (Nat × UInt8) :=
  [(fb + 28, 32), (fb + 32, 16), (fb + 33, 8), (fb + 34, 8), (fb + 35, 8), (fb + 36, 0),
    (fb + 37, 8)]

def isSupportedRgb (fb : Nat) : Reading Bool := Reading.bytesAre image (rgbFields fb)

def parseMb2Fb (fb : Nat) (info : Info) : Reading Info :=
  if info.fb.addr ≠ 0 then pure info
  else do
    let type ← Reading.byte image (fb + 29)
    if type ≠ framebufferTypeRgb then pure info
    else do
      let supported ← isSupportedRgb image fb
      if supported = false then pure info
      else do
        let addr ← Reading.word image (fb + 8) 8
        let pitch ← Reading.word image (fb + 16) 4
        let width ← Reading.word image (fb + 20) 4
        let height ← Reading.word image (fb + 24) 4
        let bpp ← Reading.byte image (fb + 28)
        pure { info with fb := {
          addr := addr, pitch := pitch, width := width, height := height, bpp := bpp.toNat } }

/-- `CASE_TYPE`. -/
def caseType (sizeofType : Nat) (func : Nat → Info → Reading Info) (tag : Nat) (info : Info) :
    Reading Info := do
  let size ← Reading.word image (tag + 4) 4
  if size < sizeofType then pure info else func tag info

/-- The `switch` of `parse_mb2_info`. -/
def parseTag (type tag : Nat) (info : Info) : Reading Info :=
  if type = tagTypeCmdline then caseType image 8 (parseMb2Cmdline image) tag info
  else if type = tagTypeModule then caseType image 16 (parseMb2Module image) tag info
  else if type = tagTypeMmap then caseType image 16 (parseMb2Mmap image) tag info
  else if type = tagTypeFramebuffer then caseType image 32 (parseMb2Fb image) tag info
  else pure info

/-- The loop of `parse_mb2_info`; `none` when the fuel does not last. -/
def tagLoop (totalSize : Nat) : Nat → Nat → Info → Reading (Option Info)
  | 0, _, _ => pure none
  | fuel + 1, off, info =>
      if totalSize < (off + 8) % 2 ^ 32 then pure (some info)
      else do
        let size ← Reading.word image (off + 4) 4
        if size < 8 then pure (some info)
        else do
          let type ← Reading.word image off 4
          if type = tagTypeEnd then pure (some info)
          else do
            let size ← Reading.word image (off + 4) 4
            let nextOff := alignCeilU32P2 ((off + size) % 2 ^ 32) tagAlign
            if nextOff ≤ off ∨ totalSize < nextOff then pure (some info)
            else do
              let type ← Reading.word image off 4
              let info ← parseTag image type off info
              tagLoop totalSize fuel nextOff info

def parseMb2Info (fuel : Nat) (info : Info) : Reading (Option Info) := do
  let totalSize ← Reading.word image 0 4
  if totalSize < 8 then pure (some info) else tagLoop image totalSize fuel 8 info

end Parsers

end Opal.Bootinfo
