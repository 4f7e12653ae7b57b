import Mathlib.Algebra.Group.Nat.Defs
import Mathlib.Data.Nat.Basic

/-!
# The layout of a FAT volume

`setup_layout` chooses the layout of a new volume from the size of the device alone,
`setup_bpb` writes it into the boot parameter block, and `parse_bpb` reads a layout
back.  32-bit arithmetic is written with its wrap-around.
-/

namespace Opal.Fat

def fat12MaxClusters : Nat := 4084
def fat16MaxClusters : Nat := 65524
def fat32MaxClusters : Nat := 0x0ffffff4
def fat12RootEntries : Nat := 224
def fat16RootEntries : Nat := 512
def fatNumFats : Nat := 2
def fat32ReservedSectors : Nat := 32
def fat32RootCluster : Nat := 2
def diskSectorSize : Nat := 512
def uint16Max : Nat := 2 ^ 16 - 1
def uint32Max : Nat := 2 ^ 32 - 1

/-- The union at the end of `struct fat_layout`. -/
inductive Root where
  | fixed (rootOffset rootEntries : Nat)
  | cluster (rootCluster : Nat)
  deriving DecidableEq, Repr

structure Layout where
  bits : Nat
  bytesPerSector : Nat
  sectorsPerCluster : Nat
  reservedSectors : Nat
  numFats : Nat
  fatSectors : Nat
  totalSectors : Nat
  dataOffset : Nat
  clusterCount : Nat
  root : Root
  deriving DecidableEq, Repr

/-- The fields of `struct fat_bpb` that a mount reads. -/
structure Bpb where
  bytesPerSector : Nat
  sectorsPerCluster : Nat
  reservedSectors : Nat
  numFats : Nat
  rootEntries : Nat
  totalSectors16 : Nat
  fatSize16 : Nat
  totalSectors32 : Nat
  fatSize32 : Nat
  rootCluster : Nat
  deriving DecidableEq, Repr

section Parse

def isValidBps (bps : Nat) : Bool := bps = 512 ∨ bps = 1024 ∨ bps = 2048 ∨ bps = 4096

def ispower2 (value : Nat) : Bool := value ≠ 0 ∧ value &&& (value - 1) = 0

namespace Bpb

def totalSectors (bpb : Bpb) : Nat :=
  if bpb.totalSectors16 = 0 then bpb.totalSectors32 else bpb.totalSectors16

/-- The size of the volume in sectors of the device. -/
def totalPsec (bpb : Bpb) : Nat := bpb.totalSectors * (bpb.bytesPerSector / diskSectorSize)

def fatSectors (bpb : Bpb) : Nat :=
  if bpb.fatSize16 = 0 then bpb.fatSize32 else bpb.fatSize16

def rootDirSectors (bpb : Bpb) : Nat :=
  (bpb.rootEntries * 32 + bpb.bytesPerSector - 1) / bpb.bytesPerSector

def fatsSectors (bpb : Bpb) : Nat := bpb.numFats * bpb.fatSectors

def dataOffset (bpb : Bpb) : Nat := bpb.reservedSectors + bpb.fatsSectors + bpb.rootDirSectors

def clusterCount (bpb : Bpb) : Nat :=
  (bpb.totalSectors - bpb.dataOffset) / bpb.sectorsPerCluster

def bits (bpb : Bpb) : Nat :=
  if bpb.fatSize16 = 0 then 32 else if bpb.clusterCount ≤ fat12MaxClusters then 12 else 16

/-- The checks of `parse_bpb`, in the order of the source. -/
structure Accepted (bdevSectors : Nat) (bpb : Bpb) : Prop where
  bps : isValidBps bpb.bytesPerSector = true
  spc : ispower2 bpb.sectorsPerCluster = true
  reserved : bpb.reservedSectors ≠ 0
  fats : bpb.numFats ≠ 0
  total : bpb.totalPsec ≠ 0
  bound : bpb.totalPsec ≤ 2 ^ 32
  device : bpb.totalPsec ≤ bdevSectors
  size : bpb.fatSectors ≠ 0
  data : bpb.dataOffset < bpb.totalSectors

instance (bdevSectors : Nat) (bpb : Bpb) : Decidable (bpb.Accepted bdevSectors) :=
  decidable_of_iff (isValidBps bpb.bytesPerSector = true ∧ ispower2 bpb.sectorsPerCluster = true ∧
      bpb.reservedSectors ≠ 0 ∧ bpb.numFats ≠ 0 ∧ bpb.totalPsec ≠ 0 ∧ bpb.totalPsec ≤ 2 ^ 32 ∧
      bpb.totalPsec ≤ bdevSectors ∧ bpb.fatSectors ≠ 0 ∧ bpb.dataOffset < bpb.totalSectors)
    ⟨fun ⟨a, b, c, d, e, f, g, h, i⟩ => ⟨a, b, c, d, e, f, g, h, i⟩,
      fun ⟨a, b, c, d, e, f, g, h, i⟩ => ⟨a, b, c, d, e, f, g, h, i⟩⟩

/-- The layout that the fields describe. -/
def layout (bpb : Bpb) : Layout where
  bits := bpb.bits
  bytesPerSector := bpb.bytesPerSector
  sectorsPerCluster := bpb.sectorsPerCluster
  reservedSectors := bpb.reservedSectors
  numFats := bpb.numFats
  fatSectors := bpb.fatSectors
  totalSectors := bpb.totalSectors
  dataOffset := bpb.dataOffset
  clusterCount := bpb.clusterCount
  root :=
    if bpb.bits = 32 then .cluster bpb.rootCluster
    else .fixed ((bpb.reservedSectors + bpb.fatsSectors) % 2 ^ 32) bpb.rootEntries

end Bpb

def parseBpb (bdevSectors : Nat) (bpb : Bpb) : Option Layout :=
  if bpb.Accepted bdevSectors then some bpb.layout else none

end Parse

section Setup

/-- `none` stands for the negative result. -/
def recommendedSectorsPerCluster (totalSectors : Nat) : Option Nat :=
  if totalSectors < 0x00100000 then some 1
  else if totalSectors < 0x00200000 then some 2
  else if totalSectors < 0x00400000 then some 4
  else if totalSectors < 0x00800000 then some 8
  else if totalSectors < 0x01000000 then some 16
  else if totalSectors < 0x02000000 then some 32
  else if totalSectors ≤ uint32Max then some 64
  else none

def maxClusters (bits : Nat) : Nat :=
  if bits = 12 then fat12MaxClusters
  else if bits = 16 then fat16MaxClusters
  else fat32MaxClusters

def isValidClusters (bits clusterCount : Nat) : Bool := clusterCount ≤ maxClusters bits

def reservedSectorsFor (bits : Nat) : Nat := if bits = 32 then fat32ReservedSectors else 1

def rootEntriesFor (bits : Nat) : Nat :=
  if bits = 12 then fat12RootEntries else if bits = 16 then fat16RootEntries else 0

/-- The sectors of one FAT with an entry for every cluster. -/
def fatSectorsFor (bits clusterCount bps : Nat) : Nat :=
  let fatEntries := (clusterCount + 2) % 2 ^ 32
  let fatBytes :=
    if bits = 12 then (fatEntries * 3 + 1) % 2 ^ 32 / 2 else fatEntries * bits % 2 ^ 32 / 8
  (fatBytes + bps - 1) % 2 ^ 32 / bps

/-- The loop of `calc_fat_layout`, at most 32 rounds. -/
def calcFatLayoutLoop (bits sectors bps spc : Nat) : Nat → Nat → Option Layout
  | 0, _ => none
  | rounds + 1, candidate =>
      let reservedSectors := reservedSectorsFor bits
      let rootDirSectors := (rootEntriesFor bits * 32 + bps - 1) / bps
      let fatsTotal := fatNumFats * candidate % 2 ^ 32
      let dataOffset :=
        if bits ≠ 32 then (reservedSectors + (fatsTotal + rootDirSectors)) % 2 ^ 32
        else reservedSectors
      let required := if bits ≠ 32 then dataOffset else (dataOffset + fatsTotal) % 2 ^ 32
      if (required + spc) % 2 ^ 32 ≥ sectors then none
      else
        let clusterCount := (sectors - dataOffset) / spc
        let fatSectors := fatSectorsFor bits clusterCount bps
        if candidate = fatSectors then
          if isValidClusters bits clusterCount then
            some
              { bits := bits
                bytesPerSector := bps
                sectorsPerCluster := spc
                reservedSectors := reservedSectors
                numFats := fatNumFats
                fatSectors := fatSectors
                totalSectors := sectors
                dataOffset := dataOffset
                clusterCount := clusterCount
                root :=
                  if bits = 32 then .cluster fat32RootCluster
                  else .fixed ((reservedSectors + fatsTotal) % 2 ^ 32) (rootEntriesFor bits) }
          else none
        else calcFatLayoutLoop bits sectors bps spc rounds fatSectors

def calcFatLayout (bits sectors bps spc : Nat) : Option Layout :=
  calcFatLayoutLoop bits sectors bps spc 32 1

/-- `none` stands for `OPAL_ETOOBIG`. -/
def setupLayout (sectors : Nat) : Option Layout := do
  let spc ← recommendedSectorsPerCluster sectors
  calcFatLayout 12 sectors diskSectorSize spc <|>
    (calcFatLayout 16 sectors diskSectorSize spc <|> calcFatLayout 32 sectors diskSectorSize spc)

/-- The FAT32 fields share their bytes with the fields of FAT12 and FAT16, so that
the latter leave the drive number, boot signature and volume label in them. -/
def setupBpb (layout : Layout) : Bpb where
  bytesPerSector := layout.bytesPerSector
  sectorsPerCluster := layout.sectorsPerCluster
  reservedSectors := layout.reservedSectors
  numFats := layout.numFats
  rootEntries :=
    match layout.root with
    | .fixed _ rootEntries => rootEntries
    | .cluster _ => 0
  totalSectors16 := if layout.totalSectors ≥ uint16Max then 0 else layout.totalSectors
  fatSize16 := if layout.bits = 32 then 0 else layout.fatSectors % 2 ^ 16
  totalSectors32 := layout.totalSectors
  fatSize32 := if layout.bits = 32 then layout.fatSectors else 0x00290080
  rootCluster := if layout.bits = 32 then fat32RootCluster else 0x4c41504f

end Setup

end Opal.Fat
