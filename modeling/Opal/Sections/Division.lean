import Mathlib.Algebra.Group.Nat.Defs
import Opal.Basic
import Opal.Buddy.Operations
import Opal.Library.Segments

/-!
# Division of the usable memory into sections

`init_mm_section` goes over the memory map and appends, for each usable entry, what lies at
or above the start of the sections, cut at the reserved range.  Last addresses are inclusive,
so an entry may end with the address space.
-/

namespace Opal.Buddy

def Section.stop (entry : Section) : Nat := entry.addr + entry.len

end Opal.Buddy

namespace Opal.Sections

open Buddy Library

section Operations

/-- `MAX_MMAP_ENTRIES`. -/
def maxMmapEntries : Nat := 128

/-- `MMAP_ENTRY_USABLE`. -/
def mmapEntryUsable : Nat := 1

/-- `struct mmap_entry` of the memory map, whose types are numbers of the boot protocol. -/
structure MmapEntry where
  addr : Nat
  len : Nat
  type : Nat
  deriving DecidableEq, Repr

def appendSection (sec : SectionMap) (start last : Nat) (type : SectionType) :
    Option SectionMap :=
  if sec.length ≥ maxMmapEntries then none
  else some (sec ++ [{
    addr := start
    len := ((last + (wordSize - start)) % wordSize + 1) % wordSize
    type := type }])

variable (sectionStart reservedStart reservedEnd : Nat)

/-- The body of the loop of `init_mm_section`. -/
def initMmSectionEntry (sec : SectionMap) (entry : MmapEntry) : Option SectionMap :=
  if entry.type ≠ mmapEntryUsable then some sec
  else
    let entryLast := (entry.addr + entry.len + (wordSize - 1)) % wordSize
    if entryLast < sectionStart then some sec
    else
      let entryStart := if entry.addr < sectionStart then sectionStart else entry.addr
      if reservedEnd ≤ entryStart ∨ entryLast < reservedStart then
        appendSection sec entryStart entryLast .usable
      else do
        let sec ← (
          if entryStart < reservedStart then
            appendSection sec entryStart (reservedStart - 1) .usable
          else some sec)
        let reservedLast := (reservedEnd + (wordSize - 1)) % wordSize
        let overlapStart := max entryStart reservedStart
        let overlapLast := min entryLast reservedLast
        let sec ← appendSection sec overlapStart overlapLast .reserved
        if reservedLast < entryLast then
          appendSection sec (reservedLast + 1) entryLast .usable
        else some sec

/-- `init_mm_section`; `none` stands for a panic. -/
def initMmSection (mmap : List MmapEntry) : Option SectionMap :=
  mmap.foldlM (initMmSectionEntry sectionStart reservedStart reservedEnd) []

end Operations

section Maps

def MmapEntry.stop (entry : MmapEntry) : Nat := entry.addr + entry.len

/-- The extent of the entries of the memory map. -/
def mmapExtent : Extent MmapEntry Nat := ⟨MmapEntry.addr, MmapEntry.stop⟩

/-- The extent of sections. -/
def extent : Extent Section Nat := ⟨Section.addr, Section.stop⟩

/-- The type of the section at an address. -/
def typeAt (sec : SectionMap) (a : Nat) : Option SectionType :=
  (extent.segmentAt sec a).map Section.type

end Maps

section Fit

variable {sec xs ys : SectionMap} {start last low high : Nat} {type : SectionType}

/-- The map, unless it has too many entries. -/
def fit (sec : SectionMap) : Option SectionMap :=
  if sec.length ≤ maxMmapEntries then some sec else none

/-- A step that appends to every map that fits appends to the map before it. -/
theorem fit_bind {next : SectionMap → Option SectionMap}
    (appends : ∀ sec : SectionMap, sec.length ≤ maxMmapEntries → next sec = fit (sec ++ ys)) :
    (fit xs).bind next = fit (xs ++ ys) := by
  rw [fit]
  split
  · rename_i short
    exact appends xs short
  · rename_i long
    rw [Option.bind_none, fit, if_neg]
    rw [List.length_append]
    omega

theorem appendSection_eq (ordered : start ≤ last) (bounded : last < wordSize)
    (short : last - start + 1 < wordSize) : appendSection sec start last type =
      fit (sec ++ [{ addr := start, len := last - start + 1, type := type }]) := by
  have distance : (last + (wordSize - start)) % wordSize = last - start := by
    rw [show last + (wordSize - start) = last - start + wordSize by omega, Nat.add_mod_right,
      Nat.mod_eq_of_lt (by omega)]
  rw [appendSection, fit, List.length_append, List.length_singleton, distance,
    Nat.mod_eq_of_lt short]
  by_cases full : sec.length ≥ maxMmapEntries
  · rw [if_pos full, if_neg (by omega)]
  · rw [if_neg full, if_pos (by omega)]

/-- An interval as a list of sections, none if it is empty. -/
def piece (low high : Nat) (type : SectionType) : SectionMap :=
  if low < high then [{ addr := low, len := high - low, type := type }] else []

theorem appendSection_piece (nonempty : low < high) (bounded : high ≤ wordSize)
    (short : high - low < wordSize) :
    appendSection sec low (high - 1) type = fit (sec ++ piece low high type) := by
  have length : high - 1 - low + 1 = high - low := by omega
  rw [appendSection_eq (by omega) (by omega) (length ▸ short), piece, if_pos nonempty, length]

/-- Appending a part that may be empty. -/
theorem appendPiece_eq (room : sec.length ≤ maxMmapEntries) (bounded : high ≤ wordSize)
    (short : high - low < wordSize) :
    (if low < high then appendSection sec low (high - 1) type else some sec) =
      fit (sec ++ piece low high type) := by
  split
  · rename_i nonempty
    exact appendSection_piece nonempty bounded short
  · rename_i empty
    rw [piece, if_neg empty, List.append_nil, fit, if_pos room]

end Fit

section Pieces

variable {sec : SectionMap} {sectionStart reservedStart reservedEnd low high : Nat}
  {entry : MmapEntry}

/-- An interval cut at the reserved range. -/
def cut (reservedStart reservedEnd low high : Nat) : SectionMap :=
  piece low (min high reservedStart) .usable ++
    (piece (max low reservedStart) (min high reservedEnd) .reserved ++
      piece (max low reservedEnd) high .usable)

/-- What an entry of the memory map is divided into. -/
def pieces (sectionStart reservedStart reservedEnd : Nat) (entry : MmapEntry) : SectionMap :=
  if entry.type = mmapEntryUsable then
    cut reservedStart reservedEnd (max entry.addr sectionStart) entry.stop
  else []

/-- The reserved range is empty or has a start before its end. -/
def ReservedRange (reservedStart reservedEnd : Nat) : Prop :=
  reservedStart < reservedEnd ∧ reservedEnd < wordSize ∨ reservedStart = 0 ∧ reservedEnd = 0

instance : Decidable (ReservedRange reservedStart reservedEnd) :=
  inferInstanceAs (Decidable (_ ∨ _))

theorem cut_empty (empty : high ≤ low) : cut reservedStart reservedEnd low high = [] := by
  rw [cut, piece, piece, piece, if_neg (by omega), if_neg (by omega), if_neg (by omega)]
  rfl

theorem cut_missed (range : ReservedRange reservedStart reservedEnd) (nonempty : low < high)
    (missed : reservedEnd ≤ low ∨ high ≤ reservedStart) :
    cut reservedStart reservedEnd low high = piece low high .usable := by
  unfold ReservedRange at range
  rcases missed with before | behind
  · rw [cut, piece, if_neg (by omega), piece, if_neg (by omega), max_eq_left before]
    rfl
  · rw [cut, min_eq_left behind, piece, if_pos nonempty, piece, if_neg (by omega), piece,
      if_neg (by omega)]
    rfl

/-- An entry that fits in the address space and is not empty. -/
structure Bounded (entry : MmapEntry) : Prop where
  positive : 0 < entry.len
  short : entry.len < wordSize
  stop_le : entry.stop ≤ wordSize

/-- An entry contributes its pieces. -/
theorem initMmSectionEntry_eq (range : ReservedRange reservedStart reservedEnd)
    (bounded : Bounded entry) (room : sec.length ≤ maxMmapEntries) :
    initMmSectionEntry sectionStart reservedStart reservedEnd sec entry =
      fit (sec ++ pieces sectionStart reservedStart reservedEnd entry) := by
  obtain ⟨positive, short, stop_le⟩ := bounded
  have unchanged : some sec = fit (sec ++ []) := by rw [List.append_nil, fit, if_pos room]
  have last : (entry.addr + entry.len + (wordSize - 1)) % wordSize = entry.stop - 1 := by
    unfold MmapEntry.stop at stop_le ⊢
    rw [show entry.addr + entry.len + (wordSize - 1) = entry.addr + entry.len - 1 + wordSize by
      omega, Nat.add_mod_right, Nat.mod_eq_of_lt (by omega)]
  have start : (if entry.addr < sectionStart then sectionStart else entry.addr) =
      max entry.addr sectionStart := by
    split
    · exact (max_eq_right (by omega)).symm
    · exact (max_eq_left (by omega)).symm
  unfold initMmSectionEntry pieces
  by_cases usable : entry.type = mmapEntryUsable
  · rw [if_neg (not_not.mpr usable), if_pos usable]
    simp only [last, start]
    have begins : entry.stop = entry.addr + entry.len := rfl
    by_cases below : entry.stop - 1 < sectionStart
    · rw [if_pos below, cut_empty (by omega)]
      exact unchanged
    · rw [if_neg below]
      generalize low_eq : max entry.addr sectionStart = low
      have nonempty : low < entry.stop := by omega
      have whole : entry.stop - low < wordSize := by omega
      by_cases missed : reservedEnd ≤ low ∨ entry.stop - 1 < reservedStart
      · rw [if_pos missed, cut_missed range nonempty (by omega)]
        exact appendSection_piece nonempty stop_le whole
      · rw [if_neg missed]
        have reserved : reservedStart < reservedEnd ∧ reservedEnd < wordSize := by
          unfold ReservedRange at range
          omega
        have reservedLast : (reservedEnd + (wordSize - 1)) % wordSize = reservedEnd - 1 := by
          rw [show reservedEnd + (wordSize - 1) = reservedEnd - 1 + wordSize by omega,
            Nat.add_mod_right, Nat.mod_eq_of_lt (by omega)]
        have overlapLast : min (entry.stop - 1) (reservedEnd - 1) =
            min entry.stop reservedEnd - 1 := by
          omega
        have after : reservedEnd - 1 + 1 = max low reservedEnd := by omega
        have beyond : reservedEnd - 1 < entry.stop - 1 ↔ max low reservedEnd < entry.stop := by
          omega
        simp only [reservedLast, overlapLast, after, beyond]
        rw [cut, min_eq_right (by omega : reservedStart ≤ entry.stop)]
        rw [appendPiece_eq room (by omega) (by omega), ← List.append_assoc]
        refine fit_bind fun sec room => ?_
        rw [appendSection_piece (by omega) (by omega) (by omega), ← List.append_assoc]
        exact fit_bind fun sec room => appendPiece_eq room stop_le (by omega)
  · rw [if_pos usable, if_neg usable]
    exact unchanged

end Pieces

section Exact

variable {sec xs ys : SectionMap} {sectionStart reservedStart reservedEnd low high a : Nat}
  {entry : MmapEntry} {mmap : List MmapEntry} {type : SectionType}

theorem typeAt_append : typeAt (xs ++ ys) a = (typeAt xs a).or (typeAt ys a) := by
  rw [typeAt, Extent.segmentAt_append, Option.map_or]
  rfl

theorem typeAt_piece :
    typeAt (piece low high type) a = if low ≤ a ∧ a < high then some type else none := by
  unfold piece
  by_cases nonempty : low < high
  · have stop : low + (high - low) = high := by omega
    simp only [if_pos nonempty, typeAt, Extent.segmentAt, List.find?_singleton, Extent.Has, extent,
      Section.stop, stop, decide_eq_true_eq]
    split <;> rfl
  · rw [if_neg nonempty, if_neg (by omega)]
    rfl

theorem within_piece : extent.Within low high (piece low high type) := by
  intro s member
  unfold piece at member
  split at member
  · rw [List.mem_singleton.mp member]
    exact ⟨le_refl low, (Nat.add_sub_cancel' (by omega) : low + (high - low) = high).le⟩
  · cases member

theorem apart_piece : extent.Apart (piece low high type) := by
  unfold piece
  split
  · refine ⟨List.pairwise_singleton _ _, List.forall_mem_singleton.mpr ?_⟩
    show low < low + (high - low)
    omega
  · exact Extent.apart_nil

theorem within_cut : extent.Within low high (cut reservedStart reservedEnd low high) := by
  refine List.forall_mem_append.mpr ⟨?_, List.forall_mem_append.mpr ⟨?_, ?_⟩⟩
  · exact within_piece.mono (le_refl low) (min_le_left _ _)
  · exact within_piece.mono (le_max_left _ _) (min_le_left _ _)
  · exact within_piece.mono (le_max_left _ _) (le_refl high)

theorem apart_cut (range : ReservedRange reservedStart reservedEnd) :
    extent.Apart (cut reservedStart reservedEnd low high) := by
  have ordered : reservedStart ≤ reservedEnd := by
    unfold ReservedRange at range
    omega
  rw [cut, Extent.apart_append, Extent.apart_append]
  refine ⟨apart_piece, ⟨apart_piece, apart_piece, fun s member t later => ?_⟩,
    fun s member t later => ?_⟩
  · have first := (within_piece s member).2
    have second := (within_piece t later).1
    omega
  · have first := (within_piece s member).2
    rcases List.mem_append.mp later with inSecond | inThird
    · have second := (within_piece t inSecond).1
      omega
    · have third := (within_piece t inThird).1
      omega

theorem typeAt_cut (range : ReservedRange reservedStart reservedEnd) (inside : low ≤ a ∧ a < high) :
    typeAt (cut reservedStart reservedEnd low high) a =
      some (if reservedStart ≤ a ∧ a < reservedEnd then .reserved else .usable) := by
  have ordered : reservedStart ≤ reservedEnd := by
    unfold ReservedRange at range
    omega
  simp only [cut, typeAt_append, typeAt_piece]
  by_cases early : a < reservedStart
  · have first : low ≤ a ∧ a < min high reservedStart := by omega
    have free : ¬(reservedStart ≤ a ∧ a < reservedEnd) := by omega
    rw [if_pos first, if_neg free]
    rfl
  · have notFirst : ¬(low ≤ a ∧ a < min high reservedStart) := by omega
    by_cases late : a < reservedEnd
    · have second : max low reservedStart ≤ a ∧ a < min high reservedEnd := by omega
      have reserved : reservedStart ≤ a ∧ a < reservedEnd := ⟨not_lt.mp early, late⟩
      rw [if_neg notFirst, if_pos second, if_pos reserved]
      rfl
    · have notSecond : ¬(max low reservedStart ≤ a ∧ a < min high reservedEnd) := by omega
      have third : max low reservedEnd ≤ a ∧ a < high := by omega
      rw [if_neg notFirst, if_neg notSecond, if_pos third, if_neg (by omega)]
      rfl

theorem within_pieces : extent.Within entry.addr entry.stop
    (pieces sectionStart reservedStart reservedEnd entry) := by
  unfold pieces
  split
  · exact within_cut.mono (le_max_left _ _) (le_refl _)
  · nofun

theorem apart_pieces (range : ReservedRange reservedStart reservedEnd) :
    extent.Apart (pieces sectionStart reservedStart reservedEnd entry) := by
  unfold pieces
  split
  · exact apart_cut range
  · exact Extent.apart_nil

/-- The usable memory at or above the start of the sections. -/
def UsableFrom (mmap : List MmapEntry) (sectionStart a : Nat) : Prop :=
  sectionStart ≤ a ∧ ∃ entry ∈ mmap, entry.type = mmapEntryUsable ∧ mmapExtent.Has entry a

/-- What a list of sections of the usable memory has to be. -/
structure Divides (mmap : List MmapEntry) (sectionStart reservedStart reservedEnd : Nat)
    (sec : SectionMap) : Prop where
  apart : extent.Apart sec
  covers : ∀ a, (typeAt sec a).isSome ↔ UsableFrom mmap sectionStart a
  type : ∀ a, UsableFrom mmap sectionStart a → typeAt sec a =
    some (if reservedStart ≤ a ∧ a < reservedEnd then .reserved else .usable)

theorem divides_pieces (range : ReservedRange reservedStart reservedEnd)
    (apart : mmapExtent.Apart mmap) : Divides mmap sectionStart reservedStart reservedEnd
      (mmap.flatMap (pieces sectionStart reservedStart reservedEnd)) := by
  have found (a : Nat) : typeAt (mmap.flatMap (pieces sectionStart reservedStart reservedEnd)) a =
      (mmapExtent.segmentAt mmap a).bind fun entry =>
        typeAt (pieces sectionStart reservedStart reservedEnd entry) a := by
    rw [typeAt, apart.segmentAt_flatMap fun entry _ => within_pieces, Option.map_bind]
    rfl
  have type (a : Nat) (usable : UsableFrom mmap sectionStart a) :
      typeAt (mmap.flatMap (pieces sectionStart reservedStart reservedEnd)) a =
        some (if reservedStart ≤ a ∧ a < reservedEnd then .reserved else .usable) := by
    obtain ⟨above, entry, member, usable, has⟩ := usable
    rw [found, apart.segmentAt_eq_some_iff.mpr ⟨member, has⟩, Option.bind_some, pieces,
      if_pos usable]
    exact typeAt_cut range ⟨max_le has.1 above, has.2⟩
  refine ⟨apart.flatMap (fun _ _ => apart_pieces range) fun _ _ => within_pieces,
    fun a => ⟨fun covered => ?_, fun usable => ?_⟩, type⟩
  · rw [found] at covered
    obtain ⟨type, eq⟩ := Option.isSome_iff_exists.mp covered
    obtain ⟨entry, atEntry, inPieces⟩ := Option.bind_eq_some_iff.mp eq
    obtain ⟨member, has⟩ := Extent.of_segmentAt atEntry
    unfold pieces at inPieces
    split at inPieces
    · rename_i usable
      refine ⟨?_, entry, member, usable, has⟩
      by_contra early
      have outside : ¬(max entry.addr sectionStart ≤ a ∧ a < entry.stop) :=
        fun inside => early (le_trans (le_max_right _ _) inside.1)
      rw [typeAt, within_cut.segmentAt_eq_none outside] at inPieces
      cases inPieces
    · cases inPieces
  · rw [type a usable]
    rfl

/-- The loop of `init_mm_section` appends the pieces of the entries that are left. -/
theorem foldlM_initMmSectionEntry (range : ReservedRange reservedStart reservedEnd)
    (bounded : ∀ entry ∈ mmap, Bounded entry) (room : sec.length ≤ maxMmapEntries) :
    mmap.foldlM (initMmSectionEntry sectionStart reservedStart reservedEnd) sec =
      fit (sec ++ mmap.flatMap (pieces sectionStart reservedStart reservedEnd)) := by
  induction mmap generalizing sec with
  | nil =>
      rw [List.flatMap_nil, List.append_nil, fit, if_pos room]
      rfl
  | cons entry rest inductionHypothesis =>
      obtain ⟨first, others⟩ := List.forall_mem_cons.mp bounded
      rw [List.foldlM_cons, initMmSectionEntry_eq range first room, List.flatMap_cons,
        ← List.append_assoc]
      exact fit_bind fun sec room => inductionHypothesis others room

/-- Three entries, of which the last ends with the address space. -/
def threeEntries : List MmapEntry :=
  [⟨0x1000, 0x8000, 1⟩, ⟨0xa000, 0x1000, 2⟩, ⟨2 ^ 64 - 0x3000, 0x3000, 1⟩]

end Exact

end Opal.Sections
