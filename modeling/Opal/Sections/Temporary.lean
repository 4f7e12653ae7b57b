import Opal.Sections.Division

/-!
# The temporary allocator

`tmpalloc_alloc_pages` takes pages from the start of the first usable section that has some.
They go to the metadata section before it, if that ends there, or to a new one.
-/

namespace Opal.Sections

open Buddy Library

section Operations

structure Tmpalloc where
  mm : SectionMap
  capacity : Nat
  deriving DecidableEq, Repr

def insertEntry (ta : Tmpalloc) (index : Nat) (entry : Section) : Option Tmpalloc :=
  if ta.mm.length ≥ ta.capacity then none
  else some { ta with mm := ta.mm.insertIdx index entry }

def eraseEntry (ta : Tmpalloc) (index : Nat) : Tmpalloc :=
  { ta with mm := ta.mm.eraseIdx index }

/-- How many pages a section would give. -/
def allocatable (maxPages : Nat) (usable : Section) : Nat :=
  if usable.len / pageSize > maxPages then maxPages else usable.len / pageSize

/-- The loop of `tmpalloc_alloc_pages` does not pass the section by. -/
def serves (maxPages : Nat) (usable : Section) : Bool :=
  usable.type = .usable ∧ ¬usable.len < pageSize ∧ allocatable maxPages usable ≠ 0

/-- What `tmpalloc_alloc_pages` returns. -/
structure Allocation where
  addr : Nat
  pages : Nat
  deriving DecidableEq, Repr

/-- The pages go to the metadata entry before the section, or to a new one; the other result
is the index of the section afterwards. -/
def takeMetadata (ta : Tmpalloc) (i : Nat) (usable : Section) (allocatedLen : Nat) :
    Option (Tmpalloc × Nat) :=
  let prev := if i > 0 then ta.mm[i - 1]? else none
  match prev.filter fun prev =>
    prev.type = .metadata ∧ (prev.addr + prev.len) % wordSize = usable.addr with
  | some prev =>
      some ({ ta with
        mm := ta.mm.set (i - 1) { prev with len := (prev.len + allocatedLen) % wordSize } }, i)
  | none =>
      (insertEntry ta i { addr := usable.addr, len := allocatedLen, type := .metadata }).map
        fun ta => (ta, i + 1)

/-- `tmpalloc_alloc_pages`; `none` stands for a panic. -/
def tmpallocAllocPages (ta : Tmpalloc) (maxPages : Nat) : Option (Allocation × Tmpalloc) := do
  let i ← ta.mm.findIdx? (serves maxPages)
  let usable ← ta.mm[i]?
  let allocated := allocatable maxPages usable
  let allocatedLen := allocated * pageSize % wordSize
  let (ta, i) ← takeMetadata ta i usable allocatedLen
  let rest := { usable with
    addr := (usable.addr + allocatedLen) % wordSize
    len := (usable.len + (wordSize - allocatedLen)) % wordSize }
  let ta := { ta with mm := ta.mm.set i rest }
  some ({ addr := usable.addr, pages := allocated },
    if rest.len = 0 then eraseEntry ta i else ta)

/-- A sequence of calls, with what they return. -/
def allocAll (ta : Tmpalloc) : List Nat → Option (List Allocation × Tmpalloc)
  | [] => some ([], ta)
  | maxPages :: calls => do
      let (allocation, ta) ← tmpallocAllocPages ta maxPages
      let (others, ta) ← allocAll ta calls
      some (allocation :: others, ta)

end Operations

section Shifts

variable {before after : SectionMap} {low middle stop a : Nat}

/-- A map with metadata up to an address and usable memory from there on in the middle. -/
def parted (before after : SectionMap) (low middle stop : Nat) : SectionMap :=
  before ++ ((piece low middle .metadata ++ piece middle stop .usable) ++ after)

/-- The sections on both sides leave the middle free. -/
structure Beside (before after : SectionMap) (low stop : Nat) : Prop where
  lower : ∀ s ∈ before, extent.stop s ≤ low
  upper : ∀ s ∈ after, stop ≤ extent.start s

theorem within_parts (first : low ≤ middle) (second : middle ≤ stop) :
    extent.Within low stop (piece low middle .metadata ++ piece middle stop .usable) :=
  List.forall_mem_append.mpr
    ⟨within_piece.mono (le_refl low) second, within_piece.mono first (le_refl stop)⟩

theorem apart_parts :
    extent.Apart (piece low middle .metadata ++ piece middle stop .usable) := by
  rw [Extent.apart_append]
  refine ⟨apart_piece, apart_piece, fun s member t later => ?_⟩
  exact le_trans (within_piece s member).2 (within_piece t later).1

theorem typeAt_parted (beside : Beside before after low stop) (inside : low ≤ a ∧ a < stop) :
    typeAt (parted before after low middle stop) a =
      some (if a < middle then .metadata else .usable) := by
  have seen : typeAt (parted before after low middle stop) a =
      typeAt (piece low middle .metadata ++ piece middle stop .usable) a :=
    congrArg _ (Extent.segmentAt_middle beside.lower beside.upper inside)
  rw [seen, typeAt_append, typeAt_piece, typeAt_piece]
  by_cases early : a < middle
  · rw [if_pos ⟨inside.1, early⟩, if_pos early]
    rfl
  · have notFirst : ¬(low ≤ a ∧ a < middle) := fun both => early both.2
    rw [if_neg notFirst, if_pos ⟨not_lt.mp early, inside.2⟩, if_neg early]
    rfl

/-- The middle is free beside the sections around it if the map is in order. -/
theorem beside_of_apart (apart : extent.Apart (parted before after low middle stop))
    (first : low ≤ middle) (second : middle < stop) : Beside before after low stop := by
  have usable : (⟨middle, stop - middle, .usable⟩ : Section) ∈ piece middle stop .usable := by
    rw [piece, if_pos second]
    exact List.mem_singleton_self _
  have ends : extent.stop (⟨middle, stop - middle, .usable⟩ : Section) = stop :=
    Nat.add_sub_cancel' second.le
  rw [parted, Extent.apart_append, Extent.apart_append] at apart
  obtain ⟨-, ⟨-, -, behind⟩, ahead⟩ := apart
  refine ⟨fun s earlier => ?_, fun s later => ?_⟩
  · rcases first.eq_or_lt with rfl | nonempty
    · exact ahead s earlier _
        (List.mem_append_left _ (List.mem_append_right _ usable))
    · have metadata : (⟨low, middle - low, .metadata⟩ : Section) ∈
          piece low middle .metadata := by
        rw [piece, if_pos nonempty]
        exact List.mem_singleton_self _
      exact ahead s earlier _ (List.mem_append_left _ (List.mem_append_left _ metadata))
  · rw [← ends]
    exact behind _ (List.mem_append_right _ usable) s later

end Shifts

section Allocation

variable {ta ta' : Tmpalloc} {mm mm' : SectionMap} {addr len maxPages : Nat} {usable : Section}
  {allocation : Allocation}

/-- A section map of 64-bit addresses, with whole pages in the usable sections. -/
structure Sound (mm : SectionMap) : Prop where
  apart : extent.Apart mm
  stop_le : ∀ s ∈ mm, s.stop ≤ wordSize
  aligned : ∀ s ∈ mm, s.type = .usable → pageSize ∣ s.addr ∧ pageSize ∣ s.len

/-- Some address is in no section. -/
def Gap (mm : SectionMap) : Prop := ∃ a < wordSize, typeAt mm a = none

/-- Usable memory from an address on goes to the metadata before it. -/
def Shifts (mm : SectionMap) (addr len : Nat) (mm' : SectionMap) : Prop :=
  ∃ before after low stop, low ≤ addr ∧ addr + len ≤ stop ∧
    mm = parted before after low addr stop ∧ mm' = parted before after low (addr + len) stop

theorem allocatable_le : allocatable maxPages usable * pageSize ≤ usable.len ∧
    allocatable maxPages usable ≤ maxPages := by
  have whole := Nat.div_mul_le_self usable.len pageSize
  unfold allocatable
  split
  · rename_i more
    exact ⟨le_trans (Nat.mul_le_mul_right _ more.le) whole, le_refl _⟩
  · rename_i few
    exact ⟨whole, not_lt.mp few⟩

/-- The entry that the loop stops at, with the entries around it. -/
theorem tmpallocAllocPages_split {i : Nat} (found : mm.findIdx? (serves maxPages) = some i)
    (atIndex : mm[i]? = some usable) : usable.type = .usable ∧
      0 < allocatable maxPages usable ∧
      ∃ before after, mm = before ++ usable :: after ∧ before.length = i := by
  have stops := List.of_findIdx?_eq_some found
  simp only [atIndex, serves, decide_eq_true_eq] at stops
  obtain ⟨inside, same⟩ := List.getElem?_eq_some_iff.mp atIndex
  refine ⟨stops.1, Nat.pos_of_ne_zero stops.2.2, mm.take i, mm.drop (i + 1), ?_, ?_⟩
  · rw [← same, List.getElem_cons_drop, List.take_append_drop]
  · exact List.length_take_of_le inside.le

theorem piece_self (positive : 0 < usable.len) :
    piece usable.addr usable.stop usable.type = [usable] := by
  have length : usable.stop - usable.addr = usable.len := Nat.add_sub_cancel_left _ _
  have ordered : usable.addr < usable.stop := Nat.lt_add_of_pos_right positive
  rw [piece, if_pos ordered, length]

/-- The middle does not fill the address space if there is a gap. -/
theorem Gap.short {before after : SectionMap} {low middle stop : Nat}
    (gap : Gap (parted before after low middle stop)) (beside : Beside before after low stop)
    (bounded : stop ≤ wordSize) : stop - low < wordSize := by
  obtain ⟨a, below, free⟩ := gap
  by_contra long
  have inside : low ≤ a ∧ a < stop := by omega
  rw [typeAt_parted beside inside] at free
  cases free

/-- The last lines of `tmpalloc_alloc_pages`: the usable section shrinks or is erased. -/
theorem shrink_eq {front after : SectionMap} {x : Section} {len : Nat}
    (usable_type : usable.type = .usable) (fits : len ≤ usable.len) (positive : 0 < len)
    (bounded : usable.stop ≤ wordSize) (short : usable.len < wordSize) {rest : Section}
    (rest_eq : rest = { usable with
      addr := (usable.addr + len) % wordSize
      len := (usable.len + (wordSize - len)) % wordSize }) (capacity : Nat) :
    (if rest.len = 0 then
        eraseEntry { mm := (front ++ x :: after).set front.length rest, capacity := capacity }
          front.length
      else { mm := (front ++ x :: after).set front.length rest, capacity := capacity }) =
    { mm := front ++ (piece (usable.addr + len) usable.stop .usable ++ after)
      capacity := capacity } := by
  have placed : (front ++ x :: after).set front.length rest = front ++ rest :: after := by simp
  have stop : usable.stop = usable.addr + usable.len := rfl
  rw [placed]
  rcases fits.eq_or_lt with all | some_left
  · have empty : rest.len = 0 := by
      simp only [rest_eq]
      rw [show usable.len + (wordSize - len) = wordSize by omega, Nat.mod_self]
    rw [if_pos empty, eraseEntry, piece, if_neg (by omega),
      List.eraseIdx_append_of_length_le (le_refl _), Nat.sub_self]
    rfl
  · have length : rest.len = usable.len - len := by
      simp only [rest_eq]
      rw [show usable.len + (wordSize - len) = usable.len - len + wordSize by omega,
        Nat.add_mod_right, Nat.mod_eq_of_lt (by omega)]
    have begins : rest.addr = usable.addr + len := by
      simp only [rest_eq]
      exact Nat.mod_eq_of_lt (by omega)
    have same : rest = {
        addr := usable.addr + len
        len := usable.stop - (usable.addr + len)
        type := .usable } := by
      have remaining : usable.stop - (usable.addr + len) = usable.len - len := by omega
      rw [remaining, ← begins, ← length, ← usable_type]
      simp only [rest_eq]
    rw [if_neg (by omega), piece, if_pos (by omega), same]
    rfl

/-- A section with the metadata before it is shorter than the address space. -/
theorem Gap.usable_short {outer after : SectionMap} {low stop : Nat} (sound : Sound mm)
    (gap : Gap mm) (mm_eq : mm = parted outer after low addr stop) (low_le : low ≤ addr)
    (nonempty : addr < stop) (bounded : stop ≤ wordSize) : stop - low < wordSize := by
  subst mm_eq
  exact gap.short (beside_of_apart sound.apart low_le nonempty) bounded

/-- The metadata before the section, possibly none, is extended by the pages. -/
theorem takeMetadata_eq {before after : SectionMap} {i : Nat} (sound : Sound ta.mm)
    (gap : Gap ta.mm) (mm_eq : ta.mm = before ++ usable :: after) (type : usable.type = .usable)
    (positive : 0 < len) (fits : len ≤ usable.len)
    (taken : takeMetadata ta before.length usable len = some (ta', i)) :
    ∃ outer low, low ≤ usable.addr ∧
      ta.mm = parted outer after low usable.addr usable.stop ∧
      ta'.mm = (outer ++ piece low (usable.addr + len) .metadata) ++ usable :: after ∧
      i = (outer ++ piece low (usable.addr + len) .metadata).length := by
  have member : usable ∈ ta.mm := mm_eq ▸ List.mem_append_right _ List.mem_cons_self
  have stop_le := sound.stop_le usable member
  have nonempty : usable.addr < usable.stop := sound.apart.positive usable member
  have stop : usable.stop = usable.addr + usable.len := rfl
  have single : piece usable.addr usable.stop .usable = [usable] := by
    rw [← type, piece_self (by omega)]
  simp only [takeMetadata, mm_eq, prev_eq_getLast?] at taken
  split at taken
  · rename_i prev found
    obtain ⟨last, closes⟩ := Option.filter_eq_some_iff.mp found
    obtain ⟨isMetadata, ends⟩ := of_decide_eq_true closes
    obtain ⟨outer, rfl⟩ := List.getLast?_eq_some_iff.mp last
    have ordered : prev.stop ≤ usable.addr := by
      have split := Extent.apart_append.mp (mm_eq ▸ sound.apart)
      exact split.2.2 prev (List.mem_append_right _ (List.mem_singleton_self _)) usable
        List.mem_cons_self
    have prevNonempty : prev.addr < prev.stop :=
      sound.apart.positive prev (by rw [mm_eq]; simp)
    have prevStop : prev.stop = prev.addr + prev.len := rfl
    have touches : prev.stop = usable.addr := by
      rw [← ends, ← prevStop, Nat.mod_eq_of_lt (by omega)]
    have before_eq : piece prev.addr usable.addr .metadata = [prev] := by
      rw [← touches, ← isMetadata, piece_self (by omega)]
    have parts : ta.mm = parted outer after prev.addr usable.addr usable.stop := by
      rw [mm_eq, parted, before_eq, single]
      simp
    have short := gap.usable_short sound parts (by omega) nonempty stop_le
    have extended : piece prev.addr (usable.addr + len) .metadata =
        [{ prev with len := (prev.len + len) % wordSize }] := by
      have length : (prev.len + len) % wordSize = usable.addr + len - prev.addr := by
        rw [Nat.mod_eq_of_lt (by omega)]
        omega
      rw [piece, if_pos (by omega), length, ← isMetadata]
    cases taken
    refine ⟨outer, prev.addr, by omega, parts, ?_, ?_⟩
    · rw [extended]
      simp
    · rw [extended]
      simp
  · obtain ⟨after', inserted, same⟩ := Option.map_eq_some_iff.mp taken
    cases same
    unfold insertEntry at inserted
    split at inserted
    · cases inserted
    · cases inserted
      have fresh : piece usable.addr (usable.addr + len) .metadata =
          [{ addr := usable.addr, len := len, type := .metadata }] := by
        rw [piece, if_pos (by omega), Nat.add_sub_cancel_left]
      refine ⟨before, usable.addr, le_refl _, ?_, ?_, ?_⟩
      · rw [mm_eq, parted, single, piece, if_neg (lt_irrefl _)]
        rfl
      · rw [fresh, mm_eq, insertIdx_length]
        simp
      · rw [fresh, List.length_append, List.length_singleton]

theorem tmpallocAllocPages_pages (call : tmpallocAllocPages ta maxPages = some (allocation, ta')) :
    0 < allocation.pages ∧ allocation.pages ≤ maxPages := by
  obtain ⟨i, found, call₁⟩ := Option.bind_eq_some_iff.mp call
  obtain ⟨usable, atIndex, call₂⟩ := Option.bind_eq_some_iff.mp call₁
  obtain ⟨⟨ta₁, j⟩, taken, returned⟩ := Option.bind_eq_some_iff.mp call₂
  clear call call₁ call₂
  cases Option.some.inj returned
  exact ⟨(tmpallocAllocPages_split found atIndex).2.1, allocatable_le.2⟩

theorem tmpallocAllocPages_shifts (sound : Sound ta.mm) (gap : Gap ta.mm)
    (call : tmpallocAllocPages ta maxPages = some (allocation, ta')) :
    Shifts ta.mm allocation.addr (allocation.pages * pageSize) ta'.mm := by
  obtain ⟨i, found, call₁⟩ := Option.bind_eq_some_iff.mp call
  obtain ⟨usable, atIndex, call₂⟩ := Option.bind_eq_some_iff.mp call₁
  obtain ⟨⟨ta₁, j⟩, taken, returned⟩ := Option.bind_eq_some_iff.mp call₂
  clear call call₁ call₂
  obtain ⟨type, positive, before, after, mm_eq, rfl⟩ := tmpallocAllocPages_split found atIndex
  obtain ⟨fits, few⟩ := @allocatable_le maxPages usable
  have member : usable ∈ ta.mm := mm_eq ▸ List.mem_append_right _ List.mem_cons_self
  have stop_le := sound.stop_le usable member
  have nonempty : usable.addr < usable.stop := sound.apart.positive usable member
  have stop : usable.stop = usable.addr + usable.len := rfl
  have short : usable.len < wordSize := by
    have alone : ta.mm = parted before after usable.addr usable.addr usable.stop := by
      have single := @piece_self usable (by omega)
      rw [type] at single
      rw [mm_eq, parted, single, piece, if_neg (lt_irrefl _)]
      rfl
    have bound := gap.usable_short sound alone (le_refl _) nonempty stop_le
    omega
  have positiveLen : 0 < allocatable maxPages usable * pageSize :=
    Nat.mul_pos positive (by decide)
  have whole : allocatable maxPages usable * pageSize % wordSize =
      allocatable maxPages usable * pageSize := Nat.mod_eq_of_lt (by omega)
  simp only [whole] at taken returned
  obtain ⟨outer, low, low_le, parts, placed, rfl⟩ :=
    takeMetadata_eq sound gap mm_eq type positiveLen fits taken
  cases Option.some.inj returned
  have room : usable.addr + allocatable maxPages usable * pageSize ≤ usable.stop := by omega
  refine ⟨outer, after, low, usable.stop, low_le, room, parts, ?_⟩
  obtain ⟨mm₁, capacity⟩ := ta₁
  obtain rfl : mm₁ = _ := placed
  refine (congrArg Tmpalloc.mm
    (shrink_eq type fits positiveLen stop_le short rfl capacity)).trans ?_
  rw [parted, List.append_assoc, List.append_assoc]

end Allocation

section Steps

variable {mm mm' mm'' : SectionMap} {low high addr len a : Nat} {type : SectionType} {s : Section}

theorem mem_piece : s ∈ piece low high type ↔
    low < high ∧ s = { addr := low, len := high - low, type := type } := by
  unfold piece
  split
  · rename_i nonempty
    rw [List.mem_singleton]
    exact ⟨fun same => ⟨nonempty, same⟩, And.right⟩
  · rename_i empty
    exact ⟨nofun, fun both => absurd both.1 empty⟩

/-- What allocations do to a section map. -/
structure Keeps (mm mm' : SectionMap) : Prop where
  covers : ∀ a, (typeAt mm' a).isSome ↔ (typeAt mm a).isSome
  reserved : mm'.filter (·.type = .reserved) = mm.filter (·.type = .reserved)
  usable : ∀ a, typeAt mm' a = some .usable → typeAt mm a = some .usable
  metadata : ∀ a, typeAt mm a = some .metadata → typeAt mm' a = some .metadata

theorem Keeps.refl : Keeps mm mm := ⟨fun _ => Iff.rfl, rfl, fun _ => id, fun _ => id⟩

theorem Keeps.trans (first : Keeps mm mm') (second : Keeps mm' mm'') : Keeps mm mm'' where
  covers a := (second.covers a).trans (first.covers a)
  reserved := second.reserved.trans first.reserved
  usable a found := first.usable a (second.usable a found)
  metadata a found := second.metadata a (first.metadata a found)

theorem Keeps.gap (keeps : Keeps mm mm') (gap : Gap mm) : Gap mm' := by
  obtain ⟨a, below, free⟩ := gap
  refine ⟨a, below, Option.not_isSome_iff_eq_none.mp fun covered => ?_⟩
  rw [keeps.covers, free] at covered
  cases covered

/-- The pages of a step were usable, and are metadata; all other addresses stay. -/
theorem Shifts.typeAt_eq (sound : Sound mm) (shifts : Shifts mm addr len mm') (positive : 0 < len) :
    (∀ a, addr ≤ a ∧ a < addr + len → typeAt mm a = some .usable) ∧
      ∀ a, typeAt mm' a = if addr ≤ a ∧ a < addr + len then some .metadata else typeAt mm a := by
  obtain ⟨before, after, low, stop, low_le, room, rfl, rfl⟩ := shifts
  have beside := beside_of_apart sound.apart low_le (by omega)
  refine ⟨fun a inside => ?_, fun a => ?_⟩
  · rw [typeAt_parted beside (by omega), if_neg (by omega)]
  · by_cases middle : low ≤ a ∧ a < stop
    · rw [typeAt_parted beside middle, typeAt_parted beside middle]
      by_cases early : a < addr
      · rw [if_pos (by omega), if_neg (by omega), if_pos early]
      · by_cases late : a < addr + len
        · rw [if_pos late, if_pos ⟨not_lt.mp early, late⟩]
        · rw [if_neg late, if_neg (by omega), if_neg early]
    · rw [if_neg (by omega)]
      exact congrArg _ (Extent.segmentAt_replace (within_parts low_le (by omega))
        (within_parts (by omega) room) middle)

theorem Shifts.keeps (sound : Sound mm) (shifts : Shifts mm addr len mm') (positive : 0 < len) :
    Keeps mm mm' := by
  obtain ⟨wasUsable, becomes⟩ := shifts.typeAt_eq sound positive
  refine ⟨fun a => ?_, ?_, fun a found => ?_, fun a found => ?_⟩
  · rw [becomes]
    split
    · rename_i inside
      rw [wasUsable a inside]
      exact Iff.rfl
    · exact Iff.rfl
  · obtain ⟨before, after, low, stop, -, -, rfl, rfl⟩ := shifts
    have none_left (middle : Nat) : (piece low middle .metadata ++
        piece middle stop .usable).filter (·.type = .reserved) = [] := by
      refine List.filter_eq_nil_iff.mpr fun s member => ?_
      rcases List.mem_append.mp member with first | second
      · rw [(mem_piece.mp first).2]
        nofun
      · rw [(mem_piece.mp second).2]
        nofun
    simp only [parted, List.filter_append] at none_left ⊢
    rw [none_left, none_left]
  · rw [becomes] at found
    split at found
    · cases found
    · exact found
  · rw [becomes]
    split
    · rfl
    · exact found

theorem Shifts.sound (sound : Sound mm) (shifts : Shifts mm addr len mm') (positive : 0 < len)
    (aligned : pageSize ∣ len) : Sound mm' := by
  obtain ⟨before, after, low, stop, low_le, room, rfl, rfl⟩ := shifts
  have beside := beside_of_apart sound.apart low_le (by omega)
  have usable : (⟨addr, stop - addr, .usable⟩ : Section) ∈ parted before after low addr stop := by
    refine List.mem_append_right _ (List.mem_append_left _ (List.mem_append_right _ ?_))
    exact mem_piece.mpr ⟨by omega, rfl⟩
  have bounded : addr + (stop - addr) ≤ wordSize := sound.stop_le _ usable
  obtain ⟨alignedAddr, alignedLen⟩ := sound.aligned _ usable rfl
  have others (s : Section) (member : s ∈ parted before after low (addr + len) stop) :
      s ∈ parted before after low addr stop ∨ s = ⟨low, addr + len - low, .metadata⟩ ∨
        addr + len < stop ∧ s = ⟨addr + len, stop - (addr + len), .usable⟩ := by
    simp only [parted, List.mem_append] at member ⊢
    rcases member with earlier | (first | second) | later
    · exact .inl (.inl earlier)
    · exact .inr (.inl (mem_piece.mp first).2)
    · exact .inr (.inr (mem_piece.mp second))
    · exact .inl (.inr (.inr later))
  refine ⟨sound.apart.replace apart_parts (within_parts (by omega) room) beside.lower beside.upper,
    fun s member => ?_, fun s member type => ?_⟩
  · rcases others s member with old | rfl | ⟨some_left, rfl⟩
    · exact sound.stop_le s old
    · show low + (addr + len - low) ≤ wordSize
      omega
    · show addr + len + (stop - (addr + len)) ≤ wordSize
      omega
  · rcases others s member with old | rfl | ⟨some_left, rfl⟩
    · exact sound.aligned s old type
    · cases type
    · refine ⟨Nat.dvd_add alignedAddr aligned, ?_⟩
      show pageSize ∣ stop - (addr + len)
      rw [Nat.sub_add_eq]
      exact Nat.dvd_sub alignedLen aligned

end Steps

section Runs

variable {ta ta' : Tmpalloc} {maxPages : Nat} {calls : List Nat} {allocation other : Allocation}
  {returned : List Allocation} {a : Nat}

namespace Allocation

def Has (allocation : Allocation) (a : Nat) : Prop :=
  allocation.addr ≤ a ∧ a < allocation.addr + allocation.pages * pageSize

end Allocation

/-- One call of `tmpalloc_alloc_pages` on a map that leaves a gap. -/
theorem tmpallocAllocPages_spec (sound : Sound ta.mm) (gap : Gap ta.mm)
    (call : tmpallocAllocPages ta maxPages = some (allocation, ta')) :
    Sound ta'.mm ∧ Keeps ta.mm ta'.mm ∧ ∀ a, allocation.Has a →
      typeAt ta.mm a = some .usable ∧ typeAt ta'.mm a = some .metadata := by
  have shifts := tmpallocAllocPages_shifts sound gap call
  have positive := (tmpallocAllocPages_pages call).1
  have positiveLen : 0 < allocation.pages * pageSize := Nat.mul_pos positive (by decide)
  obtain ⟨wasUsable, becomes⟩ := shifts.typeAt_eq sound positiveLen
  refine ⟨shifts.sound sound positiveLen (Nat.dvd_mul_left _ _), shifts.keeps sound positiveLen,
    fun a has => ⟨wasUsable a has, ?_⟩⟩
  exact (becomes a).trans (if_pos has)

/-- What holds after every sequence of calls. -/
structure Tracks (mm mm' : SectionMap) (returned : List Allocation) : Prop where
  sound : Sound mm'
  keeps : Keeps mm mm'
  gives : ∀ r ∈ returned, ∀ a, r.Has a →
    typeAt mm a = some .usable ∧ typeAt mm' a = some .metadata
  disjoint : returned.Pairwise fun r s => ∀ a, ¬(r.Has a ∧ s.Has a)

theorem allocAll_tracks (sound : Sound ta.mm) (gap : Gap ta.mm)
    (run : allocAll ta calls = some (returned, ta')) : Tracks ta.mm ta'.mm returned := by
  induction calls generalizing ta returned with
  | nil =>
      cases run
      exact ⟨sound, .refl, List.forall_mem_nil _, List.Pairwise.nil⟩
  | cons maxPages rest inductionHypothesis =>
      obtain ⟨⟨allocation, ta₁⟩, call, continued⟩ := Option.bind_eq_some_iff.mp run
      obtain ⟨⟨others, ta₂⟩, later, finished⟩ := Option.bind_eq_some_iff.mp continued
      clear run continued
      cases finished
      obtain ⟨sound₁, keeps, gives⟩ := tmpallocAllocPages_spec sound gap call
      obtain ⟨sound₂, keeps₂, gives₂, disjoint⟩ :=
        inductionHypothesis sound₁ (keeps.gap gap) later
      refine ⟨sound₂, keeps.trans keeps₂, List.forall_mem_cons.mpr ⟨fun a has => ?_, ?_⟩,
        List.pairwise_cons.mpr ⟨fun r member a both => ?_, disjoint⟩⟩
      · obtain ⟨before, after⟩ := gives a has
        exact ⟨before, keeps₂.metadata a after⟩
      · intro r member a has
        obtain ⟨before, after⟩ := gives₂ r member a has
        exact ⟨keeps.usable a before, after⟩
      · have first := (gives a both.1).2
        have second := (gives₂ r member a both.2).1
        rw [first] at second
        cases second

/-- Sequences of allocations keep the section map, if it leaves a gap. -/
theorem allocAll_sound (sound : Sound ta.mm) (gap : Gap ta.mm)
    (run : allocAll ta calls = some (returned, ta')) :
    extent.Apart ta'.mm ∧ (∀ a, (typeAt ta'.mm a).isSome ↔ (typeAt ta.mm a).isSome) ∧
      ta'.mm.filter (·.type = .reserved) = ta.mm.filter (·.type = .reserved) ∧
      ∀ maxPages allocation ta'',
        tmpallocAllocPages ta' maxPages = some (allocation, ta'') →
          ∀ a, allocation.Has a → typeAt ta'.mm a = some .usable ∧
            typeAt ta''.mm a = some .metadata ∧ ∀ r ∈ returned, ¬r.Has a := by
  have tracks := allocAll_tracks sound gap run
  refine ⟨tracks.sound.apart, tracks.keeps.covers, tracks.keeps.reserved, ?_⟩
  intro maxPages allocation ta'' call a has
  obtain ⟨-, -, gives⟩ := tmpallocAllocPages_spec tracks.sound (tracks.keeps.gap gap) call
  obtain ⟨before, after⟩ := gives a has
  refine ⟨before, after, fun r member earlier => ?_⟩
  have taken := (tracks.gives r member a earlier).2
  rw [before] at taken
  cases taken

/-- One usable section of four pages. -/
def oneSection : Tmpalloc := { mm := [⟨0x1000, 0x4000, .usable⟩], capacity := 8 }

theorem allocAll_sound_oneSection : ∃ returned ta',
    allocAll oneSection [1, 1] = some (returned, ta') ∧ extent.Apart ta'.mm ∧
      (∀ a, (typeAt ta'.mm a).isSome ↔ (typeAt oneSection.mm a).isSome) ∧
      ta'.mm.filter (·.type = .reserved) = oneSection.mm.filter (·.type = .reserved) ∧
      ∃ allocation ta'', tmpallocAllocPages ta' 5 = some (allocation, ta'') ∧
        ∀ a, allocation.Has a → typeAt ta'.mm a = some .usable ∧
          typeAt ta''.mm a = some .metadata ∧ ∀ r ∈ returned, ¬r.Has a := by
  have sound : Sound oneSection.mm := ⟨⟨by decide, by decide⟩, by decide, by decide⟩
  have gap : Gap oneSection.mm := ⟨0, by decide, rfl⟩
  have run : allocAll oneSection [1, 1] = some ([⟨0x1000, 1⟩, ⟨0x2000, 1⟩],
      ⟨[⟨0x1000, 0x2000, .metadata⟩, ⟨0x3000, 0x2000, .usable⟩], 8⟩) := by
    decide +kernel
  have next : (tmpallocAllocPages ⟨[⟨0x1000, 0x2000, .metadata⟩, ⟨0x3000, 0x2000, .usable⟩], 8⟩
      5).isSome := by decide +kernel
  obtain ⟨⟨allocation, ta''⟩, call⟩ := Option.isSome_iff_exists.mp next
  obtain ⟨apart, covers, reserved, gives⟩ := allocAll_sound sound gap run
  exact ⟨_, _, run, apart, covers, reserved, allocation, ta'', call, gives 5 allocation ta'' call⟩

/-- Two usable sections that fill the address space. -/
def wholeSpace : Tmpalloc :=
  { mm := [⟨0, 2 ^ 63, .usable⟩, ⟨2 ^ 63, 2 ^ 63, .usable⟩], capacity := 8 }

/-- The length of the metadata wraps around when the last page is taken. -/
theorem allocAll_wraps : Sound wholeSpace.mm ∧ ∃ returned ta',
    allocAll wholeSpace [2 ^ 51, 2 ^ 51] = some (returned, ta') ∧ ¬extent.Apart ta'.mm ∧
      ¬∀ a, (typeAt ta'.mm a).isSome ↔ (typeAt wholeSpace.mm a).isSome := by
  have run : allocAll wholeSpace [2 ^ 51, 2 ^ 51] =
      some ([⟨0, 2 ^ 51⟩, ⟨2 ^ 63, 2 ^ 51⟩], ⟨[⟨0, 0, .metadata⟩], 8⟩) := by
    decide +kernel
  refine ⟨⟨⟨by decide, by decide⟩, by decide, by decide⟩, _, _, run, fun apart => ?_,
    fun same => ?_⟩
  · exact absurd (apart.positive _ (List.mem_singleton_self _)) (lt_irrefl 0)
  · exact absurd ((same 0).mpr rfl) (by decide)

end Runs

end Opal.Sections
