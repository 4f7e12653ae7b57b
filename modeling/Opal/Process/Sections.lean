import Opal.Process.Frames

/-!
# Filling a section

`map_section` allocates blocks of falling size.  The variables of its loop are determined by the
number of pages that are mapped: these are the first pages of the section, their frames were
free, and they hold the file bytes followed by zeros.
-/

namespace Opal.Process

open Opal.PageTable

section Spaces

variable {space : Space} {page count more frame : Nat} {frames : Nat → Nat}

/-- A block behind the pages that are there already. -/
theorem Space.put_block :
    (space.put page count frames).put (page + count) more (frame + ·) =
      space.put page (count + more) (withBlock frames count frame) := by
  funext p
  unfold Space.put withBlock
  by_cases old : page ≤ p ∧ p < page + count
  · rw [if_neg (by omega), if_pos old, if_pos (by omega), if_pos (by omega)]
  · by_cases new : page + count ≤ p ∧ p < page + count + more
    · rw [if_pos new, if_pos (by omega), if_neg (by omega)]
      refine congrArg some ?_
      dsimp only
      omega
    · rw [if_neg new, if_neg old, if_neg (by omega)]

end Spaces

section Filled

/-- The first `count` pages behind an address are in the given frames and hold the given bytes. -/
structure Filled (space : Space) (page : Nat) (byte : Nat → UInt8) (host : Host) (count : Nat)
    (frames : Nat → Nat) (ptbl : Pagetable) (after : Host) : Prop where
  wf : ptbl.Wf
  maps : Maps ptbl (space.put page count frames)
  takes : Takes host count frames after
  content : ∀ i < count, ∀ r < pageSize,
    after.bytes (frames i * pageSize + r) = byte (i * pageSize + r)

/-- A loop has given up after `count` of its pages, some of which may have got lost. -/
structure Stopped (space : Space) (page pages : Nat) (host : Host) (count : Nat)
    (frames : Nat → Nat) (ptbl : Pagetable) (current : Nat) (after : Host) : Prop where
  wf : ptbl.Wf
  maps : ∃ less : Space, less.Sub (space.put page count frames) ∧ Maps ptbl less
  takes : Takes host count frames after
  le : count ≤ pages
  current : current = (page + count) * pageSize

variable {space : Space} {page count : Nat} {byte : Nat → UInt8} {frames : Nat → Nat}
  {host mid after : Host} {ptbl : Pagetable}

theorem Filled.start (wf : ptbl.Wf) (maps : Maps ptbl space) :
    Filled space page byte host 0 (fun _ => 0) ptbl host where
  wf := wf
  maps := by
    rw [Space.put_zero]
    exact maps
  takes := .refl
  content := fun _ absent => absurd absent (Nat.not_lt_zero _)

theorem Filled.congr (filled : Filled space page byte host count frames ptbl mid)
    (pool : after.pool = mid.pool) (bytes : after.bytes = mid.bytes)
    (areas : after.areas = mid.areas) : Filled space page byte host count frames ptbl after where
  wf := filled.wf
  maps := filled.maps
  takes := filled.takes.congr pool (fun _ _ _ _ => by rw [bytes]) areas
  content := by
    rw [bytes]
    exact filled.content

/-- One more block is mapped and written. -/
theorem Filled.block (filled : Filled space page byte host count frames ptbl mid)
    {frame order : Nat} (offers : mid.Offers frame order) {next : Pagetable} (wf : next.Wf)
    (maps : Maps next ((space.put page count frames).put (page + count) (2 ^ order) (frame + ·)))
    (pool : after.pool = mid.pool \ Process.block frame order) (areas : after.areas = mid.areas)
    (outside : ∀ f, f < frame ∨ frame + 2 ^ order ≤ f → ∀ r < pageSize,
      after.bytes (f * pageSize + r) = mid.bytes (f * pageSize + r))
    (inside : ∀ j < 2 ^ order, ∀ r < pageSize,
      after.bytes ((frame + j) * pageSize + r) = byte ((count + j) * pageSize + r)) :
    Filled space page byte host (count + 2 ^ order) (withBlock frames count frame) next after where
  wf := wf
  maps := Space.put_block ▸ maps
  takes := filled.takes.block offers pool outside areas
  content := by
    intro i lower r small
    by_cases old : i < count
    · -- an old frame is not in the block, which was still free
      have apart : frames i < frame ∨ frame + 2 ^ order ≤ frames i := by
        by_contra within
        have mem := offers.2.2 (mem_block.mpr ⟨by omega, by omega⟩ : frames i ∈ _)
        exact ((filled.takes.pool _).mp mem).2 i old rfl
      rw [withBlock_old old, outside _ apart r small]
      exact filled.content i old r small
    · obtain ⟨j, rfl⟩ : ∃ j, i = count + j := ⟨i - count, by omega⟩
      rw [withBlock_new]
      exact inside j (by omega) r small

end Filled

section Loop

/-- What the loop works on: a section of a file, the address space and the memory before it. -/
structure Job where
  file : Memory
  data : Nat
  filesz : Nat
  page : Nat
  memsz : Nat
  space : Space
  host : Host

/-- The byte at an offset of a section: one of the file, or zero behind these. -/
def sectionByte (file : Memory) (data filesz offset : Nat) : UInt8 :=
  if offset < filesz then file (data + offset) else 0

def Job.byte (job : Job) : Nat → UInt8 := sectionByte job.file job.data job.filesz

/-- The pages of the section. -/
def Job.pages (job : Job) : Nat := pageCount job.memsz

/-- The variables of the loop when `count` pages are filled. -/
structure Filling (job : Job) (count : Nat) (frames : Nat → Nat) (s : Section) : Prop
    extends Filled job.space job.page job.byte job.host count frames s.ptbl s.host where
  le : count ≤ job.pages
  current : s.current = (job.page + count) * pageSize
  memsz : s.memsz = job.memsz - count * pageSize
  filesz : s.filesz = job.filesz - count * pageSize
  bytes : s.bytes = job.data + min job.filesz (count * pageSize)

variable {job : Job} {count : Nat} {frames : Nat → Nat} {s : Section}

theorem shiftLeft_pageSize (order : Nat) : pageSize <<< order = 2 ^ order * pageSize := by
  rw [Nat.shiftLeft_eq, Nat.mul_comm]

/-- The pages of a length, as bounds for a number of pages. -/
theorem le_pageCount {len n : Nat} (fits : n * pageSize ≤ len) : n ≤ pageCount len := by
  unfold pageCount
  rw [pageSize_eq] at *
  omega

theorem lt_pageCount {len n : Nat} (before : n * pageSize < len) : n < pageCount len := by
  unfold pageCount
  rw [pageSize_eq] at *
  omega

/-- The block of a round belongs to the section. -/
theorem Filling.fits (filling : Filling job count frames s) (rest : s.memsz ≠ 0)
    (size : ¬ (s.order > 0 ∧ pageSize <<< s.order > s.memsz)) :
    count + 2 ^ s.order ≤ job.pages := by
  have left := filling.memsz
  rw [shiftLeft_pageSize] at size
  rcases Nat.eq_zero_or_pos s.order with zero | positive
  · have before : count * pageSize < job.memsz := by omega
    have := lt_pageCount before
    rw [zero]
    exact this
  · have fits : 2 ^ s.order * pageSize ≤ s.memsz :=
      Nat.not_lt.mp fun larger => size ⟨positive, larger⟩
    refine le_pageCount ?_
    rw [Nat.add_mul]
    omega

/-- A round that maps its block has filled that many pages more. -/
theorem Filling.block (filling : Filling job count frames s) {frame : Nat}
    {mid : Host} {ptbl : Pagetable} (tables : AllocOracle) (rest : s.memsz ≠ 0)
    (size : ¬ (s.order > 0 ∧ pageSize <<< s.order > s.memsz))
    (returned : mmAllocPage s.order s.host = (some frame, mid)) (wf : ptbl.Wf)
    (maps : Maps ptbl ((job.space.put job.page count frames).put (job.page + count) (2 ^ s.order)
      (frame + ·))) :
    Filling job (count + 2 ^ s.order) (withBlock frames count frame)
      { order := s.order
        filesz := s.filesz - min s.filesz (pageSize <<< s.order)
        bytes := s.bytes + min s.filesz (pageSize <<< s.order)
        current := s.current + pageSize <<< s.order
        memsz := if s.memsz < pageSize <<< s.order then 0 else s.memsz - pageSize <<< s.order
        ptbl := ptbl
        host := { mid with
          bytes := fillBlock mid.bytes frame (pageSize <<< s.order)
            (min s.filesz (pageSize <<< s.order)) (job.file.region s.bytes)
          tables := tables } } := by
  obtain ⟨offers, rfl⟩ := mmAllocPage_some returned
  have fits := filling.fits rest size
  have memsz := filling.memsz
  have filesz := filling.filesz
  have bytes := filling.bytes
  have current := filling.current
  have positive : 0 < 2 ^ s.order := Nat.two_pow_pos _
  rw [shiftLeft_pageSize]
  refine ⟨?_, fits, ?_, ?_, ?_, ?_⟩
  · refine filling.toFilled.block offers wf maps rfl rfl
      (fun f outside r small => fillBlock_outside (Nat.min_le_right _ _) outside small)
      fun j lower r small => ?_
    dsimp only
    rw [fillBlock_inside (Nat.min_le_right _ _) lower small]
    have last : j * pageSize + r < 2 ^ s.order * pageSize := by
      have := Nat.mul_le_mul_right pageSize (Nat.succ_le_of_lt lower)
      rw [Nat.succ_mul] at this
      omega
    unfold Job.byte sectionByte Memory.region
    rw [Nat.add_mul]
    by_cases copied : j * pageSize + r < min s.filesz (2 ^ s.order * pageSize)
    · rw [if_pos copied, if_pos (by omega)]
      refine congrArg job.file ?_
      omega
    · rw [if_neg copied, if_neg (by omega)]
  · rw [current, ← Nat.add_mul, Nat.add_assoc]
  · rw [Nat.add_mul]
    dsimp only
    split <;> omega
  · rw [Nat.add_mul]
    dsimp only
    omega
  · rw [Nat.add_mul]
    dsimp only
    omega

/-- The loop fills the whole section or stops. -/
theorem sectionLoop_spec (flags : Flags) (user : job.page + job.pages ≤ userPages) (fuel : Nat)
    (filling : Filling job count frames s)
    (enough : s.order + (job.pages - count) < fuel) :
    ∃ whole s' count' frames', (sectionLoop job.file flags fuel s).value = some (whole, s') ∧
      (if whole = true then count' = job.pages ∧ Filling job count' frames' s'
        else Stopped job.space job.page job.pages job.host count' frames' s'.ptbl s'.current
          s'.host) := by
  induction fuel generalizing count frames s with
  | zero => exact absurd enough (Nat.not_lt_zero _)
  | succ fuel inductionHypothesis =>
      unfold sectionLoop
      by_cases done : s.memsz = 0
      · rw [if_pos done]
        have memsz := filling.memsz
        have last : count = job.pages := by
          refine Nat.le_antisymm filling.le ?_
          unfold Job.pages pageCount
          rw [pageSize_eq] at *
          omega
        exact ⟨true, s, count, frames, rfl, last, filling⟩
      rw [if_neg done]
      dsimp only
      by_cases smaller : s.order > 0 ∧ pageSize <<< s.order > s.memsz
      · rw [if_pos smaller]
        refine @inductionHypothesis count frames { s with order := s.order - 1 } ?_ ?_
        · exact ⟨filling.toFilled, filling.le, filling.current, filling.memsz, filling.filesz,
            filling.bytes⟩
        · dsimp only
          omega
      rw [if_neg smaller]
      rcases allocated : mmAllocPage s.order s.host with ⟨_ | frame, mid⟩
      · obtain rfl := mmAllocPage_none allocated
        have takes : Takes job.host count frames { s.host with blocks := s.host.blocks.tail } :=
          filling.takes.congr rfl (fun _ _ _ _ => rfl) rfl
        dsimp only
        split
        · exact ⟨false, _, count, frames, rfl,
            ⟨filling.wf, ⟨_, .refl, filling.maps⟩, takes, filling.le, filling.current⟩⟩
        · refine @inductionHypothesis count frames _ ?_ ?_
          · exact ⟨filling.toFilled.congr rfl rfl rfl, filling.le, filling.current,
              filling.memsz, filling.filesz, filling.bytes⟩
          · dsimp only
            omega
      · obtain ⟨offers, eq⟩ := mmAllocPage_some allocated
        have fits := filling.fits done smaller
        have size : 0 < 2 ^ s.order := Nat.two_pow_pos _
        have room : job.page + count + 2 ^ s.order ≤ userPages := by omega
        obtain ⟨after, returned, wf, outcome⟩ :=
          filling.maps.map filling.wf room offers.2.1 flags mid.tables
        have call : pagetableMap s.ptbl s.current (frame * pageSize) (pageSize <<< s.order) flags
            mid.tables = some after := by
          rw [filling.current, shiftLeft_pageSize]
          exact returned
        simp only [call]
        rcases outcome with ⟨nonzero, maps⟩ | ⟨zero, less, sub, maps⟩
        · rw [if_neg nonzero]
          simp only [Reading.value_bind, Reading.value_window]
          refine inductionHypothesis
            (filling.block after.mem done smaller allocated wf maps) ?_
          dsimp only
          omega
        · rw [if_pos zero]
          have freed : mmFreePage frame s.order { mid with tables := after.mem } =
              some { mid with tables := after.mem, pool := s.host.pool } :=
            mmFreePage_block offers (by rw [eq])
          simp only [Reading.value_pure, freed, Option.map_some]
          refine ⟨false, _, count, frames, rfl, ⟨wf, ⟨less, sub, maps⟩, ?_, filling.le,
            filling.current⟩⟩
          exact filling.takes.congr rfl (fun _ _ _ _ => by rw [eq]) (by rw [eq])

end Loop

end Opal.Process
