import Opal.Process.MapSection

/-!
# Loading a program

An ELF file describes a memory image: the bytes of its load segments, each followed by zeros up to
the end of its last page, and a cleared page for the stack.  `load_elf_image` never reads behind
the end of the file, and when it accepts one the process finds exactly this image.
-/

namespace Opal.Process

open Opal.PageTable

section Programs

/-- The load segments among some program headers. -/
def loads (file : Memory) (phEntSize : Nat) : Nat → Nat → List Phdr
  | 0, _ => []
  | count + 1, phdr =>
      if file.word phdr 4 = elfPtLoad then
        (readPhdr file phdr).value :: loads file phEntSize count (phdr + phEntSize)
      else loads file phEntSize count (phdr + phEntSize)

/-- The page of the stack, as a segment without bytes. -/
def stackSegment : Phdr where
  flags := elfPfR ||| elfPfW
  offset := 0
  vaddr := ustackBottom
  filesz := 0
  memsz := pageSize
  align := 0

/-- The segments of a program: those of the file and the stack. -/
def program (file : Memory) : List Phdr :=
  loads file (file.word 54 2) (file.word 56 2) (file.word 32 8) ++ [stackSegment]

/-- An address is in a page of a segment. -/
def Phdr.Covers (phdr : Phdr) (a : Nat) : Prop :=
  phdr.vaddr ≤ a ∧ a < phdr.vaddr + pageCount phdr.memsz * pageSize

instance (phdr : Phdr) (a : Nat) : Decidable (phdr.Covers a) :=
  inferInstanceAs (Decidable (_ ∧ _))

/-- The byte of a segment at an address. -/
def Phdr.byte (file : Memory) (phdr : Phdr) (a : Nat) : UInt8 :=
  sectionByte file phdr.offset phdr.filesz (a - phdr.vaddr)

/-- A memory holds the bytes of some segments that do not overlap, and nothing else. -/
structure Laid (file : Memory) (segments : List Phdr) (memory : Nat → Option UInt8) : Prop where
  inside : ∀ phdr ∈ segments, ∀ a, phdr.Covers a → memory a = some (phdr.byte file a)
  outside : ∀ a, (∀ phdr ∈ segments, ¬ phdr.Covers a) → memory a = none
  apart : segments.Pairwise fun p q => ∀ a, p.Covers a → ¬ q.Covers a

/-- What `load_elf_image` has checked of a load segment. -/
structure Phdr.Checked (size : Nat) (phdr : Phdr) : Prop where
  fits : phdr.filesz ≤ phdr.memsz
  file : phdr.offset + phdr.filesz ≤ size
  low : phdr.vaddr + phdr.memsz < ustackBottom
  aligned : phdr.vaddr % pageSize = 0

variable {file : Memory} {size : Nat} {phdr : Phdr} {segments : List Phdr}
  {memory after : Nat → Option UInt8}

theorem readPhdr_lt {place : Nat} (same : (readPhdr file place).value = phdr) :
    phdr.vaddr < wordSize ∧ phdr.memsz < wordSize := by
  subst same
  exact ⟨Memory.word_lt 8, Memory.word_lt 8⟩

theorem checkPhdr_ok (bounds : phdr.vaddr < wordSize ∧ phdr.memsz < wordSize)
    (checked : checkPhdr size phdr = .ok) : phdr.Checked size := by
  unfold checkPhdr at checked
  obtain ⟨small, small'⟩ := bounds
  split at checked
  · cases checked
  split at checked
  · cases checked
  split at checked
  · cases checked
  split at checked
  · cases checked
  rename_i ordered
  split at checked
  · cases checked
  split at checked
  · cases checked
  split at checked
  · cases checked
  rename_i whole
  split at checked
  · cases checked
  rename_i below
  -- the sum does not wrap around, since it would be smaller than the address
  have sum : (phdr.vaddr + phdr.memsz) % wordSize = phdr.vaddr + phdr.memsz := by
    unfold wordSize at *
    omega
  exact ⟨by omega, by omega, by omega, by omega⟩

theorem Laid.empty : Laid file [] fun _ => none :=
  ⟨fun _ absent => absurd absent List.not_mem_nil, fun _ _ => rfl, .nil⟩

/-- One more segment is added to a memory. -/
theorem Laid.snoc (laid : Laid file segments memory)
    (adds : Adds memory phdr.vaddr (pageCount phdr.memsz * pageSize)
      (sectionByte file phdr.offset phdr.filesz) after) :
    Laid file (segments ++ [phdr]) after := by
  have free (p : Phdr) (mem : p ∈ segments) (a : Nat) (covers : p.Covers a) : ¬ phdr.Covers a := by
    intro covers'
    have found := laid.inside p mem a covers
    rw [adds.free a covers'.1 covers'.2] at found
    cases found
  have kept (a : Nat) (off : ¬ phdr.Covers a) : after a = memory a := by
    refine adds.outside a ?_
    unfold Phdr.Covers at off
    omega
  refine ⟨fun p mem a covers => ?_, fun a off => ?_, ?_⟩
  · rcases List.mem_append.mp mem with old | new
    · rw [kept a (free p old a covers)]
      exact laid.inside p old a covers
    · obtain rfl := List.mem_singleton.mp new
      exact adds.inside a covers.1 covers.2
  · rw [kept a (off phdr (List.mem_append_right _ (List.mem_singleton_self _)))]
    exact laid.outside a fun p mem => off p (List.mem_append_left _ mem)
  · refine List.pairwise_append.mpr ⟨laid.apart, List.pairwise_singleton _ _, ?_⟩
    intro p memP q memQ
    obtain rfl := List.mem_singleton.mp memQ
    exact free p memP

/-- The image a file describes. -/
def programMemory (file : Memory) : Nat → Option UInt8 :=
  fun a => ((program file).find? fun phdr => phdr.Covers a).map fun phdr => phdr.byte file a

theorem Laid.eq_programMemory (laid : Laid file (program file) memory) :
    memory = programMemory file := by
  funext a
  unfold programMemory
  let here : Phdr → Bool := fun phdr => phdr.Covers a
  rcases found : (program file).find? here with _ | phdr
  · refine laid.outside a fun phdr mem covers => ?_
    exact List.find?_eq_none.mp found phdr mem (decide_eq_true covers)
  · have covers : phdr.Covers a := of_decide_eq_true (@List.find?_some _ here _ _ found)
    exact laid.inside phdr (List.mem_of_find?_eq_some found) a covers

end Programs

section Containment

variable {file : Memory} {size limit : Nat}

/-- A section is read where its bytes are, however the allocations end. -/
theorem sectionLoop_within (flags : Flags) (fuel : Nat) {s : Section}
    (inside : s.bytes + s.filesz ≤ limit) : (sectionLoop file flags fuel s).Within limit := by
  induction fuel generalizing s with
  | zero => exact Reading.within_pure.mpr trivial
  | succ fuel inductionHypothesis =>
      unfold sectionLoop
      split
      · exact Reading.within_pure.mpr trivial
      dsimp only
      split
      · exact inductionHypothesis inside
      split
      · split
        · exact Reading.within_pure.mpr trivial
        · exact inductionHypothesis inside
      · split
        · exact Reading.within_pure.mpr trivial
        · split
          · exact Reading.within_pure.mpr trivial
          · rw [Reading.within_bind]
            refine ⟨Reading.within_window (by omega), inductionHypothesis ?_⟩
            dsimp only
            omega

theorem mapSection_within (image : Image) {data filesz addr memsz flags : Nat} (host : Host)
    (inside : data + filesz ≤ limit) :
    (mapSection file image data filesz addr memsz flags host).Within limit := by
  unfold mapSection
  split
  · exact Reading.within_pure.mpr trivial
  split
  · exact Reading.within_pure.mpr trivial
  dsimp only
  split
  · exact Reading.within_pure.mpr trivial
  · rw [Reading.within_bind]
    exact ⟨sectionLoop_within _ _ inside, Reading.within_pure.mpr trivial⟩

theorem readPhdr_within {place : Nat} (inside : place + phdrSize ≤ limit) :
    (readPhdr file place).Within limit := by
  unfold phdrSize at inside
  unfold readPhdr
  simp only [Reading.within_bind, Reading.within_pure, and_true]
  refine ⟨?_, ?_, ?_, ?_, ?_, ?_⟩ <;> exact Reading.within_word (by omega)

/-- The program headers lie before the end of the file, and so do the bytes of those segments that
pass the checks. -/
theorem loadSegments_within {phEntSize : Nat} (entry : phdrSize ≤ phEntSize) (count : Nat)
    {phdr : Nat} (image : Image) (host : Host) (inside : phdr + count * phEntSize ≤ size) :
    (loadSegments file size phEntSize count phdr image host).Within size := by
  induction count generalizing phdr image host with
  | zero => exact Reading.within_pure.mpr trivial
  | succ count inductionHypothesis =>
      rw [Nat.succ_mul] at inside
      have next : phdr + phEntSize + count * phEntSize ≤ size := by omega
      have here : phdr + phdrSize ≤ size := by omega
      unfold loadSegments
      rw [Reading.within_bind]
      refine ⟨Reading.within_word (by unfold phdrSize at here; omega), ?_⟩
      split
      · exact inductionHypothesis image host next
      split
      · exact Reading.within_pure.mpr trivial
      rw [Reading.within_bind]
      refine ⟨readPhdr_within here, ?_⟩
      split
      · exact Reading.within_pure.mpr trivial
      rename_i checked
      have bounds := (checkPhdr_ok (readPhdr_lt rfl) (not_not.mp checked)).file
      rw [Reading.within_bind]
      refine ⟨mapSection_within image host bounds, ?_⟩
      split
      · exact Reading.within_pure.mpr trivial
      · exact inductionHypothesis _ _ next
      · exact Reading.within_pure.mpr trivial

/-- What `load_elf_image` has checked of the header of a file. -/
structure HeaderOk (file : Memory) (size : Nat) : Prop where
  long : headerSize ≤ size
  ident : ∀ field ∈ (List.range 16).zip elfIdent, file field.1 = field.2
  version : file.word 20 4 = elfVersion
  ehSize : headerSize ≤ file.word 52 2
  type : file.word 16 2 = elfEtExec
  machine : file.word 18 2 = elfX8664
  phEntSize : phdrSize ≤ file.word 54 2
  phOff : file.word 32 8 < size
  phNum : file.word 56 2 ≤ (size - file.word 32 8) / file.word 54 2
  aligned : file.word 54 2 % phdrAlign = 0
  entry : file.word 24 8 < ustackBottom

section Checks

variable {α : Type} {c : Prop} [Decidable c] {x : Reading α} {d : α → Prop} [DecidablePred d]
  {err : Errno} {rest : Reading Errno} {next : α → Reading Errno}

theorem value_refuse (ne : err ≠ .ok) :
    (if c then pure err else rest).value = .ok ↔ ¬ c ∧ rest.value = .ok := by
  split
  · rename_i refused
    exact ⟨fun same => absurd same ne, fun both => absurd refused both.1⟩
  · rename_i passed
    exact ⟨fun same => ⟨passed, same⟩, And.right⟩

/-- A check of a field. -/
theorem value_check (ne : err ≠ .ok) :
    (x >>= fun value => if d value then pure err else next value).value = .ok ↔
      ¬ d x.value ∧ (next x.value).value = .ok := by
  rw [Reading.value_bind]
  exact value_refuse ne

theorem within_refuse :
    (if c then pure err else rest).Within limit ↔ (¬ c → rest.Within limit) := by
  split
  · rename_i refused
    exact iff_of_true (Reading.within_pure.mpr trivial) fun passed => absurd refused passed
  · rename_i passed
    exact ⟨fun within _ => within, fun within => within passed⟩

theorem within_check (here : x.Within limit) (rest : (next x.value).Within limit) :
    (x >>= fun value => if d value then pure err else next value).Within limit :=
  Reading.within_bind.mpr ⟨here, within_refuse.mpr fun _ => rest⟩

end Checks

theorem checkHeader_ok : (checkHeader file size).value = .ok ↔ HeaderOk file size := by
  unfold checkHeader
  rw [value_refuse (by decide), value_check (by decide), value_check (by decide),
    value_check (by decide), value_check (by decide), value_check (by decide),
    value_check (by decide), value_check (by decide), value_check (by decide),
    value_refuse (by decide), value_check (by decide)]
  simp only [Reading.value_word, Reading.value_pure, not_lt, not_le, not_not, ge_iff_le, gt_iff_lt,
    ne_eq, and_true, Reading.value_bytesAre]
  constructor
  · rintro ⟨long, ident, version, ehSize, type, machine, phEntSize, phOff, phNum, aligned, entry⟩
    exact ⟨long, ident, version, ehSize, type, machine, phEntSize, phOff, phNum, aligned, entry⟩
  · rintro ⟨long, ident, version, ehSize, type, machine, phEntSize, phOff, phNum, aligned, entry⟩
    exact ⟨long, ident, version, ehSize, type, machine, phEntSize, phOff, phNum, aligned, entry⟩

theorem checkHeader_within : (checkHeader file size).Within size := by
  unfold checkHeader
  rw [within_refuse]
  intro long
  have word (place width : Nat) (inside : place + width ≤ headerSize) :
      (Reading.word file place width).Within size :=
    Reading.within_word (inside.trans (not_lt.mp long))
  have ident : (Reading.bytesAre file ((List.range 16).zip elfIdent)).Within size := by
    rw [Reading.within_bytesAre (by decide)]
    have early : ∀ field ∈ (List.range 16).zip elfIdent, field.1 < headerSize := by decide
    exact .inl fun field mem => (early field mem).trans_le (not_lt.mp long)
  refine within_check ident <| within_check (word _ _ (by decide)) <|
    within_check (word _ _ (by decide)) <| within_check (word _ _ (by decide)) <|
    within_check (word _ _ (by decide)) <| within_check (word _ _ (by decide)) <|
    within_check (word _ _ (by decide)) <| within_check (word _ _ (by decide)) <|
    within_refuse.mpr fun _ => within_check (word _ _ (by decide)) ?_
  exact Reading.within_pure.mpr trivial

/-- Whatever the file is and however the allocations end, only bytes of the file are read. -/
theorem loadElfImage_within (file : Memory) (size : Nat) (image : Image) (host : Host) :
    (loadElfImage file size image host).Within size := by
  unfold loadElfImage
  rw [Reading.within_bind]
  refine ⟨checkHeader_within, ?_⟩
  split
  · exact Reading.within_pure.mpr trivial
  rename_i checked
  have header := checkHeader_ok.mp (not_not.mp checked)
  have word (place width : Nat) (inside : place + width ≤ headerSize) :
      (Reading.word file place width).Within size := Reading.within_word (inside.trans header.long)
  have table : file.word 32 8 + file.word 56 2 * file.word 54 2 ≤ size := by
    have le := (Nat.mul_le_mul_right _ header.phNum).trans (Nat.div_mul_le_self _ _)
    have := header.phOff
    omega
  simp only [Reading.within_bind, Reading.value_word]
  refine ⟨word _ _ (by decide), word _ _ (by decide), word _ _ (by decide),
    loadSegments_within header.phEntSize _ image host table, ?_⟩
  split
  · exact Reading.within_pure.mpr trivial
  · rw [Reading.within_bind]
    refine ⟨mapSection_within _ _ (Nat.zero_le _), ?_⟩
    split
    · exact Reading.within_pure.mpr trivial
    · rw [Reading.within_bind]
      exact ⟨word _ _ (by decide), Reading.within_pure.mpr trivial⟩
    · exact Reading.within_pure.mpr trivial
  · exact Reading.within_pure.mpr trivial

end Containment

section Loading

variable {file : Memory} {size : Nat} {image : Image} {host : Host} {space : Space}

theorem stackSegment_checked : stackSegment.vaddr + stackSegment.memsz ≤ 2 ^ 47 := by decide

/-- Mapping a segment that has passed the checks lays it behind those before. -/
theorem Laid.mapped {segments : List Phdr} (sound : Sound image host space)
    (laid : Laid file segments (image.memory host)) {phdr : Phdr}
    (aligned : phdr.vaddr % pageSize = 0) (user : phdr.vaddr + phdr.memsz ≤ 2 ^ 47) :
    ∃ result, (mapSection file image phdr.offset phdr.filesz phdr.vaddr phdr.memsz phdr.flags
        host).value = some result ∧
      Outcome image host space (Laid file (segments ++ [phdr])) result := by
  obtain ⟨page, start⟩ : ∃ page, phdr.vaddr = page * pageSize :=
    ⟨_, (Nat.div_mul_cancel (Nat.dvd_of_mod_eq_zero aligned)).symm⟩
  rw [start] at user
  obtain ⟨result, returned, outcome⟩ :=
    mapSection_spec sound file phdr.offset phdr.filesz phdr.flags user
  rw [← start] at returned outcome
  exact ⟨result, returned, outcome.mono fun _ adds => laid.snoc adds⟩

/-- The loop over the program headers lays the load segments. -/
theorem loadSegments_spec (sound : Sound image host space) {phEntSize : Nat} (count : Nat)
    {phdr : Nat} {segments : List Phdr} (laid : Laid file segments (image.memory host)) :
    ∃ result, (loadSegments file size phEntSize count phdr image host).value = some result ∧
      Outcome image host space (Laid file (segments ++ loads file phEntSize count phdr)) result ∧
      (result.1 = .ok → ∀ p ∈ loads file phEntSize count phdr, p.Checked size) := by
  induction count generalizing image host space phdr segments with
  | zero =>
      refine ⟨_, rfl, .done sound .refl ?_, fun _ p absent => absurd absent List.not_mem_nil⟩
      rw [loads, List.append_nil]
      exact laid
  | succ count inductionHypothesis =>
      unfold loadSegments
      rw [Reading.value_bind]
      generalize field : (Reading.word file phdr 4).value = type
      rw [Reading.value_word] at field
      by_cases skipped : type = elfPtNull ∨ type = elfPtNote
      · have other : file.word phdr 4 ≠ elfPtLoad := by
          rcases skipped with same | same <;> rw [field, same] <;> decide
        rw [if_pos skipped, loads, if_neg other]
        exact inductionHypothesis sound laid
      rw [if_neg skipped]
      by_cases load : type = elfPtLoad
      swap
      · rw [if_pos load]
        exact ⟨_, rfl, .failed (by decide) sound.toReleasable .refl, fun ok => by cases ok⟩
      rw [if_neg (not_not.mpr load), loads, if_pos (field.trans load), Reading.value_bind]
      generalize same : (readPhdr file phdr).value = segment
      by_cases passed : checkPhdr size segment = .ok
      swap
      · rw [if_pos passed]
        exact ⟨_, rfl, .failed passed sound.toReleasable .refl, fun ok => absurd ok passed⟩
      rw [if_neg (not_not.mpr passed)]
      have checked := checkPhdr_ok (readPhdr_lt same) passed
      have user : segment.vaddr + segment.memsz ≤ 2 ^ 47 := by
        have low := checked.low
        unfold ustackBottom at low
        omega
      obtain ⟨result, returned, outcome⟩ := laid.mapped sound checked.aligned user
      simp only [Reading.value_bind, returned]
      cases outcome with
      | @failed err _ _ _ ne releasable grows =>
          cases err with
          | ok => exact absurd rfl ne
          | _ => exact ⟨_, rfl, .failed ne releasable grows, fun ok => absurd ok ne⟩
      | done sound' grown laid' =>
          obtain ⟨result', returned', outcome', all⟩ := inductionHypothesis sound' laid'
          refine ⟨result', returned', outcome'.later grown fun memory laid => ?_,
            fun ok p mem => ?_⟩
          · rw [List.append_assoc] at laid
            exact laid
          · rcases List.mem_cons.mp mem with rfl | mem
            · exact checked
            · exact all ok p mem

/-- What `load_elf_image` tells its caller. -/
structure LoadedOk (file : Memory) (size : Nat) (loaded : Loaded) : Prop where
  header : HeaderOk file size
  checked : ∀ p ∈ loads file (file.word 54 2) (file.word 56 2) (file.word 32 8), p.Checked size
  start : loaded.start =
    some { entry := file.word 24 8, stack := ustackBottom, stackSize := pageSize }

/-- The loader ends in any case.  When it accepts a file, the memory of the process is the image
that the file describes, and otherwise all that has been allocated can be given back. -/
theorem loadElfImage_spec (sound : Sound image host space)
    (empty : image.memory host = fun _ => none) (file : Memory) (size : Nat) :
    ∃ loaded, (loadElfImage file size image host).value = some loaded ∧
      Outcome image host space (Laid file (program file))
        (loaded.status, loaded.image, loaded.host) ∧
      (loaded.status = .ok → LoadedOk file size loaded) := by
  unfold loadElfImage
  rw [Reading.value_bind]
  by_cases header : (checkHeader file size).value = .ok
  swap
  · rw [if_pos header]
    exact ⟨_, rfl, .failed header sound.toReleasable .refl, fun ok => absurd ok header⟩
  rw [if_neg (not_not.mpr header)]
  have laid : Laid file [] (image.memory host) := empty ▸ .empty
  obtain ⟨result, returned, outcome, all⟩ := @loadSegments_spec file size image host space sound
    (file.word 54 2) (file.word 56 2) (file.word 32 8) [] laid
  simp only [Reading.value_bind, Reading.value_word, returned]
  cases outcome with
  | @failed err _ _ _ ne releasable grows =>
      cases err with
      | ok => exact absurd rfl ne
      | _ => exact ⟨_, rfl, .failed ne releasable grows, fun ok => absurd ok ne⟩
  | @done image' mid _ sound' grown laid' =>
      obtain ⟨result', returned', outcome'⟩ :=
        @Laid.mapped _ _ _ _ _ sound' laid' stackSegment (by decide) stackSegment_checked
      have stack : (mapSection file image' 0 0 ustackBottom pageSize (elfPfR ||| elfPfW)
        mid).value = some result' := returned'
      simp only [Reading.value_bind, stack]
      cases outcome' with
      | @failed err _ _ _ ne releasable grows' =>
          cases err with
          | ok => exact absurd rfl ne
          | _ =>
              refine ⟨_, rfl, .failed ne releasable (grown.toGrows.trans grows'), fun ok => ?_⟩
              exact absurd ok ne
      | done sound'' grown' laid'' =>
          refine ⟨_, rfl, .done sound'' (grown.trans grown') laid'', fun _ => ?_⟩
          exact ⟨checkHeader_ok.mp header, all rfl, rfl⟩

end Loading

end Opal.Process
