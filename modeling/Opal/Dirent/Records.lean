import Opal.Dirent.Read

/-!
# Directory records

A result is a run of records without gaps, each with its padding.  The callback appends one
record to the run; the second pass turns the links of all but the last into their lengths,
and a reader that follows the links finds the entries again.
-/

namespace Opal.Dirent

section Layout

def Entry.size (entry : Entry) : Nat := direntRecordSize entry.name.length

/-- The bytes of a run of records. -/
def span (entries : List Entry) : Nat := (entries.map Entry.size).sum

/-- The record of an entry with its padding. -/
structure RecordAt (mem : Memory) (pos : Nat) (entry : Entry) (next : Nat) : Prop where
  next : mem.word pos 4 = next
  nameLen : mem.word (pos + 4) 2 = entry.name.length
  flags : mem.word (pos + 6) 2 = entry.flags
  name : ∀ i < entry.name.length, mem (pos + direntSize + i) = entry.name.getD i 0
  padding : ∀ i, pos + direntSize + entry.name.length ≤ i → i < pos + entry.size → mem i = 0

/-- A run of records, with a link for each entry and those behind it. -/
def Laid (link : Entry → List Entry → Nat) (mem : Memory) : Nat → List Entry → Prop
  | _, [] => True
  | pos, entry :: rest =>
      RecordAt mem pos entry (link entry rest) ∧ Laid link mem (pos + entry.size) rest

/-- The links before the second pass. -/
def unlinked : Entry → List Entry → Nat := fun _ _ => 0

/-- The links of a result: to the next record, and none from the last one. -/
def chained : Entry → List Entry → Nat := fun entry rest => if rest = [] then 0 else entry.size

variable {link : Entry → List Entry → Nat} {mem mem' buffer : Memory} {pos next : Nat}
  {entry : Entry} {entries rest : List Entry}

theorem span_cons : span (entry :: entries) = entry.size + span entries := by
  simp [span]

theorem span_concat : span (entries ++ [entry]) = span entries + entry.size := by
  simp [span]

/-- A record has room for its header and its name. -/
theorem Entry.size_bounds (entry : Entry) :
    direntSize + entry.name.length ≤ entry.size ∧ entry.size < 2 ^ 32 := by
  have fits := entry.fits
  unfold Entry.size direntRecordSize direntSize
  omega

theorem RecordAt.congr (record : RecordAt mem pos entry next)
    (same : ∀ i, pos ≤ i → i < pos + entry.size → mem' i = mem i) :
    RecordAt mem' pos entry next := by
  have room := entry.size_bounds.1
  unfold direntSize at room
  have word {shift width : Nat} (inside : shift + width ≤ 8) :
      mem'.word (pos + shift) width = mem.word (pos + shift) width :=
    Memory.word_congr fun i lower => same _ (by omega) (by omega)
  refine ⟨?_, ?_, ?_, ?_, ?_⟩
  · rw [← record.next]
    exact @word 0 4 (by decide)
  · rw [← record.nameLen]
    exact word (by decide)
  · rw [← record.flags]
    exact word (by decide)
  · intro i lower
    rw [← record.name i lower]
    exact same _ (by omega) (by unfold direntSize; omega)
  · intro i first last
    rw [← record.padding i first last]
    exact same _ (by omega) last

theorem Laid.congr (laid : Laid link mem pos entries)
    (same : ∀ i, pos ≤ i → i < pos + span entries → mem' i = mem i) :
    Laid link mem' pos entries := by
  induction entries generalizing pos with
  | nil => trivial
  | cons entry rest inductionHypothesis =>
      rw [span_cons] at same
      refine ⟨laid.1.congr fun i first last => same i first (by omega), ?_⟩
      exact inductionHypothesis laid.2 fun i first last => same i (by omega) (by omega)

theorem word_copyInto {width value : Nat} (small : value < 256 ^ width) :
    (mem.copyInto pos width (Memory.bytesOf value)).word pos width = value := by
  have written : (mem.copyInto pos width (Memory.bytesOf value)).word pos width =
      (Memory.bytesOf value).word 0 width := by
    refine Memory.word_congr fun i lower => ?_
    rw [Memory.copyInto_inside lower, Nat.zero_add]
  rw [written, Memory.word_bytesOf, Nat.pow_zero, Nat.div_one, Nat.mod_eq_of_lt small]

theorem word_copyInto_outside {width size at' : Nat} {source : Memory}
    (outside : at' + width ≤ pos ∨ pos + size ≤ at') :
    (mem.copyInto pos size source).word at' width = mem.word at' width :=
  Memory.word_congr fun i lower => Memory.copyInto_outside (by omega)

theorem word_fill_outside {width size at' : Nat} {value : UInt8}
    (outside : at' + width ≤ pos ∨ pos + size ≤ at') :
    (mem.fill pos size value).word at' width = mem.word at' width :=
  Memory.word_congr fun i lower => Memory.fill_outside (by omega)

/-- The first field of a record is written over. -/
theorem RecordAt.relink {value : Nat} (record : RecordAt mem pos entry next)
    (small : value < 2 ^ 32) :
    RecordAt (mem.copyInto pos 4 (Memory.bytesOf value)) pos entry value where
  next := word_copyInto small
  nameLen := (word_copyInto_outside (by omega)).trans record.nameLen
  flags := (word_copyInto_outside (by omega)).trans record.flags
  name i lower := by
    rw [← record.name i lower]
    exact Memory.copyInto_outside (by unfold direntSize; omega)
  padding i first last := by
    rw [← record.padding i first last]
    exact Memory.copyInto_outside (by unfold direntSize at first; omega)

theorem putRecord_outside {i : Nat} (outside : i < pos ∨ pos + entry.size ≤ i) :
    putRecord buffer pos entry i = buffer i := by
  have room := entry.size_bounds.1
  have size : direntRecordSize entry.name.length = entry.size := rfl
  unfold direntSize at room
  unfold putRecord direntSize
  rw [size, Memory.fill_outside (by omega), Memory.copyInto_outside (by omega),
    Memory.copyInto_outside (by omega), Memory.copyInto_outside (by omega),
    Memory.copyInto_outside (by omega)]

theorem putRecord_record : RecordAt (putRecord buffer pos entry) pos entry 0 := by
  have room := entry.size_bounds.1
  have size : direntRecordSize entry.name.length = entry.size := rfl
  have flags : entry.flags < 256 ^ 2 := by
    unfold Entry.flags
    split <;> decide
  unfold direntSize at room
  unfold putRecord direntSize
  dsimp only
  rw [size]
  refine ⟨?_, ?_, ?_, ?_, ?_⟩
  · rw [word_fill_outside (by omega), word_copyInto_outside (by omega),
      word_copyInto_outside (by omega), word_copyInto_outside (by omega)]
    exact word_copyInto (by decide)
  · rw [word_fill_outside (by omega), word_copyInto_outside (by omega),
      word_copyInto_outside (by omega)]
    exact word_copyInto entry.fits
  · rw [word_fill_outside (by omega), word_copyInto_outside (by omega)]
    exact word_copyInto flags
  · intro i lower
    unfold direntSize
    rw [Memory.fill_outside (by omega), Memory.copyInto_inside lower]
  · intro i first last
    unfold direntSize at first
    exact Memory.fill_inside (by omega) (by omega)

end Layout

section Callback

variable {mem buffer : Memory} {pos index : Nat} {entry : Entry} {entries taken rest : List Entry}
  {ctx after : ReadCtx}

theorem Laid.concat (laid : Laid unlinked mem pos entries)
    (record : RecordAt mem (pos + span entries) entry 0) :
    Laid unlinked mem pos (entries ++ [entry]) := by
  induction entries generalizing pos with
  | nil => exact ⟨record, trivial⟩
  | cons first rest inductionHypothesis =>
      rw [span_cons, ← Nat.add_assoc] at record
      exact ⟨laid.1, inductionHypothesis laid.2 record⟩

/-- The callback has taken some entries into an empty buffer. -/
structure Taken (buffer : Memory) (room : Nat) (taken : List Entry) (ctx : ReadCtx) : Prop where
  size : ctx.size = room
  written : ctx.written = span taken
  count : ctx.count = taken.length
  inside : ctx.written ≤ room
  laid : Laid unlinked ctx.buffer 0 taken
  outside : ∀ i, ctx.written ≤ i → ctx.buffer i = buffer i

/-- The visit ended behind the entries taken: there are no more, or the next one does not
fit. -/
structure Stopped (buffer : Memory) (room : Nat) (taken rest : List Entry) (ctx : ReadCtx) :
    Prop where
  holds : Taken buffer room taken ctx
  full : ∀ entry ∈ rest.head?, room < span taken + entry.size
  ebufsize : ctx.ebufsize = true ↔ rest ≠ [] ∧ taken = []

theorem span_eq_zero : span entries = 0 ↔ entries = [] := by
  cases entries with
  | nil => exact iff_of_true rfl rfl
  | cons entry rest =>
      have room := entry.size_bounds.1
      rw [span_cons]
      unfold direntSize at room
      exact iff_of_false (by omega) (List.cons_ne_nil _ _)

theorem Taken.put {size : Nat} (taken' : Taken buffer size taken ctx)
    (room : entry.size ≤ size - ctx.written) :
    Taken buffer size (taken ++ [entry]) { ctx with
      buffer := putRecord ctx.buffer ctx.written entry
      written := ctx.written + entry.size
      count := ctx.count + 1 } where
  size := taken'.size
  written := by rw [span_concat, ← taken'.written]
  count := by rw [List.length_append, List.length_singleton, ← taken'.count]
  inside := by
    have inside := taken'.inside
    dsimp only
    omega
  laid := by
    have written := taken'.written
    refine Laid.concat (taken'.laid.congr fun i _ last => putRecord_outside (by omega)) ?_
    rw [Nat.zero_add, ← written]
    exact putRecord_record
  outside i beyond := by
    dsimp only at beyond ⊢
    rw [putRecord_outside (by omega)]
    exact taken'.outside i (by omega)

/-- The callback takes entries as long as they fit. -/
theorem visit_fileDirReadCb {size : Nat} (index : Nat) (entries : List Entry)
    (taken' : Taken buffer size taken ctx) (alive : ctx.ebufsize = false) :
    ∃ more rest, entries = more ++ rest ∧
      Stopped buffer size (taken ++ more) rest (visit fileDirReadCb index entries ctx) := by
  induction entries generalizing index taken ctx with
  | nil =>
      refine ⟨[], [], rfl, ?_, ?_, ?_⟩
      · rwa [List.append_nil]
      · intro entry absurd
        cases absurd
      · rw [visit, alive]
        simp
  | cons entry rest inductionHypothesis =>
      have written := taken'.written
      have sameSize := taken'.size
      have recordSize : direntRecordSize entry.name.length = entry.size := rfl
      rw [visit, fileDirReadCb, recordSize]
      by_cases full : entry.size > ctx.size - ctx.written
      · rw [if_pos full]
        refine ⟨[], entry :: rest, rfl, ?_⟩
        have exceeded : size < span taken + entry.size := by omega
        rw [List.append_nil]
        dsimp only
        by_cases empty : ctx.written = 0
        · rw [if_pos empty]
          have none : taken = [] := span_eq_zero.mp (by omega)
          refine ⟨⟨taken'.size, written, taken'.count, taken'.inside, taken'.laid,
            taken'.outside⟩, ?_, ?_⟩
          · rintro _ ⟨⟩
            exact exceeded
          · exact iff_of_true rfl ⟨List.cons_ne_nil _ _, none⟩
        · rw [if_neg empty]
          refine ⟨taken', ?_, iff_of_false (by simp [alive]) ?_⟩
          · rintro _ ⟨⟩
            exact exceeded
          · rintro ⟨-, none⟩
            rw [none] at written
            exact empty written
      · have room : entry.size ≤ size - ctx.written := by omega
        rw [if_neg full]
        obtain ⟨more, rest', split, stopped⟩ :=
          inductionHypothesis (index + 1) (taken'.put room) alive
        refine ⟨entry :: more, rest', by rw [split]; rfl, ?_⟩
        rw [List.append_assoc, List.singleton_append] at stopped
        exact stopped

end Callback

section Links

variable {mem : Memory} {pos size : Nat} {entries : List Entry}

theorem Laid.cons_congr {link : Entry → List Entry → Nat} {mem' : Memory} {entry : Entry}
    {rest : List Entry} {next : Nat} (record : RecordAt mem pos entry next)
    (same : ∀ i < pos + entry.size, mem' i = mem i) (linked : link entry rest = next)
    (laid : Laid link mem' (pos + entry.size) rest) : Laid link mem' pos (entry :: rest) := by
  refine ⟨?_, laid⟩
  rw [linked]
  exact record.congr fun i _ last => same i last

/-- The second pass links the records and leaves the memory around them. -/
theorem direntFixOffsets_spec (laid : Laid unlinked mem pos entries)
    (whole : pos + span entries = size) :
    Laid chained (direntFixOffsets size pos mem) pos entries ∧
      ∀ i, i < pos ∨ size ≤ i → direntFixOffsets size pos mem i = mem i := by
  induction entries generalizing pos mem with
  | nil =>
      rw [direntFixOffsets, if_neg (by simp [span] at whole; omega)]
      exact ⟨trivial, fun _ _ => rfl⟩
  | cons entry rest inductionHypothesis =>
      obtain ⟨record, laidRest⟩ := laid
      rw [span_cons] at whole
      have bounds := entry.size_bounds
      unfold direntSize at bounds
      have recordSize : direntRecordSize (mem.word (pos + 4) 2) = entry.size := by
        rw [record.nameLen]
        rfl
      rw [direntFixOffsets, if_pos (by omega)]
      dsimp only
      rw [recordSize]
      by_cases last : pos + entry.size ≥ size
      · have none : rest = [] := span_eq_zero.mp (by omega)
        subst none
        rw [if_pos last]
        refine ⟨⟨record.relink (by decide), trivial⟩, fun i outside => ?_⟩
        exact Memory.copyInto_outside (by omega)
      · have some : rest ≠ [] := by
          rintro rfl
          simp [span] at whole
          omega
        rw [if_neg last]
        generalize relinked :
          mem.copyInto pos 4 (Memory.bytesOf entry.size) = mem' at *
        have same (i : Nat) (outside : i < pos ∨ pos + 4 ≤ i) : mem' i = mem i := by
          rw [← relinked]
          exact Memory.copyInto_outside outside
        have record' : RecordAt mem' pos entry entry.size := by
          rw [← relinked]
          exact record.relink bounds.2
        have laidRest' : Laid unlinked mem' (pos + entry.size) rest :=
          laidRest.congr fun i first _ => same i (by omega)
        obtain ⟨linked, outside⟩ := inductionHypothesis laidRest' (by omega)
        refine ⟨Laid.cons_congr record' (fun i before => outside i (Or.inl before))
          (if_neg some) linked, fun i away => ?_⟩
        rw [outside i (by omega)]
        exact same i (by omega)

end Links

section Decode

/-- What a reader sees of a record: the name and the flags. -/
abbrev Seen := List UInt8 × Nat

def Entry.seen (entry : Entry) : Seen := (entry.name, entry.flags)

/-- The records of the first `n` bytes from `pos` on, by their links. -/
def readRecords (mem : Memory) (n : Nat) : Nat → Nat → List Seen
  | 0, _ => []
  | rounds + 1, pos =>
      if pos < n then
        let name := (List.range (mem.word (pos + 4) 2)).map fun i => mem (pos + direntSize + i)
        let next := mem.word pos 4
        (name, mem.word (pos + 6) 2) ::
          if next = 0 then [] else readRecords mem n rounds (pos + next)
      else []

/-- The records of a result of `n` bytes. -/
def decode (mem : Memory) (n : Nat) : List Seen := readRecords mem n n 0

variable {mem : Memory} {pos n : Nat} {entries : List Entry}

theorem RecordAt.name_eq {entry : Entry} {next : Nat} (record : RecordAt mem pos entry next) :
    ((List.range (mem.word (pos + 4) 2)).map fun i => mem (pos + direntSize + i)) =
      entry.name := by
  rw [record.nameLen]
  refine List.ext_get (by simp) fun i lower inside => ?_
  have byte := record.name i inside
  simp only [List.get_eq_getElem, List.getElem_map, List.getElem_range]
  rw [byte]
  simp [List.getD, inside]

/-- A reader that follows the links finds the entries. -/
theorem readRecords_eq {rounds : Nat} (laid : Laid chained mem pos entries)
    (whole : pos + span entries = n) (enough : entries.length < rounds) :
    readRecords mem n rounds pos = entries.map Entry.seen := by
  induction entries generalizing pos rounds with
  | nil =>
      obtain ⟨rounds, rfl⟩ := Nat.exists_eq_succ_of_ne_zero (Nat.ne_zero_of_lt enough)
      rw [readRecords, if_neg (by simp [span] at whole; omega)]
      rfl
  | cons entry rest inductionHypothesis =>
      obtain ⟨rounds, rfl⟩ := Nat.exists_eq_succ_of_ne_zero (Nat.ne_zero_of_lt enough)
      obtain ⟨record, laidRest⟩ := laid
      have bounds := entry.size_bounds.1
      unfold direntSize at bounds
      rw [span_cons] at whole
      rw [readRecords, if_pos (by omega)]
      dsimp only
      rw [record.name_eq, record.flags, record.next, List.map_cons]
      refine congrArg₂ List.cons rfl ?_
      unfold chained
      by_cases none : rest = []
      · rw [if_pos none, if_pos rfl, none]
        rfl
      · rw [if_neg none, if_neg (by omega)]
        exact inductionHypothesis laidRest (by omega) (by simpa using enough)

theorem length_le_span : entries.length ≤ span entries := by
  induction entries with
  | nil => exact Nat.le_refl 0
  | cons entry rest inductionHypothesis =>
      have bounds := entry.size_bounds.1
      unfold direntSize at bounds
      rw [span_cons, List.length_cons]
      omega

theorem decode_eq (laid : Laid chained mem 0 entries) (whole : span entries = n) :
    decode mem n = entries.map Entry.seen := by
  cases entries with
  | nil =>
      rw [← whole]
      rfl
  | cons entry rest =>
      have bounds := entry.size_bounds.1
      have more := @length_le_span rest
      unfold direntSize at bounds
      refine readRecords_eq laid (by rwa [Nat.zero_add]) ?_
      rw [← whole, span_cons, List.length_cons]
      omega

end Decode

end Opal.Dirent
