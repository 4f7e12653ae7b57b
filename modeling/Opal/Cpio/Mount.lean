import Opal.Cpio.Records

/-!
# Mounting is safe and faithful

`cpio_mount` adds the entries of the records up to the trailer, and the mounted tree is what
these entries describe.
-/

namespace Opal.Cpio

section Loop

variable {image : Image} {off fuel : Nat} {header : Header} {headers : List Header} {root : Node}
  {nextIno : Nat}

/-- The records of the archive from the offset up to the trailer or the end. -/
inductive Records (image : Image) : Nat → List Header → Prop where
  | ended {off : Nat} (behind : ¬ off < image.len) : Records image off []
  | trailer {off : Nat} {header : Header} (inside : off < image.len)
      (record : RecordAt image off header)
      (last : image.window header.name header.nameLen = trailer) : Records image off []
  | record {off : Nat} {header : Header} {headers : List Header} (inside : off < image.len)
      (record : RecordAt image off header)
      (notLast : image.window header.name header.nameLen ≠ Cpio.trailer)
      (later : Records image header.next headers) : Records image off (header :: headers)

/-- A regular file or a directory. -/
def Header.Supported (header : Header) : Prop :=
  header.mode &&& cpioIfmt = cpioIfreg ∨ header.mode &&& cpioIfmt = cpioIfdir

def Header.payload (header : Header) : Payload :=
  ⟨header.mode &&& cpioIfmt = cpioIfdir, header.data, header.size⟩

/-- The components of the path of a record, with what it brings. -/
def Header.record (image : Image) (header : Header) : List Name × Payload :=
  (segments (image.window header.name header.nameLen), header.payload)

/-- What `cpio_mount` returns for an archive that it refuses. -/
def Refused (fault : Fault) : Prop := fault = .einval ∨ fault = .enotsupp

theorem RecordAt.readRecord_eq (record : RecordAt image off header) :
    readRecord image off = .ok header := by
  rcases readRecord_cases image off with ⟨other, ran, record'⟩ | ⟨_, none⟩
  · rw [ran, record.unique record']
  · exact absurd record (none header)

theorem recordAt_of_readRecord (ran : readRecord image off = .ok header) :
    RecordAt image off header := by
  rcases readRecord_cases image off with ⟨other, ran', record⟩ | ⟨ran', _⟩
  · rw [ran] at ran'
    exact Except.ok.inj ran' ▸ record
  · rw [ran] at ran'
    cases ran'

theorem RecordAt.name_le (record : RecordAt image off header) :
    header.name + header.nameLen ≤ image.len := by
  have bounds := record.bounds
  have name := record.name
  omega

theorem RecordAt.off_lt (record : RecordAt image off header) : off < header.next := by
  have bounds := record.bounds
  omega

theorem isTrailer_eq (record : RecordAt image off header) :
    isTrailer image header = .ok (decide (image.window header.name header.nameLen = trailer)) := by
  have inside := record.name_le
  unfold isTrailer
  by_cases ten : header.nameLen = 10
  · rw [if_pos ten, slice_eq (by omega), ten]
    rfl
  · rw [if_neg ten, decide_eq_false fun same => ten ?_]
    · rfl
    · have := congrArg List.length same
      rwa [length_window] at this

theorem mountLoop_trailer (inside : off < image.len) (record : RecordAt image off header)
    (last : image.window header.name header.nameLen = trailer) :
    mountLoop image (fuel + 1) off root nextIno = .ok root := by
  unfold mountLoop
  rw [if_neg (not_not_intro inside), record.readRecord_eq, ok_bind, isTrailer_eq record, ok_bind,
    if_pos (decide_eq_true last)]

theorem mountLoop_unsupported (inside : off < image.len) (record : RecordAt image off header)
    (notLast : image.window header.name header.nameLen ≠ trailer)
    (unsupported : ¬ header.Supported) :
    mountLoop image (fuel + 1) off root nextIno = .error .enotsupp := by
  unfold mountLoop
  rw [if_neg (not_not_intro inside), record.readRecord_eq, ok_bind, isTrailer_eq record, ok_bind,
    if_neg (by simpa using notLast)]
  exact if_pos (not_or.mp unsupported)

theorem mountLoop_record (inside : off < image.len) (record : RecordAt image off header)
    (notLast : image.window header.name header.nameLen ≠ trailer) (supported : header.Supported) :
    mountLoop image (fuel + 1) off root nextIno =
      insertEntry header.payload (segments (image.window header.name header.nameLen)) root nextIno
        >>= fun done => mountLoop image fuel header.next done.1 done.2 := by
  rw [mountLoop]
  rw [if_neg (not_not_intro inside), record.readRecord_eq, ok_bind, isTrailer_eq record, ok_bind,
    if_neg (by simpa using notLast)]
  dsimp only
  rw [if_neg (not_and_or.mpr (supported.imp not_not_intro not_not_intro)),
    addArchiveEntry_eq record.name_le]
  rfl

/-- The loop adds the entries of the records one after the other. -/
theorem mountLoop_eq (records : Records image off headers)
    (supported : ∀ header ∈ headers, header.Supported) (enough : image.len - off < fuel) :
    mountLoop image fuel off root nextIno =
      insertAll (headers.map (Header.record image)) root nextIno := by
  induction records generalizing fuel root nextIno with
  | @ended off behind =>
      obtain ⟨more, rfl⟩ := Nat.exists_eq_add_one_of_ne_zero (by omega : fuel ≠ 0)
      unfold mountLoop
      rw [if_pos behind]
      rfl
  | @trailer off header inside record last =>
      obtain ⟨more, rfl⟩ := Nat.exists_eq_add_one_of_ne_zero (by omega : fuel ≠ 0)
      exact mountLoop_trailer inside record last
  | @record off header headers inside record notLast later inductionHypothesis =>
      obtain ⟨more, rfl⟩ := Nat.exists_eq_add_one_of_ne_zero (by omega : fuel ≠ 0)
      have ahead := record.off_lt
      have bounds := record.inside
      rw [mountLoop_record inside record notLast (supported header List.mem_cons_self),
        List.map_cons]
      show _ = (insertEntry _ _ root nextIno >>= fun done => insertAll _ done.1 done.2)
      congr 1
      funext done
      exact inductionHypothesis (fun header member => supported header
        (List.mem_cons_of_mem _ member)) (by omega)

/-- The loop ends inside the buffer, and an archive that is not refused consists of records. -/
theorem mountLoop_spec (enough : image.len - off < fuel) :
    Ensures Refused (fun _ => ∃ headers, Records image off headers ∧
      ∀ header ∈ headers, header.Supported) (mountLoop image fuel off root nextIno) := by
  induction fuel generalizing off root nextIno with
  | zero => omega
  | succ fuel inductionHypothesis =>
      by_cases inside : off < image.len
      · rcases readRecord_cases image off with ⟨header, ran, record⟩ | ⟨ran, _⟩
        · by_cases last : image.window header.name header.nameLen = trailer
          · rw [mountLoop_trailer inside record last]
            exact ⟨[], .trailer inside record last, nofun⟩
          · by_cases supported : header.Supported
            · rw [mountLoop_record inside record last supported]
              have ahead := record.off_lt
              refine ((insertEntry_einval _).tolerate fun _ einval => .inl einval).bind
                fun done _ => ?_
              refine (@inductionHypothesis header.next done.1 done.2 (by omega)).mono
                fun _ rest => ?_
              obtain ⟨headers, records, supported'⟩ := rest
              refine ⟨header :: headers, .record inside record last records, ?_⟩
              exact List.forall_mem_cons.mpr ⟨supported, supported'⟩
            · rw [mountLoop_unsupported inside record last supported]
              exact .inr rfl
        · unfold mountLoop
          rw [if_neg (not_not_intro inside), ran]
          exact .inl rfl
      · unfold mountLoop
        rw [if_pos inside]
        exact ⟨[], .ended inside, nofun⟩

end Loop

section Mount

variable {image : Image} {header : Header} {headers : List Header} {root : Node}

theorem slash_not_mem_splitOn (path : List UInt8) : ∀ name ∈ path.splitOn slash, slash ∉ name := by
  induction path with
  | nil =>
      intro name member
      rw [List.mem_singleton.mp member]
      exact List.not_mem_nil
  | cons ch rest inductionHypothesis =>
      intro name member
      rw [List.splitOn_cons_eq_if_modifyHead] at member
      split at member
      · rcases List.mem_cons.mp member with rfl | later
        · exact List.not_mem_nil
        · exact inductionHypothesis name later
      · rename_i other
        obtain ⟨first, more, eq⟩ := List.exists_cons_of_ne_nil (List.splitOn_ne_nil slash rest)
        rw [eq] at member inductionHypothesis
        rcases List.mem_cons.mp member with rfl | later
        · rw [List.mem_cons]
          rintro (same | inside)
          · exact other (beq_iff_eq.mpr same.symm)
          · exact inductionHypothesis first List.mem_cons_self inside
        · exact inductionHypothesis name (List.mem_cons_of_mem _ later)

/-- Components have no slash and are not empty. -/
theorem segments_plain (path : List UInt8) : ∀ name ∈ segments path, Plain name := by
  intro name member
  obtain ⟨split, nonempty⟩ := List.mem_filter.mp member
  exact ⟨by simpa using nonempty, slash_not_mem_splitOn path name split⟩

theorem records_plain :
    ∀ record ∈ headers.map (Header.record image), ∀ name ∈ record.1, Plain name := by
  intro record member
  obtain ⟨header, _, rfl⟩ := List.mem_map.mp member
  exact segments_plain _

/-- The tree before the first record. -/
def emptyRoot : Node :=
  .mk [] { ino := 1, isDir := true, explicit := true, data := none, size := 0 } []

theorem emptyRoot_mounted : Mounted emptyRoot [] where
  wf := .mk List.nodup_nil nofun (fun _ => rfl) nofun
  name := rfl
  isDir := rfl
  represents := by
    intro p kind
    cases p with
    | nil =>
        constructor
        · intro same
          cases same
          exact describes_root
        · intro described
          cases kind with
          | file data =>
              obtain ⟨_, member, _⟩ := described
              cases member
          | dir explicit => rw [described.2.mpr (.inl rfl)]; rfl
    | cons first rest =>
        refine ⟨nofun, fun described => ?_⟩
        cases kind with
        | file data =>
            obtain ⟨_, member, _⟩ := described
            cases member
        | dir explicit =>
            rcases described.1 with root | ⟨_, member, _⟩
            · cases root
            · cases member

/-- The path of a record without its empty and `.` components. -/
def Header.normalPath (image : Image) (header : Header) : List Name :=
  normal (segments (image.window header.name header.nameLen))

def Header.Regular (header : Header) : Prop := header.mode &&& cpioIfmt = cpioIfreg

/-- The tree is what the records say. -/
structure Faithful (image : Image) (headers : List Header) (root : Node) : Prop where
  paths : ∀ p, (root.lookup p).isSome ↔
    p = [] ∨ ∃ header ∈ headers, p <+: header.normalPath image
  files : ∀ p node, root.lookup p = some node →
    (node.attr.isDir = false ↔
      ∃ header ∈ headers, header.Regular ∧ header.normalPath image = p)
  data : ∀ p node, root.lookup p = some node → ∀ header ∈ headers, header.Regular →
    header.normalPath image = p → node.attr.data = some header.data ∧ node.attr.size = header.size
  wf : root.Wf

/-- The entry of a record. -/
def Header.entry (image : Image) (header : Header) : Entry Slice := toEntry (header.record image)

theorem Header.Regular.isFile (regular : header.Regular) : (header.entry image).isDir = false := by
  refine decide_eq_false fun isDir => ?_
  rw [regular] at isDir
  exact absurd isDir (by decide)

theorem Header.Supported.regular (supported : header.Supported)
    (isFile : (header.entry image).isDir = false) : header.Regular :=
  supported.resolve_right fun isDir => of_decide_eq_false isFile isDir

/-- A regular file is described at its path. -/
theorem leafPath_of_regular (acceptable : Acceptable (header.entry image))
    (regular : header.Regular) :
    leafPath (header.entry image).path = some (header.normalPath image) := by
  cases leaf : leafPath (header.entry image).path with
  | none =>
      have isDir := acceptable.onlyDir leaf
      rw [regular.isFile] at isDir
      cases isDir
  | some p =>
      rw [leafPath_eq_normal leaf]
      rfl

theorem kind_eq_file {node : Node} {data : Option Nat} {size : Nat}
    (kind : node.kind = .file (data, size)) :
    node.attr.isDir = false ∧ node.attr.data = data ∧ node.attr.size = size := by
  unfold Node.kind at kind
  split at kind
  · cases kind
  · rename_i notDir
    cases kind
    exact ⟨eq_false_of_ne_true notDir, rfl, rfl⟩

theorem Mounted.faithful {entries : List (Entry Slice)} (mounted : Mounted root entries)
    (same : ∀ entry, entry ∈ entries ↔ ∃ header ∈ headers, header.entry image = entry)
    (acceptable : ∀ header ∈ headers, Acceptable (header.entry image))
    (supported : ∀ header ∈ headers, header.Supported) : Faithful image headers root := by
  have viewed {p : List Name} {node : Node} (found : root.lookup p = some node) :
      root.view p = some node.kind := congrArg (Option.map Node.kind) found
  have described {p : List Name} {header : Header} (member : header ∈ headers)
      (regular : header.Regular) (path : header.normalPath image = p) :
      root.view p = some (.file (some header.data, header.size)) := by
    refine (mounted.represents p _).mpr ⟨header.entry image, (same _).mpr ⟨header, member, rfl⟩, ?_,
      regular.isFile, rfl⟩
    rw [leafPath_of_regular (acceptable header member) regular, path]
  have asDescribed {p : List Name} {node : Node} {header : Header}
      (found : root.lookup p = some node) (member : header ∈ headers) (regular : header.Regular)
      (path : header.normalPath image = p) :=
    kind_eq_file (Option.some.inj ((viewed found).symm.trans (described member regular path)))
  refine ⟨fun p => ?_, fun p node found => ⟨fun isFile => ?_, ?_⟩,
    fun p node found header member regular path => ?_, mounted.wf⟩
  · have isSome := mounted.represents.isSome_iff p
    rw [show (root.view p).isSome = (root.lookup p).isSome from Option.isSome_map] at isSome
    rw [isSome]
    refine or_congr_right ⟨?_, ?_⟩
    · rintro ⟨entry, member, short⟩
      obtain ⟨header, member', rfl⟩ := (same entry).mp member
      exact ⟨header, member', short⟩
    · rintro ⟨header, member, short⟩
      exact ⟨header.entry image, (same _).mpr ⟨header, member, rfl⟩, short⟩
  · have kind : node.kind = .file (node.attr.data, node.attr.size) :=
      if_neg (by rw [isFile]; decide)
    have file := viewed found
    rw [kind] at file
    obtain ⟨entry, member, leaf, isFile', _⟩ := (mounted.represents p _).mp file
    obtain ⟨header, member', rfl⟩ := (same entry).mp member
    exact ⟨header, member', (supported header member').regular isFile',
      (leafPath_eq_normal leaf).symm⟩
  · rintro ⟨header, member, regular, path⟩
    exact (asDescribed found member regular path).1
  · exact (asDescribed found member regular path).2

theorem Records.unique {off : Nat} {others : List Header} (records : Records image off headers)
    (records' : Records image off others) : headers = others := by
  induction records generalizing others with
  | ended behind =>
      cases records' with
      | ended => rfl
      | trailer => rfl
      | record inside => exact absurd inside behind
  | trailer inside record last =>
      cases records' with
      | ended => rfl
      | trailer => rfl
      | record _ record' notLast =>
          obtain rfl := record.unique record'
          exact absurd last notLast
  | record inside record notLast _ inductionHypothesis =>
      cases records' with
      | ended behind => exact absurd inside behind
      | trailer _ record' last =>
          obtain rfl := record.unique record'
          exact absurd last notLast
      | record _ record' _ later =>
          obtain rfl := record.unique record'
          rw [inductionHypothesis later]

theorem cpioMount_eq (records : Records image 0 headers)
    (supported : ∀ header ∈ headers, header.Supported) :
    cpioMount image = insertAll (headers.map (Header.record image)) emptyRoot 2 :=
  mountLoop_eq records supported (Nat.lt_succ_self _)

/-- An archive whose entries can be added is mounted. -/
theorem cpioMount_ok (records : Records image 0 headers)
    (supported : ∀ header ∈ headers, header.Supported)
    (addable : Addable [] (headers.map (Header.entry image))) :
    ∃ root, cpioMount image = .ok root := by
  have entries : (headers.map (Header.record image)).map toEntry =
      headers.map (Header.entry image) := List.map_map
  rw [← entries] at addable
  obtain ⟨done, ran, _⟩ := @insertAll_ok emptyRoot [] 2 _ emptyRoot_mounted records_plain addable
  rw [cpioMount_eq records supported]
  exact ⟨done, ran⟩

/-- The mounted tree of an archive whose entries can be added. -/
theorem mounted_of_records {root : Node} (records : Records image 0 headers)
    (supported : ∀ header ∈ headers, header.Supported) (mounted : cpioMount image = .ok root) :
    Addable [] (headers.map (Header.entry image)) ∧
      Mounted root (headers.map (Header.entry image)).reverse := by
  have entries : (headers.map (Header.record image)).map toEntry =
      headers.map (Header.entry image) := List.map_map
  rw [cpioMount_eq records supported] at mounted
  by_cases addable : Addable [] ((headers.map (Header.record image)).map toEntry)
  · obtain ⟨done, ran, result⟩ :=
      @insertAll_ok emptyRoot [] 2 _ emptyRoot_mounted records_plain addable
    rw [ran] at mounted
    obtain rfl := Except.ok.inj mounted
    rw [entries] at addable result
    rw [List.append_nil] at result
    exact ⟨addable, result⟩
  · rw [insertAll_error emptyRoot_mounted records_plain addable] at mounted
    cases mounted

/-- `cpio_mount` ends and reads inside the buffer; it refuses the archive, or the archive
consists of records and the tree is what these say. -/
theorem cpioMount_faithful (image : Image) :
    Ensures Refused (fun root => (∃ headers, Records image 0 headers) ∧
      ∀ headers, Records image 0 headers → Faithful image headers root) (cpioMount image) := by
  cases ran : cpioMount image with
  | error fault => exact (mountLoop_spec (Nat.lt_succ_self _)).of_error ran
  | ok root =>
      obtain ⟨headers, records, supported⟩ := (mountLoop_spec (Nat.lt_succ_self _)).of_ok ran
      refine ⟨⟨headers, records⟩, fun others records' => ?_⟩
      obtain rfl := records.unique records'
      obtain ⟨addable, mounted⟩ := mounted_of_records records supported ran
      refine mounted.faithful (fun entry => ?_) (fun header member => ?_) supported
      · rw [List.mem_reverse, List.mem_map]
      · exact (addable_iff.mp addable).1 _ (List.mem_map_of_mem member)

end Mount

end Opal.Cpio
