import Opal.Descriptors.Sections

/-!
# Runs of the descriptor system calls

The books are kept by every section of every call, in whatever order the calls interleave.
A call of its own, from any state reached, then either installs the files it returns
descriptors of or leaves tables and reference counts as they were; `syscall_open` reports
`0` instead where it finds no descriptor.
-/

namespace Opal.Descriptors

open FileTable

section Interleaving

variable {store : Store} {processes : Finset Nat} {held : Nat → Nat} {files : List Nat}
  {file : Nat}

/-- The references of a call beside those of the others. -/
def holding (held : Nat → Nat) (files : List Nat) : Nat → Nat :=
  fun file => held file + files.count file

theorem holding_cons : holding held (file :: files) = plus (holding held files) file := by
  funext other
  unfold holding plus
  dsimp only
  rw [List.count_cons]
  by_cases same : other = file
  · rw [if_pos same, if_pos (beq_iff_eq.mpr same.symm)]
    omega
  · rw [if_neg same, if_neg (fun equal => same (beq_iff_eq.mp equal).symm)]
    omega

/-- A section keeps the books with the references its call goes on holding. -/
theorem Activity.next_spec {activity : Activity} {mem : Blocks} {writer : Option Nat}
    (balanced : Balanced store processes (holding held activity.holds))
    (runs : activity.Runs processes) (fresh : ∀ file ∈ writer, store.refcount file = 0) :
    Ensures Overflow (fun done => Balanced done.2 processes (holding held done.1.holds))
      (activity.next store mem writer) := by
  cases activity with
  | opening pid fd file =>
      exact (processOpenFile_spec balanced runs).bind fun done spec => spec.1
  | pipeReader pid reader =>
      cases writer with
      | none => exact balanced
      | some writer =>
          have created := balanced.create (fresh writer rfl)
          rw [← holding_cons] at created
          exact created
  | pipeFiles pid reader writer =>
      refine (processOpenFile_spec balanced runs).bind fun done spec => ?_
      dsimp only
      split <;> exact spec.1
  | pipeReadFd pid reader writer readFd =>
      refine (processOpenFile_spec balanced runs).bind fun done spec => ?_
      dsimp only
      split <;> exact spec.1
  | pipeUndo pid reader writer readFd =>
      exact (Ensures.of_returns (processCloseFile_spec balanced runs)).bind fun done spec => spec.1
  | releasing files =>
      cases files with
      | nil => exact balanced
      | cons file rest =>
          unfold Activity.holds at balanced
          rw [holding_cons] at balanced
          exact (Ensures.of_returns (release_spec balanced)).bind fun done spec => spec.1

/-- The references that calls in progress hold. -/
def World.references (world : World) : Nat → Nat :=
  fun file => (world.calls.flatMap Activity.holds).count file

/-- The books of the whole kernel. -/
def Sound (world : World) : Prop := Balanced world.store world.processes world.references

theorem init_sound : Sound World.init := ⟨fun _ => filetableInit_wf, fun _ => rfl⟩

/-- The references of one call, taken from those of all calls. -/
theorem count_calls (before : List Activity) (activity : Activity) (after : List Activity) :
    (fun file => ((before ++ activity :: after).flatMap Activity.holds).count file) =
      holding (fun file => ((before ++ after).flatMap Activity.holds).count file)
        activity.holds := by
  funext file
  unfold holding
  simp only [List.flatMap_append, List.flatMap_cons, List.count_append]
  omega

/-- A call starts with the references it holds. -/
theorem sound_of_holding {calls : List Activity} {activity : Activity}
    (balanced : Balanced store processes
      (holding (fun file => (calls.flatMap Activity.holds).count file) activity.holds)) :
    Sound ⟨store, processes, activity :: calls⟩ := by
  have counts := count_calls [] activity calls
  unfold Sound World.references
  rw [← List.nil_append (activity :: calls), counts]
  exact balanced

theorem step_sound {world : World} (sound : Sound world) (call : Call)
    (admitted : Admits world call) : Ensures Overflow Sound (step world call) := by
  unfold Sound World.references at sound
  cases call with
  | spawn pid => exact sound.spawn admitted
  | exit pid =>
      exact (Ensures.of_returns (destroyFiles_spec sound admitted)).bind fun done spec => spec
  | fork child parent mem =>
      exact (cloneFiles_spec sound admitted.1).bind fun done spec => spec.1
  | «open» pid fd file =>
      exact sound_of_holding (holding_cons ▸ sound.create admitted.2)
  | pipe pid reader =>
      exact sound_of_holding (holding_cons ▸ sound.create admitted.2)
  | get pid fd =>
      refine (processGetFile_spec sound).bind fun done spec => ?_
      obtain ⟨found, store⟩ := done
      refine sound_of_holding ?_
      cases found with
      | none => exact spec.2.2
      | some file => exact holding_cons ▸ spec.2.2
  | dup pid oldfd newfd mem =>
      exact (processDupFd_spec sound admitted).bind fun done spec => spec.1
  | close pid fd =>
      exact (Ensures.of_returns (processCloseFile_spec sound admitted)).bind fun done spec => spec.1
  | advance before activity after mem writer =>
      obtain ⟨calls, runs, fresh⟩ := admitted
      rw [calls, count_calls] at sound
      refine (Activity.next_spec sound runs fresh).bind fun done balanced => ?_
      show Balanced _ _ _
      unfold World.references
      dsimp only
      rw [count_calls]
      exact balanced

end Interleaving

section Open

variable {store : Store} {processes : Finset Nat} {held : Nat → Nat} {pid : Nat} {mem : Blocks}
  {input : OpenInput}

/-- A call that fails leaves every descriptor and every reference count as it was. -/
def Unchanged (store after : Store) : Prop :=
  SameFiles store after ∧ after.refcount = store.refcount

/-- The file that `syscall_open` has to find a descriptor for: the arguments are valid and
`vfs_create_path` returns a file. -/
def OpenInput.opens (input : OpenInput) : Option Nat :=
  if input.mode &&& ~~~ openMaskAll ≠ 0 ∨ input.flags &&& ~~~ inodeMaskAll ≠ 0 then none
  else if (copyUserString input.path syscallPathMax input.copied).isSome then none
  else input.created.toOption

/-- The descriptor refers to the file just opened, or the call fails and leaves no trace. -/
def OpenSound (store : Store) (pid : Nat) (input : OpenInput) (done : Int × Store) : Prop :=
  (0 ≤ done.1 ∧ ∃ file ∈ input.opens, (done.2.tables pid).files done.1.toNat = some file) ∨
    done.1 < 0 ∧ Unchanged store done.2

theorem Balanced.unchanged {after : Store} (balanced : Balanced store processes held)
    (balanced' : Balanced after processes held) (same : SameFiles store after) :
    Unchanged store after :=
  ⟨same, balanced.refcount_eq balanced' fun p _ => same p⟩

theorem copyUserString_neg {path : Option Nat} {maxlen : Nat} {copied : Bool} {err : Int}
    (failed : copyUserString path maxlen copied = some err) : err < 0 := by
  unfold copyUserString at failed
  split at failed
  · cases failed
    decide
  · split at failed
    · cases failed
      decide
    · split at failed
      · cases failed
      · cases failed
        decide

/-- The part of `syscall_open` after the path is opened. -/
theorem open_spec {fd : Int} {file : Nat} (balanced : Balanced store processes held)
    (member : pid ∈ processes) (fresh : store.refcount file = 0) :
    Ensures Overflow (fun done => Balanced done.2 processes held ∧
      (Installable (store.tables pid) fd mem →
        0 ≤ done.1 ∧ (done.2.tables pid).files done.1.toNat = some file) ∧
      (¬ Installable (store.tables pid) fd mem →
        done.1 = 0 ∧ SameFiles store done.2))
      (do
        let (fd, store) ← processOpenFile (store.create file) pid fd file mem
        let result := if fd < 0 then 0 else fd
        let store ← fileRelease store file
        pure (result, store)) := by
  refine (processOpenFile_spec (balanced.create fresh) member).bind fun opened spec => ?_
  obtain ⟨fd', store'⟩ := opened
  obtain ⟨balanced', effect, exactly⟩ := spec
  refine (Ensures.of_returns (release_spec balanced')).bind fun after spec' => ?_
  obtain ⟨released, tables⟩ := spec'
  dsimp only at effect exactly tables ⊢
  refine ⟨released, fun can => ?_, fun cannot => ?_⟩
  · have nonneg := exactly.mpr can
    rw [if_neg (Int.not_lt.mpr nonneg)]
    rcases effect with put | ⟨failed, _⟩
    · rw [tables, put.files, Function.update_self]
      exact ⟨nonneg, rfl⟩
    · rw [failed] at nonneg
      exact absurd nonneg (by decide)
  · have negative := Int.not_le.mp (mt exactly.mp cannot)
    rw [if_pos negative]
    rcases effect with put | ⟨_, kept⟩
    · exact absurd put.nonneg (Int.not_le.mpr negative)
    · refine ⟨rfl, fun p => ?_⟩
      rw [tables]
      exact kept p

/-- `syscall_open` reports what it did exactly when it fails before it has a file or finds a
descriptor for the file. -/
theorem syscallOpen_spec (balanced : Balanced store processes held) (member : pid ∈ processes)
    (fresh : ∀ file, input.created = .ok file → store.refcount file = 0) :
    Ensures Overflow (fun done => OpenSound store pid input done ↔
      (input.opens.isSome → Installable (store.tables pid) (toFd input.fd) mem))
      (syscallOpen store pid input mem) := by
  have fails (err : Int) (negative : err < 0) (nothing : input.opens = none) :
      OpenSound store pid input (err, store) ↔
        (input.opens.isSome → Installable (store.tables pid) (toFd input.fd) mem) := by
    refine ⟨fun _ some => ?_, fun _ => .inr ⟨negative, fun _ => rfl, rfl⟩⟩
    rw [nothing] at some
    cases some
  unfold syscallOpen
  split
  · rename_i invalid
    exact fails _ (by decide) (if_pos (.inl invalid))
  split
  · rename_i invalid
    exact fails _ (by decide) (if_pos (.inr invalid))
  rename_i mode flags
  have valid : ¬ (input.mode &&& ~~~ openMaskAll ≠ 0 ∨ input.flags &&& ~~~ inodeMaskAll ≠ 0) :=
    not_or.mpr ⟨mode, flags⟩
  have opens : input.opens = if (copyUserString input.path syscallPathMax input.copied).isSome
      then none else input.created.toOption := if_neg valid
  split
  · rename_i copy
    refine fails _ (copyUserString_neg copy) ?_
    rw [opens, copy]
    rfl
  · rename_i err copy created
    refine fails _ err.2 ?_
    rw [opens, copy, created]
    rfl
  · rename_i file copy created
    have new : input.opens = some file := by
      rw [opens, copy, created]
      rfl
    refine (open_spec balanced member (fresh file created)).mono fun done spec => ?_
    obtain ⟨balanced', installed, refused⟩ := spec
    rw [new]
    refine ⟨fun sound _ => ?_, fun can => ?_⟩
    · by_contra cannot
      obtain ⟨zero, same⟩ := refused cannot
      rcases sound with ⟨_, opened, member', refers⟩ | ⟨negative, _⟩
      · rw [new] at member'
        cases member'
        rw [same pid] at refers
        have referenced := balanced.referenced member refers
        have := fresh file created
        omega
      · omega
    · obtain ⟨nonneg, refers⟩ := installed (can rfl)
      exact .inl ⟨nonneg, file, new, refers⟩

end Open

section DupPipe

variable {store : Store} {processes : Finset Nat} {held : Nat → Nat} {pid : Nat}
  {mem mem' : Blocks}

/-- The descriptor refers to the file of the old one, or the call fails and leaves no trace. -/
def DupSound (store : Store) (pid : Nat) (oldfd : Int) (done : Int × Store) : Prop :=
  (0 ≤ done.1 ∧ ∃ file, filetableGet (store.tables pid) oldfd = some file ∧
    (done.2.tables pid).files done.1.toNat = some file) ∨
    done.1 < 0 ∧ Unchanged store done.2

theorem syscallDup_spec {oldfd newfd : BitVec 64} (balanced : Balanced store processes held)
    (member : pid ∈ processes) : Ensures Overflow (DupSound store pid (toFd oldfd))
      (syscallDup store pid oldfd newfd mem) := by
  refine (processDupFd_spec balanced member).mono fun done spec => ?_
  obtain ⟨balanced', effect⟩ := spec
  rcases effect with ⟨file, found, nonneg, refers⟩ | ⟨negative, same⟩
  · exact .inl ⟨nonneg, file, found, refers⟩
  · exact .inr ⟨negative, balanced.unchanged balanced' same⟩

/-- Both descriptors refer to the ends of the pipe, or the call fails and leaves no trace. -/
def PipeSound (store : Store) (pid : Nat) (input : PipeInput)
    (done : (Int × Option Int) × Store) : Prop :=
  (∃ readFd writeFd reader writer, done.1 = (readFd, some writeFd) ∧
    input.reader = some reader ∧ input.writer = some writer ∧ 0 ≤ readFd ∧ 0 ≤ writeFd ∧
    (done.2.tables pid).files readFd.toNat = some reader ∧
    (done.2.tables pid).files writeFd.toNat = some writer) ∨
    done.1.1 < 0 ∧ done.1.2 = none ∧ Unchanged store done.2

/-- The two references of `syscall_pipe` are dropped at its end. -/
theorem releasePair_spec {reader writer : Nat}
    (balanced : Balanced store processes (plus (plus held reader) writer))
      (result : Int × Option Int) :
    Ensures Overflow (fun done => done.1 = result ∧ Balanced done.2 processes held ∧
      done.2.tables = store.tables)
      (do
        let store ← fileRelease store writer
        let store ← fileRelease store reader
        pure (result, store)) := by
  refine (Ensures.of_returns (release_spec balanced)).bind fun first spec => ?_
  obtain ⟨balanced₁, tables₁⟩ := spec
  refine (Ensures.of_returns (release_spec balanced₁)).bind fun second spec' => ?_
  obtain ⟨balanced₂, tables₂⟩ := spec'
  exact ⟨rfl, balanced₂, tables₂.trans tables₁⟩

/-- Closing the descriptor that was just opened undoes the opening. -/
theorem Put.undone {opened kept closed : Store} {fd : Int} {file : Nat}
    (put : Put store pid fd file opened) (same : SameFiles opened kept)
    (undo : Closed kept pid fd closed) : SameFiles store closed := by
  intro p
  by_cases own : p = pid
  · subst own
    rw [undo.files, same p, put.files, Function.update_idem, ← put.free, Function.update_eq_self]
  · rw [undo.others p own, same p, put.others p own]

/-- A descriptor that is open stays when another one is opened. -/
theorem Put.kept {after : Store} {fd : Int} {file idx other : Nat}
    (put : Put store pid fd file after) (present : (store.tables pid).files idx = some other) :
    (after.tables pid).files idx = some other := by
  rw [put.files, Function.update_of_ne, present]
  intro same
  rw [same, put.free] at present
  cases present

theorem Put.valid {after : Store} {fd : Int} {file : Nat} (put : Put store pid fd file after) :
    fd ≠ fdInvalid := by
  have nonneg := put.nonneg
  unfold fdInvalid
  omega

theorem Put.get {opened kept : Store} {fd : Int} {file : Nat}
    (wf : Wf (kept.tables pid)) (put : Put store pid fd file opened)
    (same : SameFiles opened kept) : filetableGet (kept.tables pid) fd = some file := by
  have present : (kept.tables pid).files fd.toNat = some file := by
    rw [same pid, put.files, Function.update_self]
  have inside := wf.below fd.toNat (by rw [present]; rfl)
  have nonneg := put.nonneg
  unfold filetableGet
  rw [if_neg (by omega), present]

theorem syscallPipe_spec {input : PipeInput} (balanced : Balanced store processes held)
    (member : pid ∈ processes) (freshReader : ∀ file ∈ input.reader, store.refcount file = 0)
    (freshWriter : ∀ file ∈ input.writer, store.refcount file = 0)
    (distinct : input.reader = input.writer → input.reader = none) :
    Ensures Overflow (PipeSound store pid input) (syscallPipe store pid input mem mem') := by
  have fails {done : (Int × Option Int) × Store} (result : done.1 = (opalEnomem, none) ∨
      done.1 = (opalEnospc, none)) (balanced' : Balanced done.2 processes held)
      (same : SameFiles store done.2) : PipeSound store pid input done := by
    refine .inr ⟨?_, ?_, balanced.unchanged balanced' same⟩
    · rcases result with eq | eq <;> rw [eq] <;> decide
    · rcases result with eq | eq <;> rw [eq]
  unfold syscallPipe
  split
  · exact fails (.inl rfl) balanced fun _ => rfl
  · exact fails (.inl rfl) balanced fun _ => rfl
  rename_i reader _ isReader
  have created := balanced.create (freshReader reader isReader)
  dsimp only
  split
  · refine (Ensures.of_returns (release_spec created)).bind fun after spec => ?_
    exact fails (.inl rfl) spec.1 fun p => by rw [spec.2]; rfl
  rename_i writer isWriter
  have other : writer ≠ reader := by
    rintro rfl
    rw [distinct (isReader.trans isWriter.symm)] at isReader
    cases isReader
  have unused : (store.create reader).refcount writer = 0 :=
    (Function.update_of_ne other ..).trans (freshWriter writer isWriter)
  refine (processOpenFile_spec (created.create unused) member).bind fun readOpened spec => ?_
  obtain ⟨readFd, store₁⟩ := readOpened
  obtain ⟨balanced₁, read, _⟩ := spec
  dsimp only at balanced₁ read ⊢
  rcases read with putRead | ⟨rfl, same₁⟩
  · rw [if_neg putRead.valid]
    refine (processOpenFile_spec balanced₁ member).bind fun writeOpened spec => ?_
    obtain ⟨writeFd, store₂⟩ := writeOpened
    obtain ⟨balanced₂, written, _⟩ := spec
    dsimp only at balanced₂ written ⊢
    rcases written with putWrite | ⟨rfl, same₂⟩
    · rw [if_neg putWrite.valid]
      refine (releasePair_spec balanced₂ _).mono fun done spec => ?_
      obtain ⟨result, _, tables⟩ := spec
      refine .inl ⟨readFd, writeFd, reader, writer, result, isReader, isWriter, putRead.nonneg,
        putWrite.nonneg, ?_, ?_⟩
      · rw [tables]
        apply putWrite.kept
        rw [putRead.files, Function.update_self]
      · rw [tables, putWrite.files, Function.update_self]
    · rw [if_pos rfl]
      refine (Ensures.of_returns (processCloseFile_spec balanced₂ member)).bind fun closed
        spec => ?_
      obtain ⟨balanced₃, undo⟩ := spec
      rw [putRead.get (balanced₂.wf pid) same₂] at undo
      refine (releasePair_spec balanced₃ _).mono fun done spec => ?_
      obtain ⟨result, balanced', tables⟩ := spec
      refine fails (.inr result) balanced' fun p => ?_
      rw [tables]
      exact putRead.undone same₂ undo.2 p
  · rw [if_pos rfl]
    refine (releasePair_spec balanced₁ _).mono fun done spec => ?_
    obtain ⟨result, balanced', tables⟩ := spec
    refine fails (.inr result) balanced' fun p => ?_
    rw [tables]
    exact same₁ p

end DupPipe

section Runs

/-- A process opens file `5`, while another call of it uses the file. -/
def openFive : List Call :=
  [.spawn 0, .open 0 (-1) 5, .advance [] (.opening 0 (-1) 5) [] (fun _ => none) none,
    .get 0 0, .advance [.releasing [5]] (.releasing [5]) [] (fun _ => none) none]

/-- `SYS_OPEN` of another file at the first descriptor that is free. -/
def openSix : OpenInput where
  fd := -1
  path := some 1
  mode := 0
  flags := 0
  copied := true
  created := .ok 6

/-- `SYS_OPEN` of an existing file as descriptor 9000, which no table can have. -/
def openOutOfRange : OpenInput where
  fd := 9000
  path := some 1
  mode := 0
  flags := 0
  copied := true
  created := .ok 5

end Runs

end Opal.Descriptors
