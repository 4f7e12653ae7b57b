import Opal.Dirent.Records

/-!
# Enumerating a directory

A `Directory` is an `iterate_dir` that either fails before the first entry or visits the
entries from the start on, and then keeps visiting the same ones.  Successive reads of one
handle return its entries in order, each once.
-/

namespace Opal.Dirent

section Directory

variable {σ ε : Type}

/-- `iterate_dir` fails in this state, before it visits an entry. -/
def FailsIn (iterateDir : IterateDir σ ε) (state : σ) (error : ε) (next : σ) : Prop :=
  ∀ (γ : Type) (start : Nat) (callback : Callback γ) (ctx : γ),
    iterateDir γ state start callback ctx = (.error error, ctx, next)

/-- `iterate_dir` visits the entries from the start on. -/
def VisitsIn (iterateDir : IterateDir σ ε) (state : σ) (entries : List Entry) (next : σ) : Prop :=
  ∀ (γ : Type) (start : Nat) (callback : Callback γ) (ctx : γ),
    iterateDir γ state start callback ctx =
      (.ok (), visit callback start (entries.drop start) ctx, next)

/-- An `iterate_dir` over a directory that does not change.  In a settled state the directory
has been read. -/
structure Directory (σ ε : Type) where
  iterateDir : IterateDir σ ε
  Valid : σ → Prop
  Settled : σ → Prop
  entries : σ → List Entry
  answers : ∀ state, Valid state →
    (∃ error next, Valid next ∧ FailsIn iterateDir state error next) ∨
      ∃ next, Valid next ∧ Settled next ∧ VisitsIn iterateDir state (entries next) next
  settled : ∀ state, Settled state → VisitsIn iterateDir state (entries state) state

/-- What `iterate_dir` visits in this state, unless it fails. -/
def Visits (iterateDir : IterateDir σ ε) (entries : List Entry) (state : σ) : Prop :=
  ∀ found next, iterateDir (List Entry) state 0 collect [] = (.ok (), found, next) →
    found = entries

variable {iterateDir : IterateDir σ ε} {state next : σ} {entries : List Entry} {error : ε}

theorem FailsIn.visits (fails : FailsIn iterateDir state error next) :
    Visits iterateDir entries state := by
  intro found after ran
  rw [fails] at ran
  cases ran

theorem VisitsIn.collect_eq (visits : VisitsIn iterateDir state entries next) :
    iterateDir (List Entry) state 0 collect [] = (.ok (), entries, next) := by
  rw [visits, List.drop_zero, visit_collect, List.nil_append]

theorem VisitsIn.visits (visits : VisitsIn iterateDir state entries next) :
    Visits iterateDir entries state := by
  intro found after ran
  rw [visits.collect_eq] at ran
  cases ran
  rfl

end Directory

section Requests

structure Request where
  buffer : Memory
  size : Nat

/-- A read with the handle before and after it. -/
structure Answer (σ ε : Type) where
  request : Request
  file : File σ
  result : Except (ReadError ε) Nat
  buffer : Memory
  after : File σ

variable {σ ε : Type}

/-- The records of a result. -/
def Answer.records (answer : Answer σ ε) : List Seen :=
  match answer.result with
  | .ok n => decode answer.buffer n
  | .error _ => []

def answerOf (ops : Ops σ ε) (file : File σ) (request : Request) : Answer σ ε :=
  let (result, buffer, after) := fileRead ops file request.buffer request.size
  { request, file, result, buffer, after }

/-- Successive reads on one handle. -/
def reads (ops : Ops σ ε) : File σ → List Request → List (Answer σ ε)
  | _, [] => []
  | file, request :: rest =>
      let answer := answerOf ops file request
      answer :: reads ops answer.after rest

/-- The handle behind the reads. -/
def fileAfter (ops : Ops σ ε) : File σ → List Request → File σ
  | file, [] => file
  | file, request :: rest => fileAfter ops (answerOf ops file request).after rest

/-- The ways in which a read of a directory ends. -/
inductive ReadStep (iterateDir : IterateDir σ ε) (entries : List Entry) (file : File σ)
    (request : Request) : Except (ReadError ε) Nat → Memory → Nat → Prop where
  /-- Nothing is asked for. -/
  | nothing (empty : request.size = 0) :
      ReadStep iterateDir entries file request (.ok 0) request.buffer file.pos
  | failed (error : ε) (asked : request.size ≠ 0)
      (fails : (iterateDir (List Entry) file.inode 0 collect []).1 = .error error) :
      ReadStep iterateDir entries file request (.error (.fs error)) request.buffer file.pos
  /-- The next record is larger than the buffer. -/
  | ebufsize (asked : request.size ≠ 0) {entry : Entry} {rest : List Entry}
      (next : entries.drop file.pos = entry :: rest) (small : request.size < entry.size)
      {buffer : Memory} (outside : ∀ i, buffer i = request.buffer i) :
      ReadStep iterateDir entries file request (.error .ebufsize) buffer file.pos
  /-- As many records as fit; there are none only at the end. -/
  | records (asked : request.size ≠ 0) {taken rest : List Entry}
      (split : entries.drop file.pos = taken ++ rest) (ended : taken = [] → rest = [])
      (full : ∀ entry ∈ rest.head?, request.size < span taken + entry.size)
      (inside : span taken ≤ request.size) {buffer : Memory} (laid : Laid chained buffer 0 taken)
      (outside : ∀ i, span taken ≤ i → buffer i = request.buffer i) :
      ReadStep iterateDir entries file request (.ok (span taken)) buffer (file.pos + taken.length)

/-- Successive reads return the entries in order, each once. -/
structure Enumerates (ops : Ops σ ε) (iterateDir : IterateDir σ ε) (entries : List Entry)
    (file : File σ) (requests : List Request) : Prop where
  here : Visits iterateDir entries file.inode
  visited : ∀ answer ∈ reads ops file requests, Visits iterateDir entries answer.file.inode
  visitedAfter : Visits iterateDir entries (fileAfter ops file requests).inode
  steps : ∀ answer ∈ reads ops file requests,
    ReadStep iterateDir entries answer.file answer.request answer.result answer.buffer
      answer.after.pos
  refused : ∀ answer ∈ reads ops file requests, answer.request.size ≠ 0 →
    ∀ entry ∈ (entries.drop answer.file.pos).head?, answer.request.size < entry.size →
      (answer.result = .error .ebufsize ∨ ∃ error, answer.result = .error (.fs error)) ∧
        answer.after.pos = answer.file.pos
  bounded : (fileAfter ops file requests).pos ≤ entries.length
  records : (reads ops file requests).flatMap Answer.records =
    (entries.take (fileAfter ops file requests).pos).map Entry.seen
  complete : (∃ answer ∈ reads ops file requests, answer.result = .ok 0 ∧
    answer.request.size ≠ 0) → (fileAfter ops file requests).pos = entries.length

end Requests

section Steps

variable {σ ε : Type} {iterateDir : IterateDir σ ε} {entries : List Entry} {file : File σ}
  {request : Request} {result : Except (ReadError ε) Nat} {buffer : Memory} {pos : Nat}

/-- A buffer that cannot hold the next record is refused, as long as something is asked
for. -/
theorem ReadStep.refused (step : ReadStep iterateDir entries file request result buffer pos)
    (asked : request.size ≠ 0) {entry : Entry} (next : entry ∈ (entries.drop file.pos).head?)
    (small : request.size < entry.size) :
    (result = .error .ebufsize ∨ ∃ error, result = .error (.fs error)) ∧ pos = file.pos := by
  cases step with
  | nothing empty => exact absurd empty asked
  | failed error _ _ => exact ⟨Or.inr ⟨error, rfl⟩, rfl⟩
  | ebufsize _ _ _ _ => exact ⟨Or.inl rfl, rfl⟩
  | @records _ taken rest split ended full inside _ _ _ =>
      rw [split] at next
      cases taken with
      | nil =>
          rw [ended rfl] at next
          cases next
      | cons first more =>
          cases next
          rw [span_cons] at inside
          omega

theorem ReadStep.kept (step : ReadStep iterateDir entries file request result buffer pos)
    {error : ReadError ε} (failed : result = .error error) : pos = file.pos := by
  cases step with
  | nothing _ => cases failed
  | failed _ _ _ => rfl
  | ebufsize _ _ _ _ => rfl
  | records _ _ _ _ _ _ _ => cases failed

/-- What a read does in a state in which the entries are visited. -/
theorem fileRead_of_visits {ops : Ops σ ε} {next : σ} (opened : ops.iterateDir = some iterateDir)
    (readable : file.readable = true) (isDir : file.isDir = true)
    (visits : VisitsIn iterateDir file.inode entries next) (asked : request.size ≠ 0) :
    ∃ result buffer pos, fileRead ops file request.buffer request.size =
      (result, buffer, { file with pos, inode := next }) ∧
        ReadStep iterateDir entries file request result buffer pos := by
  have start : Taken request.buffer request.size []
      { buffer := request.buffer, size := request.size, written := 0, count := 0,
        ebufsize := false } :=
    ⟨rfl, rfl, rfl, Nat.zero_le _, trivial, fun _ _ => rfl⟩
  obtain ⟨taken, rest, split, stopped⟩ :=
    visit_fileDirReadCb file.pos (entries.drop file.pos) start rfl
  rw [List.nil_append] at stopped
  unfold fileRead fileDirRead
  rw [if_neg (by simp [readable]), if_pos isDir, if_neg asked, opened]
  dsimp only
  rw [visits]
  dsimp only
  generalize visit fileDirReadCb file.pos (entries.drop file.pos) _ = ctx at stopped
  obtain ⟨⟨size, written, count, inside, laid, outside⟩, full, ebufsize⟩ := stopped
  by_cases refused : ctx.ebufsize = true
  · obtain ⟨some, rfl⟩ := ebufsize.mp refused
    rw [if_pos refused]
    cases rest with
    | nil => exact absurd rfl some
    | cons entry rest =>
        have small := full entry rfl
        refine ⟨_, _, _, rfl, .ebufsize asked split ?_ fun i => outside i ?_⟩
        · simpa [span] using small
        · rw [written]
          exact Nat.zero_le i
  · rw [if_neg refused]
    have whole : 0 + span taken = ctx.written := by omega
    obtain ⟨linked, around⟩ := direntFixOffsets_spec laid whole
    refine ⟨_, _, _, rfl, ?_⟩
    dsimp only
    rw [count]
    generalize direntFixOffsets ctx.written 0 ctx.buffer = fixed at *
    rw [written] at inside around outside ⊢
    refine .records asked split (fun none => ?_) full inside linked fun i beyond => ?_
    · by_contra some
      exact refused (ebufsize.mpr ⟨some, none⟩)
    · rw [around i (Or.inr beyond)]
      exact outside i beyond

end Steps

section Runs

variable {σ ε : Type} {directory : Directory σ ε} {ops : Ops σ ε} {entries : List Entry}
  {file : File σ} {request : Request} {requests : List Request}

/-- The reads go on from the position of the handle. -/
structure Continues (ops : Ops σ ε) (iterateDir : IterateDir σ ε) (entries : List Entry)
    (file : File σ) (requests : List Request) : Prop where
  here : Visits iterateDir entries file.inode
  visited : ∀ answer ∈ reads ops file requests, Visits iterateDir entries answer.file.inode
  visitedAfter : Visits iterateDir entries (fileAfter ops file requests).inode
  steps : ∀ answer ∈ reads ops file requests,
    ReadStep iterateDir entries answer.file answer.request answer.result answer.buffer
      answer.after.pos
  forward : file.pos ≤ (fileAfter ops file requests).pos
  bounded : (fileAfter ops file requests).pos ≤ entries.length
  records : (reads ops file requests).flatMap Answer.records =
    ((entries.drop file.pos).take ((fileAfter ops file requests).pos - file.pos)).map Entry.seen
  complete : (∃ answer ∈ reads ops file requests, answer.result = .ok 0 ∧
    answer.request.size ≠ 0) → (fileAfter ops file requests).pos = entries.length

theorem ReadStep.forward {iterateDir : IterateDir σ ε} {result : Except (ReadError ε) Nat}
    {buffer : Memory} {pos : Nat}
    (step : ReadStep iterateDir entries file request result buffer pos) : file.pos ≤ pos := by
  cases step with
  | nothing _ => exact Nat.le_refl _
  | failed _ _ _ => exact Nat.le_refl _
  | ebufsize _ _ _ _ => exact Nat.le_refl _
  | records _ _ _ _ _ _ _ => exact Nat.le_add_right _ _

theorem ReadStep.bounded {iterateDir : IterateDir σ ε} {result : Except (ReadError ε) Nat}
    {buffer : Memory} {pos : Nat}
    (step : ReadStep iterateDir entries file request result buffer pos)
    (inside : file.pos ≤ entries.length) : pos ≤ entries.length := by
  cases step with
  | nothing _ => exact inside
  | failed _ _ _ => exact inside
  | ebufsize _ _ _ _ => exact inside
  | records _ split _ _ _ _ _ =>
      have lengths := congrArg List.length split
      rw [List.length_drop, List.length_append] at lengths
      omega

/-- The records of one answer are the entries between the two positions. -/
theorem ReadStep.records_eq {iterateDir : IterateDir σ ε} {answer : Answer σ ε}
    (step : ReadStep iterateDir entries answer.file answer.request answer.result answer.buffer
      answer.after.pos) : answer.records =
      ((entries.drop answer.file.pos).take (answer.after.pos - answer.file.pos)).map
        Entry.seen := by
  obtain ⟨request, file, result, buffer, after⟩ := answer
  unfold Answer.records
  dsimp only at step ⊢
  generalize after.pos = pos at step ⊢
  cases step with
  | nothing _ =>
      rw [Nat.sub_self]
      rfl
  | failed _ _ _ =>
      rw [Nat.sub_self]
      rfl
  | ebufsize _ _ _ _ =>
      rw [Nat.sub_self]
      rfl
  | @records _ taken rest split _ _ _ _ laid _ =>
      dsimp only
      rw [decode_eq laid rfl, split, Nat.add_sub_cancel_left, List.take_left]

/-- A result of no bytes, although something was asked for, is the end. -/
theorem ReadStep.ended {iterateDir : IterateDir σ ε} {result : Except (ReadError ε) Nat}
    {buffer : Memory} {pos : Nat}
    (step : ReadStep iterateDir entries file request result buffer pos)
    (zero : result = .ok 0) (asked : request.size ≠ 0) : entries.length ≤ file.pos := by
  cases step with
  | nothing empty => exact absurd empty asked
  | failed _ _ _ => cases zero
  | ebufsize _ _ _ _ => cases zero
  | @records _ taken rest split ended _ _ _ _ _ =>
      have none : taken = [] := span_eq_zero.mp (Except.ok.inj zero)
      rw [none, ended none, List.append_nil] at split
      exact List.drop_eq_nil_iff.mp split

/-- One read in front of the others. -/
theorem Continues.cons {iterateDir : IterateDir σ ε} (here : Visits iterateDir entries file.inode)
    (same : (answerOf ops file request).file = file)
    (asked : (answerOf ops file request).request = request)
    (step : ReadStep iterateDir entries file request (answerOf ops file request).result
      (answerOf ops file request).buffer (answerOf ops file request).after.pos)
    (rest : Continues ops iterateDir entries (answerOf ops file request).after requests) :
    Continues ops iterateDir entries file (request :: requests) := by
  have own : ReadStep iterateDir entries (answerOf ops file request).file
      (answerOf ops file request).request (answerOf ops file request).result
      (answerOf ops file request).buffer (answerOf ops file request).after.pos := by
    rwa [same, asked]
  have records := own.records_eq
  rw [same] at records
  have first := step.forward
  have onward := rest.forward
  refine
    { here
      visited := ?_
      visitedAfter := rest.visitedAfter
      steps := ?_
      forward := Nat.le_trans first onward
      bounded := rest.bounded
      records := ?_
      complete := ?_ }
  · intro answer member
    rcases List.mem_cons.mp member with rfl | later
    · rwa [same]
    · exact rest.visited answer later
  · intro answer member
    rcases List.mem_cons.mp member with rfl | later
    · exact own
    · exact rest.steps answer later
  · rw [reads, List.flatMap_cons, records, rest.records, fileAfter, ← List.map_append]
    generalize (answerOf ops file request).after.pos = middle at *
    generalize (fileAfter ops (answerOf ops file request).after requests).pos = last at *
    refine congrArg (List.map Entry.seen) ?_
    have count : last - file.pos = middle - file.pos + (last - middle) := by omega
    have behind : entries.drop middle = (entries.drop file.pos).drop (middle - file.pos) := by
      rw [List.drop_drop]
      exact congrArg (entries.drop ·) (by omega)
    rw [count, List.take_add, behind]
  · rintro ⟨answer, member, zero, some⟩
    rcases List.mem_cons.mp member with rfl | later
    · have ended := own.ended zero some
      rw [same] at ended
      have bounded := rest.bounded
      rw [fileAfter]
      omega
    · exact rest.complete ⟨answer, later, zero, some⟩

/-- A handle at the start of a directory, or at a place in one that was read. -/
def Directory.Placed (directory : Directory σ ε) (file : File σ) : Prop :=
  directory.Valid file.inode ∧
    (file.pos = 0 ∨ directory.Settled file.inode ∧
      file.pos ≤ (directory.entries file.inode).length)

theorem Directory.settled_unique {state next : σ} {found : List Entry}
    (settled : directory.Settled state)
    (visits : VisitsIn directory.iterateDir state found next) :
    next = state ∧ found = directory.entries state := by
  have own := (directory.settled state settled).collect_eq
  rw [visits.collect_eq] at own
  cases own
  exact ⟨rfl, rfl⟩

theorem answerOf_eq {result : Except (ReadError ε) Nat} {buffer : Memory} {after : File σ}
    (ran : fileRead ops file request.buffer request.size = (result, buffer, after)) :
    answerOf ops file request = { request, file, result, buffer, after } := by
  rw [answerOf, ran]

/-- From every place the reads go on to return the entries. -/
theorem Directory.continues (opened : ops.iterateDir = some directory.iterateDir)
    (readable : file.readable = true) (isDir : file.isDir = true)
    (placed : directory.Placed file) (requests : List Request) :
    ∃ entries, Continues ops directory.iterateDir entries file requests := by
  induction requests generalizing file with
  | nil =>
      obtain ⟨valid, place⟩ := placed
      have done (entries : List Entry) (visits : Visits directory.iterateDir entries file.inode)
          (inside : file.pos ≤ entries.length) :
          Continues ops directory.iterateDir entries file [] :=
        { here := visits
          visited := fun _ member => by cases member
          visitedAfter := visits
          steps := fun _ member => by cases member
          forward := Nat.le_refl _
          bounded := inside
          records := by
            rw [fileAfter, Nat.sub_self]
            rfl
          complete := fun ⟨_, member, _⟩ => by cases member }
      rcases directory.answers file.inode valid with ⟨error, next, -, fails⟩ | ⟨next, -, -, visits⟩
      · rcases place with start | ⟨settled, -⟩
        · exact ⟨[], done [] fails.visits (by simp [start])⟩
        · have own := directory.settled _ settled Unit 0 (fun _ _ _ => (true, ())) ()
          rw [fails] at own
          cases own
      · refine ⟨directory.entries next, done _ visits.visits ?_⟩
        rcases place with start | ⟨settled, inside⟩
        · simp [start]
        · rwa [(directory.settled_unique settled visits).2]
  | cons request requests inductionHypothesis =>
      obtain ⟨valid, place⟩ := placed
      by_cases asked : request.size = 0
      · have ran : fileRead ops file request.buffer request.size =
            (.ok 0, request.buffer, file) := by
          unfold fileRead fileDirRead
          rw [if_neg (by simp [readable]), if_pos isDir, if_pos asked]
        have answer := answerOf_eq ran
        obtain ⟨entries, rest⟩ := inductionHypothesis readable isDir ⟨valid, place⟩
        refine ⟨entries, .cons rest.here (by rw [answer]) (by rw [answer]) ?_ (by rwa [answer])⟩
        rw [answer]
        exact .nothing asked
      · rcases directory.answers file.inode valid with
          ⟨error, next, valid', fails⟩ | ⟨next, valid', settled', visits⟩
        · have start : file.pos = 0 := by
            rcases place with start | ⟨settled, -⟩
            · exact start
            · have own := directory.settled _ settled Unit 0 (fun _ _ _ => (true, ())) ()
              rw [fails] at own
              cases own
          have ran : fileRead ops file request.buffer request.size =
              (.error (.fs error), request.buffer, { file with inode := next }) := by
            unfold fileRead fileDirRead
            rw [if_neg (by simp [readable]), if_pos isDir, if_neg asked, opened]
            dsimp only
            rw [fails]
          have answer := answerOf_eq ran
          obtain ⟨entries, rest⟩ :=
            @inductionHypothesis { file with inode := next } readable isDir ⟨valid', Or.inl start⟩
          refine ⟨entries, .cons fails.visits (by rw [answer]) (by rw [answer]) ?_
            (by rwa [answer])⟩
          rw [answer]
          exact .failed error asked (by rw [fails])
        · obtain ⟨result, buffer, pos, ran, step⟩ :=
            fileRead_of_visits opened readable isDir visits asked
          have answer := answerOf_eq ran
          have inside : file.pos ≤ (directory.entries next).length := by
            rcases place with start | ⟨settled, inside⟩
            · simp [start]
            · rwa [(directory.settled_unique settled visits).2]
          have inside' := step.bounded inside
          obtain ⟨entries, rest⟩ := @inductionHypothesis { file with pos, inode := next }
            readable isDir ⟨valid', Or.inr ⟨settled', inside'⟩⟩
          have same : directory.entries next = entries :=
            rest.here _ _ (directory.settled next settled').collect_eq
          subst same
          refine ⟨_, .cons visits.visits (by rw [answer]) (by rw [answer]) ?_ (by rwa [answer])⟩
          rw [answer]
          exact step

/-- Successive reads of a handle return the entries of its directory in order, each once. -/
theorem Directory.enumerates (opened : ops.iterateDir = some directory.iterateDir)
    (readable : file.readable = true) (isDir : file.isDir = true) (start : file.pos = 0)
    (valid : directory.Valid file.inode) (requests : List Request) :
    ∃ entries, Enumerates ops directory.iterateDir entries file requests := by
  obtain ⟨entries, continues⟩ :=
    directory.continues opened readable isDir ⟨valid, Or.inl start⟩ requests
  refine ⟨entries, continues.here, continues.visited, continues.visitedAfter, continues.steps,
    fun answer member asked entry next small =>
      (continues.steps answer member).refused asked next small,
    continues.bounded, ?_, continues.complete⟩
  have records := continues.records
  rwa [start, Nat.sub_zero, List.drop_zero] at records

end Runs

end Opal.Dirent
