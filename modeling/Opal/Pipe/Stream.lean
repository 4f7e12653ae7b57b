import Opal.Pipe.Segments

/-!
# A pipe is a stream of bytes

The bytes accepted from writers, in the order of acceptance, are those delivered to
readers followed by those in the ring.  A call is followed from its first segment to the one
that returns: the number it gives its task is the number of bytes that these segments have
put into the ring or taken out of it, however often it blocked.
-/

namespace Opal.Pipe

section Invariant

variable {Tid : Type} [DecidableEq Tid] {s : System Tid} {tid : Tid}

/-- A call that is not finished. -/
def Op.Sound : Op → Prop
  | .read size => size ≠ 0
  | .write input written => input.length < 2 ^ 64 ∧ written < input.length

structure Streams (s : System Tid) : Prop where
  wf : s.pipe.Wf
  fifo : s.accepted = s.delivered ++ s.pipe.contents
  blocked : ∀ tid op, s.activity tid = .blocked op → op.Sound
  woken : ∀ tid op, s.activity tid = .woken op → op.Sound

omit [DecidableEq Tid] in
theorem opened_streams {readers writers : Nat} : Streams (opened readers writers : System Tid) where
  wf := ⟨Nat.zero_lt_succ _, rfl, Nat.zero_le _⟩
  fifo := rfl
  blocked := nofun
  woken := nofun

theorem Streams.setActivity {activity : Activity} (streams : Streams s)
    (blocked : ∀ op, activity = .blocked op → op.Sound)
    (woken : ∀ op, activity = .woken op → op.Sound) : Streams (s.setActivity tid activity) := by
  refine { streams with blocked := fun other op present => ?_, woken := fun other op present => ?_ }
  all_goals
    by_cases same : other = tid
    · subst same
      first
      | exact blocked op ((Function.update_self ..).symm.trans present)
      | exact woken op ((Function.update_self ..).symm.trans present)
    · first
      | exact streams.blocked other op ((Function.update_of_ne same ..).symm.trans present)
      | exact streams.woken other op ((Function.update_of_ne same ..).symm.trans present)

omit [DecidableEq Tid] in
theorem Streams.setEvent {side : Side} {event : Event Tid} (streams : Streams s) :
    Streams (s.setEvent side event) :=
  { streams with wf := ⟨streams.wf.rpos, streams.wf.wpos, streams.wf.count⟩ }

theorem Streams.signal {side : Side} (streams : Streams s) : Streams (eventSignal s side) := by
  unfold eventSignal
  split
  · exact streams.setEvent
  · rename_i tid rest _
    apply streams.setEvent.setActivity
    · intro op woken
      cases before : s.activity tid <;> rw [before] at woken <;> cases woken
    · intro op woken
      cases before : s.activity tid with
      | running => rw [before] at woken; cases woken
      | blocked op' =>
          rw [before] at woken
          cases woken
          exact streams.blocked tid op before
      | woken op' =>
          rw [before] at woken
          cases woken
          exact streams.woken tid op before

theorem Streams.block {op : Op} (streams : Streams s) (sound : op.Sound) :
    Streams (s.block tid op) := by
  apply streams.setEvent.setActivity
  · intro other same
    cases same
    exact sound
  · nofun

theorem Streams.finish {result : Int} (streams : Streams s) : Streams (s.finish tid result) := by
  have running : Streams (s.setActivity tid .running) := streams.setActivity nofun nofun
  exact { running with }

/-- A chunk moves from the ring to a reader. -/
theorem Streams.readChunk {size : Nat} (streams : Streams s) :
    Streams (readChunk s tid size) := by
  obtain ⟨pipe, out, took, length, takes⟩ := pipeReadSome_spec streams.wf size
  have taken : Streams { s with pipe := pipe, delivered := s.delivered ++ out } := by
    refine { streams with wf := takes.wf, fifo := ?_ }
    rw [streams.fifo, takes.contents, List.append_assoc]
  unfold Pipe.readChunk
  simp only [took]
  split
  · exact taken.signal.signal.finish
  · exact taken.signal.finish

/-- A chunk of a writer goes into the ring. -/
theorem Streams.announce {pipe : Pipefs Tid} {chunk : List UInt8} (streams : Streams s)
    (puts : PutsChunk s.pipe pipe chunk) : Streams (announce s pipe chunk) := by
  have put : Streams { s with pipe := pipe, accepted := s.accepted ++ chunk } := by
    refine { streams with wf := puts.wf, fifo := ?_ }
    rw [streams.fifo, puts.contents, List.append_assoc]
  unfold Pipe.announce
  dsimp only
  split
  · exact put.signal.signal
  · exact put.signal

end Invariant

section Calls

variable {Tid : Type} [DecidableEq Tid] {s : System Tid} {tid : Tid}

theorem pipeFileReadLoop_streams {size : Nat} (streams : Streams s) (some : size ≠ 0) :
    Ensures (· = .assertion) Streams (pipeFileReadLoop 2 s tid size) := by
  rw [pipeFileReadLoop_eq]
  simp only [Ensures.ok_iff]
  split
  · split
    · exact streams.signal.finish
    · exact streams.block some
  · exact streams.readChunk

theorem pipeFileWriteLoop_streams {input : List UInt8} {written : Nat} (streams : Streams s)
    (sound : (Op.write input written).Sound) :
    Ensures (· = .assertion) Streams (pipeFileWriteLoop 3 s tid input written) := by
  obtain ⟨bounded, more⟩ := sound
  obtain ⟨pipe, chunk, -, puts, loop⟩ := pipeFileWriteLoop_eq tid streams.wf bounded more
  rw [loop, Ensures.ok_iff]
  split
  · exact streams.signal.finish
  · split
    · unfold endWrite
      split
      · rename_i left
        exact (streams.announce puts).block ⟨bounded, left⟩
      · exact (streams.announce puts).finish
    · exact streams.block ⟨bounded, more⟩

theorem closeReader_streams (streams : Streams s) :
    Ensures (· = .assertion) Streams (closeReader s) := by
  unfold closeReader
  split
  · have closed : Streams { s with pipe := { s.pipe with readers := s.pipe.readers - 1 } } :=
      { streams with wf := ⟨streams.wf.rpos, streams.wf.wpos, streams.wf.count⟩ }
    exact closed.signal
  · rfl

theorem closeWriter_streams (streams : Streams s) :
    Ensures (· = .assertion) Streams (closeWriter s) := by
  unfold closeWriter
  split
  · have closed : Streams { s with pipe := { s.pipe with writers := s.pipe.writers - 1 } } :=
      { streams with wf := ⟨streams.wf.rpos, streams.wf.wpos, streams.wf.count⟩ }
    exact closed.signal
  · rfl

theorem exec_streams {call : Call Tid} (streams : Streams s) (admitted : Admits s call) :
    Ensures (· = .assertion) Streams (exec s call) := by
  cases call with
  | read tid size =>
      show Ensures _ _ (pipeFileRead s tid size)
      unfold pipeFileRead
      split
      · exact streams.finish
      · rename_i some
        exact pipeFileReadLoop_streams streams some
  | write tid input =>
      show Ensures _ _ (pipeFileWrite s tid input)
      unfold pipeFileWrite
      split
      · exact streams.finish
      · rename_i some
        exact pipeFileWriteLoop_streams streams ⟨admitted.2, Nat.pos_of_ne_zero some⟩
  | resume tid =>
      simp only [exec]
      split
      · rename_i op woken
        have sound := streams.woken tid op woken
        have running : Streams (s.setActivity tid .running) := streams.setActivity nofun nofun
        cases op with
        | read size => exact pipeFileReadLoop_streams running sound
        | write input written => exact pipeFileWriteLoop_streams running sound
      · exact streams
  | close read write =>
      have readEnd : Ensures (· = .assertion) Streams (if read then closeReader s else .ok s) := by
        split
        · exact closeReader_streams streams
        · exact streams
      refine readEnd.bind fun s' streams' => ?_
      split
      · exact closeWriter_streams streams'
      · exact streams'

end Calls

section Segments

variable {Tid : Type} {s after : System Tid} {tid other : Tid} {chunk out : List UInt8}

/-- The call that a task is in the middle of. -/
def Activity.pending : Activity → Option Op
  | .running => none
  | .blocked op => some op
  | .woken op => some op

@[simp]
theorem Activity.pending_wake (activity : Activity) : activity.wake.pending = activity.pending := by
  cases activity <;> rfl

/-- The task that a segment belongs to. -/
def Call.task : Call Tid → Option Tid
  | .read tid _ => some tid
  | .write tid _ => some tid
  | .resume tid => some tid
  | .close _ _ => none

/-- The bytes that are accepted and delivered from one state to another. -/
structure Adds (s after : System Tid) (chunk out : List UInt8) : Prop where
  accepted : after.accepted = s.accepted ++ chunk
  delivered : after.delivered = s.delivered ++ out

/-- How a segment of a task ends. -/
inductive Ending where
  | pending (op : Op)
  | returned (result : Int)

/-- A segment of a task: the calls of the other tasks are as they were. -/
structure Segment (s : System Tid) (tid : Tid) (chunk out : List UInt8) (ending : Ending)
    (after : System Tid) : Prop extends Adds s after chunk out where
  others : ∀ other ≠ tid, (after.activity other).pending = (s.activity other).pending
  ends : match ending with
    | .pending op => after.returns = s.returns ∧ (after.activity tid).pending = some op
    | .returned result =>
        after.returns = (tid, result) :: s.returns ∧ (after.activity tid).pending = none

variable [DecidableEq Tid]

@[simp]
theorem eventSignal_accepted (side : Side) : (eventSignal s side).accepted = s.accepted := by
  obtain ⟨_, _, same⟩ := eventSignal_eq s side
  rw [same]

@[simp]
theorem eventSignal_delivered (side : Side) : (eventSignal s side).delivered = s.delivered := by
  obtain ⟨_, _, same⟩ := eventSignal_eq s side
  rw [same]

@[simp]
theorem eventSignal_returns (side : Side) : (eventSignal s side).returns = s.returns := by
  obtain ⟨_, _, same⟩ := eventSignal_eq s side
  rw [same]

@[simp]
theorem eventSignal_pending (side : Side) :
    ((eventSignal s side).activity tid).pending = (s.activity tid).pending := by
  unfold eventSignal
  split
  · rfl
  · rename_i first rest _
    unfold System.setActivity
    dsimp only
    by_cases same : tid = first
    · rw [same, Function.update_self]
      exact Activity.pending_wake _
    · rw [Function.update_of_ne same]
      rfl

theorem finish_segment {result : Int} (adds : Adds s after chunk out)
    (others : ∀ other, (after.activity other).pending = (s.activity other).pending)
    (returns : after.returns = s.returns) :
    Segment s tid chunk out (.returned result) (after.finish tid result) where
  accepted := adds.accepted
  delivered := adds.delivered
  others := fun other differs => by
    rw [← others other]
    exact congrArg Activity.pending (Function.update_of_ne differs ..)
  ends := by
    refine ⟨congrArg (List.cons _) returns, ?_⟩
    unfold System.finish System.setActivity
    dsimp only
    rw [Function.update_self]
    rfl

theorem block_segment {op : Op} (adds : Adds s after chunk out)
    (others : ∀ other, (after.activity other).pending = (s.activity other).pending)
    (returns : after.returns = s.returns) :
    Segment s tid chunk out (.pending op) (after.block tid op) where
  accepted := adds.accepted
  delivered := adds.delivered
  others := fun other differs => by
    rw [← others other]
    exact congrArg Activity.pending (Function.update_of_ne differs ..)
  ends := by
    refine ⟨returns, ?_⟩
    unfold System.block System.setActivity
    dsimp only
    rw [Function.update_self]
    rfl

/-- How a segment of a call ends that puts `chunk` into the ring or takes `out` out of it: a read
blocks, or it returns what it takes, which is nothing only at the end of the stream; a write goes
on later, or it returns the number of all its bytes so far, unless it fails. -/
inductive Ends (pipe : Pipefs Tid) : Op → List UInt8 → List UInt8 → Ending → Prop where
  | readBlocks {size : Nat} : Ends pipe (.read size) [] [] (.pending (.read size))
  | reads {size : Nat} {out : List UInt8} (le : out.length ≤ size)
      (atEnd : size ≠ 0 → out = [] → pipe.count = 0 ∧ pipe.writers = 0) :
      Ends pipe (.read size) [] out (.returned out.length)
  | writeBlocks {input chunk : List UInt8} {written : Nat} (first : chunk <+: input.drop written) :
      Ends pipe (.write input written) chunk []
        (.pending (.write input (written + chunk.length)))
  | writes {input chunk : List UInt8} {written : Nat} {result : Int}
      (first : chunk <+: input.drop written)
      (total : 0 ≤ result → result = (written + chunk.length : Nat)) :
      Ends pipe (.write input written) chunk [] (.returned result)

theorem readChunk_segment (tid : Tid) (size : Nat) (wf : s.pipe.Wf)
    (available : s.pipe.count ≠ 0) : ∃ out ending,
      Segment s tid [] out ending (readChunk s tid size) ∧
      Ends s.pipe (.read size) [] out ending := by
  obtain ⟨pipe, out, took, length, takes⟩ := pipeReadSome_spec wf size
  have le : out.length ≤ size := length ▸ Nat.min_le_left _ _
  have atEnd : size ≠ 0 → out = [] → s.pipe.count = 0 ∧ s.pipe.writers = 0 := by
    rintro some rfl
    rw [List.length_nil] at length
    omega
  refine ⟨out, _, ?_, .reads le atEnd⟩
  unfold readChunk
  simp only [took, length]
  split
  · exact finish_segment ⟨by simp, by simp⟩ (by simp) (by simp)
  · exact finish_segment ⟨by simp, by simp⟩ (by simp) (by simp)

theorem pipeFileReadLoop_segment (s : System Tid) (tid : Tid) (size : Nat) (wf : s.pipe.Wf) :
    ∃ after out ending, pipeFileReadLoop 2 s tid size = .ok after ∧
      Segment s tid [] out ending after ∧ Ends s.pipe (.read size) [] out ending := by
  rw [pipeFileReadLoop_eq]
  split
  · rename_i empty
    split
    · rename_i none
      exact ⟨_, [], _, rfl, finish_segment ⟨by simp, by simp⟩ (by simp) (by simp),
        .reads (Nat.zero_le _) fun _ _ => ⟨empty, none⟩⟩
    · exact ⟨_, [], _, rfl, block_segment ⟨by simp, by simp⟩ (by simp) rfl, .readBlocks⟩
  · rename_i available
    obtain ⟨out, ending, segment, ends⟩ := readChunk_segment tid size wf available
    exact ⟨_, out, ending, rfl, segment, ends⟩

theorem announce_adds {pipe : Pipefs Tid} : Adds s (announce s pipe chunk) chunk [] := by
  unfold announce
  dsimp only
  split <;> exact ⟨by simp, by simp⟩

@[simp]
theorem announce_pending {pipe : Pipefs Tid} :
    ((announce s pipe chunk).activity tid).pending = (s.activity tid).pending := by
  unfold announce
  dsimp only
  split <;> simp

@[simp]
theorem announce_returns {pipe : Pipefs Tid} : (announce s pipe chunk).returns = s.returns := by
  unfold announce
  dsimp only
  split <;> simp

theorem toSsize_eq {n : Nat} (bounded : n < 2 ^ 64) (nonnegative : 0 ≤ toSsize n) :
    toSsize n = n := by
  unfold toSsize at *
  split at nonnegative <;> split <;> omega

theorem pipeFileWriteLoop_segment {input : List UInt8} {written : Nat} (s : System Tid)
    (tid : Tid) (wf : s.pipe.Wf) (sound : (Op.write input written).Sound) :
    ∃ after chunk ending, pipeFileWriteLoop 3 s tid input written = .ok after ∧
      Segment s tid chunk [] ending after ∧ Ends s.pipe (.write input written) chunk [] ending := by
  obtain ⟨bounded, more⟩ := sound
  obtain ⟨pipe, chunk, sameChunk, puts, loop⟩ := pipeFileWriteLoop_eq tid wf bounded more
  have first : chunk <+: input.drop written := sameChunk ▸ List.take_prefix _ _
  have fits : written + chunk.length ≤ input.length := by
    have length := first.length_le
    rw [List.length_drop] at length
    omega
  rw [loop]
  split
  · refine ⟨_, [], _, rfl, finish_segment ⟨by simp, by simp⟩ (by simp) (by simp),
      .writes List.nil_prefix fun nonnegative => ?_⟩
    split at nonnegative
    · rename_i positive
      rw [if_pos positive]
      exact toSsize_eq (by omega) nonnegative
    · exact absurd nonnegative (by decide)
  · split
    · unfold endWrite
      split
      · exact ⟨_, chunk, _, rfl, block_segment announce_adds (by simp) (by simp),
          .writeBlocks first⟩
      · exact ⟨_, chunk, _, rfl, finish_segment announce_adds (by simp) (by simp),
          .writes first (toSsize_eq (by omega))⟩
    · exact ⟨_, [], _, rfl, block_segment ⟨by simp, by simp⟩ (by simp) rfl,
        .writeBlocks List.nil_prefix⟩

end Segments

section Ongoing

variable {Tid : Type} [DecidableEq Tid] {init s after later : System Tid} {tid : Tid}
variable {call first : Call Tid} {op : Op} {put got chunk out : List UInt8}

/-- The call that the next segment of a task belongs to. -/
inductive Next (s : System Tid) (tid : Tid) : Call Tid → Op → Prop where
  | read (size : Nat) : Next s tid (.read tid size) (.read size)
  | write (input : List UInt8) : Next s tid (.write tid input) (.write input 0)
  | resume {op : Op} (pending : (s.activity tid).pending = some op) : Next s tid (.resume tid) op

/-- A call of a task in a run, with its next segment and what its segments so far have put into
the ring and taken out of it.  Other tasks may run between two of them. -/
inductive Ongoing (init : System Tid) (tid : Tid) (first : Call Tid) :
    System Tid → Call Tid → List UInt8 → List UInt8 → Prop where
  | begins {s : System Tid} (reached : Reaches exec Admits init s) :
      Ongoing init tid first s first [] []
  | goesOn {s after later : System Tid} {call : Call Tid} {put got chunk out : List UInt8}
      (ongoing : Ongoing init tid first s call put got) (admitted : Admits s call)
      (ran : exec s call = .ok after) (inside : after.returns = s.returns)
      (adds : Adds s after chunk out)
      (meanwhile : Reaches exec (fun s call => Admits s call ∧ call ≠ .resume tid) after later) :
      Ongoing init tid first later (.resume tid) (put ++ chunk) (got ++ out)

theorem Segment.setActivity {activity : Activity} {ending : Ending}
    (segment : Segment (s.setActivity tid activity) tid chunk out ending after) :
    Segment s tid chunk out ending after where
  accepted := segment.accepted
  delivered := segment.delivered
  others := fun other differs => by
    rw [segment.others other differs]
    exact congrArg Activity.pending (Function.update_of_ne differs ..)
  ends := by
    have ends := segment.ends
    cases ending <;> exact ends

/-- What the next segment of a call does. -/
theorem Next.segment (next : Next s tid call op) (streams : Streams s) (admitted : Admits s call) :
    ∃ after chunk out ending, exec s call = .ok after ∧ Segment s tid chunk out ending after ∧
      Ends s.pipe op chunk out ending := by
  cases next with
  | read size =>
      simp only [exec, pipeFileRead]
      split
      · rename_i none
        exact ⟨_, [], [], _, rfl, finish_segment ⟨by simp, by simp⟩ (by simp) rfl,
          .reads (Nat.zero_le _) fun some => absurd none some⟩
      · obtain ⟨after, out, ending, ran, segment, ends⟩ :=
          pipeFileReadLoop_segment s tid size streams.wf
        exact ⟨after, [], out, ending, ran, segment, ends⟩
  | write input =>
      simp only [exec, pipeFileWrite]
      split
      · rename_i none
        exact ⟨_, [], [], _, rfl, finish_segment ⟨by simp, by simp⟩ (by simp) rfl,
          .writes List.nil_prefix fun _ => rfl⟩
      · rename_i some
        obtain ⟨after, chunk, ending, ran, segment, ends⟩ :=
          pipeFileWriteLoop_segment s tid streams.wf ⟨admitted.2, Nat.pos_of_ne_zero some⟩
        exact ⟨after, chunk, [], ending, ran, segment, ends⟩
  | resume pending =>
      cases activity : s.activity tid with
      | running =>
          rw [activity] at pending
          cases pending
      | blocked op' =>
          rw [activity] at pending
          cases pending
          refine ⟨s, [], [], .pending op, by simp only [exec, activity],
            ⟨⟨by simp, by simp⟩, fun _ _ => rfl, rfl, by rw [activity]; rfl⟩, ?_⟩
          cases op with
          | read size => exact .readBlocks
          | write input written => exact .writeBlocks List.nil_prefix
      | woken op' =>
          rw [activity] at pending
          cases pending
          have sound := streams.woken tid op activity
          simp only [exec, activity]
          cases op with
          | read size =>
              obtain ⟨after, out, ending, ran, segment, ends⟩ :=
                pipeFileReadLoop_segment (s.setActivity tid .running) tid size streams.wf
              exact ⟨after, [], out, ending, ran, segment.setActivity, ends⟩
          | write input written =>
              obtain ⟨after, chunk, ending, ran, segment, ends⟩ :=
                pipeFileWriteLoop_segment (s.setActivity tid .running) tid streams.wf sound
              exact ⟨after, chunk, [], ending, ran, segment.setActivity, ends⟩

omit [DecidableEq Tid] in
theorem Adds.unique {chunk' out' : List UInt8} (adds : Adds s after chunk out)
    (adds' : Adds s after chunk' out') : chunk' = chunk ∧ out' = out :=
  ⟨List.append_cancel_left (adds'.accepted.symm.trans adds.accepted),
    List.append_cancel_left (adds'.delivered.symm.trans adds.delivered)⟩

/-- The end of the stream is the only place where a call of a task may return. -/
theorem Next.returned {result : Int} (next : Next s tid call op) (streams : Streams s)
    (admitted : Admits s call) (ran : exec s call = .ok after) (adds : Adds s after chunk out)
    (returned : after.returns = (tid, result) :: s.returns) :
    Ends s.pipe op chunk out (.returned result) := by
  obtain ⟨_, chunk', out', ending, ran', segment, ends⟩ := next.segment streams admitted
  cases ran.symm.trans ran'
  obtain ⟨rfl, rfl⟩ := adds.unique segment.toAdds
  have ended := segment.ends
  cases ending with
  | pending op' =>
      have length := congrArg List.length (returned.symm.trans ended.1)
      rw [List.length_cons] at length
      omega
  | returned result' =>
      cases returned.symm.trans ended.1
      exact ends

theorem Next.goesOn (next : Next s tid call op) (streams : Streams s) (admitted : Admits s call)
    (ran : exec s call = .ok after) (inside : after.returns = s.returns)
    (adds : Adds s after chunk out) :
    ∃ op', Ends s.pipe op chunk out (.pending op') ∧ (after.activity tid).pending = some op' := by
  obtain ⟨_, chunk', out', ending, ran', segment, ends⟩ := next.segment streams admitted
  cases ran.symm.trans ran'
  obtain ⟨rfl, rfl⟩ := adds.unique segment.toAdds
  have ended := segment.ends
  cases ending with
  | pending op' => exact ⟨op', ends, ended.2⟩
  | returned result =>
      have length := congrArg List.length (inside.symm.trans ended.1)
      rw [List.length_cons] at length
      omega

/-- The bytes, the results and the calls in progress are as they were. -/
structure Keeps (s after : System Tid) : Prop extends Adds s after [] [] where
  returns : after.returns = s.returns
  pending : ∀ other, (after.activity other).pending = (s.activity other).pending

omit [DecidableEq Tid] in
theorem Keeps.refl : Keeps s s := ⟨⟨by simp, by simp⟩, rfl, fun _ => rfl⟩

theorem closeReader_keeps (ran : closeReader s = .ok after) : Keeps s after := by
  unfold closeReader at ran
  split at ran
  · cases ran
    exact ⟨⟨by simp, by simp⟩, by simp, by simp⟩
  · cases ran

theorem closeWriter_keeps (ran : closeWriter s = .ok after) : Keeps s after := by
  unfold closeWriter at ran
  split at ran
  · cases ran
    exact ⟨⟨by simp, by simp⟩, by simp, by simp⟩
  · cases ran

theorem pipeFileClose_keeps {read write : Bool} (ran : pipeFileClose s read write = .ok after) :
    Keeps s after := by
  have first : Ensures (fun _ => True) (Keeps s) (if read then closeReader s else .ok s) := by
    split
    · cases closed : closeReader s with
      | error stop => trivial
      | ok mid => exact closeReader_keeps closed
    · exact Keeps.refl
  refine (first.bind fun mid keeps => ?_).of_ok ran
  split
  · cases closed : closeWriter mid with
    | error stop => trivial
    | ok last =>
        have further := closeWriter_keeps closed
        exact
          { accepted := further.accepted.trans (by rw [keeps.accepted, List.append_assoc]; rfl)
            delivered := further.delivered.trans (by rw [keeps.delivered, List.append_assoc]; rfl)
            returns := further.returns.trans keeps.returns
            pending := fun other => (further.pending other).trans (keeps.pending other) }
  · exact keeps

/-- What every segment does to the bytes of the pipe, to the other tasks and to their results. -/
structure Moves (s : System Tid) (call : Call Tid) (after : System Tid) : Prop where
  adds : ∃ chunk out, Adds s after chunk out
  others : ∀ other, call.task ≠ some other →
    (after.activity other).pending = (s.activity other).pending
  returns : after.returns = s.returns ∨
    ∃ tid result, call.task = some tid ∧ after.returns = (tid, result) :: s.returns

theorem Next.moves (next : Next s tid call op) (streams : Streams s) (admitted : Admits s call)
    (ran : exec s call = .ok after) : Moves s call after := by
  have task : call.task = some tid := by cases next <;> rfl
  obtain ⟨_, chunk, out, ending, ran', segment, ends⟩ := next.segment streams admitted
  cases ran.symm.trans ran'
  refine ⟨⟨chunk, out, segment.toAdds⟩, fun other differs => segment.others other ?_, ?_⟩
  · rintro rfl
    exact differs task
  · have ended := segment.ends
    cases ending with
    | pending op => exact .inl ended.1
    | returned result => exact .inr ⟨tid, result, task, ended.1⟩

theorem exec_moves (streams : Streams s) (admitted : Admits s call)
    (ran : exec s call = .ok after) : Moves s call after := by
  cases call with
  | read tid size => exact (Next.read size).moves streams admitted ran
  | write tid input => exact (Next.write input).moves streams admitted ran
  | resume tid =>
      cases pending : (s.activity tid).pending with
      | some op => exact (Next.resume pending).moves streams admitted ran
      | none =>
          cases activity : s.activity tid <;> rw [activity] at pending <;> cases pending
          simp only [exec, activity] at ran
          cases ran
          exact ⟨⟨[], [], by simp, by simp⟩, fun _ _ => rfl, .inl rfl⟩
  | close read write =>
      have keeps := pipeFileClose_keeps ran
      exact ⟨⟨[], [], keeps.toAdds⟩, fun other _ => keeps.pending other, .inl keeps.returns⟩

theorem Reaches.streams {readers writers : Nat}
    (reached : Reaches exec Admits (opened readers writers) s) : Streams s :=
  reached.invariant opened_streams fun _ _ streams admitted => exec_streams streams admitted

theorem Ongoing.reached (ongoing : Ongoing init tid first s call put got) :
    Reaches exec Admits init s := by
  induction ongoing with
  | begins reached => exact reached
  | goesOn _ admitted ran _ _ meanwhile reached =>
      exact (reached.step admitted ran).extend (fun _ _ => And.left) meanwhile

omit [DecidableEq Tid] in
/-- A task with a call in progress makes no other one. -/
theorem task_ne (admitted : Admits s call) (other : call ≠ .resume tid)
    (pending : (s.activity tid).pending = some op) : call.task ≠ some tid := by
  intro same
  cases call with
  | read tid' size =>
      cases same
      rw [admitted.1] at pending
      cases pending
  | write tid' input =>
      cases same
      rw [admitted.1] at pending
      cases pending
  | resume tid' =>
      cases same
      exact other rfl
  | close read write => cases same

theorem pending_meanwhile (streams : Streams s) (pending : (s.activity tid).pending = some op)
    (meanwhile : Reaches exec (fun s call => Admits s call ∧ call ≠ .resume tid) s later) :
    Streams later ∧ (later.activity tid).pending = some op := by
  induction meanwhile with
  | start => exact ⟨streams, pending⟩
  | step _ admitted ran inductionHypothesis =>
      obtain ⟨streams, pending⟩ := inductionHypothesis
      have moves := exec_moves streams admitted.1 ran
      refine ⟨(exec_streams streams admitted.1).of_ok ran, ?_⟩
      rw [moves.others tid (task_ne admitted.1 admitted.2 pending), pending]

theorem append_chunk {input : List UInt8} (before : put <+: input)
    (first : chunk <+: input.drop put.length) : put ++ chunk <+: input := by
  obtain ⟨rest, rfl⟩ := before
  rw [List.drop_left] at first
  exact (List.prefix_append_right_inj _).mpr first

variable {readers writers : Nat}

/-- Between its segments a write is at the byte after those that it has put into the ring. -/
theorem Ongoing.write {input : List UInt8}
    (ongoing : Ongoing (opened readers writers) tid (.write tid input) s call put got) :
    Next s tid call (.write input put.length) ∧ put <+: input := by
  induction ongoing with
  | begins reached =>
      exact ⟨.write input, List.nil_prefix⟩
  | goesOn ongoing admitted ran inside adds meanwhile inductionHypothesis =>
      obtain ⟨next, before⟩ := inductionHypothesis
      have streams := Reaches.streams ongoing.reached
      obtain ⟨op, ends, pending⟩ := next.goesOn streams admitted ran inside adds
      have moved : Streams _ := (exec_streams streams admitted).of_ok ran
      have kept := (pending_meanwhile moved pending meanwhile).2
      cases ends with
      | writeBlocks chunk =>
          rw [List.length_append]
          refine ⟨.resume kept, ?_⟩
          exact append_chunk before chunk

theorem Ongoing.read {size : Nat}
    (ongoing : Ongoing (opened readers writers) tid (.read tid size) s call put got) :
    Next s tid call (.read size) ∧ got = [] := by
  induction ongoing with
  | begins reached =>
      exact ⟨.read size, rfl⟩
  | goesOn ongoing admitted ran inside adds meanwhile inductionHypothesis =>
      obtain ⟨next, before⟩ := inductionHypothesis
      have streams := Reaches.streams ongoing.reached
      obtain ⟨op, ends, pending⟩ := next.goesOn streams admitted ran inside adds
      have moved : Streams _ := (exec_streams streams admitted).of_ok ran
      have kept := (pending_meanwhile moved pending meanwhile).2
      cases ends with
      | readBlocks => exact ⟨.resume kept, by rw [before]; rfl⟩

/-- A call of a task that reads or writes. -/
def Call.Begins (tid : Tid) (first : Call Tid) : Prop :=
  (∃ input, first = .write tid input) ∨ ∃ size, first = .read tid size

/-- A segment of a task belongs to a call, or it does nothing. -/
theorem exists_next (reached : Reaches exec Admits init s) (task : call.task = some tid)
    (before : ∀ op, (s.activity tid).pending = some op → ∃ first put got,
      Call.Begins tid first ∧ Ongoing init tid first s (.resume tid) put got) :
    (∃ first put got op, Call.Begins tid first ∧ Ongoing init tid first s call put got ∧
      Next s tid call op) ∨ (s.activity tid).pending = none ∧ exec s call = .ok s := by
  cases call with
  | read tid' size =>
      cases task
      exact .inl ⟨_, _, _, _, .inr ⟨size, rfl⟩, .begins reached, .read size⟩
  | write tid' input =>
      cases task
      exact .inl ⟨_, _, _, _, .inl ⟨input, rfl⟩, .begins reached, .write input⟩
  | resume tid' =>
      cases task
      cases pending : (s.activity tid).pending with
      | some op =>
          obtain ⟨first, put, got, begins, ongoing⟩ := before op pending
          exact .inl ⟨first, put, got, op, begins, ongoing, .resume pending⟩
      | none =>
          refine .inr ⟨rfl, ?_⟩
          cases activity : s.activity tid <;> rw [activity] at pending <;> cases pending
          simp only [exec, activity]
  | close read write => cases task

/-- Every call in progress is followed from its first segment. -/
theorem exists_ongoing (reached : Reaches exec Admits (opened readers writers) s) :
    ∀ op, (s.activity tid).pending = some op → ∃ first put got, Call.Begins tid first ∧
      Ongoing (opened readers writers) tid first s (.resume tid) put got := by
  induction reached with
  | start => nofun
  | @step s after call reached admitted ran inductionHypothesis =>
      intro op pending
      have streams := Reaches.streams reached
      have moves := exec_moves streams admitted ran
      by_cases task : call.task = some tid
      · rcases exists_next reached task inductionHypothesis with
          ⟨first, put, got, op', begins, ongoing, next⟩ | ⟨none, same⟩
        · obtain ⟨_, chunk, out, ending, ran', segment, -⟩ := next.segment streams admitted
          cases ran.symm.trans ran'
          have ended := segment.ends
          cases ending with
          | pending op'' =>
              exact ⟨first, _, _, begins,
                .goesOn ongoing admitted ran ended.1 segment.toAdds .start⟩
          | returned result => cases ended.2.symm.trans pending
        · cases ran.symm.trans same
          cases none.symm.trans pending
      · rw [moves.others tid task] at pending
        obtain ⟨first, put, got, begins, ongoing⟩ := inductionHypothesis op pending
        refine ⟨first, put, got, begins, ?_⟩
        cases ongoing with
        | begins => rcases begins with ⟨input, same⟩ | ⟨size, same⟩ <;> cases same
        | goesOn ongoing admitted' ran' inside adds meanwhile =>
            refine .goesOn ongoing admitted' ran' inside adds
              (meanwhile.step ⟨admitted, fun same => task ?_⟩ ran)
            rw [same]
            rfl

/-- In every state that calls of any tasks in any order reach, the bytes delivered to readers
are the first ones accepted from writers and the ring holds the others.  What a call returns from
there is what all its segments, from the first to this last one, have put into the ring or taken
out of it, unless it is a write that fails; a read of some bytes returns none of them only if the
pipe is empty and has no writers. -/
theorem run_byteStream (reached : Reaches exec Admits (opened readers writers) s) :
    s.accepted = s.delivered ++ s.pipe.contents ∧
      s.pipe.wpos = (s.pipe.rpos + s.pipe.count) % pipeBuflen ∧ s.pipe.rpos < pipeBuflen ∧
      s.pipe.count ≤ pipeBuflen ∧
      ∀ call after, Admits s call → exec s call = .ok after → ∃ chunk out,
        Adds s after chunk out ∧
        (after.returns = s.returns ∨ ∃ tid result first put got,
          after.returns = (tid, result) :: s.returns ∧ Call.Begins tid first ∧
            Ongoing (opened readers writers) tid first s call put got) ∧
        (∀ tid input put got result,
          Ongoing (opened readers writers) tid (.write tid input) s call put got →
          after.returns = (tid, result) :: s.returns → 0 ≤ result →
            result = (put ++ chunk).length ∧ put ++ chunk <+: input) ∧
        ∀ tid size put got result,
          Ongoing (opened readers writers) tid (.read tid size) s call put got →
          after.returns = (tid, result) :: s.returns →
            result = (got ++ out).length ∧ (got ++ out).length ≤ size ∧
              (size ≠ 0 → result = 0 → s.pipe.count = 0 ∧ s.pipe.writers = 0) := by
  have streams := Reaches.streams reached
  refine ⟨streams.fifo, streams.wf.wpos, streams.wf.rpos, streams.wf.count, ?_⟩
  intro call after admitted ran
  have moves := exec_moves streams admitted ran
  obtain ⟨chunk, out, adds⟩ := moves.adds
  refine ⟨chunk, out, adds, ?_, ?_, ?_⟩
  · rcases moves.returns with same | ⟨tid, result, task, returned⟩
    · exact .inl same
    · rcases exists_next reached task fun op => exists_ongoing reached op with
        ⟨first, put, got, -, begins, ongoing, -⟩ | ⟨-, same⟩
      · exact .inr ⟨tid, result, first, put, got, returned, begins, ongoing⟩
      · cases ran.symm.trans same
        exact .inl rfl
  · intro tid input put got result ongoing returned nonnegative
    obtain ⟨next, before⟩ := ongoing.write
    cases next.returned streams admitted ran adds returned with
    | writes first total =>
        refine ⟨(total nonnegative).trans (congrArg _ List.length_append.symm), ?_⟩
        exact append_chunk before first
  · intro tid size put got result ongoing returned
    obtain ⟨next, rfl⟩ := ongoing.read
    cases next.returned streams admitted ran adds returned with
    | reads le atEnd =>
        rw [List.nil_append]
        refine ⟨rfl, le, fun some none => atEnd some (List.eq_nil_of_length_eq_zero ?_)⟩
        omega

/-- While a reader is blocked, a writer puts three bytes and closes its end, and another reader
takes them all. -/
def sharedEnd : List (Call Nat) := [.write 1 [10, 20, 30], .close false true, .read 2 5]

theorem run_byteStream_sharedEnd : ∃ blocked s after : System Nat,
    exec (opened 1 1) (.read 0 2) = .ok blocked ∧
      runFrom exec (fun s call => Admits s call ∧ call ≠ .resume 0) blocked sharedEnd = some s ∧
      exec s (.resume 0) = .ok after ∧ after.returns = (0, 0) :: s.returns ∧
      s.accepted = s.delivered ++ s.pipe.contents ∧ s.pipe.count = 0 ∧ s.pipe.writers = 0 := by
  have blocks : exec (opened 1 1) (.read 0 2) = .ok (System.block (opened 1 1) 0 (.read 2)) := rfl
  have runs : ((runFrom exec (fun s call => Admits s call ∧ call ≠ .resume 0)
      (System.block (opened 1 1) 0 (.read 2)) sharedEnd).any fun s =>
        match exec s (.resume 0) with
        | .ok after => decide (after.returns = (0, 0) :: s.returns)
        | .error _ => false) = true := by decide +kernel
  obtain ⟨s, ran, returns⟩ := (Option.any_eq_true _ _).mp runs
  split at returns
  · rename_i after ended
    have meanwhile := Reaches.start.of_runFrom ran
    have ongoing : Ongoing (opened 1 1) 0 (.read 0 2) s (.resume 0) ([] ++ []) ([] ++ []) :=
      .goesOn (.begins .start) (by decide) blocks rfl ⟨rfl, rfl⟩ meanwhile
    obtain ⟨fifo, -, -, -, calls⟩ := run_byteStream ongoing.reached
    obtain ⟨chunk, out, -, -, -, reads⟩ := calls (.resume 0) after trivial ended
    obtain ⟨-, -, atEnd⟩ := reads 0 2 _ _ 0 ongoing (of_decide_eq_true returns)
    exact ⟨_, s, after, blocks, ran, ended, of_decide_eq_true returns, fifo, atEnd (by decide) rfl⟩
  · cases returns

end Ongoing

end Opal.Pipe
