import Opal.Pipe.Operations

/-!
# What a segment of a call does

The copies move bytes between a call and the window of the ring.  A segment of a read
returns nothing, blocks or takes a chunk; a segment of a write gives up, blocks, or puts a
chunk and then returns or blocks.  No loop goes on for longer.
-/

namespace Opal.Pipe

section Copies

variable {Tid : Type} {pipe : Pipefs Tid}

/-- The bytes in the ring, from the next one to read on. -/
def Pipefs.contents (pipe : Pipefs Tid) : List UInt8 :=
  Ring.window pipeBuflen pipe.buffer pipe.rpos pipe.count

/-- The positions and the count of the ring agree. -/
structure Pipefs.Wf (pipe : Pipefs Tid) : Prop where
  rpos : pipe.rpos < pipeBuflen
  wpos : pipe.wpos = (pipe.rpos + pipe.count) % pipeBuflen
  count : pipe.count ≤ pipeBuflen

/-- The step of a position in 16-bit arithmetic goes around the ring. -/
theorem advance_eq {pos : Nat} (inside : pos < pipeBuflen) :
    (if (pos + 1) % 2 ^ 16 ≥ pipeBuflen then 0 else (pos + 1) % 2 ^ 16) =
      (pos + 1) % pipeBuflen := by
  unfold pipeBuflen at *
  split <;> omega

theorem readSomeLoop_eq (left : Nat) (out : List UInt8) (inside : pipe.rpos < pipeBuflen) :
    readSomeLoop left pipe out =
      ({ pipe with rpos := (pipe.rpos + left) % pipeBuflen },
        out ++ Ring.window pipeBuflen pipe.buffer pipe.rpos left) := by
  induction left generalizing pipe out with
  | zero =>
      rw [Ring.window_zero, List.append_nil, Nat.add_zero, Nat.mod_eq_of_lt inside]
      rfl
  | succ left inductionHypothesis =>
      have next : (pipe.rpos + 1) % pipeBuflen < pipeBuflen := Nat.mod_lt _ (by decide)
      rw [readSomeLoop, advance_eq inside, inductionHypothesis _ next, Ring.window_succ inside,
        List.append_assoc, Nat.mod_add_mod, Nat.add_assoc, Nat.add_comm 1 left]
      rfl

/-- The loop leaves the rest of the ring as it was. -/
theorem writeSomeLoop_eq (bytes : List UInt8) (inside : pipe.wpos < pipeBuflen) :
    ∃ buffer, writeSomeLoop bytes pipe =
        { pipe with buffer := buffer, wpos := (pipe.wpos + bytes.length) % pipeBuflen } ∧
      ∀ start count, pipe.wpos = (start + count) % pipeBuflen →
        count + bytes.length ≤ pipeBuflen →
        Ring.window pipeBuflen buffer start (count + bytes.length) =
          Ring.window pipeBuflen pipe.buffer start count ++ bytes := by
  induction bytes generalizing pipe with
  | nil =>
      refine ⟨pipe.buffer, ?_, fun start count _ _ => (List.append_nil _).symm⟩
      rw [List.length_nil, Nat.add_zero, Nat.mod_eq_of_lt inside]
      rfl
  | cons byte rest inductionHypothesis =>
      have next : Pipefs.wpos { pipe with buffer := Function.update pipe.buffer pipe.wpos byte
                                          wpos := (pipe.wpos + 1) % pipeBuflen } < pipeBuflen :=
        Nat.mod_lt _ (by decide)
      obtain ⟨buffer, same, windows⟩ := inductionHypothesis next
      refine ⟨buffer, ?_, fun start count position room => ?_⟩
      · rw [writeSomeLoop, advance_eq inside, same, List.length_cons, Nat.mod_add_mod,
          Nat.add_assoc, Nat.add_comm 1]
      · rw [List.length_cons] at room
        have position' : (pipe.wpos + 1) % pipeBuflen = (start + (count + 1)) % pipeBuflen := by
          rw [position, Nat.mod_add_mod, Nat.add_assoc]
        have pushed := windows start (count + 1) position' (by omega)
        rw [List.length_cons, Nat.add_comm rest.length 1, ← Nat.add_assoc, pushed]
        simp only [position]
        rw [Ring.window_push (by omega), List.append_assoc, List.singleton_append]

/-- What `pipe_read_some` does to a pipe: the chunk comes from the front of the ring. -/
structure TakesChunk (pipe after : Pipefs Tid) (out : List UInt8) : Prop where
  wf : after.Wf
  contents : pipe.contents = out ++ after.contents
  count : pipe.count = out.length + after.count
  readers : after.readers = pipe.readers
  writers : after.writers = pipe.writers
  event : after.event = pipe.event

theorem pipeReadSome_spec (wf : pipe.Wf) (size : Nat) :
    ∃ after out, pipeReadSome pipe size = (after, out, min size pipe.count) ∧
      out.length = min size pipe.count ∧ TakesChunk pipe after out := by
  have bounded : pipe.count ≤ 4000 := wf.count
  have toRead : (if size < pipe.count then size % 2 ^ 16 else pipe.count) =
    min size pipe.count := by
    split <;> omega
  obtain ⟨left, whole⟩ := Nat.exists_eq_add_of_le (Nat.min_le_right size pipe.count)
  have count : (pipe.count + 2 ^ 16 - min size pipe.count) % 2 ^ 16 = left := by omega
  refine ⟨{ pipe with rpos := (pipe.rpos + min size pipe.count) % pipeBuflen, count := left },
    Ring.window pipeBuflen pipe.buffer pipe.rpos (min size pipe.count), ?_, Ring.length_window, ?_⟩
  · rw [pipeReadSome, toRead, readSomeLoop_eq _ _ wf.rpos, count]
    rfl
  · refine ⟨⟨Nat.mod_lt _ (by decide), ?_, ?_⟩, ?_, ?_, rfl, rfl, rfl⟩
    · rw [Nat.mod_add_mod, Nat.add_assoc, ← whole]
      exact wf.wpos
    · show left ≤ 4000
      omega
    · unfold Pipefs.contents
      rw [← Ring.window_add, ← whole]
    · rw [Ring.length_window, ← whole]

/-- What `pipe_write_some` does to a pipe: the chunk goes to the back of the ring. -/
structure PutsChunk (pipe after : Pipefs Tid) (chunk : List UInt8) : Prop where
  wf : after.Wf
  contents : after.contents = pipe.contents ++ chunk
  count : after.count = pipe.count + chunk.length
  readers : after.readers = pipe.readers
  writers : after.writers = pipe.writers
  event : after.event = pipe.event

theorem pipeWriteSome_spec (wf : pipe.Wf) (input : List UInt8) :
    ∃ after, pipeWriteSome pipe input input.length =
        (after, min input.length (pipeBuflen - pipe.count)) ∧
      PutsChunk pipe after (input.take (min input.length (pipeBuflen - pipe.count))) := by
  have bounded : pipe.count ≤ 4000 := wf.count
  have space : (pipeBuflen + 2 ^ 16 - pipe.count) % 2 ^ 16 = pipeBuflen - pipe.count := by
    unfold pipeBuflen
    omega
  have toWrite : (if input.length < pipeBuflen - pipe.count then input.length % 2 ^ 16
      else pipeBuflen - pipe.count) = min input.length (pipeBuflen - pipe.count) := by
    unfold pipeBuflen
    split <;> omega
  obtain ⟨n, same⟩ : ∃ n, min input.length (pipeBuflen - pipe.count) = n := ⟨_, rfl⟩
  have taken : (input.take n).length = n := by
    rw [List.length_take]
    omega
  have room : pipe.count + n ≤ pipeBuflen := by
    unfold pipeBuflen at *
    omega
  have inside : pipe.wpos < pipeBuflen := wf.wpos ▸ Nat.mod_lt _ (by decide)
  obtain ⟨buffer, loop, windows⟩ := writeSomeLoop_eq (input.take n) inside
  rw [taken] at loop windows
  rw [same]
  refine ⟨{ pipe with buffer := buffer, wpos := (pipe.wpos + n) % pipeBuflen
                      count := pipe.count + n }, ?_, ?_⟩
  · have count : (pipe.count + n) % 2 ^ 16 = pipe.count + n := by
      unfold pipeBuflen at room
      omega
    rw [pipeWriteSome, space, toWrite, same, loop, count]
  · refine ⟨⟨wf.rpos, ?_, room⟩, ?_, ?_, rfl, rfl, rfl⟩
    · rw [wf.wpos, Nat.mod_add_mod, Nat.add_assoc]
    · exact windows pipe.rpos pipe.count wf.wpos room
    · rw [taken]

end Copies

section Frames

variable {Tid : Type} [DecidableEq Tid] (s : System Tid) (side : Side)

/-- A signal changes the event and the task it wakes, and nothing else. -/
theorem eventSignal_eq : ∃ event activity,
    eventSignal s side =
      { s with pipe := { s.pipe with event := event }, activity := activity } := by
  unfold eventSignal System.setActivity System.setEvent
  split
  · exact ⟨_, s.activity, rfl⟩
  · exact ⟨_, _, rfl⟩

@[simp]
theorem eventSignal_count : (eventSignal s side).pipe.count = s.pipe.count := by
  obtain ⟨_, _, same⟩ := eventSignal_eq s side
  rw [same]

@[simp]
theorem eventSignal_readers : (eventSignal s side).pipe.readers = s.pipe.readers := by
  obtain ⟨_, _, same⟩ := eventSignal_eq s side
  rw [same]

@[simp]
theorem eventSignal_writers : (eventSignal s side).pipe.writers = s.pipe.writers := by
  obtain ⟨_, _, same⟩ := eventSignal_eq s side
  rw [same]

end Frames

section Segments

variable {Tid : Type} [DecidableEq Tid] {s : System Tid} {tid : Tid}

/-- The task waits for the event of its call. -/
def System.block (s : System Tid) (tid : Tid) (op : Op) : System Tid :=
  (s.setEvent op.side
    { signaled := false, waitList := (s.pipe.event op.side).waitList ++ [tid] }).setActivity tid
      (.blocked op)

/-- The system once a signal that was left over has been used up. -/
theorem eventWait_cases (s : System Tid) (tid : Tid) (op : Op) :
    (eventWait s tid op = (s.block tid op, false)) ∨
      ∃ s', eventWait s tid op = (s', true) ∧ eventWait s' tid op = (s.block tid op, false) ∧
        s'.pipe.count = s.pipe.count ∧ s'.pipe.readers = s.pipe.readers ∧
        s'.pipe.writers = s.pipe.writers := by
  cases signaled : (s.pipe.event op.side).signaled with
  | false =>
      left
      simp [eventWait, signaled, System.block]
  | true =>
      right
      refine ⟨s.setEvent op.side { s.pipe.event op.side with signaled := false }, ?_, ?_, rfl,
        rfl, rfl⟩
      · simp [eventWait, signaled]
      · simp [eventWait, System.block, System.setEvent]

theorem pipeFileReadLoop_eq (size : Nat) :
    pipeFileReadLoop 2 s tid size = .ok
      (if s.pipe.count = 0 then
        if s.pipe.writers = 0 then (eventSignal s .readable).finish tid 0
        else s.block tid (.read size)
      else readChunk s tid size) := by
  by_cases empty : s.pipe.count = 0
  · by_cases none : s.pipe.writers = 0
    · simp [pipeFileReadLoop, empty, none]
    · rcases eventWait_cases s tid (.read size)
        with waits | ⟨s', acquired, waits, count, -, writers⟩
      · simp [pipeFileReadLoop, empty, none, waits]
      · simp [pipeFileReadLoop, empty, none, acquired, count, writers, waits]
  · simp [pipeFileReadLoop, empty]

/-- The number of bytes that fit into the pipe. -/
def Pipefs.accepts (pipe : Pipefs Tid) (input : List UInt8) : Nat :=
  min input.length (pipeBuflen - pipe.count)

variable {input : List UInt8} {written : Nat}

/-- The signals after a chunk was put into the pipe. -/
def announce (s : System Tid) (pipe : Pipefs Tid) (chunk : List UInt8) : System Tid :=
  let s := eventSignal { s with pipe := pipe, accepted := s.accepted ++ chunk } .readable
  if pipe.count < pipeBuflen then eventSignal s .writable else s

theorem writeChunk_eq (wf : s.pipe.Wf) (input : List UInt8) :
    ∃ pipe, PutsChunk s.pipe pipe (input.take (s.pipe.accepts input)) ∧
      writeChunk s input input.length =
        (announce s pipe (input.take (s.pipe.accepts input)), s.pipe.accepts input) := by
  obtain ⟨pipe, wrote, puts⟩ := pipeWriteSome_spec wf input
  refine ⟨pipe, puts, ?_⟩
  simp only [writeChunk, wrote, announce, eventSignal_count]
  rfl

@[simp]
theorem announce_count (pipe : Pipefs Tid) (chunk : List UInt8) :
    (announce s pipe chunk).pipe.count = pipe.count := by
  unfold announce
  dsimp only
  split <;> simp

@[simp]
theorem announce_readers (pipe : Pipefs Tid) (chunk : List UInt8) :
    (announce s pipe chunk).pipe.readers = pipe.readers := by
  unfold announce
  dsimp only
  split <;> simp

/-- The rest of a segment of a write whose first round put a chunk: the call returns, or
the pipe is full. -/
def endWrite (s : System Tid) (tid : Tid) (input : List UInt8) (written : Nat) : System Tid :=
  if written < input.length then s.block tid (.write input written)
  else s.finish tid (toSsize written)

/-- A full pipe with readers blocks a write, possibly after another round. -/
theorem pipeFileWriteLoop_full {fuel : Nat} (some : s.pipe.readers ≠ 0)
    (full : ¬ s.pipe.count < pipeBuflen) (more : written < input.length) :
    pipeFileWriteLoop (fuel + 2) s tid input written =
      .ok (s.block tid (.write input written)) := by
  rcases eventWait_cases s tid (.write input written) with
    waits | ⟨s', acquired, waits, count, readers, -⟩
  · simp [pipeFileWriteLoop, more, some, full, waits]
  · simp [pipeFileWriteLoop, more, some, full, acquired, count, readers, waits]

theorem pipeFileWriteLoop_eq (tid : Tid) (wf : s.pipe.Wf) (bounded : input.length < 2 ^ 64)
    (more : written < input.length) :
    ∃ pipe chunk, chunk = (input.drop written).take (s.pipe.accepts (input.drop written)) ∧
      PutsChunk s.pipe pipe chunk ∧
      pipeFileWriteLoop 3 s tid input written = .ok
        (if s.pipe.readers = 0 then
          (eventSignal s .writable).finish tid
            (if written > 0 then toSsize written else opalEIO)
        else if s.pipe.count < pipeBuflen then
          endWrite (announce s pipe chunk) tid input (written + chunk.length)
        else s.block tid (.write input written)) := by
  obtain ⟨pipe, puts, wrote⟩ := writeChunk_eq wf (input.drop written)
  obtain ⟨n, accepts⟩ : ∃ n, s.pipe.accepts (input.drop written) = n := ⟨_, rfl⟩
  have length : (input.drop written).length = input.length - written := List.length_drop
  have taken : ((input.drop written).take n).length = n := by
    rw [List.length_take, ← accepts]
    exact Nat.min_eq_left (Nat.min_le_left _ _)
  rw [accepts, length] at wrote
  rw [accepts] at puts
  refine ⟨pipe, _, accepts ▸ rfl, puts, ?_⟩
  have fits : n ≤ input.length - written := by
    rw [← length, ← accepts]
    exact Nat.min_le_left _ _
  have total : (written + n) % 2 ^ 64 = written + n := by omega
  by_cases none : s.pipe.readers = 0
  · simp [pipeFileWriteLoop, more, none]
  · by_cases room : s.pipe.count < pipeBuflen
    · -- the chunk ends the call or fills the pipe
      rw [if_neg none, if_pos room, pipeFileWriteLoop, if_pos more, if_neg none, if_pos room, wrote]
      simp only [total, taken]
      unfold endWrite
      split
      · rename_i left
        have full : n = pipeBuflen - s.pipe.count := by
          unfold Pipefs.accepts at accepts
          omega
        refine pipeFileWriteLoop_full ?_ ?_ left
        · rw [announce_readers, puts.readers]
          exact none
        · rw [announce_count, puts.count, taken]
          omega
      · rename_i done
        rw [pipeFileWriteLoop, if_neg done]
    · rw [if_neg none, if_neg room]
      exact pipeFileWriteLoop_full none room more

end Segments

end Opal.Pipe
