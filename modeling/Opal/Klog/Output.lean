import Opal.Klog.Runs

/-!
# What a reader of the log is given

`klog_read` copies the message into the buffer of its caller and fills in a header; for a
record in two parts it does both twice.  The message is whole afterwards, while the header
is the one of the second part.
-/

namespace Opal.Klog

open Memory

section Output

/-- The header and the message buffer of a caller. -/
structure Out where
  header : RecordHeader
  msg : Memory

def copiedLength (msglen msgSize : Nat) : Nat :=
  if msglen < msgSize - 1 then msglen else msgSize - 1

/-- `memcpy` of a message and the NUL behind it. -/
def copyText (before : Memory) (offset copied : Nat) (source : Memory) : Memory :=
  fill (copyInto before offset copied source) (offset + copied) 1 0

/-- `klog_read(header_out, msg_out + offset, msg_size)`. -/
def klogReadInto : Nat → KlogQueue → Out → Nat → Nat → Except Stop (Bool × Out × KlogQueue)
  | 0, _, _, _, _ => .error .endless
  | depth + 1, queue, out, offset, msgSize =>
      if msgSize = 0 then .error .emptyMsgOut
      else if queue.readPos = queue.writePos ∧ queue.full = false then .ok (false, out, queue)
      else
        let header := getHeader queue.buffer queue.readPos
        let copied := copiedLength header.msglen msgSize
        let source := region queue.buffer (queue.readPos + headerSize)
        let out : Out := ⟨header, copyText out.msg offset copied source⟩
        let queue := { queue with readPos := readPosAfter queue header.msglen }
        if header.level = klogWrap then
          match klogReadInto depth queue out (offset + copied) (msgSize - copied) with
          | .error stop => .error stop
          | .ok (false, _, _) => .error .wrapMarkerAlone
          | .ok (true, out, queue) => .ok (true, out, { queue with full := false })
        else .ok (true, out, { queue with full := false })

def klogReadOut (queue : KlogQueue) (out : Out) (msgSize : Nat) :
    Except Stop (Bool × Out × KlogQueue) :=
  klogReadInto queue.capacity queue out 0 msgSize

/-- The buffer holds the reply behind `offset`, terminated, and nothing else of it changed. -/
structure Holds (before : Memory) (offset msgSize : Nat) (reply : Reply) (out : Out) : Prop where
  header : out.header = reply.header
  short : reply.msg.length < msgSize
  text : ∀ i, (lower : i < reply.msg.length) → out.msg (offset + i) = reply.msg.get ⟨i, lower⟩
  terminated : out.msg (offset + reply.msg.length) = 0
  outside : ∀ x, x < offset ∨ offset + msgSize ≤ x → out.msg x = before x

variable {queue after : KlogQueue} {msgSize : Nat} {reply : Reply}

section Copies

variable {before source : Memory} {offset copied : Nat} {header : RecordHeader}

theorem copyText_inside {i : Nat} (lower : i < copied) :
    copyText before offset copied source (offset + i) = source i := by
  unfold copyText
  rw [fill_outside (Or.inl (by omega)), copyInto_inside lower]

theorem copyText_outside {x : Nat} (outside : x < offset ∨ offset + copied < x) :
    copyText before offset copied source x = before x := by
  unfold copyText
  rw [fill_outside (by omega), copyInto_outside (by omega)]

theorem holds_copyText (room : copied < msgSize) :
    Holds before offset msgSize ⟨header, (List.range copied).map source⟩
      ⟨header, copyText before offset copied source⟩ where
  header := rfl
  short := by simpa using room
  text := by
    intro i lower
    have inside : i < copied := by simpa using lower
    have copy := @copyText_inside before source offset copied i inside
    simpa using copy
  terminated := by
    rw [List.length_map, List.length_range]
    exact fill_inside (Nat.le_refl _) (Nat.lt_succ_self _)
  outside := by
    intro x outside
    exact copyText_outside (by omega)

/-- The second part goes over the NUL of the first. -/
theorem Holds.prepend {out : Out}
    (holds : Holds (copyText before offset copied source) (offset + copied) (msgSize - copied)
      reply out) (room : copied < msgSize) :
    Holds before offset msgSize { reply with msg := (List.range copied).map source ++ reply.msg }
      out where
  header := holds.header
  short := by
    have short := holds.short
    simp only [List.length_append, List.length_map, List.length_range]
    omega
  text := by
    intro i lower
    by_cases first : i < copied
    · rw [holds.outside _ (Or.inl (Nat.add_lt_add_left first offset)), copyText_inside first]
      simp [List.getElem_append_left, first]
    · have second : i - copied < reply.msg.length := by
        simp only [List.length_append, List.length_map, List.length_range] at lower
        omega
      have same := holds.text (i - copied) second
      have place : offset + copied + (i - copied) = offset + i := by omega
      rw [place] at same
      rw [same]
      simp [List.getElem_append_right, Nat.le_of_not_lt first]
  terminated := by
    have last := holds.terminated
    rwa [Nat.add_assoc, ← List.length_range (n := copied), ← @List.length_map _ _ _ source,
      ← List.length_append] at last
  outside := by
    intro x outside
    rw [holds.outside x (by omega), copyText_outside (by omega)]

end Copies

theorem copiedLength_lt {msglen : Nat} (size : msgSize ≠ 0) :
    copiedLength msglen msgSize < msgSize := by
  unfold copiedLength
  split <;> omega

/-- The two reads take the same way. -/
theorem klogReadFrom_succ {depth : Nat} (size : msgSize ≠ 0)
    (unread : ¬(queue.readPos = queue.writePos ∧ queue.full = false)) :
    let header := getHeader queue.buffer queue.readPos
    let copied := copiedLength header.msglen msgSize
    let msg := (List.range copied).map (region queue.buffer (queue.readPos + headerSize))
    let queue' := { queue with readPos := readPosAfter queue header.msglen }
    klogReadFrom (depth + 1) queue msgSize =
      if header.level = klogWrap then
        match klogReadFrom depth queue' (msgSize - copied) with
        | .error stop => .error stop
        | .ok (none, _) => .error .wrapMarkerAlone
        | .ok (some reply, queue) =>
            .ok (some { reply with msg := msg ++ reply.msg }, { queue with full := false })
      else .ok (some ⟨header, msg⟩, { queue' with full := false }) := by
  rw [klogReadFrom, if_neg size, if_neg unread]
  dsimp only
  by_cases wrap : (getHeader queue.buffer queue.readPos).level = klogWrap
  · rw [if_pos wrap, if_pos wrap]
    unfold readPosAfter copiedLength
    generalize klogReadFrom depth _ _ = inner
    rcases inner with stop | ⟨_ | reply, queue'⟩ <;> rfl
  · rw [if_neg wrap, if_neg wrap]
    rfl

theorem klogReadInto_nothing {depth offset : Nat} {out : Out}
    (reads : klogReadFrom depth queue msgSize = .ok (none, after)) :
    klogReadInto depth queue out offset msgSize = .ok (false, out, after) := by
  cases depth with
  | zero => cases reads
  | succ depth =>
      by_cases zero : msgSize = 0
      · rw [klogReadFrom, if_pos zero] at reads
        cases reads
      by_cases empty : queue.readPos = queue.writePos ∧ queue.full = false
      · rw [klogReadFrom, if_neg zero, if_pos empty] at reads
        rw [klogReadInto, if_neg zero, if_pos empty]
        cases reads
        rfl
      rw [klogReadFrom_succ zero empty] at reads
      split at reads
      · generalize klogReadFrom depth _ _ = inner at reads
        rcases inner with stop | ⟨_ | reply, queue'⟩ <;> cases reads
      · cases reads

theorem klogReadInto_holds {depth offset : Nat} {out : Out}
    (reads : klogReadFrom depth queue msgSize = .ok (some reply, after)) :
    ∃ out', klogReadInto depth queue out offset msgSize = .ok (true, out', after) ∧
      Holds out.msg offset msgSize reply out' := by
  induction depth generalizing queue offset msgSize out reply after with
  | zero => cases reads
  | succ depth inductionHypothesis =>
      by_cases zero : msgSize = 0
      · rw [klogReadFrom, if_pos zero] at reads
        cases reads
      by_cases empty : queue.readPos = queue.writePos ∧ queue.full = false
      · rw [klogReadFrom, if_neg zero, if_pos empty] at reads
        cases reads
      rw [klogReadFrom_succ zero empty] at reads
      rw [klogReadInto, if_neg zero, if_neg empty]
      dsimp only
      have room := @copiedLength_lt msgSize (getHeader queue.buffer queue.readPos).msglen zero
      by_cases wrap : (getHeader queue.buffer queue.readPos).level = klogWrap
      · rw [if_pos wrap] at reads ⊢
        split at reads
        · cases reads
        · cases reads
        · rename_i reply' queue' inner
          cases reads
          have second (offset : Nat) (text : Memory) :=
            @inductionHypothesis _ _ _ _ offset ⟨getHeader queue.buffer queue.readPos, text⟩ inner
          obtain ⟨out', ran, holds⟩ := second _ (copyText _ _ _ _)
          refine ⟨out', ?_, holds.prepend room⟩
          rw [ran]
      · rw [if_neg wrap] at reads ⊢
        cases reads
        exact ⟨_, rfl, holds_copyText room⟩

end Output

section Fifo

variable {system : System} {queue : KlogQueue} {history : List Event} {log : Log}
  {start stop msgSize : Nat} {record : Record} {records : List Record}

/-- The write fits behind the unread records. -/
def admitsFitting (system : System) : Call → Prop
  | .write _ msg =>
      unreadBytes system.queue + span system.queue.writePos msg.msglen ≤ system.queue.capacity
  | .read msgSize => 0 < msgSize

instance (system : System) : ∀ call, Decidable (admitsFitting system call)
  | .write _ msg => inferInstanceAs (Decidable
      (unreadBytes system.queue + span system.queue.writePos msg.msglen ≤ system.queue.capacity))
  | .read msgSize => inferInstanceAs (Decidable (0 < msgSize))

def writtenRecords (history : List Event) : List Record :=
  history.filterMap fun
    | .wrote record => some record
    | _ => none

/-- The records that were written and not read yet, when none was lost. -/
def unreadRecords (history : List Event) : List Record :=
  (writtenRecords history).drop (readLevels history).length

theorem Explains.unread_suffix (explains : Explains history log) (kept : log.lost = 0) :
    ∃ old, writtenRecords history = old ++ log.unread ∧
      old.length = (readLevels history).length := by
  induction explains with
  | start => exact ⟨[], rfl, rfl⟩
  | @write history forgotten rest lost record _ inductionHypothesis =>
      have none : forgotten = [] := List.eq_nil_of_length_eq_zero (by dsimp only at kept; omega)
      obtain ⟨old, split, length⟩ := inductionHypothesis (by dsimp only at kept ⊢; omega)
      refine ⟨old, ?_, ?_⟩
      · rw [none, List.nil_append] at split
        have grown : writtenRecords (history ++ [.wrote record]) =
            writtenRecords history ++ [record] := by simp [writtenRecords]
        rw [grown, split, List.append_assoc]
      · simpa [readLevels] using length
  | @read history record rest lost msgSize _ inductionHypothesis =>
      obtain ⟨old, split, length⟩ := inductionHypothesis kept
      refine ⟨old ++ [record], ?_, ?_⟩
      · simpa [writtenRecords] using split
      · simpa [readLevels] using length
  | @nothing history lost _ inductionHypothesis =>
      obtain ⟨old, split, length⟩ := inductionHypothesis kept
      refine ⟨old, ?_, ?_⟩
      · simpa [writtenRecords] using split
      · simpa [readLevels] using length

theorem Explains.unread_eq (explains : Explains history log) (kept : log.lost = 0) :
    log.unread = unreadRecords history := by
  obtain ⟨old, split, length⟩ := explains.unread_suffix kept
  rw [unreadRecords, split, ← length, List.drop_left]

/-- The ring holds the records that were written and not read. -/
def FifoInv (system : System) : Prop :=
  ∃ start stop log, Unread system.queue start stop log.unread ∧ Explains system.history log ∧
    log.lost = 0

/-- The next unread record lies in two parts, and both hold some of its message. -/
def SplitNext (queue : KlogQueue) : Prop :=
  (getHeader queue.buffer queue.readPos).level = klogWrap ∧
    (getHeader queue.buffer queue.readPos).msglen ≠ 0

instance (queue : KlogQueue) : Decidable (SplitNext queue) := inferInstanceAs (Decidable (_ ∧ _))

theorem Unread.lastLength_eq_iff (unread : Unread queue start stop (record :: records)) :
    lastLength start record.msg.msglen = record.msg.msglen ↔ ¬SplitNext queue := by
  obtain ⟨-, -, -, -, split⟩ := span_facts record.msg unread.alignedStart
  have known := unread.known record List.mem_cons_self
  have stored := unread.laid.1
  unfold Stored at stored
  rw [← unread.readPos] at stored
  unfold SplitNext lastLength
  by_cases whole : Whole start record.msg.msglen
  · rw [if_pos whole] at stored ⊢
    rw [stored.hasLevel]
    unfold klogWrap klogLevelCount at *
    omega
  · rw [if_neg whole] at stored ⊢
    rw [stored.1.hasLevel, stored.1.hasMsglen]
    obtain ⟨less, -⟩ := split whole
    omega

/-- The record is given back whole: its level, its length, and as much of the message as
fits, terminated, with nothing written behind the buffer. -/
structure ReadsWhole (record : Record) (msgSize : Nat) (before : Memory) (out : Out) : Prop where
  level : out.header.level = record.level
  msglen : out.header.msglen = record.msg.msglen
  text : ∀ i < min record.msg.msglen (msgSize - 1), out.msg i = record.msg.bytes i
  terminated : out.msg (min record.msg.msglen (msgSize - 1)) = 0
  outside : ∀ x, msgSize ≤ x → out.msg x = before x

/-- Everything but the length is given back in every case. -/
theorem Unread.readOut (unread : Unread queue start stop (record :: records))
    (size : 0 < msgSize) (out : Out) :
    ∃ out' after, klogReadOut queue out msgSize = .ok (true, out', after) ∧
      (ReadsWhole record msgSize out.msg out' ↔ ¬SplitNext queue) := by
  obtain ⟨reply, after, reads, shown, msglen, -, -⟩ := unread.read_record size
  obtain ⟨out', ran, holds⟩ := @klogReadInto_holds _ _ _ _ _ 0 out reads
  refine ⟨out', after, ran, ?_⟩
  have level : reply.header.level = record.level := congrArg Prod.fst shown
  have msg : reply.msg = (List.range (min record.msg.msglen (msgSize - 1))).map record.msg.bytes :=
    congrArg Prod.snd shown
  have length : reply.msg.length = min record.msg.msglen (msgSize - 1) := by
    rw [msg, List.length_map, List.length_range]
  have sameLength : out'.header.msglen = record.msg.msglen ↔ ¬SplitNext queue := by
    rw [holds.header, msglen]
    exact unread.lastLength_eq_iff
  constructor
  · intro whole
    exact sameLength.mp whole.msglen
  · intro together
    refine ⟨?_, sameLength.mpr together, ?_, ?_, ?_⟩
    · rw [holds.header, level]
    · intro i lower
      have same := holds.text i (by rwa [length])
      rw [Nat.zero_add] at same
      rw [same]
      simp [msg]
    · have last := holds.terminated
      rwa [Nat.zero_add, length] at last
    · intro x beyond
      exact holds.outside x (Or.inr (by rwa [Nat.zero_add]))

theorem FifoInv.step {call : Call} (inv : FifoInv system) (allowed : admitsFitting system call) :
    ∃ after, step system call = .ok after ∧ FifoInv after := by
  obtain ⟨start, stop, ⟨records, lost⟩, unread, explains, kept⟩ := inv
  cases call with
  | write level msg =>
      simp only [admitsFitting] at allowed
      rw [unread.unreadBytes_eq, unread.writePos, span_mod, unread.capacity] at allowed
      have le := unread.le
      obtain ⟨unread', -⟩ := @Unread.write_fits _ _ _ level _ msg unread (by omega)
      exact ⟨_, rfl, start, _, ⟨records ++ [.of level msg], lost⟩, unread',
        @Explains.write _ [] _ _ _ explains, kept⟩
  | read msgSize =>
      cases records with
      | nil =>
          refine ⟨⟨system.queue, system.history ++ [.nothing]⟩, ?_, start, stop, ⟨[], lost⟩,
            unread, explains.nothing, kept⟩
          rw [Klog.step, unread.read_nothing allowed]
          rfl
      | cons record rest =>
          obtain ⟨reply, after, reads, shown, -, unread', -⟩ := unread.read_record allowed
          refine ⟨⟨after, system.history ++ [.read msgSize (reply.header.level, reply.msg)]⟩, ?_,
            _, stop, ⟨rest, lost⟩, unread', ?_, kept⟩
          · rw [Klog.step, reads]
            rfl
          · rw [shown]
            exact explains.read msgSize

theorem fifoInv_of_reached {buffer : Memory}
    (reached : Reaches step admitsFitting (System.init buffer) system) : FifoInv system := by
  induction reached with
  | start => exact ⟨0, 0, ⟨[], 0⟩, init_unread buffer, .start, rfl⟩
  | step _ admitted returned inductionHypothesis =>
      obtain ⟨after, returned', inv⟩ := inductionHypothesis.step admitted
      cases returned.symm.trans returned'
      exact inv

/-- In a run whose writes fit, a read gives back the next unread record, and gives it back
whole unless it lies in two parts that both hold some of the message. -/
theorem run_readsWhole_iff {buffer : Memory}
    (reached : Reaches step admitsFitting (System.init buffer) system) (size : 0 < msgSize)
    (out : Out) :
    match unreadRecords system.history with
    | [] => klogReadOut system.queue out msgSize = .ok (false, out, system.queue)
    | record :: _ => ∃ out' after, klogReadOut system.queue out msgSize = .ok (true, out', after) ∧
        (ReadsWhole record msgSize out.msg out' ↔ ¬SplitNext system.queue) := by
  obtain ⟨start, stop, log, unread, explains, kept⟩ := fifoInv_of_reached reached
  rw [← explains.unread_eq kept]
  cases records : log.unread with
  | nil =>
      rw [records] at unread
      exact klogReadInto_nothing (unread.read_nothing size)
  | cons record rest =>
      rw [records] at unread
      exact unread.readOut size out

end Fifo

section Runs

def blankOut : Out := ⟨⟨0, 0, 0⟩, fun _ => 0⟩

/-- The record written last starts with a wrap marker alone, and is the next one. -/
def markerCalls : List Call :=
  List.replicate 15 (.write 4 exampleMessage) ++ [.write 3 shorterMessage,
    .read 4, .write 9 exampleMessage] ++ List.replicate 15 (.read 1)

/-- Sixteen records and the room of the first, into which the next record goes on from the
end of the buffer. -/
def splitCalls : List Call :=
  List.replicate 15 (.write 4 exampleMessage) ++ [.write 3 ⟨fun _ => 66, 100, by decide⟩,
    .read 4, .write 9 exampleMessage] ++ List.replicate 15 (.read 1)

theorem run_ends (calls : List Call) (split : Bool)
    (seen : (runFrom step admitsFitting exampleStart calls).map
      (fun after => ((unreadRecords after.history).length, decide (SplitNext after.queue))) =
        some (1, split)) :
    ∃ system record, Reaches step admitsFitting exampleStart system ∧
      unreadRecords system.history = [record] ∧ (SplitNext system.queue ↔ split = true) := by
  cases ran : runFrom step admitsFitting exampleStart calls with
  | none =>
      rw [ran] at seen
      cases seen
  | some after =>
      rw [ran] at seen
      have seen' := Option.some.inj seen
      obtain ⟨record, one⟩ := List.length_eq_one_iff.mp (congrArg Prod.fst seen')
      have known : decide (SplitNext after.queue) = split := congrArg Prod.snd seen'
      refine ⟨after, record, Reaches.start.of_runFrom ran, one, ?_⟩
      rw [← known, decide_eq_true_iff]

theorem markerCalls_ends : ∃ system record, Reaches step admitsFitting exampleStart system ∧
    unreadRecords system.history = [record] ∧ (SplitNext system.queue ↔ false = true) :=
  run_ends markerCalls false (by decide +kernel)

theorem splitCalls_ends : ∃ system record, Reaches step admitsFitting exampleStart system ∧
    unreadRecords system.history = [record] ∧ (SplitNext system.queue ↔ true = true) :=
  run_ends splitCalls true (by decide +kernel)

theorem run_readsWhole_marker : ∃ system record out' after,
    Reaches step admitsFitting exampleStart system ∧
    unreadRecords system.history = [record] ∧
    klogReadOut system.queue blankOut 80 = .ok (true, out', after) ∧
    ReadsWhole record 80 blankOut.msg out' := by
  obtain ⟨system, record, reached, one, together⟩ := markerCalls_ends
  have reads := run_readsWhole_iff reached (show 0 < 80 by decide) blankOut
  rw [one] at reads
  obtain ⟨out', after, ran, whole⟩ := reads
  exact ⟨system, record, out', after, reached, one, ran, whole.mpr (by simp [together])⟩

/-- The header given back for the record that goes round the end is not its own. -/
theorem split_record_short : ∃ system record out' after,
    Reaches step admitsFitting exampleStart system ∧
    unreadRecords system.history = [record] ∧
    klogReadOut system.queue blankOut 80 = .ok (true, out', after) ∧
    ¬ReadsWhole record 80 blankOut.msg out' := by
  obtain ⟨system, record, reached, one, split⟩ := splitCalls_ends
  obtain ⟨start, stop, log, unread, explains, kept⟩ := fifoInv_of_reached reached
  rw [explains.unread_eq kept, one] at unread
  obtain ⟨out', after, ran, whole⟩ := unread.readOut (show 0 < 80 by decide) blankOut
  refine ⟨system, record, out', after, reached, one, ran, ?_⟩
  rw [whole]
  exact not_not_intro (split.mpr rfl)

end Runs

end Opal.Klog
