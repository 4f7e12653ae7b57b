import Opal.Klog.Records

/-!
# Writing and reading records

`Unread queue start stop records` says that the records lie in the bytes from `start` to
`stop` and are what the queue holds.  A write that fits adds one at the end.  One that
overruns the oldest records moves `read_pos` to `write_pos`, so it keeps the log in order
only where a record starts there.
-/

namespace Opal.Klog

open Memory

section Store

variable {queue : KlogQueue} {stop level : Nat} {msg : Message}

theorem plan_eq (capacity : queue.capacity = klogBufferSize)
    (writePos : queue.writePos = stop % klogBufferSize) (aligned : 8 ∣ stop) :
    plan queue level msg.msglen =
      if Whole stop msg.msglen then
        ⟨stop % klogBufferSize, getRecordSize msg.msglen, msg.msglen, level, 0, 0,
          stop % klogBufferSize + span stop msg.msglen⟩
      else
        ⟨stop % klogBufferSize, klogBufferSize - stop % klogBufferSize, headLength stop, klogWrap,
          msg.msglen - headLength stop, getRecordSize (msg.msglen - headLength stop),
          stop % klogBufferSize + span stop msg.msglen⟩ := by
  obtain ⟨_, _, _, header, _⟩ := span_facts msg aligned
  unfold plan
  rw [capacity, writePos]
  by_cases whole : Whole stop msg.msglen
  · have size : span stop msg.msglen = getRecordSize msg.msglen := if_pos whole
    rw [if_neg (Nat.not_lt.mpr whole), if_pos whole, size]
  · have size : span stop msg.msglen = klogBufferSize - stop % klogBufferSize +
        getRecordSize (msg.msglen - headLength stop) := if_neg whole
    rw [if_pos (Nat.lt_of_not_le whole), if_neg (Nat.not_lt.mpr header), if_neg whole, size]
    have first : headerSize + headLength stop = klogBufferSize - stop % klogBufferSize := by
      unfold headLength
      omega
    have next : klogBufferSize + getRecordSize (msg.msglen - headLength stop) =
        stop % klogBufferSize + (klogBufferSize - stop % klogBufferSize +
          getRecordSize (msg.msglen - headLength stop)) := by omega
    have head : klogBufferSize - stop % klogBufferSize - headerSize = headLength stop := rfl
    dsimp only
    rw [head, first, next]

/-- What storing a record does to the queue. -/
structure Puts (queue : KlogQueue) (stop : Nat) (record : Record) (after : KlogQueue) : Prop where
  capacity : after.capacity = queue.capacity
  writePos : after.writePos = (stop + span stop record.msg.msglen) % klogBufferSize
  stored : Stored after.buffer stop record
  frame : ∀ x, (∀ y, stop ≤ y → y < stop + span stop record.msg.msglen →
    y % klogBufferSize ≠ x) → after.buffer x = queue.buffer x

theorem storeRecord_puts (capacity : queue.capacity = klogBufferSize)
    (writePos : queue.writePos = stop % klogBufferSize) (aligned : 8 ∣ stop)
    (known : level < klogLevelCount) :
    Puts queue stop ⟨level, msg⟩ (storeRecord queue level msg) := by
  obtain ⟨_, _, total, header, split⟩ := span_facts msg aligned
  have small := msg.small
  have unwrapped : level ≠ klogWrap := by
    unfold klogWrap klogLevelCount at *
    omega
  have short : level < 2 ^ 16 := by
    unfold klogLevelCount at known
    omega
  unfold storeRecord
  rw [plan_eq capacity writePos aligned, capacity, writePos]
  by_cases whole : Whole stop msg.msglen
  · have size : span stop msg.msglen = getRecordSize msg.msglen := if_pos whole
    have bounds := getRecordSize_bounds msg.msglen
    simp only [if_pos whole, if_neg unwrapped]
    refine ⟨capacity.symm, ?_, ?_, ?_⟩
    · rw [Nat.mod_add_mod, size]
    · unfold Stored
      rw [if_pos whole]
      exact piece_putPiece small short
    · intro x apart
      refine putPiece_outside ?_
      by_contra inside
      refine apart (stop + (x - stop % klogBufferSize)) (Nat.le_add_right _ _) ?_ ?_
      · rw [size]
        dsimp only at inside
        omega
      · dsimp only at inside
        unfold Whole klogBufferSize at *
        omega
  · have size : span stop msg.msglen = klogBufferSize - stop % klogBufferSize +
        getRecordSize (msg.msglen - headLength stop) := if_neg whole
    have bounds := getRecordSize_bounds (msg.msglen - headLength stop)
    obtain ⟨less, limit⟩ := split whole
    simp only [if_neg whole, if_true]
    refine ⟨capacity.symm, ?_, ?_, ?_⟩
    · dsimp only
      rw [size]
      unfold klogBufferSize at *
      omega
    · unfold Stored
      rw [if_neg whole]
      have firstPart : Piece (putPiece queue.buffer (stop % klogBufferSize)
          ⟨queue.writeSeq, headLength stop, klogWrap⟩ msg.bytes) (stop % klogBufferSize) klogWrap
          (headLength stop) msg.bytes :=
        piece_putPiece (show headLength stop < 2 ^ 16 by omega) (show klogWrap < 2 ^ 16 by decide)
      refine ⟨firstPart.frame fun x lower upper => ?_, piece_putPiece (by dsimp only; omega) short⟩
      -- the second part ends before the first one starts
      refine putPiece_outside (.inr ?_)
      dsimp only
      omega
    · intro x apart
      replace apart : ∀ y, stop ≤ y → y < stop + span stop msg.msglen → y % klogBufferSize ≠ x :=
        apart
      have first : ¬ (stop % klogBufferSize ≤ x ∧ x < klogBufferSize) := by
        intro inside
        refine apart (stop + (x - stop % klogBufferSize)) (Nat.le_add_right _ _) (by omega) ?_
        unfold klogBufferSize at *
        omega
      have second : ¬ x < getRecordSize (msg.msglen - headLength stop) := by
        intro inside
        refine apart (stop + (klogBufferSize - stop % klogBufferSize) + x) (by omega) (by omega) ?_
        unfold klogBufferSize at *
        omega
      dsimp only
      rw [putPiece_outside (.inr (by dsimp only; omega)), putPiece_outside]
      dsimp only
      unfold headLength
      omega

/-- A record is added behind the others while it does not reach the first of them. -/
theorem Laid.put {after : KlogQueue} {start : Nat} {records : List Record} {record : Record}
    (laid : Laid queue.buffer start records stop) (aligned : 8 ∣ start)
    (puts : Puts queue stop record after)
    (room : stop + span stop record.msg.msglen ≤ start + klogBufferSize) :
    Laid after.buffer start (records ++ [record]) (stop + span stop record.msg.msglen) := by
  refine Laid.concat (laid.frame aligned fun y low high => puts.frame _ fun z lowZ highZ same => ?_)
    puts.stored
  have equal := Ring.eq_of_mod_eq (show start ≤ z by omega) (by omega) low (by omega) same
  omega

end Store

section Unread

/-- The records from byte `start` to byte `stop` are the unread ones. -/
structure Unread (queue : KlogQueue) (start stop : Nat) (records : List Record) : Prop where
  capacity : queue.capacity = klogBufferSize
  readPos : queue.readPos = start % klogBufferSize
  writePos : queue.writePos = stop % klogBufferSize
  alignedStart : 8 ∣ start
  alignedStop : 8 ∣ stop
  le : start ≤ stop
  fits : stop ≤ start + klogBufferSize
  full : queue.full = true ↔ stop = start + klogBufferSize
  laid : Laid queue.buffer start records stop
  known : ∀ record ∈ records, record.level < klogLevelCount

/-- The number of bytes that were not read, as the cursors give it. -/
def unreadBytes (queue : KlogQueue) : Nat :=
  if queue.full then queue.capacity
  else if queue.readPos ≤ queue.writePos then queue.writePos - queue.readPos
  else queue.capacity - queue.readPos + queue.writePos

variable {queue : KlogQueue} {start stop level : Nat} {records : List Record} {msg : Message}

theorem Unread.unreadBytes_eq (unread : Unread queue start stop records) :
    unreadBytes queue = stop - start := by
  have le := unread.le
  have fits := unread.fits
  unfold unreadBytes
  rw [unread.capacity, unread.readPos, unread.writePos]
  by_cases full : queue.full = true
  · rw [if_pos full, unread.full.mp full]
    omega
  · have less : stop ≠ start + klogBufferSize := mt unread.full.mpr full
    rw [if_neg full]
    unfold klogBufferSize at *
    split <;> omega

/-- The record is stored, and nothing is dropped. -/
theorem Unread.write_fits (unread : Unread queue start stop records)
    (room : stop + span stop msg.msglen ≤ start + klogBufferSize) :
    Unread (klogWrite queue level msg) start (stop + span stop msg.msglen)
        (records ++ [.of level msg]) ∧ (klogWrite queue level msg).drops = queue.drops := by
  obtain ⟨multiple, positive, total, _, _⟩ := span_facts msg unread.alignedStop
  have le := unread.le
  have less : stop ≠ start + klogBufferSize := by
    unfold headerSize at positive
    omega
  have keeps : ¬ Overruns queue (clampLevel level) msg.msglen := by
    unfold Overruns
    rw [plan_eq unread.capacity unread.writePos unread.alignedStop, unread.capacity, unread.readPos]
    have next : stop % klogBufferSize + span stop msg.msglen ≤
        start % klogBufferSize + klogBufferSize := by
      unfold klogBufferSize at *
      omega
    split <;> exact Nat.not_lt.mpr next
  have known : clampLevel level < klogLevelCount := by
    unfold clampLevel klogLevelCount
    split <;> omega
  have puts : Puts queue stop ⟨clampLevel level, msg⟩ (storeRecord queue (clampLevel level) msg) :=
    storeRecord_puts unread.capacity unread.writePos unread.alignedStop known
  have notFull : queue.full = false := by
    by_contra full
    exact less (unread.full.mp (Bool.eq_true_of_not_eq_false full))
  have laid := unread.laid.put unread.alignedStart puts room
  unfold klogWrite
  simp only [keeps, decide_false, Bool.false_eq_true, if_false, and_true]
  refine ⟨puts.capacity.trans unread.capacity, unread.readPos, puts.writePos, unread.alignedStart,
    Nat.dvd_add unread.alignedStop multiple, by omega, room, ?_, laid, ?_⟩
  · dsimp only
    rw [puts.writePos, unread.readPos, notFull]
    dsimp only
    constructor
    · intro met
      split at met
      · rename_i same
        unfold klogBufferSize headerSize at *
        omega
      · cases met
    · intro reached
      rw [if_pos]
      rw [reached, Nat.add_mod_right]
  · intro record member
    rcases List.mem_append.mp member with old | new
    · exact unread.known record old
    · rw [List.mem_singleton.mp new]
      exact known

end Unread

section Landing

variable {mem : Memory} {p stop : Nat} {records : List Record}

/-- Going from record to record, `pos` meets the target. -/
def startsAt (buffer : Memory) : Nat → Nat → Nat → Bool
  | 0, pos, target => pos == target
  | rounds + 1, pos, target =>
      if pos < target then
        startsAt buffer rounds (pos + getRecordSize (getHeader buffer pos).msglen) target
      else pos == target

/-- A record that ends before the end of the buffer is in one piece. -/
theorem Laid.whole {record : Record} {rest : List Record} (laid : Laid mem p (record :: rest) stop)
    (unwrapped : p % klogBufferSize + (stop - p) < klogBufferSize) :
    Whole p record.msg.msglen := by
  by_contra split
  have size : span p record.msg.msglen = klogBufferSize - p % klogBufferSize +
      getRecordSize (record.msg.msglen - headLength p) := if_neg split
  have later := Laid.le laid.2
  omega

/-- The walk ends at the target without a further record. -/
theorem startsAt_stop {rounds pos target : Nat} (met : ¬ pos < target)
    (lands : startsAt mem rounds pos target = true) :
    pos = target ∧ countLoop mem klogBufferSize rounds pos target = 0 := by
  cases rounds with
  | zero => exact ⟨beq_iff_eq.mp lands, rfl⟩
  | succ rounds =>
      unfold startsAt at lands
      unfold countLoop
      rw [if_neg met] at lands ⊢
      exact ⟨beq_iff_eq.mp lands, rfl⟩

/-- The records before the target are those that `count_records` counts. -/
theorem Laid.split_at {rounds target : Nat} (laid : Laid mem p records stop)
    (unwrapped : p % klogBufferSize + (stop - p) < klogBufferSize)
    (inside : target ≤ p % klogBufferSize + (stop - p))
    (enough : target - p % klogBufferSize ≤ rounds)
    (lands : startsAt mem rounds (p % klogBufferSize) target = true) :
    ∃ lost rest, records = lost ++ rest ∧ p % klogBufferSize ≤ target ∧
      Laid mem (p + (target - p % klogBufferSize)) rest stop ∧
      countLoop mem klogBufferSize rounds (p % klogBufferSize) target = lost.length := by
  induction records generalizing p rounds with
  | nil =>
      have same : p = stop := laid
      obtain ⟨met, none⟩ := startsAt_stop (by omega) lands
      refine ⟨[], [], rfl, by omega, ?_, none⟩
      rw [met, Nat.sub_self]
      exact laid
  | cons record rest inductionHypothesis =>
      by_cases before : p % klogBufferSize < target
      · have whole := laid.whole unwrapped
        have size : span p record.msg.msglen = getRecordSize record.msg.msglen := if_pos whole
        have later := Laid.le laid.2
        have bounds := getRecordSize_bounds record.msg.msglen
        have stored := laid.1
        unfold Stored at stored
        rw [if_pos whole] at stored
        obtain ⟨rounds, rfl⟩ : ∃ less, rounds = less + 1 := ⟨rounds - 1, by omega⟩
        unfold startsAt at lands
        rw [if_pos before, stored.hasMsglen, ← size] at lands
        have next : (p + span p record.msg.msglen) % klogBufferSize =
            p % klogBufferSize + span p record.msg.msglen := by
          unfold klogBufferSize at *
          omega
        rw [← next] at lands
        unfold headerSize at bounds
        obtain ⟨lost, kept, cut, reached, laid', counted⟩ :=
          inductionHypothesis laid.2 (by omega) (by omega) (by omega) lands
        refine ⟨record :: lost, kept, by rw [cut, List.cons_append], Nat.le_of_lt before, ?_, ?_⟩
        · rw [next] at laid' reached
          have place : p + span p record.msg.msglen +
              (target - (p % klogBufferSize + span p record.msg.msglen)) =
                p + (target - p % klogBufferSize) := by omega
          rwa [place] at laid'
        · have low : ¬ p % klogBufferSize ≥ klogBufferSize := by omega
          unfold countLoop
          simp only [if_pos before, if_neg low, Nat.sub_zero, stored.hasMsglen, ← size]
          rw [← next, counted, List.length_cons, Nat.add_comm]
      · obtain ⟨met, none⟩ := startsAt_stop before lands
        refine ⟨[], record :: rest, rfl, Nat.le_of_eq met, ?_, none⟩
        rw [met, Nat.sub_self]
        exact laid

/-- The new `read_pos` of an overrun is the start of a record. -/
def Lands (queue : KlogQueue) (level msglen : Nat) : Prop :=
  let target := (plan queue level msglen).nextWritePos - queue.capacity
  startsAt queue.buffer (target - queue.readPos) queue.readPos target = true

instance (queue : KlogQueue) (level msglen : Nat) : Decidable (Lands queue level msglen) :=
  inferInstanceAs (Decidable (_ = _))

/-- The oldest records are dropped, and the rest and the new record fill the buffer. -/
theorem Unread.write_lands {queue : KlogQueue} {start level : Nat} {msg : Message}
    (unread : Unread queue start stop records)
    (overruns : Overruns queue (clampLevel level) msg.msglen)
    (lands : Lands queue (clampLevel level) msg.msglen) :
    ∃ lost rest start', records = lost ++ rest ∧
      Unread (klogWrite queue level msg) start' (stop + span stop msg.msglen)
        (rest ++ [.of level msg]) ∧
      (klogWrite queue level msg).drops = (queue.drops + lost.length) % 2 ^ 32 := by
  obtain ⟨multiple, positive, total, _, _⟩ := span_facts msg unread.alignedStop
  have le := unread.le
  have fits := unread.fits
  have next : (plan queue (clampLevel level) msg.msglen).nextWritePos =
      stop % klogBufferSize + span stop msg.msglen := by
    rw [plan_eq unread.capacity unread.writePos unread.alignedStop]
    split <;> rfl
  obtain ⟨target, goal⟩ : ∃ target, target =
      stop % klogBufferSize + span stop msg.msglen - klogBufferSize := ⟨_, rfl⟩
  have past : start % klogBufferSize < target := by
    unfold Overruns at overruns
    rw [next, unread.capacity, unread.readPos] at overruns
    omega
  unfold Lands at lands
  rw [next, unread.capacity, unread.readPos, ← goal] at lands
  -- the unread bytes lie between the two cursors, in one stretch
  have stretch : stop - start = stop % klogBufferSize - start % klogBufferSize := by
    unfold klogBufferSize at *
    omega
  obtain ⟨lost, rest, cut, _, laid, counted⟩ :=
    unread.laid.split_at (by unfold klogBufferSize at *; omega) (by omega) (Nat.le_refl _) lands
  have known : clampLevel level < klogLevelCount := by
    unfold clampLevel klogLevelCount
    split <;> omega
  have puts : Puts queue stop ⟨clampLevel level, msg⟩ (storeRecord queue (clampLevel level) msg) :=
    storeRecord_puts unread.capacity unread.writePos unread.alignedStop known
  have room : stop + span stop msg.msglen =
      start + (target - start % klogBufferSize) + klogBufferSize := by omega
  have aligned : 8 ∣ start + (target - start % klogBufferSize) := by
    have whole : 8 ∣ stop + span stop msg.msglen := Nat.dvd_add unread.alignedStop multiple
    have buffer : 8 ∣ klogBufferSize := by decide
    rw [room] at whole
    exact (Nat.dvd_add_left buffer).mp whole
  have laid' := laid.put aligned puts (Nat.le_of_eq room)
  refine ⟨lost, rest, start + (target - start % klogBufferSize), cut, ?_, ?_⟩
  · unfold klogWrite
    simp only [overruns, decide_true, if_true]
    refine ⟨puts.capacity.trans unread.capacity, ?_, puts.writePos, aligned,
      Nat.dvd_add unread.alignedStop multiple, by omega, Nat.le_of_eq room, ?_, laid', ?_⟩
    · dsimp only
      rw [puts.writePos]
      dsimp only
      rw [room, Nat.add_mod_right]
    · exact ⟨fun _ => room, fun _ => rfl⟩
    · intro record member
      rcases List.mem_append.mp member with old | new
      · exact unread.known record (cut ▸ List.mem_append_right lost old)
      · rw [List.mem_singleton.mp new]
        exact known
  · unfold klogWrite
    simp only [overruns, decide_true, if_true]
    unfold countRecords
    rw [next, unread.capacity, unread.readPos, ← goal, if_pos past, counted]

end Landing

section Read

variable {queue : KlogQueue} {start stop msgSize : Nat} {records : List Record} {record : Record}

theorem Unread.read_nothing (unread : Unread queue start stop []) (size : 0 < msgSize) :
    klogRead queue msgSize = .ok (none, queue) := by
  have same : start = stop := unread.laid
  have notFull : queue.full = false := by
    by_contra full
    have reached := unread.full.mp (Bool.eq_true_of_not_eq_false full)
    unfold klogBufferSize at reached
    omega
  have empty : queue.readPos = queue.writePos ∧ queue.full = false := by
    rw [unread.readPos, unread.writePos, same]
    exact ⟨rfl, notFull⟩
  unfold klogRead
  rw [unread.capacity]
  show klogReadFrom (klogBufferSize - 1 + 1) queue msgSize = _
  unfold klogReadFrom
  rw [if_neg (by omega), if_pos empty]

/-- Where `read_pos` goes behind a record. -/
def readPosAfter (queue : KlogQueue) (msglen : Nat) : Nat :=
  if queue.readPos + getRecordSize msglen ≥ queue.capacity then
    queue.readPos + getRecordSize msglen - queue.capacity
  else queue.readPos + getRecordSize msglen

/-- What is read of a message. -/
def excerpt (bytes : Memory) (msglen msgSize : Nat) : List UInt8 :=
  (List.range (min msglen (msgSize - 1))).map bytes

section Piece

variable {depth level msglen : Nat} {bytes : Memory}
  (piece : Piece queue.buffer queue.readPos level msglen bytes)
  (some : ¬ (queue.readPos = queue.writePos ∧ queue.full = false)) (size : 0 < msgSize)

include piece

theorem Piece.excerpt_eq :
    (List.range (if (getHeader queue.buffer queue.readPos).msglen < msgSize - 1 then
      (getHeader queue.buffer queue.readPos).msglen else msgSize - 1)).map
        (region queue.buffer (queue.readPos + headerSize)) = excerpt bytes msglen msgSize := by
  have copied : (if msglen < msgSize - 1 then msglen else msgSize - 1) =
      min msglen (msgSize - 1) := by
    split <;> omega
  rw [piece.hasMsglen, copied]
  refine List.map_congr_left fun i member => piece.content i ?_
  have := List.mem_range.mp member
  omega

include some size

theorem Piece.read_last (last : level ≠ klogWrap) : ∃ header : RecordHeader,
    header.level = level ∧ header.msglen = msglen ∧ klogReadFrom (depth + 1) queue msgSize =
      .ok (.some ⟨header, excerpt bytes msglen msgSize⟩,
        { queue with readPos := readPosAfter queue msglen, full := false }) := by
  refine ⟨getHeader queue.buffer queue.readPos, piece.hasLevel, piece.hasMsglen, ?_⟩
  unfold klogReadFrom
  rw [if_neg (Nat.ne_of_gt size), if_neg some]
  dsimp only
  rw [piece.excerpt_eq, piece.hasLevel, if_neg last, piece.hasMsglen]
  rfl

theorem Piece.read_wrap (wrap : level = klogWrap) {reply : Reply} {after : KlogQueue}
    (rest : klogReadFrom depth { queue with readPos := readPosAfter queue msglen }
      (msgSize - min msglen (msgSize - 1)) = .ok (.some reply, after)) :
    klogReadFrom (depth + 1) queue msgSize =
      .ok (.some { reply with msg := excerpt bytes msglen msgSize ++ reply.msg },
        { after with full := false }) := by
  have copied : (if msglen < msgSize - 1 then msglen else msgSize - 1) =
      min msglen (msgSize - 1) := by
    split <;> omega
  unfold klogReadFrom
  rw [if_neg (Nat.ne_of_gt size), if_neg some]
  dsimp only
  rw [piece.excerpt_eq, piece.hasLevel, if_pos wrap, piece.hasMsglen, copied]
  unfold readPosAfter at rest
  rw [rest]
  rfl

end Piece

/-- The two parts of a message give the whole of it. -/
theorem excerpt_split (bytes : Memory) {msglen first msgSize : Nat} (within : first ≤ msglen)
    (size : 0 < msgSize) : excerpt bytes first msgSize ++
      excerpt (region bytes first) (msglen - first) (msgSize - min first (msgSize - 1)) =
        excerpt bytes msglen msgSize := by
  unfold excerpt
  by_cases all : first ≤ msgSize - 1
  · have total : min msglen (msgSize - 1) =
        first + min (msglen - first) (msgSize - first - 1) := by omega
    rw [Nat.min_eq_left all, total, List.range_add, List.map_append, List.map_map]
    rfl
  · have none : min (msglen - first) (msgSize - min first (msgSize - 1) - 1) = 0 := by omega
    have cut : min first (msgSize - 1) = min msglen (msgSize - 1) := by omega
    rw [none, cut, List.range_zero, List.map_nil, List.append_nil]

/-- The bytes of the last part of a record. -/
def lastLength (p msglen : Nat) : Nat := if Whole p msglen then msglen else msglen - headLength p

/-- The header given back is the one of the last part. -/
theorem Unread.read_record (unread : Unread queue start stop (record :: records))
    (size : 0 < msgSize) : ∃ reply after, klogRead queue msgSize = .ok (some reply, after) ∧
      (reply.header.level, reply.msg) = record.shown msgSize ∧
      reply.header.msglen = lastLength start record.msg.msglen ∧
      Unread after (start + span start record.msg.msglen) stop records ∧
      after.drops = queue.drops := by
  obtain ⟨multiple, positive, total, header, split⟩ := span_facts record.msg unread.alignedStart
  have later := Laid.le unread.laid.2
  have fits := unread.fits
  have known := unread.known record List.mem_cons_self
  have last : record.level ≠ klogWrap := by
    unfold klogWrap klogLevelCount at *
    omega
  have some : ¬ (queue.readPos = queue.writePos ∧ queue.full = false) := by
    rw [unread.readPos, unread.writePos]
    rintro ⟨same, notFull⟩
    have less : stop ≠ start + klogBufferSize := by
      intro reached
      rw [unread.full.mpr reached] at notFull
      cases notFull
    unfold klogBufferSize headerSize at *
    omega
  have stored := unread.laid.1
  unfold Stored at stored
  have goes : ∀ after : KlogQueue, after.capacity = queue.capacity → after.buffer = queue.buffer →
      after.writePos = queue.writePos → after.full = false →
      after.readPos = (start + span start record.msg.msglen) % klogBufferSize →
      Unread after (start + span start record.msg.msglen) stop records := by
    intro after capacity buffer writePos full readPos
    refine ⟨capacity.trans unread.capacity, readPos, writePos.trans unread.writePos,
      Nat.dvd_add unread.alignedStart multiple, unread.alignedStop, later, by omega, ?_, ?_,
      fun other member => unread.known other (List.mem_cons_of_mem _ member)⟩
    · rw [full]
      unfold headerSize at positive
      constructor
      · intro absurd
        cases absurd
      · omega
    · rw [buffer]
      exact unread.laid.2
  unfold klogRead
  rw [unread.capacity]
  show ∃ reply after, klogReadFrom (klogBufferSize - 2 + 1 + 1) queue msgSize = _ ∧ _
  by_cases whole : Whole start record.msg.msglen
  · have length : span start record.msg.msglen = getRecordSize record.msg.msglen := if_pos whole
    rw [if_pos whole, ← unread.readPos] at stored
    obtain ⟨found, level, msglen, reads⟩ := stored.read_last some size last
    refine ⟨_, _, reads, ?_, ?_, goes _ rfl rfl rfl rfl ?_, rfl⟩
    · dsimp only
      rw [level]
      rfl
    · dsimp only
      rw [msglen, lastLength, if_pos whole]
    · dsimp only
      unfold readPosAfter
      rw [unread.capacity, unread.readPos, length]
      unfold Whole klogBufferSize at *
      split <;> omega
  · have length : span start record.msg.msglen = klogBufferSize - start % klogBufferSize +
        getRecordSize (record.msg.msglen - headLength start) := if_neg whole
    obtain ⟨less, limit⟩ := split whole
    have bounds := getRecordSize_bounds (record.msg.msglen - headLength start)
    rw [if_neg whole, ← unread.readPos] at stored
    have turned : readPosAfter queue (headLength start) = 0 := by
      have aligned := unread.alignedStart
      unfold readPosAfter
      rw [unread.capacity, unread.readPos]
      unfold getRecordSize headLength headerSize klogBufferSize at *
      split <;> omega
    obtain ⟨second, same⟩ : ∃ second : KlogQueue, second =
      { queue with readPos := readPosAfter queue (headLength start) } := ⟨_, rfl⟩
    have secondPart : Piece second.buffer second.readPos record.level
        (record.msg.msglen - headLength start) (region record.msg.bytes (headLength start)) := by
      rw [same, turned]
      exact stored.2
    have some' : ¬ (second.readPos = second.writePos ∧ second.full = false) := by
      rw [same]
      dsimp only
      rw [turned, unread.writePos]
      rintro ⟨zero, _⟩
      unfold klogBufferSize headerSize at *
      omega
    have ends : readPosAfter second (record.msg.msglen - headLength start) =
        (start + span start record.msg.msglen) % klogBufferSize := by
      have zero : second.readPos = 0 := by
        rw [same]
        exact turned
      have whole' : second.capacity = klogBufferSize := by
        rw [same]
        exact unread.capacity
      unfold readPosAfter
      rw [zero, whole', length]
      unfold klogBufferSize at *
      split <;> omega
    obtain ⟨found, level, msglen, reads⟩ := secondPart.read_last some'
      (show 0 < msgSize - min (headLength start) (msgSize - 1) by omega) last
    rw [same] at reads
    refine ⟨_, _, stored.1.read_wrap some size rfl reads, ?_, ?_, goes _ rfl rfl rfl rfl ?_, rfl⟩
    · dsimp only
      rw [level, excerpt_split _ (Nat.le_of_lt less) size]
      rfl
    · dsimp only
      rw [msglen, lastLength, if_neg whole]
    · dsimp only
      rw [← same]
      exact ends

end Read

end Opal.Klog
