import Opal.Library.Bytes
import Opal.Library.Outcome

/-!
# The kernel log

A ring of bytes with variable-length records.  A record is a header of eight bytes and
its message, rounded up to a multiple of eight; one that does not fit before the end of
the buffer is split in two, and the level of its first part is `KLOG_WRAP`.  Every call
runs with interrupts off.
-/

namespace Opal.Klog

open Memory

section Data

def klogWrap : Nat := 2 ^ 16 - 1
def klogBufferSize : Nat := 0x100000
def klogLevelCount : Nat := 6

/-- `sizeof(struct klog_record_header)`. -/
def headerSize : Nat := 8

structure KlogQueue where
  buffer : Memory
  capacity : Nat
  writePos : Nat
  writeSeq : Nat
  readPos : Nat
  drops : Nat
  full : Bool

structure RecordHeader where
  seq : Nat
  msglen : Nat
  level : Nat
  deriving DecidableEq, Repr

/-- A message of a caller; its length is a `uint16_t`. -/
structure Message where
  bytes : Memory
  msglen : Nat
  small : msglen < 2 ^ 16

/-- What `klog_read` gives back: the header and the bytes before the terminating NUL. -/
structure Reply where
  header : RecordHeader
  msg : List UInt8
  deriving DecidableEq, Repr

/-- The assertions of `klog_read`, and a recursion that goes on. -/
inductive Stop where
  | emptyMsgOut
  | wrapMarkerAlone
  | endless
  deriving DecidableEq, Repr

def klogQueue (buffer : Memory) : KlogQueue where
  buffer := buffer
  capacity := klogBufferSize
  writePos := 0
  writeSeq := 0
  readPos := 0
  drops := 0
  full := false

end Data

section Records

/-- The header and message rounded up to a multiple of the header's size. -/
def getRecordSize (msglen : Nat) : Nat := (headerSize + msglen + 7) / 8 * 8

def getHeader (buffer : Memory) (pos : Nat) : RecordHeader :=
  ⟨word buffer pos 4, word buffer (pos + 4) 2, word buffer (pos + 6) 2⟩

def putHeader (buffer : Memory) (pos : Nat) (header : RecordHeader) : Memory :=
  copyInto (copyInto (copyInto buffer pos 4 (bytesOf header.seq))
    (pos + 4) 2 (bytesOf header.msglen)) (pos + 6) 2 (bytesOf header.level)

/-- A header with the message behind it. -/
def putPiece (buffer : Memory) (pos : Nat) (header : RecordHeader) (msg : Memory) : Memory :=
  copyInto (putHeader buffer pos header) (pos + headerSize) header.msglen msg

/-- The loop of `count_records`; every round moves `pos` on. -/
def countLoop (buffer : Memory) (capacity : Nat) : Nat → Nat → Nat → Nat
  | 0, _, _ => 0
  | rounds + 1, pos, stop =>
      if pos < stop then
        let wrapped := if pos ≥ capacity then capacity else 0
        let size := getRecordSize (getHeader buffer (pos - wrapped)).msglen
        1 + countLoop buffer capacity rounds (pos - wrapped + size) (stop - wrapped)
      else 0

def countRecords (queue : KlogQueue) (start stop : Nat) : Nat :=
  let stop := if stop > start then stop else stop + queue.capacity
  countLoop queue.buffer queue.capacity (stop - start) start stop

end Records

section Write

variable (queue : KlogQueue)

/-- Where the parts of a new record go. -/
structure Plan where
  writePos1 : Nat
  recordSize1 : Nat
  msglen1 : Nat
  level1 : Nat
  msglen2 : Nat
  recordSize2 : Nat
  nextWritePos : Nat
  deriving DecidableEq, Repr

def plan (level msglen : Nat) : Plan :=
  let recordSize := getRecordSize msglen
  if queue.writePos + recordSize > queue.capacity then
    if queue.writePos + headerSize > queue.capacity then
      ⟨0, recordSize, msglen, level, 0, 0, queue.capacity⟩
    else
      let msglen1 := queue.capacity - queue.writePos - headerSize
      let recordSize2 := getRecordSize (msglen - msglen1)
      ⟨queue.writePos, headerSize + msglen1, msglen1, klogWrap, msglen - msglen1, recordSize2,
        queue.capacity + recordSize2⟩
  else ⟨queue.writePos, recordSize, msglen, level, 0, 0, queue.writePos + recordSize⟩

def clampLevel (level : Nat) : Nat :=
  if level ≥ klogLevelCount then klogLevelCount - 1 else level

/-- The record overruns the data that was not read. -/
def Overruns (level msglen : Nat) : Prop :=
  (plan queue level msglen).nextWritePos > queue.readPos + queue.capacity

instance (level msglen : Nat) : Decidable (Overruns queue level msglen) :=
  inferInstanceAs (Decidable (_ > _))

/-- The record is copied into the buffer and `write_pos` moves behind it. -/
def storeRecord (level : Nat) (msg : Message) : KlogQueue :=
  let plan := plan queue level msg.msglen
  let first : KlogQueue := { queue with
    buffer := putPiece queue.buffer plan.writePos1
      ⟨queue.writeSeq, plan.msglen1, plan.level1⟩ msg.bytes
    writeSeq := (queue.writeSeq + 1) % 2 ^ 32
    -- the capacity is a power of two, and its mask keeps the remainder
    writePos := (queue.writePos + plan.recordSize1) % queue.capacity }
  if plan.level1 = klogWrap then
    { first with
      buffer := putPiece first.buffer 0 ⟨first.writeSeq, plan.msglen2, level⟩
        (region msg.bytes plan.msglen1)
      writeSeq := (first.writeSeq + 1) % 2 ^ 32
      writePos := plan.recordSize2 }
  else first

def klogWrite (level : Nat) (msg : Message) : KlogQueue :=
  let level := clampLevel level
  let dropped := decide (Overruns queue level msg.msglen)
  let drops := if dropped then
      (queue.drops + countRecords queue queue.readPos
        ((plan queue level msg.msglen).nextWritePos - queue.capacity)) % 2 ^ 32
    else queue.drops
  let stored := storeRecord queue level msg
  let readPos := if dropped then stored.writePos else queue.readPos
  { stored with
    drops := drops
    readPos := readPos
    full := if stored.writePos = readPos then true else queue.full }

end Write

section Read

/-- `klog_read`, which calls itself behind the first part of a split record. -/
def klogReadFrom : Nat → KlogQueue → Nat → Except Stop (Option Reply × KlogQueue)
  | 0, _, _ => .error .endless
  | depth + 1, queue, msgSize =>
      if msgSize = 0 then .error .emptyMsgOut
      else if queue.readPos = queue.writePos ∧ queue.full = false then .ok (none, queue)
      else
        let header := getHeader queue.buffer queue.readPos
        let copied := if header.msglen < msgSize - 1 then header.msglen else msgSize - 1
        let msg := (List.range copied).map (region queue.buffer (queue.readPos + headerSize))
        let readPos := queue.readPos + getRecordSize header.msglen
        let queue := { queue with
          readPos := if readPos ≥ queue.capacity then readPos - queue.capacity else readPos }
        if header.level = klogWrap then do
          let (reply, queue) ← klogReadFrom depth queue (msgSize - copied)
          match reply with
          | none => .error .wrapMarkerAlone
          | some reply =>
              pure (some { reply with msg := msg ++ reply.msg }, { queue with full := false })
        else .ok (some ⟨header, msg⟩, { queue with full := false })

def klogRead (queue : KlogQueue) (msgSize : Nat) : Except Stop (Option Reply × KlogQueue) :=
  klogReadFrom queue.capacity queue msgSize

end Read

section Runs

inductive Call where
  | write (level : Nat) (msg : Message)
  | read (msgSize : Nat)

/-- A record as it was written. -/
structure Record where
  level : Nat
  msg : Message

def Record.of (level : Nat) (msg : Message) : Record := ⟨clampLevel level, msg⟩

/-- The level and the message up to the size of the buffer. -/
def Record.shown (record : Record) (msgSize : Nat) : Nat × List UInt8 :=
  (record.level, (List.range (min record.msg.msglen (msgSize - 1))).map record.msg.bytes)

/-- What the callers of the log have seen. -/
inductive Event where
  | wrote (record : Record)
  | read (msgSize : Nat) (shown : Nat × List UInt8)
  | nothing

/-- The log with its history, which no operation reads. -/
structure System where
  queue : KlogQueue
  history : List Event

def System.init (buffer : Memory) : System := ⟨klogQueue buffer, []⟩

def step (system : System) : Call → Except Stop System
  | .write level msg =>
      .ok ⟨klogWrite system.queue level msg, system.history ++ [.wrote (.of level msg)]⟩
  | .read msgSize => do
      let (reply, queue) ← klogRead system.queue msgSize
      match reply with
      | none => pure ⟨queue, system.history ++ [.nothing]⟩
      | some reply =>
          pure ⟨queue, system.history ++ [.read msgSize (reply.header.level, reply.msg)]⟩

/-- `klog_read` wants a buffer for the message. -/
def admits (_ : System) : Call → Prop
  | .write _ _ => True
  | .read msgSize => 0 < msgSize

instance (system : System) (call : Call) : Decidable (admits system call) := by
  cases call <;> unfold admits <;> infer_instance

end Runs

end Opal.Klog
