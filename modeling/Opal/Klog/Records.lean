import Opal.Klog.Queue
import Opal.Library.Ring

/-!
# Records in the ring

The bytes written to the log are numbered without end; byte `y` lies at `y` modulo the
size of the buffer.  `Stored` says that a record starts at such a byte, in one piece or
in two, and `Laid` that records follow each other without a gap.
-/

namespace Opal.Klog

open Memory

section Sizes

theorem getRecordSize_bounds (msglen : Nat) : headerSize + msglen ≤ getRecordSize msglen ∧
    getRecordSize msglen < headerSize + msglen + 8 ∧ 8 ∣ getRecordSize msglen := by
  unfold getRecordSize headerSize
  omega

end Sizes

section Pieces

variable {mem mem' bytes : Memory} {pos : Nat} {header : RecordHeader}

/-- A header and its message lie at the position. -/
structure Piece (mem : Memory) (pos level msglen : Nat) (bytes : Memory) : Prop where
  hasMsglen : (getHeader mem pos).msglen = msglen
  hasLevel : (getHeader mem pos).level = level
  content : ∀ i < msglen, mem (pos + headerSize + i) = bytes i

theorem Piece.frame {level msglen : Nat} (piece : Piece mem pos level msglen bytes)
    (same : ∀ x, pos ≤ x → x < pos + headerSize + msglen → mem' x = mem x) :
    Piece mem' pos level msglen bytes where
  hasMsglen := by
    rw [← piece.hasMsglen]
    exact word_congr fun i lower => same _ (by omega) (by unfold headerSize; omega)
  hasLevel := by
    rw [← piece.hasLevel]
    exact word_congr fun i lower => same _ (by omega) (by unfold headerSize; omega)
  content := by
    intro i lower
    rw [same _ (by omega) (by omega)]
    exact piece.content i lower

theorem putHeader_outside {x : Nat} (outside : x < pos ∨ pos + headerSize ≤ x) :
    putHeader mem pos header x = mem x := by
  unfold putHeader
  unfold headerSize at outside
  rw [copyInto_outside (by omega), copyInto_outside (by omega), copyInto_outside (by omega)]

theorem putPiece_outside {x : Nat} (outside : x < pos ∨ pos + headerSize + header.msglen ≤ x) :
    putPiece mem pos header bytes x = mem x := by
  unfold putPiece
  rw [copyInto_outside (by omega), putHeader_outside (by omega)]

theorem getHeader_putHeader (msglen : header.msglen < 2 ^ 16) (level : header.level < 2 ^ 16) :
    (getHeader (putHeader mem pos header) pos).msglen = header.msglen ∧
      (getHeader (putHeader mem pos header) pos).level = header.level := by
  have value : ∀ n, word (bytesOf n) 0 2 = n % 2 ^ 16 := fun n => by
    rw [word_bytesOf]
    simp
  constructor
  · rw [← Nat.mod_eq_of_lt msglen, ← value]
    refine word_congr fun i lower => ?_
    unfold putHeader
    rw [copyInto_outside (by omega), copyInto_inside lower, Nat.zero_add]
  · rw [← Nat.mod_eq_of_lt level, ← value]
    refine word_congr fun i lower => ?_
    unfold putHeader
    rw [copyInto_inside lower, Nat.zero_add]

theorem piece_putPiece (msglen : header.msglen < 2 ^ 16) (level : header.level < 2 ^ 16) :
    Piece (putPiece mem pos header bytes) pos header.level header.msglen bytes := by
  have kept : ∀ x, pos ≤ x → x < pos + headerSize + 0 →
      putPiece mem pos header bytes x = putHeader mem pos header x := by
    intro x _ upper
    exact copyInto_outside (.inl upper)
  have written := @getHeader_putHeader mem pos header msglen level
  refine ⟨?_, ?_, fun i lower => copyInto_inside lower⟩
  · rw [← written.1]
    exact word_congr fun i lower => kept _ (by omega) (by unfold headerSize; omega)
  · rw [← written.2]
    exact word_congr fun i lower => kept _ (by omega) (by unfold headerSize; omega)

end Pieces

section Stored

variable {mem mem' : Memory} {p q : Nat} {record : Record}

/-- The bytes of the first part of a record that is split. -/
def headLength (p : Nat) : Nat := klogBufferSize - p % klogBufferSize - headerSize

/-- The record fits before the end of the buffer. -/
def Whole (p msglen : Nat) : Prop := p % klogBufferSize + getRecordSize msglen ≤ klogBufferSize

instance (p msglen : Nat) : Decidable (Whole p msglen) := inferInstanceAs (Decidable (_ ≤ _))

/-- The number of bytes the record takes. -/
def span (p msglen : Nat) : Nat :=
  if Whole p msglen then getRecordSize msglen
  else klogBufferSize - p % klogBufferSize + getRecordSize (msglen - headLength p)

def Stored (mem : Memory) (p : Nat) (record : Record) : Prop :=
  if Whole p record.msg.msglen then
    Piece mem (p % klogBufferSize) record.level record.msg.msglen record.msg.bytes
  else
    Piece mem (p % klogBufferSize) klogWrap (headLength p) record.msg.bytes ∧
      Piece mem 0 record.level (record.msg.msglen - headLength p)
        (region record.msg.bytes (headLength p))

/-- The records follow each other from `p` to `q`. -/
def Laid (mem : Memory) : Nat → List Record → Nat → Prop
  | p, [], q => p = q
  | p, record :: rest, q =>
      Stored mem p record ∧ Laid mem (p + span p record.msg.msglen) rest q

/-- The sizes of a record at an aligned byte. -/
theorem span_facts (msg : Message) (aligned : 8 ∣ p) :
    8 ∣ span p msg.msglen ∧ headerSize ≤ span p msg.msglen ∧
      span p msg.msglen < klogBufferSize ∧ p % klogBufferSize + headerSize ≤ klogBufferSize ∧
      (¬ Whole p msg.msglen → headLength p < msg.msglen ∧
        getRecordSize (msg.msglen - headLength p) < klogBufferSize) := by
  have small := msg.small
  by_cases whole : Whole p msg.msglen
  · have size : span p msg.msglen = getRecordSize msg.msglen := if_pos whole
    rw [size]
    unfold Whole getRecordSize headerSize klogBufferSize at *
    omega
  · have size : span p msg.msglen = klogBufferSize - p % klogBufferSize +
        getRecordSize (msg.msglen - headLength p) := if_neg whole
    rw [size]
    unfold Whole headLength getRecordSize headerSize klogBufferSize at *
    omega

/-- Bytes `y` of the record determine that it is stored. -/
theorem Stored.frame (stored : Stored mem p record) (aligned : 8 ∣ p)
    (same : ∀ y, p ≤ y → y < p + span p record.msg.msglen →
      mem' (y % klogBufferSize) = mem (y % klogBufferSize)) : Stored mem' p record := by
  obtain ⟨_, _, _, _, split⟩ := span_facts record.msg aligned
  unfold Stored at stored ⊢
  by_cases whole : Whole p record.msg.msglen
  · rw [if_pos whole] at stored ⊢
    refine stored.frame fun x lower upper => ?_
    have size := getRecordSize_bounds record.msg.msglen
    have place : (p + (x - p % klogBufferSize)) % klogBufferSize = x := by
      unfold Whole klogBufferSize at *
      omega
    have kept := same (p + (x - p % klogBufferSize)) (Nat.le_add_right _ _) (by
      unfold span
      rw [if_pos whole]
      omega)
    rwa [place] at kept
  · rw [if_neg whole] at stored ⊢
    have total : span p record.msg.msglen = klogBufferSize - p % klogBufferSize +
        getRecordSize (record.msg.msglen - headLength p) := if_neg whole
    have size := getRecordSize_bounds (record.msg.msglen - headLength p)
    obtain ⟨_, limit⟩ := split whole
    refine ⟨stored.1.frame fun x lower upper => ?_, stored.2.frame fun x lower upper => ?_⟩
    · have place : (p + (x - p % klogBufferSize)) % klogBufferSize = x := by
        unfold headLength headerSize klogBufferSize at *
        omega
      have kept := same (p + (x - p % klogBufferSize)) (Nat.le_add_right _ _) (by
        unfold headLength headerSize klogBufferSize at *
        omega)
      rwa [place] at kept
    · have place : (p + (klogBufferSize - p % klogBufferSize) + x) % klogBufferSize = x := by
        unfold klogBufferSize at *
        omega
      have kept := same (p + (klogBufferSize - p % klogBufferSize) + x) (by omega) (by omega)
      rwa [place] at kept

theorem Laid.le {records : List Record} (laid : Laid mem p records q) : p ≤ q := by
  induction records generalizing p with
  | nil => exact Nat.le_of_eq laid
  | cons record rest inductionHypothesis =>
      exact Nat.le_trans (Nat.le_add_right _ _) (inductionHypothesis laid.2)

theorem Laid.frame {records : List Record} (laid : Laid mem p records q) (aligned : 8 ∣ p)
    (same : ∀ y, p ≤ y → y < q → mem' (y % klogBufferSize) = mem (y % klogBufferSize)) :
    Laid mem' p records q := by
  induction records generalizing p with
  | nil => exact laid
  | cons record rest inductionHypothesis =>
      have later := Laid.le laid.2
      refine ⟨laid.1.frame aligned fun y lower upper => same y lower (by omega), ?_⟩
      refine inductionHypothesis laid.2 ?_ fun y lower upper => same y (by omega) upper
      exact Nat.dvd_add aligned (span_facts record.msg aligned).1

theorem Laid.concat {records : List Record} (laid : Laid mem p records q)
    (last : Stored mem q record) :
    Laid mem p (records ++ [record]) (q + span q record.msg.msglen) := by
  induction records generalizing p with
  | nil =>
      obtain rfl : p = q := laid
      exact ⟨last, rfl⟩
  | cons first rest inductionHypothesis => exact ⟨laid.1, inductionHypothesis laid.2⟩

end Stored

end Opal.Klog
