import Opal.Klog.Overrun

/-!
# Runs of the kernel log

The log is meant to be a queue that forgets its oldest records when it runs out of room,
and counts them.  `Explains` says that what the callers have seen is what such a queue
shows.  The ring behaves like that as long as every write fits behind the unread records
or ends where one of them starts.
-/

namespace Opal.Klog

open Memory

section Specification

/-- A queue of records with the number of those that were lost. -/
structure Log where
  unread : List Record
  lost : Nat

/-- The events are those of a queue that lost records only at its old end. -/
inductive Explains : List Event → Log → Prop where
  | start : Explains [] ⟨[], 0⟩
  | write {history : List Event} {forgotten rest : List Record} {lost : Nat} (record : Record)
      (before : Explains history ⟨forgotten ++ rest, lost⟩) :
      Explains (history ++ [.wrote record]) ⟨rest ++ [record], lost + forgotten.length⟩
  | read {history : List Event} {record : Record} {rest : List Record} {lost : Nat} (msgSize : Nat)
      (before : Explains history ⟨record :: rest, lost⟩) :
      Explains (history ++ [.read msgSize (record.shown msgSize)]) ⟨rest, lost⟩
  | nothing {history : List Event} {lost : Nat} (before : Explains history ⟨[], lost⟩) :
      Explains (history ++ [.nothing]) ⟨[], lost⟩

/-- What holds of the log between the calls that are `allowed`. -/
structure LogSound (allowed : System → Call → Prop) (system : System) : Prop where
  explained : ∃ log, Explains system.history log ∧ system.queue.drops = log.lost % 2 ^ 32
  /-- No assertion fires in the next call. -/
  returns : ∀ call, allowed system call → ∃ after, step system call = .ok after

def writtenLevels (history : List Event) : List Nat :=
  history.filterMap fun
    | .wrote record => some record.level
    | _ => none

def readLevels (history : List Event) : List Nat :=
  history.filterMap fun
    | .read _ shown => some shown.1
    | _ => none

/-- The levels that were read are among those that were written, in their order. -/
theorem Explains.levels {history : List Event} {log : Log} (explains : Explains history log) :
    (readLevels history ++ log.unread.map Record.level).Sublist (writtenLevels history) := by
  induction explains with
  | start => exact List.Sublist.refl _
  | @write history forgotten rest lost record _ inductionHypothesis =>
      have fewer : (readLevels history ++ rest.map Record.level).Sublist
          (readLevels history ++ (forgotten ++ rest).map Record.level) := by
        rw [List.map_append]
        exact (List.sublist_append_right _ _).append_left _
      have grown := (fewer.trans inductionHypothesis).append_right [record.level]
      simpa [readLevels, writtenLevels] using grown
  | @read history record rest lost msgSize _ inductionHypothesis =>
      simpa [readLevels, writtenLevels, Record.shown] using inductionHypothesis
  | @nothing history lost _ inductionHypothesis =>
      simpa [readLevels, writtenLevels] using inductionHypothesis

/-- Every record that was written has been read, is unread or was lost. -/
theorem Explains.count {history : List Event} {log : Log} (explains : Explains history log) :
    (readLevels history).length + log.unread.length + log.lost =
      (writtenLevels history).length := by
  induction explains with
  | start => rfl
  | write record _ inductionHypothesis =>
      simp [readLevels, writtenLevels] at inductionHypothesis ⊢
      omega
  | read msgSize _ inductionHypothesis =>
      simp [readLevels, writtenLevels] at inductionHypothesis ⊢
      omega
  | nothing _ inductionHypothesis =>
      simp [readLevels, writtenLevels] at inductionHypothesis ⊢
      omega

end Specification

section Invariant

variable {system : System}

/-- The write fits behind the unread records, or it ends at the start of one of them. -/
def Safe (queue : KlogQueue) (level : Nat) (msg : Message) : Prop :=
  unreadBytes queue + span queue.writePos msg.msglen ≤ queue.capacity ∨
    Overruns queue (clampLevel level) msg.msglen ∧ Lands queue (clampLevel level) msg.msglen

instance (queue : KlogQueue) (level : Nat) (msg : Message) : Decidable (Safe queue level msg) :=
  inferInstanceAs (Decidable (_ ∨ _))

def admitsSafe (system : System) : Call → Prop
  | .write level msg => Safe system.queue level msg
  | .read msgSize => 0 < msgSize

instance (system : System) : ∀ call, Decidable (admitsSafe system call)
  | .write level msg => inferInstanceAs (Decidable (Safe system.queue level msg))
  | .read msgSize => inferInstanceAs (Decidable (0 < msgSize))

/-- The ring holds the unread records of a queue that explains the history. -/
def Inv (system : System) : Prop :=
  ∃ start stop log, Unread system.queue start stop log.unread ∧ Explains system.history log ∧
    system.queue.drops = log.lost % 2 ^ 32

theorem span_mod (p msglen : Nat) : span (p % klogBufferSize) msglen = span p msglen := by
  have head : headLength (p % klogBufferSize) = headLength p := by
    unfold headLength
    rw [Nat.mod_mod]
  have whole : Whole (p % klogBufferSize) msglen ↔ Whole p msglen := by
    unfold Whole
    rw [Nat.mod_mod]
  simp only [span, whole, head, Nat.mod_mod]

theorem init_unread (buffer : Memory) : Unread (klogQueue buffer) 0 0 [] := by
  refine ⟨rfl, rfl, rfl, Nat.dvd_zero 8, Nat.dvd_zero 8, Nat.le_refl 0, Nat.zero_le _, ?_, rfl,
    fun _ member => absurd member List.not_mem_nil⟩
  constructor
  · intro full
    cases full
  · intro zero
    cases zero

theorem init_inv (buffer : Memory) : Inv (System.init buffer) :=
  ⟨0, 0, ⟨[], 0⟩, init_unread buffer, .start, rfl⟩

/-- A call keeps the invariant and returns. -/
theorem Inv.step {call : Call} (inv : Inv system) (allowed : admitsSafe system call) :
    ∃ after, step system call = .ok after ∧ Inv after := by
  obtain ⟨start, stop, ⟨records, lost⟩, unread, explains, drops⟩ := inv
  cases call with
  | write level msg =>
      refine ⟨_, rfl, ?_⟩
      rcases allowed with room | ⟨overruns, lands⟩
      · rw [unread.unreadBytes_eq, unread.writePos, span_mod, unread.capacity] at room
        have le := unread.le
        obtain ⟨unread', kept⟩ := @Unread.write_fits _ _ _ level _ msg unread (by omega)
        exact ⟨start, _, ⟨records ++ [.of level msg], lost⟩, unread',
          @Explains.write _ [] _ _ _ explains, kept.trans drops⟩
      · obtain ⟨forgotten, rest, start', cut, unread', counted⟩ := unread.write_lands overruns lands
        subst cut
        refine ⟨start', _, ⟨rest ++ [.of level msg], lost + forgotten.length⟩, unread',
          Explains.write _ explains, ?_⟩
        rw [counted, drops, Nat.mod_add_mod]
  | read msgSize =>
      cases records with
      | nil =>
          refine ⟨⟨system.queue, system.history ++ [.nothing]⟩, ?_, start, stop, ⟨[], lost⟩, unread,
            explains.nothing, drops⟩
          show (klogRead system.queue msgSize >>= _) = _
          rw [unread.read_nothing allowed]
          rfl
      | cons record rest =>
          obtain ⟨reply, after, reads, shown, -, unread', kept⟩ := unread.read_record allowed
          refine ⟨⟨after, system.history ++ [.read msgSize (reply.header.level, reply.msg)]⟩, ?_,
            _, stop, ⟨rest, lost⟩, unread', ?_, kept.trans drops⟩
          · show (klogRead system.queue msgSize >>= _) = _
            rw [reads]
            rfl
          · rw [shown]
            exact explains.read msgSize

end Invariant

section Runs

variable {system : System}

/-- While every write fits or ends at the start of an unread record, the log is a queue
that forgets its oldest records and counts them. -/
theorem run_log {buffer : Memory} (reached : Reaches step admitsSafe (System.init buffer) system) :
    LogSound admitsSafe system := by
  have inv : Inv system := by
    refine reached.invariant (init_inv buffer) fun before call inv allowed =>
      (show Ensures (fun _ => False) _ _ from ?_)
    obtain ⟨after, returned, inv'⟩ := inv.step allowed
    rw [returned]
    exact inv'
  refine ⟨?_, fun call allowed => ?_⟩
  · obtain ⟨_, _, log, _, explains, drops⟩ := inv
    exact ⟨log, explains, drops⟩
  · obtain ⟨after, returned, _⟩ := inv.step allowed
    exact ⟨after, returned⟩

/-- A message whose record takes a sixteenth of the buffer. -/
def exampleMessage : Message := ⟨fun _ => 65, 65528, by decide⟩

def shorterMessage : Message := ⟨fun _ => 66, 65520, by decide⟩

/-- The last message wraps around and ends where the second record starts. -/
def exampleCalls : List Call :=
  List.replicate 15 (.write 4 exampleMessage) ++ [.write 3 shorterMessage,
    .write 9 exampleMessage, .read 4, .read 4]

def exampleStart : System := System.init fun _ => 0

theorem run_log_wraps : ∃ after, runFrom step admitsSafe exampleStart exampleCalls = some after ∧
    readLevels after.history = [4, 4] ∧ after.queue.drops = 1 ∧ LogSound admitsSafe after := by
  have seen : (runFrom step admitsSafe exampleStart exampleCalls).map
      (fun after => (readLevels after.history, after.queue.drops)) = some ([4, 4], 1) := by
    decide +kernel
  cases ran : runFrom step admitsSafe exampleStart exampleCalls with
  | none =>
      rw [ran] at seen
      cases seen
  | some after =>
      rw [ran] at seen
      have seen' := Option.some.inj seen
      exact ⟨after, rfl, congrArg Prod.fst seen', congrArg Prod.snd seen',
        run_log (Reaches.start.of_runFrom ran)⟩

/-- Sixteen records fill the buffer, and one more overwrites the first of them unnoticed:
the newest record is read first and no record is counted as lost. -/
def overrunCalls : List Call :=
  List.replicate 16 (.write 4 exampleMessage) ++ [.write 3 exampleMessage, .read 1]

theorem overrun_unnoticed :
    ¬ ∀ system, Reaches step admits exampleStart system → LogSound admits system := by
  intro claim
  have seen : (runFrom step admits exampleStart overrunCalls).map
      (fun after => (readLevels after.history, writtenLevels after.history, after.queue.drops)) =
        some ([3], List.replicate 16 4 ++ [3], 0) := by decide +kernel
  cases ran : runFrom step admits exampleStart overrunCalls with
  | none =>
      rw [ran] at seen
      cases seen
  | some after =>
      rw [ran] at seen
      have seen' := Option.some.inj seen
      have reads : readLevels after.history = [3] := congrArg Prod.fst seen'
      have writes : writtenLevels after.history = List.replicate 16 4 ++ [3] :=
        congrArg (fun triple => triple.2.1) seen'
      have drops : after.queue.drops = 0 := congrArg (fun triple => triple.2.2) seen'
      obtain ⟨log, explains, counted⟩ := (claim after (Reaches.start.of_runFrom ran)).explained
      -- nothing was lost, so the records read and unread would be all those written
      have count := explains.count
      have none : log.lost = 0 := by
        rw [drops] at counted
        rw [reads, writes] at count
        simp only [List.length_append, List.length_replicate, List.length_singleton] at count
        omega
      have all := explains.levels.eq_of_length (by simp; omega)
      rw [reads, writes] at all
      exact absurd (List.cons.inj all).1 (by decide)

end Runs

end Opal.Klog
