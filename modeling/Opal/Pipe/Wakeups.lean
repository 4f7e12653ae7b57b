import Opal.Pipe.Stream

/-!
# No wakeup is lost

A signal of an event wakes one task, which has to pass the signal on if it leaves
something for another one.  The pipe owes the tasks that wait for an event a number of
woken tasks that have not looked at the pipe yet: one for the data or the room that is
there, and the readers one more once there are no writers.  A signal adds a woken task, and
a woken task that comes back takes one away.
-/

namespace Opal.Pipe

section Tokens

variable {Tid : Type} {s s' : System Tid} {tid : Tid} {side : Side} {debt : Side → Nat}

def Waits (s : System Tid) (side : Side) (tid : Tid) : Prop :=
  ∃ op, s.activity tid = .blocked op ∧ op.side = side

/-- The task has been woken from the event and has not looked at the pipe again. -/
def Woken (s : System Tid) (side : Side) (tid : Tid) : Prop :=
  ∃ op, s.activity tid = .woken op ∧ op.side = side

/-- There are so many tasks that were woken from the event. -/
def AtLeast (n : Nat) (s : System Tid) (side : Side) : Prop :=
  ∃ tids : List Tid, tids.Nodup ∧ n ≤ tids.length ∧ ∀ tid ∈ tids, Woken s side tid

/-- The lists of the events hold the tasks that wait for them, and where a task waits, so
many tasks are on their way as the pipe owes. -/
structure Owes (debt : Side → Nat) (s : System Tid) : Prop where
  listed : ∀ side tid, tid ∈ (s.pipe.event side).waitList ↔ Waits s side tid
  nodup : ∀ side, (s.pipe.event side).waitList.Nodup
  woken : ∀ side, (s.pipe.event side).waitList ≠ [] → AtLeast (debt side) s side

theorem Owes.mono {less : Side → Nat} (owes : Owes debt s) (le : ∀ side, less side ≤ debt side) :
    Owes less s := by
  refine { owes with woken := fun side waiting => ?_ }
  obtain ⟨tids, nodup, enough, woken⟩ := owes.woken side waiting
  exact ⟨tids, nodup, Nat.le_trans (le side) enough, woken⟩

/-- Only the events and the tasks matter. -/
theorem Owes.congr (owes : Owes debt s) (event : s'.pipe.event = s.pipe.event)
    (activity : s'.activity = s.activity) : Owes debt s' := by
  obtain ⟨listed, nodup, woken⟩ := owes
  unfold AtLeast Woken at woken
  unfold Waits at listed
  rw [← event] at listed nodup woken
  rw [← activity] at listed woken
  exact ⟨listed, nodup, woken⟩

theorem AtLeast.of_woken {n : Nat} (enough : AtLeast n s side)
    (still : ∀ tid, Woken s side tid → Woken s' side tid) : AtLeast n s' side := by
  obtain ⟨tids, nodup, length, woken⟩ := enough
  exact ⟨tids, nodup, length, fun tid member => still tid (woken tid member)⟩

variable [DecidableEq Tid]

/-- One task fewer counts once it has come back. -/
theorem AtLeast.erase {n : Nat} (enough : AtLeast n s side)
    (still : ∀ other ≠ tid, Woken s side other → Woken s' side other) :
    AtLeast (n - 1) s' side := by
  obtain ⟨tids, nodup, length, woken⟩ := enough
  refine ⟨tids.erase tid, nodup.erase tid, ?_, fun other member => ?_⟩
  · rw [List.length_erase]
    split <;> omega
  · obtain ⟨differs, old⟩ := nodup.mem_erase_iff.mp member
    exact still other differs (woken other old)

omit [DecidableEq Tid] in
theorem event_setEvent (event : Event Tid) (other : Side) :
    (s.setEvent side event).pipe.event other = if other =
      side then event else s.pipe.event other := by
  unfold System.setEvent
  exact Function.update_apply ..

theorem activity_setActivity (activity : Activity) (other : Tid) :
    (s.setActivity tid activity).activity other =
      if other = tid then activity else s.activity other :=
  Function.update_apply ..

omit [DecidableEq Tid] in
theorem Waits.congr (same : s'.activity tid = s.activity tid) :
    Waits s' side tid ↔ Waits s side tid := by
  unfold Waits
  rw [same]

omit [DecidableEq Tid] in
theorem Woken.congr (same : s'.activity tid = s.activity tid) :
    Woken s' side tid ↔ Woken s side tid := by
  unfold Woken
  rw [same]

/-- The first task of the list is woken. -/
theorem Owes.wake {op : Op} {rest : List Tid} (owes : Owes debt s)
    (queue : (s.pipe.event side).waitList = tid :: rest) (blocked : s.activity tid = .blocked op)
    (here : op.side = side) :
    Owes (Function.update debt side (debt side + 1))
      ((s.setEvent side { signaled := false, waitList := rest }).setActivity tid (.woken op)) := by
  obtain ⟨s', eq⟩ : ∃ s', (s.setEvent side { signaled := false, waitList := rest }).setActivity tid
      (.woken op) = s' := ⟨_, rfl⟩
  rw [eq]
  have own : s'.activity tid = .woken op := by
    rw [← eq, activity_setActivity, if_pos rfl]
  have others : ∀ other ≠ tid, s'.activity other = s.activity other := by
    intro other differs
    rw [← eq, activity_setActivity, if_neg differs]
    rfl
  have lists : ∀ d, (s'.pipe.event d).waitList =
      if d = side then rest else (s.pipe.event d).waitList := by
    intro d
    subst eq
    exact (congrArg Event.waitList (event_setEvent _ d)).trans (apply_ite Event.waitList ..)
  obtain ⟨later, nodup⟩ := List.nodup_cons.mp (queue ▸ owes.nodup side)
  refine ⟨fun d other => ?_, fun d => ?_, fun d waiting => ?_⟩
  · rw [lists]
    by_cases first : other = tid
    · subst first
      have gone : ¬ Waits s' d other := by
        rintro ⟨_, still, -⟩
        rw [own] at still
        cases still
      refine iff_of_false (fun member => ?_) gone
      split at member
      · exact later member
      · rename_i elsewhere
        obtain ⟨op', blocked', there⟩ := (owes.listed d other).mp member
        rw [blocked] at blocked'
        cases blocked'
        exact elsewhere (there.symm.trans here)
    · rw [Waits.congr (others other first), ← owes.listed]
      split
      · rename_i same
        rw [same, queue, List.mem_cons, or_iff_right first]
      · rfl
  · rw [lists]
    split
    · exact nodup
    · exact owes.nodup d
  · rw [lists] at waiting
    have still : ∀ other, Woken s d other → Woken s' d other ∧ other ≠ tid := by
      intro other woken
      have differs : other ≠ tid := by
        rintro rfl
        obtain ⟨_, woken', -⟩ := woken
        rw [blocked] at woken'
        cases woken'
      exact ⟨(Woken.congr (others other differs)).mpr woken, differs⟩
    by_cases same : d = side
    · subst same
      obtain ⟨tids, distinct, enough, woken⟩ :=
        owes.woken d (queue ▸ List.cons_ne_nil tid rest)
      refine ⟨tid :: tids, List.nodup_cons.mpr ⟨fun member => ?_, distinct⟩, ?_, ?_⟩
      · exact (still tid (woken tid member)).2 rfl
      · rw [Function.update_self, List.length_cons]
        omega
      · intro other member
        rcases List.mem_cons.mp member with rfl | old
        · exact ⟨op, own, here⟩
        · exact (still other (woken other old)).1
    · rw [if_neg same] at waiting
      rw [Function.update_of_ne same]
      exact (owes.woken d waiting).of_woken fun other woken => (still other woken).1

/-- A signal wakes a task if one waits. -/
theorem Owes.signal (owes : Owes debt s) (side : Side) :
    Owes (Function.update debt side (debt side + 1)) (eventSignal s side) := by
  unfold eventSignal
  split
  · rename_i empty
    have same : ∀ other, ((s.setEvent side { signaled := true, waitList := [] }).pipe.event
        other).waitList = (s.pipe.event other).waitList := by
      intro other
      rw [event_setEvent]
      split
      · rename_i here
        rw [here, empty]
      · rfl
    refine ⟨fun other tid => ?_, fun other => ?_, fun other waiting => ?_⟩
    · rw [same]
      exact owes.listed other tid
    · rw [same]
      exact owes.nodup other
    · rw [same] at waiting
      have elsewhere : other ≠ side := fun here => waiting (here ▸ empty)
      rw [Function.update_of_ne elsewhere]
      exact owes.woken other waiting
  · rename_i tid rest queue
    have first : Waits s side tid := (owes.listed side tid).mp (queue ▸ List.mem_cons_self)
    obtain ⟨op, blocked, here⟩ := first
    rw [blocked]
    exact owes.wake queue blocked here

/-- A woken task comes back and counts no more. -/
theorem Owes.comeBack {op : Op} (owes : Owes debt s) (woken : s.activity tid = .woken op) :
    Owes (Function.update debt op.side (debt op.side - 1)) (s.setActivity tid .running) := by
  have others : ∀ other ≠ tid, (s.setActivity tid .running).activity other = s.activity other :=
    fun other differs => Function.update_of_ne differs ..
  have own : (s.setActivity tid .running).activity tid = .running := Function.update_self ..
  refine ⟨fun d other => ?_, owes.nodup, fun d waiting => ?_⟩
  · refine (owes.listed d other).trans ?_
    by_cases same : other = tid
    · subst same
      unfold Waits
      simp [woken, own]
    · exact (Waits.congr (others other same)).symm
  · have still : ∀ other ≠ tid, Woken s d other → Woken (s.setActivity tid .running) d other :=
      fun other differs => (Woken.congr (others other differs)).mpr
    by_cases here : d = op.side
    · subst here
      rw [Function.update_self]
      exact (owes.woken _ waiting).erase still
    · rw [Function.update_of_ne here]
      refine (owes.woken d waiting).of_woken fun other woken' => still other ?_ woken'
      rintro rfl
      obtain ⟨op', again, there⟩ := woken'
      rw [woken] at again
      cases again
      exact here there.symm

/-- A task may wait for an event for which nothing is owed. -/
theorem Owes.block {op : Op} (owes : Owes debt s) (runs : s.activity tid = .running)
    (nothing : debt op.side = 0) : Owes debt (s.block tid op) := by
  obtain ⟨s', eq⟩ : ∃ s', s.block tid op = s' := ⟨_, rfl⟩
  rw [eq]
  have own : s'.activity tid = .blocked op := by
    rw [← eq, System.block, activity_setActivity, if_pos rfl]
  have others : ∀ other ≠ tid, s'.activity other = s.activity other := by
    intro other differs
    rw [← eq, System.block, activity_setActivity, if_neg differs]
    rfl
  have lists : ∀ d, (s'.pipe.event d).waitList = if d = op.side then
      (s.pipe.event op.side).waitList ++ [tid] else (s.pipe.event d).waitList := by
    intro d
    subst eq
    exact (congrArg Event.waitList (event_setEvent _ d)).trans (apply_ite Event.waitList ..)
  have outside : ∀ d, tid ∉ (s.pipe.event d).waitList := by
    intro d member
    obtain ⟨_, blocked, -⟩ := (owes.listed d tid).mp member
    rw [runs] at blocked
    cases blocked
  refine ⟨fun d other => ?_, fun d => ?_, fun d waiting => ?_⟩
  · rw [lists]
    by_cases same : other = tid
    · subst same
      have waits : Waits s' d other ↔ d = op.side := by
        unfold Waits
        simp [own, eq_comm]
      rw [waits]
      split
      · rename_i here
        simp [here]
      · rename_i elsewhere
        exact iff_of_false (outside d) elsewhere
    · rw [Waits.congr (others other same), ← owes.listed]
      split
      · rename_i here
        rw [here, List.mem_append, List.mem_singleton, or_iff_left same]
      · rfl
  · rw [lists]
    split
    · refine List.nodup_append.mpr ⟨owes.nodup _, List.pairwise_singleton .., ?_⟩
      intro other member last new same
      rw [same, List.mem_singleton.mp new] at member
      exact outside _ member
    · exact owes.nodup d
  · rw [lists] at waiting
    by_cases here : d = op.side
    · rw [here, nothing]
      exact ⟨[], List.nodup_nil, Nat.zero_le _, fun _ member => absurd member List.not_mem_nil⟩
    · rw [if_neg here] at waiting
      refine (owes.woken d waiting).of_woken fun other woken => ?_
      have differs : other ≠ tid := by
        rintro rfl
        obtain ⟨_, woken', -⟩ := woken
        rw [runs] at woken'
        cases woken'
      exact (Woken.congr (others other differs)).mpr woken

theorem Owes.finish {result : Int} (owes : Owes debt s) (runs : s.activity tid = .running) :
    Owes debt (s.finish tid result) := by
  refine owes.congr rfl ?_
  have same : Function.update s.activity tid .running = s.activity := by
    rw [← runs, Function.update_eq_self]
  exact same

/-- A signal does not touch a task that runs. -/
theorem eventSignal_running (runs : s.activity tid = .running) (side : Side) :
    (eventSignal s side).activity tid = .running := by
  unfold eventSignal
  split
  · exact runs
  · rename_i first rest _
    rw [activity_setActivity]
    split
    · rename_i same
      rw [← same, runs]
      rfl
    · exact runs

end Tokens

section Debts

/-- How many woken tasks the pipe owes to those that wait. -/
def owed (readers writers count : Nat) : Side → Nat
  | .readable => (if writers = 0 then 1 else 0) + (if count > 0 then 1 else 0)
  | .writable => if count < pipeBuflen ∨ readers = 0 then 1 else 0

def Pipefs.owed {Tid : Type} (pipe : Pipefs Tid) : Side → Nat :=
  Pipe.owed pipe.readers pipe.writers pipe.count

theorem owed_writable_le {readers writers count : Nat} :
    owed readers writers count .writable ≤ 1 := by
  simp only [owed]
  split <;> decide

theorem owed_readable_succ {readers writers count : Nat} (some : count ≠ 0) :
    owed readers writers count .readable = owed readers writers 0 .readable + 1 := by
  simp [owed, Nat.pos_of_ne_zero some]

/-- New data or a missing writer adds one to the debt at most. -/
theorem owed_readable_le {readers writers count count' : Nat} :
    owed readers writers count' .readable ≤ owed readers writers count .readable + 1 := by
  simp only [owed]
  split <;> split <;> split <;> omega

theorem owed_writable_full {readers writers count : Nat} (some : readers ≠ 0)
    (full : ¬ count < pipeBuflen) : owed readers writers count .writable = 0 := by
  simp [owed, some, full]

variable {Tid : Type} [DecidableEq Tid] {s : System Tid} {tid : Tid}

/-- Every debt is met. -/
def Relays (s : System Tid) : Prop := Owes s.pipe.owed s

/-- Every debt is met, except for the signal that a running task has taken. -/
def RelaysBut (side : Side) (s : System Tid) : Prop :=
  Owes (Function.update s.pipe.owed side (s.pipe.owed side - 1)) s

omit [DecidableEq Tid] in
theorem Relays.but (relays : Relays s) (side : Side) : RelaysBut side s := by
  refine Owes.mono relays fun other => ?_
  by_cases here : other = side
  · subst here
    rw [Function.update_self]
    exact Nat.sub_le _ _
  · rw [Function.update_of_ne here]

theorem Relays.comeBack {op : Op} (relays : Relays s) (woken : s.activity tid = .woken op) :
    RelaysBut op.side (s.setActivity tid .running) :=
  Owes.comeBack relays woken

omit [DecidableEq Tid] in
/-- The signal was of no use where nothing is owed. -/
theorem RelaysBut.all {side : Side} (relays : RelaysBut side s) (nothing : s.pipe.owed side = 0) :
    Relays s := by
  refine Owes.mono relays fun other => ?_
  by_cases here : other = side
  · rw [here, nothing]
    exact Nat.zero_le _
  · rw [Function.update_of_ne here]

theorem block_relays {op : Op} (relays : Relays s) (runs : s.activity tid = .running)
    (nothing : s.pipe.owed op.side = 0) : Relays (s.block tid op) :=
  Owes.block relays runs nothing

theorem readChunk_relays {size : Nat} (wf : s.pipe.Wf)
    (available : s.pipe.count ≠ 0) (runs : s.activity tid = .running)
    (relays : RelaysBut .readable s) : Relays (readChunk s tid size) := by
  obtain ⟨pipe, out, took, length, takes⟩ := pipeReadSome_spec wf size
  have taken : Owes _ { s with pipe := pipe, delivered := s.delivered ++ out } :=
    relays.congr takes.event rfl
  have before : owed s.pipe.readers s.pipe.writers s.pipe.count .readable =
      owed pipe.readers pipe.writers 0 .readable + 1 := by
    rw [takes.readers, takes.writers]
    exact owed_readable_succ available
  have runs' := eventSignal_running
    (s := { s with pipe := pipe, delivered := s.delivered ++ out }) runs .writable
  unfold readChunk
  simp only [took, eventSignal_count]
  split
  · rename_i left
    refine (((taken.signal .writable).signal .readable).finish
      (eventSignal_running runs' .readable)).mono fun side => ?_
    simp only [System.finish, System.setActivity, Pipefs.owed, eventSignal_count,
      eventSignal_readers, eventSignal_writers]
    cases side with
    | readable =>
        rw [owed_readable_succ left.ne']
        simp [before]
    | writable => simpa using Nat.le_trans owed_writable_le (Nat.le_add_left _ _)
  · rename_i empty
    refine ((taken.signal .writable).finish runs').mono fun side => ?_
    simp only [System.finish, System.setActivity, Pipefs.owed, eventSignal_count,
      eventSignal_readers, eventSignal_writers, Nat.eq_zero_of_not_pos empty]
    cases side with
    | readable => simp [before]
    | writable => simpa using Nat.le_trans owed_writable_le (Nat.le_add_left _ _)

theorem pipeFileReadLoop_relays {size : Nat} (wf : s.pipe.Wf)
    (runs : s.activity tid = .running) (relays : RelaysBut .readable s) :
    Ensures (· = .assertion) Relays (pipeFileReadLoop 2 s tid size) := by
  rw [pipeFileReadLoop_eq]
  simp only [Ensures.ok_iff]
  split
  · rename_i empty
    split
    · rename_i none
      refine ((relays.signal .readable).finish (eventSignal_running runs .readable)).mono
        fun side => ?_
      cases side <;> simp [System.finish, System.setActivity, Pipefs.owed, owed, empty, none]
    · rename_i someWriter
      have nothing : s.pipe.owed .readable = 0 := by
        simp [Pipefs.owed, owed, empty, someWriter]
      exact block_relays (relays.all nothing) runs nothing
  · rename_i available
    exact readChunk_relays wf available runs relays

/-- A chunk is announced to a reader, and the room that is left to a writer. -/
theorem announce_relays {pipe : Pipefs Tid} {chunk : List UInt8}
    (puts : PutsChunk s.pipe pipe chunk)
    (someReader : s.pipe.readers ≠ 0) (relays : RelaysBut .writable s) :
    Relays (announce s pipe chunk) := by
  have put : Owes _ { s with pipe := pipe, accepted := s.accepted ++ chunk } :=
    relays.congr puts.event rfl
  have readable : owed pipe.readers pipe.writers pipe.count .readable ≤
      owed s.pipe.readers s.pipe.writers s.pipe.count .readable + 1 := by
    rw [puts.readers, puts.writers]
    exact owed_readable_le
  unfold announce
  dsimp only
  split
  · refine ((put.signal .readable).signal .writable).mono fun side => ?_
    simp only [Pipefs.owed, eventSignal_count, eventSignal_readers, eventSignal_writers]
    cases side with
    | readable => simpa using readable
    | writable => simpa using Nat.le_trans owed_writable_le (Nat.le_add_left _ _)
  · rename_i full
    refine (put.signal .readable).mono fun side => ?_
    simp only [Pipefs.owed, eventSignal_count, eventSignal_readers, eventSignal_writers]
    cases side with
    | readable => simpa using readable
    | writable =>
        rw [owed_writable_full (puts.readers ▸ someReader) full]
        exact Nat.zero_le _

theorem announce_running {pipe : Pipefs Tid} {chunk : List UInt8}
    (runs : s.activity tid = .running) : (announce s pipe chunk).activity tid = .running := by
  have runs' := eventSignal_running
    (s := { s with pipe := pipe, accepted := s.accepted ++ chunk }) runs .readable
  unfold announce
  dsimp only
  split
  · exact eventSignal_running runs' .writable
  · exact runs'

theorem pipeFileWriteLoop_relays {input : List UInt8} {written : Nat} (wf : s.pipe.Wf)
    (bounded : input.length < 2 ^ 64) (more : written < input.length)
    (runs : s.activity tid = .running) (relays : RelaysBut .writable s) :
    Ensures (· = .assertion) Relays (pipeFileWriteLoop 3 s tid input written) := by
  obtain ⟨pipe, chunk, sameChunk, puts, loop⟩ := pipeFileWriteLoop_eq tid wf bounded more
  rw [loop, Ensures.ok_iff]
  split
  · refine ((relays.signal .writable).finish (eventSignal_running runs .writable)).mono
      fun side => ?_
    simp only [System.finish, System.setActivity, Pipefs.owed, eventSignal_count,
      eventSignal_readers, eventSignal_writers]
    cases side with
    | readable => simp
    | writable => simpa using Nat.le_trans owed_writable_le (Nat.le_add_left _ _)
  · rename_i someReader
    split
    · have announced := announce_relays puts someReader relays
      have runs' : (announce s pipe chunk).activity tid = .running := announce_running runs
      unfold endWrite
      split
      · rename_i left
        refine block_relays announced runs' (owed_writable_full ?_ ?_)
        · rw [announce_readers, puts.readers]
          exact someReader
        · rw [announce_count, puts.count]
          have length : chunk.length = pipeBuflen - s.pipe.count := by
            rw [sameChunk, List.length_take, Pipefs.accepts, List.length_drop] at left ⊢
            omega
          omega
      · exact Owes.finish announced runs'
    · rename_i full
      have nothing : s.pipe.owed .writable = 0 := owed_writable_full someReader full
      exact block_relays (relays.all nothing) runs nothing

theorem closeReader_relays (relays : Relays s) :
    Ensures (· = .assertion) Relays (closeReader s) := by
  unfold closeReader
  split
  · have closed :
      Owes s.pipe.owed { s with pipe := { s.pipe with readers := s.pipe.readers - 1 } } :=
      Owes.congr relays rfl rfl
    refine (closed.signal .writable).mono fun side => ?_
    simp only [Pipefs.owed, eventSignal_count, eventSignal_readers, eventSignal_writers]
    cases side with
    | readable => simp [owed]
    | writable => simpa using Nat.le_trans owed_writable_le (Nat.le_add_left _ _)
  · rfl

theorem closeWriter_relays (relays : Relays s) :
    Ensures (· = .assertion) Relays (closeWriter s) := by
  unfold closeWriter
  split
  · have closed :
      Owes s.pipe.owed { s with pipe := { s.pipe with writers := s.pipe.writers - 1 } } :=
      Owes.congr relays rfl rfl
    refine (closed.signal .readable).mono fun side => ?_
    simp only [Pipefs.owed, eventSignal_count, eventSignal_readers, eventSignal_writers]
    cases side with
    | readable =>
        rw [Function.update_self]
        simp only [owed]
        split <;> omega
    | writable => simp [owed]
  · rfl

theorem exec_relays {call : Call Tid} (streams : Streams s) (relays : Relays s)
    (admitted : Admits s call) : Ensures (· = .assertion) Relays (exec s call) := by
  cases call with
  | read tid size =>
      show Ensures _ _ (pipeFileRead s tid size)
      unfold pipeFileRead
      split
      · exact Owes.finish relays admitted.1
      · exact pipeFileReadLoop_relays streams.wf admitted.1 (relays.but .readable)
  | write tid input =>
      show Ensures _ _ (pipeFileWrite s tid input)
      unfold pipeFileWrite
      split
      · exact Owes.finish relays admitted.1
      · rename_i some
        exact pipeFileWriteLoop_relays streams.wf admitted.2 (Nat.pos_of_ne_zero some) admitted.1
          (relays.but .writable)
  | resume tid =>
      simp only [exec]
      split
      · rename_i op woken
        have sound := streams.woken tid op woken
        have runs : (s.setActivity tid .running).activity tid = .running := Function.update_self ..
        have back := relays.comeBack woken
        cases op with
        | read size => exact pipeFileReadLoop_relays streams.wf runs back
        | write input written =>
            exact pipeFileWriteLoop_relays streams.wf sound.1 sound.2 runs back
      · exact relays
  | close read write =>
      have readEnd : Ensures (· = .assertion) Relays (if read then closeReader s else .ok s) := by
        split
        · exact closeReader_relays relays
        · exact relays
      refine readEnd.bind fun s' relays' => ?_
      split
      · exact closeWriter_relays relays'
      · exact relays'

omit [DecidableEq Tid] in
theorem opened_relays {readers writers : Nat} : Relays (opened readers writers : System Tid) where
  listed := fun _ _ => iff_of_false List.not_mem_nil nofun
  nodup := fun _ => List.nodup_nil
  woken := fun _ waiting => absurd rfl waiting

/-- In every state that calls of any tasks in any order reach, a task waits for data or
for the end of the stream only while neither is there, or another reader that was woken has
not looked at the pipe again; and so for writers, room and the last reader. -/
theorem run_no_lost_wakeup {readers writers : Nat} {s : System Tid}
    (reached : Reaches exec Admits (opened readers writers) s) :
    (∀ tid ∈ (s.pipe.event .readable).waitList, s.pipe.count > 0 ∨ s.pipe.writers = 0 →
        ∃ other size, s.activity other = .woken (.read size)) ∧
      ∀ tid ∈ (s.pipe.event .writable).waitList, s.pipe.count < pipeBuflen ∨ s.pipe.readers = 0 →
        ∃ other input written, s.activity other = .woken (.write input written) := by
  have both : Streams s ∧ Relays s := by
    induction reached with
    | start => exact ⟨opened_streams, opened_relays⟩
    | step _ admitted returned both =>
        have ensured := exec_streams both.1 admitted
        exact (ensured.and (exec_relays both.1 both.2 admitted)).of_ok returned
  have some (side : Side) (tid : Tid) (waits : tid ∈ (s.pipe.event side).waitList)
      (owes : 0 < s.pipe.owed side) : ∃ other, Woken s side other := by
    obtain ⟨tids, -, enough, woken⟩ := both.2.woken side (List.ne_nil_of_mem waits)
    obtain ⟨other, member⟩ := List.exists_mem_of_length_pos (Nat.lt_of_lt_of_le owes enough)
    exact ⟨other, woken other member⟩
  constructor
  · intro tid waits ready
    have owes : 0 < s.pipe.owed .readable := by
      simp only [Pipefs.owed, owed]
      split <;> split <;> omega
    obtain ⟨other, op, woken, here⟩ := some .readable tid waits owes
    cases op with
    | read size => exact ⟨other, size, woken⟩
    | write => cases here
  · intro tid waits ready
    have owes : 0 < s.pipe.owed .writable := by simp [Pipefs.owed, owed, ready]
    obtain ⟨other, op, woken, here⟩ := some .writable tid waits owes
    cases op with
    | read => cases here
    | write input written => exact ⟨other, input, written, woken⟩

/-- Three readers wait; a chunk and the end of the stream wake two of them, and the one
that finds nothing passes the signal on to the third. -/
def passedOn : List (Call Nat) :=
  [.read 0 8, .read 1 8, .read 2 8, .write 3 [1, 2], .close false true, .resume 0, .resume 1]

theorem run_no_lost_wakeup_passedOn : ∃ s : System Nat,
    runFrom exec Admits (opened 1 1) passedOn = some s ∧
      ∀ tid ∈ (s.pipe.event .readable).waitList, s.pipe.count > 0 ∨ s.pipe.writers = 0 →
        ∃ other size, s.activity other = .woken (.read size) := by
  have runs : (runFrom exec Admits (opened 1 1) passedOn).isSome = true := by decide +kernel
  obtain ⟨s, ran⟩ := Option.isSome_iff_exists.mp runs
  exact ⟨s, ran, (run_no_lost_wakeup (Reaches.start.of_runFrom ran)).1⟩

end Debts

end Opal.Pipe
