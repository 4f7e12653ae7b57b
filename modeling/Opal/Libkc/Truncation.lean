import Opal.Libkc.Expansion

/-!
# Truncation

A run on a buffer, a run that counts and a run on a callback show the same expansion.  The
result of the run that counts therefore tells what the run on a buffer returns, and the
callback tells what the buffer holds.
-/

namespace Opal.Libkc

section Runs

variable {format : List Char} {args : List Arg} {fmt : Fmt}

/-- A run that is refused leaves what it had written. -/
def Sink.Broken (sink : Sink) (fmt : Fmt) : Prop :=
  (∃ text, sink.Shows text fmt) ∨ sink.Overfull fmt

def expansion (format : List Char) (args : List Arg) : List Char × Ending :=
  expand (format.length + 1) format args

/-- The loop shows the whole expansion in every sink. -/
def ShowsAll (format : List Char) (args : List Arg) (text : List Char) : Prop :=
  text.length ≤ intMax ∧ ∀ (sink : Sink) (fmt : Fmt), sink.Shows [] fmt →
    ∃ fmt', fmtLoop (format.length + 1) fmt format args = .ok (true, fmt') ∧
      sink.Shows text fmt'

/-- The loop breaks off in every sink. -/
def BreaksOff (format : List Char) (args : List Arg) : Prop :=
  ∀ (sink : Sink) (fmt : Fmt), sink.Shows [] fmt →
    ∃ fmt', fmtLoop (format.length + 1) fmt format args = .ok (false, fmt') ∧ sink.Broken fmt'

section Endings

variable {sink : Sink} {text : List Char} {outcome : Except Stop (Bool × Fmt)}

theorem Prints.of_finished (prints : Prints sink [] (text, .finished) outcome)
    (room : text.length ≤ intMax) : ∃ fmt, outcome = .ok (true, fmt) ∧ sink.Shows text fmt := by
  cases prints with
  | finished _ shows => exact ⟨_, rfl, shows⟩
  | overfull long _ => exact absurd long (by simpa using room)

theorem Prints.of_failed (prints : Prints sink [] (text, .failed) outcome)
    (room : text.length ≤ intMax) : ∃ fmt, outcome = .ok (false, fmt) ∧ sink.Broken fmt := by
  cases prints with
  | failed _ shows => exact ⟨_, rfl, Or.inl ⟨_, shows⟩⟩
  | overfull long _ => exact absurd long (by simpa using room)

theorem Prints.of_stopped {stop : Stop} (prints : Prints sink [] (text, .stopped stop) outcome)
    (room : text.length ≤ intMax) : outcome = .error stop := by
  cases prints with
  | stopped _ _ => rfl
  | overfull long _ => exact absurd long (by simpa using room)

theorem Prints.of_long {ending : Ending} (prints : Prints sink [] (text, ending) outcome)
    (long : intMax < text.length) : ∃ fmt, outcome = .ok (false, fmt) ∧ sink.Overfull fmt := by
  have long' : ¬([] : List Char).length + text.length ≤ intMax := by simpa using long
  cases prints with
  | finished room _ => exact absurd room long'
  | failed room _ => exact absurd room long'
  | stopped _ room => exact absurd room long'
  | overfull _ overfull => exact ⟨_, rfl, overfull⟩

end Endings

/-- The loop ends in the same way in all sinks. -/
theorem loop_cases (format : List Char) (args : List Arg) :
    (∃ text, expansion format args = (text, .finished) ∧ ShowsAll format args text) ∨
    BreaksOff format args ∨
    (∃ stop, ∀ (sink : Sink) (fmt : Fmt), sink.Shows [] fmt →
      fmtLoop (format.length + 1) fmt format args = .error stop) := by
  have prints (sink : Sink) (fmt : Fmt) (shows : sink.Shows [] fmt) :=
    fmtLoop_prints (format.length + 1) format args shows (Nat.zero_le intMax)
  rcases split : expand (format.length + 1) format args with ⟨text, ending⟩
  rw [split] at prints
  by_cases room : text.length ≤ intMax
  · cases ending with
    | finished =>
        exact Or.inl ⟨text, split, room, fun sink fmt shows =>
          (prints sink fmt shows).of_finished room⟩
    | failed => exact Or.inr (Or.inl fun sink fmt shows => (prints sink fmt shows).of_failed room)
    | stopped stop =>
        exact Or.inr (Or.inr ⟨stop, fun sink fmt shows => (prints sink fmt shows).of_stopped room⟩)
  · refine Or.inr (Or.inl fun sink fmt shows => ?_)
    obtain ⟨fmt', ran, overfull⟩ := (prints sink fmt shows).of_long (Nat.lt_of_not_le room)
    exact ⟨fmt', ran, Or.inr overfull⟩

/-- A callback that accepts every character. -/
def acceptAll : Fmt :=
  { buffer := fun _ => nul
    pos := 0
    writeFn := some (Stream'.const true)
    sent := []
    size := 0
    count := 0
    error := false }

/-- What a callback that accepts every character is sent. -/
def fullExpansion (format : Option (List Char)) (args : List Arg) : List Char :=
  match fmtVsprintf acceptAll format args with
  | .ok (_, fmt) => fmt.sent
  | .error _ => []

/-- The state `kvsnprintf` starts with. -/
def printfStart (buffer : Option Buffer) (bufsz : Nat) : Fmt :=
  { buffer := buffer.getD fun _ => nul
    pos := 0
    writeFn := none
    sent := []
    size := bufsz
    count := 0
    error := false }

theorem acceptAll_shows : accepting.Shows [] acceptAll := ⟨rfl, rfl, rfl, rfl, rfl⟩

theorem printfStart_counts (buffer : Option Buffer) : counting.Shows [] (printfStart buffer 0) :=
  ⟨rfl, rfl, rfl, rfl⟩

theorem printfStart_held (buffer : Buffer) {size : Nat} (positive : 0 < size) :
    (buffered size positive buffer).Shows [] (printfStart (some buffer) size) where
  alive := rfl
  counted := rfl
  prefixes i lower := absurd lower (Nat.not_lt_zero i)
  outside _ _ := rfl
  opened _ := ⟨rfl, rfl⟩
  closed closed := absurd closed (Nat.not_lt_zero _)

theorem toInt_count {count : Nat} (room : count ≤ intMax) : toInt count = count := by
  unfold toInt
  rw [BitVec.toInt_ofNat']
  unfold intMax at room
  exact Int.bmod_eq_of_le (by omega) (by omega)

/-- `fmt_vsprintf` behind a loop that ended. -/
theorem fmtVsprintf_of_loop {fmt fmt' : Fmt} {reached : Bool} (size : fmt.size ≤ intMax)
    (ran : fmtLoop (format.length + 1) fmt format args = .ok (reached, fmt')) :
    fmtVsprintf fmt (some format) args =
      if reached then
        .ok (toInt fmt'.count, { fmt' with
          buffer := if 0 < fmt'.size then Function.update fmt'.buffer fmt'.pos nul
            else fmt'.buffer })
      else .ok (-1, fmt') := by
  unfold fmtVsprintf
  rw [if_neg (Nat.not_lt.mpr size)]
  simp only [ran, ok_bind]

end Runs

section Snprintf

variable {format : List Char} {args : List Arg} {n : Nat}

/-- The buffer holds what fits of a text of length `L`, terminated, and was not written at or
behind `n`. -/
structure Truncates (n L : Nat) (text : List Char) (before after : Buffer) : Prop where
  length : text.length = L
  written : ∀ i < min (n - 1) L, after i = text.getD i nul
  terminated : after (min (n - 1) L) = nul
  outside : ∀ i, n ≤ i → after i = before i

/-- The buffer of a run that returns, with the terminator that `fmt_vsprintf` puts. -/
theorem Held.truncates {before : Buffer} {text : List Char} {fmt : Fmt} (positive : 0 < n)
    (held : Held n before text fmt) :
    Truncates n text.length text before
      (if 0 < fmt.size then Function.update fmt.buffer fmt.pos nul else fmt.buffer) := by
  by_cases room : text.length ≤ n - 1
  · obtain ⟨size, pos⟩ := held.opened room
    rw [size, if_pos positive, pos]
    refine ⟨rfl, ?_, ?_, ?_⟩
    · intro i lower
      have inside : i < text.length := by omega
      rw [Function.update_of_ne (by omega), held.prefixes i inside (by omega)]
      simp [List.getD, inside]
    · rw [Nat.min_eq_right room]
      exact Function.update_self _ _ _
    · intro i beyond
      rw [Function.update_of_ne (by omega), held.outside i beyond]
  · obtain ⟨size, -, ended⟩ := held.closed (Nat.lt_of_not_le room)
    rw [size, if_neg (Nat.lt_irrefl 0)]
    refine ⟨rfl, ?_, ?_, held.outside⟩
    · intro i lower
      have inside : i < text.length := by omega
      rw [held.prefixes i inside (by omega)]
      simp [List.getD, inside]
    · rwa [Nat.min_eq_left (by omega)]

/-- A run that breaks off has not written behind the buffer. -/
theorem broken_outside {before : Buffer} {fmt : Fmt} (positive : 0 < n)
    (broken : (buffered n positive before).Broken fmt) {i : Nat} (beyond : n ≤ i) :
    fmt.buffer i = before i := by
  rcases broken with ⟨text, held⟩ | ⟨text, fmt', held, -, rfl⟩
  · exact held.outside i beyond
  · exact held.outside i beyond

theorem kvsnprintf_some (buffer : Option Buffer) (bufsz : Nat)
    (valid : ¬(buffer.isSome ∧ intMax < bufsz)) (given : ¬(buffer.isNone ∧ 0 < bufsz)) :
    kvsnprintf buffer bufsz (some format) args =
      (fmtVsprintf (printfStart buffer bufsz) (some format) args >>= fun run =>
        .ok (run.1, buffer.map fun _ => if run.1 < 0 ∧ 0 < bufsz then
          Function.update run.2.buffer 0 nul else run.2.buffer)) := by
  unfold kvsnprintf
  rw [if_neg valid, if_neg given]
  change (fmtVsprintf (printfStart buffer bufsz) (some format) args >>= _) = _
  cases fmtVsprintf (printfStart buffer bufsz) (some format) args with
  | error stop => rfl
  | ok run =>
      simp only [ok_bind]
      cases buffer with
      | none => split <;> rfl
      | some buffer => split <;> rfl

section Complete

variable {text : List Char}

variable (all : ShowsAll format args text)

include all

theorem ShowsAll.fmtVsprintf (sink : Sink) {fmt : Fmt} (size : fmt.size ≤ intMax)
    (shows : sink.Shows [] fmt) : ∃ fmt', sink.Shows text fmt' ∧
      fmtVsprintf fmt (some format) args = .ok (text.length, { fmt' with
        buffer := if 0 < fmt'.size then Function.update fmt'.buffer fmt'.pos nul
          else fmt'.buffer }) := by
  obtain ⟨fmt', ran, shown⟩ := all.2 sink fmt shows
  refine ⟨fmt', shown, ?_⟩
  rw [fmtVsprintf_of_loop size ran, if_pos rfl, sink.counted shown, toInt_count all.1]

theorem ShowsAll.counts : kvsnprintf none 0 (some format) args = .ok (text.length, none) := by
  obtain ⟨fmt', -, ran⟩ :=
    all.fmtVsprintf counting (Nat.zero_le _) (printfStart_counts none)
  rw [kvsnprintf_some none 0 (by simp) (by simp), ran]
  rfl

theorem ShowsAll.fullExpansion_eq : fullExpansion (some format) args = text := by
  obtain ⟨fmt', shown, ran⟩ := all.fmtVsprintf accepting (Nat.zero_le _) acceptAll_shows
  rw [fullExpansion, ran]
  exact shown.2.2.2.2

theorem ShowsAll.truncates (positive : 0 < n) (bounded : n ≤ intMax) (buffer : Buffer) :
    ∃ after, kvsnprintf (some buffer) n (some format) args = .ok (text.length, some after) ∧
      Truncates n text.length text buffer after := by
  obtain ⟨fmt', held, ran⟩ :=
    all.fmtVsprintf (buffered n positive buffer) bounded (printfStart_held buffer positive)
  refine ⟨_, ?_, held.truncates positive⟩
  rw [kvsnprintf_some (some buffer) n (by simpa using bounded) (by simp), ran]
  simp only [ok_bind, Option.map_some]
  rw [if_neg (by omega)]

end Complete

section Broken

variable (breaks : BreaksOff format args)

include breaks

theorem BreaksOff.fails : kvsnprintf none 0 (some format) args = .ok (-1, none) := by
  obtain ⟨fmt', ran, -⟩ := breaks counting _ (printfStart_counts none)
  rw [kvsnprintf_some none 0 (by simp) (by simp), fmtVsprintf_of_loop (Nat.zero_le _) ran]
  rfl

theorem BreaksOff.clears (positive : 0 < n) (bounded : n ≤ intMax) (buffer : Buffer) :
    ∃ after, kvsnprintf (some buffer) n (some format) args = .ok (-1, some after) ∧
      after 0 = nul ∧ ∀ i, n ≤ i → after i = buffer i := by
  obtain ⟨fmt', ran, broken⟩ :=
    breaks (buffered n positive buffer) _ (printfStart_held buffer positive)
  refine ⟨Function.update fmt'.buffer 0 nul, ?_, Function.update_self _ _ _, ?_⟩
  · rw [kvsnprintf_some (some buffer) n (by simpa using bounded) (by simp),
      fmtVsprintf_of_loop bounded ran]
    simp [positive, ok_bind]
  · intro i beyond
    rw [Function.update_of_ne (by omega), broken_outside positive broken beyond]

end Broken

/-- What a run on a buffer does, from the result of the run that counts. -/
theorem ksnprintf_truncates (format : Option (List Char)) (args : List Arg) (positive : 0 < n)
    (bounded : n ≤ intMax) (buffer : Buffer) :
    (∀ result, kvsnprintf none 0 format args = .ok (result, none) → result = -1 ∨ 0 ≤ result) ∧
    (∀ L : Nat, kvsnprintf none 0 format args = .ok ((L : Int), none) →
      ∃ after, kvsnprintf (some buffer) n format args = .ok ((L : Int), some after) ∧
        Truncates n L (fullExpansion format args) buffer after) ∧
    (kvsnprintf none 0 format args = .ok (-1, none) →
      ∃ after, kvsnprintf (some buffer) n format args = .ok (-1, some after) ∧
        after 0 = nul ∧ ∀ i, n ≤ i → after i = buffer i) := by
  cases format with
  | none =>
      refine ⟨?_, ?_, ?_⟩
      · intro result counted
        cases counted
        exact Or.inl rfl
      · intro L counted
        cases counted
      · intro _
        refine ⟨Function.update buffer 0 nul, ?_, Function.update_self _ _ _, ?_⟩
        · rw [kvsnprintf, if_neg (by simpa using bounded), if_neg (by simp), if_pos positive]
          rfl
        · intro i beyond
          exact Function.update_of_ne (by omega) _ _
  | some format =>
      rcases loop_cases format args with ⟨text, -, all⟩ | breaks | ⟨stop, stops⟩
      · rw [all.counts, all.fullExpansion_eq]
        refine ⟨?_, ?_, ?_⟩
        · intro result counted
          cases counted
          exact Or.inr (Int.natCast_nonneg _)
        · intro L counted
          have same : text.length = L := by
            have result := congrArg Prod.fst (Except.ok.inj counted)
            exact Int.ofNat_inj.mp result
          rw [← same]
          exact all.truncates positive bounded buffer
        · intro counted
          have result : (text.length : Int) = -1 := congrArg Prod.fst (Except.ok.inj counted)
          omega
      · rw [breaks.fails]
        refine ⟨?_, ?_, fun _ => breaks.clears positive bounded buffer⟩
        · intro result counted
          cases counted
          exact Or.inl rfl
        · intro L counted
          cases counted
      · have stopped : kvsnprintf none 0 (some format) args = .error stop := by
          have small : ¬intMax < (printfStart none 0).size := Nat.not_lt_zero _
          rw [kvsnprintf_some none 0 (by simp) (by simp), fmtVsprintf, if_neg small]
          simp only [stops counting _ (printfStart_counts none)]
          rfl
        rw [stopped]
        refine ⟨?_, ?_, ?_⟩
        · intro result counted
          cases counted
        · intro L counted
          cases counted
        · intro counted
          cases counted

/-- Five characters in a buffer of four. -/
theorem ksnprintf_truncates_five : ∃ after,
    kvsnprintf (some fun _ => 'z') 4 (some "%05d".toList) [.int 42] = .ok (5, some after) ∧
      Truncates 4 5 (fullExpansion (some "%05d".toList) [.int 42]) (fun _ => 'z') after := by
  have counted : kvsnprintf none 0 (some "%05d".toList) [.int 42] = .ok (((5 : Nat) : Int), none) :=
    rfl
  exact (ksnprintf_truncates (some "%05d".toList) [.int 42] (by decide) (by decide) _).2.1 5 counted

end Snprintf

end Opal.Libkc
