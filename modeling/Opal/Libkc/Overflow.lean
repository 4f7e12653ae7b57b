import Opal.Libkc.Whole

/-!
# Overflow of the formatter

A run on any writer follows the expansion until it gives up.  So an `int` overflows in some
run exactly when a directive that does not fit is reached with room in the count.
-/

namespace Opal.Libkc

section Counting

variable {fmt : Fmt} {ch : Char} {text cursor : List Char} {args : List Arg}

theorem writeChar_count (alive : (writeChar fmt ch).error = false) :
    fmt.error = false ∧ (writeChar fmt ch).count = fmt.count + 1 ∧ fmt.count < intMax := by
  unfold writeChar at alive ⊢
  split at alive
  · rename_i error
    rw [error] at alive
    cases alive
  · rename_i error
    split at alive
    · cases alive
    · rename_i room
      refine ⟨by simpa using error, ?_, Nat.lt_of_not_le room⟩
      rw [if_neg error, if_neg room]
      split
      · split <;> rfl
      · rename_i closed
        rw [if_neg closed] at alive
        cases answers : fmt.writeFn with
        | none => rfl
        | some answers' =>
            rw [answers] at alive
            dsimp only at alive ⊢
            split
            · rfl
            · rename_i refused
              rw [if_neg refused] at alive
              cases alive

theorem put_alive (alive : (put fmt text).error = false) : fmt.error = false := by
  rw [← Bool.not_eq_true] at alive ⊢
  intro error
  rw [put_of_error error] at alive
  exact alive error

/-- What was put without an error was counted. -/
theorem put_count (alive : (put fmt text).error = false) :
    (put fmt text).count = fmt.count + text.length ∧
      (text = [] ∨ fmt.count + text.length ≤ intMax) := by
  induction text generalizing fmt with
  | nil => exact ⟨rfl, Or.inl rfl⟩
  | cons ch text inductionHypothesis =>
      rw [put_cons] at alive ⊢
      obtain ⟨-, count, room⟩ := writeChar_count (put_alive alive)
      obtain ⟨counted, bounded⟩ := inductionHypothesis alive
      rw [counted, count, List.length_cons]
      refine ⟨by omega, Or.inr ?_⟩
      rcases bounded with rfl | bounded
      · simpa using room
      · omega

theorem writeChar_count_le (room : fmt.count ≤ intMax) : (writeChar fmt ch).count ≤ intMax := by
  cases alive : (writeChar fmt ch).error with
  | false =>
      obtain ⟨-, count, less⟩ := writeChar_count alive
      omega
  | true =>
      unfold writeChar at alive ⊢
      split
      · exact room
      split
      · exact room
      · rename_i error full
        rw [if_neg error, if_neg full] at alive
        split
        · rename_i opened
          rw [if_pos opened] at alive
          split at alive
          · exact absurd alive error
          · exact absurd alive error
        · rename_i closed
          rw [if_neg closed] at alive
          cases answers : fmt.writeFn with
          | none =>
              rw [answers] at alive
              exact absurd alive error
          | some answers' =>
              dsimp only
              split
              · exact Nat.lt_of_not_le full
              · exact room

theorem put_count_le (room : fmt.count ≤ intMax) : (put fmt text).count ≤ intMax := by
  induction text generalizing fmt with
  | nil => exact room
  | cons ch text inductionHypothesis => exact inductionHypothesis (writeChar_count_le room)

/-- How the loop ends behind an expansion that was counted. -/
def EndsAs : Ending → Except Stop (Bool × Fmt) → Prop
  | .finished, ran => ∃ fmt, ran = .ok (true, fmt)
  | .failed, ran => ∃ fmt, ran = .ok (false, fmt)
  | .stopped stop, ran => ran = .error stop

/-- A run gives up on the way or gets to the end of the expansion. -/
def Follows (fmt : Fmt) (expansion : List Char × Ending) (ran : Except Stop (Bool × Fmt)) :
    Prop :=
  (∃ fmt', ran = .ok (false, fmt')) ∨
    (expansion.1 = [] ∨ fmt.count + expansion.1.length ≤ intMax) ∧ EndsAs expansion.2 ran

theorem follows_put {expansion : List Char × Ending} {next : Fmt → Except Stop (Bool × Fmt)}
    (goesOn : Follows (put fmt text) expansion (next (put fmt text))) :
    Follows fmt (prepend text expansion)
      (if (put fmt text).error then .ok (false, put fmt text) else next (put fmt text)) := by
  by_cases error : (put fmt text).error = true
  · rw [if_pos error]
    exact Or.inl ⟨_, rfl⟩
  · rw [if_neg error]
    obtain ⟨counted, bounded⟩ := put_count (Bool.not_eq_true _ ▸ error)
    rcases goesOn with broken | ⟨room, ends⟩
    · exact Or.inl broken
    · refine Or.inr ⟨?_, ends⟩
      rw [prepend, List.append_eq_nil_iff, List.length_append]
      rw [counted] at room
      rcases room with empty | room
      · rcases bounded with rfl | bounded
        · exact Or.inl ⟨rfl, empty⟩
        · rw [empty]
          exact Or.inr (by simpa using bounded)
      · exact Or.inr (by omega)

/-- A run on any writer follows the expansion. -/
theorem fmtLoop_follows (rounds : Nat) (fmt : Fmt) (cursor : List Char) (args : List Arg) :
    Follows fmt (expand rounds cursor args) (fmtLoop rounds fmt cursor args) := by
  induction rounds generalizing fmt cursor args with
  | zero => exact Or.inr ⟨Or.inl rfl, rfl⟩
  | succ rounds inductionHypothesis =>
      rw [expand, fmtLoop]
      cases readDirective cursor args with
      | error stop => exact Or.inr ⟨Or.inl rfl, rfl⟩
      | ok directive =>
          cases directive with
          | done => exact Or.inr ⟨Or.inl rfl, fmt, rfl⟩
          | literal ch rest =>
              exact @follows_put fmt [ch] _ (fun fmt => fmtLoop rounds fmt rest args)
                (inductionHypothesis _ rest args)
          | invalid rest args => exact inductionHypothesis fmt rest args
          | conversion flags len spec rest args =>
              simp only [ok_bind, writeConversion_puts]
              cases conversionText flags len spec args with
              | error stop => exact Or.inr ⟨Or.inl rfl, rfl⟩
              | ok found =>
                  obtain ⟨converted, args⟩ := found
                  cases converted with
                  | none => exact Or.inl ⟨fmt, rfl⟩
                  | some more =>
                      exact @follows_put fmt more _ (fun fmt => fmtLoop rounds fmt rest args)
                        (inductionHypothesis _ rest args)

theorem fmtLoop_count_le (rounds : Nat) (room : fmt.count ≤ intMax) {reached : Bool} {fmt' : Fmt}
    (ran : fmtLoop rounds fmt cursor args = .ok (reached, fmt')) : fmt'.count ≤ intMax := by
  induction rounds generalizing fmt cursor args with
  | zero => cases ran
  | succ rounds inductionHypothesis =>
      rw [fmtLoop] at ran
      cases read : readDirective cursor args with
      | error stop =>
          rw [read] at ran
          cases ran
      | ok directive =>
          rw [read] at ran
          cases directive with
          | done =>
              cases ran
              exact room
          | literal ch rest =>
              have next : (writeChar fmt ch).count ≤ intMax := writeChar_count_le room
              simp only [ok_bind] at ran
              split at ran
              · cases ran
                exact next
              · exact inductionHypothesis next ran
          | invalid rest args => exact inductionHypothesis room ran
          | conversion flags len spec rest args =>
              simp only [ok_bind, writeConversion_puts] at ran
              cases found : conversionText flags len spec args with
              | error stop =>
                  rw [found] at ran
                  cases ran
              | ok answer =>
                  rw [found] at ran
                  obtain ⟨converted, args⟩ := answer
                  cases converted with
                  | none =>
                      cases ran
                      exact room
                  | some more =>
                      have next : (put fmt more).count ≤ intMax := put_count_le room
                      simp only [putsRead, ok_bind, Option.map_some] at ran
                      split at ran
                      · cases ran
                        exact next
                      · exact inductionHypothesis next ran

end Counting

section Overflow

variable {format : List Char} {args : List Arg}

/-- No operation leaves the range of `int`, and what is too long is refused. -/
structure NeverOverflows (format : List Char) (args : List Arg) : Prop where
  lengths : ∀ fmt, fmtVsprintf fmt (some format) args ≠ .error .overflow
  counts : ∀ fmt result fmt', fmtVsprintf fmt (some format) args = .ok (result, fmt') →
    fmt.count ≤ intMax → fmt'.count ≤ intMax
  long : intMax < (wholeExpansion format args).1.length → ∀ fmt, fmt.count = 0 →
    ∃ fmt', fmtVsprintf fmt (some format) args = .ok (-1, fmt')

theorem fmtVsprintf_ok {fmt fmt' : Fmt} {result : Int}
    (ran : fmtVsprintf fmt (some format) args = .ok (result, fmt')) :
    fmt' = fmt ∨ ∃ reached fmt'', fmtLoop (format.length + 1) fmt format args =
      .ok (reached, fmt'') ∧ fmt'.count = fmt''.count := by
  unfold fmtVsprintf at ran
  split at ran
  · cases ran
    exact Or.inl rfl
  · right
    cases loop : fmtLoop (format.length + 1) fmt format args with
    | error stop =>
        simp only [loop] at ran
        cases ran
    | ok found =>
        obtain ⟨reached, fmt''⟩ := found
        refine ⟨reached, fmt'', rfl, ?_⟩
        simp only [loop, ok_bind] at ran
        split at ran
        · cases ran
          rfl
        · cases ran
          rfl

theorem fmtVsprintf_error {fmt : Fmt} {stop : Stop}
    (ran : fmtVsprintf fmt (some format) args = .error stop) :
    fmtLoop (format.length + 1) fmt format args = .error stop := by
  unfold fmtVsprintf at ran
  split at ran
  · cases ran
  · cases loop : fmtLoop (format.length + 1) fmt format args with
    | error stop' =>
        simp only [loop] at ran
        cases ran
        rfl
    | ok found =>
        simp only [loop, ok_bind] at ran
        split at ran
        · cases ran
        · cases ran

/-- A format whose directives fit is expanded without overflow. -/
theorem AllFit.neverOverflows (fits : AllFit format args) : NeverOverflows format args := by
  have agree := fits.agree (format.length + 1) .start (Nat.zero_le intMax)
  change Agree 0 (expansion format args) (wholeExpansion format args) at agree
  have follows (fmt : Fmt) := fmtLoop_follows (format.length + 1) fmt format args
  change ∀ fmt, Follows fmt (expansion format args) _ at follows
  refine ⟨?_, ?_, ?_⟩
  · intro fmt overflows
    have run := follows fmt
    rw [fmtVsprintf_error overflows] at run
    rcases run with ⟨_, returned⟩ | ⟨room, ends⟩
    · cases returned
    · rcases agree with ⟨-, ended⟩ | ⟨long, -⟩
      · cases ending : (expansion format args).2 with
        | finished =>
            rw [ending] at ends
            obtain ⟨_, returned⟩ := ends
            cases returned
        | failed =>
            rw [ending] at ends
            obtain ⟨_, returned⟩ := ends
            cases returned
        | stopped stop =>
            rw [ending] at ends ended
            cases ends
            exact ended rfl
      · rcases room with empty | room
        · simp [empty] at long
        · omega
  · intro fmt result fmt' ran room
    rcases fmtVsprintf_ok ran with rfl | ⟨reached, fmt'', loop, count⟩
    · exact room
    · rw [count]
      exact fmtLoop_count_le _ room loop
  · intro long fmt count
    have expansionLong : intMax < (expansion format args).1.length := by
      rcases agree with ⟨same, -⟩ | ⟨long', -⟩
      · rwa [same]
      · simpa using long'
    by_cases size : fmt.size ≤ intMax
    · rcases follows fmt with ⟨fmt', loop⟩ | ⟨room, -⟩
      · have returned := fmtVsprintf_of_loop size loop
        exact ⟨fmt', returned⟩
      · rcases room with empty | room
        · simp [empty] at expansionLong
        · omega
    · exact ⟨fmt, by rw [fmtVsprintf, if_pos (Nat.lt_of_not_le size)]⟩

theorem readDirective_within {cursor : List Char} {directive : Directive}
    (read : readDirective cursor args = .ok directive) :
    directive.Within cursor.length args := by
  refine (readDirective_ensures fun overflows => ?_).of_ok read
  rw [readDirective_overflow overflows] at read
  cases read

theorem prepend_prepend (text more : List Char) (expansion : List Char × Ending) :
    prepend text (prepend more expansion) = prepend (text ++ more) expansion :=
  Prod.ext (List.append_assoc text more expansion.1).symm rfl

theorem ShortStrings.suffix {rest : List Arg} (short : ShortStrings args) (suffix : rest <:+ args) :
    ShortStrings rest := fun s member => short s (suffix.subset member)

/-- What is reached with room in the count is reached by the formatter. -/
theorem Reached.expansion_eq {text cursor : List Char} {rest : List Arg}
    (short : ShortStrings args) (reached : Reached format args text cursor rest)
    (room : text.length ≤ intMax) : ShortStrings rest ∧ ∃ rounds, cursor.length < rounds ∧
      expansion format args = prepend text (expand rounds cursor rest) := by
  induction reached with
  | start => exact ⟨short, format.length + 1, Nat.lt_succ_self _, rfl⟩
  | literal reached read inductionHypothesis =>
      rw [List.length_append] at room
      obtain ⟨shortRest, rounds, more, same⟩ := inductionHypothesis (by omega)
      obtain ⟨rounds, rfl⟩ := Nat.exists_eq_succ_of_ne_zero (Nat.ne_zero_of_lt more)
      have shorter := readDirective_within read
      refine ⟨shortRest, rounds, Nat.lt_of_lt_of_le shorter (Nat.le_of_lt_succ more), ?_⟩
      rw [same, expand, read]
      exact prepend_prepend _ _ _
  | invalid reached read inductionHypothesis =>
      obtain ⟨shortRest, rounds, more, same⟩ := inductionHypothesis room
      obtain ⟨rounds, rfl⟩ := Nat.exists_eq_succ_of_ne_zero (Nat.ne_zero_of_lt more)
      obtain ⟨shorter, suffix⟩ := readDirective_within read
      refine ⟨shortRest.suffix suffix, rounds,
        Nat.lt_of_lt_of_le shorter (Nat.le_of_lt_succ more), ?_⟩
      rw [same, expand, read]
  | conversion reached read converted inductionHypothesis =>
      rw [List.length_append] at room
      obtain ⟨shortRest, rounds, more, same⟩ := inductionHypothesis (by omega)
      obtain ⟨rounds, rfl⟩ := Nat.exists_eq_succ_of_ne_zero (Nat.ne_zero_of_lt more)
      obtain ⟨shorter, suffix, flagsRead⟩ := readDirective_within read
      have shortArgs := shortRest.suffix suffix
      have suffix' := (wholeText_ensures flagsRead).of_ok converted
      refine ⟨shortArgs.suffix suffix', rounds,
        Nat.lt_of_lt_of_le shorter (Nat.le_of_lt_succ more), ?_⟩
      rw [same, expand, read]
      dsimp only
      rw [conversionText_of_fits flagsRead, converted]
      · exact prepend_prepend _ _ _
      · refine Classical.byContradiction fun long => ?_
        obtain ⟨-, _, _, whole, exceeds⟩ := conversionText_overflow flagsRead shortArgs long
        cases Except.ok.inj (converted.symm.trans whole)
        omega

/-- A directive that does not fit stops the formatter. -/
theorem expand_overflow {cursor : List Char} {rest : List Arg} {rounds : Nat}
    (short : ShortStrings rest) (long : ¬DirectiveFits cursor rest) :
    expand (rounds + 1) cursor rest = ([], .stopped .overflow) := by
  rw [expand]
  by_cases overflows : StarOverflows cursor rest
  · rw [readDirective_overflow overflows]
  · have converts : ¬_ := fun fits => long ⟨overflows, fits⟩
    simp only [not_forall] at converts
    obtain ⟨flags, len, spec, after, args', read, unfit⟩ := converts
    obtain ⟨-, suffix, flagsRead⟩ := readDirective_within read
    rw [read]
    dsimp only
    rw [(conversionText_overflow flagsRead (short.suffix suffix) unfit).1]

theorem NeverOverflows.allFit (short : ShortStrings args) (never : NeverOverflows format args) :
    AllFit format args := by
  intro text cursor rest reached room
  refine Classical.byContradiction fun long => ?_
  obtain ⟨shortRest, rounds, more, same⟩ := reached.expansion_eq short room
  obtain ⟨rounds, rfl⟩ := Nat.exists_eq_succ_of_ne_zero (Nat.ne_zero_of_lt more)
  rw [expand_overflow shortRest long] at same
  have prints := fmtLoop_prints (format.length + 1) format args acceptAll_shows (Nat.zero_le intMax)
  change Prints _ _ (expansion format args) _ at prints
  rw [same] at prints
  have stopped := prints.of_stopped (by simpa using room)
  refine never.lengths acceptAll ?_
  have small : ¬intMax < acceptAll.size := Nat.not_lt_zero _
  rw [fmtVsprintf, if_neg small]
  dsimp only
  rw [stopped]
  rfl

/-- The formatter is free of overflow where all directives fit, and, for strings that an `int`
can count, only there. -/
theorem neverOverflows_allFit (format : List Char) (args : List Arg) :
    (AllFit format args → NeverOverflows format args) ∧
      (ShortStrings args → NeverOverflows format args → AllFit format args) :=
  ⟨AllFit.neverOverflows, NeverOverflows.allFit⟩

/-- The least `int` as a width. -/
theorem not_neverOverflows_least :
    ¬NeverOverflows "%*d".toList [.int (BitVec.ofInt 32 (-2 ^ 31)), .int 7] := by
  intro never
  exact never.lengths acceptAll rfl

end Overflow

end Opal.Libkc
