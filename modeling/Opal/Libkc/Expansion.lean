import Opal.Libkc.Format

/-!
# The expansion of a format

What a format and its arguments expand to does not depend on where the characters go.
`expand` is that text with the way it ends, and `fmtLoop_prints` says that the formatter
shows it in every sink, up to the largest count.
-/

namespace Opal.Libkc

section Texts

/-- The text with its blanks on one side. -/
def padded (leftAdj : Bool) (pad : Nat) (text : List Char) : List Char :=
  if leftAdj then text ++ List.replicate pad ' ' else List.replicate pad ' ' ++ text

def Laid.body (laid : Laid) : List Char :=
  laid.sign ++ laid.prefixed ++ List.replicate laid.zeroes '0' ++ laid.rev.reverse

def integerText (mag : Nat) (negative : Bool) (flags : PrintfFlags) (base : Nat) (upper : Bool)
    (spec : Char) : Except Stop (List Char) := do
  let laid ← layInteger mag negative flags base upper spec
  .ok (padded flags.leftAdj laid.padLen laid.body)

def charText (flags : PrintfFlags) (ch : Char) : Except Stop (List Char) := do
  let pad ← excess flags.width 1
  .ok (padded flags.leftAdj pad.toNat [ch])

def stringText (flags : PrintfFlags) (s : List Char) : Except Stop (List Char) := do
  let lenS := stringLength flags s
  let pad ← excess flags.width lenS
  .ok (padded flags.leftAdj pad.toNat (s.take lenS.toNat))

def numberText (number : Number) : Except Stop (List Char) :=
  integerText number.mag number.negative number.flags number.base number.upper number.spec

/-- What a conversion expands to; `none` where it is refused. -/
def conversionText (flags : PrintfFlags) (len : LengthModifier) (spec : Char) (args : List Arg) :
    Except Stop (Option (List Char) × List Arg) :=
  match readNumber flags len spec args with
  | some read => do
      let (number, args) ← read
      let text ← numberText number
      .ok (some text, args)
  | none =>
      if spec = 'c' then do
        let (value, args) ← vaInt args
        let text ← charText flags (Char.ofNat (value.setWidth 8).toNat)
        .ok (some text, args)
      else if spec = 's' then do
        let (value, args) ← vaString args
        match value with
        | none => .ok (none, args)
        | some s => do
            let text ← stringText flags s
            .ok (some text, args)
      else if spec = 'n' then .ok (none, args)
      else .ok (some [], args)

variable {fmt : Fmt} {flags : PrintfFlags}

/-- A padded text is put between two loops of blanks, one of which is empty. -/
theorem put_padded (leftAdj : Bool) (pad : Nat) (text : List Char) :
    put fmt (padded leftAdj pad text) =
      if leftAdj then writeRepeat (put fmt text) ' ' pad
      else put (writeRepeat fmt ' ' pad) text := by
  cases leftAdj with
  | false => rw [padded, if_neg (by decide), if_neg (by decide), put_append, writeRepeat_eq]
  | true => rw [padded, if_pos rfl, if_pos rfl, put_append, writeRepeat_eq]

/-- The writing of `text`, once it is known. -/
def puts (fmt : Fmt) (text : Except Stop (List Char)) : Except Stop Fmt :=
  match text with
  | .error stop => .error stop
  | .ok text => .ok (put fmt text)

theorem writeInteger_puts (mag : Nat) (negative : Bool) (base : Nat) (upper : Bool)
    (spec : Char) : writeInteger fmt mag negative flags base upper spec =
      puts fmt (integerText mag negative flags base upper spec) := by
  unfold writeInteger integerText
  cases layInteger mag negative flags base upper spec with
  | error stop => rfl
  | ok laid =>
      simp only [ok_bind, puts, put_padded, Laid.body, put_append, ← writeRepeat_eq]
      cases flags.leftAdj <;> rfl

theorem writeCharConversion_puts (ch : Char) :
    writeCharConversion fmt flags ch = puts fmt (charText flags ch) := by
  unfold writeCharConversion charText
  cases excess flags.width 1 with
  | error stop => rfl
  | ok pad =>
      simp only [ok_bind, puts, put_padded, put_cons, put_nil]
      cases flags.leftAdj <;> rfl

theorem writeStringConversion_puts (s : List Char) :
    writeStringConversion fmt flags s = puts fmt (stringText flags s) := by
  unfold writeStringConversion stringText
  dsimp only
  cases excess flags.width (stringLength flags s) with
  | error stop => rfl
  | ok pad =>
      simp only [ok_bind, puts, put_padded, writeBytes_eq]
      cases flags.leftAdj <;> rfl

/-- What a conversion does with the argument it reads and the text it makes of it. -/
def putsRead (fmt : Fmt) (converted : Except Stop (Option (List Char) × List Arg)) :
    Except Stop (Option Fmt × List Arg) :=
  match converted with
  | .error stop => .error stop
  | .ok (text, args) => .ok (text.map (put fmt), args)

theorem putsRead_bind {α : Type} (read : Except Stop (α × List Arg))
    (text : α → Except Stop (List Char)) :
    (read >>= fun found => puts fmt (text found.1) >>= fun fmt => .ok (some fmt, found.2)) =
      putsRead fmt
        (read >>= fun found => text found.1 >>= fun text => .ok (some text, found.2)) := by
  cases read with
  | error stop => rfl
  | ok found =>
      simp only [ok_bind]
      cases text found.1 <;> rfl

/-- A conversion puts its text, whatever the state of the writer. -/
theorem writeConversion_puts (len : LengthModifier) (spec : Char) (args : List Arg) :
    writeConversion fmt flags len spec args =
      putsRead fmt (conversionText flags len spec args) := by
  unfold writeConversion conversionText
  simp only [writeInteger_puts, writeCharConversion_puts, writeStringConversion_puts]
  cases readNumber flags len spec args with
  | some read => exact putsRead_bind read numberText
  | none =>
      dsimp only
      split
      · exact putsRead_bind (vaInt args) fun value =>
          charText flags (Char.ofNat (value.setWidth 8).toNat)
      split
      · cases vaString args with
        | error stop => rfl
        | ok found =>
            obtain ⟨value, args⟩ := found
            cases value with
            | none => rfl
            | some s => exact putsRead_bind (.ok (s, args)) fun s => stringText flags s
      split
      · rfl
      · rfl

end Texts

section Expand

/-- How an expansion ends. -/
inductive Ending where
  | finished
  | failed
  | stopped (stop : Stop)
  deriving DecidableEq, Repr

def prepend (text : List Char) (expansion : List Char × Ending) : List Char × Ending :=
  (text ++ expansion.1, expansion.2)

def expand : Nat → List Char → List Arg → List Char × Ending
  | 0, _, _ => ([], .stopped .endless)
  | rounds + 1, cursor, args =>
      match readDirective cursor args with
      | .error stop => ([], .stopped stop)
      | .ok .done => ([], .finished)
      | .ok (.literal ch rest) => prepend [ch] (expand rounds rest args)
      | .ok (.invalid rest args) => expand rounds rest args
      | .ok (.conversion flags len spec rest args) =>
          match conversionText flags len spec args with
          | .error stop => ([], .stopped stop)
          | .ok (none, _) => ([], .failed)
          | .ok (some text, args) => prepend text (expand rounds rest args)

/-- What a run of the formatter on a sink that shows `text` gives, when the rest of the
format expands to the pair. -/
inductive Prints (sink : Sink) (text : List Char) :
    List Char × Ending → Except Stop (Bool × Fmt) → Prop where
  | finished {more : List Char} {fmt : Fmt} (room : text.length + more.length ≤ intMax)
      (shows : sink.Shows (text ++ more) fmt) :
      Prints sink text (more, .finished) (.ok (true, fmt))
  | failed {more : List Char} {fmt : Fmt} (room : text.length + more.length ≤ intMax)
      (shows : sink.Shows (text ++ more) fmt) :
      Prints sink text (more, .failed) (.ok (false, fmt))
  | stopped {more : List Char} (stop : Stop) (room : text.length + more.length ≤ intMax) :
      Prints sink text (more, .stopped stop) (.error stop)
  | overfull {more : List Char} {ending : Ending} {fmt : Fmt}
      (long : intMax < text.length + more.length) (overfull : sink.Overfull fmt) :
      Prints sink text (more, ending) (.ok (false, fmt))

variable {sink : Sink} {text more : List Char} {expansion : List Char × Ending}
  {outcome : Except Stop (Bool × Fmt)}

/-- A text that was shown counts as a part of the expansion. -/
theorem Prints.prepend (prints : Prints sink (text ++ more) expansion outcome) :
    Prints sink text (Libkc.prepend more expansion) outcome := by
  cases prints with
  | finished room shows =>
      rw [List.append_assoc] at shows
      exact .finished (by simpa [Nat.add_assoc] using room) shows
  | failed room shows =>
      rw [List.append_assoc] at shows
      exact .failed (by simpa [Nat.add_assoc] using room) shows
  | stopped stop room => exact .stopped stop (by simpa [Nat.add_assoc] using room)
  | overfull long overfull => exact .overfull (by simpa [Nat.add_assoc] using long) overfull

/-- A text is put, and the loop goes on unless that failed. -/
theorem prints_put {fmt : Fmt} {next : Fmt → Except Stop (Bool × Fmt)}
    (shows : sink.Shows text fmt) (bounded : text.length ≤ intMax)
    (goesOn : ∀ fmt', sink.Shows (text ++ more) fmt' → (text ++ more).length ≤ intMax →
      Prints sink (text ++ more) expansion (next fmt')) :
    Prints sink text (prepend more expansion)
      (if (put fmt more).error then .ok (false, put fmt more) else next (put fmt more)) := by
  by_cases room : text.length + more.length ≤ intMax
  · have shown := sink.put_shows shows room
    have alive : ¬(put fmt more).error = true := by simp [sink.alive shown]
    rw [if_neg alive]
    exact (goesOn _ shown (by simpa using room)).prepend
  · have overfull := sink.put_overfull shows (Nat.lt_of_not_le room) bounded
    rw [if_pos overfull.error]
    refine .overfull ?_ overfull
    simp only [List.length_append]
    omega

/-- The loop shows the expansion in every sink, as far as the count goes. -/
theorem fmtLoop_prints (rounds : Nat) {fmt : Fmt} (cursor : List Char) (args : List Arg)
    (shows : sink.Shows text fmt) (bounded : text.length ≤ intMax) :
    Prints sink text (expand rounds cursor args) (fmtLoop rounds fmt cursor args) := by
  induction rounds generalizing text fmt cursor args with
  | zero => exact .stopped .endless (by simpa using bounded)
  | succ rounds inductionHypothesis =>
      rw [expand, fmtLoop]
      cases readDirective cursor args with
      | error stop => exact .stopped stop (by simpa using bounded)
      | ok directive =>
          cases directive with
          | done => exact .finished (by simpa using bounded) (by simpa using shows)
          | literal ch rest =>
              exact @prints_put sink text [ch] _ fmt (fun fmt => fmtLoop rounds fmt rest args)
                shows bounded fun fmt' => inductionHypothesis rest args
          | invalid rest args => exact inductionHypothesis rest args shows bounded
          | conversion flags len spec rest args =>
              simp only [ok_bind, writeConversion_puts]
              cases conversionText flags len spec args with
              | error stop => exact .stopped stop (by simpa using bounded)
              | ok found =>
                  obtain ⟨converted, args⟩ := found
                  cases converted with
                  | none => exact .failed (by simpa using bounded) (by simpa using shows)
                  | some more =>
                      exact @prints_put sink text more _ fmt
                        (fun fmt => fmtLoop rounds fmt rest args) shows bounded
                        fun fmt' => inductionHypothesis rest args

end Expand

end Opal.Libkc
