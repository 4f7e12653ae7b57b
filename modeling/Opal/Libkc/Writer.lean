import Mathlib.Algebra.Group.Nat.Defs
import Mathlib.Data.Stream.Init
import Mathlib.Logic.Function.Basic

/-!
# Writing formatted characters

`struct fmt` is the place characters go to: a buffer, a callback, or a count.  All output
passes through `write_char`, which leaves the buffer for the count when the buffer is full.
A `Sink` says what a place shows after a text, so that what is written can be stated once
for every place.
-/

namespace Opal.Libkc

section Data

def intMax : Nat := 2 ^ 31 - 1

def nul : Char := Char.ofNat 0

/-- The memory of a caller's buffer. -/
abbrev Buffer := Nat → Char

/-- `struct fmt`.  The union is read as a pointer into the buffer while `size` is positive
and as the callback otherwise; the callback is given by its answers and by what it was
sent. -/
structure Fmt where
  buffer : Buffer
  pos : Nat
  writeFn : Option (Stream' Bool)
  sent : List Char
  size : Nat
  count : Nat
  error : Bool

end Data

section Write

def writeChar (fmt : Fmt) (ch : Char) : Fmt :=
  if fmt.error then fmt
  else if intMax ≤ fmt.count then { fmt with error := true }
  else if 0 < fmt.size then
    if fmt.count < fmt.size - 1 then
      { fmt with
        buffer := Function.update fmt.buffer fmt.pos ch
        pos := fmt.pos + 1
        count := fmt.count + 1 }
    else
      -- the buffer is closed, and the characters are counted from here on
      { fmt with
        buffer := Function.update fmt.buffer fmt.pos nul
        size := 0
        writeFn := none
        count := fmt.count + 1 }
  else match fmt.writeFn with
    | some answers =>
        let fmt := { fmt with writeFn := some answers.tail, sent := fmt.sent ++ [ch] }
        if answers.head then { fmt with count := fmt.count + 1 } else { fmt with error := true }
    | none => { fmt with count := fmt.count + 1 }

/-- The loop of `write_repeat` over the characters that are left. -/
def writeRepeat (fmt : Fmt) (ch : Char) : Nat → Fmt
  | 0 => fmt
  | count + 1 =>
      let fmt := writeChar fmt ch
      if fmt.error then fmt else writeRepeat fmt ch count

/-- The loop of `write_bytes` over the bytes that are left. -/
def writeBytes (fmt : Fmt) : List Char → Fmt
  | [] => fmt
  | ch :: rest =>
      let fmt := writeChar fmt ch
      if fmt.error then fmt else writeBytes fmt rest

/-- The characters one after the other. -/
def put (fmt : Fmt) (text : List Char) : Fmt := text.foldl writeChar fmt

variable {fmt : Fmt} {ch : Char} {text more : List Char}

theorem writeChar_of_error (error : fmt.error = true) : writeChar fmt ch = fmt := if_pos error

@[simp]
theorem put_nil : put fmt [] = fmt := rfl

@[simp]
theorem put_cons : put fmt (ch :: text) = put (writeChar fmt ch) text := rfl

theorem put_append : put fmt (text ++ more) = put (put fmt text) more := List.foldl_append

theorem put_of_error (error : fmt.error = true) : put fmt text = fmt := by
  induction text with
  | nil => rfl
  | cons ch text inductionHypothesis => rw [put_cons, writeChar_of_error error, inductionHypothesis]

theorem writeRepeat_eq {count : Nat} :
    writeRepeat fmt ch count = put fmt (List.replicate count ch) := by
  induction count generalizing fmt with
  | zero => rfl
  | succ count inductionHypothesis =>
      rw [writeRepeat, List.replicate_succ, put_cons]
      by_cases error : (writeChar fmt ch).error = true
      · rw [if_pos error, put_of_error error]
      · rw [if_neg error, inductionHypothesis]

theorem writeBytes_eq : writeBytes fmt text = put fmt text := by
  induction text generalizing fmt with
  | nil => rfl
  | cons ch text inductionHypothesis =>
      rw [writeBytes, put_cons]
      by_cases error : (writeChar fmt ch).error = true
      · rw [if_pos error, put_of_error error]
      · rw [if_neg error, inductionHypothesis]

end Write

section Sinks

/-- A place for characters: when it shows a text, nothing has failed and the text is
counted, and one more character is shown as long as the count has room. -/
structure Sink where
  Shows : List Char → Fmt → Prop
  alive : ∀ {text fmt}, Shows text fmt → fmt.error = false
  counted : ∀ {text fmt}, Shows text fmt → fmt.count = text.length
  write : ∀ {text fmt} (ch : Char), Shows text fmt → text.length < intMax →
    Shows (text ++ [ch]) (writeChar fmt ch)

namespace Sink

variable (sink : Sink) {fmt : Fmt} {text more : List Char}

/-- The writing failed at a text that fills the count. -/
def Overfull (fmt : Fmt) : Prop :=
  ∃ text before, sink.Shows text before ∧ text.length = intMax ∧ fmt = { before with error := true }

theorem write_full (ch : Char) (shows : sink.Shows text fmt) (full : text.length = intMax) :
    writeChar fmt ch = { fmt with error := true } := by
  have count : intMax ≤ fmt.count := by rw [sink.counted shows, full]
  rw [writeChar, if_neg (by simp [sink.alive shows]), if_pos count]

theorem put_shows (shows : sink.Shows text fmt) (room : text.length + more.length ≤ intMax) :
    sink.Shows (text ++ more) (put fmt more) := by
  induction more generalizing fmt text with
  | nil => simpa using shows
  | cons ch more inductionHypothesis =>
      have next := sink.write ch shows (by simp at room; omega)
      have rest := inductionHypothesis next (by simp at room ⊢; omega)
      rwa [List.append_assoc, List.singleton_append] at rest

theorem put_overfull (shows : sink.Shows text fmt) (long : intMax < text.length + more.length)
    (bounded : text.length ≤ intMax) : sink.Overfull (put fmt more) := by
  induction more generalizing fmt text with
  | nil => simp at long; omega
  | cons ch more inductionHypothesis =>
      rw [put_cons]
      by_cases full : text.length = intMax
      · rw [sink.write_full ch shows full, put_of_error rfl]
        exact ⟨text, fmt, shows, full, rfl⟩
      · have next := sink.write ch shows (by omega)
        exact inductionHypothesis next (by simp at long ⊢; omega) (by simp; omega)

theorem Overfull.error {fmt : Fmt} (overfull : sink.Overfull fmt) : fmt.error = true := by
  obtain ⟨_, _, _, _, rfl⟩ := overfull
  rfl

end Sink

/-- No place: the characters are counted. -/
def counting : Sink where
  Shows text fmt := fmt.error = false ∧ fmt.count = text.length ∧ fmt.size = 0 ∧ fmt.writeFn = none
  alive shows := shows.1
  counted shows := shows.2.1
  write := by
    rintro text fmt ch ⟨alive, count, size, writeFn⟩ room
    rw [writeChar, if_neg (by simp [alive]), if_neg (by omega), if_neg (by omega)]
    simp [alive, count, size, writeFn]

/-- A callback that accepts every character. -/
def accepting : Sink where
  Shows text fmt := fmt.error = false ∧ fmt.count = text.length ∧ fmt.size = 0 ∧
    fmt.writeFn = some (Stream'.const true) ∧ fmt.sent = text
  alive shows := shows.1
  counted shows := shows.2.1
  write := by
    rintro text fmt ch ⟨alive, count, size, writeFn, sent⟩ room
    have accepted : (Stream'.const true).head = true := rfl
    have onward : (Stream'.const true).tail = Stream'.const true := Stream'.tail_const true
    rw [writeChar, if_neg (by simp [alive]), if_neg (by omega), if_neg (by omega)]
    simp [alive, count, size, writeFn, sent, accepted, onward]

/-- What a buffer of `size` bytes holds after a text: the text while there is room for a
terminator behind it, and its beginning with the terminator afterwards. -/
structure Held (size : Nat) (before : Buffer) (text : List Char) (fmt : Fmt) : Prop where
  alive : fmt.error = false
  counted : fmt.count = text.length
  prefixes : ∀ i, (lower : i < text.length) → i < size - 1 → fmt.buffer i = text.get ⟨i, lower⟩
  outside : ∀ i, size ≤ i → fmt.buffer i = before i
  opened : text.length ≤ size - 1 → fmt.size = size ∧ fmt.pos = text.length
  closed : size - 1 < text.length → fmt.size = 0 ∧ fmt.writeFn = none ∧ fmt.buffer (size - 1) = nul

theorem get_concat {text : List Char} {ch : Char} {i : Nat} (lower : i < (text ++ [ch]).length) :
    (text ++ [ch]).get ⟨i, lower⟩ =
      if inside : i < text.length then text.get ⟨i, inside⟩ else ch := by
  by_cases inside : i < text.length
  · simp [inside, List.getElem_append_left]
  · simp [inside, List.getElem_append_right (Nat.le_of_not_lt inside)]

theorem Held.write {size : Nat} {before : Buffer} {text : List Char} {fmt : Fmt} (ch : Char)
    (positive : 0 < size) (held : Held size before text fmt) (room : text.length < intMax) :
    Held size before (text ++ [ch]) (writeChar fmt ch) := by
  have alive : ¬fmt.error = true := by simp [held.alive]
  have count : ¬intMax ≤ fmt.count := by
    rw [held.counted]
    omega
  have length : (text ++ [ch]).length = text.length + 1 := by simp
  have counted : fmt.count + 1 = (text ++ [ch]).length := by rw [held.counted, length]
  unfold writeChar
  rw [if_neg alive, if_neg count]
  by_cases open' : text.length ≤ size - 1
  · obtain ⟨sameSize, samePos⟩ := held.opened open'
    rw [if_pos (by omega)]
    by_cases more : fmt.count < fmt.size - 1
    · rw [if_pos more]
      rw [held.counted, sameSize] at more
      refine ⟨held.alive, counted, ?_, ?_, ?_, ?_⟩
      · intro i lower inside
        rw [get_concat]
        by_cases old : i < text.length
        · rw [dif_pos old, ← held.prefixes i old inside]
          exact Function.update_of_ne (by omega) _ _
        · have last : i = fmt.pos := by omega
          rw [dif_neg old, last]
          exact Function.update_self _ _ _
      · intro i beyond
        rw [← held.outside i beyond]
        exact Function.update_of_ne (by omega) _ _
      · intro _
        exact ⟨sameSize, by dsimp only; omega⟩
      · intro closed
        omega
    · rw [if_neg more]
      rw [held.counted, sameSize] at more
      refine ⟨held.alive, counted, ?_, ?_, ?_, ?_⟩
      · intro i lower inside
        have old : i < text.length := by omega
        rw [get_concat, dif_pos old, ← held.prefixes i old inside]
        exact Function.update_of_ne (by omega) _ _
      · intro i beyond
        rw [← held.outside i beyond]
        exact Function.update_of_ne (by omega) _ _
      · intro still
        omega
      · intro _
        refine ⟨rfl, rfl, ?_⟩
        have last : size - 1 = fmt.pos := by omega
        rw [last]
        exact Function.update_self _ _ _
  · obtain ⟨sameSize, noFn, ended⟩ := held.closed (Nat.lt_of_not_le open')
    rw [if_neg (by omega), noFn]
    refine ⟨held.alive, counted, ?_, held.outside, ?_, fun _ => ⟨sameSize, rfl, ended⟩⟩
    · intro i lower inside
      have old : i < text.length := by omega
      rw [get_concat, dif_pos old]
      exact held.prefixes i old inside
    · intro still
      omega

/-- A buffer of `size` bytes. -/
def buffered (size : Nat) (positive : 0 < size) (before : Buffer) : Sink where
  Shows := Held size before
  alive := Held.alive
  counted := Held.counted
  write ch shows room := shows.write ch positive room

end Sinks

end Opal.Libkc
