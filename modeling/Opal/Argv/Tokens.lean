import Opal.Argv.Operations

/-!
# The parser against the tokenizer

The parser writes over what it has read.  Its place to write to never passes its place to read
from, so the unread part of the line is the one of the text, and the strings of the arguments
before are out of its reach.
-/

namespace Opal.Argv

section Lines

/-- The line holds a text from a position on. -/
def Reads (line : Memory) : Nat → List UInt8 → Prop
  | _, [] => True
  | pos, ch :: rest => line pos = ch ∧ Reads line (pos + 1) rest

variable {strlen src dst pos : Nat} {line line' : Memory} {text rest left : List UInt8}
  {ch quote : UInt8}

theorem Reads.congr (reads : Reads line pos text)
    (same : ∀ i, pos ≤ i → i < pos + text.length → line' i = line i) : Reads line' pos text := by
  induction text generalizing pos with
  | nil => trivial
  | cons ch rest inductionHypothesis =>
      obtain ⟨first, reads⟩ := reads
      rw [List.length_cons] at same
      refine ⟨(same pos (Nat.le_refl _) (by omega)).trans first, inductionHypothesis reads ?_⟩
      intro i above below
      exact same i (by omega) (by omega)

/-- What is left of the line: a text and the terminator. -/
structure Unread (strlen : Nat) (line : Memory) (src : Nat) (rest : List UInt8) : Prop where
  reads : Reads line src rest
  ends : src + rest.length = strlen
  terminated : line strlen = 0
  clean : 0 ∉ rest

theorem Unread.peek_nil (unread : Unread strlen line src []) : peek strlen line src = .ok 0 := by
  have last : src = strlen := unread.ends
  rw [peek, last, if_pos (Nat.le_refl _), unread.terminated]

theorem Unread.peek_cons (unread : Unread strlen line src (ch :: rest)) :
    peek strlen line src = .ok ch := by
  have ends := unread.ends
  rw [List.length_cons] at ends
  rw [peek, if_pos (by omega), unread.reads.1]

theorem Unread.ne_zero (unread : Unread strlen line src (ch :: rest)) : ch ≠ 0 :=
  (List.ne_of_not_mem_cons unread.clean).symm

theorem Unread.tail (unread : Unread strlen line src (ch :: rest)) :
    Unread strlen line (src + 1) rest where
  reads := unread.reads.2
  ends := by
    have ends := unread.ends
    rw [List.length_cons] at ends
    omega
  terminated := unread.terminated
  clean := List.not_mem_of_not_mem_cons unread.clean

theorem Unread.src_le (unread : Unread strlen line src rest) : src ≤ strlen := by
  have ends := unread.ends
  omega

theorem Unread.update (unread : Unread strlen line src rest) (lag : dst < src) (ch : UInt8) :
    Unread strlen (Function.update line dst ch) src rest where
  reads := unread.reads.congr fun i above _ => Function.update_of_ne (by omega) ..
  ends := unread.ends
  terminated := by
    have ends := unread.src_le
    rw [Function.update_of_ne (by omega)]
    exact unread.terminated
  clean := unread.clean

theorem Unread.put (unread : Unread strlen line src rest) (lag : dst < src) :
    Cursor.put strlen ⟨line, src, dst, quote⟩ ch =
      .ok ⟨Function.update line dst ch, src, dst + 1, quote⟩ := by
  have ends := unread.src_le
  rw [Cursor.put, poke, if_pos (by dsimp only; omega)]
  rfl

end Lines

section Words

/-- Nothing changed before a position, nor from the terminator on. -/
def Frame (strlen : Nat) (line : Memory) (dst : Nat) (line' : Memory) : Prop :=
  ∀ i, i < dst ∨ strlen ≤ i → line' i = line i

/-- The argument that was written, and the state it leaves behind. -/
structure WordRead (strlen : Nat) (line : Memory) (dst : Nat) (line' : Memory) (src' : Nat)
    (text left : List UInt8) : Prop where
  unread : Unread strlen line' src' left
  reads : Reads line' dst text
  lag : dst + text.length < src' ∨ (dst + text.length = src' ∧ left = [])
  frame : Frame strlen line dst line'
  clean : 0 ∉ text

variable {strlen rounds src dst : Nat} {line line' : Memory} {text rest left : List UInt8}
  {ch quote : UInt8} {run : Run (Bool × Cursor)}
  {result : Except ParseResult (List UInt8 × List UInt8)}

/-- The inner loop ends as the word of the text does. -/
def Follows (strlen : Nat) (line : Memory) (dst : Nat) (run : Run (Bool × Cursor)) :
    Except ParseResult (List UInt8 × List UInt8) → Prop
  | .ok (text, left) => ∃ line' src', run = .ok (false, ⟨line', src', dst + text.length, 0⟩) ∧
      WordRead strlen line dst line' src' text left
  | .error e => ∃ cursor, run = .ok (e = .trailingEscape, cursor) ∧
      (e = .trailingEscape ∨ (e = .unterminatedQuote ∧ cursor.quote ≠ 0)) ∧
      Frame strlen line dst cursor.line

theorem Frame.of_update (lag : dst < strlen)
    (frame : Frame strlen (Function.update line dst ch) (dst + 1) line') :
    Frame strlen line dst line' := by
  intro i outside
  rw [frame i (by omega), Function.update_of_ne (by omega)]

theorem WordRead.cons {src' : Nat} (lag : dst < strlen) (nonzero : ch ≠ 0)
    (read : WordRead strlen (Function.update line dst ch) (dst + 1) line' src' text left) :
    WordRead strlen line dst line' src' (ch :: text) left where
  unread := read.unread
  reads := by
    refine ⟨?_, read.reads⟩
    rw [read.frame dst (.inl (Nat.lt_succ_self dst)), Function.update_self]
  lag := by
    rw [List.length_cons]
    rcases read.lag with less | ⟨same, empty⟩
    · exact .inl (by omega)
    · exact .inr ⟨by omega, empty⟩
  frame := read.frame.of_update lag
  clean := by
    rw [List.mem_cons, not_or]
    exact ⟨nonzero.symm, read.clean⟩

/-- A byte is written and belongs to the argument. -/
theorem Follows.put (lag : dst < strlen) (nonzero : ch ≠ 0)
    (follows : Follows strlen (Function.update line dst ch) (dst + 1) run result) :
    Follows strlen line dst run (result.map (withByte ch)) := by
  cases result with
  | error e =>
      obtain ⟨cursor, returned, reason, frame⟩ := follows
      exact ⟨cursor, returned, reason, frame.of_update lag⟩
  | ok parts =>
      obtain ⟨text, left⟩ := parts
      obtain ⟨line', src', returned, read⟩ := follows
      refine ⟨line', src', ?_, read.cons lag nonzero⟩
      rw [returned, List.length_cons, Nat.add_assoc, Nat.add_comm 1]

/-- The variable `quote` holds the quote that is open, or 0. -/
def Holds (quote : UInt8) : Option UInt8 → Prop
  | none => quote = 0
  | some opened => quote = opened ∧ quote ≠ 0

theorem wordLoop_follows {opened : Option UInt8} (unread : Unread strlen line src rest)
    (lag : dst ≤ src) (enough : rest.length < rounds) (holds : Holds quote opened) :
    Follows strlen line dst (wordLoop strlen rounds ⟨line, src, dst, quote⟩)
      (word opened rest) := by
  induction rounds generalizing line src dst quote rest opened with
  | zero => exact absurd enough (Nat.not_lt_zero _)
  | succ rounds inductionHypothesis =>
      unfold wordLoop
      cases rest with
      | nil =>
          dsimp only
          rw [unread.peek_nil, ok_bind, if_pos rfl]
          cases opened with
          | none =>
              subst holds
              refine ⟨line, src, rfl, unread, trivial, ?_, fun _ _ => rfl, List.not_mem_nil⟩
              exact (Nat.lt_or_eq_of_le lag).imp id fun same => ⟨same, rfl⟩
          | some opened => exact ⟨_, rfl, .inr ⟨rfl, holds.2⟩, fun _ _ => rfl⟩
      | cons ch rest =>
          have nonzero := unread.ne_zero
          have tail := unread.tail
          have inside : dst < strlen := Nat.lt_of_lt_of_le (Nat.lt_succ_of_le lag) tail.src_le
          have fewer : rest.length < rounds := Nat.lt_of_succ_lt_succ enough
          have behind : dst < src + 1 := Nat.lt_succ_of_le lag
          -- a byte of the argument is written at `dst`, which was read before
          have written {quote opened} (holds : Holds quote opened) :
              Follows strlen line dst (do
                let cursor ← Cursor.put strlen ⟨line, src + 1, dst, quote⟩ ch
                wordLoop strlen rounds cursor)
                ((word opened rest).map (withByte ch)) := by
            rw [tail.put behind, ok_bind]
            apply Follows.put inside nonzero
            exact inductionHypothesis (tail.update behind ch) behind fewer holds
          have escaped {quote opened next rest'} (same : rest = next :: rest')
              (holds : Holds quote opened) :
              Follows strlen line dst (do
                let cursor ← Cursor.put strlen ⟨line, src + 1 + 1, dst, quote⟩ next
                wordLoop strlen rounds cursor)
                ((word opened rest').map (withByte next)) := by
            subst same
            rw [tail.tail.put (Nat.lt_succ_of_lt behind), ok_bind]
            apply Follows.put inside tail.ne_zero
            exact inductionHypothesis (tail.tail.update (Nat.lt_succ_of_lt behind) next)
              (Nat.le_succ_of_le behind) (Nat.lt_of_succ_lt fewer) holds
          dsimp only
          rw [unread.peek_cons, ok_bind, if_neg nonzero]
          unfold word
          cases opened with
          | none =>
              subst holds
              rw [if_neg (not_not_intro rfl)]
              dsimp only
              by_cases opens : ch = singleQuote ∨ ch = doubleQuote
              · rw [if_pos opens, if_pos opens]
                exact inductionHypothesis tail (Nat.le_succ_of_le lag) fewer ⟨rfl, nonzero⟩
              · rw [if_neg opens, if_neg opens]
                by_cases escape : ch = backslash
                · rw [if_pos escape, if_pos escape]
                  cases rest with
                  | nil =>
                      rw [tail.peek_nil]
                      exact ⟨_, rfl, .inl rfl, fun _ _ => rfl⟩
                  | cons next rest =>
                      rw [tail.peek_cons, ok_bind, if_neg tail.ne_zero]
                      exact escaped rfl rfl
                · rw [if_neg escape, if_neg escape]
                  by_cases separates : isspace ch = true
                  · rw [if_pos separates, if_pos separates]
                    exact ⟨line, src + 1, rfl, tail, trivial, .inl behind, fun _ _ => rfl,
                      List.not_mem_nil⟩
                  · rw [if_neg separates, if_neg separates]
                    exact written rfl
          | some opened =>
              obtain ⟨rfl, closed⟩ := holds
              rw [if_pos closed]
              dsimp only
              by_cases closes : ch = quote
              · rw [if_pos closes, if_pos closes]
                exact inductionHypothesis tail (Nat.le_succ_of_le lag) fewer rfl
              · rw [if_neg closes, if_neg closes]
                by_cases escape : ch = backslash
                · rw [if_pos escape, if_pos escape]
                  cases rest with
                  | nil =>
                      rw [tail.peek_nil]
                      exact ⟨_, rfl, .inl rfl, fun _ _ => rfl⟩
                  | cons next rest =>
                      rw [tail.peek_cons, ok_bind, if_neg tail.ne_zero]
                      exact escaped rfl ⟨rfl, closed⟩
                · rw [if_neg escape, if_neg escape]
                  exact written ⟨rfl, closed⟩

end Words

section Arguments

variable {strlen rounds src pos : Nat} {line line' : Memory} {text rest : List UInt8}

/-- A string of C. -/
structure IsString (line : Memory) (pos : Nat) (text : List UInt8) : Prop where
  reads : Reads line pos text
  terminated : line (pos + text.length) = 0
  clean : 0 ∉ text

theorem skipLoop_spec (unread : Unread strlen line src rest) (enough : rest.length < rounds) :
    ∃ src', skipLoop strlen line rounds src = .ok src' ∧ src ≤ src' ∧
      Unread strlen line src' (rest.dropWhile isspace) := by
  induction rounds generalizing src rest with
  | zero => exact absurd enough (Nat.not_lt_zero _)
  | succ rounds inductionHypothesis =>
      unfold skipLoop
      cases rest with
      | nil =>
          rw [unread.peek_nil, ok_bind, if_neg (by decide)]
          exact ⟨src, rfl, Nat.le_refl _, unread⟩
      | cons ch rest =>
          rw [unread.peek_cons, ok_bind]
          by_cases blank : isspace ch = true
          · rw [if_pos blank, List.dropWhile_cons_of_pos blank]
            obtain ⟨src', returned, above, unread'⟩ :=
              inductionHypothesis unread.tail (Nat.lt_of_succ_lt_succ enough)
            exact ⟨src', returned, Nat.le_of_succ_le above, unread'⟩
          · rw [if_neg blank, List.dropWhile_cons_of_neg blank]
            exact ⟨src, rfl, Nat.le_refl _, unread⟩

/-- The result code and the strings of the arguments are those of the tokenizer. -/
def Agrees (line : Memory) (code : ParseResult) (argv : List Nat) :
    Except ParseResult (List (List UInt8)) → Prop
  | .ok texts => code = .ok ∧ List.Forall₂ (IsString line) argv texts
  | .error e => code = e ∧ e ≠ .ok

/-- The terminator of an argument leaves the rest of the line as it is. -/
theorem WordRead.terminate {dst src' : Nat} {left : List UInt8}
    (read : WordRead strlen line dst line' src' text left) :
    Unread strlen (Function.update line' (dst + text.length) 0) src' left := by
  rcases read.lag with less | ⟨same, rfl⟩
  · exact read.unread.update less 0
  · have last : src' = strlen := read.unread.ends
    refine ⟨trivial, read.unread.ends, ?_, List.not_mem_nil⟩
    rw [same, last, Function.update_self]

theorem WordRead.dst_le {dst src' : Nat} {left : List UInt8}
    (read : WordRead strlen line dst line' src' text left) : dst + text.length ≤ src' :=
  read.lag.elim Nat.le_of_lt fun same => Nat.le_of_eq same.1

/-- What the outer loop does to a line whose rest is unread. -/
structure Splits (strlen : Nat) (line : Memory) (src : Nat) (rest : List UInt8) (argv : List Nat)
    (expected : Except ParseResult (List (List UInt8))) (parsed : Parsed) : Prop where
  agrees : ∃ later, parsed.argv = argv ++ later ∧
    Agrees parsed.line parsed.result later expected
  frame : Frame strlen line src parsed.line
  unchanged : rest = [] → parsed.line = line

theorem tokenize_blank {room : Nat} (blank : rest.dropWhile isspace = []) :
    tokenize room rest = .ok [] := by
  unfold tokenize
  rw [blank]

theorem tokenize_zero {ch : UInt8} {tail : List UInt8}
    (stripped : rest.dropWhile isspace = ch :: tail) : tokenize 0 rest = .error .tooManyArgs := by
  unfold tokenize
  rw [stripped]

theorem tokenize_succ {room : Nat} {ch : UInt8} {tail : List UInt8}
    (stripped : rest.dropWhile isspace = ch :: tail) : tokenize (room + 1) rest = (do
      let parts ← word none (ch :: tail)
      let texts ← tokenize room parts.2
      .ok (parts.1 :: texts)) := by
  rw [tokenize.eq_def (room + 1) rest]
  dsimp only
  rw [stripped]

theorem argvLoop_blank {maxArgv : Nat} {argv : List Nat} (unread : Unread strlen line src rest)
    (blank : rest.dropWhile isspace = []) : ∃ parsed,
      argvLoop strlen maxArgv (rounds + 1) line src argv = .ok parsed ∧
        Splits strlen line src rest argv (.ok []) parsed := by
  have length := unread.ends
  obtain ⟨src', skipped, -, unread'⟩ :=
    skipLoop_spec unread (by omega : rest.length < strlen + 1)
  rw [blank] at unread'
  refine ⟨⟨.ok, line, argv⟩, ?_, ⟨[], (List.append_nil _).symm, rfl, .nil⟩, fun _ _ => rfl,
    fun _ => rfl⟩
  rw [argvLoop, skipped, ok_bind, unread'.peek_nil, ok_bind, if_pos rfl]

theorem argvLoop_spec {room maxArgv : Nat} {argv : List Nat} (unread : Unread strlen line src rest)
    (left : argv.length + room = maxArgv) : ∃ parsed,
      argvLoop strlen maxArgv (room + 1) line src argv = .ok parsed ∧
        Splits strlen line src rest argv (tokenize room rest) parsed := by
  induction room generalizing line src rest argv with
  | zero =>
      cases stripped : rest.dropWhile isspace with
      | nil =>
          rw [tokenize_blank stripped]
          exact argvLoop_blank unread stripped
      | cons ch tail =>
          have length := unread.ends
          obtain ⟨src', skipped, -, unread'⟩ :=
            skipLoop_spec unread (by omega : rest.length < strlen + 1)
          rw [stripped] at unread'
          rw [tokenize_zero stripped]
          refine ⟨⟨.tooManyArgs, line, argv⟩, ?_, ⟨[], (List.append_nil _).symm, rfl,
            ParseResult.noConfusion⟩, fun _ _ => rfl, fun _ => rfl⟩
          rw [argvLoop, skipped, ok_bind, unread'.peek_cons, ok_bind, if_neg unread'.ne_zero,
            if_pos (by omega : argv.length ≥ maxArgv)]
  | succ room inductionHypothesis =>
      cases stripped : rest.dropWhile isspace with
      | nil =>
          rw [tokenize_blank stripped]
          exact argvLoop_blank unread stripped
      | cons ch tail =>
          have length := unread.ends
          obtain ⟨src', skipped, later, unread'⟩ :=
            skipLoop_spec unread (by omega : rest.length < strlen + 1)
          rw [stripped] at unread'
          have nonempty : rest ≠ [] := by
            rintro rfl
            cases stripped
          have length' := unread'.ends
          have follows := @wordLoop_follows strlen (strlen + 1) src' src' line (ch :: tail) 0 none
            unread' (Nat.le_refl _) (by omega) rfl
          rw [tokenize_succ stripped, argvLoop, skipped, ok_bind, unread'.peek_cons, ok_bind,
            if_neg unread'.ne_zero, if_neg (by omega)]
          dsimp only
          cases found : word none (ch :: tail) with
          | error e =>
              rw [found] at follows
              obtain ⟨cursor, returned, reason, frame⟩ := follows
              rw [returned, ok_bind]
              dsimp only
              have kept : Frame strlen line src cursor.line := fun i outside =>
                frame i (by omega)
              rcases reason with rfl | ⟨rfl, opened⟩
              · rw [if_pos (by decide)]
                exact ⟨_, rfl, ⟨[src'], rfl, rfl, ParseResult.noConfusion⟩, kept,
                  fun empty => absurd empty nonempty⟩
              · rw [if_neg (by decide), if_pos opened]
                exact ⟨_, rfl, ⟨[src'], rfl, rfl, ParseResult.noConfusion⟩, kept,
                  fun empty => absurd empty nonempty⟩
          | ok parts =>
              obtain ⟨text, left⟩ := parts
              rw [found] at follows
              obtain ⟨line', next, returned, read⟩ := follows
              have reached := read.dst_le
              have next_le := read.unread.src_le
              rw [returned, ok_bind]
              dsimp only
              rw [if_neg Bool.false_ne_true, if_neg (not_not_intro rfl), poke, if_pos (by omega),
                ok_bind, ok_bind]
              obtain ⟨parsed, returned', ⟨later, argv', agrees⟩, frame, unchanged⟩ :=
                @inductionHypothesis next (Function.update line' (src' + text.length) 0) left
                  (argv ++ [src']) read.terminate
                  (by rw [List.length_append, List.length_singleton]; omega)
              -- nothing before the next unread byte is touched again
              have kept : ∀ i, i < next ∨ strlen ≤ i →
                  parsed.line i = Function.update line' (src' + text.length) 0 i := frame
              refine ⟨parsed, returned', ⟨src' :: later, ?_, ?_⟩, ?_,
                fun empty => absurd empty nonempty⟩
              · rw [argv', List.append_assoc]
                rfl
              · dsimp only
                cases others : tokenize room left with
                | error e =>
                    rw [others] at agrees
                    exact agrees
                | ok texts =>
                    rw [others] at agrees
                    refine ⟨agrees.1, .cons ⟨?_, ?_, read.clean⟩ agrees.2⟩
                    · refine read.reads.congr fun i above below => ?_
                      rw [kept i (.inl (by omega)), Function.update_of_ne (by omega)]
                    · rcases read.lag with less | ⟨same, rfl⟩
                      · rw [kept _ (.inl less), Function.update_self]
                      · rw [unchanged rfl, Function.update_self]
              · intro i outside
                rw [kept i (by omega)]
                by_cases last : i = src' + text.length
                · have ended : i = strlen := by omega
                  rw [← last, Function.update_self, ended, unread.terminated]
                · rw [Function.update_of_ne last]
                  exact read.frame i (by omega)

/-- The line was split as the tokenizer splits its text, and nothing behind it was written. -/
def ParsesAs (maxArgv : Nat) (text : List UInt8) (line : Memory) (run : Run Parsed) : Prop :=
  ∃ parsed, run = .ok parsed ∧
    Agrees parsed.line parsed.result parsed.argv (tokenize maxArgv text) ∧
    ∀ i > text.length, parsed.line i = line i

/-- For every line the two parsers return the result code of the tokenizer, and its arguments
where that is OK; they read and write only bytes of the line. -/
theorem parseArgv_tokenizes (text : List UInt8) (line : Memory) (given : IsString line 0 text) :
    (∀ maxArgv, ParsesAs maxArgv text line (parseArgv text.length maxArgv line)) ∧
      ParsesAs shellMaxArgv text line (shellParseArgv text.length line) := by
  have every (maxArgv : Nat) :
      ParsesAs maxArgv text line (parseArgv text.length maxArgv line) := by
    have unread : Unread text.length line 0 text :=
      ⟨given.reads, Nat.zero_add _, Nat.zero_add text.length ▸ given.terminated, given.clean⟩
    obtain ⟨parsed, returned, ⟨argv, same, agrees⟩, frame, -⟩ :=
      @argvLoop_spec text.length 0 line text maxArgv maxArgv [] unread (Nat.zero_add _)
    rw [List.nil_append] at same
    subst same
    exact ⟨parsed, returned, agrees, fun i beyond => frame i (.inr (Nat.le_of_lt beyond))⟩
  exact ⟨every, every shellMaxArgv⟩

/-- `a "b c"`. -/
def quotedText : List UInt8 := [97, 32, 34, 98, 32, 99, 34]

def quotedLine : Memory := fun i => quotedText.getD i 0

theorem parseArgv_tokenizes_quoted :
    (∀ maxArgv, ParsesAs maxArgv quotedText quotedLine
      (parseArgv quotedText.length maxArgv quotedLine)) ∧
    ParsesAs shellMaxArgv quotedText quotedLine (shellParseArgv quotedText.length quotedLine) := by
  refine parseArgv_tokenizes quotedText quotedLine ⟨?_, rfl, by decide⟩
  exact ⟨rfl, rfl, rfl, rfl, rfl, rfl, rfl, trivial⟩

example : tokenize shellMaxArgv quotedText = .ok [[97], [98, 32, 99]] := by rfl

end Arguments

end Opal.Argv
