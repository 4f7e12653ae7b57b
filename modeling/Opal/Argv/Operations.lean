import Opal.Library.Bytes
import Opal.Library.Outcome

/-!
# Splitting a line into arguments in place

The line is at the offsets up to that of its terminator, and every byte that is read or written
is checked to be one of them.  The arguments are the offsets at which their strings start, in the
bytes that the parser leaves behind.  A loop makes as many rounds as it is given and is endless
otherwise.
-/

namespace Opal.Argv

section Parser

/-- `enum shell_parse_result`, `enum parse_argv_result`. -/
inductive ParseResult where
  | ok
  | tooManyArgs
  | unterminatedQuote
  | trailingEscape
  deriving DecidableEq, Repr

inductive Stop where
  /-- A byte outside the line is read or written. -/
  | stray
  /-- A loop is left with no rounds. -/
  | endless
  deriving DecidableEq, Repr

abbrev Run := Except Stop

def isspace (ch : UInt8) : Bool :=
  ch = 32 ∨ ch = 9 ∨ ch = 10 ∨ ch = 13 ∨ ch = 12 ∨ ch = 11

/-- `'\''`. -/
def singleQuote : UInt8 := 39

/-- `'"'`. -/
def doubleQuote : UInt8 := 34

def backslash : UInt8 := 92

/-- Where the inner loop stands. -/
structure Cursor where
  line : Memory
  src : Nat
  dst : Nat
  quote : UInt8

variable (strlen : Nat)

/-- A byte of the line. -/
def peek (line : Memory) (pos : Nat) : Run UInt8 :=
  if pos ≤ strlen then .ok (line pos) else .error .stray

def poke (line : Memory) (pos : Nat) (ch : UInt8) : Run Memory :=
  if pos ≤ strlen then .ok (Function.update line pos ch) else .error .stray

/-- `*dst++ = ch`. -/
def Cursor.put (cursor : Cursor) (ch : UInt8) : Run Cursor := do
  let line ← poke strlen cursor.line cursor.dst ch
  .ok { cursor with line := line, dst := cursor.dst + 1 }

/-- `while (isspace(*src)) src++`. -/
def skipLoop (line : Memory) : Nat → Nat → Run Nat
  | 0, _ => .error .endless
  | rounds + 1, src => do
      let ch ← peek strlen line src
      if isspace ch then skipLoop line rounds (src + 1) else .ok src

/-- The inner loop, up to the end of the argument, and whether it ends in an escape. -/
def wordLoop : Nat → Cursor → Run (Bool × Cursor)
  | 0, _ => .error .endless
  | rounds + 1, cursor => do
      let ch ← peek strlen cursor.line cursor.src
      if ch = 0 then .ok (false, cursor)
      else
        let cursor := { cursor with src := cursor.src + 1 }
        if cursor.quote ≠ 0 then
          if ch = cursor.quote then wordLoop rounds { cursor with quote := 0 }
          else if ch = backslash then do
            let next ← peek strlen cursor.line cursor.src
            if next = 0 then .ok (true, cursor)
            else do
              let cursor ← { cursor with src := cursor.src + 1 }.put strlen next
              wordLoop rounds cursor
          else do
            let cursor ← cursor.put strlen ch
            wordLoop rounds cursor
        else if ch = singleQuote ∨ ch = doubleQuote then wordLoop rounds { cursor with quote := ch }
        else if ch = backslash then do
          let next ← peek strlen cursor.line cursor.src
          if next = 0 then .ok (true, cursor)
          else do
            let cursor ← { cursor with src := cursor.src + 1 }.put strlen next
            wordLoop rounds cursor
        else if isspace ch then .ok (false, cursor)
        else do
          let cursor ← cursor.put strlen ch
          wordLoop rounds cursor

/-- What is returned: the result code, the bytes of the line and `argv` up to `argc`. -/
structure Parsed where
  result : ParseResult
  line : Memory
  argv : List Nat

/-- The outer loop. -/
def argvLoop (maxArgv : Nat) : Nat → Memory → Nat → List Nat → Run Parsed
  | 0, _, _, _ => .error .endless
  | rounds + 1, line, src, argv => do
      let src ← skipLoop strlen line (strlen + 1) src
      let ch ← peek strlen line src
      if ch = 0 then .ok ⟨.ok, line, argv⟩
      else if argv.length ≥ maxArgv then .ok ⟨.tooManyArgs, line, argv⟩
      else do
        let argv := argv ++ [src]
        let (escape, cursor) ← wordLoop strlen (strlen + 1) ⟨line, src, src, 0⟩
        if escape then .ok ⟨.trailingEscape, cursor.line, argv⟩
        else if cursor.quote ≠ 0 then .ok ⟨.unterminatedQuote, cursor.line, argv⟩
        else do
          let line ← poke strlen cursor.line cursor.dst 0
          argvLoop maxArgv rounds line cursor.src argv

/-- `parse_argv` of `opsh`. -/
def parseArgv (maxArgv : Nat) (line : Memory) : Run Parsed :=
  argvLoop strlen maxArgv (maxArgv + 1) line 0 []

/-- `SHELL_MAX_ARGV`. -/
def shellMaxArgv : Nat := 16

/-- `parse_argv` of the kernel shell. -/
def shellParseArgv (line : Memory) : Run Parsed := parseArgv strlen shellMaxArgv line

end Parser

section Tokenizer

/-- A byte more at the start of an argument. -/
def withByte (ch : UInt8) (parts : List UInt8 × List UInt8) : List UInt8 × List UInt8 :=
  (ch :: parts.1, parts.2)

/-- The text of the argument at the start of a text, and what comes after it.  The quote is the
one that is open. -/
def word : Option UInt8 → List UInt8 → Except ParseResult (List UInt8 × List UInt8)
  | some _, [] => .error .unterminatedQuote
  | none, [] => .ok ([], [])
  | some quote, ch :: rest =>
      if ch = quote then word none rest
      else if ch = backslash then
        match rest with
        | [] => .error .trailingEscape
        | next :: rest => (word (some quote) rest).map (withByte next)
      else (word (some quote) rest).map (withByte ch)
  | none, ch :: rest =>
      if ch = singleQuote ∨ ch = doubleQuote then word (some ch) rest
      else if ch = backslash then
        match rest with
        | [] => .error .trailingEscape
        | next :: rest => (word none rest).map (withByte next)
      else if isspace ch then .ok ([], rest)
      else (word none rest).map (withByte ch)

/-- The arguments of a text, at most as many as there is room for. -/
def tokenize : Nat → List UInt8 → Except ParseResult (List (List UInt8))
  | room, text =>
      match text.dropWhile isspace, room with
      | [], _ => .ok []
      | _ :: _, 0 => .error .tooManyArgs
      | ch :: rest, room + 1 => do
          let (text, rest) ← word none (ch :: rest)
          let texts ← tokenize room rest
          .ok (text :: texts)

end Tokenizer

end Opal.Argv
