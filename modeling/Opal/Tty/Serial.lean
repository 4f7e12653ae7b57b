import Mathlib.Data.Stream.Defs
import Mathlib.Order.Basic
import Mathlib.Data.Nat.Basic

/-!
# Newlines on the serial line

`write_char_tty` sends a line feed as a carriage return and a line feed, and the uart may take
the first of them only.  The flag for the second one is part of the state, so that what the
uart took can be compared with the text at every point.
-/

namespace Opal.Tty

section Uart

abbrev Byte := UInt8

/-- `'\n'`. -/
def lf : Byte := 10

/-- `'\r'`. -/
def cr : Byte := 13

/-- The bytes that the uart took so far, and how many it can take in the coming calls. -/
structure Uart where
  sent : List Byte
  room : Stream' Nat

def uartTryWrite (uart : Uart) (buf : List Byte) : Nat × Uart :=
  let taken := min uart.room.head buf.length
  (taken, { sent := uart.sent ++ buf.take taken, room := uart.room.tail })

/-- The uart and `g_pending_lf`. -/
structure Serial where
  uart : Uart
  pendingLf : Bool

/-- The loop of `write_char_tty`: how much of the text it consumes. -/
def writeLoop : List Byte → Serial → Nat × Serial
  | [], serial => (0, serial)
  | ch :: rest, serial =>
      if ch ≠ lf then
        let (taken, uart) := uartTryWrite serial.uart [ch]
        if taken ≠ 1 then (0, { serial with uart })
        else
          let (consumed, serial) := writeLoop rest { serial with uart }
          (consumed + 1, serial)
      else
        let (crlf, uart) := uartTryWrite serial.uart [cr, lf]
        if crlf = 0 then (0, { serial with uart })
        else if crlf = 1 then (1, { uart, pendingLf := true })
        else
          let (consumed, serial) := writeLoop rest { serial with uart }
          (consumed + 1, serial)

/-- `write_char_tty`; `available` is the answer of `uart_is_available`. -/
def writeCharTty (available : Bool) (buf : List Byte) (serial : Serial) : Nat × Serial :=
  if ¬available then (0, serial)
  else if serial.pendingLf then
    let (taken, uart) := uartTryWrite serial.uart [lf]
    if taken ≠ 1 then (0, { serial with uart })
    else writeLoop buf { uart, pendingLf := false }
  else writeLoop buf serial

end Uart

section Translation

/-- The text as the terminal behind the line has to get it. -/
def translate (text : List Byte) : List Byte :=
  text.flatMap fun ch => if ch = lf then [cr, lf] else [ch]

theorem translate_append (front back : List Byte) :
    translate (front ++ back) = translate front ++ translate back :=
  List.flatMap_append

theorem translate_take_succ (ch : Byte) (rest : List Byte) (count : Nat) :
    translate ((ch :: rest).take (count + 1)) =
      (if ch = lf then [cr, lf] else [ch]) ++ translate (rest.take count) :=
  List.flatMap_cons

namespace Serial

/-- The line feed that is still to be sent. -/
def pending (serial : Serial) : List Byte := if serial.pendingLf then [lf] else []

/-- What the uart took, and the line feed that it still has to take. -/
def output (serial : Serial) : List Byte := serial.uart.sent ++ serial.pending

end Serial

/-- The uart takes a front part of what it is given. -/
theorem uartTryWrite_cases (uart : Uart) (buf : List Byte) :
    ∃ taken ≤ buf.length, (uartTryWrite uart buf).1 = taken ∧
      (uartTryWrite uart buf).2.sent = uart.sent ++ buf.take taken :=
  ⟨_, min_le_right _ _, rfl, rfl⟩

theorem Serial.output_clear (uart : Uart) {pendingLf : Bool} (clear : pendingLf = false) :
    Serial.output { uart, pendingLf } = uart.sent := by
  subst clear
  exact List.append_nil _

variable {buf : List Byte} {serial : Serial}

/-- The loop sends the translation of what it consumes. -/
theorem writeLoop_output (clear : serial.pendingLf = false) :
    (writeLoop buf serial).1 ≤ buf.length ∧
      (writeLoop buf serial).2.output =
        serial.uart.sent ++ translate (buf.take (writeLoop buf serial).1) := by
  induction buf generalizing serial with
  | nil => exact ⟨Nat.le_refl _, Serial.output_clear _ clear ▸ (List.append_nil _).symm⟩
  | cons ch rest inductionHypothesis =>
      rw [writeLoop]
      by_cases newline : ch = lf
      · rw [if_neg (not_not.mpr newline)]
        obtain ⟨taken, bound, counted, sent⟩ := uartTryWrite_cases serial.uart [cr, lf]
        dsimp only
        rw [counted]
        split
        · rename_i none
          subst none
          refine ⟨Nat.zero_le _, (Serial.output_clear _ clear).trans ?_⟩
          rw [sent]
          rfl
        · split
          · -- the carriage return went out, the line feed is pending
            rename_i one
            subst one
            refine ⟨Nat.succ_le_succ (Nat.zero_le _), ?_⟩
            rw [newline, Serial.output, sent, List.append_assoc]
            rfl
          · rename_i some all
            obtain rfl : taken = 2 := by
              have bound : taken ≤ 2 := bound
              omega
            obtain ⟨inside, same⟩ := @inductionHypothesis
              { serial with uart := (uartTryWrite serial.uart [cr, lf]).2 } clear
            refine ⟨Nat.succ_le_succ inside, same.trans ?_⟩
            dsimp only
            rw [sent, translate_take_succ, if_pos newline, List.append_assoc]
            rfl
      · rw [if_pos newline]
        obtain ⟨taken, bound, counted, sent⟩ := uartTryWrite_cases serial.uart [ch]
        dsimp only
        rw [counted]
        split
        · rename_i refused
          obtain rfl : taken = 0 := by
            have bound : taken ≤ 1 := bound
            omega
          refine ⟨Nat.zero_le _, (Serial.output_clear _ clear).trans ?_⟩
          rw [sent]
          rfl
        · rename_i accepted
          obtain rfl : taken = 1 := not_not.mp accepted
          obtain ⟨inside, same⟩ := @inductionHypothesis
            { serial with uart := (uartTryWrite serial.uart [ch]).2 } clear
          refine ⟨Nat.succ_le_succ inside, same.trans ?_⟩
          dsimp only
          rw [sent, translate_take_succ, if_neg newline, List.append_assoc]
          rfl

theorem writeCharTty_output (available : Bool) (buf : List Byte) (serial : Serial) :
    (writeCharTty available buf serial).1 ≤ buf.length ∧
      (writeCharTty available buf serial).2.output =
        serial.output ++ translate (buf.take (writeCharTty available buf serial).1) := by
  unfold writeCharTty
  split
  · exact ⟨Nat.zero_le _, (List.append_nil _).symm⟩
  · split
    · rename_i pending
      obtain ⟨taken, bound, counted, sent⟩ := uartTryWrite_cases serial.uart [lf]
      have before : serial.output = serial.uart.sent ++ [lf] := by
        rw [Serial.output, Serial.pending, if_pos pending]
      dsimp only
      rw [counted]
      split
      · rename_i refused
        obtain rfl : taken = 0 := by
          have bound : taken ≤ 1 := bound
          omega
        refine ⟨Nat.zero_le _, ?_⟩
        rw [before, Serial.output, sent, Serial.pending, if_pos pending, List.take_zero,
          List.append_nil]
        exact (List.append_nil _).symm
      · rename_i accepted
        obtain rfl : taken = 1 := not_not.mp accepted
        -- the pending line feed is now among the bytes that were sent
        have moved : serial.uart.sent ++ [lf] = (uartTryWrite serial.uart [lf]).2.sent := sent.symm
        rw [before, moved]
        exact writeLoop_output rfl
    · rename_i clear
      have clear : serial.pendingLf = false := Bool.eq_false_iff.mpr clear
      rw [Serial.output_clear serial.uart clear]
      exact writeLoop_output clear

end Translation

section Sessions

/-- Text comes in, or `write_char_tty` is called with the first `len` bytes of the text that
it did not consume yet. -/
inductive Call where
  | submit (text : List Byte)
  | write (available : Bool) (len : Nat)

/-- A line in use: the text that was consumed, and the text that was not. -/
structure Session where
  serial : Serial
  consumed : List Byte
  remainder : List Byte

namespace Session

def step (session : Session) : Call → Session
  | .submit text => { session with remainder := session.remainder ++ text }
  | .write available len =>
      let (consumed, serial) :=
        writeCharTty available (session.remainder.take len) session.serial
      { serial
        consumed := session.consumed ++ session.remainder.take consumed
        remainder := session.remainder.drop consumed }

def run (session : Session) (calls : List Call) : Session := calls.foldl step session

/-- The line before any text. -/
def start (room : Stream' Nat) : Session where
  serial := { uart := { sent := [], room }, pendingLf := false }
  consumed := []
  remainder := []

end Session

/-- The text that the calls bring in. -/
def submitted (calls : List Call) : List Byte :=
  calls.flatMap fun
    | .submit text => text
    | .write _ _ => []

namespace Session

/-- The output is the translation of what was consumed. -/
def Faithful (session : Session) : Prop := session.serial.output = translate session.consumed

variable {session : Session}

theorem Faithful.step (faithful : session.Faithful) (call : Call) :
    (session.step call).Faithful := by
  cases call with
  | submit text => exact faithful
  | write available len =>
      obtain ⟨inside, output⟩ :=
        writeCharTty_output available (session.remainder.take len) session.serial
      rw [List.length_take] at inside
      unfold Faithful Session.step
      dsimp only
      rw [List.take_take, Nat.min_eq_left (inside.trans (Nat.min_le_left _ _))] at output
      rw [output, faithful, translate_append]

theorem step_text (session : Session) (call : Call) :
    (session.step call).consumed ++ (session.step call).remainder =
      session.consumed ++ session.remainder ++ submitted [call] := by
  cases call with
  | submit text =>
      have only : submitted [.submit text] = text := List.append_nil _
      rw [only, List.append_assoc]
      rfl
  | write available len =>
      have none : submitted [.write available len] = [] := rfl
      rw [none, List.append_nil]
      unfold Session.step
      dsimp only
      rw [List.append_assoc, List.take_append_drop]

theorem run_faithful (faithful : session.Faithful) (calls : List Call) :
    (session.run calls).Faithful ∧
      (session.run calls).consumed ++ (session.run calls).remainder =
        session.consumed ++ session.remainder ++ submitted calls := by
  induction calls generalizing session with
  | nil => exact ⟨faithful, (List.append_nil _).symm⟩
  | cons call rest inductionHypothesis =>
      obtain ⟨output, text⟩ := inductionHypothesis (faithful.step call)
      refine ⟨output, ?_⟩
      calc
        (session.run (call :: rest)).consumed ++ (session.run (call :: rest)).remainder =
            (session.step call).consumed ++ (session.step call).remainder ++ submitted rest := text
        _ = session.consumed ++ session.remainder ++ (submitted [call] ++ submitted rest) := by
          rw [step_text, List.append_assoc]
        _ = session.consumed ++ session.remainder ++ submitted (call :: rest) := by
          rw [submitted, submitted, submitted, ← List.flatMap_append]
          rfl

end Session

/-- Whatever the uart takes in each call, the bytes it took and the pending line feed are the
translation of the text consumed, and the rest of the text is still there. -/
theorem run_translates (room : Stream' Nat) (calls : List Call) :
    ((Session.start room).run calls).serial.uart.sent ++
        ((Session.start room).run calls).serial.pending =
      translate ((Session.start room).run calls).consumed ∧
    ((Session.start room).run calls).consumed ++ ((Session.start room).run calls).remainder =
      submitted calls :=
  Session.run_faithful (show (Session.start room).Faithful from rfl) calls

end Sessions

section Buffer

/-- `TTY_BUFFER_SIZE`. -/
def ttyBufferSize : Nat := 512

/-- `struct tty_buffered` of the serial line. -/
structure TtyBuffered where
  serial : Serial
  buffer : List Byte

def ttyFlush (available : Bool) (tty : TtyBuffered) : TtyBuffered :=
  if tty.buffer.length = 0 then tty
  else
    let (written, serial) := writeCharTty available tty.buffer tty.serial
    if written ≥ tty.buffer.length then { serial, buffer := [] }
    else { serial, buffer := tty.buffer.drop written }

/-- `tty_write`; a byte for which there is no room is dropped. -/
def ttyWrite (available : Bool) (tty : TtyBuffered) (ch : Byte) : TtyBuffered :=
  let tty := if tty.buffer.length ≥ ttyBufferSize then ttyFlush available tty else tty
  if tty.buffer.length ≥ ttyBufferSize then tty
  else { tty with buffer := tty.buffer ++ [ch] }

/-- The line and the buffer of a session. -/
def Session.tty (session : Session) : TtyBuffered where
  serial := session.serial
  buffer := session.remainder

variable {available : Bool}

theorem ttyFlush_eq {tty : TtyBuffered} (nonempty : tty.buffer.length ≠ 0) :
    ttyFlush available tty =
      { serial := (writeCharTty available tty.buffer tty.serial).2
        buffer := tty.buffer.drop (writeCharTty available tty.buffer tty.serial).1 } := by
  rw [ttyFlush, if_neg nonempty]
  by_cases all : (writeCharTty available tty.buffer tty.serial).1 ≥ tty.buffer.length
  · rw [List.drop_eq_nil_of_le all]
    exact if_pos all
  · exact if_neg all

/-- `tty_flush` calls with all that was not consumed. -/
theorem ttyFlush_session (session : Session) :
    ∃ calls, ttyFlush available session.tty = (session.run calls).tty ∧ submitted calls = [] := by
  by_cases empty : session.tty.buffer.length = 0
  · exact ⟨[], if_pos empty, rfl⟩
  · refine ⟨[.write available session.remainder.length], (ttyFlush_eq empty).trans ?_, rfl⟩
    unfold Session.tty Session.run List.foldl Session.step List.foldl
    dsimp only
    rw [List.take_length]

/-- The buffer never holds more than it has room for, and what happens to it is a session. -/
theorem ttyWrite_session (session : Session) (ch : Byte) :
    ∃ calls, ttyWrite available session.tty ch = (session.run calls).tty ∧
      (submitted calls = [ch] ∨ submitted calls = []) := by
  obtain ⟨flushed, same, silent⟩ :
      ∃ calls, (if session.tty.buffer.length ≥ ttyBufferSize then ttyFlush available session.tty
        else session.tty) = (session.run calls).tty ∧ submitted calls = [] := by
    split
    · exact ttyFlush_session session
    · exact ⟨[], rfl, rfl⟩
  unfold ttyWrite
  rw [same]
  dsimp only
  split
  · exact ⟨flushed, rfl, .inr silent⟩
  · refine ⟨flushed ++ [.submit [ch]], ?_, .inl ?_⟩
    · unfold Session.run
      rw [List.foldl_append]
      rfl
    · rw [submitted, List.flatMap_append, ← submitted, silent]
      rfl

end Buffer

end Opal.Tty
