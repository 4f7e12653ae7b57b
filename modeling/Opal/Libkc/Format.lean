import Mathlib.Data.Nat.Digits.Defs
import Opal.Library.Outcome
import Opal.Libkc.Writer

/-!
# The formatter

`fmt_vsprintf` reads a format one directive at a time.  Widths, precisions and lengths are
`int`s: an operation that leaves their range stops the run, as does an argument that is
missing or has another type.  A string ends at its first NUL.
-/

namespace Opal.Libkc

section Data

/-- The ways in which a call has no defined result. -/
inductive Stop where
  | overflow
  | argument
  | endless
  deriving DecidableEq, Repr

/-- An argument as it was passed: an `int`, a 64-bit integer, a `void *`, or a `char *`. -/
inductive Arg where
  | int (value : BitVec 32)
  | long (value : BitVec 64)
  | pointer (value : BitVec 64)
  | string (value : Option (List Char))
  deriving DecidableEq, Repr

inductive LengthModifier where
  | none
  | hh
  | h
  | l
  | ll
  | j
  | z
  | t
  | capL
  deriving DecidableEq, Repr

structure PrintfFlags where
  leftAdj : Bool
  plus : Bool
  space : Bool
  alt : Bool
  zeroPad : Bool
  width : Int
  precision : Int
  deriving DecidableEq, Repr

def PrintfFlags.initial : PrintfFlags := ⟨false, false, false, false, false, 0, -1⟩

/-- The result of an operation on `int`s. -/
def int (value : Int) : Except Stop Int :=
  if -2 ^ 31 ≤ value ∧ value < 2 ^ 31 then .ok value else .error .overflow

/-- By how much a length goes beyond another. -/
def excess (length other : Int) : Except Stop Int :=
  if length > other then int (length - other) else .ok 0

/-- The conversion of a value to `int`. -/
def toInt (value : Nat) : Int := (BitVec.ofNat 32 value).toInt

/-- `*cursor`. -/
def peek : List Char → Char
  | [] => nul
  | ch :: _ => ch

def isDigit (ch : Char) : Bool := decide ('0' ≤ ch) && decide (ch ≤ '9')

def strlen (s : List Char) : Nat := (s.takeWhile (· ≠ nul)).length

def strnlenS (s : List Char) (size : Nat) : Nat := ((s.take size).takeWhile (· ≠ nul)).length

end Data

section Arguments

def vaInt : List Arg → Except Stop (BitVec 32 × List Arg)
  | .int value :: rest => .ok (value, rest)
  | _ => .error .argument

def vaLong : List Arg → Except Stop (BitVec 64 × List Arg)
  | .long value :: rest => .ok (value, rest)
  | _ => .error .argument

def vaPointer : List Arg → Except Stop (BitVec 64 × List Arg)
  | .pointer value :: rest => .ok (value, rest)
  | _ => .error .argument

def vaString : List Arg → Except Stop (Option (List Char) × List Arg)
  | .string value :: rest => .ok (value, rest)
  | _ => .error .argument

def readSignedArg (args : List Arg) : LengthModifier → Except Stop (Int × List Arg)
  | .hh => do let (value, args) ← vaInt args; .ok ((value.setWidth 8).toInt, args)
  | .h => do let (value, args) ← vaInt args; .ok ((value.setWidth 16).toInt, args)
  | .l | .ll | .j | .z | .t => do let (value, args) ← vaLong args; .ok (value.toInt, args)
  | .none | .capL => do let (value, args) ← vaInt args; .ok (value.toInt, args)

def readUnsignedArg (args : List Arg) : LengthModifier → Except Stop (Nat × List Arg)
  | .hh => do let (value, args) ← vaInt args; .ok ((value.setWidth 8).toNat, args)
  | .h => do let (value, args) ← vaInt args; .ok ((value.setWidth 16).toNat, args)
  | .l | .ll | .j | .z | .t => do let (value, args) ← vaLong args; .ok (value.toNat, args)
  | .none | .capL => do let (value, args) ← vaInt args; .ok (value.toNat, args)

end Arguments

section Scan

/-- The flags at the cursor. -/
def readFlags (flags : PrintfFlags) : List Char → PrintfFlags × List Char
  | [] => (flags, [])
  | ch :: rest =>
      if ch = '-' then readFlags { flags with leftAdj := true } rest
      else if ch = '+' then readFlags { flags with plus := true } rest
      else if ch = ' ' then readFlags { flags with space := true } rest
      else if ch = '#' then readFlags { flags with alt := true } rest
      else if ch = '0' then readFlags { flags with zeroPad := true } rest
      else (flags, ch :: rest)

/-- The loop over the digits of a number; `none` where it has no room in an `int`. -/
def readDigits (value : Int) : List Char → Except Stop (Option Int × List Char)
  | [] => .ok (some value, [])
  | ch :: rest =>
      if isDigit ch then do
        let digit : Int := ch.toNat - '0'.toNat
        let limit ← int (intMax - digit)
        if limit / 10 < value then .ok (none, ch :: rest)
        else do
          let shifted ← int (value * 10)
          let value ← int (shifted + digit)
          readDigits value rest
      else .ok (some value, ch :: rest)

/-- The cursor stays where it is when the number does not fit. -/
def getWidthOrPrecision (cursor : List Char) (args : List Arg) :
    Except Stop (Option Int × List Char × List Arg) :=
  if peek cursor = '*' then do
    let (value, args) ← vaInt args
    .ok (some value.toInt, cursor.tail, args)
  else do
    let (value, after) ← readDigits 0 cursor
    match value with
    | none => .ok (none, cursor, args)
    | some value => .ok (some value, after, args)

def readWidth (flags : PrintfFlags) (cursor : List Char) (args : List Arg) :
    Except Stop (Option PrintfFlags × List Char × List Arg) :=
  if peek cursor = '*' ∨ isDigit (peek cursor) then do
    let (width, cursor, args) ← getWidthOrPrecision cursor args
    match width with
    | none => .ok (none, cursor, args)
    | some width =>
        if width < 0 then do
          let width ← int (-width)
          .ok (some { flags with leftAdj := true, width }, cursor, args)
        else .ok (some { flags with width }, cursor, args)
  else .ok (some flags, cursor, args)

def readPrecision (flags : PrintfFlags) (cursor : List Char) (args : List Arg) :
    Except Stop (Option PrintfFlags × List Char × List Arg) :=
  if peek cursor = '.' then do
    let (precision, cursor, args) ← getWidthOrPrecision cursor.tail args
    match precision with
    | none => .ok (none, cursor, args)
    | some precision =>
        let precision := if precision < 0 then -1 else precision
        .ok (some { flags with precision, zeroPad := false }, cursor, args)
  else .ok (some flags, cursor, args)

def readLength (cursor : List Char) : LengthModifier × List Char :=
  if peek cursor = 'h' then
    if peek cursor.tail = 'h' then (.hh, cursor.tail.tail) else (.h, cursor.tail)
  else if peek cursor = 'l' then
    if peek cursor.tail = 'l' then (.ll, cursor.tail.tail) else (.l, cursor.tail)
  else if peek cursor = 'j' then (.j, cursor.tail)
  else if peek cursor = 'z' then (.z, cursor.tail)
  else if peek cursor = 't' then (.t, cursor.tail)
  else if peek cursor = 'L' then (.capL, cursor.tail)
  else (.none, cursor)

/-- What one round of the loop of `fmt_vsprintf` finds at the cursor. -/
inductive Directive where
  | done
  | literal (ch : Char) (rest : List Char)
  /-- A number that does not fit; what follows it is read as text. -/
  | invalid (rest : List Char) (args : List Arg)
  | conversion (flags : PrintfFlags) (len : LengthModifier) (spec : Char) (rest : List Char)
      (args : List Arg)
  deriving DecidableEq, Repr

/-- The part of a round behind a single percent sign. -/
def readConversion (cursor : List Char) (args : List Arg) : Except Stop Directive := do
  let (flags, cursor) := readFlags .initial cursor
  let (flags, cursor, args) ← readWidth flags cursor args
  match flags with
  | none => .ok (.invalid cursor args)
  | some flags => do
      let (flags, cursor, args) ← readPrecision flags cursor args
      match flags with
      | none => .ok (.invalid cursor args)
      | some flags =>
          let (len, cursor) := readLength cursor
          -- an incomplete conversion ends the loop
          if peek cursor = nul then .ok .done
          else .ok (.conversion flags len (peek cursor) cursor.tail args)

def readDirective (cursor : List Char) (args : List Arg) : Except Stop Directive :=
  if peek cursor = nul then .ok .done
  else if peek cursor ≠ '%' then .ok (.literal (peek cursor) cursor.tail)
  else if peek cursor.tail = '%' then .ok (.literal '%' cursor.tail.tail)
  else readConversion cursor.tail args

end Scan

section Integers

/-- The digit characters of `utoa_rev`. -/
def digitChar (upper : Bool) (digit : Nat) : Char :=
  if digit < 10 then Char.ofNat ('0'.toNat + digit)
  else Char.ofNat ((if upper then 'A'.toNat else 'a'.toNat) + (digit - 10))

/-- The loop of `utoa_rev`; it ends within the 64 places of `out_rev`. -/
def utoaLoop (base : Nat) (upper : Bool) : Nat → Nat → List Char
  | 0, _ => []
  | places + 1, value =>
      if value = 0 then []
      else digitChar upper (value % base) :: utoaLoop base upper places (value / base)

def utoaRev (value base : Nat) (upper : Bool) : List Char :=
  if value = 0 then ['0'] else utoaLoop base upper 64 value

/-- The sign that is written, or nothing. -/
def signOf (negative : Bool) (flags : PrintfFlags) : List Char :=
  if negative then ['-'] else if flags.plus then ['+'] else if flags.space then [' '] else []

/-- The prefix that `#` gives a hexadecimal number. -/
def prefixOf (alt : Bool) (base mag : Nat) (spec : Char) : List Char :=
  if alt ∧ base = 16 ∧ mag ≠ 0 then ['0', if spec = 'X' then 'X' else 'x'] else []

/-- The digits in reverse and the precision, after `#` has put a zero in front of an octal
number. -/
def altDigits (alt : Bool) (base : Nat) (rev : List Char) (precision : Int) :
    Except Stop (List Char × Int) :=
  if alt ∧ base = 8 ∧ rev.getLast? ≠ some '0' then
    if rev.length = 0 then .ok (['0'], precision)
    else if precision ≤ rev.length then do
      let precision ← int (rev.length + 1)
      .ok (rev, precision)
    else .ok (rev, precision)
  else .ok (rev, precision)

/-- The zeroes and the length of a number after the flag `0` has filled its width. -/
def zeroFill (flags : PrintfFlags) (precision zeroes totalLen : Int) :
    Except Stop (Int × Int) :=
  if precision < 0 ∧ flags.zeroPad ∧ ¬flags.leftAdj ∧ flags.width > totalLen then do
    let more ← int (flags.width - totalLen)
    let zeroes ← int (zeroes + more)
    .ok (zeroes, flags.width)
  else .ok (zeroes, totalLen)

/-- The parts of a number as `write_integer` writes them. -/
structure Laid where
  padLen : Nat
  sign : List Char
  prefixed : List Char
  zeroes : Nat
  rev : List Char
  deriving DecidableEq, Repr

/-- The first half of `write_integer`: the parts and their lengths. -/
def layInteger (mag : Nat) (negative : Bool) (flags : PrintfFlags) (base : Nat) (upper : Bool)
    (spec : Char) : Except Stop Laid := do
  let sign := signOf negative flags
  let rev := if flags.precision = 0 ∧ mag = 0 then [] else utoaRev mag base upper
  let (rev, precision) ← altDigits flags.alt base rev flags.precision
  let prefixed := prefixOf flags.alt base mag spec
  let zeroes ← excess precision rev.length
  let sum ← int (rev.length + zeroes)
  let sum ← int (sum + prefixed.length)
  let totalLen ← int (sum + sign.length)
  let (zeroes, totalLen) ← zeroFill flags precision zeroes totalLen
  let padLen ← excess flags.width totalLen
  .ok { padLen := padLen.toNat, sign, prefixed, zeroes := zeroes.toNat, rev }

def writeInteger (fmt : Fmt) (mag : Nat) (negative : Bool) (flags : PrintfFlags) (base : Nat)
    (upper : Bool) (spec : Char) : Except Stop Fmt := do
  let laid ← layInteger mag negative flags base upper spec
  let fmt := if flags.leftAdj then fmt else writeRepeat fmt ' ' laid.padLen
  let fmt := put fmt laid.sign
  let fmt := put fmt laid.prefixed
  let fmt := writeRepeat fmt '0' laid.zeroes
  let fmt := put fmt laid.rev.reverse
  .ok (if flags.leftAdj then writeRepeat fmt ' ' laid.padLen else fmt)

/-- `mag` of a signed value, written so that the negation stays in range. -/
def magnitude (value : Int) : Nat := if value < 0 then (-(value + 1)).toNat + 1 else value.toNat

end Integers

section Conversions

def writeCharConversion (fmt : Fmt) (flags : PrintfFlags) (ch : Char) : Except Stop Fmt := do
  let pad ← excess flags.width 1
  let fmt := if flags.leftAdj then fmt else writeRepeat fmt ' ' pad.toNat
  let fmt := writeChar fmt ch
  .ok (if flags.leftAdj then writeRepeat fmt ' ' pad.toNat else fmt)

/-- `len_s`: the length of a string up to the precision, as an `int`. -/
def stringLength (flags : PrintfFlags) (s : List Char) : Int :=
  if flags.precision ≥ 0 then toInt (strnlenS s flags.precision.toNat) else toInt (strlen s)

def writeStringConversion (fmt : Fmt) (flags : PrintfFlags) (s : List Char) :
    Except Stop Fmt := do
  let lenS := stringLength flags s
  let pad ← excess flags.width lenS
  let fmt := if flags.leftAdj then fmt else writeRepeat fmt ' ' pad.toNat
  let fmt := writeBytes fmt (s.take lenS.toNat)
  .ok (if flags.leftAdj then writeRepeat fmt ' ' pad.toNat else fmt)

/-- The flags of `%p`. -/
def pointerFlags (flags : PrintfFlags) : PrintfFlags :=
  { leftAdj := flags.leftAdj
    plus := false
    space := false
    alt := true
    zeroPad := false
    width := flags.width
    precision := flags.precision }

/-- The arguments of a call of `write_integer`. -/
structure Number where
  mag : Nat
  negative : Bool
  flags : PrintfFlags
  base : Nat
  upper : Bool
  spec : Char
  deriving DecidableEq, Repr

/-- The cases of the `switch` that end in `write_integer`, with the number each of them
reads. -/
def readNumber (flags : PrintfFlags) (len : LengthModifier) (spec : Char) (args : List Arg) :
    Option (Except Stop (Number × List Arg)) :=
  if spec = 'd' ∨ spec = 'i' then some do
    let (value, args) ← readSignedArg args len
    .ok (⟨magnitude value, value < 0, flags, 10, false, spec⟩, args)
  else if spec = 'u' then some do
    let (value, args) ← readUnsignedArg args len
    .ok (⟨value, false, flags, 10, false, spec⟩, args)
  else if spec = 'o' then some do
    let (value, args) ← readUnsignedArg args len
    .ok (⟨value, false, flags, 8, false, spec⟩, args)
  else if spec = 'x' ∨ spec = 'X' then some do
    let (value, args) ← readUnsignedArg args len
    .ok (⟨value, false, flags, 16, spec = 'X', spec⟩, args)
  else if spec = 'p' then some do
    let (value, args) ← vaPointer args
    .ok (⟨value.toNat, false, pointerFlags flags, 16, false, 'x'⟩, args)
  else none

/-- The `switch` of `fmt_vsprintf`; the answer `none` is `goto error`. -/
def writeConversion (fmt : Fmt) (flags : PrintfFlags) (len : LengthModifier) (spec : Char)
    (args : List Arg) : Except Stop (Option Fmt × List Arg) :=
  match readNumber flags len spec args with
  | some read => do
      let (number, args) ← read
      let fmt ← writeInteger fmt number.mag number.negative number.flags number.base number.upper
        number.spec
      .ok (some fmt, args)
  | none =>
      if spec = 'c' then do
        let (value, args) ← vaInt args
        let fmt ← writeCharConversion fmt flags (Char.ofNat (value.setWidth 8).toNat)
        .ok (some fmt, args)
      else if spec = 's' then do
        let (value, args) ← vaString args
        match value with
        | none => .ok (none, args)
        | some s => do
            let fmt ← writeStringConversion fmt flags s
            .ok (some fmt, args)
      else if spec = 'n' then .ok (none, args)
      -- floating point is not supported, and an unknown specifier is ignored
      else .ok (some fmt, args)

end Conversions

section Print

/-- The loop of `fmt_vsprintf`; every round moves the cursor on.  The answer is whether the
end of the format was reached. -/
def fmtLoop : Nat → Fmt → List Char → List Arg → Except Stop (Bool × Fmt)
  | 0, _, _, _ => .error .endless
  | rounds + 1, fmt, cursor, args => do
      match ← readDirective cursor args with
      | .done => .ok (true, fmt)
      | .literal ch rest =>
          let fmt := writeChar fmt ch
          if fmt.error then .ok (false, fmt) else fmtLoop rounds fmt rest args
      | .invalid rest args => fmtLoop rounds fmt rest args
      | .conversion flags len spec rest args =>
          match ← writeConversion fmt flags len spec args with
          | (none, _) => .ok (false, fmt)
          | (some fmt, args) =>
              if fmt.error then .ok (false, fmt) else fmtLoop rounds fmt rest args

/-- `fmt_vsprintf` on a `struct fmt`; the format is `none` for a null pointer. -/
def fmtVsprintf (fmt : Fmt) (format : Option (List Char)) (args : List Arg) :
    Except Stop (Int × Fmt) :=
  if intMax < fmt.size then .ok (-1, fmt)
  else match format with
    | none =>
        let buffer := if 0 < fmt.size then Function.update fmt.buffer fmt.pos nul else fmt.buffer
        .ok (-1, { fmt with buffer })
    | some format => do
        let (reached, fmt) ← fmtLoop (format.length + 1) fmt format args
        if reached then
          let buffer := if 0 < fmt.size then Function.update fmt.buffer fmt.pos nul else fmt.buffer
          .ok (toInt fmt.count, { fmt with buffer })
        else .ok (-1, fmt)

/-- `kvsnprintf`; the buffer is `none` for a null pointer. -/
def kvsnprintf (buffer : Option Buffer) (bufsz : Nat) (format : Option (List Char))
    (args : List Arg) : Except Stop (Int × Option Buffer) :=
  if buffer.isSome ∧ intMax < bufsz then .ok (-1, buffer)
  else if buffer.isNone ∧ 0 < bufsz then .ok (-1, buffer)
  else
    let cleared : Option Buffer :=
      if 0 < bufsz then buffer.map fun buffer => Function.update buffer 0 nul else buffer
    match format with
    | none => .ok (-1, cleared)
    | some format => do
        let fmt : Fmt :=
          { buffer := buffer.getD fun _ => nul
            pos := 0
            writeFn := none
            sent := []
            size := bufsz
            count := 0
            error := false }
        let (result, fmt) ← fmtVsprintf fmt (some format) args
        let written : Option Buffer := buffer.map fun _ => fmt.buffer
        .ok (result, if result < 0 ∧ 0 < bufsz then
          written.map fun buffer => Function.update buffer 0 nul else written)

end Print

end Opal.Libkc
