import Opal.Libkc.Truncation
import Opal.Libkc.Layout

/-!
# Integer conversions

A `Conversion` is an integer conversion as a caller writes it down, with its arguments.
`text` is what the C standard says it prints; the formatter is compared with it by reading
the conversion back from its characters.
-/

namespace Opal.Libkc

section Syntax

inductive Flag where
  | minus
  | plus
  | space
  | hash
  | zero
  deriving DecidableEq, Repr

def Flag.char : Flag → Char
  | minus => '-'
  | plus => '+'
  | space => ' '
  | hash => '#'
  | zero => '0'

/-- A decimal number, as its digits. -/
abbrev Digits := List (Fin 10)

def digitsText (digits : Digits) : List Char :=
  digits.map fun digit : Fin 10 => digitChar false digit.val

def digitsValue (digits : Digits) : Nat :=
  digits.foldl (fun value digit => value * 10 + digit.val) 0

/-- The field width; a number starts with one of the digits 1 to 9. -/
inductive Width where
  | none
  | digits (first : Fin 9) (rest : Digits)
  | star (value : BitVec 32)
  deriving DecidableEq, Repr

/-- The precision; a period alone has no digits. -/
inductive Precision where
  | none
  | digits (digits : Digits)
  | star (value : BitVec 32)
  deriving DecidableEq, Repr

inductive IntegerSpec where
  | d
  | i
  | u
  | o
  | x
  | capX
  deriving DecidableEq, Repr

def IntegerSpec.char : IntegerSpec → Char
  | d => 'd'
  | i => 'i'
  | u => 'u'
  | o => 'o'
  | x => 'x'
  | capX => 'X'

/-- An integer conversion; the low bits of `value` are the argument where its type is
narrower.  The modifier `L` belongs to no integer conversion. -/
structure Conversion where
  flags : List Flag
  width : Width
  precision : Precision
  len : LengthModifier
  integer : len ≠ .capL
  spec : IntegerSpec
  value : BitVec 64

namespace Conversion

variable (conversion : Conversion)

def widthText : List Char :=
  match conversion.width with
  | .none => []
  | .digits first rest => digitsText (first.succ :: rest)
  | .star _ => ['*']

def precisionText : List Char :=
  match conversion.precision with
  | .none => []
  | .digits digits => '.' :: digitsText digits
  | .star _ => ['.', '*']

def lenText : List Char :=
  match conversion.len with
  | .none => []
  | .hh => ['h', 'h']
  | .h => ['h']
  | .l => ['l']
  | .ll => ['l', 'l']
  | .j => ['j']
  | .z => ['z']
  | .t => ['t']
  | .capL => ['L']

/-- The conversion as a format of its own. -/
def format : List Char :=
  '%' :: (conversion.flags.map Flag.char ++
    (conversion.widthText ++ (conversion.precisionText ++
      (conversion.lenText ++ [conversion.spec.char]))))

/-- The number of bits of the type that the modifier names. -/
def bits : Nat :=
  match conversion.len with
  | .hh => 8
  | .h => 16
  | .none | .capL => 32
  | .l | .ll | .j | .z | .t => 64

/-- The value as it is passed; a type narrower than `int` is promoted. -/
def arg : Arg :=
  if conversion.bits = 64 then .long conversion.value else .int (conversion.value.setWidth 32)

def widthArgs : List Arg :=
  match conversion.width with
  | .star value => [.int value]
  | _ => []

def precisionArgs : List Arg :=
  match conversion.precision with
  | .star value => [.int value]
  | _ => []

def args : List Arg :=
  conversion.widthArgs ++ (conversion.precisionArgs ++ [conversion.arg])

end Conversion

end Syntax

section Standard

namespace Conversion

variable (conversion : Conversion)

/-- A negative argument for the width is a flag `-` with a positive width. -/
def leftAdj : Bool :=
  decide (Flag.minus ∈ conversion.flags) ||
    match conversion.width with
    | .star value => decide (value.toInt < 0)
    | _ => false

def fieldWidth : Nat :=
  match conversion.width with
  | .none => 0
  | .digits first rest => digitsValue (first.succ :: rest)
  | .star value => value.toInt.natAbs

/-- A negative argument for the precision is taken as if it were left out. -/
def precisionValue : Option Nat :=
  match conversion.precision with
  | .none => none
  | .digits digits => some (digitsValue digits)
  | .star value => if value.toInt < 0 then none else some value.toInt.toNat

def signed : Bool := conversion.spec = .d || conversion.spec = .i

def base : Nat :=
  match conversion.spec with
  | .d | .i | .u => 10
  | .o => 8
  | .x | .capX => 16

def upper : Bool := conversion.spec = .capX

def alt : Bool := decide (Flag.hash ∈ conversion.flags)

/-- The argument converted to the type that the modifier names. -/
def signedValue : Int := (conversion.value.setWidth conversion.bits).toInt

def unsignedValue : Nat := (conversion.value.setWidth conversion.bits).toNat

def negative : Bool := conversion.signed && decide (conversion.signedValue < 0)

def mag : Nat :=
  if conversion.signed then conversion.signedValue.natAbs else conversion.unsignedValue

/-- The sign; `+` and space speak of signed conversions only. -/
def sign : List Char :=
  if conversion.negative then ['-']
  else if conversion.signed then
    if Flag.plus ∈ conversion.flags then ['+']
    else if Flag.space ∈ conversion.flags then [' '] else []
  else []

/-- The flag `0` is ignored where there is a precision. -/
def zeroPad : Bool :=
  decide (Flag.zero ∈ conversion.flags) && conversion.precisionValue.isNone

/-- The sign or the base in front of the digits. -/
def front : List Char :=
  conversion.sign ++ prefixOf conversion.alt conversion.base conversion.mag conversion.spec.char

def core : List Char :=
  coreDigits (conversion.alt && conversion.base = 8) conversion.precisionValue
    (numeral conversion.base conversion.upper conversion.mag)

/-- What the C standard says the conversion prints. -/
def text : List Char :=
  place conversion.leftAdj conversion.zeroPad conversion.fieldWidth conversion.front
    conversion.core

end Conversion

end Standard

section Reading

variable {rest : List Char} {args : List Arg} {flags : PrintfFlags}

def Flag.apply (flags : PrintfFlags) : Flag → PrintfFlags
  | minus => { flags with leftAdj := true }
  | plus => { flags with plus := true }
  | space => { flags with space := true }
  | hash => { flags with alt := true }
  | zero => { flags with zeroPad := true }

theorem readFlags_cons (flag : Flag) : readFlags flags (flag.char :: rest) =
    readFlags (flag.apply flags) rest := by
  cases flag <;> rfl

def isFlag (ch : Char) : Bool :=
  ch = '-' || ch = '+' || ch = ' ' || ch = '#' || ch = '0'

theorem readFlags_stop (stop : isFlag (peek rest) = false) :
    readFlags flags rest = (flags, rest) := by
  cases rest with
  | nil => rfl
  | cons ch rest =>
      simp only [isFlag, peek, Bool.or_eq_false_iff] at stop
      obtain ⟨⟨⟨⟨minus, plus⟩, space⟩, hash⟩, zero⟩ := stop
      rw [readFlags, if_neg (of_decide_eq_false minus), if_neg (of_decide_eq_false plus),
        if_neg (of_decide_eq_false space), if_neg (of_decide_eq_false hash),
        if_neg (of_decide_eq_false zero)]

theorem readFlags_append (list : List Flag) (stop : isFlag (peek rest) = false) :
    readFlags flags (list.map Flag.char ++ rest) = (list.foldl Flag.apply flags, rest) := by
  induction list generalizing flags with
  | nil => exact readFlags_stop stop
  | cons flag list inductionHypothesis =>
      rw [List.map_cons, List.cons_append, readFlags_cons, inductionHypothesis, List.foldl_cons]

/-- The flags of a list in any order and number. -/
theorem foldl_apply (list : List Flag) : list.foldl Flag.apply flags =
    { flags with
      leftAdj := flags.leftAdj || decide (Flag.minus ∈ list)
      plus := flags.plus || decide (Flag.plus ∈ list)
      space := flags.space || decide (Flag.space ∈ list)
      alt := flags.alt || decide (Flag.hash ∈ list)
      zeroPad := flags.zeroPad || decide (Flag.zero ∈ list) } := by
  induction list generalizing flags with
  | nil => simp
  | cons flag list inductionHypothesis =>
      rw [List.foldl_cons, inductionHypothesis]
      cases flag <;> simp [Flag.apply]

theorem digit_facts (digit : Fin 10) : isDigit (digitChar false digit.val) = true ∧
    ((digitChar false digit.val).toNat : Int) - '0'.toNat = digit.val := by
  revert digit
  decide

theorem le_foldl_digits (digits : Digits) (value : Nat) :
    value ≤ digits.foldl (fun value digit => value * 10 + digit.val) value := by
  induction digits generalizing value with
  | nil => exact Nat.le_refl value
  | cons digit digits inductionHypothesis =>
      exact Nat.le_trans (by omega) (inductionHypothesis (value * 10 + digit.val))

/-- The number is read to its last digit when it fits an `int`. -/
theorem readDigits_append (digits : Digits) (value : Nat)
    (fits : digits.foldl (fun value digit => value * 10 + digit.val) value ≤ intMax)
    (stop : isDigit (peek rest) = false) :
    readDigits value (digitsText digits ++ rest) = .ok (some
      ((digits.foldl (fun value digit => value * 10 + digit.val) value : Nat) : Int), rest) := by
  induction digits generalizing value with
  | nil =>
      cases rest with
      | nil => rfl
      | cons ch rest =>
          change isDigit ch = false at stop
          simp [digitsText, readDigits, stop]
  | cons digit digits inductionHypothesis =>
      obtain ⟨isDigit, digitValue⟩ := digit_facts digit
      have grows := le_foldl_digits digits (value * 10 + digit.val)
      rw [List.foldl_cons] at fits ⊢
      have small := digit.isLt
      have next := inductionHypothesis (value * 10 + digit.val) fits
      unfold intMax at *
      rw [digitsText, List.map_cons, List.cons_append, readDigits, if_pos isDigit]
      simp only [digitValue, intMax]
      rw [int_ok (by omega) (by omega), ok_bind, if_neg (by omega),
        int_ok (by omega) (by omega), ok_bind, int_ok (by omega) (by omega), ok_bind]
      exact next

/-- `.*` and `*` take their number from the arguments. -/
theorem getWidthOrPrecision_star (value : BitVec 32) :
    getWidthOrPrecision ('*' :: rest) (.int value :: args) =
      .ok (some value.toInt, rest, args) := rfl

theorem getWidthOrPrecision_digits (digits : Digits) (fits : digitsValue digits ≤ intMax)
    (star : peek (digitsText digits ++ rest) ≠ '*') (stop : isDigit (peek rest) = false) :
    getWidthOrPrecision (digitsText digits ++ rest) args =
      .ok (some (digitsValue digits : Int), rest, args) := by
  have read := readDigits_append digits 0 fits stop
  rw [getWidthOrPrecision, if_neg star]
  change (readDigits ((0 : Nat) : Int) _ >>= _) = _
  rw [read]
  rfl

theorem digitsText_peek (digits : Digits) (stop : peek rest ≠ '*') :
    peek (digitsText digits ++ rest) ≠ '*' := by
  cases digits with
  | nil => exact stop
  | cons digit digits =>
      change digitChar false digit.val ≠ '*'
      revert digit
      decide

end Reading

namespace Conversion

variable {conversion : Conversion} {rest : List Char} {args : List Arg} {flags : PrintfFlags}

/-- The flags with which the formatter reaches the specifier. -/
def printfFlags (conversion : Conversion) : PrintfFlags :=
  { leftAdj := conversion.leftAdj
    plus := decide (Flag.plus ∈ conversion.flags)
    space := decide (Flag.space ∈ conversion.flags)
    alt := conversion.alt
    zeroPad := decide (Flag.zero ∈ conversion.flags) && decide (conversion.precision = .none)
    width := conversion.fieldWidth
    precision := match conversion.precisionValue with
      | none => -1
      | some precision => precision }

theorem readWidth_eq (fits : conversion.fieldWidth ≤ intMax) (width : flags.width = 0)
    (star : peek rest ≠ '*') (stop : isDigit (peek rest) = false) :
    readWidth flags (conversion.widthText ++ rest) (conversion.widthArgs ++ args) =
      .ok (some { flags with
        leftAdj := flags.leftAdj || match conversion.width with
          | .star value => decide (value.toInt < 0)
          | _ => false
        width := conversion.fieldWidth }, rest, args) := by
  unfold fieldWidth at fits ⊢
  unfold widthText widthArgs readWidth
  cases given : conversion.width with
  | none =>
      rw [given] at fits
      simp [star, stop, ← width]
  | digits first more =>
      rw [given] at fits
      have nonStar := @digitsText_peek rest (first.succ :: more) star
      have isDigit : isDigit (peek (digitsText (first.succ :: more) ++ rest)) = true :=
        (digit_facts first.succ).1
      dsimp only
      rw [if_pos (Or.inr isDigit), List.nil_append,
        getWidthOrPrecision_digits (first.succ :: more) fits nonStar stop, ok_bind]
      dsimp only
      rw [if_neg (by omega), Bool.or_false]
  | star value =>
      rw [given] at fits
      dsimp only [intMax] at fits
      change (getWidthOrPrecision ('*' :: rest) (.int value :: args) >>= _) = _
      rw [getWidthOrPrecision_star, ok_bind]
      dsimp only
      by_cases negative : value.toInt < 0
      · have natAbs : -value.toInt = ((value.toInt.natAbs : Nat) : Int) := by omega
        rw [if_pos negative, int_ok (by omega) (by omega), ok_bind, natAbs]
        simp [negative]
      · have natAbs : value.toInt = ((value.toInt.natAbs : Nat) : Int) := by omega
        rw [if_neg negative]
        simp only [negative, decide_false, Bool.or_false]
        rw [← natAbs]

theorem readPrecision_eq (fits : conversion.precisionValue.getD 0 ≤ intMax)
    (precision : flags.precision = -1) (star : peek rest ≠ '*')
    (stop : isDigit (peek rest) = false) (period : peek rest ≠ '.') :
    readPrecision flags (conversion.precisionText ++ rest) (conversion.precisionArgs ++ args) =
      .ok (some { flags with
        zeroPad := flags.zeroPad && decide (conversion.precision = .none)
        precision := match conversion.precisionValue with
          | none => -1
          | some precision => precision }, rest, args) := by
  unfold precisionValue at fits ⊢
  unfold precisionText precisionArgs readPrecision
  cases given : conversion.precision with
  | none => simp [period, ← precision]
  | digits digits =>
      rw [given] at fits
      change (getWidthOrPrecision (digitsText digits ++ rest) args >>= _) = _
      rw [getWidthOrPrecision_digits digits fits (digitsText_peek digits star) stop, ok_bind]
      dsimp only
      rw [if_neg (by omega)]
      simp
  | star value =>
      change (getWidthOrPrecision ('*' :: rest) (.int value :: args) >>= _) = _
      rw [getWidthOrPrecision_star, ok_bind]
      dsimp only
      by_cases negative : value.toInt < 0
      · simp [negative]
      · have toNat : value.toInt = ((value.toInt.toNat : Nat) : Int) := by omega
        simp only [negative, if_false]
        rw [← toNat]
        simp

theorem readLength_eq :
    readLength (conversion.lenText ++ [conversion.spec.char]) =
      (conversion.len, [conversion.spec.char]) := by
  unfold lenText
  cases conversion.len <;> cases conversion.spec <;> rfl

/-- What stands behind the flags, the width and the precision. -/
theorem peek_lenText : let ch := peek (conversion.lenText ++ [conversion.spec.char])
    (isFlag ch = false ∧ ch ≠ '%') ∧ (isDigit ch = false ∧ ch ≠ '*') ∧ ch ≠ '.' ∧ ch ≠ nul := by
  unfold lenText
  cases conversion.len <;> cases conversion.spec <;> decide

theorem peek_spec : conversion.spec.char ≠ nul := by
  cases conversion.spec <;> decide

/-- What stands behind the flags and the width. -/
theorem peek_precisionText (plain : isFlag (peek rest) = false ∧ peek rest ≠ '%')
    (stop : isDigit (peek rest) = false ∧ peek rest ≠ '*') :
    let ch := peek (conversion.precisionText ++ rest)
    (isFlag ch = false ∧ ch ≠ '%') ∧ isDigit ch = false ∧ ch ≠ '*' := by
  have period : (isFlag '.' = false ∧ '.' ≠ '%') ∧ isDigit '.' = false ∧ '.' ≠ '*' := by decide
  unfold precisionText
  cases conversion.precision with
  | none => exact ⟨plain, stop⟩
  | digits digits => exact period
  | star value => exact period

/-- What stands behind the flags. -/
theorem peek_widthText (plain : isFlag (peek rest) = false ∧ peek rest ≠ '%') :
    isFlag (peek (conversion.widthText ++ rest)) = false ∧
      peek (conversion.widthText ++ rest) ≠ '%' := by
  have star : isFlag '*' = false ∧ '*' ≠ '%' := by decide
  unfold widthText
  cases conversion.width with
  | none => exact plain
  | digits first more =>
      change isFlag (digitChar false first.succ.val) = false ∧ digitChar false first.succ.val ≠ '%'
      revert first
      decide
  | star value => exact star

theorem peek_flags (list : List Flag) (plain : peek rest ≠ '%') :
    peek (list.map Flag.char ++ rest) ≠ '%' := by
  cases list with
  | nil => exact plain
  | cons flag list =>
      change flag.char ≠ '%'
      cases flag <;> decide

/-- The formatter reads the conversion back. -/
theorem readDirective_format (widthFits : conversion.fieldWidth ≤ intMax)
    (precisionFits : conversion.precisionValue.getD 0 ≤ intMax) :
    readDirective conversion.format conversion.args =
      .ok (.conversion conversion.printfFlags conversion.len conversion.spec.char []
        [conversion.arg]) := by
  obtain ⟨lenPlain, lenStop, lenPeriod, lenNul⟩ := @peek_lenText conversion
  obtain ⟨precisionPlain, precisionStop⟩ := @peek_precisionText conversion _ lenPlain lenStop
  have widthPlain := @peek_widthText conversion _ precisionPlain
  have percent := peek_flags conversion.flags widthPlain.2
  have first : readDirective conversion.format conversion.args =
      readConversion (conversion.flags.map Flag.char ++ (conversion.widthText ++
        (conversion.precisionText ++ (conversion.lenText ++ [conversion.spec.char]))))
        conversion.args := by
    have nonNul : '%' ≠ nul := by decide
    have isPercent : ¬ '%' ≠ '%' := by decide
    unfold format readDirective
    change (if '%' = nul then _ else if '%' ≠ '%' then _ else _) = _
    rw [if_neg nonNul, if_neg isPercent, List.tail_cons, if_neg percent]
  rw [first, readConversion, readFlags_append _ widthPlain.1, args]
  dsimp only
  rw [foldl_apply, readWidth_eq widthFits rfl precisionStop.2 precisionStop.1, ok_bind]
  dsimp only
  rw [readPrecision_eq precisionFits rfl lenStop.2 lenStop.1 lenPeriod, ok_bind]
  dsimp only
  rw [readLength_eq]
  dsimp only
  have nonNul : peek [conversion.spec.char] ≠ nul := peek_spec
  rw [if_neg nonNul]
  simp [printfFlags, PrintfFlags.initial, leftAdj, alt, peek]

end Conversion

end Opal.Libkc
