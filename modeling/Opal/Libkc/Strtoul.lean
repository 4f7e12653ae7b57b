import Mathlib.Data.List.TakeWhile
import Mathlib.Data.Nat.Digits.Lemmas
import Opal.Libkc.Format

/-!
# Reading a numeral

`kstrtoul` skips white space, a plus sign and the prefix of a hexadecimal number, and adds up
the digits that follow.  Overflow is noticed before a digit is added, so the run of digits is
read to its end with its exact value or a flag.
-/

namespace Opal.Libkc

section Data

inductive Kerrno where
  | ok
  | erange
  | einval
  deriving DecidableEq, Repr

def ulongMax : Nat := 2 ^ 64 - 1

/-- What `kstrtoul` leaves behind: its result, the text at `*endptr`, and `*result` if that
was written. -/
structure Parsed where
  err : Kerrno
  endptr : Option (List Char)
  result : Option Nat
  deriving DecidableEq, Repr

def isSpace (ch : Char) : Bool :=
  decide (ch = ' ') || decide (ch = '\t') || decide (ch = '\n') || decide (ch = '\r') ||
    decide (ch = Char.ofNat 12) || decide (ch = Char.ofNat 11)

def digitValue (ch : Char) : Int :=
  if '0' ≤ ch ∧ ch ≤ '9' then ch.toNat - '0'.toNat
  else if 'a' ≤ ch ∧ ch ≤ 'z' then ch.toNat - 'a'.toNat + 10
  else if 'A' ≤ ch ∧ ch ≤ 'Z' then ch.toNat - 'A'.toNat + 10
  else -1

/-- The variables of the loop over the digits. -/
structure Accumulator where
  value : Nat
  hasDigit : Bool
  overflow : Bool
  deriving DecidableEq, Repr

end Data

section Read

def skipSpaces : List Char → List Char
  | [] => []
  | ch :: rest => if isSpace ch then skipSpaces rest else ch :: rest

/-- The prefix of a hexadecimal number with a digit behind it. -/
def hexPrefixed (s : List Char) : Bool :=
  decide (peek s = '0') && (decide (peek s.tail = 'x') || decide (peek s.tail = 'X')) &&
    decide (0 ≤ digitValue (peek s.tail.tail)) && decide (digitValue (peek s.tail.tail) < 16)

def readBase (base : Int) (s : List Char) : Int × List Char :=
  if base = 0 then
    if hexPrefixed s then (16, s.tail.tail)
    else if peek s = '0' then (8, s)
    else (10, s)
  else if base = 16 ∧ hexPrefixed s then (base, s.tail.tail)
  else (base, s)

def Accumulator.add (base : Nat) (digit : Nat) (state : Accumulator) : Accumulator :=
  if state.overflow then { state with hasDigit := true }
  else if state.value > (ulongMax - digit) / base then
    { value := ulongMax, hasDigit := true, overflow := true }
  else { value := (state.value * base + digit) % 2 ^ 64, hasDigit := true, overflow := false }

/-- The loop over the digits. -/
def readRun (base : Int) (state : Accumulator) : List Char → Accumulator × List Char
  | [] => (state, [])
  | ch :: rest =>
      let digit := digitValue ch
      if digit < 0 ∨ digit ≥ base then (state, ch :: rest)
      else readRun base (state.add base.toNat digit.toNat) rest

/-- The end of `kstrtoul`, behind the loop. -/
def finish (str : List Char) (state : Accumulator) (s : List Char) : Parsed :=
  if ¬state.hasDigit then { err := .einval, endptr := some str, result := none }
  else if state.overflow then { err := .erange, endptr := some s, result := none }
  else { err := .ok, endptr := some s, result := some state.value }

/-- `kstrtoul`; the string is `none` for a null pointer. -/
def kstrtoul (str : Option (List Char)) (base : Int) (hasResult : Bool) : Parsed :=
  match str with
  | none => { err := .einval, endptr := none, result := none }
  | some str =>
      if ¬hasResult ∨ base ≠ 0 ∧ (base < 2 ∨ base > 36) then
        { err := .einval, endptr := some str, result := none }
      else
        let s := skipSpaces str
        if peek s = '-' then { err := .einval, endptr := some s, result := none }
        else
          let s := if peek s = '+' then s.tail else s
          let (base, s) := readBase base s
          let (state, s) := readRun base { value := 0, hasDigit := false, overflow := false } s
          finish str state s

end Read

section Characters

/-- A digit of a base. -/
def isDigitOf (base : Nat) (ch : Char) : Bool :=
  decide (0 ≤ digitValue ch) && decide (digitValue ch < base)

def whiteSpace : List Char := [' ', '\t', '\n', Char.ofNat 11, Char.ofNat 12, '\r']

/-- The digits of base 36 in the order of their values. -/
def digitChars : List Char :=
  ['0', '1', '2', '3', '4', '5', '6', '7', '8', '9', 'a', 'b', 'c', 'd', 'e', 'f', 'g', 'h', 'i',
    'j', 'k', 'l', 'm', 'n', 'o', 'p', 'q', 'r', 's', 't', 'u', 'v', 'w', 'x', 'y', 'z']

theorem isSpace_iff (ch : Char) : isSpace ch = true ↔ ch ∈ whiteSpace := by
  simp only [isSpace, whiteSpace, Bool.or_eq_true, decide_eq_true_eq, List.mem_cons,
    List.not_mem_nil, or_false]
  tauto

theorem not_le_of_ascii {ch low : Char} (beyond : 128 ≤ ch.toNat) (ascii : low.toNat < 128) :
    ¬ch ≤ low := by
  intro le
  have le' : ch.toNat ≤ low.toNat := le
  omega

/-- A letter counts like its small form, and a character that is no digit like -1. -/
theorem digitValue_eq (ch : Char) : digitValue ch =
    if ch.toLower ∈ digitChars then (digitChars.idxOf ch.toLower : Int) else -1 := by
  by_cases ascii : ch.toNat < 128
  · have all : ∀ n < 128, digitValue (Char.ofNat n) =
        if (Char.ofNat n).toLower ∈ digitChars then
          (digitChars.idxOf (Char.ofNat n).toLower : Int)
        else -1 := by decide +kernel
    have own := all ch.toNat ascii
    rwa [Char.ofNat_toNat] at own
  · have beyond := Nat.le_of_not_lt ascii
    have small : ch.toLower = ch := by
      unfold Char.toLower
      rw [dif_neg]
      rintro ⟨-, le⟩
      have : ch.toNat ≤ 90 := le
      omega
    have none : ch ∉ digitChars := by
      intro member
      have bounded : digitChars.all (fun digit => decide (digit.toNat < 128)) = true := by decide
      exact ascii (of_decide_eq_true (List.all_eq_true.mp bounded ch member))
    rw [small, if_neg none, digitValue,
      if_neg fun range => not_le_of_ascii beyond (by decide) range.2,
      if_neg fun range => not_le_of_ascii beyond (by decide) range.2,
      if_neg fun range => not_le_of_ascii beyond (by decide) range.2]

theorem hexPrefixed_iff {s : List Char} : hexPrefixed s = true ↔ ∃ x ch rest,
    s = '0' :: x :: ch :: rest ∧ (x = 'x' ∨ x = 'X') ∧ isDigitOf 16 ch = true := by
  constructor
  · intro prefixed
    simp only [hexPrefixed, Bool.and_eq_true, Bool.or_eq_true, decide_eq_true_eq] at prefixed
    obtain ⟨⟨⟨zero, x⟩, low⟩, high⟩ := prefixed
    match s, zero, x, low, high with
    | [], zero, _, _, _ => cases zero
    | [_], _, x, _, _ => rcases x with x | x <;> cases x
    | [_, _], _, _, low, _ => exact absurd (show 0 ≤ digitValue nul from low) (by decide)
    | head :: x :: ch :: rest, zero, isX, low, high =>
        have same : head = '0' := zero
        exact ⟨x, ch, rest, by rw [same], isX, by
          unfold isDigitOf
          rw [Bool.and_eq_true, decide_eq_true_eq, decide_eq_true_eq]
          exact ⟨low, high⟩⟩
  · rintro ⟨x, ch, rest, rfl, isX, digit⟩
    unfold isDigitOf at digit
    rw [Bool.and_eq_true, decide_eq_true_eq, decide_eq_true_eq] at digit
    simp only [hexPrefixed, Bool.and_eq_true, Bool.or_eq_true, decide_eq_true_eq]
    exact ⟨⟨⟨rfl, isX⟩, digit.1⟩, digit.2⟩

end Characters

section Numerals

/-- The value of a run of digits. -/
def runValue (base : Nat) (run : List Char) : Nat :=
  run.foldl (fun value ch => value * base + (digitValue ch).toNat) 0

/-- The string behind its leading white space. -/
def unspaced (s : List Char) : List Char := s.dropWhile isSpace

def unsigned (s : List Char) : List Char :=
  if peek (unspaced s) = '+' then (unspaced s).tail else unspaced s

/-- The base in which a string is read. -/
def baseOf (base : Nat) (s : List Char) : Nat :=
  if base = 0 then
    if hexPrefixed (unsigned s) then 16 else if peek (unsigned s) = '0' then 8 else 10
  else base

/-- The string behind a sign and the prefix of a hexadecimal number. -/
def unprefixed (base : Nat) (s : List Char) : List Char :=
  if (base = 0 ∨ base = 16) ∧ hexPrefixed (unsigned s) then (unsigned s).drop 2 else unsigned s

/-- The longest run of digits. -/
def runOf (base : Nat) (s : List Char) : List Char :=
  (unprefixed base s).takeWhile (isDigitOf (baseOf base s))

def behindRun (base : Nat) (s : List Char) : List Char :=
  (unprefixed base s).dropWhile (isDigitOf (baseOf base s))

/-- The numeral of a string is read. -/
structure ReadsNumeral (base : Nat) (s : List Char) (parsed : Parsed) : Prop where
  ok : parsed.err = .ok ↔ peek (unspaced s) ≠ '-' ∧ runOf base s ≠ [] ∧
    runValue (baseOf base s) (runOf base s) ≤ ulongMax
  erange : parsed.err = .erange ↔ peek (unspaced s) ≠ '-' ∧ runOf base s ≠ [] ∧
    ulongMax < runValue (baseOf base s) (runOf base s)
  einval : parsed.err = .einval ↔ peek (unspaced s) = '-' ∨ runOf base s = []
  result : parsed.err = .ok → parsed.result = some (runValue (baseOf base s) (runOf base s))
  endptr : parsed.err = .ok ∨ parsed.err = .erange → parsed.endptr = some (behindRun base s)

variable {base digit : Nat} {ch : Char} {run rest s : List Char} {state : Accumulator}

theorem runValue_concat : runValue base (run ++ [ch]) =
    runValue base run * base + (digitValue ch).toNat := by
  rw [runValue, List.foldl_append]
  rfl

/-- The loop has read a run of digits. -/
structure Accumulates (base : Nat) (run : List Char) (state : Accumulator) : Prop where
  hasDigit : state.hasDigit = true ↔ run ≠ []
  overflow : state.overflow = true ↔ ulongMax < runValue base run
  value : state.overflow = false → state.value = runValue base run

theorem Accumulates.add (accumulates : Accumulates base run state) (positive : 0 < base)
    (small : base ≤ 36) (isDigit : isDigitOf base ch = true) :
    Accumulates base (run ++ [ch]) (state.add base (digitValue ch).toNat) := by
  have digitSmall : (digitValue ch).toNat < base := by
    unfold isDigitOf at isDigit
    rw [Bool.and_eq_true, decide_eq_true_eq, decide_eq_true_eq] at isDigit
    omega
  have next := @runValue_concat base ch run
  generalize (digitValue ch).toNat = digit at digitSmall next
  have nonempty : run ++ [ch] ≠ [] := by simp
  unfold Accumulator.add
  cases exceeded : state.overflow with
  | true =>
      have grows : runValue base run ≤ runValue base run * base :=
        Nat.le_mul_of_pos_right _ positive
      have already := accumulates.overflow.mp exceeded
      rw [if_pos rfl]
      refine ⟨iff_of_true rfl nonempty, iff_of_true rfl ?_, fun off => by cases off⟩
      rw [next]
      omega
  | false =>
      have value := accumulates.value exceeded
      have test : (ulongMax - digit) / base < state.value ↔
          ulongMax < runValue base (run ++ [ch]) := by
        rw [Nat.div_lt_iff_lt_mul positive, next, value]
        unfold ulongMax
        omega
      rw [if_neg (by decide)]
      by_cases exceeds : (ulongMax - digit) / base < state.value
      · rw [if_pos exceeds]
        exact ⟨iff_of_true rfl nonempty, iff_of_true rfl (test.mp exceeds), fun off => by cases off⟩
      · have fits : ¬ulongMax < runValue base (run ++ [ch]) := fun more =>
          exceeds (test.mpr more)
        rw [if_neg exceeds]
        refine ⟨iff_of_true rfl nonempty, iff_of_false (by simp) fits, fun _ => ?_⟩
        dsimp only
        rw [value, ← next, Nat.mod_eq_of_lt]
        unfold ulongMax at fits
        omega

/-- The loop reads the longest run of digits. -/
theorem readRun_spec (positive : 0 < base) (small : base ≤ 36)
    (accumulates : Accumulates base run state) (s : List Char) :
    (readRun base state s).2 = s.dropWhile (isDigitOf base) ∧
      Accumulates base (run ++ s.takeWhile (isDigitOf base)) (readRun base state s).1 := by
  induction s generalizing run state with
  | nil => exact ⟨rfl, by simpa [readRun] using accumulates⟩
  | cons ch rest inductionHypothesis =>
      rw [readRun]
      by_cases isDigit : isDigitOf base ch = true
      · have inside : ¬(digitValue ch < 0 ∨ digitValue ch ≥ base) := by
          unfold isDigitOf at isDigit
          rw [Bool.and_eq_true, decide_eq_true_eq, decide_eq_true_eq] at isDigit
          omega
        rw [if_neg inside, List.dropWhile_cons_of_pos isDigit, List.takeWhile_cons_of_pos isDigit]
        have next := inductionHypothesis (accumulates.add positive small isDigit)
        rwa [List.append_assoc] at next
      · have outside : digitValue ch < 0 ∨ digitValue ch ≥ base := by
          unfold isDigitOf at isDigit
          rw [Bool.and_eq_true, decide_eq_true_eq, decide_eq_true_eq] at isDigit
          omega
        rw [if_pos outside, List.dropWhile_cons_of_neg isDigit, List.takeWhile_cons_of_neg isDigit,
          List.append_nil]
        exact ⟨rfl, accumulates⟩

theorem skipSpaces_eq (s : List Char) : skipSpaces s = unspaced s := by
  induction s with
  | nil => rfl
  | cons ch rest inductionHypothesis =>
      rw [skipSpaces, unspaced, List.dropWhile_cons, inductionHypothesis]
      rfl

theorem readBase_eq (base : Nat) (s : List Char) :
    readBase base (unsigned s) = ((baseOf base s : Int), unprefixed base s) := by
  have drop : (unsigned s).tail.tail = (unsigned s).drop 2 := by
    rw [← List.drop_one, ← List.drop_one, List.drop_drop]
  unfold readBase baseOf unprefixed
  rw [drop]
  by_cases zero : base = 0
  · subst zero
    rw [if_pos Nat.cast_zero, if_pos rfl]
    by_cases hex : hexPrefixed (unsigned s) = true
    · rw [if_pos hex, if_pos hex, if_pos ⟨Or.inl rfl, hex⟩]
      rfl
    · have plain : ¬((0 = 0 ∨ 0 = 16) ∧ hexPrefixed (unsigned s) = true) := fun both => hex both.2
      rw [if_neg hex, if_neg hex, if_neg plain]
      by_cases octal : peek (unsigned s) = '0'
      · rw [if_pos octal, if_pos octal]
        rfl
      · rw [if_neg octal, if_neg octal]
        rfl
  · rw [if_neg (by omega), if_neg zero]
    by_cases hex : base = 16 ∧ hexPrefixed (unsigned s) = true
    · rw [if_pos ⟨by omega, hex.2⟩, if_pos ⟨Or.inr hex.1, hex.2⟩]
    · rw [if_neg fun both => hex ⟨by omega, both.2⟩, if_neg]
      rintro ⟨either, prefixed⟩
      exact hex ⟨either.resolve_left zero, prefixed⟩

theorem baseOf_facts {base : Nat} (valid : base = 0 ∨ 2 ≤ base ∧ base ≤ 36) (s : List Char) :
    0 < baseOf base s ∧ baseOf base s ≤ 36 := by
  unfold baseOf
  split
  · split
    · decide
    split
    · decide
    · decide
  · omega

theorem not_digit_minus (base : Nat) : isDigitOf base '-' = false := rfl

/-- A minus sign is no digit and no prefix. -/
theorem runOf_minus (base : Nat) (minus : peek (unspaced s) = '-') : runOf base s = [] := by
  have same : unsigned s = unspaced s := by
    rw [unsigned, minus, if_neg (by decide)]
  have plain : hexPrefixed (unsigned s) = false := by
    rw [same, hexPrefixed, minus]
    rfl
  rw [runOf, unprefixed, if_neg (by simp [plain]), same]
  generalize baseOf base s = base
  cases rest : unspaced s with
  | nil => rfl
  | cons ch rest' =>
      rw [rest] at minus
      have head : ch = '-' := minus
      rw [head, List.takeWhile_cons_of_neg (by rw [not_digit_minus]; decide)]

/-- `kstrtoul` reads the numeral of a string. -/
theorem kstrtoul_reads {base : Nat} (valid : base = 0 ∨ 2 ≤ base ∧ base ≤ 36) (s : List Char) :
    ReadsNumeral base s (kstrtoul (some s) base true) := by
  have accepted : ¬(¬true = true ∨ (base : Int) ≠ 0 ∧ ((base : Int) < 2 ∨ (base : Int) > 36)) := by
    rintro (missing | ⟨nonzero, outside⟩)
    · exact missing rfl
    · omega
  unfold kstrtoul
  dsimp only
  rw [if_neg accepted, skipSpaces_eq]
  by_cases minus : peek (unspaced s) = '-'
  · have none := runOf_minus base minus
    rw [if_pos minus]
    exact
      { ok := iff_of_false (by simp) fun good => good.1 minus
        erange := iff_of_false (by simp) fun good => good.1 minus
        einval := iff_of_true rfl (Or.inl minus)
        result := fun good => by cases good
        endptr := fun good => by rcases good with good | good <;> cases good }
  · rw [if_neg minus]
    have split : readBase base (if peek (unspaced s) = '+' then (unspaced s).tail
        else unspaced s) = ((baseOf base s : Int), unprefixed base s) := readBase_eq base s
    rw [split]
    obtain ⟨positive, small⟩ := baseOf_facts valid s
    have start : Accumulates (baseOf base s) [] ⟨0, false, false⟩ :=
      ⟨by simp, iff_of_false (by simp) (Nat.not_lt_zero _), fun _ => rfl⟩
    obtain ⟨behind, ⟨hasDigit, overflow, value⟩⟩ :=
      readRun_spec positive small start (unprefixed base s)
    rw [List.nil_append] at hasDigit overflow value
    change _ = behindRun base s at behind
    change _ ↔ runOf base s ≠ [] at hasDigit
    change _ ↔ ulongMax < runValue (baseOf base s) (runOf base s) at overflow
    change _ → _ = runValue (baseOf base s) (runOf base s) at value
    dsimp only
    generalize readRun (baseOf base s) ⟨0, false, false⟩ (unprefixed base s) = run at *
    obtain ⟨state, after⟩ := run
    dsimp only at behind hasDigit overflow value ⊢
    unfold finish
    cases digits : state.hasDigit with
    | false =>
        have empty : runOf base s = [] := by
          rw [digits] at hasDigit
          simpa using hasDigit
        rw [if_pos (by decide)]
        exact
          { ok := iff_of_false (by simp) fun good => good.2.1 empty
            erange := iff_of_false (by simp) fun good => good.2.1 empty
            einval := iff_of_true rfl (Or.inr empty)
            result := fun good => by cases good
            endptr := fun good => by rcases good with good | good <;> cases good }
    | true =>
        have nonempty := hasDigit.mp digits
        have valid : ¬(peek (unspaced s) = '-' ∨ runOf base s = []) := fun either =>
          either.elim minus nonempty
        rw [if_neg (by decide)]
        cases exceeded : state.overflow with
        | true =>
            have exceeds := overflow.mp exceeded
            rw [if_pos rfl]
            exact
              { ok := iff_of_false (by simp) fun good => Nat.not_lt.mpr good.2.2 exceeds
                erange := iff_of_true rfl ⟨minus, nonempty, exceeds⟩
                einval := iff_of_false (by simp) valid
                result := fun good => by cases good
                endptr := fun _ => by rw [behind] }
        | false =>
            have fits : ¬ulongMax < runValue (baseOf base s) (runOf base s) := by
              rw [← overflow, exceeded]
              decide
            rw [if_neg (by decide)]
            exact
              { ok := iff_of_true rfl ⟨minus, nonempty, Nat.not_lt.mp fits⟩
                erange := iff_of_false (by simp) fun good => fits good.2.2
                einval := iff_of_false (by simp) valid
                result := fun _ => by rw [value exceeded]
                endptr := fun _ => by rw [behind] }

end Numerals

end Opal.Libkc
