import Mathlib.Data.Nat.Digits.Lemmas
import Mathlib.Tactic.IntervalCases
import Opal.Libkc.Expansion

/-!
# The layout of an integer

A number is a sign and a prefix, a core of digits with the zeroes that the precision and `#`
put in front of them, and the padding to the width.  `integerText_eq` says that this is
what `write_integer` lays out whenever its length fits an `int`.
-/

namespace Opal.Libkc

section Numerals

/-- The digits of a number, the most significant one first; zero has none. -/
def numeral (base : Nat) (upper : Bool) (value : Nat) : List Char :=
  ((Nat.digits base value).map (digitChar upper)).reverse

variable {base value places : Nat} {upper : Bool}

theorem utoaLoop_eq (atLeast : 2 ≤ base) (small : value < base ^ places) :
    utoaLoop base upper places value = (Nat.digits base value).map (digitChar upper) := by
  induction places generalizing value with
  | zero =>
      have zero : value = 0 := by simpa using small
      rw [zero, Nat.digits_zero]
      rfl
  | succ places inductionHypothesis =>
      rw [utoaLoop]
      by_cases zero : value = 0
      · rw [if_pos zero, zero, Nat.digits_zero]
        rfl
      · have rest : value / base < base ^ places := by
          rw [Nat.pow_succ] at small
          exact Nat.div_lt_of_lt_mul (by rwa [Nat.mul_comm] at small)
        rw [if_neg zero, inductionHypothesis rest,
          Nat.digits_def' atLeast (Nat.pos_of_ne_zero zero), List.map_cons]

theorem utoaRev_eq (atLeast : 2 ≤ base) (small : value < 2 ^ 64) (positive : value ≠ 0) :
    (utoaRev value base upper).reverse = numeral base upper value := by
  rw [utoaRev, if_neg positive, utoaLoop_eq atLeast, numeral]
  exact Nat.lt_of_lt_of_le small (Nat.pow_le_pow_left atLeast 64)

/-- A character is the digit zero only for zero. -/
theorem digitChar_eq_zero {digit : Nat} (small : digit < 36) (zero : digitChar upper digit = '0') :
    digit = 0 := by
  revert zero
  revert upper
  interval_cases digit <;> decide

theorem numeral_ne_nil (positive : value ≠ 0) : numeral base upper value ≠ [] := by
  simpa [numeral, Nat.digits_ne_nil_iff_ne_zero] using positive

/-- The first digit of a number is not a zero. -/
theorem numeral_head (atLeast : 2 ≤ base) (atMost : base ≤ 36) :
    (numeral base upper value).head? ≠ some '0' := by
  intro head
  rw [numeral, List.head?_reverse, List.getLast?_map] at head
  obtain ⟨digit, last, zero⟩ := Option.map_eq_some_iff.mp head
  have positive : value ≠ 0 := by
    rintro rfl
    rw [Nat.digits_zero] at last
    cases last
  have nonempty : Nat.digits base value ≠ [] := Nat.digits_ne_nil_iff_ne_zero.mpr positive
  have member := List.mem_of_getLast? last
  have small := Nat.digits_lt_base atLeast member
  rw [List.getLast?_eq_some_getLast nonempty] at last
  have same := Option.some.inj last
  exact Nat.getLast_digit_ne_zero base positive (same.trans (digitChar_eq_zero (by omega) zero))

theorem length_numeral_le (atLeast : 2 ≤ base) (small : value < 2 ^ 64) :
    (numeral base upper value).length ≤ 64 := by
  rw [numeral, List.length_reverse, List.length_map]
  have lower := Nat.lt_of_lt_of_le small (Nat.pow_le_pow_left atLeast 64)
  exact (Nat.digits_length_le_iff (by omega) value).mpr lower

end Numerals

section Core

/-- The digits after the precision and `#` have put zeroes in front. -/
def coreDigits (octal : Bool) (precision : Option Nat) (digits : List Char) : List Char :=
  let core := List.replicate (precision.getD 1 - digits.length) '0' ++ digits
  if octal ∧ core.head? ≠ some '0' then '0' :: core else core

/-- The parts of a number in a field. -/
def place (leftAdj zeroPad : Bool) (width : Nat) (front core : List Char) : List Char :=
  let fill := width - (front.length + core.length)
  if leftAdj then front ++ core ++ List.replicate fill ' '
  else if zeroPad then front ++ List.replicate fill '0' ++ core
  else List.replicate fill ' ' ++ front ++ core

def precisionOf (precision : Int) : Option Nat :=
  if precision < 0 then none else some precision.toNat

/-- The digits that the loop of `write_integer` starts with. -/
def startDigits (precision : Int) (mag base : Nat) (upper : Bool) : List Char :=
  if precision = 0 ∧ mag = 0 then [] else utoaRev mag base upper

/-- The digits and the precision that `write_integer` goes on with. -/
structure Altered (alt : Bool) (base mag : Nat) (upper : Bool) (precision : Int)
    (rev : List Char) (precision' : Int) : Prop where
  core : List.replicate (precision' - rev.length).toNat '0' ++ rev.reverse =
    coreDigits (alt && base = 8) (precisionOf precision) (numeral base upper mag)
  open_iff : precision' < 0 ↔ precision < 0 ∧ ¬(alt = true ∧ base = 8 ∧ mag ≠ 0)
  length : rev.length ≤ 64
  bound : precision' ≤ max precision 65

variable {alt upper : Bool} {base mag : Nat} {precision : Int}

theorem numeral_zero : numeral base upper 0 = [] := by
  rw [numeral, Nat.digits_zero]
  rfl

theorem int_ok {value : Int} (lower : -2 ^ 31 ≤ value) (upper : value < 2 ^ 31) :
    int value = .ok value := if_pos ⟨lower, upper⟩

theorem int_overflow {value : Int} (above : 2 ^ 31 ≤ value) : int value = .error .overflow :=
  if_neg fun within => absurd within.2 (Int.not_lt.mpr above)

/-- A zero is written as it would be with a precision of one. -/
theorem coreDigits_nil (octal : Bool) {precision : Option Nat} (some : precision ≠ some 0) :
    coreDigits octal precision [] = List.replicate (precision.getD 1 - 1) '0' ++ ['0'] := by
  have positive : precision.getD 1 ≠ 0 := by
    cases precision with
    | none => decide
    | some value => simpa using some
  obtain ⟨count, eq⟩ := Nat.exists_eq_succ_of_ne_zero positive
  unfold coreDigits
  rw [eq]
  simp [List.replicate_succ, ← List.replicate_succ']

theorem altDigits_zero (precisionLow : -1 ≤ precision) :
    ∃ rev precision', altDigits alt base (startDigits precision 0 base upper) precision =
        .ok (rev, precision') ∧ Altered alt base 0 upper precision rev precision' := by
  by_cases empty : precision = 0
  · subst empty
    by_cases octal : alt = true ∧ base = 8
    · obtain ⟨rfl, rfl⟩ := octal
      exact ⟨['0'], 0, rfl, ⟨rfl, by simp, by simp, by simp⟩⟩
    · have plain : (alt && decide (base = 8)) = false := by
        rw [← Bool.not_eq_true]
        simpa using octal
      refine ⟨[], 0, ?_, ⟨?_, by simp, by simp, by simp⟩⟩
      · rw [altDigits, if_neg fun altered => octal ⟨altered.1, altered.2.1⟩]
        rfl
      · simp [coreDigits, precisionOf, numeral_zero, plain]
  · have one : startDigits precision 0 base upper = ['0'] := by
      rw [startDigits, if_neg (by simp [empty]), utoaRev, if_pos rfl]
    refine ⟨['0'], precision, ?_, ⟨?_, by simp, by simp, Int.le_max_left _ _⟩⟩
    · rw [one, altDigits, if_neg (by simp)]
    · have given : precisionOf precision ≠ some 0 := by
        unfold precisionOf
        split
        · simp
        · simp only [ne_eq, Option.some.injEq]
          omega
      have count : (precisionOf precision).getD 1 - 1 =
          (precision - (['0'] : List Char).length).toNat := by
        unfold precisionOf
        split
        · simp only [Option.getD_none, List.length_singleton]
          omega
        · simp only [Option.getD_some, List.length_singleton]
          omega
      rw [numeral_zero, coreDigits_nil _ given, count]
      rfl

theorem altDigits_pos (precisionLow : -1 ≤ precision) (positive : mag ≠ 0) (atLeast : 2 ≤ base)
    (atMost : base ≤ 36) (small : mag < 2 ^ 64) :
    ∃ rev precision', altDigits alt base (startDigits precision mag base upper) precision =
        .ok (rev, precision') ∧ Altered alt base mag upper precision rev precision' := by
  have digits : (startDigits precision mag base upper).reverse = numeral base upper mag := by
    rw [startDigits, if_neg (by simp [positive]), utoaRev_eq atLeast small positive]
  have short := @length_numeral_le base mag upper atLeast small
  have nonempty := List.length_pos_of_ne_nil (@numeral_ne_nil base mag upper positive)
  have head := @numeral_head base mag upper atLeast atMost
  generalize startDigits precision mag base upper = rev at digits
  rw [← digits, List.length_reverse] at short nonempty
  rw [← digits, List.head?_reverse] at head
  have zeroes : (precisionOf precision).getD 1 - rev.length = (precision - rev.length).toNat := by
    unfold precisionOf
    split
    · simp only [Option.getD_none]
      omega
    · simp only [Option.getD_some]
      omega
  by_cases octal : alt = true ∧ base = 8
  · have both : (alt && decide (base = 8)) = true := by simpa using octal
    have altered : alt = true ∧ base = 8 ∧ rev.getLast? ≠ some '0' := ⟨octal.1, octal.2, head⟩
    by_cases less : precision ≤ rev.length
    · refine ⟨rev, rev.length + 1, ?_, ⟨?_, ?_, short, ?_⟩⟩
      · rw [altDigits, if_pos altered, if_neg (by omega), if_pos less,
          int_ok (by omega) (by omega)]
        rfl
      · have none : (precisionOf precision).getD 1 - rev.length = 0 := by omega
        have single : ((rev.length : Int) + 1 - rev.length).toNat = 1 := by omega
        rw [← digits, coreDigits, both, List.length_reverse, none, single]
        simp [head]
      · constructor
        · intro negative
          omega
        · intro absurd
          exact (absurd.2 ⟨octal.1, octal.2, positive⟩).elim
      · omega
    · refine ⟨rev, precision, ?_, ⟨?_, ?_, short, Int.le_max_left _ _⟩⟩
      · rw [altDigits, if_pos altered, if_neg (by omega), if_neg less]
      · obtain ⟨count, some⟩ := Nat.exists_eq_succ_of_ne_zero
          (show (precision - (rev.length : Int)).toNat ≠ 0 by omega)
        rw [← digits, coreDigits, both, List.length_reverse, zeroes, some]
        simp [List.replicate_succ]
      · constructor
        · intro negative
          omega
        · intro absurd
          exact (absurd.2 ⟨octal.1, octal.2, positive⟩).elim
  · have plain : (alt && decide (base = 8)) = false := by
      rw [← Bool.not_eq_true]
      simpa using octal
    refine ⟨rev, precision, ?_, ⟨?_, ?_, short, Int.le_max_left _ _⟩⟩
    · rw [altDigits, if_neg fun altered => octal ⟨altered.1, altered.2.1⟩]
    · rw [← digits, coreDigits, plain, List.length_reverse, zeroes]
      simp
    · constructor
      · intro negative
        exact ⟨negative, fun altered => octal ⟨altered.1, altered.2.1⟩⟩
      · exact And.left

end Core

section Integers

/-- Whether `write_integer` fills the width with zeroes. -/
def zeroFills (flags : PrintfFlags) (base mag : Nat) : Bool :=
  flags.zeroPad && flags.precision < 0 && !(flags.alt && base = 8 && mag ≠ 0)

/-- The flags as `fmt_vsprintf` reads them: the width is not negative, the precision is -1 when
there is none. -/
structure PrintfFlags.Read (flags : PrintfFlags) : Prop where
  widthLow : 0 ≤ flags.width
  widthHigh : flags.width < 2 ^ 31
  precisionLow : -1 ≤ flags.precision
  precisionHigh : flags.precision < 2 ^ 31

variable {flags : PrintfFlags} {mag base : Nat} {negative upper : Bool} {spec : Char}

theorem excess_eq {length other : Int} (room : length - other < 2 ^ 31) :
    excess length other = .ok ((length - other).toNat : Int) := by
  unfold excess
  split
  · rw [int_ok (by omega) room]
    exact congrArg Except.ok (by omega)
  · exact congrArg Except.ok (by omega)

/-- The front and the core of a number. -/
def frontOf (flags : PrintfFlags) (negative : Bool) (base mag : Nat) (spec : Char) : List Char :=
  signOf negative flags ++ prefixOf flags.alt base mag spec

def coreOf (flags : PrintfFlags) (base mag : Nat) (upper : Bool) : List Char :=
  coreDigits (flags.alt && base = 8) (precisionOf flags.precision) (numeral base upper mag)

theorem altDigits_altered (read : flags.Read) (atLeast : 2 ≤ base) (atMost : base ≤ 36)
    (small : mag < 2 ^ 64) :
    ∃ rev precision', altDigits flags.alt base (startDigits flags.precision mag base upper)
        flags.precision = .ok (rev, precision') ∧
      Altered flags.alt base mag upper flags.precision rev precision' := by
  by_cases zero : mag = 0
  · subst zero
    exact altDigits_zero read.precisionLow
  · exact altDigits_pos read.precisionLow zero atLeast atMost small

theorem length_prefixOf {alt : Bool} : (prefixOf alt base mag spec).length ≤ 2 := by
  unfold prefixOf
  split <;> simp

theorem length_signOf : (signOf negative flags).length ≤ 1 := by
  unfold signOf
  split
  · exact Nat.le_refl 1
  split
  · exact Nat.le_refl 1
  split
  · exact Nat.le_refl 1
  · exact Nat.zero_le 1

/-- The flag `0` fills the width exactly. -/
theorem zeroFill_eq (read : flags.Read) {precision : Int} {zeroes total : Nat} {filled : Bool}
    (fills : filled = true ↔ precision < 0 ∧ flags.zeroPad = true ∧ flags.leftAdj = false)
    (room : zeroes ≤ total) :
    zeroFill flags precision zeroes total =
      .ok (((if filled then zeroes + (flags.width.toNat - total) else zeroes : Nat) : Int),
        ((if filled then max flags.width.toNat total else total : Nat) : Int)) := by
  have widthLow := read.widthLow
  have widthHigh := read.widthHigh
  unfold zeroFill
  by_cases wide : flags.width > total
  · by_cases filled : filled = true
    · obtain ⟨negative, zeroPad, notLeft⟩ := fills.mp filled
      rw [if_pos ⟨negative, zeroPad, by simp [notLeft], wide⟩, if_pos filled, if_pos filled,
        int_ok (by omega) (by omega), ok_bind, int_ok (by omega) (by omega), ok_bind]
      exact congrArg Except.ok (Prod.ext (by dsimp only; omega) (by dsimp only; omega))
    · rw [if_neg filled, if_neg filled, if_neg]
      rintro ⟨negative, zeroPad, notLeft, -⟩
      exact filled (fills.mpr ⟨negative, zeroPad, by simpa using notLeft⟩)
  · rw [if_neg fun both => wide both.2.2.2]
    split
    · exact congrArg Except.ok (Prod.ext (by dsimp only; omega) (by dsimp only; omega))
    · rfl

theorem layInteger_eq (read : flags.Read) (atLeast : 2 ≤ base) (atMost : base ≤ 36)
    (small : mag < 2 ^ 64) :
    ∃ zeroes rev, List.replicate zeroes '0' ++ rev.reverse = coreOf flags base mag upper ∧
      layInteger mag negative flags base upper spec =
        if (frontOf flags negative base mag spec).length + (coreOf flags base mag upper).length ≤
            intMax then
          let fill := flags.width.toNat -
            ((frontOf flags negative base mag spec).length + (coreOf flags base mag upper).length)
          let filled := zeroFills flags base mag && !flags.leftAdj
          .ok
            { padLen := if filled then 0 else fill
              sign := signOf negative flags
              prefixed := prefixOf flags.alt base mag spec
              zeroes := if filled then zeroes + fill else zeroes
              rev }
        else .error .overflow := by
  obtain ⟨rev, precision', altered, ⟨core, open_iff, short, bound⟩⟩ :=
    @altDigits_altered flags mag base upper read atLeast atMost small
  refine ⟨(precision' - rev.length).toNat, rev, core, ?_⟩
  have prefixShort := @length_prefixOf mag base spec flags.alt
  have signShort := @length_signOf flags negative
  have length : (coreOf flags base mag upper).length =
      (precision' - rev.length).toNat + rev.length := by
    rw [coreOf, ← core, List.length_append, List.length_replicate, List.length_reverse]
  have front : (frontOf flags negative base mag spec).length =
      (signOf negative flags).length + (prefixOf flags.alt base mag spec).length :=
    List.length_append
  have widthLow := read.widthLow
  have widthHigh := read.widthHigh
  have precisionHigh := read.precisionHigh
  unfold layInteger
  change (altDigits flags.alt base (startDigits flags.precision mag base upper) flags.precision >>=
    _) = _
  rw [altered]
  simp only [ok_bind]
  change (excess precision' rev.length >>= fun zeroes => int (rev.length + zeroes) >>= fun sum =>
    int (sum + (prefixOf flags.alt base mag spec).length) >>= fun sum =>
      int (sum + (signOf negative flags).length) >>= _) = _
  have filled : (zeroFills flags base mag && !flags.leftAdj) = true ↔
      precision' < 0 ∧ flags.zeroPad = true ∧ flags.leftAdj = false := by
    rw [open_iff, zeroFills]
    simp only [Bool.and_eq_true, Bool.not_eq_true', decide_eq_true_eq, ← Bool.not_eq_true]
    tauto
  generalize (zeroFills flags base mag && !flags.leftAdj) = fills at filled
  have coreRoom : (precision' - rev.length).toNat + rev.length < 2 ^ 31 := by omega
  rw [excess_eq (by omega), ok_bind, length, front]
  generalize (precision' - rev.length).toNat = zeroes at *
  rw [int_ok (by omega) (by omega), ok_bind]
  generalize prefixOf flags.alt base mag spec = prefixed at *
  generalize signOf negative flags = sign at *
  unfold intMax
  obtain ⟨total, sum⟩ : ∃ total, total = sign.length + prefixed.length + (zeroes + rev.length) :=
    ⟨_, rfl⟩
  have sum' : (rev.length : Int) + zeroes + prefixed.length + sign.length = total := by omega
  rw [← sum]
  by_cases fits : total ≤ 2 ^ 31 - 1
  · rw [if_pos fits, int_ok (by omega) (by omega), ok_bind, sum', int_ok (by omega) (by omega),
      ok_bind, zeroFill_eq read filled (show zeroes ≤ total by omega), ok_bind,
      excess_eq (by dsimp only; omega), ok_bind]
    cases fills with
    | false =>
        have fill : (flags.width - (total : Int)).toNat = flags.width.toNat - total := by omega
        simp [fill]
    | true =>
        have sumNat : ((zeroes : Int) + ((flags.width.toNat - total : Nat) : Int)).toNat =
            zeroes + (flags.width.toNat - total) := by omega
        simp [sumNat]
  · rw [if_neg fits]
    by_cases second : (rev.length : Int) + zeroes + prefixed.length < 2 ^ 31
    · rw [int_ok (by omega) second, ok_bind, int_overflow (by omega)]
      rfl
    · rw [int_overflow (Int.not_lt.mp second)]
      rfl

/-- What `write_integer` writes: the number in its field, or an overflow of its length. -/
theorem integerText_eq (read : flags.Read) (atLeast : 2 ≤ base) (atMost : base ≤ 36)
    (small : mag < 2 ^ 64) :
    integerText mag negative flags base upper spec =
      if (frontOf flags negative base mag spec).length + (coreOf flags base mag upper).length ≤
          intMax then
        .ok (place flags.leftAdj (zeroFills flags base mag) flags.width.toNat
          (frontOf flags negative base mag spec) (coreOf flags base mag upper))
      else .error .overflow := by
  obtain ⟨zeroes, rev, core, laid⟩ :=
    @layInteger_eq flags mag base negative upper spec read atLeast atMost small
  unfold integerText
  rw [laid]
  split
  · refine congrArg Except.ok ?_
    have front : frontOf flags negative base mag spec =
        signOf negative flags ++ prefixOf flags.alt base mag spec := rfl
    simp only [padded, place, Laid.body, front, ← core]
    cases flags.leftAdj with
    | true => simp
    | false =>
        cases zeroFills flags base mag with
        | false => simp
        | true =>
            have zeros (fill : Nat) : List.replicate (zeroes + fill) '0' =
                List.replicate fill '0' ++ List.replicate zeroes '0' := by
              rw [List.replicate_append_replicate, Nat.add_comm]
            simp [zeros]
            rw [← List.append_assoc, List.replicate_append_replicate]
  · rfl

end Integers

end Opal.Libkc
