import Opal.Libkc.Conformance
import Opal.Libkc.Strtoul

/-!
# Reading what was formatted

The formats `%lu`, `%#lx` and `%#lo` print an `unsigned long` with a prefix that tells its
base.  `kstrtoul` finds the base and the value in the text.
-/

namespace Opal.Libkc

section Numerals

variable {base value : Nat} {upper : Bool}

theorem digitValue_digitChar {digit : Nat} (small : digit < 36) :
    digitValue (digitChar upper digit) = digit := by
  revert upper
  interval_cases digit <;> decide

theorem isDigitOf_digitChar {digit : Nat} (small : digit < base) (atMost : base ≤ 36) :
    isDigitOf base (digitChar upper digit) = true := by
  rw [isDigitOf, digitValue_digitChar (by omega), Bool.and_eq_true, decide_eq_true_eq,
    decide_eq_true_eq]
  omega

/-- The digits of a numeral are digits of its base. -/
theorem isDigitOf_numeral (atLeast : 2 ≤ base) (atMost : base ≤ 36) :
    ∀ ch ∈ numeral base upper value, isDigitOf base ch = true := by
  intro ch member
  rw [numeral, List.mem_reverse, List.mem_map] at member
  obtain ⟨digit, member, rfl⟩ := member
  exact isDigitOf_digitChar (Nat.digits_lt_base atLeast member) atMost

/-- A numeral has the value it was made of. -/
theorem runValue_numeral (atLeast : 2 ≤ base) (atMost : base ≤ 36) :
    runValue base (numeral base upper value) = value := by
  have reversed (digits : List Nat) (small : ∀ digit ∈ digits, digit < base) :
      runValue base (digits.map (digitChar upper)).reverse = Nat.ofDigits base digits := by
    induction digits with
    | nil => rfl
    | cons digit digits inductionHypothesis =>
        have below := small digit List.mem_cons_self
        rw [List.map_cons, List.reverse_cons, runValue_concat,
          inductionHypothesis fun digit member => small digit (List.mem_cons_of_mem _ member),
          Nat.ofDigits_cons, digitValue_digitChar (by omega), Int.toNat_natCast, Nat.mul_comm,
          Nat.add_comm]
  rw [numeral, reversed _ fun digit member => Nat.digits_lt_base atLeast member,
    Nat.ofDigits_digits]

theorem runValue_zero (run : List Char) : runValue base ('0' :: run) = runValue base run := by
  have zero : (digitValue '0').toNat = 0 := rfl
  rw [runValue, List.foldl_cons, zero, Nat.zero_mul]
  rfl

end Numerals

section Reading

variable {s run : List Char} {base : Nat}

theorem digit_plain {ch : Char} (isDigit : isDigitOf base ch = true) :
    isSpace ch = false ∧ ch ≠ '+' ∧ ch ≠ '-' ∧ ch ≠ nul := by
  refine ⟨?_, ?_, ?_, ?_⟩
  · unfold isSpace
    simp only [Bool.or_eq_false_iff, decide_eq_false_iff_not]
    refine ⟨⟨⟨⟨⟨?_, ?_⟩, ?_⟩, ?_⟩, ?_⟩, ?_⟩ <;> rintro rfl <;> cases isDigit
  · rintro rfl
    cases isDigit
  · rintro rfl
    cases isDigit
  · rintro rfl
    cases isDigit

theorem unsigned_of_digit {ch : Char} {rest : List Char} (isDigit : isDigitOf base ch = true) :
    unspaced (ch :: rest) = ch :: rest ∧ unsigned (ch :: rest) = ch :: rest := by
  obtain ⟨visible, notPlus, -⟩ := digit_plain isDigit
  have same : unspaced (ch :: rest) = ch :: rest := by
    rw [unspaced, List.dropWhile_cons_of_neg (by rw [visible]; decide)]
  refine ⟨same, ?_⟩
  rw [unsigned, same, if_neg]
  exact notPlus

/-- A string that is a run of digits behind what tells the base is read to its end. -/
theorem kstrtoul_of_run (notMinus : peek (unspaced s) ≠ '-') (digits : unprefixed 0 s = run)
    (all : ∀ ch ∈ run, isDigitOf (baseOf 0 s) ch = true) (nonempty : run ≠ [])
    (fits : runValue (baseOf 0 s) run ≤ ulongMax) :
    kstrtoul (some s) 0 true =
      { err := .ok, endptr := some [], result := some (runValue (baseOf 0 s) run) } := by
  have reads := @kstrtoul_reads 0 (Or.inl rfl) s
  have whole : runOf 0 s = run := by
    rw [runOf, digits]
    exact List.takeWhile_eq_self_iff.mpr all
  have behind : behindRun 0 s = [] := by
    rw [behindRun, digits]
    exact List.dropWhile_eq_nil_iff.mpr all
  have ok := reads.ok.mpr ⟨notMinus, by rwa [whole], by rwa [whole]⟩
  have result := reads.result ok
  have endptr := reads.endptr (Or.inl ok)
  rw [whole] at result
  rw [behind] at endptr
  change (kstrtoul (some s) ((0 : Nat) : Int) true) = _
  generalize kstrtoul (some s) ((0 : Nat) : Int) true = parsed at *
  obtain ⟨err, endptr', result'⟩ := parsed
  dsimp only at ok result endptr
  rw [ok, result, endptr]

variable {value : Nat} {upper : Bool} {ch : Char} {rest : List Char}

theorem kstrtoul_decimal (positive : value ≠ 0) (bounded : value ≤ ulongMax) :
    kstrtoul (some (numeral 10 upper value)) 0 true =
      { err := .ok, endptr := some [], result := some value } := by
  have all := @isDigitOf_numeral 10 value upper (by decide) (by decide)
  have same := @runValue_numeral 10 value upper (by decide) (by decide)
  have head := @numeral_head 10 value upper (by decide) (by decide)
  have nonempty := @numeral_ne_nil 10 value upper positive
  generalize numeral 10 upper value = s at *
  cases s with
  | nil => exact absurd rfl nonempty
  | cons ch rest =>
      have isDigit := all ch List.mem_cons_self
      have notZero : peek (ch :: rest) ≠ '0' := fun zero => head (congrArg some zero)
      obtain ⟨same', bare⟩ := @unsigned_of_digit 10 ch rest isDigit
      have plain : hexPrefixed (unsigned (ch :: rest)) = false := by
        rw [bare, hexPrefixed, decide_eq_false notZero]
        rfl
      have ten : baseOf 0 (ch :: rest) = 10 := by
        rw [baseOf, if_pos rfl, plain, if_neg (by decide), bare, if_neg notZero]
      have digits : unprefixed 0 (ch :: rest) = ch :: rest := by
        rw [unprefixed, plain, if_neg (by decide), bare]
      have notMinus : peek (unspaced (ch :: rest)) ≠ '-' := by
        rw [same']
        exact (digit_plain isDigit).2.2.1
      have read := kstrtoul_of_run notMinus digits (by rwa [ten]) nonempty
        (by rwa [ten, same])
      rwa [ten, same] at read

theorem kstrtoul_hexadecimal (positive : value ≠ 0) (bounded : value ≤ ulongMax) :
    kstrtoul (some ('0' :: 'x' :: numeral 16 upper value)) 0 true =
      { err := .ok, endptr := some [], result := some value } := by
  have all := @isDigitOf_numeral 16 value upper (by decide) (by decide)
  have same := @runValue_numeral 16 value upper (by decide) (by decide)
  have nonempty := @numeral_ne_nil 16 value upper positive
  generalize numeral 16 upper value = run at *
  obtain ⟨same', bare⟩ := @unsigned_of_digit 10 '0' ('x' :: run) rfl
  have marked : hexPrefixed (unsigned ('0' :: 'x' :: run)) = true := by
    rw [bare]
    cases run with
    | nil => exact absurd rfl nonempty
    | cons ch rest => exact all ch List.mem_cons_self
  have sixteen : baseOf 0 ('0' :: 'x' :: run) = 16 := by
    rw [baseOf, if_pos rfl, if_pos marked]
  have digits : unprefixed 0 ('0' :: 'x' :: run) = run := by
    rw [unprefixed, if_pos ⟨Or.inl rfl, marked⟩, bare]
    rfl
  have notMinus : peek (unspaced ('0' :: 'x' :: run)) ≠ '-' := by
    rw [same']
    exact (by decide : '0' ≠ '-')
  have read := kstrtoul_of_run notMinus digits (by rwa [sixteen]) nonempty
    (by rwa [sixteen, same])
  rwa [sixteen, same] at read

theorem kstrtoul_octal (positive : value ≠ 0) (bounded : value ≤ ulongMax) :
    kstrtoul (some ('0' :: numeral 8 upper value)) 0 true =
      { err := .ok, endptr := some [], result := some value } := by
  have all := @isDigitOf_numeral 8 value upper (by decide) (by decide)
  have same := @runValue_numeral 8 value upper (by decide) (by decide)
  have nonempty := @numeral_ne_nil 8 value upper positive
  generalize numeral 8 upper value = run at *
  obtain ⟨same', bare⟩ := @unsigned_of_digit 10 '0' run rfl
  have plain : hexPrefixed (unsigned ('0' :: run)) = false := by
    rw [bare]
    cases run with
    | nil => exact absurd rfl nonempty
    | cons ch rest =>
        have isDigit := all ch List.mem_cons_self
        have notX : ch ≠ 'x' ∧ ch ≠ 'X' := by
          constructor
          · rintro rfl
            cases isDigit
          · rintro rfl
            cases isDigit
        simp [hexPrefixed, peek, notX.1, notX.2]
  have zero : peek ('0' :: run) = '0' := rfl
  have eight : baseOf 0 ('0' :: run) = 8 := by
    rw [baseOf, if_pos rfl, plain, if_neg (by decide), bare, if_pos zero]
  have digits : unprefixed 0 ('0' :: run) = '0' :: run := by
    rw [unprefixed, plain, if_neg (by decide), bare]
  have notMinus : peek (unspaced ('0' :: run)) ≠ '-' := by
    rw [same']
    exact (by decide : '0' ≠ '-')
  have allZero : ∀ ch ∈ '0' :: run, isDigitOf (baseOf 0 ('0' :: run)) ch = true := by
    rw [eight]
    exact List.forall_mem_cons.mpr ⟨rfl, all⟩
  have read := kstrtoul_of_run notMinus digits allZero (List.cons_ne_nil _ _)
    (by rwa [eight, runValue_zero, same])
  rwa [eight, runValue_zero, same] at read

end Reading

section Formats

/-- A conversion of an `unsigned long` without width and precision. -/
def plainConversion (flags : List Flag) (spec : IntegerSpec) (value : BitVec 64) : Conversion :=
  { flags
    width := .none
    precision := .none
    len := .l
    integer := by decide
    spec
    value }

/-- A string in a buffer. -/
structure HoldsString (buffer : Buffer) (text : List Char) : Prop where
  chars : ∀ i < text.length, buffer i = text.getD i nul
  ended : buffer text.length = nul
  visible : nul ∉ text

/-- The formatter puts the text into every buffer that has room for it, and `kstrtoul` reads
the value back. -/
def ReadsBack (format : List Char) (value : BitVec 64) : Prop :=
  ∃ text, (∀ (buffer : Buffer) (n : Nat), text.length < n → n ≤ intMax →
      ∃ after, kvsnprintf (some buffer) n (some format) [.long value] =
        .ok ((text.length : Int), some after) ∧ HoldsString after text) ∧
    kstrtoul (some text) 0 true =
      { err := .ok, endptr := some [], result := some value.toNat }

theorem showsAll_of_expansion {format text : List Char} {args : List Arg}
    (split : expansion format args = (text, .finished)) (room : text.length ≤ intMax) :
    ShowsAll format args text := by
  refine ⟨room, fun sink fmt shows => ?_⟩
  have prints := fmtLoop_prints (format.length + 1) format args shows (Nat.zero_le intMax)
  change Prints _ _ (expansion format args) _ at prints
  rw [split] at prints
  exact prints.of_finished room

variable {flags : List Flag} {spec : IntegerSpec} {value : BitVec 64}

/-- A conversion that conforms and whose text is read back. -/
theorem readsBack_of_conforms (short : (plainConversion flags spec value).text.length ≤ intMax)
    (conforms : (plainConversion flags spec value).Conforms)
    (visible : nul ∉ (plainConversion flags spec value).text)
    (read : kstrtoul (some (plainConversion flags spec value).text) 0 true =
      { err := .ok, endptr := some [], result := some value.toNat }) :
    ReadsBack (plainConversion flags spec value).format value := by
  have produced := (Conversion.produces_iff_written short).mpr
    ((Conversion.written_iff_conforms short).mpr conforms)
  have all := showsAll_of_expansion (produces_iff.mp produced).1 short
  refine ⟨_, fun buffer n room bounded => ?_, read⟩
  obtain ⟨after, ran, truncates⟩ := all.truncates (Nat.zero_lt_of_lt room) bounded buffer
  refine ⟨after, ran, ?_⟩
  have whole := Nat.min_eq_right (Nat.le_sub_one_of_lt room)
  refine ⟨fun i lower => truncates.written i (by rwa [whole]), ?_, visible⟩
  have ended := truncates.terminated
  rwa [whole] at ended

theorem mag_plainConversion (unsigned : (plainConversion flags spec value).signed = false) :
    (plainConversion flags spec value).mag = value.toNat := by
  rw [Conversion.mag, unsigned, if_neg (by decide)]
  exact congrArg BitVec.toNat (BitVec.setWidth_eq value)

/-- Without a width there is no padding. -/
theorem text_plainConversion (left : Flag.minus ∉ flags) (zero : Flag.zero ∉ flags) :
    (plainConversion flags spec value).text =
      (plainConversion flags spec value).front ++ (plainConversion flags spec value).core := by
  have leftAdj : (plainConversion flags spec value).leftAdj = false := by
    simp [Conversion.leftAdj, plainConversion, left]
  have zeroPad : (plainConversion flags spec value).zeroPad = false := by
    simp [Conversion.zeroPad, plainConversion, zero]
  have width : (plainConversion flags spec value).fieldWidth = 0 := rfl
  rw [Conversion.text, leftAdj, zeroPad, width, place, if_neg (by decide), if_neg (by decide),
    Nat.zero_sub]
  rfl

/-- Without a precision the digits of a number stand alone, unless `#` asks for a zero. -/
theorem coreDigits_none {octal : Bool} {base mag : Nat} {upper : Bool} (positive : mag ≠ 0)
    (atLeast : 2 ≤ base) (atMost : base ≤ 36) :
    coreDigits octal none (numeral base upper mag) =
      if octal then '0' :: numeral base upper mag else numeral base upper mag := by
  have nonempty := List.length_pos_of_ne_nil (@numeral_ne_nil base mag upper positive)
  have none : (Option.none : Option Nat).getD 1 - (numeral base upper mag).length = 0 := by
    simp only [Option.getD_none]
    omega
  have head := @numeral_head base mag upper atLeast atMost
  rw [coreDigits, none]
  simp [head]

theorem visible_numeral {base mag : Nat} {upper : Bool} (atLeast : 2 ≤ base) (atMost : base ≤ 36) :
    nul ∉ numeral base upper mag := fun member =>
  (digit_plain (isDigitOf_numeral atLeast atMost nul member)).2.2.2 rfl

theorem toNat_le_ulongMax (value : BitVec 64) : value.toNat ≤ ulongMax :=
  Nat.le_sub_one_of_lt value.isLt

/-- What the three formats print of a number that is not zero. -/
theorem readsBack_of_text {text : List Char} (prefixed : List Char) {base : Nat}
    (shape : text = prefixed ++ numeral base false value.toNat) (atLeast : 2 ≤ base)
    (atMost : base ≤ 36) (short : prefixed.length ≤ 2) (plain : nul ∉ prefixed)
    (same : (plainConversion flags spec value).text = text)
    (conforms : (plainConversion flags spec value).Conforms)
    (read : kstrtoul (some text) 0 true =
      { err := .ok, endptr := some [], result := some value.toNat }) :
    ReadsBack (plainConversion flags spec value).format value := by
  have digits := @length_numeral_le base value.toNat false atLeast value.isLt
  refine readsBack_of_conforms ?_ conforms ?_ (by rwa [same])
  · rw [same, shape, List.length_append]
    unfold intMax
    omega
  · rw [same, shape, List.mem_append, not_or]
    exact ⟨plain, visible_numeral atLeast atMost⟩

theorem conforms_plainConversion (plus : Flag.plus ∉ flags) (space : Flag.space ∉ flags)
    (zero : Flag.zero ∉ flags) : (plainConversion flags spec value).Conforms := by
  have stray : (plainConversion flags spec value).straySign = false := by
    simp [Conversion.straySign, plainConversion, plus, space]
  have zeroPad : (plainConversion flags spec value).zeroPad = false := by
    simp [Conversion.zeroPad, plainConversion, zero]
  rw [Conversion.Conforms, stray, if_neg (by decide), zeroPad]
  intro padded
  cases padded

theorem readsBack_decimal (value : BitVec 64) : ReadsBack "%lu".toList value := by
  have conforms := @conforms_plainConversion [] .u value (by decide) (by decide) (by decide)
  by_cases zero : value = 0
  · subst zero
    exact readsBack_of_conforms (by decide) conforms (by decide) (by decide)
  · have positive : value.toNat ≠ 0 := fun none => zero (BitVec.eq_of_toNat_eq none)
    have front : (plainConversion [] .u value).front = [] := rfl
    have core : (plainConversion [] .u value).core =
        coreDigits false none (numeral 10 false value.toNat) := by
      rw [Conversion.core, mag_plainConversion rfl]
      rfl
    have text : (plainConversion [] .u value).text = numeral 10 false value.toNat := by
      rw [text_plainConversion (by decide) (by decide), front, core,
        coreDigits_none positive (by decide) (by decide)]
      rfl
    exact @readsBack_of_text [] .u value _ [] 10 rfl (by decide) (by decide) (by decide) (by decide)
      text conforms (kstrtoul_decimal positive (toNat_le_ulongMax value))

theorem readsBack_hexadecimal (value : BitVec 64) : ReadsBack "%#lx".toList value := by
  have conforms := @conforms_plainConversion [.hash] .x value (by decide) (by decide) (by decide)
  by_cases zero : value = 0
  · subst zero
    exact readsBack_of_conforms (by decide) conforms (by decide) (by decide)
  · have positive : value.toNat ≠ 0 := fun none => zero (BitVec.eq_of_toNat_eq none)
    have front : (plainConversion [.hash] .x value).front = ['0', 'x'] := by
      rw [Conversion.front, mag_plainConversion rfl]
      exact if_pos ⟨rfl, rfl, positive⟩
    have core : (plainConversion [.hash] .x value).core =
        coreDigits false none (numeral 16 false value.toNat) := by
      rw [Conversion.core, mag_plainConversion rfl]
      rfl
    have text : (plainConversion [.hash] .x value).text =
        '0' :: 'x' :: numeral 16 false value.toNat := by
      rw [text_plainConversion (by decide) (by decide), front, core,
        coreDigits_none positive (by decide) (by decide)]
      rfl
    exact @readsBack_of_text [.hash] .x value _ ['0', 'x'] 16 rfl (by decide) (by decide)
      (by decide) (by decide) text conforms
      (kstrtoul_hexadecimal positive (toNat_le_ulongMax value))

theorem readsBack_octal (value : BitVec 64) : ReadsBack "%#lo".toList value := by
  have conforms := @conforms_plainConversion [.hash] .o value (by decide) (by decide) (by decide)
  by_cases zero : value = 0
  · subst zero
    exact readsBack_of_conforms (by decide) conforms (by decide) (by decide)
  · have positive : value.toNat ≠ 0 := fun none => zero (BitVec.eq_of_toNat_eq none)
    have front : (plainConversion [.hash] .o value).front = [] := rfl
    have core : (plainConversion [.hash] .o value).core =
        coreDigits true none (numeral 8 false value.toNat) := by
      rw [Conversion.core, mag_plainConversion rfl]
      rfl
    have text : (plainConversion [.hash] .o value).text =
        '0' :: numeral 8 false value.toNat := by
      rw [text_plainConversion (by decide) (by decide), front, core,
        coreDigits_none positive (by decide) (by decide)]
      rfl
    exact @readsBack_of_text [.hash] .o value _ ['0'] 8 rfl (by decide) (by decide) (by decide)
      (by decide) text conforms (kstrtoul_octal positive (toNat_le_ulongMax value))

/-- `kstrtoul` reads the numeral of every string in every base, and inverts the formatter.  The
last three conjuncts say what the white space, the digits and the prefix of a numeral are. -/
theorem kstrtoul_reads_and_inverts :
    (∀ (base : Nat) (s : List Char), base = 0 ∨ 2 ≤ base ∧ base ≤ 36 →
      ReadsNumeral base s (kstrtoul (some s) base true)) ∧
    (∀ format ∈ ["%lu".toList, "%#lx".toList, "%#lo".toList], ∀ value : BitVec 64,
      ReadsBack format value) ∧
    (∀ ch, isSpace ch = true ↔ ch ∈ whiteSpace) ∧
    (∀ ch, digitValue ch =
      if ch.toLower ∈ digitChars then (digitChars.idxOf ch.toLower : Int) else -1) ∧
    ∀ s, hexPrefixed s = true ↔ ∃ x ch rest,
      s = '0' :: x :: ch :: rest ∧ (x = 'x' ∨ x = 'X') ∧ isDigitOf 16 ch = true := by
  refine ⟨fun base s valid => kstrtoul_reads valid s, fun format member value => ?_, isSpace_iff,
    digitValue_eq, fun s => hexPrefixed_iff⟩
  simp only [List.mem_cons, List.not_mem_nil, or_false] at member
  rcases member with rfl | rfl | rfl
  · exact readsBack_decimal value
  · exact readsBack_hexadecimal value
  · exact readsBack_octal value

end Formats

end Opal.Libkc
