import Opal.Libkc.Conversions

/-!
# Integer conversions and the C standard

The formatter lays a number out like the standard, with two exceptions: it writes a sign in
front of an unsigned number, and it drops the flag `0` for a negative precision argument
and for an octal number with `#`.  Both may leave the text unchanged; `Conforms` says when.
-/

namespace Opal.Libkc

section Place

variable {left zero : Bool} {width : Nat} {front core : List Char}

theorem length_place : (place left zero width front core).length =
    max width (front.length + core.length) := by
  unfold place
  cases left <;> cases zero <;> simp <;> omega

/-- Blanks in a field are those of its parts and the padding. -/
theorem count_place : (place left zero width front core).count ' ' =
    front.count ' ' + core.count ' ' +
      (if left || !zero then width - (front.length + core.length) else 0) := by
  unfold place
  cases left <;> cases zero <;> simp [List.count_append, List.count_replicate] <;> omega

/-- The flag `0` matters where there is something to fill on the left. -/
theorem place_zero_iff : place left false width front core = place left true width front core ↔
    left = true ∨ width ≤ front.length + core.length := by
  constructor
  · intro same
    have counts := congrArg (List.count ' ') same
    rw [count_place, count_place] at counts
    cases left with
    | true => exact Or.inl rfl
    | false =>
        right
        simp at counts
        omega
  · intro harmless
    cases left with
    | true => rfl
    | false =>
        have none : width - (front.length + core.length) = 0 := by
          simp at harmless
          omega
        simp [place, none]

/-- Neither a blank nor a plus sign. -/
def Plain (text : List Char) : Prop := ' ' ∉ text ∧ '+' ∉ text

theorem place_plus_ne {zero' : Bool} (plain : Plain (front ++ core)) :
    place left zero' width ('+' :: front) core ≠ place left zero width front core := by
  intro same
  have member : '+' ∈ place left zero' width ('+' :: front) core := by
    unfold place
    cases left <;> cases zero' <;> simp
  rw [same] at member
  have absent := plain.2
  unfold place at member
  cases left <;> cases zero <;> simp at member absent <;> tauto

/-- A stray blank at the left end is seen, unless there is nothing behind it. -/
theorem place_blank_left {zero' : Bool} (plain : Plain (front ++ core))
    (room : front.length + core.length < width) :
    place true zero' width (' ' :: front) core = place true zero width front core ↔
      front.length + core.length = 0 := by
  constructor
  · intro same
    cases text : front ++ core with
    | nil =>
        rw [← List.length_append, text]
        rfl
    | cons ch rest =>
        unfold place at same
        rw [if_pos rfl, if_pos rfl, List.cons_append, text] at same
        have head : ' ' = ch := (List.cons.inj same).1
        exact absurd (by rw [text, ← head]; exact List.mem_cons_self) plain.1
  · intro empty
    obtain ⟨frontEmpty, coreEmpty⟩ := Nat.add_eq_zero_iff.mp empty
    rw [List.eq_nil_of_length_eq_zero frontEmpty, List.eq_nil_of_length_eq_zero coreEmpty]
    obtain ⟨more, rfl⟩ := Nat.exists_eq_succ_of_ne_zero (Nat.ne_of_gt (Nat.zero_lt_of_lt room))
    simp [place, List.replicate_succ]

/-- A stray blank on the right of blank padding is one of its blanks. -/
theorem place_blank_right {zero' : Bool} (plain : Plain (front ++ core))
    (weaker : zero' = true → zero = true) (room : front.length + core.length < width) :
    place false zero' width (' ' :: front) core = place false zero width front core ↔
      zero = false := by
  have noBlank : front.count ' ' = 0 ∧ core.count ' ' = 0 := by
    have absent := plain.1
    rw [List.mem_append, not_or] at absent
    exact ⟨List.count_eq_zero.mpr absent.1, List.count_eq_zero.mpr absent.2⟩
  constructor
  · intro same
    have counts := congrArg (List.count ' ') same
    rw [count_place, count_place, noBlank.1, noBlank.2] at counts
    cases zero with
    | false => rfl
    | true => simp [noBlank] at counts
  · rintro rfl
    have plainPad : zero' = false := by
      cases zero' with
      | false => rfl
      | true => exact absurd (weaker rfl) (by decide)
    obtain ⟨more, fill⟩ : ∃ more, width - (front.length + core.length) = more + 1 :=
      ⟨width - (front.length + core.length) - 1, by omega⟩
    have fill' : width - ((' ' :: front).length + core.length) = more := by
      rw [List.length_cons]
      omega
    simp only [place, plainPad, fill, fill', Bool.false_eq_true, if_false]
    rw [List.replicate_succ', List.append_assoc, List.append_assoc, List.append_assoc]
    rfl

/-- A stray blank disappears in blank padding. -/
theorem place_blank_iff {zero' : Bool} (plain : Plain (front ++ core))
    (weaker : zero' = true → zero = true) :
    place left zero' width (' ' :: front) core = place left zero width front core ↔
      front.length + core.length < width ∧
        (if left then front.length + core.length = 0 else zero = false) := by
  by_cases room : front.length + core.length < width
  · cases left with
    | true => simp [place_blank_left plain room, room]
    | false => simp [place_blank_right plain weaker room, room]
  · constructor
    · intro same
      have lengths := congrArg List.length same
      rw [length_place, length_place, List.length_cons] at lengths
      omega
    · intro given
      exact absurd given.1 room

end Place

section Runs

variable {format text : List Char} {args rest : List Arg} {flags : PrintfFlags}
  {len : LengthModifier} {spec : Char}

/-- A run with these arguments returns the length of the text and sends the text. -/
def Produces (format : List Char) (args : List Arg) (text : List Char) : Prop :=
  ∃ fmt, fmtVsprintf acceptAll (some format) args = .ok ((text.length : Int), fmt) ∧
    fmt.sent = text

/-- A run produces the expansion, if that is complete and can be counted. -/
theorem produces_iff : Produces format args text ↔
    expansion format args = (text, .finished) ∧ text.length ≤ intMax := by
  constructor
  · rintro ⟨fmt, ran, sent⟩
    rcases loop_cases format args with ⟨text', split, all⟩ | breaks | ⟨stop, stops⟩
    · obtain ⟨fmt', shown, ran'⟩ :=
        all.fmtVsprintf accepting (Nat.zero_le _) acceptAll_shows
      have found := Except.ok.inj (ran.symm.trans ran')
      have same : text' = text := by
        rw [← sent, ← shown.2.2.2.2]
        exact (congrArg (fun run : Int × Fmt => run.2.sent) found).symm
      rw [← same]
      exact ⟨split, all.1⟩
    · obtain ⟨fmt', ran', -⟩ := breaks accepting acceptAll acceptAll_shows
      rw [fmtVsprintf_of_loop (Nat.zero_le _) ran'] at ran
      have result : (-1 : Int) = text.length := congrArg Prod.fst (Except.ok.inj ran)
      omega
    · have ended := stops accepting acceptAll acceptAll_shows
      have small : ¬intMax < acceptAll.size := Nat.not_lt_zero _
      rw [fmtVsprintf, if_neg small] at ran
      simp only [ended] at ran
      cases ran
  · rintro ⟨split, room⟩
    have prints :=
      fmtLoop_prints (format.length + 1) format args acceptAll_shows (Nat.zero_le intMax)
    change Prints _ _ (expansion format args) _ at prints
    rw [split] at prints
    obtain ⟨fmt, ran, shows⟩ := prints.of_finished room
    have returned := @fmtVsprintf_of_loop format args _ _ _ (Nat.zero_le intMax) ran
    rw [if_pos rfl, shows.2.1, toInt_count room] at returned
    exact ⟨_, returned, shows.2.2.2.2⟩

/-- A format that is one conversion expands to its text. -/
theorem expansion_single (nonempty : format ≠ [])
    (read : readDirective format args = .ok (.conversion flags len spec [] rest)) :
    expansion format args =
      match conversionText flags len spec rest with
      | .error stop => ([], .stopped stop)
      | .ok (none, _) => ([], .failed)
      | .ok (some text, _) => (text, .finished) := by
  obtain ⟨rounds, length⟩ :=
    Nat.exists_eq_succ_of_ne_zero (Nat.ne_of_gt (List.length_pos_of_ne_nil nonempty))
  rw [expansion, length, expand, read]
  have last (args : List Arg) : expand (rounds + 1) [] args = ([], .finished) := rfl
  dsimp only
  rcases conversionText flags len spec rest with stop | ⟨_ | text, args⟩
  · rfl
  · rfl
  · simp only [last, prepend, List.append_nil]

end Runs

namespace Conversion

variable {conversion : Conversion}

section Values

theorem bits_le : conversion.bits ≤ 64 := by
  unfold bits
  cases conversion.len <;> decide

/-- Promoting a value to `int` and converting it back keeps it. -/
theorem setWidth_int {bits : Nat} (narrow : bits ≤ 32) :
    (conversion.value.setWidth 32).setWidth bits = conversion.value.setWidth bits :=
  BitVec.setWidth_setWidth_of_le _ narrow

theorem readSignedArg_eq : readSignedArg [conversion.arg] conversion.len =
    .ok (conversion.signedValue, []) := by
  unfold arg signedValue bits
  cases given : conversion.len with
  | hh => exact congrArg Except.ok (Prod.ext (by rw [setWidth_int (by decide)]) rfl)
  | h => exact congrArg Except.ok (Prod.ext (by rw [setWidth_int (by decide)]) rfl)
  | none => rfl
  | capL => exact absurd given conversion.integer
  | l | ll | j | z | t =>
      exact congrArg Except.ok (Prod.ext (by rw [BitVec.setWidth_eq]) rfl)

theorem readUnsignedArg_eq : readUnsignedArg [conversion.arg] conversion.len =
    .ok (conversion.unsignedValue, []) := by
  unfold arg unsignedValue bits
  cases given : conversion.len with
  | hh => exact congrArg Except.ok (Prod.ext (by rw [setWidth_int (by decide)]) rfl)
  | h => exact congrArg Except.ok (Prod.ext (by rw [setWidth_int (by decide)]) rfl)
  | none => rfl
  | capL => exact absurd given conversion.integer
  | l | ll | j | z | t =>
      exact congrArg Except.ok (Prod.ext (by rw [BitVec.setWidth_eq]) rfl)

theorem magnitude_eq (value : Int) : magnitude value = value.natAbs := by
  unfold magnitude
  split <;> omega

theorem natAbs_toInt_lt {width : Nat} (value : BitVec width) :
    value.toInt.natAbs < 2 ^ width := by
  have bound := value.isLt
  have power : ((2 ^ width : Nat) : Int) = 2 ^ width := by simp
  rw [BitVec.toInt_eq_toNat_cond]
  split <;> omega

theorem mag_lt : conversion.mag < 2 ^ 64 := by
  have narrow : 2 ^ conversion.bits ≤ 2 ^ 64 := Nat.pow_le_pow_right (by decide) bits_le
  unfold mag
  split
  · exact Nat.lt_of_lt_of_le (natAbs_toInt_lt _) narrow
  · exact Nat.lt_of_lt_of_le (BitVec.isLt _) narrow

/-- The number the formatter lays out for the conversion. -/
def number (conversion : Conversion) : Number :=
  { mag := conversion.mag
    negative := conversion.negative
    flags := conversion.printfFlags
    base := conversion.base
    upper := conversion.upper
    spec := conversion.spec.char }

theorem readNumber_eq :
    readNumber conversion.printfFlags conversion.len conversion.spec.char [conversion.arg] =
      some (.ok (conversion.number, [])) := by
  unfold number readNumber mag negative base upper signed
  cases conversion.spec with
  | d | i =>
      change some (readSignedArg [conversion.arg] conversion.len >>= _) = _
      rw [readSignedArg_eq, ok_bind]
      dsimp only
      rw [magnitude_eq]
      rfl
  | u | o | x | capX =>
      change some (readUnsignedArg [conversion.arg] conversion.len >>= _) = _
      rw [readUnsignedArg_eq, ok_bind]
      rfl

/-- The formatter writes the magnitude in the base of the specifier. -/
theorem conversionText_eq :
    conversionText conversion.printfFlags conversion.len conversion.spec.char [conversion.arg] =
      (integerText conversion.mag conversion.negative conversion.printfFlags conversion.base
        conversion.upper conversion.spec.char >>= fun text => .ok (some text, [])) := by
  rw [conversionText, readNumber_eq]
  rfl

end Values

section Comparison

/-- The length of the number without padding. -/
def unpadded (conversion : Conversion) : Nat := conversion.front.length + conversion.core.length

/-- The formatter puts a sign in front of an unsigned number. -/
def straySign (conversion : Conversion) : Bool :=
  !conversion.signed &&
    (decide (Flag.plus ∈ conversion.flags) || decide (Flag.space ∈ conversion.flags))

/-- The formatter forgets the flag `0`. -/
def lostZero (conversion : Conversion) : Bool :=
  decide (conversion.precision ≠ .none) ||
    (conversion.alt && conversion.base = 8 && conversion.mag ≠ 0)

/-- A stray sign is a blank that falls into blank padding, and a flag `0` that is lost had
nothing to fill. -/
def Conforms (conversion : Conversion) : Prop :=
  if conversion.straySign then
    Flag.plus ∉ conversion.flags ∧ conversion.unpadded < conversion.fieldWidth ∧
      if conversion.leftAdj then conversion.unpadded = 0 else conversion.zeroPad = false
  else
    conversion.zeroPad = true → conversion.lostZero = true →
      conversion.leftAdj = true ∨ conversion.fieldWidth ≤ conversion.unpadded

instance (conversion : Conversion) : Decidable conversion.Conforms := by
  unfold Conforms
  infer_instance

theorem fieldWidth_le : conversion.fieldWidth ≤ conversion.text.length := by
  rw [text, length_place]
  exact Nat.le_max_left _ _

theorem unpadded_le : conversion.unpadded ≤ conversion.text.length := by
  rw [text, length_place]
  exact Nat.le_max_right _ _

theorem le_length_coreDigits {octal : Bool} {precision : Option Nat} {digits : List Char} :
    precision.getD 0 ≤ (coreDigits octal precision digits).length := by
  have larger : precision.getD 0 ≤ precision.getD 1 := by
    cases precision with
    | none => exact Nat.zero_le 1
    | some precision => exact Nat.le_refl precision
  unfold coreDigits
  dsimp only
  split <;> simp <;> omega

theorem precision_le : conversion.precisionValue.getD 0 ≤ conversion.text.length :=
  Nat.le_trans le_length_coreDigits (Nat.le_trans (Nat.le_add_left _ _) unpadded_le)

theorem base_facts : 2 ≤ conversion.base ∧ conversion.base ≤ 36 := by
  unfold base
  cases conversion.spec <;> decide

theorem printfFlags_read (fits : conversion.text.length ≤ intMax) :
    conversion.printfFlags.Read := by
  have width := Nat.le_trans fieldWidth_le fits
  have precision := Nat.le_trans precision_le fits
  unfold intMax at width precision
  refine ⟨Int.natCast_nonneg _, ?_, ?_, ?_⟩
  · change (conversion.fieldWidth : Int) < _
    omega
  · unfold printfFlags
    dsimp only
    split <;> omega
  · unfold printfFlags
    dsimp only
    split
    · decide
    · rename_i value given
      rw [given] at precision
      simp at precision
      omega

theorem precisionOf_printfFlags :
    precisionOf conversion.printfFlags.precision = conversion.precisionValue := by
  unfold precisionOf printfFlags
  dsimp only
  cases conversion.precisionValue with
  | none => rfl
  | some value => simp

theorem coreOf_printfFlags : coreOf conversion.printfFlags conversion.base conversion.mag
    conversion.upper = conversion.core := by
  rw [coreOf, precisionOf_printfFlags]
  rfl

theorem frontOf_printfFlags : frontOf conversion.printfFlags conversion.negative conversion.base
    conversion.mag conversion.spec.char =
      (if conversion.straySign then
        if Flag.plus ∈ conversion.flags then ['+'] else [' '] else []) ++ conversion.front := by
  have sign : signOf conversion.negative conversion.printfFlags =
      (if conversion.straySign then
        if Flag.plus ∈ conversion.flags then ['+'] else [' '] else []) ++ conversion.sign := by
    unfold signOf straySign Conversion.sign negative
    cases conversion.signed with
    | true => simp [printfFlags]
    | false =>
        by_cases plus : Flag.plus ∈ conversion.flags
        · simp [printfFlags, plus]
        · by_cases space : Flag.space ∈ conversion.flags
          · simp [printfFlags, plus, space]
          · simp [printfFlags, plus, space]
  rw [frontOf, sign, List.append_assoc]
  rfl

theorem zeroFills_printfFlags : zeroFills conversion.printfFlags conversion.base conversion.mag =
    (conversion.zeroPad && !conversion.lostZero) := by
  have negative : decide (conversion.printfFlags.precision < 0) =
      conversion.precisionValue.isNone := by
    unfold printfFlags
    dsimp only
    cases conversion.precisionValue with
    | none => rfl
    | some value => simp
  unfold zeroFills
  rw [negative]
  simp only [printfFlags, zeroPad, lostZero, Bool.not_or, Bool.and_assoc]
  cases decide (Flag.zero ∈ conversion.flags) with
  | false => rfl
  | true =>
      cases conversion.precisionValue.isNone with
      | false => simp
      | true => simp

theorem digitChar_plain {upper : Bool} {digit : Nat} (small : digit < 36) :
    digitChar upper digit ≠ ' ' ∧ digitChar upper digit ≠ '+' := by
  revert upper
  interval_cases digit <;> decide

theorem numeral_plain {base value : Nat} {upper : Bool} (atLeast : 2 ≤ base) (atMost : base ≤ 36) :
    Plain (numeral base upper value) := by
  have each (ch : Char) (member : ch ∈ numeral base upper value) : ch ≠ ' ' ∧ ch ≠ '+' := by
    rw [numeral, List.mem_reverse, List.mem_map] at member
    obtain ⟨digit, digits, rfl⟩ := member
    exact digitChar_plain (Nat.lt_of_lt_of_le (Nat.digits_lt_base atLeast digits) atMost)
  exact ⟨fun member => (each _ member).1 rfl, fun member => (each _ member).2 rfl⟩

theorem coreDigits_plain {octal : Bool} {precision : Option Nat} {digits : List Char}
    (plain : Plain digits) : Plain (coreDigits octal precision digits) := by
  unfold Plain coreDigits at *
  dsimp only
  split <;> simp [plain.1, plain.2]

theorem plain_front_core (unsigned : conversion.signed = false) :
    Plain (conversion.front ++ conversion.core) := by
  have core : Plain conversion.core :=
    coreDigits_plain (numeral_plain base_facts.1 base_facts.2)
  have front : Plain conversion.front := by
    unfold front sign negative prefixOf
    rw [unsigned]
    simp only [Bool.false_and, Bool.false_eq_true, if_false, List.nil_append]
    split
    · split <;> exact ⟨by decide, by decide⟩
    · exact ⟨by simp, by simp⟩
  exact ⟨fun member => (List.mem_append.mp member).elim front.1 core.1,
    fun member => (List.mem_append.mp member).elim front.2 core.2⟩

/-- The text of the formatter when no sign is added. -/
theorem integerText_of_signed (fits : conversion.text.length ≤ intMax)
    (own : conversion.straySign = false) :
    integerText conversion.mag conversion.negative conversion.printfFlags conversion.base
        conversion.upper conversion.spec.char = .ok conversion.text ↔ conversion.Conforms := by
  have room : conversion.front.length + conversion.core.length ≤ intMax :=
    Nat.le_trans unpadded_le fits
  rw [integerText_eq (printfFlags_read fits) base_facts.1 base_facts.2 mag_lt,
    frontOf_printfFlags, coreOf_printfFlags, zeroFills_printfFlags, own]
  simp only [Bool.false_eq_true, if_false, List.nil_append]
  rw [if_pos room, Conforms, own, Except.ok.injEq]
  change place conversion.leftAdj _ conversion.fieldWidth _ _ = _ ↔ _
  unfold text
  cases zeroPad : conversion.zeroPad with
  | false => simp
  | true =>
      cases lost : conversion.lostZero with
      | false => simp
      | true => simp [place_zero_iff, unpadded]

/-- The text of the formatter when a sign is added to an unsigned number. -/
theorem integerText_of_stray (fits : conversion.text.length ≤ intMax)
    (stray : conversion.straySign = true) :
    integerText conversion.mag conversion.negative conversion.printfFlags conversion.base
        conversion.upper conversion.spec.char = .ok conversion.text ↔ conversion.Conforms := by
  have width : conversion.fieldWidth ≤ intMax := Nat.le_trans fieldWidth_le fits
  have unsigned : conversion.signed = false := by
    rw [straySign, Bool.and_eq_true, Bool.not_eq_true'] at stray
    exact stray.1
  have plain := plain_front_core unsigned
  rw [integerText_eq (printfFlags_read fits) base_facts.1 base_facts.2 mag_lt,
    frontOf_printfFlags, coreOf_printfFlags, zeroFills_printfFlags, Conforms, stray, if_pos rfl,
    if_pos rfl]
  by_cases plus : Flag.plus ∈ conversion.flags
  · rw [if_pos plus]
    refine iff_of_false ?_ fun conforms => conforms.1 plus
    split
    · intro same
      exact place_plus_ne plain (Except.ok.inj same)
    · intro same
      cases same
  · rw [if_neg plus]
    by_cases room : (([' '] : List Char) ++ conversion.front).length + conversion.core.length ≤
        intMax
    · rw [if_pos room, Except.ok.injEq]
      change place conversion.leftAdj _ conversion.fieldWidth (' ' :: conversion.front) _ = _ ↔ _
      rw [text, place_blank_iff plain fun kept => (Bool.and_eq_true _ _).mp kept |>.1]
      simp [plus, unpadded]
    · rw [if_neg room]
      rw [List.length_append, List.length_singleton] at room
      refine iff_of_false (fun same => by cases same) fun conforms => ?_
      have less : conversion.front.length + conversion.core.length < conversion.fieldWidth :=
        conforms.2.1
      omega

theorem produces_iff_written (fits : conversion.text.length ≤ intMax) :
    Produces conversion.format conversion.args conversion.text ↔
      integerText conversion.mag conversion.negative conversion.printfFlags conversion.base
        conversion.upper conversion.spec.char = .ok conversion.text := by
  have read := @readDirective_format conversion (Nat.le_trans fieldWidth_le fits)
    (Nat.le_trans precision_le fits)
  rw [produces_iff, expansion_single (by simp [format]) read, conversionText_eq]
  cases integerText conversion.mag conversion.negative conversion.printfFlags conversion.base
      conversion.upper conversion.spec.char with
  | error stop => simp [Bind.bind, Except.bind]
  | ok text => simp [fits, ok_bind]

theorem written_iff_conforms (fits : conversion.text.length ≤ intMax) :
    integerText conversion.mag conversion.negative conversion.printfFlags conversion.base
        conversion.upper conversion.spec.char = .ok conversion.text ↔ conversion.Conforms := by
  cases own : conversion.straySign with
  | false => exact integerText_of_signed fits own
  | true => exact integerText_of_stray fits own

/-- A conversion whose text fits an `int` is printed as the standard has it exactly when it
conforms. -/
theorem produces_text_iff (conversion : Conversion) (fits : conversion.text.length ≤ intMax) :
    Produces conversion.format conversion.args conversion.text ↔ conversion.Conforms :=
  (produces_iff_written fits).trans (written_iff_conforms fits)

/-- `%+08hhd` with 200, which is -56 as a `signed char`. -/
def signedExample : Conversion :=
  { flags := [.plus, .zero]
    width := .digits 7 []
    precision := .none
    len := .hh
    integer := by decide
    spec := .d
    value := 200 }

theorem produces_signedExample :
    Produces "%+08hhd".toList [.int 200] "-0000056".toList := by
  have text : signedExample.text = "-0000056".toList := by decide
  have fits : signedExample.text.length ≤ intMax := by rw [text]; decide
  have produced := (produces_text_iff signedExample fits).mpr (by decide)
  rw [text] at produced
  exact produced

/-- `%+u` with 5. -/
def strayExample : Conversion :=
  { flags := [.plus]
    width := .none
    precision := .none
    len := .none
    integer := by decide
    spec := .u
    value := 5 }

/-- `%08.*d` with a precision of -1 and 42. -/
def lostExample : Conversion :=
  { flags := [.zero]
    width := .digits 7 []
    precision := .star (-1)
    len := .none
    integer := by decide
    spec := .d
    value := 42 }

/-- The formatter prints `+5` for 5, and eight characters without zeroes for `00000042`. -/
theorem not_produces_text :
    ¬Produces "%+u".toList [.int 5] "5".toList ∧
      ¬Produces "%08.*d".toList [.int (-1), .int 42] "00000042".toList := by
  have stray : strayExample.text = "5".toList := by decide
  have lost : lostExample.text = "00000042".toList := by decide
  have strayFits : strayExample.text.length ≤ intMax := by rw [stray]; decide
  have lostFits : lostExample.text.length ≤ intMax := by rw [lost]; decide
  constructor
  · intro produced
    rw [← stray] at produced
    have written := (@produces_iff_written strayExample strayFits).mp produced
    exact absurd ((written_iff_conforms strayFits).mp written) (by decide)
  · intro produced
    rw [← lost] at produced
    have written := (@produces_iff_written lostExample lostFits).mp produced
    exact absurd ((written_iff_conforms lostFits).mp written) (by decide)

end Comparison

end Conversion

end Opal.Libkc
