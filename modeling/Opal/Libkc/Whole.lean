import Opal.Libkc.Conformance
import Opal.Libkc.Reading

/-!
# The expansion without bounds

The lengths of a conversion are summed up as `int`s before its first character is counted.
`wholeExpansion` is what a format expands to when lengths have no bound.  `AllFit` says which
formats and arguments keep every length in range; then the formatter expands to the same text,
as far as the count goes.
-/

namespace Opal.Libkc

section Whole

namespace Number

variable (number : Number)

def front : List Char :=
  frontOf number.flags number.negative number.base number.mag number.spec

def core : List Char := coreOf number.flags number.base number.mag number.upper

/-- The length of the number without padding. -/
def unpadded : Nat := number.front.length + number.core.length

/-- The number in its field, however long it is. -/
def text : List Char :=
  place number.flags.leftAdj (zeroFills number.flags number.base number.mag)
    number.flags.width.toNat number.front number.core

/-- A number as the cases of the `switch` pass it on. -/
structure Valid : Prop where
  read : number.flags.Read
  atLeast : 2 ≤ number.base
  atMost : number.base ≤ 36
  small : number.mag < 2 ^ 64

end Number

/-- A text in its field. -/
def field (flags : PrintfFlags) (text : List Char) : List Char :=
  padded flags.leftAdj (flags.width.toNat - text.length) text

/-- The characters of a string that a conversion shows. -/
def shownString (flags : PrintfFlags) (s : List Char) : List Char :=
  if flags.precision ≥ 0 then (s.take flags.precision.toNat).takeWhile (· ≠ nul)
  else s.takeWhile (· ≠ nul)

/-- What a conversion expands to, however long it is. -/
def wholeText (flags : PrintfFlags) (len : LengthModifier) (spec : Char) (args : List Arg) :
    Except Stop (Option (List Char) × List Arg) :=
  match readNumber flags len spec args with
  | some read => do
      let (number, args) ← read
      .ok (some number.text, args)
  | none =>
      if spec = 'c' then do
        let (value, args) ← vaInt args
        .ok (some (field flags [Char.ofNat (value.setWidth 8).toNat]), args)
      else if spec = 's' then do
        let (value, args) ← vaString args
        .ok (value.map fun s => field flags (shownString flags s), args)
      else if spec = 'n' then .ok (none, args)
      else .ok (some [], args)

def wholeExpand : Nat → List Char → List Arg → List Char × Ending
  | 0, _, _ => ([], .stopped .endless)
  | rounds + 1, cursor, args =>
      match readDirective cursor args with
      | .error stop => ([], .stopped stop)
      | .ok .done => ([], .finished)
      | .ok (.literal ch rest) => prepend [ch] (wholeExpand rounds rest args)
      | .ok (.invalid rest args) => wholeExpand rounds rest args
      | .ok (.conversion flags len spec rest args) =>
          match wholeText flags len spec args with
          | .error stop => ([], .stopped stop)
          | .ok (none, _) => ([], .failed)
          | .ok (some text, args) => prepend text (wholeExpand rounds rest args)

def wholeExpansion (format : List Char) (args : List Arg) : List Char × Ending :=
  wholeExpand (format.length + 1) format args

/-- A number or a string whose length without padding is an `int`. -/
def ConversionFits (flags : PrintfFlags) (len : LengthModifier) (spec : Char)
    (args : List Arg) : Prop :=
  match readNumber flags len spec args with
  | some (.ok (number, _)) => number.unpadded ≤ intMax
  | some (.error _) => True
  | none => spec = 's' → ∀ s, args.head? = some (.string (some s)) →
      (shownString flags s).length ≤ intMax

def DirectiveFits (cursor : List Char) (args : List Arg) : Prop :=
  ¬StarOverflows cursor args ∧ ∀ flags len spec rest args',
    readDirective cursor args = .ok (.conversion flags len spec rest args') →
      ConversionFits flags len spec args'

/-- The formatter gets to a place in the format behind a text. -/
inductive Reached (format : List Char) (args : List Arg) :
    List Char → List Char → List Arg → Prop where
  | start : Reached format args [] format args
  | literal {text cursor after : List Char} {rest : List Arg} {ch : Char}
      (reached : Reached format args text cursor rest)
      (read : readDirective cursor rest = .ok (.literal ch after)) :
      Reached format args (text ++ [ch]) after rest
  | invalid {text cursor after : List Char} {rest rest' : List Arg}
      (reached : Reached format args text cursor rest)
      (read : readDirective cursor rest = .ok (.invalid after rest')) :
      Reached format args text after rest'
  | conversion {text cursor after more : List Char} {rest rest' rest'' : List Arg}
      {flags : PrintfFlags} {len : LengthModifier} {spec : Char}
      (reached : Reached format args text cursor rest)
      (read : readDirective cursor rest = .ok (.conversion flags len spec after rest'))
      (converted : wholeText flags len spec rest' = .ok (some more, rest'')) :
      Reached format args (text ++ more) after rest''

/-- Every directive that is reached before the count is full fits. -/
def AllFit (format : List Char) (args : List Arg) : Prop :=
  ∀ text cursor rest, Reached format args text cursor rest → text.length ≤ intMax →
    DirectiveFits cursor rest

end Whole

section Conversions

variable {flags : PrintfFlags} {len : LengthModifier} {spec : Char} {args : List Arg}

theorem Number.Valid.numberText_eq {number : Number} (valid : number.Valid) :
    numberText number = if number.unpadded ≤ intMax then .ok number.text else .error .overflow :=
  integerText_eq valid.read valid.atLeast valid.atMost valid.small

theorem Number.unpadded_le (number : Number) : number.unpadded ≤ number.text.length := by
  rw [text, length_place]
  exact Nat.le_max_right _ _

theorem readSignedArg_ensures : Ensures BadArgument
    (fun found : Int × List Arg => magnitude found.1 < 2 ^ 64 ∧ found.2 <:+ args)
      (readSignedArg args len) := by
  have small {width : Nat} (narrow : width ≤ 64) (value : BitVec width) :
      magnitude value.toInt < 2 ^ 64 := by
    rw [Conversion.magnitude_eq]
    exact Nat.lt_of_lt_of_le (Conversion.natAbs_toInt_lt value)
      (Nat.pow_le_pow_right (by decide) narrow)
  have fromInt {width : Nat} (narrow : width ≤ 64) : Ensures BadArgument
      (fun found : Int × List Arg => magnitude found.1 < 2 ^ 64 ∧ found.2 <:+ args)
        (vaInt args >>= fun found => .ok ((found.1.setWidth width).toInt, found.2)) :=
    vaInt_ensures.bind fun found taken =>
      ⟨small narrow _, by rw [taken]; exact List.suffix_cons _ _⟩
  cases len with
  | hh => exact fromInt (by decide)
  | h => exact fromInt (by decide)
  | none | capL =>
      exact vaInt_ensures.bind fun found taken =>
        ⟨small (by decide) _, by rw [taken]; exact List.suffix_cons _ _⟩
  | l | ll | j | z | t =>
      exact vaLong_ensures.bind fun found taken =>
        ⟨small (by decide) _, by rw [taken]; exact List.suffix_cons _ _⟩

theorem readUnsignedArg_ensures : Ensures BadArgument
    (fun found : Nat × List Arg => found.1 < 2 ^ 64 ∧ found.2 <:+ args)
      (readUnsignedArg args len) := by
  have small {width : Nat} (narrow : width ≤ 64) (value : BitVec width) :
      value.toNat < 2 ^ 64 :=
    Nat.lt_of_lt_of_le value.isLt (Nat.pow_le_pow_right (by decide) narrow)
  cases len with
  | hh | h | none | capL =>
      exact vaInt_ensures.bind fun found taken =>
        ⟨small (by decide) _, by rw [taken]; exact List.suffix_cons _ _⟩
  | l | ll | j | z | t =>
      exact vaLong_ensures.bind fun found taken =>
        ⟨small (by decide) _, by rw [taken]; exact List.suffix_cons _ _⟩

theorem PrintfFlags.Read.pointer (read : flags.Read) : (pointerFlags flags).Read :=
  ⟨read.widthLow, read.widthHigh, read.precisionLow, read.precisionHigh⟩

theorem readNumber_ensures (read : flags.Read) {reading : Except Stop (Number × List Arg)}
    (number : readNumber flags len spec args = some reading) : Ensures BadArgument
      (fun found : Number × List Arg => found.1.Valid ∧ found.2 <:+ args) reading := by
  have valid {flags : PrintfFlags} (read : flags.Read) {mag : Nat} (negative upper : Bool)
      (spec : Char) (small : mag < 2 ^ 64) {base : Nat} (named : base ∈ [8, 10, 16]) :
      Number.Valid ⟨mag, negative, flags, base, upper, spec⟩ := by
    have between : 2 ≤ base ∧ base ≤ 36 := by
      simp only [List.mem_cons, List.not_mem_nil, or_false] at named
      omega
    exact ⟨read, between.1, between.2, small⟩
  unfold readNumber at number
  split at number
  · cases number
    exact readSignedArg_ensures.bind fun found given =>
      ⟨valid read _ _ _ given.1 (by decide), given.2⟩
  split at number
  · cases number
    exact readUnsignedArg_ensures.bind fun found given =>
      ⟨valid read _ _ _ given.1 (by decide), given.2⟩
  split at number
  · cases number
    exact readUnsignedArg_ensures.bind fun found given =>
      ⟨valid read _ _ _ given.1 (by decide), given.2⟩
  split at number
  · cases number
    exact readUnsignedArg_ensures.bind fun found given =>
      ⟨valid read _ _ _ given.1 (by decide), given.2⟩
  split at number
  · cases number
    exact vaPointer_ensures.bind fun found taken =>
      ⟨valid read.pointer _ _ _ found.1.isLt (by decide), by
        rw [taken]
        exact List.suffix_cons _ _⟩
  · cases number

theorem charText_eq (read : flags.Read) (ch : Char) :
    charText flags ch = .ok (field flags [ch]) := by
  have width := read.widthHigh
  have low := read.widthLow
  have pad : (flags.width - 1).toNat = flags.width.toNat - 1 := by omega
  rw [charText, excess_eq (by omega), ok_bind, Int.toNat_natCast, pad]
  rfl

theorem stringText_eq (read : flags.Read) {s : List Char}
    (short : (shownString flags s).length ≤ intMax) :
    stringText flags s = .ok (field flags (shownString flags s)) := by
  have width := read.widthHigh
  have low := read.widthLow
  have length : stringLength flags s = (shownString flags s).length ∧
      s.take (shownString flags s).length = shownString flags s := by
    unfold shownString at short ⊢
    unfold stringLength
    split
    · rename_i given
      rw [if_pos given] at short
      refine ⟨toInt_count short, ?_⟩
      refine ((List.prefix_iff_eq_take.mp ?_)).symm
      exact (List.takeWhile_prefix _).trans (List.take_prefix _ _)
    · rename_i missing
      rw [if_neg missing] at short
      exact ⟨toInt_count short, (List.prefix_iff_eq_take.mp (List.takeWhile_prefix _)).symm⟩
  have pad : (flags.width - (shownString flags s).length).toNat =
      flags.width.toNat - (shownString flags s).length := by omega
  rw [stringText, length.1, excess_eq (by omega), ok_bind, Int.toNat_natCast, Int.toNat_natCast,
    length.2, pad]
  rfl

/-- A conversion that fits expands to its whole text. -/
theorem conversionText_of_fits (read : flags.Read) (fits : ConversionFits flags len spec args) :
    conversionText flags len spec args = wholeText flags len spec args := by
  unfold ConversionFits at fits
  unfold conversionText wholeText
  cases reading : readNumber flags len spec args with
  | some reading' =>
      rw [reading] at fits
      cases reading' with
      | error stop => rfl
      | ok found =>
          obtain ⟨number, rest⟩ := found
          have valid := ((readNumber_ensures read reading).of_ok rfl).1
          simp only [ok_bind, valid.numberText_eq, if_pos fits]
  | none =>
      rw [reading] at fits
      dsimp only
      split
      · cases vaInt args with
        | error stop => rfl
        | ok found => simp only [ok_bind, charText_eq read]
      split
      · rename_i string
        cases taken : vaString args with
        | error stop => rfl
        | ok found =>
            obtain ⟨value, rest⟩ := found
            cases value with
            | none => rfl
            | some s =>
                have first : args.head? = some (.string (some s)) := by
                  rw [vaString_ensures.of_ok taken]
                  rfl
                simp only [ok_bind, stringText_eq read (fits string s first), Option.map_some]
      · rfl

/-- The strings among the arguments are shorter than the largest `int`. -/
def ShortStrings (args : List Arg) : Prop :=
  ∀ s, Arg.string (some s) ∈ args → s.length ≤ intMax

theorem length_shownString_le (s : List Char) : (shownString flags s).length ≤ s.length := by
  unfold shownString
  split
  · refine Nat.le_trans (List.takeWhile_prefix _).length_le ?_
    exact (List.take_prefix _ _).length_le
  · exact (List.takeWhile_prefix _).length_le

/-- The other numbers overflow, and their whole text is too long. -/
theorem conversionText_overflow (read : flags.Read) (short : ShortStrings args)
    (long : ¬ConversionFits flags len spec args) :
    conversionText flags len spec args = .error .overflow ∧
      ∃ text rest, wholeText flags len spec args = .ok (some text, rest) ∧
        intMax < text.length := by
  unfold ConversionFits at long
  unfold conversionText wholeText
  cases reading : readNumber flags len spec args with
  | some reading' =>
      rw [reading] at long
      cases reading' with
      | error stop => exact absurd trivial long
      | ok found =>
          obtain ⟨number, rest⟩ := found
          have valid := ((readNumber_ensures read reading).of_ok rfl).1
          refine ⟨?_, number.text, rest, rfl,
            Nat.lt_of_lt_of_le (Nat.lt_of_not_le long) number.unpadded_le⟩
          simp only [ok_bind, valid.numberText_eq, if_neg long]
          rfl
  | none =>
      rw [reading] at long
      refine absurd (fun _ s first => ?_) long
      exact Nat.le_trans (length_shownString_le s) (short s (List.mem_of_head? first))

theorem wholeText_ensures (read : flags.Read) : Ensures BadArgument
    (fun found : Option (List Char) × List Arg => found.2 <:+ args)
      (wholeText flags len spec args) := by
  unfold wholeText
  cases reading : readNumber flags len spec args with
  | some reading' => exact (readNumber_ensures read reading).bind fun found given => given.2
  | none =>
      dsimp only
      split
      · exact vaInt_ensures.bind fun found taken => by
          rw [taken]
          exact List.suffix_cons _ _
      split
      · exact vaString_ensures.bind fun found taken => by
          rw [taken]
          exact List.suffix_cons _ _
      split
      · exact List.suffix_refl _
      · exact List.suffix_refl _

end Conversions

section Agreement

variable {format : List Char} {args : List Arg} {text cursor : List Char} {rest : List Arg}

/-- Two ways to go on behind `length` characters that cannot be told apart by a count. -/
def Agree (length : Nat) (expansion whole : List Char × Ending) : Prop :=
  expansion = whole ∧ expansion.2 ≠ .stopped .overflow ∨
    intMax < length + expansion.1.length ∧ intMax < length + whole.1.length

theorem Agree.prepend {length : Nat} {expansion whole : List Char × Ending} (more : List Char)
    (agree : length + more.length ≤ intMax → Agree (length + more.length) expansion whole) :
    Agree length (prepend more expansion) (prepend more whole) := by
  unfold Libkc.prepend
  by_cases room : length + more.length ≤ intMax
  · rcases agree room with ⟨same, ended⟩ | ⟨long, wholeLong⟩
    · refine Or.inl ⟨?_, ended⟩
      rw [same]
    · refine Or.inr ⟨?_, ?_⟩
      · rw [List.length_append]
        omega
      · rw [List.length_append]
        omega
  · refine Or.inr ⟨?_, ?_⟩
    · rw [List.length_append]
      omega
    · rw [List.length_append]
      omega

/-- As long as everything fits, the formatter expands to the whole texts. -/
theorem AllFit.agree (fits : AllFit format args) (rounds : Nat)
    (reached : Reached format args text cursor rest) (room : text.length ≤ intMax) :
    Agree text.length (expand rounds cursor rest) (wholeExpand rounds cursor rest) := by
  induction rounds generalizing text cursor rest with
  | zero => exact Or.inl ⟨rfl, by simp [expand]⟩
  | succ rounds inductionHypothesis =>
      obtain ⟨moderate, converts⟩ := fits text cursor rest reached room
      have within := readDirective_ensures moderate
      rw [expand, wholeExpand]
      cases read : readDirective cursor rest with
      | error stop =>
          have argument : stop = .argument := within.of_error read
          exact Or.inl ⟨rfl, by simp [argument]⟩
      | ok directive =>
          cases directive with
          | done => exact Or.inl ⟨rfl, by simp⟩
          | literal ch after =>
              refine Agree.prepend [ch] fun room => ?_
              have next := inductionHypothesis (reached.literal read) (by simpa using room)
              simpa using next
          | invalid after rest' => exact inductionHypothesis (reached.invalid read) room
          | conversion flags len spec after rest' =>
              have flagsRead : flags.Read := (within.of_ok read).2.2
              dsimp only
              rw [conversionText_of_fits flagsRead (converts _ _ _ _ _ read)]
              cases converted : wholeText flags len spec rest' with
              | error stop =>
                  have argument : stop = .argument :=
                    (wholeText_ensures flagsRead).of_error converted
                  exact Or.inl ⟨rfl, by simp [argument]⟩
              | ok found =>
                  obtain ⟨more, rest''⟩ := found
                  cases more with
                  | none => exact Or.inl ⟨rfl, by simp⟩
                  | some more =>
                      refine Agree.prepend more fun room => ?_
                      have next := inductionHypothesis (reached.conversion read converted)
                        (by simpa using room)
                      simpa using next

end Agreement

end Opal.Libkc
