import Opal.Libkc.Layout

/-!
# Reading a directive

A round of the formatter moves on in the format and in the arguments, and leaves flags that
are in range.  The only operation of the reading that leaves the range of `int` is the
negation of a width argument.
-/

namespace Opal.Libkc

section Cursor

theorem peek_ne_nul {cursor : List Char} (visible : peek cursor ≠ nul) :
    cursor.tail.length < cursor.length := by
  cases cursor with
  | nil => exact absurd rfl visible
  | cons ch rest => exact Nat.lt_succ_self _

theorem length_tail_le (cursor : List Char) : cursor.tail.length ≤ cursor.length := by
  rw [List.length_tail]
  exact Nat.sub_le _ _

end Cursor

section Reading

/-- A missing or mistyped argument is no overflow. -/
def BadArgument (stop : Stop) : Prop := stop = .argument

variable {cursor : List Char} {args : List Arg} {flags : PrintfFlags}

theorem vaInt_ensures : Ensures BadArgument
    (fun found : BitVec 32 × List Arg => args = .int found.1 :: found.2) (vaInt args) := by
  unfold vaInt
  split
  · rfl
  · rfl

theorem vaLong_ensures : Ensures BadArgument
    (fun found : BitVec 64 × List Arg => args = .long found.1 :: found.2) (vaLong args) := by
  unfold vaLong
  split
  · rfl
  · rfl

theorem vaPointer_ensures : Ensures BadArgument
    (fun found : BitVec 64 × List Arg => args = .pointer found.1 :: found.2) (vaPointer args) := by
  unfold vaPointer
  split
  · rfl
  · rfl

theorem vaString_ensures : Ensures BadArgument
    (fun found : Option (List Char) × List Arg => args = .string found.1 :: found.2)
      (vaString args) := by
  unfold vaString
  split
  · rfl
  · rfl

theorem readFlags_spec (flags : PrintfFlags) (cursor : List Char) :
    (readFlags flags cursor).2.length ≤ cursor.length ∧
      (readFlags flags cursor).1.width = flags.width ∧
      (readFlags flags cursor).1.precision = flags.precision := by
  induction cursor generalizing flags with
  | nil => exact ⟨Nat.le_refl _, rfl, rfl⟩
  | cons ch rest inductionHypothesis =>
      unfold readFlags
      have onward (changed : PrintfFlags) (width : changed.width = flags.width)
          (precision : changed.precision = flags.precision) :
          (readFlags changed rest).2.length ≤ (ch :: rest).length ∧
            (readFlags changed rest).1.width = flags.width ∧
            (readFlags changed rest).1.precision = flags.precision := by
        obtain ⟨shorter, sameWidth, samePrecision⟩ := inductionHypothesis changed
        exact ⟨Nat.le_succ_of_le shorter, sameWidth.trans width, samePrecision.trans precision⟩
      split
      · exact onward _ rfl rfl
      split
      · exact onward _ rfl rfl
      split
      · exact onward _ rfl rfl
      split
      · exact onward _ rfl rfl
      split
      · exact onward _ rfl rfl
      · exact ⟨Nat.le_refl _, rfl, rfl⟩

theorem isDigit_value {ch : Char} (digit : isDigit ch = true) :
    0 ≤ (ch.toNat : Int) - '0'.toNat ∧ (ch.toNat : Int) - '0'.toNat ≤ 9 := by
  unfold isDigit at digit
  simp only [Bool.and_eq_true, decide_eq_true_eq, Char.le_def, UInt32.le_iff_toNat_le] at digit
  have zero : '0'.val.toNat = 48 := rfl
  have nine : '9'.val.toNat = 57 := rfl
  have zero' : '0'.toNat = 48 := rfl
  have value : ch.toNat = ch.val.toNat := rfl
  omega

/-- A number of an `int` that is not negative. -/
def InInt (value : Int) : Prop := 0 ≤ value ∧ value < 2 ^ 31

/-- The digits are read without overflow. -/
theorem readDigits_ensures {value : Int} (within : InInt value) : Ensures BadArgument
    (fun found : Option Int × List Char => found.2.length ≤ cursor.length ∧
      ∀ value, found.1 = some value → InInt value) (readDigits value cursor) := by
  induction cursor generalizing value with
  | nil =>
      refine ⟨Nat.le_refl _, ?_⟩
      rintro _ ⟨⟩
      exact within
  | cons ch rest inductionHypothesis =>
      rw [readDigits]
      by_cases digit : isDigit ch = true
      · obtain ⟨low, high⟩ := isDigit_value digit
        obtain ⟨lower, upper⟩ := within
        rw [if_pos digit]
        dsimp only
        generalize (ch.toNat : Int) - '0'.toNat = digit at low high
        rw [int_ok (by simp [intMax]; omega) (by simp [intMax]; omega), ok_bind]
        split
        · exact ⟨Nat.le_refl _, fun _ some => by cases some⟩
        · rename_i room
          have scaled : value * 10 ≤ intMax - digit := by omega
          unfold intMax at scaled
          rw [int_ok (by omega) (by omega), ok_bind, int_ok (by omega) (by omega), ok_bind]
          have rest := @inductionHypothesis (value * 10 + digit) ⟨by omega, by omega⟩
          exact rest.mono fun found spec => ⟨Nat.le_succ_of_le spec.1, spec.2⟩
      · rw [if_neg digit]
        refine ⟨Nat.le_refl _, ?_⟩
        rintro _ ⟨⟩
        exact within

theorem getWidthOrPrecision_ensures : Ensures BadArgument
    (fun found : Option Int × List Char × List Arg => found.2.1.length ≤ cursor.length ∧
      found.2.2 <:+ args ∧ ∀ value, found.1 = some value →
        InInt value ∨ peek cursor = '*' ∧ ∃ given, args = .int given :: found.2.2 ∧
          value = given.toInt) (getWidthOrPrecision cursor args) := by
  unfold getWidthOrPrecision
  split
  · rename_i star
    refine vaInt_ensures.bind ?_
    rintro ⟨given, rest⟩ rfl
    refine ⟨length_tail_le cursor, List.suffix_cons _ _, ?_⟩
    rintro _ ⟨⟩
    exact Or.inr ⟨star, given, rfl, rfl⟩
  · refine (readDigits_ensures ⟨Int.le_refl 0, by decide⟩).bind ?_
    rintro ⟨value, after⟩ ⟨shorter, within⟩
    cases value with
    | none => exact ⟨Nat.le_refl _, List.suffix_refl _, fun _ some => by cases some⟩
    | some value =>
        refine ⟨shorter, List.suffix_refl _, ?_⟩
        rintro _ ⟨⟩
        exact Or.inl (within value rfl)

/-- A width that is taken from the least `int`. -/
def LeastWidth (cursor : List Char) (args : List Arg) : Prop :=
  peek cursor = '*' ∧ ∃ given rest, args = .int given :: rest ∧ given.toInt = -2 ^ 31

/-- The least `int` has no negation. -/
theorem readWidth_overflow (least : LeastWidth cursor args) :
    readWidth flags cursor args = .error .overflow := by
  obtain ⟨star, given, rest, rfl, value⟩ := least
  rw [readWidth, if_pos (Or.inl star), getWidthOrPrecision, if_pos star]
  simp only [vaInt, ok_bind, value]
  rfl

theorem readWidth_ensures (moderate : ¬LeastWidth cursor args) (before : InInt flags.width) :
    Ensures BadArgument (fun found : Option PrintfFlags × List Char × List Arg =>
      found.2.1.length ≤ cursor.length ∧ found.2.2 <:+ args ∧ ∀ flags', found.1 = some flags' →
        InInt flags'.width ∧ flags'.precision = flags.precision) (readWidth flags cursor args) := by
  unfold readWidth
  split
  · refine getWidthOrPrecision_ensures.bind ?_
    rintro ⟨value, after, rest⟩ ⟨shorter, suffix, range⟩
    cases value with
    | none => exact ⟨shorter, suffix, fun _ some => by cases some⟩
    | some width =>
        dsimp only
        split
        · rename_i negative
          rcases range width rfl with within | ⟨star, given, same, rfl⟩
          · exact absurd within.1 (Int.not_le.mpr negative)
          · have least : given.toInt ≠ -2 ^ 31 := fun least =>
              moderate ⟨star, given, rest, same, least⟩
            have lower : -2 ^ 31 ≤ given.toInt := BitVec.le_toInt given
            have opposite : InInt (-given.toInt) := ⟨by omega, by omega⟩
            rw [int_ok (by omega) opposite.2, ok_bind]
            refine ⟨shorter, suffix, ?_⟩
            rintro _ ⟨⟩
            exact ⟨opposite, rfl⟩
        · rename_i positive
          refine ⟨shorter, suffix, ?_⟩
          rintro _ ⟨⟩
          refine ⟨⟨Int.not_lt.mp positive, ?_⟩, rfl⟩
          rcases range width rfl with within | ⟨_, given, _, rfl⟩
          · exact within.2
          · exact BitVec.toInt_lt
  · refine ⟨Nat.le_refl _, List.suffix_refl _, ?_⟩
    rintro _ ⟨⟩
    exact ⟨before, rfl⟩

theorem readPrecision_ensures (width : InInt flags.width) (precision : flags.precision = -1) :
    Ensures BadArgument (fun found : Option PrintfFlags × List Char × List Arg =>
      found.2.1.length ≤ cursor.length ∧ found.2.2 <:+ args ∧ ∀ flags', found.1 = some flags' →
        flags'.Read) (readPrecision flags cursor args) := by
  unfold readPrecision
  split
  · refine getWidthOrPrecision_ensures.bind ?_
    rintro ⟨value, after, rest⟩ ⟨shorter, suffix, range⟩
    have shorter := Nat.le_trans shorter (length_tail_le cursor)
    cases value with
    | none => exact ⟨shorter, suffix, fun _ some => by cases some⟩
    | some precision =>
        have high : precision < 2 ^ 31 := by
          rcases range precision rfl with within | ⟨_, given, _, rfl⟩
          · exact within.2
          · exact BitVec.toInt_lt
        refine ⟨shorter, suffix, ?_⟩
        rintro _ ⟨⟩
        refine ⟨width.1, width.2, ?_, ?_⟩
        · dsimp only
          split <;> omega
        · dsimp only
          split <;> omega
  · refine ⟨Nat.le_refl _, List.suffix_refl _, ?_⟩
    rintro _ ⟨⟩
    exact ⟨width.1, width.2, by omega, by omega⟩

theorem readLength_le (cursor : List Char) : (readLength cursor).2.length ≤ cursor.length := by
  have one := length_tail_le cursor
  have two := Nat.le_trans (length_tail_le cursor.tail) one
  unfold readLength
  split
  · split
    · exact two
    · exact one
  split
  · split
    · exact two
    · exact one
  split
  · exact one
  split
  · exact one
  split
  · exact one
  split
  · exact one
  · exact Nat.le_refl _

/-- A directive that leaves less than `bound` characters of the format and a rest of the
arguments, with flags in range. -/
def Directive.Within (bound : Nat) (args : List Arg) : Directive → Prop
  | .done => True
  | .literal _ rest => rest.length < bound
  | .invalid rest args' => rest.length < bound ∧ args' <:+ args
  | .conversion flags _ _ rest args' => rest.length < bound ∧ args' <:+ args ∧ flags.Read

/-- A directive whose width is taken from the least `int`. -/
def StarOverflows (cursor : List Char) (args : List Arg) : Prop :=
  peek cursor = '%' ∧ peek cursor.tail ≠ '%' ∧
    LeastWidth (readFlags .initial cursor.tail).2 args

theorem readConversion_ensures (moderate : ¬LeastWidth (readFlags .initial cursor).2 args) :
    Ensures BadArgument (Directive.Within (cursor.length + 1) args)
      (readConversion cursor args) := by
  obtain ⟨shorter, width, precision⟩ := readFlags_spec .initial cursor
  have before : InInt (readFlags .initial cursor).1.width := by
    rw [width]
    exact ⟨by decide, by decide⟩
  unfold readConversion
  refine (readWidth_ensures moderate before).bind ?_
  rintro ⟨flags, after, rest⟩ ⟨shorter₁, suffix₁, read⟩
  cases flags with
  | none => exact ⟨by simp at shorter₁ ⊢; omega, suffix₁⟩
  | some flags =>
      obtain ⟨width', precision'⟩ := read flags rfl
      refine (readPrecision_ensures width' (precision'.trans precision)).bind ?_
      rintro ⟨flags, after', rest'⟩ ⟨shorter₂, suffix₂, read⟩
      have suffix := suffix₂.trans suffix₁
      cases flags with
      | none => exact ⟨by simp at shorter₁ shorter₂ ⊢; omega, suffix⟩
      | some flags =>
          have shorter₃ := readLength_le after'
          have shorter₄ := length_tail_le (readLength after').2
          dsimp only
          split
          · exact trivial
          · exact ⟨by simp at shorter₁ shorter₂ shorter₃ shorter₄ ⊢; omega, suffix, read flags rfl⟩

/-- A round that does not negate the least `int` moves on. -/
theorem readDirective_ensures (moderate : ¬StarOverflows cursor args) :
    Ensures BadArgument (Directive.Within cursor.length args) (readDirective cursor args) := by
  unfold readDirective
  split
  · exact trivial
  · rename_i visible
    have shorter := peek_ne_nul visible
    split
    · exact shorter
    · rename_i percent
      split
      · exact Nat.lt_of_le_of_lt (length_tail_le cursor.tail) shorter
      · rename_i single
        have least : ¬LeastWidth (readFlags .initial cursor.tail).2 args := fun least =>
          moderate ⟨Decidable.not_not.mp percent, single, least⟩
        have length : cursor.tail.length + 1 = cursor.length := by
          rw [List.length_tail] at shorter ⊢
          omega
        rw [← length]
        exact readConversion_ensures least

theorem readDirective_overflow (overflows : StarOverflows cursor args) :
    readDirective cursor args = .error .overflow := by
  obtain ⟨percent, single, least⟩ := overflows
  unfold readDirective
  rw [if_neg (by rw [percent]; decide), if_neg (by simp [percent]), if_neg single]
  have stops := @readWidth_overflow _ _ (readFlags .initial cursor.tail).1 least
  unfold readConversion
  dsimp only
  rw [stops]
  rfl

end Reading

end Opal.Libkc
