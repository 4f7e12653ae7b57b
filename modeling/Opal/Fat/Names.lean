import Mathlib.Data.List.DropRight

/-!
# Names of directory entries

A name on the disk has eight bytes for the base and three for the extension, filled up with
blanks.  `pack_filename` takes more than names of that form: it skips whatever stands behind
eight characters, a part may be empty, and `strchr` finds the terminator of the list of
special characters as well.
-/

namespace Opal.Fat

section Operations

/-- `VFS_MAX_NAME`. -/
def vfsMaxName : Nat := 65535

/-- `' '`. -/
def blank : UInt8 := 0x20

/-- `'.'`. -/
def dot : UInt8 := 0x2e

def isupper (ch : UInt8) : Bool := 0x41 ≤ ch && ch ≤ 0x5a

def islower (ch : UInt8) : Bool := 0x61 ≤ ch && ch ≤ 0x7a

def isdigit (ch : UInt8) : Bool := 0x30 ≤ ch && ch ≤ 0x39

def toupper (ch : UInt8) : UInt8 := if islower ch then ch - 0x61 + 0x41 else ch

/-- The characters of `special`. -/
def special : List UInt8 :=
  [0x21, 0x23, 0x24, 0x25, 0x26, 0x27, 0x28, 0x29, 0x2d, 0x40, 0x5e, 0x5f, 0x60, 0x7b, 0x7d, 0x7e]

/-- `strchr(s, ch)` finds something. -/
def strchr (s : List UInt8) (ch : UInt8) : Bool := s.contains ch || ch == 0

/-- What the two loops of `pack_filename` take. -/
def taken (ch : UInt8) : Bool := isupper ch || isdigit ch || strchr special ch

/-- A loop of `pack_filename`, which stops at a character and after a number of them; with
what it copied and the characters that are left. -/
def copyPart (stop : UInt8) : Nat → List UInt8 → Option (List UInt8 × List UInt8)
  | 0, rest => some ([], rest)
  | _ + 1, [] => some ([], [])
  | room + 1, ch :: rest =>
      if ch = stop then some ([], ch :: rest)
      else if taken ch then
        (copyPart stop room rest).map fun (part, rest) => (toupper ch :: part, rest)
      else none

/-- A part over the blanks that `memset` wrote. -/
def pad (size : Nat) (part : List UInt8) : List UInt8 :=
  part ++ List.replicate (size - part.length) blank

def packFilename (filename : List UInt8) : Option (List UInt8) :=
  if filename = [] then none
  else do
    let (base, rest) ← copyPart dot 8 filename
    match rest with
    | [] => some (pad 8 base ++ pad 3 [])
    | _ :: rest => do
        let (ext, rest) ← copyPart 0 3 rest
        if rest = [] then some (pad 8 base ++ pad 3 ext) else none

/-- The bytes that `extract_filename` writes before the terminator. -/
def extractBytes (name : List UInt8) : List UInt8 :=
  let base := (name.take 8).rdropWhile (· = blank)
  let ext := ((name.drop 8).take 3).rdropWhile (· = blank)
  let out := base.take vfsMaxName
  if ext = [] ∨ out.length ≥ vfsMaxName then out
  else
    let out := out ++ [dot]
    out ++ ext.take (vfsMaxName - out.length)

/-- `extract_filename`, whose result is read as a string. -/
def extractFilename (name : List UInt8) : List UInt8 := (extractBytes name).takeWhile (· ≠ 0)

end Operations

section Parts

variable {ch stop : UInt8} {room : Nat} {name part rest base ext : List UInt8}

/-- The characters that names may have. -/
def Allowed (ch : UInt8) : Prop := isupper ch ∨ isdigit ch ∨ ch ∈ special

instance : DecidablePred Allowed := fun _ => inferInstanceAs (Decidable (_ ∨ _))

theorem taken_iff : taken ch ↔ Allowed ch ∨ ch = 0 := by
  simp only [taken, strchr, Allowed, Bool.or_eq_true, List.contains_iff_mem, beq_iff_eq, or_assoc]

theorem Allowed.facts (allowed : Allowed ch) :
    ch ≠ 0 ∧ ch ≠ blank ∧ ch ≠ dot ∧ toupper ch = ch := by
  have all : ∀ n : Fin 256, Allowed (UInt8.ofFin n) → UInt8.ofFin n ≠ 0 ∧
      UInt8.ofFin n ≠ blank ∧ UInt8.ofFin n ≠ dot ∧ toupper (UInt8.ofFin n) = UInt8.ofFin n := by
    decide +kernel
  exact all ch.toFin allowed

theorem toupper_of_taken (accepts : taken ch) : toupper ch = ch ∧ ch ≠ blank ∧ ch ≠ dot := by
  rcases taken_iff.mp accepts with allowed | rfl
  · obtain ⟨-, notBlank, notDot, same⟩ := allowed.facts
    exact ⟨same, notBlank, notDot⟩
  · decide

/-- A loop divides the name where it stops. -/
theorem copyPart_eq_some_iff : copyPart stop room name = some (part, rest) ↔
    name = part ++ rest ∧ (∀ ch ∈ part, taken ch ∧ ch ≠ stop) ∧ part.length ≤ room ∧
      (part.length = room ∨ ∀ ch ∈ rest.head?, ch = stop) := by
  induction room generalizing name part with
  | zero =>
      simp only [copyPart, Option.some.injEq, Prod.mk.injEq, Nat.le_zero]
      constructor
      · rintro ⟨rfl, rfl⟩
        simp
      · rintro ⟨rfl, -, empty, -⟩
        simp [List.length_eq_zero_iff.mp empty]
  | succ room inductionHypothesis =>
      cases name with
      | nil =>
          simp only [copyPart, Option.some.injEq, Prod.mk.injEq]
          constructor
          · rintro ⟨rfl, rfl⟩
            simp
          · rintro ⟨split, -⟩
            obtain ⟨rfl, rfl⟩ := List.append_eq_nil_iff.mp split.symm
            exact ⟨rfl, rfl⟩
      | cons head tail =>
          simp only [copyPart]
          split
          · rename_i stops
            subst stops
            simp only [Option.some.injEq, Prod.mk.injEq]
            constructor
            · rintro ⟨rfl, rfl⟩
              simp
            · rintro ⟨split, copied, -⟩
              cases part with
              | nil => exact ⟨rfl, split⟩
              | cons first others =>
                  obtain ⟨rfl, -⟩ := List.cons.inj split
                  exact absurd rfl (copied head List.mem_cons_self).2
          · rename_i goes
            split
            · rename_i accepts
              obtain ⟨same, -⟩ := toupper_of_taken accepts
              simp only [Option.map_eq_some_iff, Prod.exists, Prod.mk.injEq, same]
              constructor
              · rintro ⟨others, rest', copied, rfl, rfl⟩
                obtain ⟨rfl, all, short, ends⟩ := inductionHypothesis.mp copied
                refine ⟨rfl, List.forall_mem_cons.mpr ⟨⟨accepts, goes⟩, all⟩,
                  Nat.succ_le_succ short, ?_⟩
                exact ends.imp (congrArg Nat.succ) id
              · rintro ⟨split, all, short, ends⟩
                cases part with
                | nil =>
                    rw [List.nil_append] at split
                    subst split
                    rcases ends with impossible | ends
                    · cases impossible
                    · exact absurd (ends head rfl) goes
                | cons first others =>
                    obtain ⟨rfl, rfl⟩ := List.cons.inj split
                    refine ⟨others, rest, inductionHypothesis.mpr ⟨rfl, ?_, ?_, ?_⟩, rfl, rfl⟩
                    · exact fun ch member => all ch (List.mem_cons_of_mem _ member)
                    · exact Nat.le_of_succ_le_succ short
                    · exact ends.imp Nat.succ.inj id
            · rename_i refuses
              constructor
              · nofun
              · rintro ⟨split, all, -, ends⟩
                cases part with
                | nil =>
                    rw [List.nil_append] at split
                    subst split
                    rcases ends with impossible | ends
                    · cases impossible
                    · exact absurd (ends head rfl) goes
                | cons first others =>
                    obtain ⟨rfl, -⟩ := List.cons.inj split
                    exact absurd (all head List.mem_cons_self).1 refuses

/-- The blanks are removed again. -/
theorem rdropWhile_pad {size : Nat} (inked : ∀ ch ∈ part, ch ≠ blank) :
    (pad size part).rdropWhile (· = blank) = part := by
  have all : ∀ n, (part ++ List.replicate n blank).rdropWhile (· = blank) = part := by
    intro n
    induction n with
    | zero =>
        rw [List.replicate_zero, List.append_nil, List.rdropWhile_eq_self_iff]
        intro nonempty
        simpa using inked _ (List.getLast_mem nonempty)
    | succ n inductionHypothesis =>
        rw [List.replicate_succ', ← List.append_assoc, List.rdropWhile_concat_pos _ _ _ (by simp)]
        exact inductionHypothesis
  exact all _

theorem length_pad {size : Nat} (short : part.length ≤ size) : (pad size part).length = size := by
  rw [pad, List.length_append, List.length_replicate, Nat.add_sub_cancel' short]

/-- A part of a name, as the names policy has it. -/
structure Part (size : Nat) (part : List UInt8) : Prop where
  nonempty : part ≠ []
  short : part.length ≤ size
  allowed : ∀ ch ∈ part, Allowed ch

end Parts

section Forms

variable {ch : UInt8} {name name' packed base ext : List UInt8}

/-- The names of the policy: a base, and maybe a dot and an extension. -/
inductive WellFormed : List UInt8 → Prop where
  | plain {base : List UInt8} (base_part : Part 8 base) : WellFormed base
  | dotted {base ext : List UInt8} (base_part : Part 8 base) (ext_part : Part 3 ext) :
      WellFormed (base ++ dot :: ext)

/-- The names that `pack_filename` takes, with what it writes. -/
inductive Packs : List UInt8 → List UInt8 → Prop where
  | plain {base : List UInt8} (nonempty : base ≠ []) (short : base.length ≤ 8)
      (accepts : ∀ ch ∈ base, taken ch) : Packs base (pad 8 base ++ pad 3 [])
  | dotted {base ext : List UInt8} {ch : UInt8} (short : base.length ≤ 8)
      (accepts : ∀ ch ∈ base, taken ch) (stops : base.length = 8 ∨ ch = dot)
      (shortExt : ext.length ≤ 3) (allowed : ∀ ch ∈ ext, Allowed ch) :
      Packs (base ++ ch :: ext) (pad 8 base ++ pad 3 ext)

/-- The names outside the policy that `pack_filename` takes: one with a NUL in the base, and
one with an empty part or with another character than a dot behind a base of eight. -/
inductive Irregular : List UInt8 → Prop where
  | plain {base : List UInt8} (short : base.length ≤ 8) (accepts : ∀ ch ∈ base, taken ch)
      (terminator : 0 ∈ base) : Irregular base
  | dotted {base ext : List UInt8} {ch : UInt8} (short : base.length ≤ 8)
      (accepts : ∀ ch ∈ base, taken ch) (stops : base.length = 8 ∨ ch = dot)
      (shortExt : ext.length ≤ 3) (allowed : ∀ ch ∈ ext, Allowed ch)
      (wrong : base = [] ∨ ext = [] ∨ ch ≠ dot ∨ 0 ∈ base) : Irregular (base ++ ch :: ext)

theorem copyPart_dot {rest : List UInt8} (short : base.length ≤ 8)
    (accepts : ∀ ch ∈ base, taken ch) (stops : base.length = 8 ∨ ∀ ch ∈ rest.head?, ch = dot) :
    copyPart dot 8 (base ++ rest) = some (base, rest) := by
  refine copyPart_eq_some_iff.mpr ⟨rfl, fun ch member => ?_, short, stops⟩
  exact ⟨accepts ch member, (toupper_of_taken (accepts ch member)).2.2⟩

theorem packFilename_eq_some_iff : packFilename name = some packed ↔ Packs name packed := by
  constructor
  · intro accepted
    unfold packFilename at accepted
    split at accepted
    · cases accepted
    · rename_i nonempty
      obtain ⟨⟨base, rest⟩, copied, continued⟩ := Option.bind_eq_some_iff.mp accepted
      clear accepted
      obtain ⟨rfl, accepts, short, stops⟩ := copyPart_eq_some_iff.mp copied
      have taken := fun ch member => (accepts ch member).1
      cases rest with
      | nil =>
          cases continued
          rw [List.append_nil] at nonempty ⊢
          exact .plain nonempty short taken
      | cons ch rest =>
          obtain ⟨⟨ext, last⟩, copiedExt, finished⟩ := Option.bind_eq_some_iff.mp continued
          obtain ⟨rfl, acceptsExt, shortExt, -⟩ := copyPart_eq_some_iff.mp copiedExt
          cases last with
          | nil =>
              cases finished
              rw [List.append_nil]
              refine .dotted short taken (stops.imp_right fun first => first ch rfl) shortExt ?_
              intro ch member
              obtain ⟨takes, goes⟩ := acceptsExt ch member
              exact (taken_iff.mp takes).resolve_right goes
          | cons _ _ => cases finished
  · intro packs
    cases packs with
    | plain nonempty short accepts =>
        have copied := @copyPart_dot _ [] short accepts (.inr nofun)
        rw [List.append_nil] at copied
        rw [packFilename, if_neg nonempty, copied]
        rfl
    | @dotted base ext ch short accepts stops shortExt allowed =>
        have copied := @copyPart_dot _ (ch :: ext) short accepts
          (stops.imp_right fun first other same => Option.some.inj same ▸ first)
        have copiedExt : copyPart 0 3 ext = some (ext, []) := by
          refine copyPart_eq_some_iff.mpr ⟨(List.append_nil _).symm, ?_, shortExt, .inr nofun⟩
          intro ch member
          exact ⟨taken_iff.mpr (.inl (allowed ch member)), (allowed ch member).facts.1⟩
        rw [packFilename, if_neg (by simp), copied]
        simp [copiedExt]

theorem WellFormed.packs (wellFormed : WellFormed name) :
    ∃ packed, packFilename name = some packed := by
  cases wellFormed with
  | plain base_part =>
      exact ⟨_, packFilename_eq_some_iff.mpr (.plain base_part.nonempty base_part.short
        fun ch member => taken_iff.mpr (.inl (base_part.allowed ch member)))⟩
  | dotted base_part ext_part =>
      exact ⟨_, packFilename_eq_some_iff.mpr (.dotted base_part.short
        (fun ch member => taken_iff.mpr (.inl (base_part.allowed ch member))) (.inr rfl)
        ext_part.short ext_part.allowed)⟩

/-- What is taken is well formed or irregular. -/
theorem Packs.wellFormed_or_irregular (packs : Packs name packed) :
    WellFormed name ∨ Irregular name := by
  cases packs with
  | plain nonempty short accepts =>
      by_cases terminator : 0 ∈ name
      · exact .inr (.plain short accepts terminator)
      · refine .inl (.plain ⟨nonempty, short, fun ch member => ?_⟩)
        refine (taken_iff.mp (accepts ch member)).resolve_right ?_
        exact ne_of_mem_of_not_mem member terminator
  | @dotted base ext ch short accepts stops shortExt allowed =>
      by_cases wrong : base = [] ∨ ext = [] ∨ ch ≠ dot ∨ 0 ∈ base
      · exact .inr (.dotted short accepts stops shortExt allowed wrong)
      · simp only [not_or, not_not] at wrong
        obtain ⟨nonempty, nonemptyExt, rfl, terminator⟩ := wrong
        refine .inl (.dotted ⟨nonempty, short, fun ch member => ?_⟩
          ⟨nonemptyExt, shortExt, allowed⟩)
        refine (taken_iff.mp (accepts ch member)).resolve_right ?_
        exact ne_of_mem_of_not_mem member terminator

theorem Irregular.packs (irregular : Irregular name) :
    ∃ packed, packFilename name = some packed := by
  cases irregular with
  | plain short accepts terminator =>
      exact ⟨_, packFilename_eq_some_iff.mpr
        (.plain (List.ne_nil_of_mem terminator) short accepts)⟩
  | dotted short accepts stops shortExt allowed wrong =>
      exact ⟨_, packFilename_eq_some_iff.mpr (.dotted short accepts stops shortExt allowed)⟩

/-- A name is divided in one way only. -/
theorem split_unique {base' ext' : List UInt8} (accepts : ∀ ch ∈ base, taken ch)
    (stops : base.length = 8 ∨ ch = dot) (base_part : Part 8 base')
    (same : base ++ ch :: ext = base' ++ dot :: ext') : base = base' ∧ ch = dot ∧ ext = ext' := by
  rcases List.append_eq_append_iff.mp same with ⟨more, longer, rest⟩ | ⟨more, longer, rest⟩
  · cases more with
    | nil =>
        obtain ⟨rfl, rfl⟩ := List.cons.inj rest
        exact ⟨(List.append_nil _).symm.trans longer.symm, rfl, rfl⟩
    | cons first more =>
        obtain ⟨rfl, -⟩ := List.cons.inj rest
        have inside : ch ∈ base' := longer ▸ List.mem_append_right base List.mem_cons_self
        rcases stops with full | rfl
        · have room := base_part.short
          rw [longer, List.length_append, List.length_cons] at room
          omega
        · exact absurd rfl (base_part.allowed _ inside).facts.2.2.1
  · cases more with
    | nil =>
        obtain ⟨rfl, rfl⟩ := List.cons.inj rest
        exact ⟨longer.trans (List.append_nil _), rfl, rfl⟩
    | cons first more =>
        obtain ⟨rfl, -⟩ := List.cons.inj rest
        have inside : dot ∈ base := longer ▸ List.mem_append_right base' List.mem_cons_self
        exact absurd rfl (toupper_of_taken (accepts _ inside)).2.2

theorem WellFormed.not_irregular (wellFormed : WellFormed name) : ¬Irregular name := by
  intro irregular
  cases wellFormed with
  | plain base_part =>
      cases irregular with
      | plain short accepts terminator =>
          exact absurd rfl (base_part.allowed 0 terminator).facts.1
      | @dotted base ext ch short accepts stops shortExt allowed wrong =>
          have room := base_part.short
          rw [List.length_append, List.length_cons] at room
          obtain rfl := stops.resolve_left (by omega)
          have inside : dot ∈ base ++ dot :: ext := List.mem_append_right base List.mem_cons_self
          exact absurd rfl (base_part.allowed _ inside).facts.2.2.1
  | @dotted base ext base_part ext_part =>
      generalize whole : base ++ dot :: ext = name at irregular
      cases irregular with
      | plain short accepts terminator =>
          subst whole
          have inside : dot ∈ base ++ dot :: ext := List.mem_append_right base List.mem_cons_self
          exact absurd rfl (toupper_of_taken (accepts _ inside)).2.2
      | dotted short accepts stops shortExt allowed wrong =>
          obtain ⟨rfl, rfl, rfl⟩ := split_unique accepts stops base_part whole.symm
          rcases wrong with empty | empty | differs | terminator
          · exact base_part.nonempty empty
          · exact ext_part.nonempty empty
          · exact differs rfl
          · exact absurd rfl (base_part.allowed 0 terminator).facts.1

end Forms

section RoundTrip

variable {name name' packed base ext : List UInt8}

theorem extractBytes_pad (short : base.length ≤ 8) (shortExt : ext.length ≤ 3)
    (inked : ∀ ch ∈ base, ch ≠ blank) (inkedExt : ∀ ch ∈ ext, ch ≠ blank) :
    extractBytes (pad 8 base ++ pad 3 ext) = if ext = [] then base else base ++ dot :: ext := by
  have front : (pad 8 base ++ pad 3 ext).take 8 = pad 8 base :=
    List.take_left' (length_pad short)
  have back : ((pad 8 base ++ pad 3 ext).drop 8).take 3 = pad 3 ext := by
    rw [List.drop_left' (length_pad short), List.take_of_length_le (length_pad shortExt).le]
  have whole : base.take vfsMaxName = base := List.take_of_length_le (by unfold vfsMaxName; omega)
  have few : ¬vfsMaxName ≤ base.length := by
    unfold vfsMaxName
    omega
  simp only [extractBytes, front, back, rdropWhile_pad inked, rdropWhile_pad inkedExt, whole,
    ge_iff_le, few, or_false]
  split
  · rfl
  · have room : ext.take (vfsMaxName - (base ++ [dot]).length) = ext := by
      refine List.take_of_length_le ?_
      rw [List.length_append, List.length_singleton]
      unfold vfsMaxName
      omega
    rw [room, List.append_assoc]
    rfl

theorem WellFormed.terminated (wellFormed : WellFormed name) : name.takeWhile (· ≠ 0) = name := by
  refine List.takeWhile_eq_self_iff.mpr fun ch member => ?_
  refine decide_eq_true ?_
  cases wellFormed with
  | plain base_part => exact (base_part.allowed ch member).facts.1
  | dotted base_part ext_part =>
      rcases List.mem_append.mp member with inBase | rest
      · exact (base_part.allowed ch inBase).facts.1
      · rcases List.mem_cons.mp rest with rfl | inExt
        · decide
        · exact (ext_part.allowed ch inExt).facts.1

/-- What a name of the policy is packed into reads back as the name. -/
theorem WellFormed.extractFilename_eq (wellFormed : WellFormed name)
    (packed_eq : packFilename name = some packed) : extractFilename packed = name := by
  have terminated := wellFormed.terminated
  have packs := packFilename_eq_some_iff.mp packed_eq
  cases packs with
  | plain nonempty short accepts =>
      have inked := fun ch member => (toupper_of_taken (accepts ch member)).2.1
      rw [extractFilename, extractBytes_pad short (Nat.zero_le _) inked (List.forall_mem_nil _)]
      exact terminated
  | @dotted base ext ch short accepts stops shortExt allowed =>
      have inked := fun ch member => (toupper_of_taken (accepts ch member)).2.1
      have regular : ¬(base = [] ∨ ext = [] ∨ ch ≠ dot ∨ 0 ∈ base) := fun wrong =>
        wellFormed.not_irregular (.dotted short accepts stops shortExt allowed wrong)
      simp only [not_or, not_not] at regular
      obtain ⟨-, nonemptyExt, rfl, -⟩ := regular
      rw [extractFilename, extractBytes_pad short shortExt inked
        (fun ch member => (allowed ch member).facts.2.1), if_neg nonemptyExt]
      exact terminated

/-- A name is taken exactly if it is one of the policy, and reads back then. -/
def Exact (name : List UInt8) : Prop :=
  ((packFilename name).isSome ↔ WellFormed name) ∧
    ∀ packed, packFilename name = some packed → extractFilename packed = name

/-- Names are exact but for the irregular ones, and the others do not collide. -/
theorem names_exact (name : List UInt8) :
    (Exact name ↔ ¬Irregular name) ∧
      ∀ name', ¬Irregular name → ¬Irregular name' →
        packFilename name = packFilename name' → packFilename name ≠ none → name = name' := by
  have exact_of (name : List UInt8) (regular : ¬Irregular name) : Exact name := by
    have wellFormed (packed : List UInt8) (accepted : packFilename name = some packed) :
        WellFormed name :=
      (packFilename_eq_some_iff.mp accepted).wellFormed_or_irregular.resolve_right regular
    refine ⟨⟨fun accepted => ?_, fun named => ?_⟩, fun packed accepted => ?_⟩
    · obtain ⟨packed, accepted⟩ := Option.isSome_iff_exists.mp accepted
      exact wellFormed packed accepted
    · exact Option.isSome_iff_exists.mpr named.packs
    · exact (wellFormed packed accepted).extractFilename_eq accepted
  refine ⟨⟨fun exactly irregular => ?_, exact_of name⟩, ?_⟩
  · have named := exactly.1.mp (Option.isSome_iff_exists.mpr irregular.packs)
    exact named.not_irregular irregular
  · intro name' regular regular' same accepted
    obtain ⟨packed, accepted⟩ := Option.ne_none_iff_exists'.mp accepted
    rw [← (exact_of name regular).2 packed accepted]
    exact (exact_of name' regular').2 packed (same ▸ accepted)

/-- The name `A.B` is taken and reads back. -/
theorem names_exact_dotted : Exact [0x41, 0x2e, 0x42] := by
  have named : WellFormed [0x41, 0x2e, 0x42] :=
    @WellFormed.dotted [0x41] [0x42] ⟨by decide, by decide, by decide +kernel⟩
      ⟨by decide, by decide, by decide +kernel⟩
  exact (names_exact _).1.mpr named.not_irregular

/-- The name `ABCDEFGHI`, of which the last character is skipped. -/
theorem not_exact_ninth : ¬Exact [0x41, 0x42, 0x43, 0x44, 0x45, 0x46, 0x47, 0x48, 0x49] := by
  intro exactly
  exact absurd (exactly.2 _ rfl) (by decide)

end RoundTrip

end Opal.Fat
