import Opal.PageTable.Operations
import Mathlib.Algebra.Order.Ring.Nat
import Mathlib.Tactic.IntervalCases
import Mathlib.Tactic.Ring

/-!
# What `pagetable_unmap` clears

One round clears the span of an entry around `va`, or passes a span that holds
nothing.  A whole call clears everything from `va`, rounded down to the largest span
that fits into the range, up to the end of the range.
-/

namespace Opal.PageTable

section Spans

theorem span_pos (level : Nat) : 0 < span level := Nat.two_pow_pos _

theorem span_succ (level : Nat) : span (level + 1) = span level * tableLength := by
  unfold span tableLength
  rw [show 12 + 9 * (level + 1) = 12 + 9 * level + 9 by ring, pow_add]
  rfl

theorem span_le {low high : Nat} (le : low ≤ high) : span low ≤ span high :=
  Nat.pow_le_pow_right (by decide) (by omega)

theorem span_dvd {low high : Nat} (le : low ≤ high) : span low ∣ span high :=
  pow_dvd_pow 2 (by omega)

theorem div_span_succ (level a : Nat) : a / span (level + 1) = a / span level / tableLength := by
  rw [span_succ, Nat.div_div_eq_div_mul]

/-- Addresses of one entry are addresses of one entry above it. -/
theorem div_span_of_le {low high a b : Nat} (le : low ≤ high)
    (same : a / span low = b / span low) : a / span high = b / span high := by
  obtain ⟨factor, eq⟩ := span_dvd le
  rw [eq, ← Nat.div_div_eq_div_mul, ← Nat.div_div_eq_div_mul, same]

/-- Within one table the index tells the entries apart. -/
theorem index_eq_iff {level a b : Nat} (near : a / span (level + 1) = b / span (level + 1)) :
    index level a = index level b ↔ a / span level = b / span level := by
  unfold index
  rw [div_span_succ, div_span_succ] at near
  constructor
  · intro same
    have left := Nat.div_add_mod (a / span level) tableLength
    have right := Nat.div_add_mod (b / span level) tableLength
    rw [← left, ← right, near, same]
  · intro same
    rw [same]

/-- The addresses whose upper bits repeat bit 47. -/
def Canonical (a : Nat) : Prop := a < 2 ^ 47 ∨ (2 ^ 64 - 2 ^ 47 ≤ a ∧ a < 2 ^ 64)

/-- In the root the index tells the entries of the user half from all others. -/
theorem index_root_eq_iff {a va : Nat} (canonical : Canonical a) (user : va < 2 ^ 47) :
    index 3 a = index 3 va ↔ a / span 3 = va / span 3 := by
  unfold index tableLength
  unfold span
  unfold Canonical at canonical
  omega

theorem roundDown_le (level va : Nat) : roundDown level va ≤ va := Nat.div_mul_le_self _ _

theorem lt_roundDown_add (level va : Nat) : va < roundDown level va + span level := by
  unfold roundDown
  have split := Nat.div_add_mod va (span level)
  have small := Nat.mod_lt va (span_pos level)
  rw [Nat.mul_comm]
  omega

/-- The addresses of an entry are the range from its start on. -/
theorem div_span_eq_iff {level a va : Nat} :
    a / span level = va / span level ↔
      roundDown level va ≤ a ∧ a < roundDown level va + span level := by
  unfold roundDown
  rw [Nat.div_eq_iff (span_pos level)]
  have := span_pos level
  constructor <;> intro h <;> omega

end Spans

section WellFormed

/-- Huge pages are aligned and lie in the 52 bits of physical addresses. -/
def Entry.Wf : {level : Nat} → Entry level → Prop
  | _, .absent => True
  | _, .page _ => True
  | _, .huge leaf => leaf.addr % hugePageSize = 0 ∧ leaf.addr < 2 ^ 52
  | _, .table _ entries => ∀ i, (entries i).Wf

/-- The entry of the address is a huge page. -/
def Entry.IsHuge : {level : Nat} → Entry level → Nat → Prop
  | _, .absent, _ => False
  | _, .page _, _ => False
  | _, .huge _, _ => True
  | level + 1, .table _ entries, va => IsHuge (entries (index level va)) va

/-- The tables of the user half are well formed. -/
def Pagetable.Wf (ptbl : Pagetable) : Prop := ∀ i < 256, (ptbl i).Wf

theorem pteAddr_of_aligned {pa : Nat} (aligned : pa % pageSize = 0) (bounded : pa < 2 ^ 52) :
    pteAddr pa = pa := by
  unfold pteAddr pageSize span at *
  omega

/-- A huge page and the table it is expanded to map the same addresses. -/
theorem lookup_expandHugepage {leaf : Page} (wf : (Entry.huge leaf).Wf) (va : Nat) :
    ((expandHugepage leaf).2 (index 0 va)).lookup va = (Entry.huge leaf).lookup va := by
  obtain ⟨aligned, bounded⟩ := wf
  have room : leaf.addr + index 0 va * pageSize < 2 ^ 52 := by
    unfold index tableLength hugePageSize pageSize span at *
    omega
  have whole : (leaf.addr + index 0 va * pageSize) % pageSize = 0 := by
    unfold index tableLength hugePageSize pageSize span at *
    omega
  simp only [expandHugepage, Entry.lookup, pteAddr_of_aligned whole room, Option.some.injEq]
  unfold index tableLength hugePageSize pageSize span
  omega

/-- The lookup in a table whose entry of `va` was replaced. -/
theorem lookup_update {level va a : Nat} {flags : Flags} {entries : Nat → Entry level}
    {entry : Entry level} (near : a / span (level + 1) = va / span (level + 1)) :
    (Entry.table flags (Function.update entries (index level va) entry)).lookup a =
      if a / span level = va / span level then entry.lookup a
      else (Entry.table flags entries).lookup a := by
  simp only [Entry.lookup]
  split
  · rename_i same
    rw [(index_eq_iff near).mpr same, Function.update_self]
  · rename_i differs
    rw [Function.update_of_ne fun same => differs ((index_eq_iff near).mp same)]

theorem isHuge_update {level va a : Nat} {flags : Flags} {entries : Nat → Entry level}
    {entry : Entry level} (near : a / span (level + 1) = va / span (level + 1)) :
    (Entry.table flags (Function.update entries (index level va) entry)).IsHuge a ↔
      if a / span level = va / span level then entry.IsHuge a
      else (Entry.table flags entries).IsHuge a := by
  simp only [Entry.IsHuge]
  split
  · rename_i same
    rw [(index_eq_iff near).mpr same, Function.update_self]
  · rename_i differs
    rw [Function.update_of_ne fun same => differs ((index_eq_iff near).mp same)]

theorem wf_update {level i : Nat} {flags : Flags} {entries : Nat → Entry level}
    {entry : Entry level} (wf : (Entry.table flags entries).Wf) (wf' : entry.Wf) :
    (Entry.table flags (Function.update entries i entry)).Wf := by
  intro j
  by_cases same : j = i
  · subst same
    rw [Function.update_self]
    exact wf'
  · rw [Function.update_of_ne same]
    exact wf j

end WellFormed

section Round

variable {level va stop : Nat}

/-- A round has cleared the entry of level `k` around `va`: either its whole span was left
of the range, or it held nothing.  `k` is at least the level of the largest such span. -/
structure Clears (stop : Nat) (entry : Entry level) (va : Nat) (after : Unmapped level)
    (k : Nat) : Prop where
  le : k ≤ level
  next : after.next = roundDown k va + span k
  lookup : ∀ a, a / span level = va / span level → after.entry.lookup a =
    if a / span k = va / span k then none else entry.lookup a
  covered : k = 0 ∨ va + span k ≤ stop ∨ ∀ a, a / span k = va / span k → entry.lookup a = none
  greedy : ∀ j ≤ level, va + span j ≤ stop → j ≤ k
  huge : ∀ a, a / span level = va / span level → after.entry.IsHuge a →
    entry.IsHuge a ∧ (k = 0 → a / span 1 ≠ va / span 1)

/-- A round that had to expand a huge page had no memory for the table. -/
structure Stuck (stop : Nat) (entry : Entry level) (va : Nat) (mem : AllocOracle)
    (after : Unmapped level) : Prop where
  next : after.next = va
  same : after.entry = entry
  noMemory : mem.head = false
  huge : entry.IsHuge va
  partly : stop < va + span 1

theorem roundDown_add (level va : Nat) :
    roundDown level (va + span level) = roundDown level va + span level := by
  unfold roundDown
  rw [Nat.add_div_right _ (span_pos level), Nat.succ_mul]

theorem clears_absent {entry : Entry (level + 1)} {mem : AllocOracle}
    (covered : va + span (level + 1) ≤ stop ∨ entry = .absent) :
    Clears stop entry va
      { entry := .absent, next := roundDown (level + 1) (va + span (level + 1)), mem := mem }
      (level + 1) := by
  refine ⟨le_rfl, roundDown_add _ _, ?_, ?_, fun j le _ => le, fun _ _ huge => huge.elim⟩
  · intro a near
    rw [if_pos near]
    rfl
  · rcases covered with covered | rfl
    · exact .inr (.inl covered)
    · exact .inr (.inr fun _ _ => rfl)

theorem lookup_table_of_same {flags : Flags} {entries : Nat → Entry level} {a : Nat}
    (same : a / span level = va / span level) :
    (Entry.table flags entries).lookup a = (entries (index level va)).lookup a := by
  simp only [Entry.lookup, index, same]

theorem not_isHuge_table {flags : Flags} {entries : Nat → Entry 0} {a : Nat} :
    ¬ (Entry.table flags entries).IsHuge a := by
  simp only [Entry.IsHuge]
  cases entries (index 0 a) <;> exact id

/-- What happens in a table happens to the entry that points to it. -/
theorem Clears.above {flags : Flags} {entries : Nat → Entry level}
    {entry : Entry (level + 1)} {after : Unmapped level} {k : Nat}
    (clears : Clears stop (entries (index level va)) va after k)
    (same : ∀ a, entry.lookup a = (Entry.table flags entries).lookup a)
    (huge : ∀ a, (Entry.table flags entries).IsHuge a → entry.IsHuge a)
    (uncovered : stop < va + span (level + 1)) :
    Clears stop entry va
      { entry := .table flags (Function.update entries (index level va) after.entry)
        next := after.next, mem := after.mem } k where
  le := Nat.le_succ_of_le clears.le
  next := clears.next
  lookup := by
    intro a near
    rw [lookup_update near]
    split
    · rename_i inside
      rw [clears.lookup a inside, same, lookup_table_of_same inside]
    · rename_i outside
      rw [if_neg fun inside => outside (div_span_of_le clears.le inside), same]
  covered := by
    rcases clears.covered with zero | covered | empty
    · exact .inl zero
    · exact .inr (.inl covered)
    · refine .inr (.inr fun a inside => ?_)
      rw [same, lookup_table_of_same (div_span_of_le clears.le inside)]
      exact empty a inside
  greedy := by
    intro j le covered
    rcases Nat.le_succ_iff.mp le with le | rfl
    · exact clears.greedy j le covered
    · exact absurd covered (Nat.not_le_of_lt uncovered)
  huge := by
    intro a near isHuge
    rw [isHuge_update near] at isHuge
    split at isHuge
    · rename_i inside
      obtain ⟨old, apart⟩ := clears.huge a inside isHuge
      refine ⟨huge a ?_, apart⟩
      simp only [Entry.IsHuge, index, inside]
      exact old
    · rename_i outside
      refine ⟨huge a isHuge, fun _ inside => ?_⟩
      cases level with
      | zero => exact not_isHuge_table isHuge
      | succ level => exact outside (div_span_of_le (by omega) inside)

theorem unmapEntry_spec (entry : Entry level) (mem : AllocOracle) (wf : entry.Wf)
    (aligned : va % pageSize = 0) :
    (∃ k, Clears stop entry va (unmapEntry level va stop entry mem) k) ∨
      Stuck stop entry va mem (unmapEntry level va stop entry mem) := by
  induction level generalizing mem with
  | zero =>
      refine .inl ⟨0, le_rfl, ?_, ?_, .inl rfl, fun j le _ => le, fun _ _ huge => huge.elim⟩
      · have whole : span 0 ∣ va := Nat.dvd_of_mod_eq_zero aligned
        unfold roundDown
        rw [Nat.div_mul_cancel whole]
        rfl
      · intro a near
        rw [if_pos near]
        rfl
  | succ level inductionHypothesis =>
      unfold unmapEntry
      by_cases covered : va + span (level + 1) ≤ stop
      · rw [if_pos covered]
        exact .inl ⟨_, clears_absent (.inl covered)⟩
      · rw [if_neg covered]
        have uncovered : stop < va + span (level + 1) := Nat.lt_of_not_le covered
        cases entry with
        | absent => exact .inl ⟨_, clears_absent (.inr rfl)⟩
        | huge leaf =>
            cases memory : mem.head with
            | false =>
                refine .inr ?_
                simp only [unmapBelow, memory]
                exact ⟨rfl, rfl, memory, trivial, uncovered⟩
            | true =>
                simp only [unmapBelow, memory, if_true]
                have child : ((expandHugepage leaf).2 (index 0 va)).Wf := trivial
                rcases inductionHypothesis _ mem.tail child with ⟨k, clears⟩ | stuck
                · refine .inl ⟨k, clears.above ?_ (fun _ _ => trivial) uncovered⟩
                  exact fun a => (lookup_expandHugepage wf a).symm
                · exact stuck.huge.elim
        | table flags entries =>
            rcases inductionHypothesis _ mem (wf (index level va)) with ⟨k, clears⟩ | stuck
            · exact .inl ⟨k, clears.above (fun _ => rfl) (fun _ => id) uncovered⟩
            · refine .inr ⟨stuck.next, ?_, stuck.noMemory, stuck.huge, stuck.partly⟩
              simp only [unmapBelow]
              rw [stuck.same, Function.update_eq_self]

theorem unmapEntry_wf (entry : Entry level) (mem : AllocOracle) (wf : entry.Wf) :
    (unmapEntry level va stop entry mem).entry.Wf := by
  induction level generalizing mem with
  | zero => trivial
  | succ level inductionHypothesis =>
      unfold unmapEntry
      split
      · trivial
      · cases entry with
        | absent => trivial
        | huge leaf =>
            cases memory : mem.head with
            | false =>
                simp only [unmapBelow, memory]
                exact wf
            | true =>
                simp only [unmapBelow, memory, if_true]
                have expanded : (Entry.table leaf.flags (expandHugepage leaf).2).Wf := by
                  intro i
                  trivial
                exact wf_update expanded (inductionHypothesis _ _ trivial)
        | table flags entries =>
            exact wf_update wf (inductionHypothesis _ _ (wf _))

theorem unmapEntry_succeeds (entry : Entry level) {mem : AllocOracle} (succeeds : mem.Succeeds) :
    (unmapEntry level va stop entry mem).mem.Succeeds := by
  induction level generalizing mem with
  | zero => exact succeeds
  | succ level inductionHypothesis =>
      unfold unmapEntry
      split
      · exact succeeds
      · cases entry with
        | absent => exact succeeds
        | huge leaf =>
            simp only [unmapBelow, succeeds.head, if_true]
            exact inductionHypothesis _ succeeds.tail
        | table flags entries => exact inductionHypothesis _ succeeds

end Round

section Root

variable {ptbl : Pagetable} {va stop : Nat} {mem : AllocOracle}

def Pagetable.IsHuge (ptbl : Pagetable) (va : Nat) : Prop := (ptbl (index 3 va)).IsHuge va

/-- A round has cleared the entry of level `k` around `va` in the tables of a root. -/
structure RootClears (ptbl : Pagetable) (va stop : Nat) (after : Walk) (k : Nat) : Prop where
  le : k ≤ 3
  next : after.va = roundDown k va + span k
  lookup : ∀ a, Canonical a → pagetableLookup after.ptbl a =
    if a / span k = va / span k then none else pagetableLookup ptbl a
  covered : k = 0 ∨ va + span k ≤ stop ∨
    ∀ a, a / span k = va / span k → pagetableLookup ptbl a = none
  greedy : ∀ j ≤ 3, va + span j ≤ stop → j ≤ k
  huge : ∀ a, Canonical a → after.ptbl.IsHuge a →
    ptbl.IsHuge a ∧ (k = 0 → a / span 1 ≠ va / span 1)

theorem Pagetable.Wf.update {i : Nat} {entry : Entry 3} (wf : ptbl.Wf) (wf' : entry.Wf) :
    Pagetable.Wf (Function.update ptbl i entry) := by
  intro j lower
  by_cases same : j = i
  · subst same
    rw [Function.update_self]
    exact wf'
  · rw [Function.update_of_ne same]
    exact wf j lower

theorem index_root_lt (user : va < 2 ^ 47) : index 3 va < 256 := by
  unfold index span tableLength
  omega

/-- What happens to the entry of `va` in the root happens to the page table. -/
theorem Clears.atRoot {after : Unmapped 3} {k : Nat}
    (clears : Clears stop (ptbl (index 3 va)) va after k) (user : va < 2 ^ 47) :
    RootClears ptbl va stop
      { ptbl := Function.update ptbl (index 3 va) after.entry, va := after.next
        mem := after.mem } k where
  le := clears.le
  next := clears.next
  lookup := by
    intro a canonical
    have near := index_root_eq_iff canonical user
    by_cases inside : a / span 3 = va / span 3
    · have same := near.mpr inside
      simp only [pagetableLookup, same, Function.update_self]
      exact clears.lookup a inside
    · have apart : index 3 a ≠ index 3 va := fun same => inside (near.mp same)
      rw [if_neg fun same => inside (div_span_of_le clears.le same)]
      simp only [pagetableLookup]
      rw [Function.update_of_ne apart]
  covered := by
    rcases clears.covered with zero | covered | empty
    · exact .inl zero
    · exact .inr (.inl covered)
    · refine .inr (.inr fun a inside => ?_)
      have same : index 3 a = index 3 va := by
        unfold index
        rw [div_span_of_le clears.le inside]
      unfold pagetableLookup
      rw [same]
      exact empty a inside
  greedy := clears.greedy
  huge := by
    intro a canonical isHuge
    have near := index_root_eq_iff canonical user
    by_cases inside : a / span 3 = va / span 3
    · have same := near.mpr inside
      simp only [Pagetable.IsHuge, same, Function.update_self] at isHuge ⊢
      exact clears.huge a inside isHuge
    · have apart : index 3 a ≠ index 3 va := fun same => inside (near.mp same)
      simp only [Pagetable.IsHuge] at isHuge ⊢
      rw [Function.update_of_ne apart] at isHuge
      exact ⟨isHuge, fun _ same => inside (div_span_of_le (by decide) same)⟩

/-- What a round of the loop of `unmap_range_len` can do. -/
structure Round (ptbl : Pagetable) (va stop : Nat) (mem : AllocOracle) (after : Walk) : Prop where
  wf : after.ptbl.Wf
  succeeds : mem.Succeeds → after.mem.Succeeds
  outcome : (∃ k, RootClears ptbl va stop after k) ∨
    (after.va = va ∧ mem.head = false ∧ ptbl.IsHuge va ∧ stop < va + span 1)

theorem unmapNext_spec (wf : ptbl.Wf) (user : va < 2 ^ 47) (aligned : va % pageSize = 0) :
    Round ptbl va stop mem (unmapNext ptbl va stop mem) := by
  have inner : (ptbl (index 3 va)).Wf := wf _ (index_root_lt user)
  have round : ∃ after, unmapNext ptbl va stop mem =
      { ptbl := Function.update ptbl (index 3 va) after.entry, va := after.next
        mem := after.mem } ∧ after.entry.Wf ∧ (mem.Succeeds → after.mem.Succeeds) ∧
      ((∃ k, Clears stop (ptbl (index 3 va)) va after k) ∨
        Stuck stop (ptbl (index 3 va)) va mem after) :=
    ⟨_, rfl, unmapEntry_wf _ mem inner, unmapEntry_succeeds _,
      unmapEntry_spec _ mem inner aligned⟩
  obtain ⟨after, eq, innerWf, succeeds, outcome⟩ := round
  rw [eq]
  refine ⟨wf.update innerWf, succeeds, ?_⟩
  rcases outcome with ⟨k, clears⟩ | stuck
  · exact .inl ⟨k, clears.atRoot user⟩
  · exact .inr ⟨stuck.next, stuck.noMemory, stuck.huge, stuck.partly⟩

end Root

section Range

variable {ptbl : Pagetable} {va stop : Nat} {mem : AllocOracle}

/-- The level of the largest entry whose span fits into the length. -/
def topLevel (len : Nat) : Nat :=
  if span 3 ≤ len then 3 else if span 2 ≤ len then 2 else if span 1 ≤ len then 1 else 0

theorem le_topLevel {j len : Nat} (le : j ≤ 3) (fits : span j ≤ len) : j ≤ topLevel len := by
  have one := span_le (show 1 ≤ 2 by decide)
  have two := span_le (show 2 ≤ 3 by decide)
  unfold topLevel
  interval_cases j <;> split_ifs <;> omega

theorem topLevel_spec (len : Nat) : topLevel len ≤ 3 ∧
    (topLevel len = 0 ∨ span (topLevel len) ≤ len) := by
  unfold topLevel
  split_ifs with three two one
  · exact ⟨le_rfl, .inr three⟩
  · exact ⟨by decide, .inr two⟩
  · exact ⟨by decide, .inr one⟩
  · exact ⟨by decide, .inl rfl⟩

theorem topLevel_mono {short long : Nat} (le : short ≤ long) : topLevel short ≤ topLevel long := by
  obtain ⟨bounded, zero | fits⟩ := topLevel_spec short
  · omega
  · exact le_topLevel bounded (fits.trans le)

/-- Where an unmapping of the range really starts. -/
def clearedFrom (va stop : Nat) : Nat := roundDown (topLevel (stop - va)) va

theorem roundDown_mono {low high va : Nat} (le : low ≤ high) :
    roundDown high va ≤ roundDown low va := by
  have start : roundDown low va / span low = va / span low :=
    Nat.mul_div_cancel _ (span_pos low)
  exact (div_span_eq_iff.mp (div_span_of_le le start)).1

theorem roundDown_of_dvd {level va : Nat} (whole : span level ∣ va) : roundDown level va = va :=
  Nat.div_mul_cancel whole

theorem le_roundDown_of_dvd {level start a : Nat} (whole : span level ∣ start) (le : start ≤ a) :
    start ≤ roundDown level a := by
  rw [← roundDown_of_dvd whole]
  exact Nat.mul_le_mul_right _ (Nat.div_le_div_right le)

theorem roundDown_div (level va : Nat) : roundDown level va / span level = va / span level :=
  Nat.mul_div_cancel _ (span_pos level)

theorem span_dvd_roundDown {low high va : Nat} (le : low ≤ high) :
    span low ∣ roundDown high va + span high := by
  unfold roundDown
  exact Nat.dvd_add ((span_dvd le).mul_left _) (span_dvd le)

/-- A round of the loop clears what lies between the start of the range, rounded down,
and the place where it goes on; whatever else its entry spans held nothing. -/
theorem RootClears.between {after : Walk} {k a : Nat} (clears : RootClears ptbl va stop after k)
    (aligned : va % pageSize = 0) (alignedStop : stop % pageSize = 0) (before : va < stop)
    (canonical : Canonical a) :
    pagetableLookup after.ptbl a =
      if clearedFrom va stop ≤ a ∧ a < min after.va stop then none
      else pagetableLookup ptbl a := by
  have greedy : topLevel (stop - va) ≤ k := by
    obtain ⟨bounded, zero | fits⟩ := topLevel_spec (stop - va)
    · omega
    · exact clears.greedy _ bounded (by omega)
  have starts : roundDown k va ≤ clearedFrom va stop := roundDown_mono greedy
  rw [clears.lookup a canonical]
  by_cases inside : a / span k = va / span k
  · rw [if_pos inside]
    split
    · rfl
    · rename_i outside
      obtain ⟨low, high⟩ := div_span_eq_iff.mp inside
      rw [← clears.next] at high
      rcases clears.covered with zero | covered | empty
      · -- a single page, which lies in the range
        subst zero
        have base : topLevel (stop - va) = 0 := Nat.le_zero.mp greedy
        have start : roundDown 0 va = va := roundDown_of_dvd (Nat.dvd_of_mod_eq_zero aligned)
        refine absurd ⟨?_, ?_⟩ outside
        · unfold clearedFrom
          rw [base]
          exact low
        · rw [clears.next, start] at high ⊢
          unfold pageSize span at *
          omega
      · have same : topLevel (stop - va) = k :=
          le_antisymm greedy (le_topLevel clears.le (by omega))
        have lower := roundDown_le k va
        refine absurd ⟨?_, ?_⟩ outside
        · unfold clearedFrom
          rw [same]
          exact low
        · have := clears.next
          omega
      · exact (empty a inside).symm
  · rw [if_neg inside, if_neg]
    rintro ⟨low, high⟩
    refine inside (div_span_eq_iff.mpr ⟨starts.trans low, ?_⟩)
    have := clears.next
    omega

/-- No round can be stuck: there is memory, or every huge page of the range lies in it. -/
def Splittable (ptbl : Pagetable) (va stop : Nat) (mem : AllocOracle) : Prop :=
  mem.Succeeds ∨ ∀ a, va ≤ a → a < stop → ptbl.IsHuge a →
    va ≤ roundDown 1 a ∧ roundDown 1 a + span 1 ≤ stop

theorem Splittable.not_stuck (splittable : Splittable ptbl va stop mem) (before : va < stop)
    (noMemory : mem.head = false) (huge : ptbl.IsHuge va) : va + span 1 ≤ stop := by
  rcases splittable with succeeds | whole
  · have memory := succeeds.head
    rw [noMemory] at memory
    cases memory
  · obtain ⟨low, high⟩ := whole va le_rfl before huge
    have := roundDown_le 1 va
    omega

theorem Splittable.next {after : Walk} {k : Nat} (splittable : Splittable ptbl va stop mem)
    (round : Round ptbl va stop mem after) (clears : RootClears ptbl va stop after k)
    (user : stop ≤ 2 ^ 47) (aligned : va % pageSize = 0) :
    Splittable after.ptbl after.va stop after.mem := by
  rcases splittable with succeeds | whole
  · exact .inl (round.succeeds succeeds)
  · refine .inr fun a low high huge => ?_
    have canonical : Canonical a := .inl (by omega)
    obtain ⟨old, apart⟩ := clears.huge a canonical huge
    have passed : va ≤ a := by
      have := lt_roundDown_add k va
      have := clears.next
      omega
    obtain ⟨starts, fits⟩ := whole a passed high old
    refine ⟨?_, fits⟩
    rcases Nat.eq_zero_or_pos k with rfl | positive
    · -- the round stayed in the table of `va`, so the huge page starts behind it
      have start : roundDown 0 va = va := roundDown_of_dvd (Nat.dvd_of_mod_eq_zero aligned)
      have differs : va ≠ roundDown 1 a := by
        intro same
        apply apart rfl
        rw [same, roundDown_div]
      have whole : span 0 ∣ roundDown 1 a := Dvd.dvd.mul_left (span_dvd (by decide)) _
      have next := clears.next
      rw [start] at next
      unfold pageSize span at *
      omega
    · apply le_roundDown_of_dvd ?_ low
      rw [clears.next]
      exact span_dvd_roundDown positive

theorem Splittable.onward {after : Walk} {k : Nat} (splittable : Splittable ptbl va stop mem)
    (round : Round ptbl va stop mem after) (clears : RootClears ptbl va stop after k)
    (user : stop ≤ 2 ^ 47) (aligned : va % pageSize = 0) :
    Splittable after.ptbl (min after.va stop) stop after.mem := by
  rcases min_choice after.va stop with same | same
  · rw [same]
    exact splittable.next round clears user aligned
  · rw [same]
    exact .inr fun a low high => absurd low (Nat.not_le_of_lt high)

theorem clearedFrom_self (aligned : stop % pageSize = 0) : clearedFrom stop stop = stop := by
  have base : topLevel 0 = 0 := by
    obtain ⟨-, zero | fits⟩ := topLevel_spec 0
    · exact zero
    · exact absurd fits (Nat.not_le_of_lt (span_pos _))
  unfold clearedFrom
  rw [Nat.sub_self, base]
  exact roundDown_of_dvd (Nat.dvd_of_mod_eq_zero aligned)

/-- Once a round has passed the entry of `va`, no later one reaches back. -/
theorem RootClears.clearedFrom_onward {after : Walk} {k : Nat}
    (clears : RootClears ptbl va stop after k) (alignedStop : stop % pageSize = 0)
    (before : va < stop) :
    clearedFrom (min after.va stop) stop = min after.va stop := by
  rcases min_choice after.va stop with same | same
  · rw [same]
    have ahead : va < after.va := by
      rw [clears.next]
      exact lt_roundDown_add k va
    have greedy : topLevel (stop - after.va) ≤ k := by
      obtain ⟨bounded, zero | fits⟩ := topLevel_spec (stop - va)
      · have := topLevel_mono (show stop - after.va ≤ stop - va by omega)
        omega
      · have shorter := topLevel_mono (show stop - after.va ≤ stop - va by omega)
        exact shorter.trans (clears.greedy _ bounded (by omega))
    apply roundDown_of_dvd
    nth_rewrite 2 [clears.next]
    exact span_dvd_roundDown greedy
  · rw [same]
    exact clearedFrom_self alignedStop

theorem RootClears.passes {after : Walk} {k : Nat} (clears : RootClears ptbl va stop after k)
    (aligned : va % pageSize = 0) : va + pageSize ≤ after.va := by
  have ahead := lt_roundDown_add k va
  have whole : span 0 ∣ roundDown k va + span k := span_dvd_roundDown (Nat.zero_le k)
  rw [clears.next]
  unfold pageSize at *
  generalize roundDown k va + span k = next at ahead whole
  unfold span at *
  omega

theorem RootClears.aligned {after : Walk} {k : Nat} (clears : RootClears ptbl va stop after k) :
    after.va % pageSize = 0 := by
  have whole : span 0 ∣ after.va := by
    rw [clears.next]
    exact span_dvd_roundDown (Nat.zero_le k)
  exact Nat.mod_eq_zero_of_dvd whole

/-- A round that passes a page needs one round less of fuel. -/
theorem fuel_onward {next fuel : Nat} (aligned : va % pageSize = 0)
    (alignedStop : stop % pageSize = 0) (before : va < stop) (passes : va + pageSize ≤ next)
    (enough : stop - va < (fuel + 1) * pageSize) : stop - min next stop < fuel * pageSize := by
  rw [Nat.succ_mul] at enough
  unfold pageSize span at *
  omega

theorem unmapLoop_step {after : Walk} {fuel : Nat} (round : unmapNext ptbl va stop mem = after)
    (before : va < stop) (moved : after.va ≠ va) :
    unmapLoop stop (fuel + 1) ptbl va mem =
      unmapLoop stop fuel after.ptbl (min after.va stop) after.mem := by
  have onward : (if stop = 0 ∨ after.va < stop then after.va else stop) = min after.va stop := by
    split <;> omega
  simp only [unmapLoop, before.ne, if_false, round, moved, onward]

theorem unmapLoop_spec (fuel : Nat) (wf : ptbl.Wf) (user : stop ≤ 2 ^ 47)
    (aligned : va % pageSize = 0) (alignedStop : stop % pageSize = 0) (le : va ≤ stop)
    (enough : stop - va < fuel * pageSize) (splittable : Splittable ptbl va stop mem) :
    (unmapLoop stop fuel ptbl va mem).ptbl.Wf ∧ ∀ a, Canonical a →
      pagetableLookup (unmapLoop stop fuel ptbl va mem).ptbl a =
        if clearedFrom va stop ≤ a ∧ a < stop then none else pagetableLookup ptbl a := by
  induction fuel generalizing ptbl va mem with
  | zero => simp at enough
  | succ fuel inductionHypothesis =>
      rcases Nat.eq_or_lt_of_le le with done | before
      · subst done
        have same : unmapLoop va (fuel + 1) ptbl va mem =
          { ptbl := ptbl, va := va, mem := mem } := by
          simp only [unmapLoop, if_true]
        rw [same]
        refine ⟨wf, fun a _ => ?_⟩
        rw [clearedFrom_self aligned, if_neg (by omega)]
      · have inUser : va < 2 ^ 47 := by omega
        obtain ⟨after, eq⟩ : ∃ after, unmapNext ptbl va stop mem = after := ⟨_, rfl⟩
        have round : Round ptbl va stop mem after := eq ▸ unmapNext_spec wf inUser aligned
        rcases round.outcome with ⟨k, clears⟩ | ⟨-, noMemory, huge, partly⟩
        · have passes : va + pageSize ≤ after.va := clears.passes aligned
          have moved : after.va ≠ va := by
            have := span_pos 0
            unfold pageSize at passes
            omega
          have aligned' : min after.va stop % pageSize = 0 := by
            rcases min_choice after.va stop with same | same
            · rw [same]
              exact clears.aligned
            · rw [same]
              exact alignedStop
          have enough' := fuel_onward aligned alignedStop before passes enough
          obtain ⟨wf', lookup'⟩ := inductionHypothesis round.wf aligned' (Nat.min_le_right _ _)
            enough' (splittable.onward round clears user aligned)
          rw [unmapLoop_step eq before moved]
          refine ⟨wf', fun a canonical => ?_⟩
          rw [lookup' a canonical, clears.clearedFrom_onward alignedStop before,
            clears.between aligned alignedStop before canonical]
          have starts : clearedFrom va stop ≤ va := roundDown_le _ _
          split_ifs <;> first | rfl | omega
        · have := splittable.not_stuck before noMemory huge
          omega

theorem unmapLoop_wf (fuel : Nat) (wf : ptbl.Wf) (user : stop ≤ 2 ^ 47)
    (aligned : va % pageSize = 0) (alignedStop : stop % pageSize = 0) (le : va ≤ stop) :
    (unmapLoop stop fuel ptbl va mem).ptbl.Wf := by
  induction fuel generalizing ptbl va mem with
  | zero => exact wf
  | succ fuel inductionHypothesis =>
      rcases Nat.eq_or_lt_of_le le with done | before
      · simp only [unmapLoop, done, if_true]
        exact wf
      · obtain ⟨after, eq⟩ : ∃ after, unmapNext ptbl va stop mem = after := ⟨_, rfl⟩
        have round : Round ptbl va stop mem after :=
          eq ▸ unmapNext_spec wf (by omega) aligned
        by_cases moved : after.va = va
        · simp only [unmapLoop, before.ne, if_false, eq, moved, if_true]
          exact round.wf
        · rw [unmapLoop_step eq before moved]
          rcases round.outcome with ⟨k, clears⟩ | ⟨stays, -⟩
          · apply inductionHypothesis round.wf ?_ (Nat.min_le_right _ _)
            rcases min_choice after.va stop with same | same
            · rw [same]
              exact clears.aligned
            · rw [same]
              exact alignedStop
          · exact absurd stays moved

/-- The arguments of a call: whole pages of the user half. -/
structure UserRange (va len : Nat) : Prop where
  aligned : va % pageSize = 0
  whole : len % pageSize = 0
  user : va + len ≤ 2 ^ 47

theorem UserRange.alignedStop {len : Nat} (range : UserRange va len) :
    (va + len) % pageSize = 0 := by
  rw [Nat.add_mod, range.aligned, range.whole]
  rfl

/-- A call clears everything from `va`, rounded down to the largest span that fits into
the range, up to the end of the range, and nothing else. -/
theorem pagetableUnmap_spec {len : Nat} (wf : ptbl.Wf) (range : UserRange va len)
    (splittable : Splittable ptbl va (va + len) mem) :
    ∃ after, pagetableUnmap ptbl va len mem = some after ∧ after.ptbl.Wf ∧ ∀ a, Canonical a →
      pagetableLookup after.ptbl a =
        if clearedFrom va (va + len) ≤ a ∧ a < va + len then none else pagetableLookup ptbl a := by
  have enough : va + len - va < (len / pageSize + 1) * pageSize := by
    rw [Nat.add_sub_cancel_left]
    exact Nat.lt_mul_of_div_lt (Nat.lt_succ_self _) (span_pos 0)
  refine ⟨_, if_pos ⟨range.aligned, range.whole⟩, ?_⟩
  exact unmapLoop_spec _ wf range.user range.aligned range.alignedStop (Nat.le_add_right _ _)
    enough splittable

theorem pagetableUnmap_wf {len : Nat} {after : Walk} (wf : ptbl.Wf) (range : UserRange va len)
    (returned : pagetableUnmap ptbl va len mem = some after) : after.ptbl.Wf := by
  unfold pagetableUnmap at returned
  rw [if_pos ⟨range.aligned, range.whole⟩] at returned
  cases returned
  exact unmapLoop_wf _ wf range.user range.aligned range.alignedStop (Nat.le_add_right _ _)

end Range

end Opal.PageTable
