import Opal.PageTable.Unmap

/-!
# What mapping one page does

`Installs t` collects what a function that maps a page of level `t` guarantees about an
entry on the way to it.  It holds of the last step of `map_4k` and `map_2m` and climbs
through `get_or_alloc_table`, one level at a time.
-/

namespace Opal.PageTable

section Tables

/-- The address has a table of entries of level `j`. -/
def Entry.HasTable (j : Nat) : {level : Nat} → Entry level → Nat → Prop
  | _, .absent, _ => False
  | _, .page _, _ => False
  | _, .huge _, _ => False
  | level + 1, .table _ entries, va => level = j ∨ HasTable j (entries (index level va)) va

/-- An entry becomes a table that maps the same addresses. -/
structure Opens {level : Nat} (entry : Entry (level + 1)) (flags : Flags)
    (entries : Nat → Entry level) : Prop where
  wf : entry.Wf → (Entry.table flags entries).Wf
  lookup : entry.Wf → ∀ a, (Entry.table flags entries).lookup a = entry.lookup a
  huge : ∀ a, (Entry.table flags entries).IsHuge a → entry.IsHuge a
  tables : ∀ j a, (Entry.table flags entries).HasTable j a ↔ level = j ∨ entry.HasTable j a

variable {level : Nat} {flags : Flags} {entries : Nat → Entry level}

theorem opens_table : Opens (.table flags entries) flags entries where
  wf := id
  lookup := fun _ _ => rfl
  huge := fun _ => id
  tables := by
    intro j a
    simp only [Entry.HasTable]
    tauto

theorem opens_absent : Opens (.absent : Entry (level + 1)) flags fun _ => .absent where
  wf := fun _ _ => trivial
  lookup := fun _ _ => rfl
  huge := fun _ => id
  tables := fun _ _ => Iff.rfl

theorem opens_huge {leaf : Page} :
    Opens (.huge leaf) (expandHugepage leaf).1 (expandHugepage leaf).2 where
  wf := by
    intro _ i
    trivial
  lookup := fun wf a => lookup_expandHugepage wf a
  huge := fun _ _ => trivial
  tables := fun _ _ => Iff.rfl

/-- `get_or_alloc_table` returns the table that is there, or one it has memory for. -/
theorem getOrAllocTable_cases (entry : Entry (level + 1)) (flags : Flags) :
    ∃ tableFlags entries, Opens entry tableFlags entries ∧
      (((∀ a, entry.HasTable level a) ∧
          ∀ mem, getOrAllocTable entry flags mem = (some (tableFlags, entries), mem)) ∨
        ((∀ j a, ¬ entry.HasTable j a) ∧ ∀ mem, getOrAllocTable entry flags mem =
          (if mem.head then some (tableFlags, entries) else none, mem.tail))) := by
  cases entry with
  | absent =>
      refine ⟨{ flags with writable := true }, fun _ => .absent, opens_absent, .inr ?_⟩
      exact ⟨fun _ _ => id, fun _ => rfl⟩
  | huge leaf => exact ⟨_, _, opens_huge, .inr ⟨fun _ _ => id, fun _ => rfl⟩⟩
  | table found entries =>
      exact ⟨found, entries, opens_table, .inl ⟨fun _ => .inl rfl, fun _ => rfl⟩⟩

end Tables

section Install

variable {level t va pa : Nat}

/-- The page of level `t` around `va` is in use, or for a huge page has a table. -/
def Obstructed (t va : Nat) {level : Nat} (entry : Entry level) : Prop :=
  (∃ a, a / span t = va / span t ∧ entry.lookup a ≠ none) ∨ (t = 1 ∧ entry.HasTable 0 va)

/-- What a function that maps a page of level `t` at `va` does to the entry of `va`. -/
structure Installs (t va pa : Nat) (install : Entry level → AllocOracle → Installed level) :
    Prop where
  wf : ∀ entry mem, entry.Wf → (install entry mem).entry.Wf
  succeeds : ∀ entry mem, mem.Succeeds → (install entry mem).mem.Succeeds
  lookup : ∀ entry mem, entry.Wf → ∀ a, a / span level = va / span level →
    (install entry mem).entry.lookup a =
      if (install entry mem).ok = true ∧ a / span t = va / span t then some (pa + a % span t)
      else entry.lookup a
  fresh : ∀ entry mem, entry.Wf → (install entry mem).ok = true → ¬ Obstructed t va entry
  refused : ∀ entry mem, entry.Wf → (install entry mem).ok = false →
    Obstructed t va entry ∨ (t < level ∧ ¬ entry.HasTable t va)
  grows : ∀ entry mem, entry.Wf → mem.Succeeds → (install entry mem).ok = false →
    Obstructed t va entry
  stops : ∀ entry mem, t < level → ¬ entry.HasTable t va → mem.head = false →
    (install entry mem).ok = false
  tables : ∀ entry mem, (install entry mem).ok = true → ∀ j a,
    a / span level = va / span level → ((install entry mem).entry.HasTable j a ↔
      entry.HasTable j a ∨ (t ≤ j ∧ j < level ∧ a / span (j + 1) = va / span (j + 1)))
  huge : ∀ entry mem a, a / span level = va / span level → (install entry mem).entry.IsHuge a →
    (entry.IsHuge a ∧ ((install entry mem).ok = true → a / span 1 ≠ va / span 1)) ∨
      (t = 1 ∧ (install entry mem).ok = true ∧ a / span 1 = va / span 1)
  supplies : ∀ entry, (install entry .always).ok = true → ∀ rest, ∃ mem,
    install entry mem = { entry := (install entry .always).entry, ok := true, mem := rest }

theorem not_isHuge_zero {entry : Entry 0} {a : Nat} : ¬ entry.IsHuge a := by
  cases entry <;> exact id

theorem not_hasTable_zero {entry : Entry 0} {j a : Nat} : ¬ entry.HasTable j a := by
  cases entry <;> exact id

theorem installPte_installs {flags : Flags} (aligned : pa % pageSize = 0) (bounded : pa < 2 ^ 52) :
    Installs 0 va pa (installPte pa flags) where
  wf := by
    intro entry mem _
    cases entry <;> trivial
  succeeds := by
    intro entry mem succeeds
    cases entry <;> exact succeeds
  lookup := by
    intro entry mem _ a near
    cases entry with
    | absent =>
        simp only [installPte, near, and_self, if_true, Entry.lookup,
          pteAddr_of_aligned aligned bounded]
        rfl
    | page leaf => simp [installPte]
  fresh := by
    intro entry mem _ ok
    cases entry with
    | absent => simp [Obstructed, Entry.lookup]
    | page leaf => simp [installPte] at ok
  refused := by
    intro entry mem _ failed
    cases entry with
    | absent => simp [installPte] at failed
    | page leaf => exact .inl (.inl ⟨va, rfl, by simp [Entry.lookup]⟩)
  grows := by
    intro entry mem _ _ failed
    cases entry with
    | absent => simp [installPte] at failed
    | page leaf => exact .inl ⟨va, rfl, by simp [Entry.lookup]⟩
  stops := fun _ _ impossible => absurd impossible (lt_irrefl 0)
  tables := by
    intro entry mem _ j a _
    simp [not_hasTable_zero]
  huge := fun _ _ _ _ huge => absurd huge not_isHuge_zero
  supplies := by
    intro entry ok rest
    cases entry with
    | absent => exact ⟨rest, rfl⟩
    | page leaf => simp [installPte] at ok

theorem pteAddr_of_huge (aligned : pa % hugePageSize = 0) (bounded : pa < 2 ^ 52) :
    pteAddr pa = pa := by
  refine pteAddr_of_aligned ?_ bounded
  unfold hugePageSize pageSize span at *
  omega

theorem installPde_installs {flags : Flags} (aligned : pa % hugePageSize = 0)
    (bounded : pa < 2 ^ 52) : Installs 1 va pa (installPde pa flags) where
  wf := by
    intro entry mem wf
    cases entry with
    | absent =>
        simp only [installPde, Entry.Wf, pteAddr_of_huge aligned bounded]
        exact ⟨aligned, bounded⟩
    | huge leaf => exact wf
    | table flags entries => exact wf
  succeeds := by
    intro entry mem succeeds
    cases entry <;> exact succeeds
  lookup := by
    intro entry mem _ a near
    cases entry with
    | absent =>
        simp only [installPde, near, and_self, if_true, Entry.lookup,
          pteAddr_of_huge aligned bounded]
        rfl
    | huge leaf => simp [installPde]
    | table flags entries => simp [installPde]
  fresh := by
    intro entry mem _ ok
    cases entry with
    | absent => simp [Obstructed, Entry.lookup, Entry.HasTable]
    | huge leaf => simp [installPde] at ok
    | table flags entries => simp [installPde] at ok
  refused := by
    intro entry mem _ failed
    cases entry with
    | absent => simp [installPde] at failed
    | huge leaf => exact .inl (.inl ⟨va, rfl, by simp [Entry.lookup]⟩)
    | table flags entries => exact .inl (.inr ⟨rfl, .inl rfl⟩)
  grows := by
    intro entry mem _ _ failed
    cases entry with
    | absent => simp [installPde] at failed
    | huge leaf => exact .inl ⟨va, rfl, by simp [Entry.lookup]⟩
    | table flags entries => exact .inr ⟨rfl, .inl rfl⟩
  stops := fun _ _ impossible => absurd impossible (lt_irrefl 1)
  tables := by
    intro entry mem ok j a _
    cases entry with
    | absent =>
        simp only [installPde, Entry.HasTable, false_or, false_iff]
        omega
    | huge leaf => simp [installPde] at ok
    | table flags entries => simp [installPde] at ok
  huge := by
    intro entry mem a near huge
    cases entry with
    | absent => exact .inr ⟨rfl, rfl, near⟩
    | huge leaf => exact .inl ⟨trivial, by simp [installPde]⟩
    | table flags entries => exact .inl ⟨huge, by simp [installPde]⟩
  supplies := by
    intro entry ok rest
    cases entry with
    | absent => exact ⟨rest, rfl⟩
    | huge leaf => simp [installPde] at ok
    | table flags entries => simp [installPde] at ok

end Install

section Climb

variable {level t va pa : Nat} {flags tableFlags : Flags} {entries : Nat → Entry level}
  {install : Entry level → AllocOracle → Installed level} {entry : Entry (level + 1)}
  {mem : AllocOracle}

/-- Installs in the entry of `va` of an open table. -/
def descend (tableFlags : Flags) (entries : Nat → Entry level) (va : Nat)
    (install : Entry level → AllocOracle → Installed level) (mem : AllocOracle) :
    Installed (level + 1) where
  entry := .table tableFlags
    (Function.update entries (index level va) (install (entries (index level va)) mem).entry)
  ok := (install (entries (index level va)) mem).ok
  mem := (install (entries (index level va)) mem).mem

theorem withTable_cases (va : Nat) (flags : Flags)
    (install : Entry level → AllocOracle → Installed level) (entry : Entry (level + 1)) :
    ∃ tableFlags entries, Opens entry tableFlags entries ∧
      (((∀ a, entry.HasTable level a) ∧ ∀ mem, withTable va flags install entry mem =
          descend tableFlags entries va install mem) ∨
        ((∀ j a, ¬ entry.HasTable j a) ∧ ∀ mem, withTable va flags install entry mem =
          if mem.head then descend tableFlags entries va install mem.tail
          else { entry := entry, ok := false, mem := mem.tail })) := by
  obtain ⟨tableFlags, entries, opens, ⟨has, found⟩ | ⟨missing, made⟩⟩ :=
    getOrAllocTable_cases entry flags
  · refine ⟨tableFlags, entries, opens, .inl ⟨has, fun mem => ?_⟩⟩
    simp only [withTable, found, descend]
  · refine ⟨tableFlags, entries, opens, .inr ⟨missing, fun mem => ?_⟩⟩
    simp only [withTable, made]
    cases mem.head <;> rfl

theorem Opens.hasTable_below (opens : Opens entry tableFlags entries) {j : Nat}
    (below : j ≠ level) :
    (entries (index level va)).HasTable j va ↔ entry.HasTable j va := by
  have above := opens.tables j va
  simp only [Entry.HasTable, below.symm, false_or] at above
  exact above

/-- An obstruction below is one of the entry above. -/
theorem Opens.obstructed_iff (opens : Opens entry tableFlags entries) (wf : entry.Wf)
    (le : t ≤ level) :
    Obstructed t va (entries (index level va)) ↔ Obstructed t va entry := by
  have lookup (a : Nat) (inside : a / span t = va / span t) :
      (entries (index level va)).lookup a = entry.lookup a := by
    rw [← opens.lookup wf, lookup_table_of_same (div_span_of_le le inside)]
  unfold Obstructed
  refine or_congr ?_ ?_
  · refine exists_congr fun a => and_congr_right fun inside => ?_
    rw [lookup a inside]
  · refine and_congr_right fun isHuge => ?_
    exact opens.hasTable_below (by omega)

/-- The guarantees climb from the entries of an open table to the entry that points to it. -/
theorem Installs.descend_lookup (installs : Installs t va pa install)
    (opens : Opens entry tableFlags entries) (wf : entry.Wf) (le : t ≤ level) {a : Nat}
    (near : a / span (level + 1) = va / span (level + 1)) :
    (descend tableFlags entries va install mem).entry.lookup a =
      if (descend tableFlags entries va install mem).ok = true ∧ a / span t = va / span t then
        some (pa + a % span t)
      else entry.lookup a := by
  have childWf := opens.wf wf (index level va)
  refine (lookup_update near).trans ?_
  split
  · rename_i inside
    refine (installs.lookup _ mem childWf a inside).trans ?_
    rw [← opens.lookup wf, lookup_table_of_same inside]
    rfl
  · rename_i outside
    rw [if_neg fun both => outside (div_span_of_le le both.2), opens.lookup wf]

theorem Installs.descend_tables (installs : Installs t va pa install)
    (opens : Opens entry tableFlags entries) (le : t ≤ level)
    (ok : (descend tableFlags entries va install mem).ok = true) (j : Nat) {a : Nat}
    (near : a / span (level + 1) = va / span (level + 1)) :
    (descend tableFlags entries va install mem).entry.HasTable j a ↔
      entry.HasTable j a ∨ (t ≤ j ∧ j < level + 1 ∧ a / span (j + 1) = va / span (j + 1)) := by
  have above := opens.tables j a
  simp only [descend, Entry.HasTable] at above ⊢
  by_cases own : level = j
  · subst own
    simp only [true_or, true_iff]
    exact .inr ⟨le, Nat.lt_succ_self _, near⟩
  · simp only [own, false_or] at above ⊢
    rw [← above]
    by_cases inside : a / span level = va / span level
    · have same := (index_eq_iff near).mpr inside
      rw [same, Function.update_self, installs.tables _ mem ok j a inside]
      refine or_congr_right (and_congr_right fun _ => and_congr_left fun _ => ?_)
      omega
    · have apart : index level a ≠ index level va := fun same =>
        inside ((index_eq_iff near).mp same)
      rw [Function.update_of_ne apart]
      refine ⟨.inl, fun either => either.resolve_right ?_⟩
      rintro ⟨-, lower, same⟩
      exact inside (div_span_of_le (by omega) same)

theorem Installs.descend_huge (installs : Installs t va pa install)
    (opens : Opens entry tableFlags entries) {a : Nat}
    (near : a / span (level + 1) = va / span (level + 1))
    (huge : (descend tableFlags entries va install mem).entry.IsHuge a) :
    (entry.IsHuge a ∧
      ((descend tableFlags entries va install mem).ok = true → a / span 1 ≠ va / span 1)) ∨
      (t = 1 ∧ (descend tableFlags entries va install mem).ok = true ∧
        a / span 1 = va / span 1) := by
  simp only [descend] at huge ⊢
  rw [isHuge_update near] at huge
  split at huge
  · rename_i inside
    rcases installs.huge _ mem a inside huge with ⟨old, apart⟩ | new
    · refine .inl ⟨opens.huge a ?_, apart⟩
      simp only [Entry.IsHuge, index, inside]
      exact old
    · exact .inr new
  · rename_i outside
    refine .inl ⟨opens.huge a huge, fun _ inside => ?_⟩
    cases level with
    | zero => exact not_isHuge_table huge
    | succ level => exact outside (div_span_of_le (by omega) inside)

theorem withTable_installs (installs : Installs t va pa install) (le : t ≤ level) :
    Installs t va pa (withTable va flags install) where
  wf := by
    intro entry mem wf
    obtain ⟨tableFlags, entries, opens, ⟨-, found⟩ | ⟨-, made⟩⟩ :=
      withTable_cases va flags install entry
    · rw [found]
      exact wf_update (opens.wf wf) (installs.wf _ _ (opens.wf wf _))
    · rw [made]
      split
      · exact wf_update (opens.wf wf) (installs.wf _ _ (opens.wf wf _))
      · exact wf
  succeeds := by
    intro entry mem succeeds
    obtain ⟨tableFlags, entries, opens, ⟨-, found⟩ | ⟨-, made⟩⟩ :=
      withTable_cases va flags install entry
    · rw [found]
      exact installs.succeeds _ _ succeeds
    · rw [made, if_pos succeeds.head]
      exact installs.succeeds _ _ succeeds.tail
  lookup := by
    intro entry mem wf a near
    obtain ⟨tableFlags, entries, opens, ⟨-, found⟩ | ⟨-, made⟩⟩ :=
      withTable_cases va flags install entry
    · rw [found]
      exact installs.descend_lookup opens wf le near
    · rw [made]
      split
      · exact installs.descend_lookup opens wf le near
      · simp
  fresh := by
    intro entry mem wf ok
    obtain ⟨tableFlags, entries, opens, ⟨-, found⟩ | ⟨-, made⟩⟩ :=
      withTable_cases va flags install entry
    · rw [found] at ok
      rw [← opens.obstructed_iff wf le]
      exact installs.fresh _ _ (opens.wf wf _) ok
    · rw [made] at ok
      split at ok
      · rw [← opens.obstructed_iff wf le]
        exact installs.fresh _ _ (opens.wf wf _) ok
      · cases ok
  refused := by
    intro entry mem wf failed
    obtain ⟨tableFlags, entries, opens, ⟨-, found⟩ | ⟨missing, -⟩⟩ :=
      withTable_cases va flags install entry
    · rw [found] at failed
      rcases installs.refused _ _ (opens.wf wf _) failed with obstructed | ⟨lower, none⟩
      · exact .inl ((opens.obstructed_iff wf le).mp obstructed)
      · exact .inr ⟨by omega, fun has => none ((opens.hasTable_below (by omega)).mpr has)⟩
    · exact .inr ⟨by omega, missing t va⟩
  grows := by
    intro entry mem wf succeeds failed
    obtain ⟨tableFlags, entries, opens, ⟨-, found⟩ | ⟨-, made⟩⟩ :=
      withTable_cases va flags install entry
    · rw [found] at failed
      exact (opens.obstructed_iff wf le).mp
        (installs.grows _ _ (opens.wf wf _) succeeds failed)
    · rw [made, if_pos succeeds.head] at failed
      exact (opens.obstructed_iff wf le).mp
        (installs.grows _ _ (opens.wf wf _) succeeds.tail failed)
  stops := by
    intro entry mem _ none noMemory
    obtain ⟨tableFlags, entries, opens, ⟨has, found⟩ | ⟨-, made⟩⟩ :=
      withTable_cases va flags install entry
    · rw [found]
      have differs : t ≠ level := fun same => none (same ▸ has va)
      refine installs.stops _ _ (by omega) ?_ noMemory
      exact fun below => none ((opens.hasTable_below differs).mp below)
    · rw [made, noMemory]
      rfl
  tables := by
    intro entry mem ok j a near
    obtain ⟨tableFlags, entries, opens, ⟨-, found⟩ | ⟨-, made⟩⟩ :=
      withTable_cases va flags install entry
    · rw [found] at ok ⊢
      exact installs.descend_tables opens le ok j near
    · rw [made] at ok ⊢
      split at ok
      · rename_i memory
        rw [if_pos memory]
        exact installs.descend_tables opens le ok j near
      · cases ok
  huge := by
    intro entry mem a near huge
    obtain ⟨tableFlags, entries, opens, ⟨-, found⟩ | ⟨-, made⟩⟩ :=
      withTable_cases va flags install entry
    · rw [found] at huge ⊢
      exact installs.descend_huge opens near huge
    · rw [made] at huge ⊢
      split at huge
      · rename_i memory
        rw [if_pos memory]
        exact installs.descend_huge opens near huge
      · rename_i noMemory
        rw [if_neg noMemory]
        exact .inl ⟨huge, nofun⟩
  supplies := by
    intro entry ok rest
    obtain ⟨tableFlags, entries, opens, ⟨-, found⟩ | ⟨-, made⟩⟩ :=
      withTable_cases va flags install entry
    · rw [found] at ok ⊢
      obtain ⟨mem, supplied⟩ := installs.supplies _ ok rest
      refine ⟨mem, ?_⟩
      rw [found]
      simp only [descend, supplied]
    · have same : AllocOracle.always.tail = AllocOracle.always := rfl
      rw [made, if_pos AllocOracle.always_succeeds.head, same] at ok ⊢
      obtain ⟨mem, supplied⟩ := installs.supplies _ ok rest
      refine ⟨Stream'.cons true mem, ?_⟩
      rw [made, if_pos (Stream'.head_cons true mem)]
      simp only [descend, Stream'.tail_cons, supplied]

end Climb

section Root

variable {t va pa : Nat} {ptbl : Pagetable} {mem : AllocOracle}

def Pagetable.HasTable (ptbl : Pagetable) (j va : Nat) : Prop := (ptbl (index 3 va)).HasTable j va

def Pagetable.Obstructed (ptbl : Pagetable) (t va : Nat) : Prop :=
  (∃ a, a / span t = va / span t ∧ pagetableLookup ptbl a ≠ none) ∨
    (t = 1 ∧ ptbl.HasTable 0 va)

theorem obstructed_root_iff (le : t ≤ 3) :
    Obstructed t va (ptbl (index 3 va)) ↔ ptbl.Obstructed t va := by
  unfold Obstructed Pagetable.Obstructed pagetableLookup
  refine or_congr (exists_congr fun a => and_congr_right fun inside => ?_) Iff.rfl
  rw [show index 3 a = index 3 va by rw [index, index, div_span_of_le le inside]]

/-- What a function that maps a page of level `t` at `va` does to a page table. -/
structure MapsPage (t va pa : Nat) (ptbl : Pagetable) (map : AllocOracle → Mapped) : Prop where
  wf : ∀ mem, (map mem).ptbl.Wf
  succeeds : ∀ mem, mem.Succeeds → (map mem).mem.Succeeds
  lookup : ∀ mem a, Canonical a → pagetableLookup (map mem).ptbl a =
    if (map mem).ok = true ∧ a / span t = va / span t then some (pa + a % span t)
    else pagetableLookup ptbl a
  fresh : ∀ mem, (map mem).ok = true → ¬ ptbl.Obstructed t va
  refused : ∀ mem, (map mem).ok = false → ptbl.Obstructed t va ∨ ¬ ptbl.HasTable t va
  grows : ∀ mem, mem.Succeeds → (map mem).ok = false → ptbl.Obstructed t va
  stops : ∀ mem, ¬ ptbl.HasTable t va → mem.head = false → (map mem).ok = false
  tables : ∀ mem, (map mem).ok = true → ∀ j < 3, ∀ a, Canonical a →
    ((map mem).ptbl.HasTable j a ↔
      ptbl.HasTable j a ∨ (t ≤ j ∧ a / span (j + 1) = va / span (j + 1)))
  huge : ∀ mem a, Canonical a → (map mem).ptbl.IsHuge a →
    (ptbl.IsHuge a ∧ ((map mem).ok = true → a / span 1 ≠ va / span 1)) ∨
      (t = 1 ∧ (map mem).ok = true ∧ a / span 1 = va / span 1)
  supplies : (map .always).ok = true → ∀ rest, ∃ mem,
    map mem = { ptbl := (map .always).ptbl, ok := true, mem := rest }

theorem atRoot_mapsPage {install : Entry 3 → AllocOracle → Installed 3}
    (installs : Installs t va pa install) (lower : t < 3) (wf : ptbl.Wf) (user : va < 2 ^ 47) :
    MapsPage t va pa ptbl fun mem => atRoot ptbl va mem install := by
  have inner : (ptbl (index 3 va)).Wf := wf _ (index_root_lt user)
  have obstructed : Obstructed t va (ptbl (index 3 va)) ↔ ptbl.Obstructed t va :=
    obstructed_root_iff lower.le
  -- an address is in the entry of `va` or in one the call leaves alone
  have place (a : Nat) (canonical : Canonical a) :
      (index 3 a = index 3 va ∧ a / span 3 = va / span 3) ∨
        (index 3 a ≠ index 3 va ∧ a / span 3 ≠ va / span 3) := by
    have near := index_root_eq_iff canonical user
    by_cases inside : a / span 3 = va / span 3
    · exact .inl ⟨near.mpr inside, inside⟩
    · exact .inr ⟨fun same => inside (near.mp same), inside⟩
  refine ⟨fun mem => wf.update (installs.wf _ _ inner), fun mem => installs.succeeds _ _, ?_,
    ?_, ?_, ?_, fun mem => installs.stops _ _ lower, ?_, ?_, ?_⟩
  · intro mem a canonical
    rcases place a canonical with ⟨same, inside⟩ | ⟨apart, outside⟩
    · simp only [pagetableLookup, atRoot, same, Function.update_self]
      exact installs.lookup _ mem inner a inside
    · rw [if_neg fun both => outside (div_span_of_le lower.le both.2)]
      simp only [pagetableLookup, atRoot]
      rw [Function.update_of_ne apart]
  · intro mem ok
    exact obstructed.not.mp (installs.fresh _ _ inner ok)
  · intro mem failed
    rcases installs.refused _ _ inner failed with blocked | ⟨-, none⟩
    · exact .inl (obstructed.mp blocked)
    · exact .inr none
  · intro mem succeeds failed
    exact obstructed.mp (installs.grows _ _ inner succeeds failed)
  · intro mem ok j below a canonical
    rcases place a canonical with ⟨same, inside⟩ | ⟨apart, outside⟩
    · simp only [Pagetable.HasTable, atRoot, same, Function.update_self]
      rw [installs.tables _ mem ok j a inside]
      simp [below]
    · simp only [Pagetable.HasTable, atRoot]
      rw [Function.update_of_ne apart]
      refine ⟨.inl, fun either => either.resolve_right ?_⟩
      rintro ⟨-, same⟩
      exact outside (div_span_of_le (by omega) same)
  · intro mem a canonical huge
    rcases place a canonical with ⟨same, inside⟩ | ⟨apart, outside⟩
    · simp only [Pagetable.IsHuge, atRoot, same, Function.update_self] at huge ⊢
      exact installs.huge _ mem a inside huge
    · simp only [Pagetable.IsHuge, atRoot] at huge ⊢
      rw [Function.update_of_ne apart] at huge
      exact .inl ⟨huge, fun _ same => outside (div_span_of_le (by decide) same)⟩
  · intro ok rest
    obtain ⟨mem, supplied⟩ := installs.supplies _ ok rest
    refine ⟨mem, ?_⟩
    simp only [atRoot, supplied]

/-- `map_4k` and `map_2m`, by the level of the page. -/
def mapPage (t : Nat) (ptbl : Pagetable) (va pa : Nat) (flags : Flags) (mem : AllocOracle) :
    Mapped :=
  if t = 1 then map2m ptbl va pa flags mem else map4k ptbl va pa flags mem

theorem mapPage_mapsPage {flags : Flags} (small : t ≤ 1) (wf : ptbl.Wf) (user : va < 2 ^ 47)
    (aligned : pa % span t = 0) (bounded : pa < 2 ^ 52) :
    MapsPage t va pa ptbl (mapPage t ptbl va pa flags) := by
  rcases Nat.le_one_iff_eq_zero_or_eq_one.mp small with rfl | rfl
  · have pte : Installs 0 va pa (installPte pa flags) := installPte_installs aligned bounded
    have pt : Installs 0 va pa (withTable va flags (installPte pa flags)) :=
      withTable_installs pte (by decide)
    have pd : Installs 0 va pa (withTable va flags (withTable va flags (installPte pa flags))) :=
      withTable_installs pt (by decide)
    exact atRoot_mapsPage (withTable_installs pd (by decide)) (by decide) wf user
  · have pde : Installs 1 va pa (installPde pa flags) := installPde_installs aligned bounded
    have pd : Installs 1 va pa (withTable va flags (installPde pa flags)) :=
      withTable_installs pde (by decide)
    exact atRoot_mapsPage (withTable_installs pd (by decide)) (by decide) wf user

end Root

end Opal.PageTable
