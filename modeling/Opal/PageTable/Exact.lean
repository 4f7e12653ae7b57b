import Opal.PageTable.Map

/-!
# When mapping and unmapping are exact

The chunks of a call of `pagetable_map` are fixed by its arguments.  Whether the call
can stop at one of them is read off the page table before the call; what the rollback
then clears is what `pagetable_unmap` clears.
-/

namespace Opal.PageTable

section Chunks

/-- The level of the page that is mapped at offset `o` of the range. -/
def chunkLevel (va pa len o : Nat) : Nat :=
  if canUseHuge (va + o) (pa + o) (len - o) then 1 else 0

/-- The offsets at which the rounds of a call start. -/
inductive Starts (va pa len : Nat) : Nat → Prop where
  | zero : Starts va pa len 0
  | next {o : Nat} (start : Starts va pa len o) (before : o < len) :
      Starts va pa len (o + span (chunkLevel va pa len o))

/-- The arguments of a call of `pagetable_map`. -/
structure MapRange (va pa len : Nat) : Prop extends UserRange va len where
  physical : pa % pageSize = 0
  bounded : pa + len ≤ 2 ^ 52

variable {va pa len o : Nat}

theorem chunkLevel_le : chunkLevel va pa len o ≤ 1 := by
  unfold chunkLevel
  split <;> decide

/-- A chunk is aligned to its own size and fits into the range. -/
theorem MapRange.chunk (range : MapRange va pa len) (start : Starts va pa len o)
    (before : o < len) :
    (va + o) % span (chunkLevel va pa len o) = 0 ∧
      (pa + o) % span (chunkLevel va pa len o) = 0 ∧
      o + span (chunkLevel va pa len o) ≤ len ∧ o % pageSize = 0 := by
  have aligned := range.aligned
  have whole := range.whole
  have physical := range.physical
  have offset : o % pageSize = 0 := by
    clear before
    induction start with
    | zero => rfl
    | next _ _ inductionHypothesis =>
        have step : span (chunkLevel va pa len ‹Nat›) % pageSize = 0 :=
          Nat.mod_eq_zero_of_dvd (span_dvd (Nat.zero_le _))
        rw [Nat.add_mod, inductionHypothesis, step]
        rfl
  unfold chunkLevel
  split
  · rename_i huge
    simp only [canUseHuge, Bool.and_eq_true, decide_eq_true_eq] at huge
    unfold hugePageSize at huge
    refine ⟨huge.1.2, huge.2, by omega, offset⟩
  · unfold pageSize span at *
    omega

/-- No chunk starts inside another one. -/
theorem Starts.apart {p : Nat} (start : Starts va pa len o) (other : Starts va pa len p)
    (lower : p < o) : p + span (chunkLevel va pa len p) ≤ o := by
  induction o using Nat.strong_induction_on generalizing p with
  | _ o inductionHypothesis =>
      cases start with
      | zero => exact absurd lower (Nat.not_lt_zero p)
      | @next q start before =>
          have positive := span_pos (chunkLevel va pa len q)
          rcases Nat.lt_trichotomy p q with less | rfl | greater
          · have := inductionHypothesis q (by omega) start other less
            omega
          · exact le_rfl
          · have := inductionHypothesis p lower other start greater
            omega

theorem Starts.le_of_lt {p : Nat} (start : Starts va pa len o) (other : Starts va pa len p)
    (lower : p < o + span (chunkLevel va pa len o)) : p ≤ o := by
  by_contra greater
  have := other.apart start (Nat.lt_of_not_le greater)
  omega

end Chunks

section Progress

variable {va pa len o : Nat} {ptbl cur : Pagetable} {flags : Flags} {mem : AllocOracle}

/-- The page table when the rounds before offset `o` are done. -/
structure Reached (ptbl : Pagetable) (va pa len o : Nat) (cur : Pagetable) : Prop where
  wf : cur.Wf
  start : Starts va pa len o
  le : o ≤ len
  lookup : ∀ a, Canonical a → pagetableLookup cur a =
    if va ≤ a ∧ a < va + o then some (pa + (a - va)) else pagetableLookup ptbl a
  free : ∀ a, va ≤ a → a < va + o → pagetableLookup ptbl a = none
  clear : ∀ p < o, Starts va pa len p → ¬ ptbl.Obstructed (chunkLevel va pa len p) (va + p)
  tables : ∀ j < 3, ∀ a, Canonical a → (cur.HasTable j a ↔ ptbl.HasTable j a ∨
    ∃ p < o, Starts va pa len p ∧ chunkLevel va pa len p ≤ j ∧
      a / span (j + 1) = (va + p) / span (j + 1))
  huge : ∀ a, va ≤ a → a < va + o → cur.IsHuge a →
    va ≤ roundDown 1 a ∧ roundDown 1 a + span 1 ≤ va + o

theorem reached_zero (wf : ptbl.Wf) : Reached ptbl va pa len 0 ptbl where
  wf := wf
  start := .zero
  le := Nat.zero_le _
  lookup := fun a _ => (if_neg (by omega)).symm
  free := fun a _ _ => by omega
  clear := fun p lower => absurd lower (Nat.not_lt_zero p)
  tables := by
    intro j _ a _
    simp
  huge := fun a _ _ => by omega

theorem MapRange.user_chunk (range : MapRange va pa len) (before : o < len) : va + o < 2 ^ 47 := by
  have := range.user
  omega

/-- The addresses of a chunk. -/
theorem MapRange.chunk_iff (range : MapRange va pa len) (start : Starts va pa len o)
    (before : o < len) (a : Nat) :
    a / span (chunkLevel va pa len o) = (va + o) / span (chunkLevel va pa len o) ↔
      va + o ≤ a ∧ a < va + o + span (chunkLevel va pa len o) := by
  have whole := Nat.dvd_of_mod_eq_zero (range.chunk start before).1
  rw [div_span_eq_iff, roundDown_of_dvd whole]

theorem MapRange.mapsPage (range : MapRange va pa len) (start : Starts va pa len o)
    (before : o < len) (wf : cur.Wf) :
    MapsPage (chunkLevel va pa len o) (va + o) (pa + o) cur
      (mapPage (chunkLevel va pa len o) cur (va + o) (pa + o) flags) := by
  have bounded := range.bounded
  exact mapPage_mapsPage chunkLevel_le wf (range.user_chunk before) (range.chunk start before).2.1
    (by omega)

/-- The rounds so far do not get in the way of the next one. -/
theorem Reached.obstructed_iff (reached : Reached ptbl va pa len o cur)
    (range : MapRange va pa len) (before : o < len) :
    cur.Obstructed (chunkLevel va pa len o) (va + o) ↔
      ptbl.Obstructed (chunkLevel va pa len o) (va + o) := by
  have inChunk := range.chunk_iff reached.start before
  have user := range.user
  obtain ⟨aligned, -, fits, -⟩ := range.chunk reached.start before
  refine or_congr (exists_congr fun a => and_congr_right fun inside => ?_)
    (and_congr_right fun isHuge => ?_)
  · obtain ⟨low, high⟩ := (inChunk a).mp inside
    rw [reached.lookup a (.inl (by omega)), if_neg (by omega)]
  · rw [reached.tables 0 (by decide) (va + o) (.inl (by omega))]
    refine ⟨fun either => either.resolve_right ?_, .inl⟩
    rintro ⟨p, lower, -, -, same⟩
    rw [isHuge] at aligned
    have low := (div_span_eq_iff.mp same.symm).1
    rw [roundDown_of_dvd (Nat.dvd_of_mod_eq_zero aligned)] at low
    omega

/-- A round that maps its page. -/
theorem Reached.step (reached : Reached ptbl va pa len o cur) (range : MapRange va pa len)
    (before : o < len)
    (ok : (mapPage (chunkLevel va pa len o) cur (va + o) (pa + o) flags mem).ok = true) :
    Reached ptbl va pa len (o + span (chunkLevel va pa len o))
      (mapPage (chunkLevel va pa len o) cur (va + o) (pa + o) flags mem).ptbl := by
  have maps : MapsPage _ _ _ cur (mapPage _ cur (va + o) (pa + o) flags) :=
    range.mapsPage reached.start before reached.wf
  have inChunk := range.chunk_iff reached.start before
  have user := range.user
  obtain ⟨aligned, -, fits, -⟩ := range.chunk reached.start before
  have unobstructed := (reached.obstructed_iff range before).not.mp (maps.fresh mem ok)
  have positive := span_pos (chunkLevel va pa len o)
  refine ⟨maps.wf mem, reached.start.next before, fits, ?_, ?_, ?_, ?_, ?_⟩
  · intro a canonical
    rw [maps.lookup mem a canonical, reached.lookup a canonical]
    by_cases inside : va + o ≤ a ∧ a < va + o + span (chunkLevel va pa len o)
    · have offset : a % span (chunkLevel va pa len o) = a - (va + o) := by
        conv_lhs => rw [show a = va + o + (a - (va + o)) by omega]
        rw [Nat.add_mod, aligned, Nat.zero_add, Nat.mod_mod, Nat.mod_eq_of_lt (by omega)]
      rw [if_pos ⟨ok, (inChunk a).mpr inside⟩, if_pos (by omega), offset]
      congr 1
      omega
    · rw [if_neg fun both => inside ((inChunk a).mp both.2)]
      refine if_congr ?_ rfl rfl
      omega
  · intro a low high
    by_cases old : a < va + o
    · exact reached.free a low old
    · by_contra present
      exact unobstructed (.inl ⟨a, (inChunk a).mpr ⟨by omega, by omega⟩, present⟩)
  · intro p lower start
    rcases Nat.lt_or_eq_of_le (reached.start.le_of_lt start lower) with less | rfl
    · exact reached.clear p less start
    · exact unobstructed
  · intro j below a canonical
    rw [maps.tables mem ok j below a canonical, reached.tables j below a canonical, or_assoc]
    refine or_congr_right ⟨?_, ?_⟩
    · rintro (⟨p, lower, start, level, same⟩ | ⟨level, same⟩)
      · exact ⟨p, by omega, start, level, same⟩
      · exact ⟨o, by omega, reached.start, level, same⟩
    · rintro ⟨p, lower, start, level, same⟩
      rcases Nat.lt_or_eq_of_le (reached.start.le_of_lt start lower) with less | rfl
      · exact .inl ⟨p, less, start, level, same⟩
      · exact .inr ⟨level, same⟩
  · intro a low high huge
    rcases maps.huge mem a (.inl (by omega)) huge with ⟨old, apart⟩ | ⟨level, -, same⟩
    · by_cases passed : a < va + o
      · have := reached.huge a low passed old
        omega
      · have inside := (inChunk a).mpr ⟨by omega, by omega⟩
        exact absurd (div_span_of_le chunkLevel_le inside) (apart ok)
    · rw [level] at aligned ⊢
      have start : roundDown 1 a = va + o := by
        unfold roundDown
        rw [same]
        exact roundDown_of_dvd (Nat.dvd_of_mod_eq_zero aligned)
      omega

end Progress

section Rounds

variable {va pa len o : Nat} {ptbl cur : Pagetable} {flags : Flags} {mem : AllocOracle}

/-- One round of the loop, at offset `o` of the range. -/
theorem mapLoop_step {fuel : Nat} {round : Mapped} (before : o < len)
    (eq : mapPage (chunkLevel va pa len o) cur (va + o) (pa + o) flags mem = round) :
    mapLoop flags (fuel + 1) cur (va + o) (pa + o) (len - o) mem =
      if round.ok then
        mapLoop flags fuel round.ptbl (va + (o + span (chunkLevel va pa len o)))
          (pa + (o + span (chunkLevel va pa len o)))
          (len - (o + span (chunkLevel va pa len o))) round.mem
      else
        { ptbl := round.ptbl, vaCur := va + o, paCur := pa + o, ok := false, mem :=
          round.mem } := by
  subst eq
  have more : len - o ≠ 0 := by omega
  simp only [mapLoop, if_neg more, mapPage, chunkLevel, ← Nat.add_assoc, Nat.sub_add_eq]
  by_cases huge : canUseHuge (va + o) (pa + o) (len - o) = true
  · simp only [if_pos huge, hugePageSize, if_true]
  · simp only [if_neg huge, pageSize, Nat.zero_ne_one, if_false]

/-- The loop has stopped at offset `o`, where no page could be mapped. -/
structure StoppedAt (ptbl : Pagetable) (va pa len : Nat) (mem : AllocOracle) (o : Nat)
    (after : Progress) : Prop where
  failed : after.ok = false
  before : o < len
  paCur : after.paCur = pa + o
  refused : ∃ cur flags mem', Reached ptbl va pa len o cur ∧
    (mapPage (chunkLevel va pa len o) cur (va + o) (pa + o) flags mem').ok = false ∧
    after.ptbl = (mapPage (chunkLevel va pa len o) cur (va + o) (pa + o) flags mem').ptbl ∧
    (mem.Succeeds → mem'.Succeeds)

/-- The loop maps the whole range or stops at one of the chunks. -/
theorem mapLoop_spec (range : MapRange va pa len) (flags : Flags) (mem : AllocOracle) (fuel : Nat)
    (reached : Reached ptbl va pa len o cur) (enough : len - o ≤ fuel * pageSize) :
    ((mapLoop flags fuel cur (va + o) (pa + o) (len - o) mem).ok = true ∧
        (mapLoop flags fuel cur (va + o) (pa + o) (len - o) mem).vaCur = va + len ∧
        Reached ptbl va pa len len
          (mapLoop flags fuel cur (va + o) (pa + o) (len - o) mem).ptbl) ∨
      ∃ p, StoppedAt ptbl va pa len mem p
        (mapLoop flags fuel cur (va + o) (pa + o) (len - o) mem) := by
  induction fuel generalizing o cur mem with
  | zero =>
      have done : o = len := by
        have := reached.le
        omega
      subst done
      exact .inl ⟨rfl, rfl, reached⟩
  | succ fuel inductionHypothesis =>
      rcases Nat.eq_or_lt_of_le reached.le with done | before
      · subst done
        simp only [mapLoop, Nat.sub_self, if_true]
        exact .inl ⟨trivial, trivial, reached⟩
      · obtain ⟨round, eq⟩ : ∃ round, mapPage (chunkLevel va pa len o) cur (va + o) (pa + o)
            flags mem = round := ⟨_, rfl⟩
        have maps : MapsPage _ _ _ cur (mapPage _ cur (va + o) (pa + o) flags) :=
          range.mapsPage reached.start before reached.wf
        rw [mapLoop_step before eq]
        cases ok : round.ok with
        | true =>
            have reached' := reached.step range before (eq ▸ ok)
            rw [eq] at reached'
            have passed : span 0 ≤ span (chunkLevel va pa len o) := span_le (Nat.zero_le _)
            have enough' : len - (o + span (chunkLevel va pa len o)) ≤ fuel * pageSize := by
              rw [Nat.succ_mul] at enough
              unfold pageSize at *
              omega
            rcases inductionHypothesis _ reached' enough' with all | ⟨p, stopped⟩
            · exact .inl all
            · refine .inr ⟨p, stopped.failed, stopped.before, stopped.paCur, ?_⟩
              obtain ⟨cur', flags', mem', reached'', refused, same, succeeds⟩ := stopped.refused
              refine ⟨cur', flags', mem', reached'', refused, same, fun all => succeeds ?_⟩
              rw [← eq]
              exact maps.succeeds mem all
        | false =>
            refine .inr ⟨o, rfl, before, rfl, cur, flags, mem, reached, eq ▸ ok, ?_, id⟩
            rw [eq]
            rfl

/-- Allocations can be answered such that the loop comes to a chunk with any answers left. -/
theorem mapLoop_supplied (range : MapRange va pa len) (wf : ptbl.Wf)
    (start : Starts va pa len o) (le : o ≤ len)
    (clear : ∀ p < o, Starts va pa len p → ¬ ptbl.Obstructed (chunkLevel va pa len p) (va + p))
    (flags : Flags) (fuel : Nat) (enough : len ≤ fuel * pageSize) :
    ∃ fuel' cur, len - o ≤ fuel' * pageSize ∧ Reached ptbl va pa len o cur ∧
      ∀ rest, ∃ mem, mapLoop flags fuel ptbl va pa len mem =
        mapLoop flags fuel' cur (va + o) (pa + o) (len - o) rest := by
  induction start with
  | zero => exact ⟨fuel, ptbl, by omega, reached_zero wf, fun rest => ⟨rest, rfl⟩⟩
  | @next o start before inductionHypothesis =>
      have passed : span 0 ≤ span (chunkLevel va pa len o) := span_le (Nat.zero_le _)
      have positive := span_pos 0
      obtain ⟨fuel', cur, enough', reached, answers⟩ := inductionHypothesis before.le
        fun p lower => clear p (by omega)
      have maps : MapsPage _ _ _ cur (mapPage _ cur (va + o) (pa + o) flags) :=
        range.mapsPage reached.start before reached.wf
      have ok : (mapPage (chunkLevel va pa len o) cur (va + o) (pa + o) flags .always).ok
          = true := by
        by_contra refused
        have obstructed := maps.grows .always AllocOracle.always_succeeds
          (Bool.eq_false_iff.mpr refused)
        exact clear o (by omega) start ((reached.obstructed_iff range before).mp obstructed)
      cases fuel' with
      | zero => omega
      | succ fuel' =>
          refine ⟨fuel', _, ?_, reached.step range before ok, fun rest => ?_⟩
          · rw [Nat.succ_mul] at enough'
            unfold pageSize at *
            omega
          · -- the answers this chunk takes come before the rest
            obtain ⟨chunkMem, supplied⟩ := maps.supplies ok rest
            obtain ⟨mem, same⟩ := answers chunkMem
            refine ⟨mem, ?_⟩
            rw [same, mapLoop_step before supplied]
            simp only [if_true]

end Rounds

section Rollback

variable {va pa len o : Nat} {ptbl : Pagetable} {flags : Flags} {mem : AllocOracle}

/-- What a failed call leaves: the rollback clears what `pagetable_unmap` clears. -/
theorem StoppedAt.rollback {after : Progress} (stopped : StoppedAt ptbl va pa len mem o after)
    (range : MapRange va pa len) (mem' : AllocOracle) :
    ∃ undone, pagetableUnmap after.ptbl va (after.paCur - pa) mem' = some undone ∧
      undone.ptbl.Wf ∧ ∀ a, Canonical a → pagetableLookup undone.ptbl a =
        if clearedFrom va (va + o) ≤ a ∧ a < va then none else pagetableLookup ptbl a := by
  obtain ⟨cur, flags, used, reached, refused, same, -⟩ := stopped.refused
  have before := stopped.before
  have maps : MapsPage _ _ _ cur (mapPage _ cur (va + o) (pa + o) flags) :=
    range.mapsPage reached.start before reached.wf
  have user := range.user
  have undoneRange : UserRange va o :=
    ⟨range.aligned, (range.chunk reached.start before).2.2.2, by omega⟩
  have splittable : Splittable after.ptbl va (va + o) mem' := by
    refine .inr fun a low high huge => ?_
    rw [same] at huge
    rcases maps.huge used a (.inl (by omega)) huge with ⟨old, -⟩ | ⟨-, ok, -⟩
    · exact reached.huge a low high old
    · rw [refused] at ok
      cases ok
  have wf : after.ptbl.Wf := same ▸ maps.wf used
  rw [stopped.paCur, Nat.add_sub_cancel_left]
  obtain ⟨undone, returned, wf', lookup⟩ := pagetableUnmap_spec wf undoneRange splittable
  refine ⟨undone, returned, wf', fun a canonical => ?_⟩
  have kept : pagetableLookup after.ptbl a = pagetableLookup cur a := by
    rw [same, maps.lookup used a canonical, refused, if_neg (by simp)]
  have starts : clearedFrom va (va + o) ≤ va := roundDown_le _ _
  rw [lookup a canonical, kept, reached.lookup a canonical]
  by_cases inside : va ≤ a ∧ a < va + o
  · rw [if_pos (by omega), if_neg (by omega), reached.free a inside.1 inside.2]
  · rw [if_neg inside]
    refine if_congr ?_ rfl rfl
    omega

theorem pagetableMap_eq (range : MapRange va pa len) (positive : 0 < va) :
    pagetableMap ptbl va pa len flags mem =
      if (mapLoop flags (len / pageSize) ptbl va pa len mem).ok then
        some { ptbl := (mapLoop flags (len / pageSize) ptbl va pa len mem).ptbl
               va := (mapLoop flags (len / pageSize) ptbl va pa len mem).vaCur
               mem := (mapLoop flags (len / pageSize) ptbl va pa len mem).mem }
      else
        (pagetableUnmap (mapLoop flags (len / pageSize) ptbl va pa len mem).ptbl va
          ((mapLoop flags (len / pageSize) ptbl va pa len mem).paCur - pa)
          (mapLoop flags (len / pageSize) ptbl va pa len mem).mem).map
            fun undone => { undone with va := 0 } := by
  unfold pagetableMap
  rw [if_pos ⟨range.physical, range.whole, range.aligned⟩, if_neg positive.ne']

/-- A call maps the whole range, or stops at a chunk and clears what the rollback clears. -/
theorem pagetableMap_spec (wf : ptbl.Wf) (range : MapRange va pa len) (positive : 0 < va)
    (flags : Flags) (mem : AllocOracle) :
    ∃ after, pagetableMap ptbl va pa len flags mem = some after ∧ after.ptbl.Wf ∧
      ((after.va = va + len ∧ Reached ptbl va pa len len after.ptbl) ∨
        (after.va = 0 ∧ ∃ o, StoppedAt ptbl va pa len mem o
            (mapLoop flags (len / pageSize) ptbl va pa len mem) ∧
          ∀ a, Canonical a → pagetableLookup after.ptbl a =
            if clearedFrom va (va + o) ≤ a ∧ a < va then none else pagetableLookup ptbl a)) := by
  have enough : len - 0 ≤ len / pageSize * pageSize := by
    rw [Nat.sub_zero, Nat.div_mul_cancel (Nat.dvd_of_mod_eq_zero range.whole)]
  have spec := mapLoop_spec range flags mem _ (reached_zero wf) enough
  simp only [Nat.add_zero, Nat.sub_zero] at spec
  rw [pagetableMap_eq range positive]
  rcases spec with ⟨ok, arrived, reached⟩ | ⟨o, stopped⟩
  · rw [if_pos ok]
    exact ⟨_, rfl, reached.wf, .inl ⟨arrived, reached⟩⟩
  · obtain ⟨undone, returned, wf', lookup⟩ := stopped.rollback range
      (mapLoop flags (len / pageSize) ptbl va pa len mem).mem
    rw [if_neg (by rw [stopped.failed]; decide), returned]
    exact ⟨_, rfl, wf', .inr ⟨rfl, o, stopped, lookup⟩⟩

end Rollback

section Exactness

/-- The page tables that calls lead to from one with an empty user half. -/
inductive Reachable : Pagetable → Prop where
  | start {ptbl : Pagetable} (empty : ∀ i < 256, ptbl i = .absent) : Reachable ptbl
  | map {ptbl : Pagetable} {va pa len : Nat} {flags : Flags} {mem : AllocOracle} {after : Walk}
      (before : Reachable ptbl) (range : MapRange va pa len)
      (returned : pagetableMap ptbl va pa len flags mem = some after) : Reachable after.ptbl
  | unmap {ptbl : Pagetable} {va len : Nat} {mem : AllocOracle} {after : Walk}
      (before : Reachable ptbl) (range : UserRange va len)
      (returned : pagetableUnmap ptbl va len mem = some after) : Reachable after.ptbl

variable {va pa len : Nat} {ptbl : Pagetable} {flags : Flags}

theorem Reachable.wf (reachable : Reachable ptbl) : ptbl.Wf := by
  induction reachable with
  | start empty =>
      intro i lower
      rw [empty i lower]
      trivial
  | @map ptbl va pa len flags mem after before range returned wf =>
      rcases Nat.eq_zero_or_pos va with zero | positive
      · subst zero
        unfold pagetableMap at returned
        rw [if_pos ⟨range.physical, range.whole, range.aligned⟩, if_pos rfl] at returned
        cases returned
        exact wf
      · obtain ⟨after', returned', wf', -⟩ := pagetableMap_spec wf range positive
          flags mem
        rw [returned] at returned'
        cases returned'
        exact wf'
  | unmap before range returned wf => exact pagetableUnmap_wf wf range returned

/-- Nothing is mapped between the start of a range and the start of what `pagetable_unmap`
clears for it. -/
def NothingBelow (ptbl : Pagetable) (va stop : Nat) : Prop :=
  ∀ a, clearedFrom va stop ≤ a → a < va → pagetableLookup ptbl a = none

/-- The call unmaps the range and no other address. -/
def UnmapExact (ptbl : Pagetable) (va len : Nat) (mem : AllocOracle) : Prop :=
  ∃ after, pagetableUnmap ptbl va len mem = some after ∧ ∀ a, Canonical a →
    pagetableLookup after.ptbl a =
      if va ≤ a ∧ a < va + len then none else pagetableLookup ptbl a

theorem unmapExact_iff {mem : AllocOracle} (reachable : Reachable ptbl) (range : UserRange va len)
    (succeeds : mem.Succeeds) :
    UnmapExact ptbl va len mem ↔ NothingBelow ptbl va (va + len) := by
  obtain ⟨after, returned, -, lookup⟩ := pagetableUnmap_spec reachable.wf range (.inl succeeds)
  have user := range.user
  have starts : clearedFrom va (va + len) ≤ va := roundDown_le _ _
  constructor
  · rintro ⟨after', returned', exact⟩ a low high
    rw [returned] at returned'
    cases returned'
    have cleared := lookup a (.inl (by omega))
    rw [if_pos ⟨low, by omega⟩, exact a (.inl (by omega)), if_neg (by omega)] at cleared
    exact cleared
  · intro nothing
    refine ⟨after, returned, fun a canonical => ?_⟩
    rw [lookup a canonical]
    by_cases below : clearedFrom va (va + len) ≤ a ∧ a < va
    · rw [if_pos (by omega), if_neg (by omega), nothing a below.1 below.2]
    · refine if_congr ?_ rfl rfl
      omega

def emptyRoot : Pagetable := fun _ => .absent

def userFlags : Flags where
  writable := true
  user := true
  writeThrough := false
  noCache := false
  accessed := false
  dirty := false
  global := false
  noExecute := false

/-- The root after one page was mapped at the start of a table of pages. -/
def onePage : Pagetable := (mapLoop userFlags 1 emptyRoot 0x200000 0x100000 0x1000 .always).ptbl

theorem onePage_range : MapRange 0x200000 0x100000 0x1000 :=
  ⟨⟨by decide, by decide, by decide⟩, by decide, by decide⟩

theorem onePage_returned : pagetableMap emptyRoot 0x200000 0x100000 0x1000 userFlags .always =
    some { ptbl := onePage
           va := (mapLoop userFlags 1 emptyRoot 0x200000 0x100000 0x1000 .always).vaCur
           mem := (mapLoop userFlags 1 emptyRoot 0x200000 0x100000 0x1000 .always).mem } := by
  have ok : (mapLoop userFlags 1 emptyRoot 0x200000 0x100000 0x1000 .always).ok = true := by
    decide +kernel
  have rounds : 0x1000 / pageSize = 1 := by decide
  rw [pagetableMap_eq onePage_range (by decide), rounds, if_pos ok]
  rfl

theorem emptyRoot_reachable : Reachable emptyRoot := .start fun _ _ => rfl

theorem onePage_reachable : Reachable onePage :=
  emptyRoot_reachable.map onePage_range onePage_returned

theorem unmapExact_iff_onePage : UnmapExact onePage 0x200000 0x1000 .always := by
  refine (unmapExact_iff onePage_reachable ⟨by decide, by decide, by decide⟩
    AllocOracle.always_succeeds).mpr fun a low high => ?_
  have start : clearedFrom 0x200000 (0x200000 + 0x1000) = 0x200000 := by decide
  omega

/-- A range of 2 MiB that starts one page into a table takes the table with it. -/
theorem not_unmapExact : Reachable onePage ∧ UserRange 0x201000 0x200000 ∧
    ¬ UnmapExact onePage 0x201000 0x200000 .always := by
  refine ⟨onePage_reachable, ⟨by decide, by decide, by decide⟩, ?_⟩
  rintro ⟨after, returned, exact⟩
  have lost : (pagetableUnmap onePage 0x201000 0x200000 .always).map
      (fun walk => pagetableLookup walk.ptbl 0x200000) = some none := by decide +kernel
  have mapped : pagetableLookup onePage 0x200000 = some 0x100000 := by decide +kernel
  have kept := exact 0x200000 (.inl (by decide))
  rw [returned] at lost
  rw [if_neg (by decide), mapped] at kept
  simp only [Option.map_some, kept, Option.some.injEq, reduceCtorEq] at lost

/-- No page of the range is mapped. -/
def Free (ptbl : Pagetable) (va len : Nat) : Prop :=
  ∀ a, va ≤ a → a < va + len → pagetableLookup ptbl a = none

/-- A free range is mapped when there is memory, and a failed call changes no mapping. -/
structure MapExact (ptbl : Pagetable) (va pa len : Nat) (flags : Flags) (mem : AllocOracle) :
    Prop where
  maps : Free ptbl va len → mem.Succeeds → ∃ after,
    pagetableMap ptbl va pa len flags mem = some after ∧ after.va ≠ 0 ∧ ∀ a, Canonical a →
      pagetableLookup after.ptbl a =
        if va ≤ a ∧ a < va + len then some (pa + (a - va)) else pagetableLookup ptbl a
  atomic : ∀ after, pagetableMap ptbl va pa len flags mem = some after → after.va = 0 →
    ∀ a, Canonical a → pagetableLookup after.ptbl a = pagetableLookup ptbl a

/-- A call can stop at the chunk: the chunk is obstructed, or it is the first one to need
a table that is not there. -/
structure MayStop (ptbl : Pagetable) (va pa len o : Nat) : Prop where
  start : Starts va pa len o
  before : o < len
  clear : ∀ p < o, Starts va pa len p → ¬ ptbl.Obstructed (chunkLevel va pa len p) (va + p)
  blocked : ptbl.Obstructed (chunkLevel va pa len o) (va + o) ∨
    (¬ ptbl.HasTable (chunkLevel va pa len o) (va + o) ∧ ∀ p < o, Starts va pa len p →
      chunkLevel va pa len p ≤ chunkLevel va pa len o →
      (va + o) / span (chunkLevel va pa len o + 1) ≠ (va + p) / span (chunkLevel va pa len o + 1))

theorem StoppedAt.mayStop {o : Nat} {mem : AllocOracle} {after : Progress}
    (stopped : StoppedAt ptbl va pa len mem o after) (range : MapRange va pa len) :
    MayStop ptbl va pa len o := by
  obtain ⟨cur, flags, used, reached, refused, -, -⟩ := stopped.refused
  have before := stopped.before
  have maps : MapsPage _ _ _ cur (mapPage _ cur (va + o) (pa + o) flags) :=
    range.mapsPage reached.start before reached.wf
  refine ⟨reached.start, before, reached.clear, ?_⟩
  rcases maps.refused used refused with obstructed | missing
  · exact .inl ((reached.obstructed_iff range before).mp obstructed)
  · have level : chunkLevel va pa len o < 3 := Nat.lt_of_le_of_lt chunkLevel_le (by decide)
    rw [reached.tables _ level _ (.inl (range.user_chunk before)), not_or] at missing
    refine .inr ⟨missing.1, fun p lower start le same => missing.2 ⟨p, lower, start, le, same⟩⟩

/-- Some answers of the allocator make a call stop where it can stop. -/
theorem MayStop.stops {o : Nat} (mayStop : MayStop ptbl va pa len o) (range : MapRange va pa len)
    (wf : ptbl.Wf) (flags : Flags) :
    ∃ mem, StoppedAt ptbl va pa len mem o
      (mapLoop flags (len / pageSize) ptbl va pa len mem) := by
  have before := mayStop.before
  have enough : len ≤ len / pageSize * pageSize := by
    rw [Nat.div_mul_cancel (Nat.dvd_of_mod_eq_zero range.whole)]
  obtain ⟨fuel, cur, enough', reached, answers⟩ := mapLoop_supplied range wf
    mayStop.start before.le mayStop.clear flags _ enough
  have maps : MapsPage _ _ _ cur (mapPage _ cur (va + o) (pa + o) flags) :=
    range.mapsPage reached.start before reached.wf
  have refusing : ∃ rest, (mapPage (chunkLevel va pa len o) cur (va + o) (pa + o) flags rest).ok
      = false := by
    rcases mayStop.blocked with obstructed | ⟨missing, none⟩
    · refine ⟨.always, Bool.eq_false_iff.mpr fun ok => ?_⟩
      exact maps.fresh .always ok ((reached.obstructed_iff range before).mpr obstructed)
    · refine ⟨Stream'.const false, maps.stops _ ?_ rfl⟩
      have level : chunkLevel va pa len o < 3 := Nat.lt_of_le_of_lt chunkLevel_le (by decide)
      rw [reached.tables _ level _ (.inl (range.user_chunk before))]
      rintro (old | ⟨p, lower, start, le, same⟩)
      · exact missing old
      · exact none p lower start le same
  obtain ⟨rest, refused⟩ := refusing
  obtain ⟨mem, same⟩ := answers rest
  have ended : (mapLoop flags (len / pageSize) ptbl va pa len mem).ok = false ∧
      (mapLoop flags (len / pageSize) ptbl va pa len mem).paCur = pa + o := by
    cases fuel with
    | zero => omega
    | succ fuel =>
        rw [same, mapLoop_step before rfl, if_neg (by rw [refused]; decide)]
        exact ⟨rfl, rfl⟩
  have spec := mapLoop_spec range flags mem _ (reached_zero wf) enough
  simp only [Nat.add_zero, Nat.sub_zero] at spec
  rcases spec with ⟨ok, -⟩ | ⟨p, stopped⟩
  · rw [ended.1] at ok
    cases ok
  · have here : p = o := by
      have := stopped.paCur
      omega
    exact ⟨mem, here ▸ stopped⟩

/-- No page table is left where the call maps a huge page. -/
def NoTableLeft (ptbl : Pagetable) (va pa len : Nat) : Prop :=
  ∀ o < len, Starts va pa len o → chunkLevel va pa len o = 1 → ¬ ptbl.HasTable 0 (va + o)

theorem mapExact_maps {mem : AllocOracle} (wf : ptbl.Wf) (range : MapRange va pa len)
    (positive : 0 < va) (noTable : NoTableLeft ptbl va pa len) (free : Free ptbl va len)
    (succeeds : mem.Succeeds) :
    ∃ after, pagetableMap ptbl va pa len flags mem = some after ∧ after.va ≠ 0 ∧
      ∀ a, Canonical a → pagetableLookup after.ptbl a =
        if va ≤ a ∧ a < va + len then some (pa + (a - va)) else pagetableLookup ptbl a := by
  obtain ⟨after, returned, -, ⟨arrived, reached⟩ | ⟨-, o, stopped, -⟩⟩ :=
    pagetableMap_spec wf range positive flags mem
  · exact ⟨after, returned, by omega, reached.lookup⟩
  · -- with memory only an obstruction stops the loop
    obtain ⟨cur, flags, used, reached, refused, -, still⟩ := stopped.refused
    have before := stopped.before
    have maps : MapsPage _ _ _ cur (mapPage _ cur (va + o) (pa + o) flags) :=
      range.mapsPage reached.start before reached.wf
    have obstructed := (reached.obstructed_iff range before).mp
      (maps.grows used (still succeeds) refused)
    have fits := (range.chunk reached.start before).2.2.1
    rcases obstructed with ⟨a, inside, mapped⟩ | ⟨huge, table⟩
    · obtain ⟨low, high⟩ := (range.chunk_iff reached.start before a).mp inside
      exact absurd (free a (by omega) (by omega)) mapped
    · exact absurd table (noTable o before reached.start huge)

theorem noTableLeft_of_maps (wf : ptbl.Wf) (range : MapRange va pa len) (positive : 0 < va)
    (exact : MapExact ptbl va pa len flags .always) (free : Free ptbl va len) :
    NoTableLeft ptbl va pa len := by
  obtain ⟨after', returned', nonzero, -⟩ := exact.maps free AllocOracle.always_succeeds
  obtain ⟨after, returned, -, ⟨-, reached⟩ | ⟨zero, -⟩⟩ :=
    pagetableMap_spec wf range positive flags .always
  · intro o before start huge table
    exact reached.clear o before start (.inr ⟨huge, table⟩)
  · rw [returned] at returned'
    cases returned'
    exact absurd zero nonzero

theorem mapExact_iff (reachable : Reachable ptbl) (range : MapRange va pa len)
    (positive : 0 < va) :
    (∀ mem, MapExact ptbl va pa len flags mem) ↔
      (Free ptbl va len → NoTableLeft ptbl va pa len) ∧
        ∀ o, MayStop ptbl va pa len o → NothingBelow ptbl va (va + o) := by
  have user := range.user
  have wf := reachable.wf
  constructor
  · intro exact
    refine ⟨noTableLeft_of_maps wf range positive (exact .always), fun o mayStop a low high => ?_⟩
    obtain ⟨mem, stopped⟩ := mayStop.stops range wf flags
    obtain ⟨after, returned, -, ⟨arrived, -⟩ | ⟨zero, o', stopped', lookup⟩⟩ :=
      pagetableMap_spec wf range positive flags mem
    · rw [pagetableMap_eq range positive, if_neg (by rw [stopped.failed]; decide)] at returned
      obtain ⟨undone, -, same⟩ := Option.map_eq_some_iff.mp returned
      subst same
      simp only at arrived
      omega
    · have here : o' = o := by
        have := stopped.paCur
        have := stopped'.paCur
        omega
      subst here
      have unchanged := (exact mem).atomic after returned zero a (.inl (by omega))
      rw [lookup a (.inl (by omega)), if_pos ⟨low, high⟩] at unchanged
      exact unchanged.symm
  · rintro ⟨noTable, nothing⟩ mem
    refine ⟨fun free => mapExact_maps wf range positive (noTable free) free, ?_⟩
    intro after returned failed a canonical
    obtain ⟨after', returned', -, ⟨arrived, -⟩ | ⟨-, o, stopped, lookup⟩⟩ :=
      pagetableMap_spec wf range positive flags mem
    · rw [returned] at returned'
      cases returned'
      omega
    · rw [returned] at returned'
      cases returned'
      rw [lookup a canonical]
      split
      · rename_i below
        exact (nothing o (stopped.mayStop range) a below.1 below.2).symm
      · rfl

/-- The root after a page was mapped two pages below 1 GiB. -/
def belowGiB : Walk :=
  (pagetableMap emptyRoot 0x3fffe000 0x100000 0x1000 userFlags .always).get (by decide +kernel)

theorem belowGiB_returned :
    pagetableMap emptyRoot 0x3fffe000 0x100000 0x1000 userFlags .always = some belowGiB :=
  (Option.some_get _).symm

theorem belowGiB_reachable : Reachable belowGiB.ptbl :=
  emptyRoot_reachable.map ⟨⟨by decide, by decide, by decide⟩, by decide, by decide⟩
    belowGiB_returned

/-- A range across 1 GiB is a page and a huge page. -/
theorem starts_acrossGiB {o : Nat} (start : Starts 0x3ffff000 0x5ff000 0x201000 o)
    (before : o < 0x201000) : o = 0 ∨ o = 0x1000 := by
  have all : o = 0 ∨ o = 0x1000 ∨ o = 0x201000 := by
    clear before
    induction start with
    | zero => exact .inl rfl
    | next _ before inductionHypothesis =>
        rcases inductionHypothesis with rfl | rfl | rfl
        · exact .inr (.inl (by decide))
        · exact .inr (.inr (by decide))
        · exact absurd before (Nat.lt_irrefl _)
  omega

/-- Behind a neighbour a page and a huge page are mapped, or neither: the huge page needs a
table, and a call that does not get it takes the page back. -/
theorem mapExact_iff_belowGiB : Reachable belowGiB.ptbl ∧
    (∀ mem, MapExact belowGiB.ptbl 0x3ffff000 0x5ff000 0x201000 userFlags mem) ∧
    (pagetableMap belowGiB.ptbl 0x3ffff000 0x5ff000 0x201000 userFlags
      (Stream'.const false)).map Walk.va = some 0 := by
  refine ⟨belowGiB_reachable, (mapExact_iff belowGiB_reachable
    ⟨⟨by decide, by decide, by decide⟩, by decide, by decide⟩ (by decide)).mpr ⟨?_, ?_⟩,
    by decide +kernel⟩
  · intro _ o before start huge table
    rcases starts_acrossGiB start before with rfl | rfl
    · exact absurd huge (by decide)
    · rcases table with level | none
      · cases level
      · exact none
  · intro o mayStop a low high
    have whole : clearedFrom 0x3ffff000 (0x3ffff000 + o) = 0x3ffff000 := by
      rcases starts_acrossGiB mayStop.start mayStop.before with rfl | rfl
      · decide
      · decide
    omega

/-- The root after the page was unmapped again; its table is left. -/
def leftTable : Pagetable := (unmapLoop 0x201000 2 onePage 0x200000 .always).ptbl

theorem leftTable_range : UserRange 0x200000 0x1000 := onePage_range.toUserRange

theorem leftTable_reachable : Reachable leftTable :=
  .unmap onePage_reachable leftTable_range (if_pos ⟨by decide, by decide⟩)

theorem leftTable_lookup {a : Nat} (canonical : Canonical a) :
    pagetableLookup leftTable a = none := by
  obtain ⟨mapped, returned, -, outcome⟩ := pagetableMap_spec emptyRoot_reachable.wf onePage_range
    (by decide) userFlags .always
  rw [onePage_returned] at returned
  cases returned
  have lookup : pagetableLookup onePage a =
      if 0x200000 ≤ a ∧ a < 0x201000 then some (0x100000 + (a - 0x200000)) else none := by
    rcases outcome with ⟨-, reached⟩ | ⟨failed, -⟩
    · exact reached.lookup a canonical
    · exact absurd failed (by decide +kernel)
  obtain ⟨after, returned, -, unmapped⟩ := pagetableUnmap_spec onePage_reachable.wf leftTable_range
    (.inl AllocOracle.always_succeeds)
  have same : after.ptbl = leftTable := by
    unfold pagetableUnmap at returned
    rw [if_pos ⟨leftTable_range.aligned, leftTable_range.whole⟩] at returned
    exact congrArg Walk.ptbl (Option.some.inj returned).symm
  have start : clearedFrom 0x200000 (0x200000 + 0x1000) = 0x200000 := by decide
  rw [← same, unmapped a canonical, start, lookup]
  split_ifs <;> rfl

/-- A huge page is not mapped where an empty table of pages is left. -/
theorem not_mapExact : Reachable leftTable ∧ MapRange 0x200000 0x200000 0x200000 ∧
    ¬ ∀ mem, MapExact leftTable 0x200000 0x200000 0x200000 userFlags mem := by
  refine ⟨leftTable_reachable, ⟨⟨by decide, by decide, by decide⟩, by decide, by decide⟩,
    fun exact => ?_⟩
  have free : Free leftTable 0x200000 0x200000 := fun a _ high => leftTable_lookup (.inl (by omega))
  obtain ⟨after, returned, nonzero, -⟩ := (exact .always).maps free AllocOracle.always_succeeds
  have failed : (pagetableMap leftTable 0x200000 0x200000 0x200000 userFlags .always).map Walk.va
      = some 0 := by decide +kernel
  rw [returned] at failed
  exact nonzero (Option.some.inj failed)

end Exactness

end Opal.PageTable
