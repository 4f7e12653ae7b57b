import Opal.Library.Segments
import Opal.Vmap.Operations
import Mathlib.Data.List.Perm.Basic

/-!
# The partition of the vmap area

The free entries and the spans that are outstanding partition the area.  The entries are
kept apart, so that as few of them as possible describe what is free.
-/

namespace Opal.Vmap

open Library

/-- A range that is not empty and made of whole pages. -/
structure Paged (r : Range) : Prop where
  positive : 0 < r.len
  addr : r.addr % pageSize = 0
  len : r.len % pageSize = 0

/-- The free entries beside the outstanding spans. -/
structure Partition (entries spans : List Range) : Prop where
  sorted : entries.Pairwise Range.Before
  few : entries.length ≤ maxVmapEntries
  paged : ∀ r ∈ entries, Paged r
  pagedSpans : ∀ r ∈ spans, Paged r
  exact : ∀ a, covers entries a + covers spans a = if vmapStart ≤ a ∧ a < vmapEnd then 1 else 0

section Facts

variable {entries spans : List Range} {r s : Range}

/-- A free entry and an outstanding span have no address in common. -/
theorem Partition.apart (partition : Partition entries spans) (free : r ∈ entries)
    (held : s ∈ spans) : r.stop ≤ s.addr ∨ s.stop ≤ r.addr := by
  by_contra overlap
  obtain ⟨first, second⟩ := not_or.mp overlap
  have positive := (partition.paged r free).positive
  have positiveSpan := (partition.pagedSpans s held).positive
  have common : r.Has (max r.addr s.addr) ∧ s.Has (max r.addr s.addr) := by
    unfold Range.Has Range.stop at *
    omega
  have inFree := covers_pos free common.1
  have inHeld := covers_pos held common.2
  have exact := partition.exact (max r.addr s.addr)
  split at exact <;> omega

/-- Every range lies in the area. -/
theorem Partition.inside (partition : Partition entries spans) (member : r ∈ entries ++ spans) :
    vmapStart ≤ r.addr ∧ r.stop ≤ vmapEnd := by
  have positive : 0 < r.len := by
    rcases List.mem_append.mp member with free | held
    · exact (partition.paged r free).positive
    · exact (partition.pagedSpans r held).positive
  have within : ∀ a, r.Has a → vmapStart ≤ a ∧ a < vmapEnd := by
    intro a has
    have covered := covers_pos member has
    rw [covers_append, partition.exact a] at covered
    by_contra outside
    rw [if_neg outside] at covered
    exact absurd covered (Nat.lt_irrefl 0)
  have first := within r.addr ⟨Nat.le_refl _, Nat.lt_add_of_pos_right positive⟩
  have last := within (r.addr + (r.len - 1))
    ⟨Nat.le_add_right _ _, by unfold Range.stop; omega⟩
  refine ⟨first.1, ?_⟩
  unfold Range.stop
  omega

theorem Partition.perm {spans' : List Range} (partition : Partition entries spans)
    (same : spans.Perm spans') : Partition entries spans' where
  sorted := partition.sorted
  few := partition.few
  paged := partition.paged
  pagedSpans := fun r member => partition.pagedSpans r (same.mem_iff.mpr member)
  exact := by
    intro a
    rw [← partition.exact a]
    exact congrArg _ (same.countP_eq _).symm

theorem partition_initialEntries : Partition initialEntries [] where
  sorted := List.pairwise_singleton _ _
  few := by decide
  paged := List.forall_mem_singleton.mpr ⟨by decide, by decide, by decide⟩
  pagedSpans := by simp
  exact := fun a => by
    unfold initialEntries
    rw [covers_cons, covers_nil]
    exact if_congr Iff.rfl rfl rfl

end Facts

section Take

variable {before after spans : List Range} {r s t : Range} {size : Nat}

/-- A free entry is handed out whole. -/
theorem Partition.takeWhole (partition : Partition (before ++ r :: after) spans) :
    Partition (before ++ after) (r :: spans) where
  sorted := pairwise_remove partition.sorted
  few := by
    have few := partition.few
    rw [List.length_append, List.length_cons] at few
    rw [List.length_append]
    exact Nat.le_of_succ_le few
  paged := by
    have paged := partition.paged
    simp only [List.forall_mem_append, List.forall_mem_cons] at *
    exact ⟨paged.1, paged.2.2⟩
  pagedSpans := List.forall_mem_cons.mpr ⟨partition.paged r (by simp), partition.pagedSpans⟩
  exact := by
    intro a
    rw [← partition.exact a]
    simp only [covers_append, covers_cons]
    omega

/-- The front of a free entry is handed out. -/
theorem Partition.takeFront (partition : Partition (before ++ r :: after) spans)
    (smaller : size < r.len) (positive : 0 < size) (whole : size % pageSize = 0) :
    Partition (before ++ { addr := r.addr + size, len := r.len - size } :: after)
      ({ addr := r.addr, len := size } :: spans) := by
  have paged := partition.paged
  simp only [List.forall_mem_append, List.forall_mem_cons] at paged
  obtain ⟨low, ⟨_, aligned, wholeEntry⟩, high⟩ := paged
  have stop : r.addr + size + (r.len - size) = r.addr + r.len := by omega
  constructor
  · apply pairwise_replace partition.sorted (Nat.le_add_right _ _)
    exact Nat.le_of_eq stop
  · have few := partition.few
    rw [List.length_append, List.length_cons] at *
    exact few
  · simp only [List.forall_mem_append, List.forall_mem_cons]
    refine ⟨low, ⟨Nat.sub_pos_of_lt smaller, ?_, ?_⟩, high⟩ <;> dsimp only [pageSize] at * <;>
      omega
  · exact List.forall_mem_cons.mpr ⟨⟨positive, aligned, whole⟩, partition.pagedSpans⟩
  · intro a
    have parts := has_of_parts (a := a) (t := r) (r := { addr := r.addr, len := size })
      (s := { addr := r.addr + size, len := r.len - size }) rfl rfl stop.symm
    rw [← partition.exact a]
    simp only [covers_append, covers_cons, parts]
    omega

/-- What the loop of `mm_vmap_alloc` finds. -/
theorem takeRange_spec {entries : List Range} (partition : Partition entries spans)
    (positive : 0 < size) (whole : size % pageSize = 0) :
    Ensures (fun _ => False) (fun taken => ∀ found ∈ taken,
      Partition found.2 ({ addr := found.1, len := size } :: spans)) (takeRange entries size) := by
  unfold takeRange
  split
  · simp
  · rename_i i found
    obtain ⟨bound, enough, -⟩ := List.findIdx?_eq_some_iff_getElem.mp found
    obtain ⟨before, after, split, index⟩ : ∃ before after,
        entries = before ++ entries[i] :: after ∧ before.length = i :=
      ⟨entries.take i, entries.drop (i + 1), by simp, by simp [bound.le]⟩
    rw [List.getElem?_eq_getElem bound]
    generalize entries[i] = entry at *
    have partition' := split ▸ partition
    dsimp only
    split
    · rename_i exactly
      subst exactly
      have removed : removeEntry entries i = .ok (before ++ after) := by
        unfold removeEntry kassert
        rw [if_pos bound, split, ← index]
        simp [List.eraseIdx_append_of_length_le]
      rw [removed]
      intro found member
      obtain rfl := Option.some.inj member
      exact partition'.takeWhole
    · rename_i different
      intro found member
      obtain rfl := Option.some.inj member
      have longer : size < entry.len := by
        simp only [not_lt, decide_eq_true_eq] at enough
        exact lt_of_le_of_ne enough (Ne.symm different)
      dsimp only
      rw [split, ← index, List.set_append_right _ _ le_rfl, Nat.sub_self, List.set_cons_zero]
      exact partition'.takeFront longer positive whole

end Take

section Give

variable {before after entries spans : List Range} {r s t : Range} {addr len : Nat}

/-- The place of a range is found, and nothing overlaps it there. -/
theorem giveRange_split (low : ∀ r ∈ before, r.addr < addr) (high : ∀ r ∈ after, addr ≤ r.addr)
    (below : ∀ r ∈ before, r.stop ≤ addr) (above : ∀ r ∈ after, addr + len ≤ r.addr) :
    giveRange (before ++ after) addr len =
      match before.getLast?.filter fun r => r.stop = addr,
        after.head?.filter fun r => addr + len = r.addr with
      | some prev, some next =>
          removeEntry ((before ++ after).set (before.length - 1)
            { prev with len := prev.len + (len + next.len) }) before.length
      | some prev, none =>
          .ok ((before ++ after).set (before.length - 1) { prev with len := prev.len + len })
      | none, some next =>
          .ok ((before ++ after).set before.length { addr := addr, len := next.len + len })
      | none, none => insertEntry (before ++ after) before.length addr len := by
  have place : ((before ++ after).findIdx fun r => ¬r.addr < addr) = before.length := by
    have fails : before.findIdx (fun r => decide ¬r.addr < addr) = before.length := by
      apply List.findIdx_eq_length_of_false
      intro r member
      simpa using low r member
    rw [List.findIdx_append, fails, if_neg (Nat.lt_irrefl _)]
    cases after with
    | nil => simp
    | cons next rest =>
        have stops := high next List.mem_cons_self
        simp [List.findIdx_cons, stops]
  unfold giveRange
  simp only [place, prev_eq_getLast?, next_eq_head?]
  have belowLast : ∀ r ∈ before.getLast?, r.stop ≤ addr :=
    fun r member => below r (List.mem_of_getLast? member)
  have aboveFirst : ∀ r ∈ after.head?, addr + len ≤ r.addr :=
    fun r member => above r (List.mem_of_head? member)
  unfold kassert
  rw [if_pos belowLast, if_pos aboveFirst]
  rfl

/-- More free entries than the array has would be needed beside the range that is freed. -/
def TooMany (entries : List Range) (s : Range) : Prop :=
  ∃ ranges, ranges.Pairwise Range.Before ∧ (∀ r ∈ ranges, Paged r) ∧
    (∀ a, covers ranges a = covers entries a + if s.Has a then 1 else 0) ∧
    maxVmapEntries < ranges.length

/-- No entry before the place touches the range. -/
theorem before_of_last (sorted : before.Pairwise Range.Before)
    (low : ∀ r ∈ before, r.addr < addr) (below : ∀ r ∈ before, r.stop ≤ addr)
    (gap : (before.getLast?.filter fun r => r.stop = addr) = none) :
    ∀ r ∈ before, r.stop < addr := by
  rcases List.eq_nil_or_concat' before with rfl | ⟨init, last, rfl⟩
  · simp
  · have apart : last.stop ≠ addr := by
      intro touches
      simp [touches] at gap
    have across := (List.pairwise_append.mp sorted).2.2
    intro r member
    rcases List.mem_append.mp member with earlier | isLast
    · have ends : r.stop < last.addr := across r earlier last (List.mem_singleton_self last)
      exact ends.trans (low last (by simp))
    · obtain rfl := List.mem_singleton.mp isLast
      exact lt_of_le_of_ne (below r (by simp)) apart

/-- No entry behind the place touches the range. -/
theorem after_of_first (sorted : after.Pairwise Range.Before)
    (above : ∀ r ∈ after, addr + len ≤ r.addr)
    (gap : (after.head?.filter fun r => addr + len = r.addr) = none) :
    ∀ r ∈ after, addr + len < r.addr := by
  cases after with
  | nil => simp
  | cons first rest =>
      have apart : addr + len ≠ first.addr := by
        intro touches
        simp [touches] at gap
      have ahead : addr + len < first.addr :=
        lt_of_le_of_ne (above first List.mem_cons_self) apart
      intro r member
      rcases List.mem_cons.mp member with rfl | later
      · exact ahead
      · have ends : first.stop < r.addr := List.rel_of_pairwise_cons sorted later
        exact ahead.trans ((Nat.le_add_right _ _).trans_lt ends)

theorem touches_last {prev : Range}
    (found : (before.getLast?.filter fun r => r.stop = addr) = some prev) :
    ∃ init, before = init ++ [prev] ∧ prev.stop = addr := by
  obtain ⟨last, touches⟩ := Option.filter_eq_some_iff.mp found
  obtain ⟨init, split⟩ := List.getLast?_eq_some_iff.mp last
  exact ⟨init, split, of_decide_eq_true touches⟩

theorem touches_first {next : Range}
    (found : (after.head?.filter fun r => addr + len = r.addr) = some next) :
    ∃ rest, after = next :: rest ∧ addr + len = next.addr := by
  obtain ⟨first, touches⟩ := Option.filter_eq_some_iff.mp found
  obtain ⟨rest, split⟩ := List.head?_eq_some_iff.mp first
  exact ⟨rest, split, of_decide_eq_true touches⟩

/-- A range that is freed takes the place of the entries it is merged with. -/
theorem Partition.fill {m : List Range}
    (partition : Partition (before ++ (m ++ after)) (s :: spans))
    (low : ∀ q ∈ before, q.Before t) (high : ∀ q ∈ after, t.Before q)
    (whole : t.addr % pageSize = 0 ∧ t.len % pageSize = 0) (positive : 0 < t.len)
    (room : (before ++ t :: after).length ≤ maxVmapEntries)
    (parts : ∀ a, (if t.Has a then 1 else 0) = covers m a + if s.Has a then 1 else 0) :
    Partition (before ++ t :: after) spans where
  sorted := by
    apply pairwise_insert _ low high
    exact partition.sorted.sublist ((List.sublist_append_right m after).append_left before)
  few := room
  paged := by
    have paged := partition.paged
    simp only [List.forall_mem_append, List.forall_mem_cons] at *
    exact ⟨paged.1, ⟨positive, whole.1, whole.2⟩, paged.2.2⟩
  pagedSpans := fun r member => partition.pagedSpans r (List.mem_cons_of_mem s member)
  exact := by
    intro a
    rw [← partition.exact a]
    simp only [covers_append, covers_cons, parts]
    omega

theorem Paged.join (first : Paged r) (second : Paged s) :
    r.addr % pageSize = 0 ∧ (r.len + s.len) % pageSize = 0 :=
  ⟨first.addr, by rw [Nat.add_mod, first.len, second.len]; rfl⟩

/-- The range touches the entry behind it only. -/
theorem Partition.mergeNext {next : Range}
    (partition : Partition (before ++ next :: after) (s :: spans))
    (ends : ∀ r ∈ before, r.Before s) (touches : s.stop = next.addr) :
    Partition (before ++ { addr := s.addr, len := next.len + s.len } :: after) spans := by
  have few := partition.few
  have sortedAfter := (List.pairwise_append.mp partition.sorted).2.1
  have pagedNext := partition.paged next (by simp)
  have join := (partition.pagedSpans s List.mem_cons_self).join pagedNext
  have stop : s.addr + (next.len + s.len) = next.stop := by
    unfold Range.stop at *
    omega
  apply Partition.fill (m := [next]) (t := ⟨s.addr, next.len + s.len⟩) partition ends
  · intro r later
    exact stop.trans_lt (List.rel_of_pairwise_cons sortedAfter later)
  · exact ⟨join.1, by rw [Nat.add_comm]; exact join.2⟩
  · exact Nat.add_pos_left pagedNext.positive _
  · simpa using few
  · intro a
    rw [has_of_parts (t := ⟨s.addr, next.len + s.len⟩) (r := s) rfl touches stop, covers_cons,
      covers_nil]
    omega

/-- The range touches the entry before it only. -/
theorem Partition.mergePrev {prev : Range}
    (partition : Partition (before ++ prev :: after) (s :: spans))
    (starts : ∀ r ∈ after, s.Before r) (touches : prev.stop = s.addr) :
    Partition (before ++ { prev with len := prev.len + s.len } :: after) spans := by
  have few := partition.few
  have across := (List.pairwise_append.mp partition.sorted).2.2
  have pagedPrev := partition.paged prev (by simp)
  have join := pagedPrev.join (partition.pagedSpans s List.mem_cons_self)
  have stop : prev.addr + (prev.len + s.len) = s.stop := by
    unfold Range.stop at *
    omega
  apply Partition.fill (m := [prev]) (t := ⟨prev.addr, prev.len + s.len⟩) partition
  · intro r earlier
    exact across r earlier prev List.mem_cons_self
  · intro r later
    exact stop.trans_lt (starts r later)
  · exact join
  · exact Nat.add_pos_left pagedPrev.positive _
  · simpa using few
  · intro a
    rw [has_of_parts (t := ⟨prev.addr, prev.len + s.len⟩) (r := prev) rfl touches stop,
      covers_cons, covers_nil]
    omega

/-- The range closes the gap between two entries. -/
theorem Partition.mergeBoth {prev next : Range}
    (partition : Partition (before ++ prev :: next :: after) (s :: spans))
    (touchesPrev : prev.stop = s.addr) (touchesNext : s.stop = next.addr) :
    Partition (before ++ { prev with len := prev.len + (s.len + next.len) } :: after) spans := by
  have few := partition.few
  obtain ⟨-, sortedAfter, across⟩ := List.pairwise_append.mp partition.sorted
  have pagedPrev := partition.paged prev (by simp)
  have pagedNext := partition.paged next (by simp)
  have pagedSpan := partition.pagedSpans s List.mem_cons_self
  have stopSpan : prev.addr + (prev.len + s.len) = s.stop := by
    unfold Range.stop at *
    omega
  have middle : Range.stop { addr := prev.addr, len := prev.len + s.len } = next.addr :=
    stopSpan.trans touchesNext
  have stop : prev.addr + (prev.len + (s.len + next.len)) = next.stop := by
    unfold Range.stop at *
    omega
  apply Partition.fill (m := [prev, next]) (t := ⟨prev.addr, prev.len + (s.len + next.len)⟩)
    partition
  · intro r earlier
    exact across r earlier prev List.mem_cons_self
  · intro r later
    exact stop.trans_lt (List.rel_of_pairwise_cons sortedAfter.tail later)
  · refine ⟨pagedPrev.addr, ?_⟩
    show (prev.len + (s.len + next.len)) % pageSize = 0
    rw [Nat.add_mod, pagedPrev.len, Nat.add_mod s.len, pagedSpan.len, pagedNext.len]
    rfl
  · exact Nat.add_pos_left pagedPrev.positive _
  · simp only [List.length_append, List.length_cons] at few ⊢
    omega
  · intro a
    rw [has_of_parts (t := ⟨prev.addr, prev.len + (s.len + next.len)⟩)
        (r := ⟨prev.addr, prev.len + s.len⟩) rfl middle stop,
      has_of_parts (t := ⟨prev.addr, prev.len + s.len⟩) (r := prev) rfl touchesPrev stopSpan]
    simp only [covers_cons, covers_nil]
    omega

/-- A range that touches neither of its neighbours needs an entry of its own. -/
theorem insertEntry_spec (partition : Partition (before ++ after) (s :: spans))
    (ends : ∀ r ∈ before, r.Before s) (starts : ∀ r ∈ after, s.Before r) :
    Ensures (fun stop => stop = .full ∧ TooMany (before ++ after) s)
      (fun entries => Partition entries spans)
      (insertEntry (before ++ after) before.length s.addr s.len) := by
  have pagedSpan := partition.pagedSpans s List.mem_cons_self
  unfold insertEntry kassert
  by_cases room : (before ++ after).length < maxVmapEntries
  · rw [if_pos room, if_pos (by simp)]
    show Partition ((before ++ after).insertIdx before.length s) spans
    rw [insertIdx_length]
    apply Partition.fill (m := []) (t := s) partition ends starts ⟨pagedSpan.addr, pagedSpan.len⟩
      pagedSpan.positive
    · simp only [List.length_append, List.length_cons] at room ⊢
      omega
    · intro a
      rw [covers_nil, Nat.zero_add]
  · rw [if_neg room]
    have paged := partition.paged
    refine ⟨rfl, before ++ s :: after, pairwise_insert partition.sorted ends starts, ?_, ?_, ?_⟩
    · simp only [List.forall_mem_append, List.forall_mem_cons] at paged ⊢
      exact ⟨paged.1, pagedSpan, paged.2⟩
    · intro a
      simp only [covers_append, covers_cons]
      omega
    · simp only [List.length_append, List.length_cons, not_lt] at room ⊢
      omega

/-- The range is merged with the entries on either side that it touches. -/
theorem giveRange_merges (partition : Partition (before ++ after) (s :: spans))
    (low : ∀ r ∈ before, r.addr < s.addr) (high : ∀ r ∈ after, s.addr ≤ r.addr)
    (below : ∀ r ∈ before, r.stop ≤ s.addr) (above : ∀ r ∈ after, s.stop ≤ r.addr) :
    Ensures (fun stop => stop = .full ∧ TooMany (before ++ after) s)
      (fun entries => Partition entries spans) (giveRange (before ++ after) s.addr s.len) := by
  obtain ⟨sortedBefore, sortedAfter, -⟩ := List.pairwise_append.mp partition.sorted
  rw [giveRange_split low high below above]
  cases left : before.getLast?.filter fun r => r.stop = s.addr with
  | none =>
      have ends := before_of_last sortedBefore low below left
      cases right : after.head?.filter fun r => s.addr + s.len = r.addr with
      | none => exact insertEntry_spec partition ends (after_of_first sortedAfter above right)
      | some next =>
          obtain ⟨rest, rfl, touches⟩ := touches_first right
          dsimp only
          rw [List.set_append_right _ _ le_rfl, Nat.sub_self, List.set_cons_zero]
          exact partition.mergeNext ends touches
  | some prev =>
      obtain ⟨init, rfl, touchesPrev⟩ := touches_last left
      have setPrev : ∀ t after, ((init ++ [prev]) ++ after).set ((init ++ [prev]).length - 1) t =
          init ++ t :: after := by
        intro t after
        simp
      cases right : after.head?.filter fun r => s.addr + s.len = r.addr with
      | none =>
          dsimp only
          rw [setPrev]
          rw [List.append_assoc] at partition
          exact partition.mergePrev (after_of_first sortedAfter above right) touchesPrev
      | some next =>
          obtain ⟨rest, rfl, touchesNext⟩ := touches_first right
          have removed : ∀ t, removeEntry (init ++ t :: next :: rest) (init ++ [prev]).length =
              .ok (init ++ t :: rest) := by
            intro t
            unfold removeEntry kassert
            rw [if_pos (by simp)]
            simp [List.eraseIdx_append_of_length_le]
          dsimp only
          rw [setPrev, removed]
          rw [List.append_assoc] at partition
          exact partition.mergeBoth touchesPrev touchesNext

/-- A range that is outstanding can be freed as long as there is room for its entry. -/
theorem giveRange_spec (partition : Partition entries (s :: spans)) :
    Ensures (fun stop => stop = .full ∧ TooMany entries s)
      (fun entries => Partition entries spans) (giveRange entries s.addr s.len) := by
  obtain ⟨before, after, rfl, -, fails, stops⟩ :=
    findIdx_split (fun r => decide ¬r.addr < s.addr) entries
  have low : ∀ r ∈ before, r.addr < s.addr := by
    intro r member
    simpa using fails r member
  have high : ∀ r ∈ after, s.addr ≤ r.addr := by
    cases after with
    | nil => simp
    | cons first rest =>
        have start : s.addr ≤ first.addr := by simpa using stops first rfl
        have sorted := (List.pairwise_append.mp partition.sorted).2.1
        refine List.forall_mem_cons.mpr ⟨start, fun r later => ?_⟩
        have ahead : first.stop < r.addr := List.rel_of_pairwise_cons sorted later
        exact start.trans ((Nat.le_add_right _ _).trans ahead.le)
  have positive := (partition.pagedSpans s List.mem_cons_self).positive
  apply giveRange_merges partition low high
  · intro r member
    have starts := low r member
    rcases partition.apart (List.mem_append_left after member) List.mem_cons_self
      with clear | beyond
    · exact clear
    · unfold Range.stop at beyond
      omega
  · intro r member
    have starts := high r member
    have longer := (partition.paged r (List.mem_append_right before member)).positive
    rcases partition.apart (List.mem_append_right before member) List.mem_cons_self
      with beyond | clear
    · unfold Range.stop at beyond
      omega
    · exact clear

end Give

end Opal.Vmap
