import Opal.XArray.Lookup

/-!
# What the writes of an xarray change

A write changes the indices it names and no others as long as it does not expand a
compressed slot.  The condition is put on the tree before the write: each slot above
the lowest level that stores a value lies wholly inside the written range or wholly
outside of it.
-/

namespace Opal.XArray

section Overlay

/-- The old answer, except at the indices that were written. -/
def overlay (written : Nat → Option Nat) (index : Nat) (old : Except Fault Nat) :
    Except Fault Nat :=
  match written index with
  | some value => .ok value
  | none => old

variable (stride : Nat) (written : Nat → Option Nat)

/-- The slot with quotient `s` changed at the written indices only. -/
def SlotWritten (level s : Nat) (old new : Slot) : Prop :=
  ∀ index < 2 ^ 64, index / span level = s →
    readSlot stride index level new = overlay written index (readSlot stride index level old)

/-- The node with quotient `q` changed at the written indices only. -/
def NodeWritten (level q : Nat) (old new : Node) : Prop :=
  ∀ index < 2 ^ 64, index / span (level + 1) = q →
    getNode stride index (level + 1) new =
      overlay written index (getNode stride index (level + 1) old)

variable {stride written}

theorem NodeWritten.of_slots {level q : Nat} {old new : Node}
    (slots : ∀ i : Fin slotSize,
      SlotWritten stride written level (slotSize * q + i.val) (old i) (new i)) :
    NodeWritten stride written level q old new := by
  intro index fits inside
  rw [getNode_succ, getNode_succ]
  exact slots _ index fits ((slotIndex_eq_iff fits inside _).mp rfl)

theorem SlotWritten.of_none {level s : Nat} {slot : Slot}
    (outside : ∀ index < 2 ^ 64, index / span level = s → written index = none) :
    SlotWritten stride written level s slot slot := by
  intro index fits inside
  rw [overlay, outside index fits inside]

theorem SlotWritten.of_child {level s : Nat} {slot : Slot} {child child' : Node}
    (read : ∀ index, readSlot stride index (level + 1) slot =
      getNode stride index (level + 1) child)
    (node : NodeWritten stride written level s child child') :
    SlotWritten stride written (level + 1) s slot (.node child') := by
  intro index fits inside
  rw [read]
  exact node index fits inside

theorem SlotWritten.update {level q : Nat} {node : Node} {i : Fin slotSize} {slot : Slot}
    (here : SlotWritten stride written level (slotSize * q + i.val) (node i) slot)
    (outside : ∀ j ≠ i, ∀ index < 2 ^ 64, index / span level = slotSize * q + j.val →
      written index = none) :
    NodeWritten stride written level q node (Function.update node i slot) := by
  apply NodeWritten.of_slots
  intro j
  by_cases same : j = i
  · subst same
    rwa [Function.update_self]
  · rw [Function.update_of_ne same]
    exact .of_none (outside j same)

theorem wfSlot_update {level : Nat} {node : Node} (wf : ∀ i, WfSlot level (node i))
    {i : Fin slotSize} {slot : Slot} (wfNew : WfSlot level slot) (j : Fin slotSize) :
    WfSlot level (Function.update node i slot j) := by
  by_cases same : j = i
  · subst same
    rwa [Function.update_self]
  · rw [Function.update_of_ne same]
    exact wf j

end Overlay

section Set

variable {stride : Nat} {index : Nat} {value : Nat}

/-- The write of `xarray_set`. -/
def single (index : Nat) (value : Nat) : Nat → Option Nat :=
  fun other => if other = index then some value else none

theorem readSlot_of_holds {level : Nat} {slot : Slot}
    (held : holds stride index (level * slotBits) value slot = true) :
    readSlot stride index level slot = .ok value := by
  cases slot with
  | node child => simp [holds] at held
  | word slot =>
    simp only [holds, Bool.and_eq_true, beq_iff_eq] at held
    rw [readSlot, if_pos held.1, ← held.2]

/-- A write outside of slot `i` is no write of this call. -/
theorem single_eq_none {level q : Nat} {i j : Fin slotSize}
    (here : index / span level = slotSize * q + i.val) (ne : j ≠ i) (other : Nat)
    (inside : other / span level = slotSize * q + j.val) : single index value other = none := by
  rw [single, if_neg]
  rintro rfl
  rw [here] at inside
  exact ne (Fin.val_inj.mp (Nat.add_left_cancel inside)).symm

theorem setNode_spec (even : value % 2 = 0) (fits : value < 2 ^ 64) (small : index < 2 ^ 64)
    {level q : Nat} {node : Node} (inside : index / span (level + 1) = q)
    (wf : ∀ i, WfSlot level (node i))
    (intact : ∀ (i : Fin slotSize) l t,
      CompressedSlot level (slotSize * q + i.val) (node i) l t → index / span l = t →
        getNode stride index (level + 1) node = .ok value) (mem : AllocOracle) :
    ∃ ok node' later, setNode stride index value (level + 1) node mem = .ok ((ok, node'), later) ∧
      (∀ i, WfSlot level (node' i)) ∧
      (ok = true → NodeWritten stride (single index value) level q node node') := by
  induction level generalizing q node mem with
  | zero =>
    have here := (slotIndex_eq_iff small inside _).mp rfl
    refine ⟨true, Function.update node (slotIndex index (0 * slotBits))
      (.word (value ||| flagValue)), mem, by rw [setNode]; rfl, ?_, fun _ => ?_⟩
    · exact wfSlot_update wf (.word (.inl (isValue_or_flag value)))
    · apply SlotWritten.update _ fun j ne other _ => single_eq_none here ne other
      intro other _ covers
      rw [← here, span_zero, Nat.div_one, Nat.div_one] at covers
      subst covers
      rw [readSlot_value even (by simpa [Nat.mod_one] using fits), overlay, single, if_pos rfl]
      simp [Nat.mod_one]
  | succ level ih =>
    have here := (slotIndex_eq_iff small inside _).mp rfl
    have read := getNode_succ stride index (level + 1) node
    have compressedHere := intact (slotIndex index ((level + 1) * slotBits))
    have wfHere := wf (slotIndex index ((level + 1) * slotBits))
    have above : ¬ (level + 1) * slotBits = 0 := by simp [slotBits]
    rw [setNode]
    simp only [above, if_false]
    generalize slotIndex index ((level + 1) * slotBits) = i at *
    by_cases held : holds stride index ((level + 1) * slotBits) value (node i) = true
    · rw [if_pos held]
      refine ⟨true, node, mem, rfl, wf, fun _ other _ _ => ?_⟩
      rw [overlay, single]
      by_cases same : other = index
      · rw [if_pos same, same, read, readSlot_of_holds held]
      · rw [if_neg same]
    · rw [if_neg held]
      -- a value in the slot would be compressed and hold another value
      have plain : ∀ slot, node i = .word slot → isValue slot = false := by
        intro slot eq
        by_contra flagged
        rw [Bool.not_eq_false] at flagged
        rw [eq] at compressedHere
        have stored := compressedHere _ _ (.here flagged) here
        rw [read, eq, readSlot, if_pos flagged] at stored
        rw [eq, holds, flagged, Except.ok.inj stored] at held
        simp at held
      rcases childOf_spec wfHere plain stride ((level + 1) * slotBits) mem with
        ⟨later, eq⟩ | ⟨child, later, eq, wfChild, readChild, compressedChild⟩
      · rw [eq]
        exact ⟨false, node, later, rfl, wf, fun ok => by cases ok⟩
      · have intactChild (j : Fin slotSize) (l t : Nat)
            (compressed : CompressedSlot level (slotSize * (slotSize * q + i.val) + j.val)
              (child j) l t) (covers : index / span l = t) :
            getNode stride index (level + 1) child = .ok value := by
          rw [← readChild, ← read]
          exact compressedHere l t (compressedChild _ j l t compressed) covers
        obtain ⟨ok, child', final, eqChild, wfNew, changed⟩ := ih here wfChild intactChild later
        refine ⟨ok, Function.update node i (.node child'), final, ?_, ?_, fun done => ?_⟩
        · simp only [eq, eqChild, intoChild, Except.map]
        · exact wfSlot_update wf (.node wfNew)
        · exact SlotWritten.update (.of_child readChild (changed done))
            fun j ne other _ => single_eq_none here ne other

end Set

section SetRange

variable {stride : Nat} {range : Range}

/-- The write of `xarray_set_range`. -/
def Range.written (stride : Nat) (range : Range) : Nat → Option Nat :=
  fun index =>
    if range.first ≤ index ∧ index ≤ range.last then
      some (range.startValue + (index - range.startIndex) * stride)
    else none

/-- The range starts at its first index and its values are even words. -/
structure Range.Valid (stride : Nat) (range : Range) : Prop where
  start : range.startIndex = range.first
  order : range.first ≤ range.last
  last : range.last < 2 ^ 64
  evenStride : stride % 2 = 0
  even : range.startValue % 2 = 0
  fits : range.startValue + (range.last - range.first) * stride < 2 ^ 64

/-- The indices with quotient `t` are all in the range, or none of them is. -/
def Range.AllOrNone (range : Range) (l t : Nat) : Prop :=
  (∀ index < 2 ^ 64, index / span l = t → range.first ≤ index ∧ index ≤ range.last) ∨
    ∀ index < 2 ^ 64, index / span l = t → ¬ (range.first ≤ index ∧ index ≤ range.last)

theorem Range.Valid.value_fits (valid : range.Valid stride) {index : Nat}
    (high : index ≤ range.last) :
    range.startValue + (index - range.startIndex) * stride < 2 ^ 64 := by
  refine lt_of_le_of_lt (Nat.add_le_add_left (Nat.mul_le_mul_right stride ?_) _) valid.fits
  rw [valid.start]
  omega

/-- The last index of the slot, cut off at the end of the index space. -/
def slotLast (level s : Nat) : Nat := min (s * span level + (span level - 1)) uint64Max

theorem le_slotLast {level s : Nat} {index : Nat} (fits : index < 2 ^ 64)
    (inside : index / span level = s) : s * span level ≤ index ∧ index ≤ slotLast level s := by
  have split := Nat.div_add_mod index (span level)
  have rest := Nat.mod_lt index (span_pos level)
  rw [inside, mul_comm] at split
  have top : uint64Max = 2 ^ 64 - 1 := rfl
  refine ⟨by omega, le_min (by omega) (by omega)⟩

theorem div_span_eq {level s : Nat} {index : Nat} (low : s * span level ≤ index)
    (high : index ≤ slotLast level s) : index / span level = s ∧ index < 2 ^ 64 := by
  have bound := le_min_iff.mp high
  have top : uint64Max = 2 ^ 64 - 1 := rfl
  have positive := span_pos level
  refine ⟨Nat.div_eq_of_lt_le low ?_, by omega⟩
  rw [Nat.succ_mul]
  omega

/-- The last index of a slot as `set_range_node` computes it. -/
theorem slotLast_eq {level s : Nat} (shallow : level ≤ 10) (small : s * span level < 2 ^ 64) :
    (if (s * span level + (2 ^ (level * slotBits) - 1)) % 2 ^ 64 < s * span level then uint64Max
      else (s * span level + (2 ^ (level * slotBits) - 1)) % 2 ^ 64) = slotLast level s := by
  have wide : span level ≤ 2 ^ 64 := Nat.pow_le_pow_right (by decide) (by
    simp only [slotBits]
    omega)
  have top : uint64Max = 2 ^ 64 - 1 := rfl
  rw [show 2 ^ (level * slotBits) = span level from rfl, slotLast]
  by_cases small : s * span level + (span level - 1) < 2 ^ 64
  · rw [Nat.mod_eq_of_lt small, if_neg (by omega), min_eq_left (by omega)]
  · rw [Nat.mod_eq_sub_mod (by omega), Nat.mod_eq_of_lt (by omega), if_pos (by omega),
      min_eq_right (by omega)]

/-- The value of a whole slot gives each index of it the value of the range. -/
theorem slotWritten_value (valid : range.Valid stride) {level s : Nat} (slot : Slot)
    (first : range.first ≤ s * span level) (covered : slotLast level s ≤ range.last) :
    SlotWritten stride (range.written stride) level s slot
      (.word
        ((range.startValue + (s * span level - range.startIndex) * stride) ||| flagValue)) := by
  intro index fits inside
  obtain ⟨low, high⟩ := le_slotLast fits inside
  have offset : range.startValue + (s * span level - range.startIndex) * stride +
      index % span level * stride =
      range.startValue + (index - range.startIndex) * stride := by
    have split := Nat.div_add_mod index (span level)
    rw [inside, mul_comm] at split
    rw [add_assoc, ← add_mul, valid.start]
    congr 2
    omega
  have even : (range.startValue + (s * span level - range.startIndex) * stride) % 2 = 0 := by
    rw [Nat.add_mod, Nat.mul_mod, valid.even, valid.evenStride]
    simp
  have small := valid.value_fits (le_trans high covered)
  rw [readSlot_value even (by rwa [offset]), offset, overlay, Range.written,
    if_pos ⟨le_trans first low, le_trans high covered⟩]

theorem slotWritten_before {level s : Nat} {slot : Slot} (before : slotLast level s < range.first) :
    SlotWritten stride (range.written stride) level s slot slot := by
  apply SlotWritten.of_none
  intro index fits inside
  rw [Range.written, if_neg]
  exact fun both => not_le.mpr before (le_trans both.1 (le_slotLast fits inside).2)

theorem slotWritten_past {level s : Nat} {slot : Slot}
    (past : ∀ index < 2 ^ 64, s * span level ≤ index → range.last < index) :
    SlotWritten stride (range.written stride) level s slot slot := by
  apply SlotWritten.of_none
  intro index fits inside
  rw [Range.written, if_neg]
  exact fun both => not_le.mpr (past index fits (le_slotLast fits inside).1) both.2

/-- The result of the calls on the nodes of the level. -/
def RangeSpec (stride : Nat) (range : Range) (level : Nat)
    (write : Node → Nat → AllocOracle → Written) : Prop :=
  ∀ node q mem, (∀ i, WfSlot level (node i)) →
    (∀ (i : Fin slotSize) l t, CompressedSlot level (slotSize * q + i.val) (node i) l t →
      range.AllOrNone l t) →
    ∃ ok node' later, write node (q * span (level + 1)) mem = .ok ((ok, node'), later) ∧
      (∀ i, WfSlot level (node' i)) ∧
      (ok = true → NodeWritten stride (range.written stride) level q node node')

theorem writeSlot_spec (valid : range.Valid stride) {level s : Nat}
    {below : Node → Nat → AllocOracle → Written}
    (spec : ∀ k, level = k + 1 → RangeSpec stride range k below) {node : Node} {i : Fin slotSize}
    (wf : ∀ i, WfSlot level (node i))
    (intact : ∀ l t, CompressedSlot level s (node i) l t → range.AllOrNone l t)
    (small : s * span level < 2 ^ 64) (low : range.first ≤ slotLast level s)
    (high : s * span level ≤ range.last) (mem : AllocOracle) :
    ∃ ok slot later,
      writeSlot stride range (level * slotBits) (s * span level) (slotLast level s) below node i
        mem = .ok ((ok, Function.update node i slot), later) ∧
      WfSlot level slot ∧
      (ok = true → SlotWritten stride (range.written stride) level s (node i) slot) := by
  unfold writeSlot
  by_cases whole : (range.first ≤ s * span level ∧ slotLast level s ≤ range.last) ∨
      level * slotBits = 0
  · rw [if_pos whole]
    have covered : range.first ≤ s * span level ∧ slotLast level s ≤ range.last := by
      rcases whole with both | lowest
      · exact both
      · obtain rfl : level = 0 := by simpa [slotBits] using lowest
        simp only [slotLast, span_zero, mul_one, Nat.sub_self, add_zero] at low high ⊢
        exact ⟨le_trans low (min_le_left _ _), le_trans (min_le_left _ _) high⟩
    have fits := valid.value_fits high
    rw [valueForIndex, if_neg (by rw [valid.start]; exact not_lt.mpr covered.1),
      addmulU64Checked_eq, if_pos fits]
    exact ⟨true, _, mem, rfl, .word (.inl (isValue_or_flag _)),
      fun _ => slotWritten_value valid (node i) covered.1 covered.2⟩
  · rw [if_neg whole]
    obtain ⟨partly, above⟩ := not_or.mp whole
    obtain ⟨k, rfl⟩ : ∃ k, level = k + 1 :=
      Nat.exists_eq_add_one_of_ne_zero fun zero => above (by rw [zero, Nat.zero_mul])
    -- a value in the slot would be cut by the range
    have plain : ∀ slot, node i = .word slot → isValue slot = false := by
      intro slot eq
      by_contra flagged
      rw [Bool.not_eq_false] at flagged
      have top : s * span (k + 1) ≤ slotLast (k + 1) s := by
        apply le_min
        · exact Nat.le_add_right _ _
        · exact Nat.le_sub_one_of_lt small
      rw [eq] at intact
      rcases intact _ _ (.here flagged) with all | none
      · obtain ⟨inFirst, smallFirst⟩ := div_span_eq (le_refl _) top
        obtain ⟨inLast, smallLast⟩ := div_span_eq top (le_refl _)
        exact partly ⟨(all _ smallFirst inFirst).1, (all _ smallLast inLast).2⟩
      · obtain ⟨inside, smallMax⟩ := div_span_eq (le_max_left (s * span (k + 1)) range.first)
          (max_le top low)
        exact none _ smallMax inside ⟨le_max_right _ _, max_le high valid.order⟩
    rcases childOf_spec (wf i) plain stride ((k + 1) * slotBits) mem with
      ⟨later, eq⟩ | ⟨child, later, eq, wfChild, readChild, compressedChild⟩
    · rw [eq]
      exact ⟨false, node i, later, by rw [Function.update_eq_self], wf i, fun ok => by cases ok⟩
    · obtain ⟨ok, child', final, eqChild, wfNew, changed⟩ := spec k rfl child s later wfChild
        fun j l t compressed => intact l t (compressedChild s j l t compressed)
      refine ⟨ok, .node child', final, ?_, .node wfNew, fun done => ?_⟩
      · simp only [eq, eqChild, intoChild, Except.map]
      · exact .of_child readChild (changed done)

/-- What the loop over the slots of a node does to the slots that are left. -/
theorem slotLoop_spec (valid : range.Valid stride) {level q : Nat} (shallow : level ≤ 10)
    {below : Node → Nat → AllocOracle → Written}
    (spec : ∀ k, level = k + 1 → RangeSpec stride range k below) {slots : List (Fin slotSize)}
    (sorted : slots.Pairwise (· < ·)) {node : Node} (wf : ∀ i, WfSlot level (node i))
    (intact : ∀ i ∈ slots, ∀ l t, CompressedSlot level (slotSize * q + i.val) (node i) l t →
      range.AllOrNone l t) (mem : AllocOracle) :
    ∃ ok node' later,
      slotLoop stride range (level * slotBits) (q * span (level + 1)) below slots node mem =
        .ok ((ok, node'), later) ∧
      (∀ i, WfSlot level (node' i)) ∧ (∀ i ∉ slots, node' i = node i) ∧
      (ok = true → ∀ i ∈ slots,
        SlotWritten stride (range.written stride) level (slotSize * q + i.val) (node i)
          (node' i)) := by
  induction slots generalizing node mem with
  | nil => exact ⟨true, node, mem, rfl, wf, fun _ _ => rfl, fun _ _ mem => by cases mem⟩
  | cons i rest ih =>
    obtain ⟨later, sortedRest⟩ := List.pairwise_cons.mp sorted
    have notMem : i ∉ rest := fun inRest => Nat.lt_irrefl i.val (later i inRest)
    have apart : ∀ j ∈ rest, j ≠ i := fun j inRest eq => notMem (eq ▸ inRest)
    have first : q * span (level + 1) + i * 2 ^ (level * slotBits) =
        (slotSize * q + i.val) * span level := by
      rw [span_succ, add_mul, mul_comm (span level), ← mul_assoc, mul_comm q]
      rfl
    -- the slots from `i` on start at its first index or after it
    have start (j : Fin slotSize) (inSlots : j ∈ i :: rest) :
        (slotSize * q + i.val) * span level ≤ (slotSize * q + j.val) * span level := by
      apply Nat.mul_le_mul_right
      rcases List.mem_cons.mp inSlots with rfl | inRest
      · exact le_refl _
      · exact Nat.add_le_add_left (le_of_lt (later j inRest)) _
    rw [slotLoop, addmulU64Checked_eq, first]
    by_cases small : (slotSize * q + i.val) * span level < 2 ^ 64
    · simp only [if_pos small]
      by_cases past : range.last < (slotSize * q + i.val) * span level
      · rw [if_pos past]
        refine ⟨true, node, mem, rfl, wf, fun _ _ => rfl, fun _ j inSlots => ?_⟩
        exact slotWritten_past fun index _ low =>
          lt_of_lt_of_le past (le_trans (start j inSlots) low)
      · rw [if_neg past, slotLast_eq shallow small]
        have intactRest : ∀ j ∈ rest, ∀ l t,
            CompressedSlot level (slotSize * q + j.val) (node j) l t → range.AllOrNone l t :=
          fun j inRest => intact j (List.mem_cons_of_mem _ inRest)
        by_cases before : slotLast level (slotSize * q + i.val) < range.first
        · rw [if_pos before]
          obtain ⟨ok, node', final, eq, wfNew, same, changed⟩ := ih sortedRest wf intactRest mem
          refine ⟨ok, node', final, eq, wfNew, ?_, fun finished j inSlots => ?_⟩
          · exact fun j out => same j fun inRest => out (List.mem_cons_of_mem _ inRest)
          · rcases List.mem_cons.mp inSlots with rfl | inRest
            · rw [same j notMem]
              exact slotWritten_before before
            · exact changed finished j inRest
        · rw [if_neg before]
          obtain ⟨ok, slot, mid, eqSlot, wfSlot, changedSlot⟩ :=
            writeSlot_spec valid spec wf (intact i List.mem_cons_self) small (not_lt.mp before)
              (not_lt.mp past) mem
          rw [eqSlot]
          cases ok with
          | false =>
            refine ⟨false, _, mid, rfl, wfSlot_update wf wfSlot, ?_, fun ok => by cases ok⟩
            exact fun j out => Function.update_of_ne (fun eq => out (by simp [eq])) _ _
          | true =>
            have intactNew : ∀ j ∈ rest, ∀ l t, CompressedSlot level (slotSize * q + j.val)
                (Function.update node i slot j) l t → range.AllOrNone l t := by
              intro j inRest l t compressed
              rw [Function.update_of_ne (apart j inRest)] at compressed
              exact intactRest j inRest l t compressed
            obtain ⟨ok, node', final, eq, wfNew, same, changed⟩ :=
              ih sortedRest (wfSlot_update wf wfSlot) intactNew mid
            refine ⟨ok, node', final, eq, wfNew, fun j out => ?_, fun finished j inSlots => ?_⟩
            · rw [same j fun inRest => out (List.mem_cons_of_mem _ inRest),
                Function.update_of_ne (fun eq => out (by simp [eq]))]
            · rcases List.mem_cons.mp inSlots with rfl | inRest
              · rw [same j notMem, Function.update_self]
                exact changedSlot rfl
              · have changedRest := changed finished j inRest
                rwa [Function.update_of_ne (apart j inRest)] at changedRest
    · simp only [if_neg small]
      refine ⟨true, node, mem, rfl, wf, fun _ _ => rfl, fun _ j inSlots => ?_⟩
      exact slotWritten_past fun index fits low =>
        absurd (lt_of_le_of_lt (le_trans (start j inSlots) low) fits) small

/-- `set_range_node` writes the range below the node and nothing else. -/
theorem setRangeNode_spec (valid : range.Valid stride) {level : Nat} (shallow : level ≤ 10) :
    RangeSpec stride range level (setRangeNode stride range level) := by
  induction level with
  | zero =>
    intro node q mem wf intact
    obtain ⟨ok, node', later, eq, wfNew, -, changed⟩ :=
      @slotLoop_spec _ _ valid 0 q shallow (fun node _ mem => .ok ((true, node), mem))
        (fun k zero => by cases zero) _ (List.pairwise_lt_finRange slotSize) node wf
        (fun i _ => intact i) mem
    refine ⟨ok, node', later, ?_, wfNew, fun done => ?_⟩
    · rw [setRangeNode]
      simpa using eq
    · exact .of_slots fun i => changed done i (List.mem_finRange i)
  | succ level ih =>
    intro node q mem wf intact
    have spec : ∀ k, level + 1 = k + 1 →
        RangeSpec stride range k (setRangeNode stride range level) := by
      rintro k ⟨⟩
      exact ih (by omega)
    obtain ⟨ok, node', later, eq, wfNew, -, changed⟩ :=
      slotLoop_spec valid shallow spec (List.pairwise_lt_finRange slotSize) wf
        (fun i _ => intact i) mem
    refine ⟨ok, node', later, by rw [setRangeNode]; exact eq, wfNew, fun done => ?_⟩
    exact .of_slots fun i => changed done i (List.mem_finRange i)

end SetRange

end Opal.XArray
