import Opal.XArray.Write

/-!
# An xarray as a plain map from indices to values

The abstract state is a function from indices to words, zero at first.  A run of
successful writes refines it as long as no write cuts a compressed slot.
-/

namespace Opal.XArray

section Calls

inductive Call where
  | set (index value : Nat)
  | setRange (index len start : Nat)
  deriving DecidableEq, Repr

def exec (xa : Xarray) (mem : AllocOracle) : Call → Outcome
  | .set index value => xarraySet xa index value mem
  | .setRange index len start => xarraySetRange xa index len start mem

namespace Call

/-- Even values, and values of a range that fit in 64 bits. -/
def Valid (stride : Nat) : Call → Prop
  | set index value => index < 2 ^ 64 ∧ value < 2 ^ 64 ∧ value % 2 = 0
  | setRange index len start =>
      index < 2 ^ 64 ∧ len < 2 ^ 64 ∧ start % 2 = 0 ∧ start + (len - 1) * stride < 2 ^ 64

instance (stride : Nat) (call : Call) : Decidable (call.Valid stride) := by
  cases call <;> (unfold Valid; infer_instance)

/-- The values the call asks for. -/
def written (stride : Nat) : Call → Nat → Option Nat
  | set index value => single index value
  | setRange index len start => fun i =>
      if index ≤ i ∧ i < index + len then some (start + (i - index) * stride) else none

/-- The call does not have to expand a compressed slot: it writes all of its indices
or none, or it is an `xarray_set` of the value the index has already. -/
def Intact (xa : Xarray) : Call → Prop
  | set index value => ∀ l t, Compressed xa l t → index / span l = t →
      xarrayGet xa index = .ok value
  | setRange index len _ => ∀ l t, Compressed xa l t →
      (∀ i < 2 ^ 64, i / span l = t → index ≤ i ∧ i < index + len) ∨
        ∀ i < 2 ^ 64, i / span l = t → ¬ (index ≤ i ∧ i < index + len)

theorem written_setRange_of_not {stride index len start i : Nat}
    (outside : ¬ (index ≤ i ∧ i < index + len)) :
    (setRange index len start).written stride i = none := if_neg outside

end Call

end Calls

section Step

/-- What a call does to the array: it returns, it keeps the array well-formed, and when
it succeeds it changes the written indices only. -/
def Writes (xa : Xarray) (written : Nat → Option Nat) (outcome : Outcome) : Prop :=
  ∃ ok xa' later, outcome = .ok ((ok, xa'), later) ∧ Wf xa' ∧ xa'.stride = xa.stride ∧
    (ok = true → ∀ index < 2 ^ 64, xarrayGet xa' index = overlay written index (xarrayGet xa index))

theorem Writes.of_grown {old new : Xarray} {written : Nat → Option Nat} {outcome : Outcome}
    (grown : Grown old new) (writes : Writes new written outcome) : Writes old written outcome := by
  obtain ⟨ok, xa', later, eq, wf, stride, changed⟩ := writes
  refine ⟨ok, xa', later, eq, wf, stride.trans grown.stride, fun done index fits => ?_⟩
  rw [changed done index fits, grown.get index fits]

/-- A write into the root is a write into the array when the array has room for it. -/
theorem xarrayGet_root {xa : Xarray} (wf : Wf xa) {root : Node} {written : Nat → Option Nat}
    (room : ∀ index < 2 ^ 64, index / span xa.depth ≠ 0 → written index = none)
    (changed : NodeWritten xa.stride written (xa.depth - 1) 0 xa.root root) (index : Nat)
    (fits : index < 2 ^ 64) :
    xarrayGet { xa with root := root } index = overlay written index (xarrayGet xa index) := by
  rw [xarrayGet_eq fits, xarrayGet_eq fits]
  have levels : xa.depth - 1 + 1 = xa.depth := Nat.sub_add_cancel wf.depth
  by_cases inside : index / span xa.depth = 0
  · simp only [if_pos inside]
    have here := changed index fits (by rw [levels]; exact inside)
    rwa [levels] at here
  · simp only [if_neg inside, overlay, room index fits inside]

theorem xarraySet_writes {xa : Xarray} (wf : Wf xa) {index value : Nat} (small : index < 2 ^ 64)
    (fits : value < 2 ^ 64) (even : value % 2 = 0) (intact : (Call.set index value).Intact xa)
    (mem : AllocOracle) : Writes xa (single index value) (xarraySet xa index value mem) := by
  obtain ⟨grown, room⟩ := ensureDepth_spec wf small mem
  unfold xarraySet
  generalize ensureDepth xa index mem = ensured at *
  obtain ⟨⟨ok, new⟩, later⟩ := ensured
  cases ok with
  | false => exact ⟨false, new, later, rfl, grown.wf, grown.stride, fun ok => by cases ok⟩
  | true =>
    apply Writes.of_grown grown
    have inside : index / span new.depth = 0 := room rfl
    have levels : new.depth - 1 + 1 = new.depth := Nat.sub_add_cancel grown.wf.depth
    have intactRoot (i : Fin slotSize) (l t : Nat)
        (compressed : CompressedSlot (new.depth - 1) (slotSize * 0 + i.val) (new.root i) l t)
        (covers : index / span l = t) :
        getNode new.stride index (new.depth - 1 + 1) new.root = .ok value := by
      rw [mul_zero, zero_add] at compressed
      have stored := intact l t (grown.compressed l t ⟨i, compressed⟩) covers
      rw [← grown.get index small, xarrayGet_eq small, if_pos inside] at stored
      rwa [levels]
    obtain ⟨ok, root, final, eq, wfNew, changed⟩ :=
      setNode_spec even fits small (by rw [levels]; exact inside) grown.wf.slots intactRoot later
    rw [levels] at eq
    refine ⟨ok, { new with root := root }, final, ?_, ⟨grown.wf.depth, grown.wf.bound, wfNew⟩, rfl,
      fun done => xarrayGet_root grown.wf ?_ (changed done)⟩
    · simp only [eq, Except.map]
    · intro other _ outside
      rw [single, if_neg]
      rintro rfl
      exact outside inside

theorem xarraySetRange_writes {xa : Xarray} (wf : Wf xa) (evenStride : xa.stride % 2 = 0)
    {index len start : Nat} (valid : (Call.setRange index len start).Valid xa.stride)
    (intact : (Call.setRange index len start).Intact xa) (mem : AllocOracle) :
    Writes xa ((Call.setRange index len start).written xa.stride)
      (xarraySetRange xa index len start mem) := by
  obtain ⟨small, -, even, fits⟩ := valid
  unfold xarraySetRange
  by_cases empty : len = 0
  · rw [if_pos empty]
    refine ⟨true, xa, mem, rfl, wf, rfl, fun _ other _ => ?_⟩
    rw [overlay, Call.written_setRange_of_not (by omega)]
  · rw [if_neg empty, addmulU64Checked_eq, mul_one]
    by_cases wraps : index + (len - 1) < 2 ^ 64
    · simp only [if_pos wraps]
      obtain ⟨grown, room⟩ := ensureDepth_spec wf wraps mem
      generalize ensureDepth xa (index + (len - 1)) mem = ensured at *
      obtain ⟨⟨ok, new⟩, later⟩ := ensured
      cases ok with
      | false => exact ⟨false, new, later, rfl, grown.wf, grown.stride, fun ok => by cases ok⟩
      | true =>
        apply Writes.of_grown grown
        have inside : (index + (len - 1)) / span new.depth = 0 := room rfl
        have sameStride : new.stride = xa.stride := grown.stride
        have inRange (i : Nat) :
            index ≤ i ∧ i ≤ index + (len - 1) ↔ index ≤ i ∧ i < index + len := by omega
        have validRange : Range.Valid new.stride ⟨index, index + (len - 1), index, start⟩ :=
          ⟨rfl, Nat.le_add_right _ _, wraps, sameStride ▸ evenStride, even, by
            simpa [sameStride] using fits⟩
        have sameWrites : Range.written new.stride ⟨index, index + (len - 1), index, start⟩ =
            (Call.setRange index len start).written xa.stride := by
          funext i
          simp only [Range.written, Call.written, sameStride, inRange]
        obtain ⟨ok, root, final, eq, wfNew, changed⟩ :=
          setRangeNode_spec validRange (Nat.sub_le_sub_right grown.wf.bound 1) new.root 0 later
            grown.wf.slots fun i l t compressed => by
              rw [mul_zero, zero_add] at compressed
              have whole := intact l t (grown.compressed l t ⟨i, compressed⟩)
              simpa only [Range.AllOrNone, inRange] using whole
        rw [zero_mul] at eq
        rw [sameWrites] at changed
        refine ⟨ok, { new with root := root }, final, ?_,
          ⟨grown.wf.depth, grown.wf.bound, wfNew⟩, rfl, fun done => ?_⟩
        · simp only [eq, Except.map]
        · refine xarrayGet_root grown.wf (fun other _ outside => ?_) (changed done)
          apply Call.written_setRange_of_not
          intro both
          have below : index + (len - 1) < span new.depth :=
            (Nat.div_eq_zero_iff_lt (span_pos new.depth)).mp inside
          exact outside (Nat.div_eq_of_lt (show other < span new.depth by omega))
    · rw [if_neg wraps]
      exact ⟨false, xa, mem, rfl, wf, rfl, fun ok => by cases ok⟩

theorem exec_writes {xa : Xarray} (wf : Wf xa) (evenStride : xa.stride % 2 = 0) {call : Call}
    (valid : call.Valid xa.stride) (intact : call.Intact xa) (mem : AllocOracle) :
    Writes xa (call.written xa.stride) (exec xa mem call) := by
  cases call with
  | set index value => exact xarraySet_writes wf valid.1 valid.2.1 valid.2.2 intact mem
  | setRange index len start => exact xarraySetRange_writes wf evenStride valid intact mem

end Step

section Run

/-- The array a successful call leaves. -/
def succeeded : Outcome → Option Xarray
  | .ok ((true, xa), _) => some xa
  | _ => none

/-- The arrays that successful calls reach, each with the values last written.  Every
call is `allowed` in the array it finds. -/
inductive Reaches (allowed : Xarray → Call → Prop) (stride : Nat) : Xarray → (Nat → Nat) → Prop
  | init : Reaches allowed stride (xarrayInit stride) fun _ => 0
  | step {xa xa' f call mem} : Reaches allowed stride xa f → call.Valid stride →
      allowed xa call → succeeded (exec xa mem call) = some xa' →
      Reaches allowed stride xa' fun index => (call.written stride index).getD (f index)

theorem wf_init (stride : Nat) : Wf (xarrayInit stride) :=
  ⟨le_refl 1, Nat.le_of_ble_eq_true rfl, wfSlot_empty 0⟩

theorem Writes.of_succeeded {xa xa' : Xarray} {written : Nat → Option Nat} {outcome : Outcome}
    (writes : Writes xa written outcome) (ok : succeeded outcome = some xa') :
    Wf xa' ∧ xa'.stride = xa.stride ∧
      ∀ index < 2 ^ 64, xarrayGet xa' index = overlay written index (xarrayGet xa index) := by
  obtain ⟨done, new, later, rfl, wf, stride, changed⟩ := writes
  cases done with
  | false => cases ok
  | true =>
    cases ok
    exact ⟨wf, stride, changed rfl⟩

/-- Along a run that never cuts a compressed slot, every index has the value of the
last write to it. -/
theorem reaches_refines {stride : Nat} (even : stride % 2 = 0) {xa : Xarray} {f : Nat → Nat}
    (reached : Reaches (fun xa call => call.Intact xa) stride xa f) :
    ∀ index < 2 ^ 64, xarrayGet xa index = .ok (f index) := by
  suffices Wf xa ∧ xa.stride = stride ∧ ∀ index < 2 ^ 64, xarrayGet xa index = .ok (f index) from
    this.2.2
  induction reached with
  | init =>
    refine ⟨wf_init stride, rfl, fun index fits => ?_⟩
    rw [xarrayGet_eq fits]
    split
    · exact getNode_empty stride index 0
    · rfl
  | @step xa xa' f call mem _ valid intact ok ih =>
    obtain ⟨wf, sameStride, agrees⟩ := ih
    have writes := exec_writes wf (sameStride ▸ even) (sameStride ▸ valid) intact mem
    obtain ⟨wfNew, newStride, changed⟩ := writes.of_succeeded ok
    refine ⟨wfNew, newStride.trans sameStride, fun index fits => ?_⟩
    rw [changed index fits, agrees index fits, overlay, sameStride]
    cases written : call.written stride index <;> simp only [Option.getD, written]

/-- In an array of two levels every compressed slot has 64 indices. -/
theorem compressed_two_levels {xa : Xarray} (depth : xa.depth = 2) {l t : Nat}
    (compressed : Compressed xa l t) : l = 1 := by
  obtain ⟨i, compressed⟩ := compressed
  rw [depth] at compressed
  generalize xa.root i = slot at compressed
  cases compressed with
  | here _ => rfl
  | child compressed => cases compressed

/-- The array after a first call, which has to succeed. -/
def afterFirst (stride : Nat) (call : Call) : Xarray :=
  (succeeded (exec (xarrayInit stride) .always call)).getD (xarrayInit stride)

def afterSecond (stride : Nat) (first second : Call) : Xarray :=
  (succeeded (exec (afterFirst stride first) .always second)).getD (xarrayInit stride)

theorem reaches_two {allowed : Xarray → Call → Prop} {stride : Nat} {first second : Call}
    (validFirst : first.Valid stride) (validSecond : second.Valid stride)
    (allowedFirst : allowed (xarrayInit stride) first)
    (allowedSecond : allowed (afterFirst stride first) second)
    (okFirst : (succeeded (exec (xarrayInit stride) .always first)).isSome)
    (okSecond : (succeeded (exec (afterFirst stride first) .always second)).isSome) :
    Reaches allowed stride (afterSecond stride first second) fun index =>
      (second.written stride index).getD ((first.written stride index).getD 0) := by
  have result {outcome : Option Xarray} (ok : outcome.isSome) :
      outcome = some (outcome.getD (xarrayInit stride)) := by
    cases outcome with
    | none => cases ok
    | some _ => rfl
  exact .step (.step .init validFirst allowedFirst (result okFirst)) validSecond allowedSecond
    (result okSecond)

theorem reaches_refines_aligned :
    ∃ xa f, Reaches (fun xa call => call.Intact xa) 8 xa f ∧
      (∀ index < 2 ^ 64, xarrayGet xa index = .ok (f index)) ∧ f 63 = 0x21f8 ∧ f 64 = 0x1200 := by
  have intactInit : (Call.setRange 0 128 0x1000).Intact (xarrayInit 8) := by
    rintro l t ⟨i, compressed⟩
    exact absurd compressed (@not_compressedSlot_empty _ _ _ _ i)
  have depth : (afterFirst 8 (.setRange 0 128 0x1000)).depth = 2 := by decide +kernel
  have intact : (Call.setRange 0 64 0x2000).Intact (afterFirst 8 (.setRange 0 128 0x1000)) := by
    intro l t compressed
    obtain rfl := compressed_two_levels depth compressed
    have width : span 1 = 64 := rfl
    rw [width]
    by_cases zero : t = 0
    · left
      omega
    · right
      omega
  have reached := @reaches_two (fun xa call => call.Intact xa) 8 (.setRange 0 128 0x1000)
    (.setRange 0 64 0x2000) (by decide) (by decide) intactInit intact (by decide +kernel)
    (by decide +kernel)
  exact ⟨_, _, reached, reaches_refines rfl reached, rfl, rfl⟩

/-- The first call stores two compressed slots, the second one cuts the first of them. -/
theorem reaches_not_always_refines :
    ¬ ∀ (stride : Nat) (xa : Xarray) (f : Nat → Nat), stride % 2 = 0 →
      Reaches (fun _ _ => True) stride xa f →
        ∀ index < 2 ^ 64, xarrayGet xa index = .ok (f index) := by
  intro claim
  have reached := @reaches_two (fun _ _ => True) 8 (.setRange 0 128 0x1000)
    (.setRange 10 5 0x2000) (by decide) (by decide) trivial trivial (by decide +kernel)
    (by decide +kernel)
  have value := claim 8 _ _ rfl reached 0 (by decide)
  have fails : xarrayGet (afterSecond 8 (.setRange 0 128 0x1000) (.setRange 10 5 0x2000)) 0 =
      .error .panic := by decide +kernel
  rw [fails] at value
  cases value

end Run

end Opal.XArray
