import Opal.VmTree.Rewrite

/-!
# A vmtree is an interval map

The abstract state is a function from addresses to entries.  A successful call
updates it on its range, every other call leaves it alone, and the tree agrees
with it below `UINTPTR_MAX` after every sequence of calls and under every pattern
of allocation failures.
-/

namespace Opal.VmTree

open Opal.Library

section Calls

inductive Call where
  | insert (start stop : Addr) (entry : Entry)
  | set (start stop : Addr) (entry : Entry)
  | remove (start stop : Addr)
  deriving DecidableEq, Repr

namespace Call

def start : Call → Addr
  | insert start _ _ | set start _ _ | remove start _ => start

def stop : Call → Addr
  | insert _ stop _ | set _ stop _ | remove _ stop => stop

/-- The entry the range has after the call. -/
def entry : Call → Entry
  | insert _ _ entry | set _ _ entry => entry
  | remove _ _ => 0

/-- A range of machine words, and no null entry to insert or set. -/
def Valid : Call → Prop
  | insert start stop entry | set start stop entry =>
      start ≤ stop ∧ stop ≤ uintptrMax ∧ entry ≠ 0
  | remove start stop => start ≤ stop ∧ stop ≤ uintptrMax

instance (call : Call) : Decidable call.Valid := by
  cases call <;> (unfold Valid; infer_instance)

theorem Valid.bounds {call : Call} (valid : call.Valid) :
    call.start ≤ call.stop ∧ call.stop ≤ uintptrMax := by
  cases call with
  | insert _ _ _ => exact ⟨valid.1, valid.2.1⟩
  | set _ _ _ => exact ⟨valid.1, valid.2.1⟩
  | remove _ _ => exact valid

end Call

def exec (root : Node) (mem : AllocOracle) : Call → Status × Node
  | .insert start stop entry => vmtreeInsert root start stop entry mem
  | .set start stop entry => vmtreeSet root start stop entry mem
  | .remove start stop => vmtreeRemove root start stop mem

/-- The abstract update: `entry` on `[start, stop)`, the old function elsewhere. -/
def update (f : Addr → Entry) (start stop : Addr) (entry : Entry) : Addr → Entry :=
  fun addr => if start ≤ addr ∧ addr < stop then entry else f addr

/-- One call on the tree and, when it succeeds, on the abstract function. -/
def step (state : Node × (Addr → Entry)) (request : Call × AllocOracle) :
    Node × (Addr → Entry) :=
  let result := exec state.1 request.2 request.1
  (result.2,
    if result.1 = .ok then
      update state.2 request.1.start request.1.stop request.1.entry
    else state.2)

def run (requests : List (Call × AllocOracle)) : Node × (Addr → Entry) :=
  requests.foldl step (vmtreeInit, fun _ => 0)

end Calls

section Step

theorem ensureBoundary_spec {root : Node} (wf : Wf root 0 uintptrMax) (x : Addr)
    (mem : AllocOracle) :
    Splits x (ensureBoundary root x mem).1.1 root (ensureBoundary root x mem).2 0 uintptrMax :=
  ensureBoundaryRec_spec x _ mem wf (le_refl _)

theorem Splits.vmtreeGet_val {x : Addr} {status : Status} {old new : Node}
    (splits : Splits x status old new 0 uintptrMax) (wf : Wf old 0 uintptrMax) {addr : Addr}
    (below : addr < uintptrMax) : (vmtreeGet new addr).val = (vmtreeGet old addr).val := by
  obtain ⟨mem, has⟩ := splits.wf.vmtreeGet_spec below
  obtain ⟨d, memD, inside, value⟩ := splits.refines _ mem
  rw [wf.vmtreeGet_eq_of_has memD (has.inside inside), value]

/-- Between two boundaries the rewritten segments are those of the range. -/
theorem rewritten_eq {start stop addr : Addr} {cs : List Segment} {seg : Segment}
    (left : IsBoundary start cs) (right : IsBoundary stop cs) (mem : seg ∈ cs)
    (has : seg.Has addr) (entry : Entry) :
    rewritten start stop entry seg =
      if start ≤ addr ∧ addr < stop then entry else seg.val := by
  have lowSide := left seg mem
  have highSide := right seg mem
  obtain ⟨low, high⟩ := has
  rw [rewritten]
  by_cases apart : Apart start stop seg.lo seg.hi
  · rw [if_pos apart, if_neg]
    rintro ⟨above, under⟩
    rcases apart with le | le
    · exact absurd (lt_of_lt_of_le under le) (not_lt.mpr low)
    · exact absurd (lt_of_lt_of_le high le) (not_lt.mpr above)
  · obtain ⟨meetsStop, meetsStart⟩ := not_or.mp apart
    rw [if_neg apart, if_pos]
    exact ⟨le_trans (lowSide.resolve_right meetsStart) low,
      lt_of_lt_of_le high (highSide.resolve_left meetsStop)⟩

/-- The two ways a write ends after its range was found valid: both boundaries
are in place and the range is written, or memory ran out and the tree was split
somewhere. -/
theorem splitAndWrite_cases {root : Node} (wf : Wf root 0 uintptrMax) (start stop : Addr)
    (entry : Entry) (mem : AllocOracle) :
    (∃ middle split later, middle = (ensureBoundary root start mem).2 ∧
        split = (ensureBoundary middle stop later).2 ∧
        Splits start .ok root middle 0 uintptrMax ∧
        Splits stop .ok middle split 0 uintptrMax ∧
        splitAndWrite root start stop entry mem =
          (.ok, normalizeRec (writeRangeRec start stop entry split 0 uintptrMax))) ∨
      ∃ split, Wf split 0 uintptrMax ∧
        (∀ addr < uintptrMax, (vmtreeGet split addr).val = (vmtreeGet root addr).val) ∧
        splitAndWrite root start stop entry mem = (.errNomem, split) := by
  have first := ensureBoundary_spec wf start mem
  have second := ensureBoundary_spec first.wf stop (ensureBoundary root start mem).1.2
  simp only [splitAndWrite]
  split
  · rename_i failed
    refine .inr ⟨_, first.wf, fun addr below => first.vmtreeGet_val wf below, ?_⟩
    rw [first.reported.resolve_left failed]
  rename_i okFirst
  rw [ne_eq, not_not] at okFirst
  split
  · rename_i failed
    refine .inr ⟨_, second.wf, fun addr below => ?_, ?_⟩
    · rw [second.vmtreeGet_val first.wf below, first.vmtreeGet_val wf below]
    · rw [second.reported.resolve_left failed]
  · rename_i okSecond
    rw [ne_eq, not_not] at okSecond
    exact .inl ⟨_, _, _, rfl, rfl, okFirst ▸ first, okSecond ▸ second, rfl⟩

theorem Splits.write_val {start stop : Addr} {root middle split : Node}
    (wf : Wf root 0 uintptrMax) (first : Splits start .ok root middle 0 uintptrMax)
    (second : Splits stop .ok middle split 0 uintptrMax) (entry : Entry) :
    Wf (normalizeRec (writeRangeRec start stop entry split 0 uintptrMax)) 0 uintptrMax ∧
      ∀ addr < uintptrMax,
        (vmtreeGet (normalizeRec (writeRangeRec start stop entry split 0 uintptrMax)) addr).val =
          if start ≤ addr ∧ addr < stop then entry else (vmtreeGet root addr).val := by
  obtain ⟨wfWritten, written⟩ := second.wf.writeRangeRec_spec (le_refl _) start stop entry
  obtain ⟨wfNormal, normal⟩ := wfWritten.normalizeRec_spec (le_refl _)
  refine ⟨wfNormal, fun addr below => ?_⟩
  have left := (first.boundary rfl).of_coveredBy second.refines
  obtain ⟨memSeg, has⟩ := second.wf.vmtreeGet_spec below
  obtain ⟨d, memD, inside, value⟩ := (written.trans normal) _ memSeg
  rw [wfNormal.vmtreeGet_eq_of_has memD (has.inside inside), value,
    rewritten_eq left (second.boundary rfl) memSeg has,
    second.vmtreeGet_val first.wf below, first.vmtreeGet_val wf below]

/-- The outcome of a call that changes the tree only when it reports success. -/
structure Outcome (root : Node) (call : Call) (result : Status × Node) : Prop where
  wf : Wf result.2 0 uintptrMax
  ok : result.1 = .ok → ∀ addr < uintptrMax, (vmtreeGet result.2 addr).val =
    update (fun addr => (vmtreeGet root addr).val) call.start call.stop call.entry addr
  unchanged : result.1 ≠ .ok → ∀ addr < uintptrMax,
    (vmtreeGet result.2 addr).val = (vmtreeGet root addr).val

theorem Outcome.refused {root : Node} (wf : Wf root 0 uintptrMax) (call : Call) {st : Status}
    (failed : st ≠ .ok) : Outcome root call (st, root) :=
  ⟨wf, fun ok => absurd ok failed, fun _ _ _ => rfl⟩

theorem Outcome.empty {root : Node} (wf : Wf root 0 uintptrMax) {call : Call}
    (empty : call.start = call.stop) : Outcome root call (.ok, root) := by
  refine ⟨wf, fun _ addr _ => ?_, fun failed => absurd rfl failed⟩
  rw [update, if_neg]
  rw [empty]
  exact fun inside => absurd inside.2 (not_lt.mpr inside.1)

theorem Outcome.write {root : Node} (wf : Wf root 0 uintptrMax) (call : Call)
    (mem : AllocOracle) :
    Outcome root call (splitAndWrite root call.start call.stop call.entry mem) ∧
      ((splitAndWrite root call.start call.stop call.entry mem).1 = .ok ∨
        (splitAndWrite root call.start call.stop call.entry mem).1 = .errNomem) := by
  rcases splitAndWrite_cases wf call.start call.stop call.entry mem with
    ⟨middle, split, later, -, -, first, second, eq⟩ | ⟨split, wfSplit, same, eq⟩
  · obtain ⟨wfNew, value⟩ := first.write_val wf second call.entry
    rw [eq]
    exact ⟨⟨wfNew, fun _ => value, fun failed => absurd rfl failed⟩, .inl rfl⟩
  · rw [eq]
    exact ⟨⟨wfSplit, by simp, fun _ => same⟩, .inr rfl⟩

/-- A call that first looks for an entry which forbids it. -/
theorem Outcome.checked {root : Node} (wf : Wf root 0 uintptrMax) (call : Call)
    (mem : AllocOracle) {error : Status} (isError : error ≠ .ok ∧ error ≠ .errNomem)
    (found : Bool) {result : Status × Node}
    (eq : result = if (if found then error else Status.ok) ≠ .ok then
        (if found then error else Status.ok, root)
      else splitAndWrite root call.start call.stop call.entry mem) :
    Outcome root call result ∧ (result.1 = error ↔ found = true) := by
  cases found with
  | true =>
    simp only [if_true, isError.1, ne_eq, not_false_eq_true] at eq
    rw [eq]
    exact ⟨.refused wf call isError.1, by simp⟩
  | false =>
    simp only [Bool.false_eq_true, if_false, ne_eq, not_true_eq_false] at eq
    rw [eq]
    obtain ⟨outcome, status⟩ := Outcome.write wf call mem
    refine ⟨outcome, iff_of_false (fun same => ?_) (by simp)⟩
    rw [same] at status
    exact status.elim isError.1 isError.2

theorem vmtreeInsert_outcome {root : Node} (wf : Wf root 0 uintptrMax) {start stop : Addr}
    {entry : Entry} (valid : (Call.insert start stop entry).Valid) (mem : AllocOracle) :
    Outcome root (.insert start stop entry) (vmtreeInsert root start stop entry mem) ∧
      (start < stop → ((vmtreeInsert root start stop entry mem).1 = .errExists ↔
        ∃ addr, start ≤ addr ∧ addr < stop ∧ (vmtreeGet root addr).val ≠ 0)) := by
  obtain ⟨le, top, nonzero⟩ := valid
  rcases eq_or_lt_of_le le with empty | nonempty
  · rw [vmtreeInsert, if_neg nonzero, if_neg (not_lt.mpr le), if_pos empty]
    exact ⟨.empty wf empty, fun nonempty => absurd empty (ne_of_lt nonempty)⟩
  · have search := wf.anyEntry_root_iff (· != 0) nonempty top
    simp only [bne_iff_ne] at search
    obtain ⟨outcome, status⟩ := Outcome.checked wf (.insert start stop entry) mem
      (by decide : Status.errExists ≠ .ok ∧ Status.errExists ≠ .errNomem)
      (anyNonholeRec start stop root 0 uintptrMax) rfl
    rw [vmtreeInsert, if_neg nonzero, if_neg (not_lt.mpr le), if_neg (ne_of_lt nonempty)]
    exact ⟨outcome, fun _ => status.trans search⟩

theorem vmtreeSet_outcome {root : Node} (wf : Wf root 0 uintptrMax) {start stop : Addr}
    {entry : Entry} (valid : (Call.set start stop entry).Valid) (mem : AllocOracle) :
    Outcome root (.set start stop entry) (vmtreeSet root start stop entry mem) ∧
      (start < stop → ((vmtreeSet root start stop entry mem).1 = .errNoent ↔
        ∃ addr, start ≤ addr ∧ addr < stop ∧ (vmtreeGet root addr).val = 0)) := by
  obtain ⟨le, top, nonzero⟩ := valid
  rcases eq_or_lt_of_le le with empty | nonempty
  · rw [vmtreeSet, if_neg nonzero, writeRange, if_neg (not_lt.mpr le), if_pos empty]
    exact ⟨.empty wf empty, fun nonempty => absurd empty (ne_of_lt nonempty)⟩
  · have search := wf.anyEntry_root_iff (· == 0) nonempty top
    simp only [beq_iff_eq] at search
    obtain ⟨outcome, status⟩ := Outcome.checked wf (.set start stop entry) mem
      (by decide : Status.errNoent ≠ .ok ∧ Status.errNoent ≠ .errNomem)
      (anyHoleRec start stop root 0 uintptrMax) rfl
    rw [vmtreeSet, if_neg nonzero, writeRange, if_neg (not_lt.mpr le),
      if_neg (ne_of_lt nonempty)]
    exact ⟨outcome, fun _ => status.trans search⟩

theorem vmtreeRemove_outcome {root : Node} (wf : Wf root 0 uintptrMax) {start stop : Addr}
    (valid : (Call.remove start stop).Valid) (mem : AllocOracle) :
    Outcome root (.remove start stop) (vmtreeRemove root start stop mem) := by
  rw [vmtreeRemove, writeRange, if_neg (not_lt.mpr valid.1)]
  split
  · rename_i empty
    exact .empty wf empty
  · exact (Outcome.write wf (.remove start stop) mem).1

theorem exec_outcome {root : Node} (wf : Wf root 0 uintptrMax) {call : Call}
    (valid : call.Valid) (mem : AllocOracle) : Outcome root call (exec root mem call) := by
  cases call with
  | insert start stop entry => exact (vmtreeInsert_outcome wf valid mem).1
  | set start stop entry => exact (vmtreeSet_outcome wf valid mem).1
  | remove start stop => exact vmtreeRemove_outcome wf valid mem

/-- While allocations succeed no call reports that memory ran out. -/
theorem exec_ne_nomem {root : Node} (wf : Wf root 0 uintptrMax) {mem : AllocOracle}
    (succeeds : mem.Succeeds) (call : Call) : (exec root mem call).1 ≠ .errNomem := by
  have write (start stop : Addr) (entry : Entry) :
      (splitAndWrite root start stop entry mem).1 = .ok := by
    obtain ⟨okFirst, later⟩ := ensureBoundaryRec_ok (height root + 3) (x := start) wf succeeds
      (le_refl _)
    obtain ⟨okSecond, -⟩ := ensureBoundaryRec_ok _ (x := stop)
      (ensureBoundary_spec wf start mem).wf later (le_refl _)
    simp only [splitAndWrite, ensureBoundary] at *
    simp [okFirst, okSecond]
  cases call with
  | insert start stop entry =>
    simp only [exec, vmtreeInsert, insertValidate]
    repeat' split
    all_goals simp_all
  | set start stop entry =>
    simp only [exec, vmtreeSet, writeRange, validateRange]
    repeat' split
    all_goals simp_all
  | remove start stop =>
    simp only [exec, vmtreeRemove, writeRange, validateRange]
    repeat' split
    all_goals simp_all

end Step

section Run

/-- The tree is well-formed and agrees with the abstract function. -/
structure Agrees (state : Node × (Addr → Entry)) : Prop where
  wf : Wf state.1 0 uintptrMax
  entry : ∀ addr < uintptrMax, (vmtreeGet state.1 addr).val = state.2 addr

theorem agrees_init : Agrees (vmtreeInit, fun _ => 0) := by
  have wf : Wf vmtreeInit 0 uintptrMax := wf_uniformLeaf 0 (by decide)
  refine ⟨wf, fun addr below => ?_⟩
  have mem : (⟨0, uintptrMax, 0⟩ : Segment) ∈ segments vmtreeInit 0 uintptrMax := by
    rw [show vmtreeInit = uniformLeaf 0 from rfl, segments_uniformLeaf]
    exact List.mem_singleton.mpr rfl
  rw [wf.vmtreeGet_eq_of_has mem ⟨Nat.zero_le _, below⟩]

theorem Agrees.step {state : Node × (Addr → Entry)} (agrees : Agrees state)
    {request : Call × AllocOracle} (valid : request.1.Valid) :
    Agrees (step state request) := by
  have outcome := exec_outcome agrees.wf valid request.2
  refine ⟨outcome.wf, fun addr below => ?_⟩
  simp only [VmTree.step]
  split
  · rename_i ok
    rw [outcome.ok ok addr below, update, update, agrees.entry addr below]
  · rename_i failed
    rw [outcome.unchanged failed addr below, agrees.entry addr below]

theorem run_agrees {requests : List (Call × AllocOracle)}
    (valid : ∀ request ∈ requests, request.1.Valid) : Agrees (run requests) := by
  rw [run]
  refine List.foldlRecOn requests step agrees_init fun state agrees request mem => ?_
  exact agrees.step (valid request mem)

/-- After any sequence of calls under any pattern of allocation failures the tree
is the abstract function: its lookups agree, the ranges it reports are uniform,
the next call reports conflicts exactly, and running out of memory changes no
entry and does not happen while allocations succeed. -/
theorem run_intervalMap (requests : List (Call × AllocOracle))
    (valid : ∀ request ∈ requests, request.1.Valid) :
    (∀ addr < uintptrMax, (vmtreeGet (run requests).1 addr).val = (run requests).2 addr) ∧
    (∀ addr < uintptrMax, (vmtreeGet (run requests).1 addr).Has addr ∧
      ∀ other, (vmtreeGet (run requests).1 addr).Has other →
        (vmtreeGet (run requests).1 other).val = (vmtreeGet (run requests).1 addr).val) ∧
    (∀ mem start stop entry, start < stop → (Call.insert start stop entry).Valid →
      ((vmtreeInsert (run requests).1 start stop entry mem).1 = .errExists ↔
        ∃ addr, start ≤ addr ∧ addr < stop ∧ (run requests).2 addr ≠ 0)) ∧
    (∀ mem start stop entry, start < stop → (Call.set start stop entry).Valid →
      ((vmtreeSet (run requests).1 start stop entry mem).1 = .errNoent ↔
        ∃ addr, start ≤ addr ∧ addr < stop ∧ (run requests).2 addr = 0)) ∧
    (∀ mem (call : Call), call.Valid → (exec (run requests).1 mem call).1 = .errNomem →
      ∀ addr < uintptrMax, (vmtreeGet (exec (run requests).1 mem call).2 addr).val =
        (vmtreeGet (run requests).1 addr).val) ∧
    ∀ (mem : AllocOracle) (call : Call), mem.Succeeds →
      (exec (run requests).1 mem call).1 ≠ .errNomem := by
  have agrees := run_agrees valid
  have entryOf {addr stop : Addr} (under : addr < stop) (top : stop ≤ uintptrMax) :=
    agrees.entry addr (lt_of_lt_of_le under top)
  refine ⟨agrees.entry, fun addr below => ?_, ?_, ?_, ?_, ?_⟩
  · obtain ⟨mem, has⟩ := agrees.wf.vmtreeGet_spec below
    exact ⟨has, fun other inside => by rw [agrees.wf.vmtreeGet_eq_of_has mem inside]⟩
  · intro mem start stop entry nonempty validCall
    rw [(vmtreeInsert_outcome agrees.wf validCall mem).2 nonempty]
    refine exists_congr fun addr => and_congr_right fun _ => and_congr_right fun under => ?_
    rw [entryOf under validCall.2.1]
  · intro mem start stop entry nonempty validCall
    rw [(vmtreeSet_outcome agrees.wf validCall mem).2 nonempty]
    refine exists_congr fun addr => and_congr_right fun _ => and_congr_right fun under => ?_
    rw [entryOf under validCall.2.1]
  · intro mem call validCall nomem
    exact (exec_outcome agrees.wf validCall mem).unchanged (by simp [nomem])
  · intro mem call succeeds
    exact exec_ne_nomem agrees.wf succeeds call

theorem run_intervalMap_two_calls :
    let requests := [(Call.insert 0x1000 0x3000 7, AllocOracle.always),
      (Call.remove 0x2000 0x3000, Stream'.const false)]
    (∀ request ∈ requests, request.1.Valid) ∧
      ∀ addr < uintptrMax, (vmtreeGet (run requests).1 addr).val = (run requests).2 addr := by
  have valid : ∀ request ∈ [(Call.insert 0x1000 0x3000 7, AllocOracle.always),
      (Call.remove 0x2000 0x3000, Stream'.const false)], request.1.Valid := by
    simp [Call.Valid, uintptrMax]
  exact ⟨valid, (run_intervalMap _ valid).1⟩

end Run

end Opal.VmTree
