import Opal.XArray.Plan
import Opal.XArray.Refinement
import Mathlib.Data.List.Basic

/-!
# What a range write leaves behind when it fails

`set_range_node` takes the steps of its plan up to the first that fails, and leaves the
effect of the steps before it.
-/

namespace Opal.XArray

section Simulation

variable (stride : Nat) (range : Range)

/-- The answers for the indices of a slot are those after the steps. -/
def SlotReplayed (events : List Event) (level s : Nat) (old new : Slot) : Prop :=
  ∀ index < 2 ^ 64, index / span level = s →
    readSlot stride index level new =
      replayAll stride range events index (readSlot stride index level old)

/-- The answers for the indices of a node are those after the steps. -/
def NodeReplayed (events : List Event) (level q : Nat) (old new : Node) : Prop :=
  ∀ index < 2 ^ 64, index / span (level + 1) = q →
    getNode stride index (level + 1) new =
      replayAll stride range events index (getNode stride index (level + 1) old)

/-- A write ends as the attempt at its steps does. -/
def Follows (events : List Event) (mem : AllocOracle) (outcome : Written)
    (changed : List Event → Node → Prop) : Prop :=
  match attempt stride range events mem with
  | .finished later => ∃ node', outcome = .ok ((true, node'), later) ∧ changed events node'
  | .failed done later => ∃ node', outcome = .ok ((false, node'), later) ∧ changed done node'
  | .faulted => ∃ fault, outcome = .error fault

/-- The calls on the nodes of the level take the steps of their walks. -/
def Simulates (level : Nat) (below : Node → Nat → List Event)
    (write : Node → Nat → AllocOracle → Written) : Prop :=
  ∀ node q mem, Follows stride range (below node q) mem (write node (q * span (level + 1)) mem)
    fun done node' => NodeReplayed stride range done level q node node'

variable {stride range} {events more : List Event} {level s q : Nat} {mem : AllocOracle}

theorem SlotReplayed.refl (slot : Slot) : SlotReplayed stride range [] level s slot slot :=
  fun _ _ _ => rfl

theorem Follows.weaken {outcome : Written} {changed changed' : List Event → Node → Prop}
    (follows : Follows stride range events mem outcome changed)
    (weaker : ∀ done node', done <+: events → changed done node' → changed' done node') :
    Follows stride range events mem outcome changed' := by
  unfold Follows at follows ⊢
  cases ended : attempt stride range events mem with
  | finished later =>
      rw [ended] at follows
      obtain ⟨node', eq, change⟩ := follows
      exact ⟨node', eq, weaker events node' (List.prefix_refl _) change⟩
  | failed done later =>
      rw [ended] at follows
      obtain ⟨node', eq, change⟩ := follows
      exact ⟨node', eq, weaker done node' (prefix_of_failed ended) change⟩
  | faulted =>
      rw [ended] at follows
      exact follows

/-- The slot of a child holds what the child does. -/
theorem Follows.intoChild {node child : Node} {i : Fin slotSize} {write : Written}
    {changed : List Event → Node → Prop}
    (follows : Follows stride range events mem write
      fun done child' => NodeReplayed stride range done level s child child')
    (stored : ∀ done child', NodeReplayed stride range done level s child child' →
      changed done (Function.update node i (.node child'))) :
    Follows stride range events mem (XArray.intoChild node i write) changed := by
  unfold Follows at follows ⊢
  cases ended : attempt stride range events mem with
  | finished later =>
      rw [ended] at follows
      obtain ⟨child', rfl, change⟩ := follows
      exact ⟨_, rfl, stored _ _ change⟩
  | failed done later =>
      rw [ended] at follows
      obtain ⟨child', rfl, change⟩ := follows
      exact ⟨_, rfl, stored _ _ change⟩
  | faulted =>
      rw [ended] at follows
      obtain ⟨fault, rfl⟩ := follows
      exact ⟨fault, rfl⟩

/-- A step that succeeds comes before the others. -/
theorem Follows.cons {event : Event} {later : AllocOracle} {outcome : Written}
    {changed : List Event → Node → Prop}
    (first : event.attempt stride range mem = .finished later)
    (follows : Follows stride range events later outcome fun done => changed (event :: done)) :
    Follows stride range (event :: events) mem outcome changed := by
  unfold Follows at follows ⊢
  rw [attempt, first]
  dsimp only
  cases ended : attempt stride range events later with
  | finished final =>
      rw [ended] at follows
      exact follows
  | failed done final =>
      rw [ended] at follows
      exact follows
  | faulted =>
      rw [ended] at follows
      exact follows

/-- A step that fails leaves everything as it is. -/
theorem Follows.stop {event : Event} {later : AllocOracle} {node : Node}
    {changed : List Event → Node → Prop}
    (first : event.attempt stride range mem = .failed [] later) (same : changed [] node) :
    Follows stride range (event :: events) mem (.ok ((false, node), later)) changed := by
  unfold Follows
  rw [attempt, first]
  exact ⟨node, rfl, same⟩

variable {below : Node → Nat → List Event} {write : Node → Nat → AllocOracle → Written}

theorem writeSlot_follows (start : range.startIndex = range.first)
    (simulates : ∀ k, level = k + 1 → Simulates stride range k below write) {node : Node}
    {i : Fin slotSize} (first : range.first ≤ slotLast level s) :
    Follows stride range (visit stride range level below s (node i)) mem
      (writeSlot stride range (level * slotBits) (s * span level) (slotLast level s) write node i
        mem)
      fun done node' => ∃ slot, node' = Function.update node i slot ∧
        SlotReplayed stride range done level s (node i) slot := by
  have bits : level * slotBits = 0 ↔ level = 0 := by simp [slotBits]
  unfold visit writeSlot
  by_cases whole : (range.first ≤ s * span level ∧ slotLast level s ≤ range.last) ∨ level = 0
  · rw [if_pos whole, if_pos (whole.imp_right bits.mpr)]
    have covered : range.first ≤ s * span level := by
      rcases whole with both | rfl
      · exact both.1
      · refine first.trans ((min_le_left _ _).trans ?_)
        simp
    rw [valueForIndex, if_neg (by rw [start]; exact not_lt.mpr covered)]
    have same : addmulU64Checked range.startValue (s * span level - range.startIndex) stride =
      slotValue stride range level s := rfl
    rw [same]
    cases value : slotValue stride range level s with
    | none =>
        refine Follows.stop (by rw [Event.attempt, value]) ⟨node i, ?_, .refl _⟩
        rw [Function.update_eq_self]
    | some value' =>
        refine Follows.cons (by rw [Event.attempt, value]) ?_
        refine ⟨_, rfl, _, rfl, fun index _ inside => ?_⟩
        rw [replayAll_cons, replayAll_nil, Event.replay, if_pos inside, value, Option.getD_some]
  · rw [if_neg whole, if_neg fun whole' => whole (whole'.imp_right bits.mp)]
    obtain ⟨k, rfl⟩ : ∃ k, level = k + 1 :=
      Nat.exists_eq_add_one_of_ne_zero fun zero => whole (Or.inr zero)
    cases content : node i with
    | node child =>
        apply Follows.intoChild (simulates k rfl child s mem)
        intro done child' changed
        exact ⟨_, rfl, changed⟩
    | word word =>
        rw [childOf]
        dsimp only
        by_cases value : isValue word = true
        · rw [if_pos value, if_pos value]
          by_cases allocated : mem.head = true
          · rw [if_pos allocated]
            apply Follows.cons (by rw [Event.attempt, if_pos allocated])
            apply Follows.intoChild (simulates k rfl _ s mem.tail)
            intro done child' changed
            refine ⟨_, rfl, fun index fits inside => ?_⟩
            rw [replayAll_cons, Event.replay, if_pos inside]
            exact changed index fits inside
          · rw [if_neg allocated]
            refine Follows.stop (by rw [Event.attempt, if_neg allocated]) ⟨node i, ?_, ?_⟩
            · rw [Function.update_eq_self]
            · rw [content]
              exact .refl _
        · rw [if_neg value, if_neg value]
          by_cases empty : payload word = 0
          · rw [if_pos empty, if_pos empty]
            by_cases allocated : mem.head = true
            · rw [if_pos allocated]
              apply Follows.cons (by rw [Event.attempt, if_pos allocated])
              apply Follows.intoChild (simulates k rfl emptyNode s mem.tail)
              intro done child' changed
              refine ⟨_, rfl, fun index fits inside => ?_⟩
              rw [replayAll_cons, Event.replay, readSlot, readSlot, if_neg value, if_pos empty]
              rw [← getNode_empty stride index k]
              exact changed index fits inside
            · rw [if_neg allocated]
              refine Follows.stop (by rw [Event.attempt, if_neg allocated]) ⟨node i, ?_, ?_⟩
              · rw [Function.update_eq_self]
              · rw [content]
                exact .refl _
          · rw [if_neg empty, if_neg empty]
            exact ⟨.wildPointer, rfl⟩

/-- A write and, when it succeeds, another one. -/
def andThen (outcome : Written) (next : Node → AllocOracle → Written) : Written :=
  match outcome with
  | .ok ((true, node), mem) => next node mem
  | failed => failed

/-- The steps of one part and then those of another. -/
theorem Follows.andThen {outcome : Written} {changed changed' : List Event → Node → Prop}
    {next : Node → AllocOracle → Written}
    (first : Follows stride range events mem outcome changed)
    (second : ∀ node' later, changed events node' →
      Follows stride range more later (next node' later) fun done => changed' (events ++ done))
    (stopped : ∀ done node', done <+: events → changed done node' → changed' done node') :
    Follows stride range (events ++ more) mem (XArray.andThen outcome next) changed' := by
  unfold Follows at first
  have ended' := @attempt_append stride range events more mem
  cases ended : attempt stride range events mem with
  | finished later =>
      rw [ended] at first ended'
      obtain ⟨node', rfl, change⟩ := first
      have rest := second node' later change
      unfold Follows at rest ⊢
      dsimp only at ended' ⊢
      rw [ended']
      cases last : attempt stride range more later with
      | finished final =>
          rw [last] at rest
          exact rest
      | failed done final =>
          rw [last] at rest
          exact rest
      | faulted =>
          rw [last] at rest
          exact rest
  | failed done later =>
      rw [ended] at first ended'
      obtain ⟨node', rfl, change⟩ := first
      unfold Follows
      rw [ended']
      exact ⟨node', rfl, stopped done node' (prefix_of_failed ended) change⟩
  | faulted =>
      rw [ended] at first ended'
      obtain ⟨fault, rfl⟩ := first
      unfold Follows
      rw [ended']
      exact ⟨fault, rfl⟩

theorem walkSlots_update {slots : List (Fin slotSize)} {node : Node} {i : Fin slotSize}
    (other : i ∉ slots) (slot : Slot) :
    walkSlots stride range level below slots (Function.update node i slot) q =
      walkSlots stride range level below slots node q := by
  unfold walkSlots
  apply List.flatMap_congr
  intro j member
  have apart : j ≠ i := fun same => other (same ▸ member)
  rw [Function.update_of_ne apart]

/-- The steps at other slots leave the answers for a slot. -/
theorem replayAll_of_other (within : ∀ k, level = k + 1 → LocalBelow stride range k below)
    {slots : List (Fin slotSize)} {node : Node} {i : Fin slotSize} (other : i ∉ slots)
    {done : List Event} (part : done <+: walkSlots stride range level below slots node q)
    {index : Nat} (inside : index / span level = slotSize * q + i.val) (old : Except Fault Nat) :
    replayAll stride range done index old = old := by
  apply replayAll_of_forall
  intro event member
  obtain ⟨j, inSlots, here⟩ := walkSlots_local within (part.subset member)
  apply here index
  intro same
  have equal : i = j := Fin.val_inj.mp (Nat.add_left_cancel (inside.symm.trans same))
  exact other (equal ▸ inSlots)

/-- The loop over slots that do not meet the range does nothing. -/
theorem walkSlots_of_not_meets {slots : List (Fin slotSize)} {node : Node}
    (apart : ∀ i ∈ slots, ¬range.Meets level (slotSize * q + i.val)) :
    walkSlots stride range level below slots node q = [] :=
  List.flatMap_eq_nil_iff.mpr fun i member => if_neg (apart i member)

theorem slotLoop_follows (start : range.startIndex = range.first) (last : range.last < 2 ^ 64)
    (shallow : level ≤ 10) (simulates : ∀ k, level = k + 1 → Simulates stride range k below write)
    (within : ∀ k, level = k + 1 → LocalBelow stride range k below)
    {slots : List (Fin slotSize)} (sorted : slots.Pairwise (· < ·)) (node : Node) :
    Follows stride range (walkSlots stride range level below slots node q) mem
      (slotLoop stride range (level * slotBits) (q * span (level + 1)) write slots node mem)
      fun done node' => (∀ i ∉ slots, node' i = node i) ∧ ∀ i ∈ slots,
        SlotReplayed stride range done level (slotSize * q + i.val) (node i) (node' i) := by
  induction slots generalizing node mem with
  | nil => exact ⟨node, rfl, fun _ _ => rfl, fun _ member => by cases member⟩
  | cons i rest inductionHypothesis =>
      obtain ⟨later, sortedRest⟩ := List.pairwise_cons.mp sorted
      have notMem : i ∉ rest := fun inRest => Nat.lt_irrefl i.val (later i inRest)
      have apart : ∀ j ∈ rest, j ≠ i := fun j inRest eq => notMem (eq ▸ inRest)
      have first : q * span (level + 1) + i * 2 ^ (level * slotBits) =
          (slotSize * q + i.val) * span level := by
        rw [span_succ, add_mul, mul_comm (span level), ← mul_assoc, mul_comm q]
        rfl
      -- The steps at this slot leave the answers for the others.
      have keeps : ∀ j ∈ rest, ∀ {done : List Event},
          done <+: visit stride range level below (slotSize * q + i.val) (node i) →
          ∀ {index}, index / span level = slotSize * q + j.val →
          ∀ old, replayAll stride range done index old = old := by
        intro j inRest done part index inside old
        apply replayAll_of_local fun event member => visit_local within event (part.subset member)
        intro same
        exact apart j inRest (Fin.val_inj.mp (Nat.add_left_cancel (inside.symm.trans same)))
      have split : walkSlots stride range level below (i :: rest) node q =
          (if range.Meets level (slotSize * q + i.val) then
            visit stride range level below (slotSize * q + i.val) (node i) else []) ++
            walkSlots stride range level below rest node q := rfl
      rw [slotLoop, addmulU64Checked_eq, first]
      by_cases past : range.last < (slotSize * q + i.val) * span level
      · -- Neither this slot nor any after it has an index of the range.
        have empty : walkSlots stride range level below (i :: rest) node q = [] := by
          apply walkSlots_of_not_meets
          intro j inSlots meets
          have order :
            (slotSize * q + i.val) * span level ≤ (slotSize * q + j.val) * span level := by
            apply Nat.mul_le_mul_right
            rcases List.mem_cons.mp inSlots with rfl | inRest
            · exact le_rfl
            · exact Nat.add_le_add_left (later j inRest).le _
          exact Nat.not_lt.mpr (order.trans meets.2) past
        rw [empty]
        have done : Follows stride range [] mem (.ok ((true, node), mem)) fun done node' =>
            (∀ j ∉ i :: rest, node' j = node j) ∧ ∀ j ∈ i :: rest,
              SlotReplayed stride range done level (slotSize * q + j.val) (node j) (node' j) :=
          ⟨node, rfl, fun _ _ => rfl, fun _ _ => .refl _⟩
        by_cases small : (slotSize * q + i.val) * span level < 2 ^ 64
        · simpa only [if_pos small, if_pos past] using done
        · simpa only [if_neg small] using done
      · have small : (slotSize * q + i.val) * span level < 2 ^ 64 :=
          Nat.lt_of_le_of_lt (not_lt.mp past) last
        simp only [if_pos small, if_neg past]
        rw [slotLast_eq shallow small, split]
        by_cases before : slotLast level (slotSize * q + i.val) < range.first
        · rw [if_pos before, if_neg fun meets => Nat.not_lt.mpr meets.1 before, List.nil_append]
          refine (inductionHypothesis sortedRest node).weaken ?_
          rintro done node' part ⟨same, changed⟩
          refine ⟨fun j out => same j fun inRest => out (List.mem_cons_of_mem _ inRest), ?_⟩
          intro j inSlots
          rcases List.mem_cons.mp inSlots with rfl | inRest
          · rw [same j notMem]
            intro index _ inside
            rw [replayAll_of_other within notMem part inside]
          · exact changed j inRest
        · rw [if_neg before, if_pos ⟨not_lt.mp before, not_lt.mp past⟩]
          show Follows stride range _ mem (andThen _ (slotLoop stride range (level * slotBits)
            (q * span (level + 1)) write rest)) _
          refine Follows.andThen (writeSlot_follows start simulates (not_lt.mp before)) ?_ ?_
          · rintro _ mid ⟨slot, rfl, changedSlot⟩
            rw [← walkSlots_update notMem slot]
            refine (inductionHypothesis sortedRest _).weaken ?_
            rintro done node' part ⟨same, changed⟩
            refine ⟨fun j out => ?_, fun j inSlots => ?_⟩
            · rw [same j fun inRest => out (List.mem_cons_of_mem _ inRest)]
              exact Function.update_of_ne (fun eq => out (by simp [eq])) _ _
            rcases List.mem_cons.mp inSlots with rfl | inRest
            · intro index fits inside
              rw [same j notMem, Function.update_self, replayAll_append,
                replayAll_of_other within notMem part inside]
              exact changedSlot index fits inside
            · intro index fits inside
              rw [replayAll_append, keeps j inRest (List.prefix_refl _) inside]
              have changedRest := changed j inRest index fits inside
              rwa [Function.update_of_ne (apart j inRest)] at changedRest
          · rintro done _ part ⟨slot, rfl, changedSlot⟩
            refine ⟨fun j out => ?_, fun j inSlots => ?_⟩
            · exact Function.update_of_ne (fun eq => out (by simp [eq])) _ _
            rcases List.mem_cons.mp inSlots with rfl | inRest
            · rw [Function.update_self]
              exact changedSlot
            · intro index fits inside
              rw [Function.update_of_ne (apart j inRest), keeps j inRest part inside]

/-- What the steps do to the answers for each slot they do to those for the node. -/
theorem NodeReplayed.of_slots {done : List Event} {old new : Node}
    (slots : ∀ i : Fin slotSize,
      SlotReplayed stride range done level (slotSize * q + i.val) (old i) (new i)) :
    NodeReplayed stride range done level q old new := by
  intro index fits inside
  rw [getNode_succ, getNode_succ]
  exact slots _ index fits ((slotIndex_eq_iff fits inside _).mp rfl)

/-- `set_range_node` takes the steps of its walk. -/
theorem setRangeNode_simulates (start : range.startIndex = range.first)
    (last : range.last < 2 ^ 64) (shallow : level ≤ 10) :
    Simulates stride range level (walk stride range level) (setRangeNode stride range level) := by
  induction level with
  | zero =>
      intro node q mem
      refine Follows.weaken (slotLoop_follows start last shallow (fun k zero => by cases zero)
        (fun k zero => by cases zero) (List.pairwise_lt_finRange slotSize) node) ?_
      rintro done node' - ⟨-, changed⟩
      exact .of_slots fun i => changed i (List.mem_finRange i)
  | succ level inductionHypothesis =>
      intro node q mem
      refine Follows.weaken (slotLoop_follows start last shallow ?_ ?_
        (List.pairwise_lt_finRange slotSize) node) ?_
      · rintro k ⟨⟩
        exact inductionHypothesis (Nat.le_of_succ_le shallow)
      · rintro k ⟨⟩
        exact walk_local level
      · rintro done node' - ⟨-, changed⟩
        exact .of_slots fun i => changed i (List.mem_finRange i)

end Simulation

section Depth

variable {stride : Nat} {range : Range} {index : Nat}

theorem slotSize_pos : 0 < slotSize := by decide

/-- The array with a new root above the old one. -/
def raise (xa : Xarray) : Xarray :=
  { xa with
    root := Function.update emptyNode ⟨0, slotSize_pos⟩ (.node xa.root)
    depth := xa.depth + 1 }

/-- The rounds of `ensure_depth` that allocate a node. -/
def levelsMissing (index : Nat) : Nat → Nat → Nat
  | 0, _ => 0
  | rounds + 1, depth =>
      if shr64 index (depth * slotBits) = 0 then 0
      else levelsMissing index rounds (depth + 1) + 1

/-- `ensure_depth` takes a step for every level that is missing. -/
theorem ensureDepthLoop_follows {rounds : Nat} {xa : Xarray} {mem : AllocOracle} :
    match attempt stride range
      (List.replicate (levelsMissing index rounds xa.depth) .alloc) mem with
    | .finished later => ensureDepthLoop index rounds xa mem =
        ((true, raise^[levelsMissing index rounds xa.depth] xa), later)
    | .failed done later => ensureDepthLoop index rounds xa mem =
        ((false, raise^[done.length] xa), later)
    | .faulted => False := by
  induction rounds generalizing xa mem with
  | zero => rfl
  | succ rounds inductionHypothesis =>
      rw [ensureDepthLoop, levelsMissing]
      by_cases enough : shr64 index (xa.depth * slotBits) = 0
      · rw [if_pos enough, if_pos enough]
        rfl
      · rw [if_neg enough, if_neg enough, List.replicate_succ, attempt, Event.attempt]
        by_cases allocated : mem.head = true
        · rw [if_pos allocated, if_pos allocated]
          have rest := @inductionHypothesis (raise xa) mem.tail
          dsimp only
          have depth : (raise xa).depth = xa.depth + 1 := rfl
          rw [depth] at rest
          cases ended : attempt stride range
            (List.replicate (levelsMissing index rounds (xa.depth + 1)) .alloc) mem.tail with
          | finished later =>
              rw [ended] at rest
              exact rest
          | failed done later =>
              rw [ended] at rest
              exact rest
          | faulted =>
              rw [ended] at rest
              exact rest
        · rw [if_neg allocated, if_neg allocated]
          rfl

theorem iterate_raise {xa : Xarray} (rounds : Nat) :
    (raise^[rounds] xa).depth = xa.depth + rounds ∧ (raise^[rounds] xa).stride = xa.stride := by
  induction rounds with
  | zero => exact ⟨rfl, rfl⟩
  | succ rounds inductionHypothesis =>
      rw [Function.iterate_succ_apply']
      obtain ⟨depth, stride⟩ := inductionHypothesis
      exact ⟨congrArg (· + 1) depth, stride⟩

theorem xarrayGet_iterate_raise {xa : Xarray} (positive : 1 ≤ xa.depth) (fits : index < 2 ^ 64)
    (rounds : Nat) : xarrayGet (raise^[rounds] xa) index = xarrayGet xa index := by
  induction rounds with
  | zero => rfl
  | succ rounds inductionHypothesis =>
      rw [Function.iterate_succ_apply', ← inductionHypothesis]
      refine xarrayGet_raised ?_ fits
      rw [(iterate_raise rounds).1]
      exact positive.trans (Nat.le_add_right _ _)

/-- Eleven levels hold every index. -/
theorem depth_levelsMissing {rounds depth : Nat} (shallow : depth ≤ 11) :
    depth + levelsMissing index rounds depth ≤ 11 := by
  induction rounds generalizing depth with
  | zero => exact shallow
  | succ rounds inductionHypothesis =>
      rw [levelsMissing]
      split
      · exact shallow
      · rename_i missing
        have below : depth + 1 ≤ 11 := by
          by_contra deep
          apply missing
          rw [shr64, if_pos]
          simp only [slotBits]
          omega
        have rest := inductionHypothesis below
        omega

/-- The array has at least one level, and no more than 64-bit indices need. -/
def Leveled (xa : Xarray) : Prop := 1 ≤ xa.depth ∧ xa.depth ≤ 11

theorem leveled_init (stride : Nat) : Leveled (xarrayInit stride) :=
  ⟨Nat.le_refl 1, Nat.le_of_ble_eq_true rfl⟩

theorem ensureDepth_leveled {xa : Xarray} (leveled : Leveled xa) (mem : AllocOracle) :
    Leveled (ensureDepth xa index mem).1.2 := by
  have raised : ∃ rounds ≤ levelsMissing index 11 xa.depth,
      (ensureDepth xa index mem).1.2 = raise^[rounds] xa := by
    have growth := @ensureDepthLoop_follows 0 ⟨0, 0, 0, 0⟩ index 11 xa mem
    unfold ensureDepth
    cases ended : attempt 0 ⟨0, 0, 0, 0⟩
      (List.replicate (levelsMissing index 11 xa.depth) .alloc) mem with
    | finished later =>
        rw [ended] at growth
        exact ⟨_, le_rfl, by rw [growth]⟩
    | failed done later =>
        rw [ended] at growth
        refine ⟨done.length, ?_, by rw [growth]⟩
        exact (prefix_of_failed ended).length_le.trans_eq List.length_replicate
    | faulted =>
        rw [ended] at growth
        exact growth.elim
  obtain ⟨rounds, few, eq⟩ := raised
  have deep := @depth_levelsMissing index 11 xa.depth leveled.2
  rw [eq]
  unfold Leveled
  rw [(iterate_raise rounds).1]
  exact ⟨leveled.1.trans (Nat.le_add_right _ _), (Nat.add_le_add_left few _).trans deep⟩

/-- Every call keeps the levels, whether it succeeds or not. -/
theorem exec_leveled {xa xa' : Xarray} {call : Call} {mem later : AllocOracle} {ok : Bool}
    (leveled : Leveled xa) (ended : exec xa mem call = .ok ((ok, xa'), later)) : Leveled xa' := by
  have root : ∀ {new : Xarray} {written : Written}, Leveled new →
      written.map (fun result => ((result.1.1, { new with root := result.1.2 }), result.2)) =
        .ok ((ok, xa'), later) → Leveled xa' := by
    intro new written leveled eq
    cases written with
    | error fault => cases eq
    | ok result =>
        cases eq
        exact leveled
  cases call with
  | set index value =>
      have grown := @ensureDepth_leveled index xa leveled mem
      unfold exec xarraySet at ended
      dsimp only at ended
      split at ended
      · rename_i eq
        rw [eq] at grown
        cases ended
        exact grown
      · rename_i eq
        rw [eq] at grown
        exact root grown ended
  | setRange index len start =>
      unfold exec xarraySetRange at ended
      dsimp only at ended
      split at ended
      · cases ended
        exact leveled
      · split at ended
        · cases ended
          exact leveled
        · rename_i last _
          have grown := @ensureDepth_leveled last xa leveled mem
          split at ended
          · rename_i eq
            rw [eq] at grown
            cases ended
            exact grown
          · rename_i eq
            rw [eq] at grown
            exact root grown ended

end Depth

section Calls

variable {xa : Xarray} {index len start : Nat} {mem : AllocOracle}

/-- The arguments of `set_range_node`. -/
def rangeOf (index len start : Nat) : Range := ⟨index, index + (len - 1), index, start⟩

/-- The steps of `xarray_set_range`, for a range that does not end beyond the last index. -/
def plan (xa : Xarray) (index len start : Nat) : List Event :=
  let missing := levelsMissing (index + (len - 1)) 11 xa.depth
  let raised := raise^[missing] xa
  List.replicate missing .alloc ++
    walk xa.stride (rangeOf index len start) (raised.depth - 1) raised.root 0

/-- Allocating the nodes that are missing changes no answer. -/
theorem replayAll_of_allocs {stride : Nat} {range : Range} {done : List Event} {rounds : Nat}
    (part : done <+: List.replicate rounds .alloc) (old : Except Fault Nat) (other : Nat) :
    replayAll stride range done other old = old := by
  apply replayAll_of_forall
  intro event member old
  rw [List.eq_of_mem_replicate (part.subset member)]
  rfl

/-- The answers of an array with another root. -/
theorem xarrayGet_replayed {range : Range} {root : Node} {done : List Event}
    (positive : 1 ≤ xa.depth)
    (part : done <+: walk xa.stride range (xa.depth - 1) xa.root 0)
    (changed : NodeReplayed xa.stride range done (xa.depth - 1) 0 xa.root root) {i : Nat}
    (fits : i < 2 ^ 64) :
    xarrayGet { xa with root := root } i = replayAll xa.stride range done i (xarrayGet xa i) := by
  have levels : xa.depth - 1 + 1 = xa.depth := Nat.sub_add_cancel positive
  rw [xarrayGet_eq fits, xarrayGet_eq fits]
  by_cases inside : i / span xa.depth = 0
  · simp only [if_pos inside]
    have here := changed i fits (by rw [levels]; exact inside)
    rwa [levels] at here
  · simp only [if_neg inside]
    refine (replayAll_of_local (fun event member => walk_local _ _ _ event (part.subset member))
      ?_ _).symm
    rwa [levels]

/-- A range write ends as the attempt at its plan does.  When it fails, the answers are those
after the steps before the one that failed. -/
theorem xarraySetRange_follows (leveled : Leveled xa)
    (nonempty : len ≠ 0) (inside : index + (len - 1) < 2 ^ 64) :
    match attempt xa.stride (rangeOf index len start) (plan xa index len start) mem with
    | .finished later => ∃ xa', xarraySetRange xa index len start mem = .ok ((true, xa'), later)
    | .failed done later => ∃ xa',
        xarraySetRange xa index len start mem = .ok ((false, xa'), later) ∧
          ∀ i < 2 ^ 64, xarrayGet xa' i =
            replayAll xa.stride (rangeOf index len start) done i (xarrayGet xa i)
    | .faulted => ∃ fault, xarraySetRange xa index len start mem = .error fault := by
  obtain ⟨positive, shallow⟩ := leveled
  have growth := @ensureDepthLoop_follows xa.stride (rangeOf index len start)
    (index + (len - 1)) 11 xa mem
  unfold xarraySetRange ensureDepth
  rw [if_neg nonempty, addmulU64Checked_eq, mul_one, if_pos inside]
  dsimp only
  unfold plan
  dsimp only
  rw [attempt_append]
  generalize missing : levelsMissing (index + (len - 1)) 11 xa.depth = rounds at growth ⊢
  cases grown : attempt xa.stride (rangeOf index len start) (List.replicate rounds .alloc) mem with
  | faulted =>
      rw [grown] at growth
      exact growth.elim
  | failed done later =>
      rw [grown] at growth
      dsimp only at growth ⊢
      rw [growth]
      refine ⟨_, rfl, fun i fits => ?_⟩
      rw [xarrayGet_iterate_raise positive fits, replayAll_of_allocs (prefix_of_failed grown)]
  | finished later =>
      rw [grown] at growth
      dsimp only at growth ⊢
      rw [growth]
      obtain ⟨depth, stride⟩ := @iterate_raise xa rounds
      have levels : (raise^[rounds] xa).depth ≤ 11 := by
        rw [depth, ← missing]
        exact depth_levelsMissing shallow
      have some' : 1 ≤ (raise^[rounds] xa).depth := by
        rw [depth]
        exact positive.trans (Nat.le_add_right _ _)
      have answers : ∀ i < 2 ^ 64, xarrayGet (raise^[rounds] xa) i = xarrayGet xa i :=
        fun i fits => xarrayGet_iterate_raise positive fits rounds
      generalize raise^[rounds] xa = raised at stride levels some' answers ⊢
      have follows := @setRangeNode_simulates raised.stride (rangeOf index len start)
        (raised.depth - 1) rfl inside (Nat.sub_le_sub_right levels 1) raised.root 0 later
      rw [zero_mul] at follows
      unfold Follows at follows
      dsimp only
      rw [← stride]
      cases ended : attempt raised.stride (rangeOf index len start)
        (walk raised.stride (rangeOf index len start) (raised.depth - 1) raised.root 0) later with
      | finished final =>
          rw [ended] at follows
          obtain ⟨root, eq, -⟩ := follows
          refine ⟨{ raised with root := root }, ?_⟩
          exact congrArg (Except.map _) eq
      | failed done final =>
          rw [ended] at follows
          obtain ⟨root, eq, changed⟩ := follows
          refine ⟨{ raised with root := root }, congrArg (Except.map _) eq, fun i fits => ?_⟩
          rw [replayAll_append, replayAll_of_allocs (List.prefix_refl _), ← answers i fits]
          exact xarrayGet_replayed some' (prefix_of_failed ended) changed fits
      | faulted =>
          rw [ended] at follows
          obtain ⟨fault, eq⟩ := follows
          exact ⟨fault, congrArg (Except.map _) eq⟩

/-- A call that fails leaves every answer as it is, and a call with a value that does not fit
in 64 bits fails. -/
structure AllOrNothing (xa : Xarray) (len start : Nat) (outcome : Outcome) : Prop where
  unchanged : ∀ xa' later, outcome = .ok ((false, xa'), later) →
    ∀ i < 2 ^ 64, xarrayGet xa' i = xarrayGet xa i
  overflow : (∃ k < len, 2 ^ 64 ≤ start + k * xa.stride) →
    ∃ xa' later, outcome = .ok ((false, xa'), later)

/-- What the last of the steps at an index leaves there is what the index answers already. -/
def Idle (xa : Xarray) (range : Range) (done : List Event) : Prop :=
  ∀ i < 2 ^ 64, ∀ answer ∈ done.reverse.findSome? (Event.leaves xa.stride range i),
    answer = xarrayGet xa i

theorem idle_iff {range : Range} {done : List Event} : Idle xa range done ↔
    ∀ i < 2 ^ 64, replayAll xa.stride range done i (xarrayGet xa i) = xarrayGet xa i := by
  refine forall₂_congr fun i _ => ?_
  rw [replayAll_eq_leaves]
  cases done.reverse.findSome? (Event.leaves xa.stride range i) with
  | none => exact ⟨fun _ => rfl, fun _ _ absurd => nomatch absurd⟩
  | some answer => exact ⟨fun same => same answer rfl, fun same _ is => Option.some.inj is ▸ same⟩

def ValuesFit (stride len start : Nat) : Prop := ∀ k < len, start + k * stride < 2 ^ 64

/-- No step fails after one that changes an answer, and without a step that fails the values
fit, those between the first indices of the slots as well. -/
def FailsFirst (xa : Xarray) (index len start : Nat) (mem : AllocOracle) : Prop :=
  len = 0 ∨ 2 ^ 64 ≤ index + (len - 1) ∨
    match attempt xa.stride (rangeOf index len start) (plan xa index len start) mem with
    | .failed done _ => Idle xa (rangeOf index len start) done
    | .finished _ => ValuesFit xa.stride len start
    | .faulted => ValuesFit xa.stride len start

theorem allOrNothing_of_not_failed {outcome : Outcome}
    (returned : ∀ xa' later, outcome ≠ .ok ((false, xa'), later)) :
    AllOrNothing xa len start outcome ↔ ValuesFit xa.stride len start := by
  constructor
  · intro atomic k small
    by_contra large
    obtain ⟨xa', later, eq⟩ := atomic.overflow ⟨k, small, Nat.not_lt.mp large⟩
    exact returned xa' later eq
  · intro fit
    refine ⟨fun xa' later eq => absurd eq (returned xa' later), ?_⟩
    rintro ⟨k, small, large⟩
    exact absurd (fit k small) (Nat.not_lt.mpr large)

/-- A range write is all or nothing if and only if it fails first, if it does. -/
theorem xarraySetRange_allOrNothing_iff (leveled : Leveled xa) :
    AllOrNothing xa len start (xarraySetRange xa index len start mem) ↔
      FailsFirst xa index len start mem := by
  unfold FailsFirst
  by_cases empty : len = 0
  · refine iff_of_true ?_ (Or.inl empty)
    unfold xarraySetRange
    rw [if_pos empty]
    refine ⟨?_, ?_⟩
    · rintro _ _ ⟨⟩
    rintro ⟨k, small, -⟩
    rw [empty] at small
    cases small
  by_cases inside : index + (len - 1) < 2 ^ 64
  · have follows := @xarraySetRange_follows xa index len start mem leveled empty inside
    have beyond : ¬2 ^ 64 ≤ index + (len - 1) := Nat.not_le.mpr inside
    simp only [empty, beyond, false_or]
    cases ended : attempt xa.stride (rangeOf index len start) (plan xa index len start) mem with
    | finished later =>
        rw [ended] at follows
        obtain ⟨xa', eq⟩ := follows
        rw [eq]
        exact allOrNothing_of_not_failed fun _ _ other => by cases other
    | failed done later =>
        rw [ended] at follows
        obtain ⟨xa', eq, answers⟩ := follows
        rw [eq]
        constructor
        · refine fun atomic => idle_iff.mpr fun i fits => ?_
          rw [← answers i fits]
          exact atomic.unchanged xa' later rfl i fits
        · intro idle
          refine ⟨?_, fun _ => ⟨xa', later, rfl⟩⟩
          rintro _ _ ⟨⟩ i fits
          rw [answers i fits]
          exact idle_iff.mp idle i fits
    | faulted =>
        rw [ended] at follows
        obtain ⟨fault, eq⟩ := follows
        rw [eq]
        exact allOrNothing_of_not_failed fun _ _ other => by cases other
  · refine iff_of_true ?_ (Or.inr (Or.inl (Nat.not_lt.mp inside)))
    unfold xarraySetRange
    rw [if_neg empty, addmulU64Checked_eq, mul_one, if_neg inside]
    refine ⟨?_, fun _ => ⟨xa, mem, rfl⟩⟩
    rintro _ _ ⟨⟩ i fits
    rfl

/-- The array that a call leaves when it fails. -/
def failedWith : Outcome → Option Xarray
  | .ok ((false, xa), _) => some xa
  | _ => none

/-- Memory for the root only: the first index is written with the value that it has, and there
is no node for the second. -/
theorem xarraySetRange_allOrNothing_basic :
    (failedWith (xarraySetRange (afterFirst 8 (.set 63 0x1000)) 63 2 0x1000
      (Stream'.cons true (Stream'.const false)))).isSome ∧
    AllOrNothing (afterFirst 8 (.set 63 0x1000)) 2 0x1000
      (xarraySetRange (afterFirst 8 (.set 63 0x1000)) 63 2 0x1000
        (Stream'.cons true (Stream'.const false))) := by
  have depth : (afterFirst 8 (.set 63 0x1000)).depth = 1 := by decide +kernel
  have leveled : Leveled (afterFirst 8 (.set 63 0x1000)) := by
    unfold Leveled
    rw [depth]
    decide
  refine ⟨by decide +kernel, (xarraySetRange_allOrNothing_iff leveled).mpr (.inr (.inr ?_))⟩
  have steps : (match attempt (afterFirst 8 (.set 63 0x1000)).stride (rangeOf 63 2 0x1000)
      (plan (afterFirst 8 (.set 63 0x1000)) 63 2 0x1000)
      (Stream'.cons true (Stream'.const false)) with
    | .failed done _ => decide (done = [.alloc, .write 0 63])
    | _ => false) = true := by decide +kernel
  split at steps
  · rename_i done later ended
    obtain rfl := of_decide_eq_true steps
    rw [ended]
    intro i fits answer last
    have value : readSlot (afterFirst 8 (.set 63 0x1000)).stride 63 0 (.word
        (((slotValue (afterFirst 8 (.set 63 0x1000)).stride (rangeOf 63 2 0x1000) 0 63).getD 0) |||
          flagValue)) = xarrayGet (afterFirst 8 (.set 63 0x1000)) 63 := by decide +kernel
    by_cases here : i / span 0 = 63
    · obtain rfl : i = 63 := by simpa [span] using here
      rw [← value]
      exact (Option.some.inj last).symm
    · simp only [List.reverse_cons, List.reverse_nil, List.nil_append, List.cons_append,
        List.findSome?_cons, List.findSome?_nil, Event.leaves, if_neg here] at last
      cases last
  · cases steps

/-- A range over the end of a slot, with memory for one node: its first index is written.  A
range in one slot, whose third value wraps around: it is accepted. -/
theorem xarraySetRange_not_allOrNothing :
    ¬AllOrNothing (xarrayInit 8) 2 0x1000
        (xarraySetRange (xarrayInit 8) 63 2 0x1000 (Stream'.cons true (Stream'.const false))) ∧
      ¬AllOrNothing (afterFirst 8 (.set 64 0x1000)) 64 (2 ^ 64 - 16)
        (xarraySetRange (afterFirst 8 (.set 64 0x1000)) 0 64 (2 ^ 64 - 16) .always) := by
  constructor
  · intro atomic
    have left : (failedWith (xarraySetRange (xarrayInit 8) 63 2 0x1000
        (Stream'.cons true (Stream'.const false)))).map (xarrayGet · 63) =
          some (.ok 0x1000) := by decide +kernel
    have before : xarrayGet (xarrayInit 8) 63 = .ok 0 := by decide +kernel
    have unchanged := atomic.unchanged
    generalize xarraySetRange (xarrayInit 8) 63 2 0x1000 _ = outcome at left unchanged
    match outcome, left, unchanged with
    | .ok ((false, xa'), later), left, unchanged =>
        have same := (Option.some.inj left).symm.trans (unchanged xa' later rfl 63 (by decide))
        rw [before] at same
        cases same
  · intro atomic
    have left : (failedWith (xarraySetRange (afterFirst 8 (.set 64 0x1000)) 0 64 (2 ^ 64 - 16)
        .always)).isNone = true := by decide +kernel
    have stride : (afterFirst 8 (.set 64 0x1000)).stride = 8 := by decide +kernel
    have overflow :
      ∃ k < 64, 2 ^ 64 ≤ 2 ^ 64 - 16 + k * (afterFirst 8 (.set 64 0x1000)).stride := by
      rw [stride]
      exact ⟨2, by decide, by decide⟩
    obtain ⟨xa', later, eq⟩ := atomic.overflow overflow
    rw [eq] at left
    cases left

end Calls

end Opal.XArray
