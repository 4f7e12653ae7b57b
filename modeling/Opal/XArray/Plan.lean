import Opal.XArray.Write

/-!
# The steps of a range write

Every slot is met at most once on the way through the tree, so that the steps of
`set_range_node` are known from the tree before the call: the nodes that it allocates, the
slots that it expands and the slots that it writes, in the order of the indices.  A step that
fails ends the call; what the call leaves behind is the effect of the steps before it.
-/

namespace Opal.XArray

inductive Event where
  | alloc
  | expand (level s slot : Nat)
  | write (level s : Nat)
  | wild
  deriving DecidableEq, Repr

/-- What comes of a list of steps. -/
inductive Attempt where
  | finished (mem : AllocOracle)
  | failed (done : List Event) (mem : AllocOracle)
  | faulted

/-- The same after other steps that have succeeded. -/
def Attempt.after (before : List Event) : Attempt → Attempt
  | finished mem => finished mem
  | failed done mem => failed (before ++ done) mem
  | faulted => faulted

section Steps

variable (stride : Nat) (range : Range)

/-- The value at the first index of a slot. -/
def slotValue (level s : Nat) : Option Nat :=
  addmulU64Checked range.startValue (s * span level - range.startIndex) stride

/-- The node that takes the place of a value at the level. -/
def expanded (level slot : Nat) : Node := expandSlot slot (2 ^ (level * slotBits) * stride % 2 ^ 64)

/-- One step. -/
def Event.attempt (mem : AllocOracle) : Event → Attempt
  | alloc => if mem.head then .finished mem.tail else .failed [] mem.tail
  | expand _ _ _ => if mem.head then .finished mem.tail else .failed [] mem.tail
  | write level s =>
      match slotValue stride range level s with
      | none => .failed [] mem
      | some _ => .finished mem
  | wild => .faulted

/-- The steps are taken in order up to the first that fails. -/
def attempt : List Event → AllocOracle → Attempt
  | [], mem => .finished mem
  | event :: events, mem =>
      match event.attempt stride range mem with
      | .finished mem => (attempt events mem).after [event]
      | ended => ended

/-- What `xarray_get` returns after a step, from what it returned before. -/
def Event.replay (index : Nat) (old : Except Fault Nat) : Event → Except Fault Nat
  | alloc => old
  | expand level s slot =>
      if index / span level = s then
        readSlot stride index level (.node (expanded stride level slot))
      else old
  | write level s =>
      if index / span level = s then
        readSlot stride index level
          (.word ((slotValue stride range level s).getD 0 ||| flagValue))
      else old
  | wild => old

def replayAll (events : List Event) (index : Nat) (old : Except Fault Nat) : Except Fault Nat :=
  events.foldl (fun old event => event.replay stride range index old) old

/-- What an index answers after a step, if the step is at a slot that the index belongs to. -/
def Event.leaves (index : Nat) : Event → Option (Except Fault Nat)
  | expand level s slot =>
      if index / span level = s then
        some (readSlot stride index level (.node (expanded stride level slot)))
      else none
  | write level s =>
      if index / span level = s then
        some (readSlot stride index level
          (.word ((slotValue stride range level s).getD 0 ||| flagValue)))
      else none
  | _ => none

end Steps

section Walk

variable (stride : Nat) (range : Range)

/-- The slot has an index of the range. -/
def Range.Meets (range : Range) (level s : Nat) : Prop :=
  range.first ≤ slotLast level s ∧ s * span level ≤ range.last

instance (level s : Nat) : Decidable (range.Meets level s) := by
  unfold Range.Meets
  infer_instance

/-- The steps at a slot that meets the range. -/
def visit (level : Nat) (below : Node → Nat → List Event) (s : Nat) (slot : Slot) : List Event :=
  if (range.first ≤ s * span level ∧ slotLast level s ≤ range.last) ∨ level = 0 then
    [.write level s]
  else
    match slot with
    | .node child => below child s
    | .word word =>
        if isValue word then .expand level s word :: below (expanded stride level word) s
        else if payload word = 0 then .alloc :: below emptyNode s
        else [.wild]

/-- The steps at some of the slots of the node with quotient `q`. -/
def walkSlots (level : Nat) (below : Node → Nat → List Event) (slots : List (Fin slotSize))
    (node : Node) (q : Nat) : List Event :=
  slots.flatMap fun i =>
    if range.Meets level (slotSize * q + i.val) then
      visit stride range level below (slotSize * q + i.val) (node i)
    else []

/-- The steps of `set_range_node`. -/
def walk : Nat → Node → Nat → List Event
  | 0, node, q => walkSlots stride range 0 (fun _ _ => []) (List.finRange slotSize) node q
  | level + 1, node, q =>
      walkSlots stride range (level + 1) (walk level) (List.finRange slotSize) node q

end Walk

section Attempts

variable {stride : Nat} {range : Range} {event : Event} {events more done : List Event}
  {mem later : AllocOracle}

@[simp]
theorem after_nil (ended : Attempt) : ended.after [] = ended := by
  cases ended <;> rfl

theorem after_append (ended : Attempt) :
    ended.after (events ++ more) = (ended.after more).after events := by
  cases ended with
  | failed done mem => exact congrArg (Attempt.failed · mem) (List.append_assoc _ _ _)
  | finished mem => rfl
  | faulted => rfl

theorem attempt_append : attempt stride range (events ++ more) mem =
    match attempt stride range events mem with
    | .finished later => (attempt stride range more later).after events
    | ended => ended := by
  induction events generalizing mem with
  | nil => exact (after_nil _).symm
  | cons event events inductionHypothesis =>
      rw [List.cons_append, attempt, attempt]
      cases event.attempt stride range mem with
      | finished later =>
          dsimp only
          rw [inductionHypothesis]
          cases attempt stride range events later with
          | finished final => exact (@after_append [event] events _).symm
          | failed done final => rfl
          | faulted => rfl
      | failed done later => rfl
      | faulted => rfl

/-- A step that fails has no steps before it. -/
theorem Event.eq_nil_of_failed (failed : event.attempt stride range mem = .failed done later) :
    done = [] := by
  cases event with
  | alloc =>
      rw [Event.attempt] at failed
      split at failed <;> cases failed
      rfl
  | expand level s slot =>
      rw [Event.attempt] at failed
      split at failed <;> cases failed
      rfl
  | write level s =>
      rw [Event.attempt] at failed
      split at failed <;> cases failed
      rfl
  | wild => cases failed

/-- The steps before the one that fails are the first ones. -/
theorem prefix_of_failed (failed : attempt stride range events mem = .failed done later) :
    done <+: events := by
  induction events generalizing mem done with
  | nil => cases failed
  | cons event events inductionHypothesis =>
      rw [attempt] at failed
      cases first : event.attempt stride range mem with
      | finished middle =>
          rw [first] at failed
          dsimp only at failed
          cases rest : attempt stride range events middle with
          | finished final =>
              rw [rest] at failed
              cases failed
          | failed earlier final =>
              rw [rest] at failed
              cases failed
              exact List.cons_prefix_cons.mpr ⟨rfl, inductionHypothesis rest⟩
          | faulted =>
              rw [rest] at failed
              cases failed
      | failed earlier middle =>
          rw [first] at failed
          cases failed
          rw [Event.eq_nil_of_failed first]
          exact List.nil_prefix
      | faulted =>
          rw [first] at failed
          cases failed

@[simp]
theorem replayAll_nil (index : Nat) (old : Except Fault Nat) :
    replayAll stride range [] index old = old := rfl

theorem replayAll_cons (index : Nat) (old : Except Fault Nat) :
    replayAll stride range (event :: events) index old =
      replayAll stride range events index (event.replay stride range index old) := rfl

theorem replayAll_append (index : Nat) (old : Except Fault Nat) :
    replayAll stride range (events ++ more) index old =
      replayAll stride range more index (replayAll stride range events index old) :=
  List.foldl_append

theorem replay_eq_leaves (index : Nat) (old : Except Fault Nat) :
    event.replay stride range index old = (event.leaves stride range index).getD old := by
  cases event with
  | alloc => rfl
  | expand level s slot =>
      simp only [Event.replay, Event.leaves]
      split <;> rfl
  | write level s =>
      simp only [Event.replay, Event.leaves]
      split <;> rfl
  | wild => rfl

/-- The last step at an index decides. -/
theorem replayAll_eq_leaves (index : Nat) (old : Except Fault Nat) :
    replayAll stride range events index old =
      (events.reverse.findSome? (Event.leaves stride range index)).getD old := by
  induction events generalizing old with
  | nil => rfl
  | cons event events inductionHypothesis =>
      rw [replayAll_cons, inductionHypothesis, List.reverse_cons, List.findSome?_append,
        replay_eq_leaves]
      cases events.reverse.findSome? (Event.leaves stride range index) with
      | some answer => rfl
      | none => cases leaves : event.leaves stride range index <;> simp [leaves]

end Attempts

section Local

variable (stride : Nat) (range : Range)

/-- The step is at the slot or below it. -/
def Event.Local (level s : Nat) (event : Event) : Prop :=
  ∀ index, index / span level ≠ s → ∀ old, event.replay stride range index old = old

variable {stride range} {level s : Nat} {event : Event} {events : List Event}

theorem Event.Local.parent {i : Fin slotSize}
    (here : event.Local stride range level (slotSize * s + i.val)) :
    event.Local stride range (level + 1) s := by
  intro index outside
  apply here index
  intro same
  apply outside
  rw [div_span_succ, same, Nat.mul_add_div (by decide), Nat.div_eq_of_lt i.isLt, Nat.add_zero]

theorem replayAll_of_forall {index : Nat}
    (kept : ∀ event ∈ events, ∀ old, event.replay stride range index old = old)
    (old : Except Fault Nat) : replayAll stride range events index old = old := by
  induction events generalizing old with
  | nil => rfl
  | cons event events inductionHypothesis =>
      rw [replayAll_cons, kept event List.mem_cons_self]
      exact inductionHypothesis (fun other member => kept other (List.mem_cons_of_mem _ member)) _

theorem replayAll_of_local (within : ∀ event ∈ events, event.Local stride range level s)
    {index : Nat} (outside : index / span level ≠ s) (old : Except Fault Nat) :
    replayAll stride range events index old = old :=
  replayAll_of_forall (fun event member => within event member index outside) old

/-- The steps below a node are at its slots or below them. -/
def LocalBelow (stride : Nat) (range : Range) (level : Nat) (below : Node → Nat → List Event) :
    Prop :=
  ∀ node q, ∀ event ∈ below node q, event.Local stride range (level + 1) q

theorem visit_local {below : Node → Nat → List Event}
    (within : ∀ k, level = k + 1 → LocalBelow stride range k below) {slot : Slot} :
    ∀ event ∈ visit stride range level below s slot, event.Local stride range level s := by
  intro event member
  unfold visit at member
  split at member
  case isTrue =>
    rw [List.mem_singleton.mp member]
    exact fun index outside old => if_neg outside
  case isFalse above =>
    obtain ⟨k, rfl⟩ : ∃ k, level = k + 1 :=
      Nat.exists_eq_add_one_of_ne_zero fun zero => above (Or.inr zero)
    cases slot with
    | node child => exact within k rfl child s event member
    | word word =>
        dsimp only at member
        split at member
        · rcases List.mem_cons.mp member with rfl | deeper
          · exact fun index outside old => if_neg outside
          · exact within k rfl _ s event deeper
        · split at member
          · rcases List.mem_cons.mp member with rfl | deeper
            · exact fun index outside old => rfl
            · exact within k rfl _ s event deeper
          · rw [List.mem_singleton.mp member]
            exact fun index outside old => rfl

theorem walkSlots_local {below : Node → Nat → List Event}
    (within : ∀ k, level = k + 1 → LocalBelow stride range k below) {slots : List (Fin slotSize)}
    {node : Node} {q : Nat} {event : Event}
    (member : event ∈ walkSlots stride range level below slots node q) :
    ∃ i ∈ slots, event.Local stride range level (slotSize * q + i.val) := by
  obtain ⟨i, inSlots, visited⟩ := List.mem_flatMap.mp member
  split at visited
  · exact ⟨i, inSlots, visit_local within event visited⟩
  · cases visited

theorem walk_local (level : Nat) : LocalBelow stride range level (walk stride range level) := by
  induction level with
  | zero =>
      intro node q event member
      obtain ⟨i, -, here⟩ := walkSlots_local (fun k zero => by cases zero) member
      exact here.parent
  | succ level inductionHypothesis =>
      intro node q event member
      obtain ⟨i, -, here⟩ :=
        walkSlots_local (fun k same => by cases same; exact inductionHypothesis)
        member
      exact here.parent

end Local

end Opal.XArray
