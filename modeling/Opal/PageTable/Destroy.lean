import Opal.PageTable.Leaves

/-!
# Destroying a page table

`pagetable_destroy` unmaps the whole user half, entry by entry of the root, and returns the frame
of the root.  Every frame of a table goes back to the allocator on the way.
-/

namespace Opal.PageTable

attribute [local irreducible] tableLength

section Frees

variable {level : Nat} {mem mem' mem'' : Frames} {first second : Multiset Nat}

/-- A step returns these frames to the allocator and takes none. -/
structure Frees (mem : Frames) (frames : Multiset Nat) (mem' : Frames) : Prop where
  pool : mem'.pool = frames + mem.pool
  freed : mem'.freed = frames + mem.freed
  metadata : mem'.metadata = mem.metadata

theorem Frees.refl : Frees mem 0 mem := ⟨(zero_add _).symm, (zero_add _).symm, rfl⟩

theorem Frees.trans (before : Frees mem first mem') (after : Frees mem' second mem'') :
    Frees mem (first + second) mem'' where
  pool := by
    rw [after.pool, before.pool]
    ac_rfl
  freed := by
    rw [after.freed, before.freed]
    ac_rfl
  metadata := after.metadata.trans before.metadata

/-- None of the frames holds metadata. -/
def Plain (mem : Frames) (frames : Multiset Nat) : Prop :=
  ∀ frame ∈ frames, mem.metadata frame = false

theorem Plain.mono (plain : Plain mem second) (le : first ≤ second) : Plain mem first :=
  fun frame member => plain frame (Multiset.mem_of_le le member)

theorem Plain.after (plain : Plain mem second) (frees : Frees mem first mem') :
    Plain mem' second := by
  intro frame member
  rw [frees.metadata]
  exact plain frame member

theorem mmFreePage_frees {frame : Nat} : Frees mem {frame} (mmFreePage frame mem) :=
  ⟨rfl, rfl, rfl⟩

theorem deallocatePage_frees {frame : Nat} (plain : mem.metadata frame = false) :
    (deallocatePage frame mem).1 = true ∧ Frees mem {frame} (deallocatePage frame mem).2 := by
  unfold deallocatePage
  rw [plain]
  exact ⟨rfl, mmFreePage_frees⟩

theorem framesBelow_succ {entries : Nat → Node level} {count : Nat} :
    framesBelow entries (count + 1) = framesBelow entries count + (entries count).frames :=
  Finset.sum_range_succ _ _

theorem Node.frames_zero (node : Node 0) : node.frames = 0 := by
  cases node with
  | absent => rfl
  | page leaf => rfl

/-- A table without metadata is released with everything below it. -/
def Releases (deallocate : Nat → (Nat → Node level) → Frames → Released level) : Prop :=
  ∀ frame entries mem, Plain mem (frame ::ₘ framesBelow entries tableLength) →
    (deallocate frame entries mem).ok = true ∧
      Frees mem (frame ::ₘ framesBelow entries tableLength) (deallocate frame entries mem).mem

theorem clearEntry_frees {deallocate : Nat → (Nat → Node level) → Frames → Released level}
    (releases : Releases deallocate) {node : Node (level + 1)} (plain : Plain mem node.frames) :
    (clearEntry deallocate node mem).1 = .absent ∧
      Frees mem node.frames (clearEntry deallocate node mem).2 := by
  cases node with
  | absent => exact ⟨rfl, .refl⟩
  | huge leaf => exact ⟨rfl, .refl⟩
  | table frame flags entries =>
      obtain ⟨ok, frees⟩ := releases frame entries mem plain
      simp only [clearEntry, ok, if_true]
      exact ⟨trivial, frees⟩

/-- The walk through a table comes to entries that it has not changed. -/
theorem unmapTable_frees {deallocate : Nat → (Nat → Node level) → Frames → Released level}
    (releases : Releases deallocate) (entries : Nat → Node (level + 1)) {count : Nat}
    (plain : Plain mem (framesBelow entries count)) :
    Frees mem (framesBelow entries count) (unmapTable deallocate entries mem count).2 ∧
      ∀ i, count ≤ i → (unmapTable deallocate entries mem count).1 i = entries i := by
  induction count with
  | zero => exact ⟨.refl, fun _ _ => rfl⟩
  | succ count inductionHypothesis =>
      rw [framesBelow_succ] at plain ⊢
      obtain ⟨before, same⟩ := inductionHypothesis (plain.mono (Multiset.le_add_right _ _))
      have here := (plain.mono (Multiset.le_add_left _ _)).after before
      rw [← same count le_rfl] at here
      obtain ⟨-, frees⟩ := clearEntry_frees releases here
      rw [same count le_rfl] at frees
      unfold unmapTable
      dsimp only
      rw [same count le_rfl]
      refine ⟨before.trans frees, fun i above => ?_⟩
      rw [Function.update_of_ne (Nat.ne_of_gt above)]
      exact same i (Nat.le_of_succ_le above)

theorem deallocate_frees (level : Nat) : Releases (deallocate level) := by
  induction level with
  | zero =>
      intro frame entries mem plain
      have empty : framesBelow entries tableLength = 0 :=
        framesBelow_eq_zero fun i => (entries i).frames_zero
      rw [empty] at plain ⊢
      exact deallocatePage_frees (plain frame (Multiset.mem_cons_self _ _))
  | succ level inductionHypothesis =>
      intro frame entries mem plain
      obtain ⟨below, -⟩ := unmapTable_frees inductionHypothesis entries
        (plain.mono (Multiset.le_cons_self _ _))
      obtain ⟨ok, own⟩ := deallocatePage_frees
        ((plain.after below) frame (Multiset.mem_cons_self _ _))
      have whole := below.trans own
      rw [add_comm, Multiset.singleton_add] at whole
      exact ⟨ok, whole⟩

end Frees

section Loop

variable {level i va stop : Nat} {root : Root} {mem mem' : Frames}

theorem unmapNode_cleared {node : Node (level + 1)} (fits : va + span (level + 1) ≤ stop)
    (cleared : clearEntry (deallocate level) node mem = (.absent, mem')) :
    unmapNode (level + 1) va stop node mem =
      { node := .absent, next := roundDown (level + 1) (va + span (level + 1)), mem := mem' } := by
  simp only [unmapNode, if_pos fits, cleared, unmapNodeBelow]

/-- A table whose whole range is unmapped is released. -/
theorem unmapNode_frees {node : Node (level + 1)} (fits : va + span (level + 1) ≤ stop)
    (plain : Plain mem node.frames) : ∃ mem', Frees mem node.frames mem' ∧
      unmapNode (level + 1) va stop node mem =
        { node := .absent, next := roundDown (level + 1) (va + span (level + 1))
          mem := mem' } := by
  obtain ⟨absent, frees⟩ := clearEntry_frees (deallocate_frees level) plain
  exact ⟨_, frees, unmapNode_cleared fits (Prod.ext absent rfl)⟩

theorem index_root_mul (lower : i < 256) : index 3 (i * span 3) = i := by
  unfold index
  rw [Nat.mul_div_cancel _ (span_pos 3), Nat.mod_eq_of_lt]
  exact Nat.lt_trans lower (by unfold tableLength; decide)

theorem userStop_eq : 2 ^ 47 = 256 * span 3 := by
  unfold span
  decide

/-- A round of the loop releases what the next entry of the root points to. -/
theorem unmapRootNext_frees (lower : i < 256) (plain : Plain mem (root i).frames) :
    ∃ mem', Frees mem (root i).frames mem' ∧ unmapRootNext root (i * span 3) (2 ^ 47) mem =
      { root := Function.update root i .absent, va := (i + 1) * span 3, mem := mem' } := by
  have fits : i * span 3 + span (2 + 1) ≤ 2 ^ 47 := by
    rw [userStop_eq, ← Nat.succ_mul]
    exact Nat.mul_le_mul_right _ lower
  have next : roundDown (2 + 1) (i * span 3 + span (2 + 1)) = (i + 1) * span 3 := by
    rw [← Nat.succ_mul]
    exact roundDown_of_dvd (Nat.dvd_mul_left _ _)
  obtain ⟨mem', frees, eq⟩ := unmapNode_frees fits plain
  refine ⟨mem', frees, ?_⟩
  unfold unmapRootNext
  rw [index_root_mul lower, eq, next]

theorem framesBelow_first {entries : Nat → Node level} {count : Nat} :
    framesBelow entries (count + 1) =
      (entries 0).frames + framesBelow (fun j => entries (j + 1)) count := by
  unfold framesBelow
  rw [Finset.sum_range_succ', add_comm]

/-- From an entry of the root on, the loop releases the tables of all entries that follow. -/
theorem unmapRootLoop_frees {count fuel : Nat} (rest : i + count = 256) (enough : count < fuel)
    (plain : Plain mem (framesBelow (fun j => root (j + i)) count)) :
    Frees mem (framesBelow (fun j => root (j + i)) count)
      (unmapRootLoop (2 ^ 47) fuel root (i * span 3) mem).mem := by
  induction count generalizing i fuel root mem with
  | zero =>
      obtain ⟨fuel, rfl⟩ := Nat.exists_eq_succ_of_ne_zero (Nat.ne_of_gt enough)
      have last : i * span 3 = 2 ^ 47 := by
        rw [userStop_eq, ← rest, Nat.add_zero]
      simp only [unmapRootLoop, if_pos last]
      exact .refl
  | succ count inductionHypothesis =>
      obtain ⟨fuel, rfl⟩ := Nat.exists_eq_succ_of_ne_zero (Nat.ne_of_gt (Nat.zero_lt_of_lt enough))
      have lower : i < 256 := by omega
      have span : 0 < span 3 := span_pos 3
      have before : i * PageTable.span 3 < 2 ^ 47 := by
        rw [userStop_eq]
        exact Nat.mul_lt_mul_of_pos_right lower span
      have moved : i * PageTable.span 3 < (i + 1) * PageTable.span 3 :=
        Nat.mul_lt_mul_of_pos_right (Nat.lt_succ_self i) span
      have within : (i + 1) * PageTable.span 3 ≤ 2 ^ 47 := by
        rw [userStop_eq]
        exact Nat.mul_le_mul_right _ lower
      rw [framesBelow_first, Nat.zero_add] at plain ⊢
      obtain ⟨mem', frees, eq⟩ := unmapRootNext_frees lower
        (plain.mono (Multiset.le_add_right _ _))
      have onward : (if 2 ^ 47 = 0 ∨ (i + 1) * PageTable.span 3 < 2 ^ 47 then
          (i + 1) * PageTable.span 3 else 2 ^ 47) = (i + 1) * PageTable.span 3 := by
        split <;> omega
      have untouched : (fun j => Function.update root i .absent (j + (i + 1))) =
          fun j => root (j + 1 + i) := by
        funext j
        rw [Function.update_of_ne (by omega), Nat.add_assoc, Nat.add_comm i 1]
      have later := @inductionHypothesis (i + 1) (Function.update root i .absent) mem' fuel
        (by omega) (by omega)
      rw [untouched] at later
      simp only [unmapRootLoop, if_neg (Nat.ne_of_lt before), eq, if_neg (Nat.ne_of_gt moved),
        onward]
      exact frees.trans (later ((plain.mono (Multiset.le_add_left _ _)).after frees))

/-- The frames of all tables of the user half and the frame of the root are returned. -/
theorem pagetableDestroy_frees {space : Space} (plain : Plain mem space.root.userFrames) :
    ∃ mem', pagetableDestroy space mem = some mem' ∧
      Frees mem (space.frame ::ₘ space.root.userFrames) mem' := by
  obtain ⟨fuel, eq⟩ : ∃ fuel, 0x0000800000000000 / pageSize + 1 = fuel := ⟨_, rfl⟩
  have enough : 256 < fuel := by
    rw [← eq]
    unfold pageSize span
    decide
  have tables := @unmapRootLoop_frees 0 space.root mem 256 fuel rfl enough plain
  have whole := tables.trans (@mmFreePage_frees _ space.frame)
  rw [add_comm, Multiset.singleton_add] at whole
  refine ⟨_, ?_, whole⟩
  have aligned : 0 % pageSize = 0 ∧ 0x0000800000000000 % pageSize = 0 := by
    unfold pageSize span
    decide
  unfold pagetableDestroy rootUnmap
  rw [if_pos aligned, eq, Nat.zero_mul]
  rfl

end Loop

end Opal.PageTable
