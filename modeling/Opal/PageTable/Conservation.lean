import Opal.PageTable.Frames

/-!
# No frame is used twice

Mapping and unmapping move frames between the pool of the allocator and the tables of the page
table; together the two never gain a frame.  The kernel half does not change.
-/

namespace Opal.PageTable

theorem index_lt (level va : Nat) : index level va < tableLength := Nat.mod_lt _ (by decide)

attribute [local irreducible] tableLength

section Law

variable {level : Nat}

/-- The frames of the tables at and below an entry. -/
def Node.frames : {level : Nat} → Node level → Multiset Nat
  | _, .absent => 0
  | _, .page _ => 0
  | _, .huge _ => 0
  | _, .table frame _ entries => frame ::ₘ ∑ i ∈ Finset.range tableLength, (entries i).frames

/-- The frames of the tables below the first entries of a table. -/
def framesBelow (entries : Nat → Node level) (count : Nat) : Multiset Nat :=
  ∑ i ∈ Finset.range count, (entries i).frames

/-- The frames of the tables reachable through the user half. -/
def Root.userFrames (root : Root) : Multiset Nat := framesBelow root 256

/-- The frames of the tables reachable through the kernel half. -/
def Root.kernelFrames (root : Root) : Multiset Nat := framesBelow (fun i => root (256 + i)) 256

theorem Node.frames_table {frame : Nat} {flags : Flags} {entries : Nat → Node level} :
    (Node.table frame flags entries).frames = frame ::ₘ framesBelow entries tableLength := rfl

/-- A new entry brings its frames and takes those of the old one away. -/
theorem framesBelow_update {entries : Nat → Node level} {count i : Nat} {node : Node level}
    (lower : i < count) : framesBelow (Function.update entries i node) count + (entries i).frames =
      framesBelow entries count + node.frames := by
  have member : i ∈ Finset.range count := Finset.mem_range.mpr lower
  have others : ∑ j ∈ (Finset.range count).erase i, (Function.update entries i node j).frames =
      ∑ j ∈ (Finset.range count).erase i, (entries j).frames := by
    refine Finset.sum_congr rfl fun j inside => ?_
    rw [Function.update_of_ne (Finset.ne_of_mem_erase inside)]
  unfold framesBelow
  rw [← Finset.add_sum_erase _ (fun j => (Function.update entries i node j).frames) member,
    ← Finset.add_sum_erase _ (fun j => (entries j).frames) member, others, Function.update_self]
  ac_rfl

theorem frames_le_framesBelow {entries : Nat → Node level} {count i : Nat} (lower : i < count) :
    (entries i).frames ≤ framesBelow entries count := by
  unfold framesBelow
  rw [← Finset.add_sum_erase _ (fun j => (entries j).frames) (Finset.mem_range.mpr lower)]
  exact Multiset.le_add_right _ _

theorem framesBelow_eq_zero {entries : Nat → Node level} {count : Nat}
    (empty : ∀ i, (entries i).frames = 0) : framesBelow entries count = 0 :=
  Finset.sum_eq_zero fun i _ => empty i

theorem framesBelow_absent {count : Nat} :
    framesBelow (fun _ => (.absent : Node level)) count = 0 :=
  framesBelow_eq_zero fun _ => rfl

/-- The frames of a table that was found or made, or else of what is there. -/
def tableFrames (otherwise : Multiset Nat) :
    Option (Nat × Flags × (Nat → Node level)) → Multiset Nat
  | none => otherwise
  | some (frame, _, entries) => frame ::ₘ framesBelow entries tableLength

/-- The allocator may come to hand out the frame. -/
def Answers (mem : Frames) (frame : Nat) : Prop := ∃ n, mem.answers.get n = some frame

/-- From the state of the allocator and the frames in tables before a step to those after it. -/
structure Keeps (mem : Frames) (before : Multiset Nat) (mem' : Frames) (after : Multiset Nat) :
    Prop where
  total : mem'.pool + after ≤ mem.pool + before
  metadata : mem'.metadata = mem.metadata
  taken : ∀ frame ∈ after, frame ∈ before ∨ Answers mem frame
  later : ∀ frame, Answers mem' frame → Answers mem frame

variable {mem mem' mem'' : Frames} {before mid after : Multiset Nat}

theorem Keeps.refl : Keeps mem before mem before :=
  ⟨le_rfl, rfl, fun _ member => .inl member, fun _ answers => answers⟩

theorem Keeps.trans (first : Keeps mem before mem' mid) (second : Keeps mem' mid mem'' after) :
    Keeps mem before mem'' after where
  total := second.total.trans first.total
  metadata := second.metadata.trans first.metadata
  taken frame member := by
    rcases second.taken frame member with old | answers
    · exact first.taken frame old
    · exact .inr (first.later frame answers)
  later frame answers := first.later frame (second.later frame answers)

theorem Keeps.shrink {less : Multiset Nat} (keeps : Keeps mem before mem' after)
    (le : less ≤ after) : Keeps mem before mem' less :=
  ⟨(Multiset.add_le_add_left le).trans keeps.total, keeps.metadata,
    fun frame member => keeps.taken frame (Multiset.mem_of_le le member), keeps.later⟩

/-- Frames that the step does not touch may be counted in. -/
theorem Keeps.add (keeps : Keeps mem before mem' after) (rest : Multiset Nat) :
    Keeps mem (before + rest) mem' (after + rest) where
  total := by
    rw [← add_assoc, ← add_assoc]
    exact Multiset.add_le_add_right keeps.total
  metadata := keeps.metadata
  taken frame member := by
    rcases Multiset.mem_add.mp member with here | elsewhere
    · exact (keeps.taken frame here).imp_left fun old => Multiset.mem_add.mpr (.inl old)
    · exact .inl (Multiset.mem_add.mpr (.inr elsewhere))
  later := keeps.later

theorem Keeps.cons (keeps : Keeps mem before mem' after) (frame : Nat) :
    Keeps mem (frame ::ₘ before) mem' (frame ::ₘ after) := by
  have whole := keeps.add {frame}
  rwa [add_comm before, add_comm after, Multiset.singleton_add, Multiset.singleton_add] at whole

/-- What happens to one entry of a table happens to the table. -/
theorem Keeps.update {entries : Nat → Node level} {count i : Nat} {node : Node level}
    (keeps : Keeps mem (entries i).frames mem' node.frames) (lower : i < count) :
    Keeps mem (framesBelow entries count) mem'
      (framesBelow (Function.update entries i node) count) where
  total := by
    have exchange := @framesBelow_update level entries count i node lower
    have added := (keeps.add (framesBelow entries count)).total
    have bound : mem'.pool + framesBelow (Function.update entries i node) count +
        (entries i).frames ≤ mem.pool + framesBelow entries count + (entries i).frames := by
      calc mem'.pool + framesBelow (Function.update entries i node) count + (entries i).frames
          = mem'.pool + (node.frames + framesBelow entries count) := by
            rw [add_assoc, exchange, add_comm (framesBelow _ _)]
        _ ≤ mem.pool + ((entries i).frames + framesBelow entries count) := added
        _ = mem.pool + framesBelow entries count + (entries i).frames := by ac_rfl
    exact Multiset.le_of_add_le_add_right bound
  metadata := keeps.metadata
  taken frame member := by
    have exchange := @framesBelow_update level entries count i node lower
    have old : frame ∈ framesBelow entries count + node.frames := by
      rw [← exchange]
      exact Multiset.mem_add.mpr (.inl member)
    rcases Multiset.mem_add.mp old with kept | new
    · exact .inl kept
    · exact (keeps.taken frame new).imp_left (Multiset.mem_of_le (frames_le_framesBelow lower))
  later := keeps.later

/-- What happens to an entry of a table happens to the entry that points to the table. -/
theorem Keeps.table {entries : Nat → Node level} {i frame : Nat} {flags : Flags}
    {node : Node level} (keeps : Keeps mem (entries i).frames mem' node.frames)
    (lower : i < tableLength) : Keeps mem (frame ::ₘ framesBelow entries tableLength) mem'
      (Node.table frame flags (Function.update entries i node)).frames := by
  rw [Node.frames_table]
  exact (keeps.update lower).cons frame

end Law

section Allocator

variable {mem : Frames}

theorem mmAllocPage_keeps : Keeps mem 0 (mmAllocPage mem).2
    ((mmAllocPage mem).1.elim 0 fun frame => {frame}) := by
  have onward : ∀ frame, (∃ n, mem.answers.tail.get n = some frame) → Answers mem frame := by
    rintro frame ⟨n, answered⟩
    exact ⟨n + 1, answered⟩
  have idle : Keeps mem 0 { mem with answers := mem.answers.tail } 0 :=
    ⟨le_rfl, rfl, fun _ member => .inl member, onward⟩
  unfold mmAllocPage
  split
  · exact idle
  · rename_i frame answered
    split
    · rename_i member
      refine ⟨?_, rfl, fun other new => .inr ?_, onward⟩
      · show mem.pool.erase frame + {frame} ≤ mem.pool + 0
        rw [add_comm, Multiset.singleton_add, Multiset.cons_erase member, add_zero]
      · rw [Multiset.mem_singleton.mp new]
        exact ⟨0, answered⟩
    · exact idle

theorem allocatePage_keeps : Keeps mem 0 (allocatePage mem).2
    ((allocatePage mem).1.elim 0 fun frame => {frame}) := by
  have keeps := @mmAllocPage_keeps mem
  unfold allocatePage
  split
  · rename_i mem' answered
    rw [answered] at keeps
    exact keeps.shrink (Multiset.zero_le _)
  · rename_i frame mem' _ answered
    rw [answered] at keeps
    exact keeps

end Allocator

section Unmap

variable {level : Nat} {mem : Frames}

/-- The frames that are left of a table after its deallocation. -/
def Released.left (released : Released level) (frame : Nat) : Multiset Nat :=
  bif released.ok then 0 else frame ::ₘ framesBelow released.entries tableLength

/-- The deallocation of a table makes no frames. -/
def Deallocates (deallocate : Nat → (Nat → Node level) → Frames → Released level) : Prop :=
  ∀ frame entries mem, Keeps mem (frame ::ₘ framesBelow entries tableLength)
    (deallocate frame entries mem).mem ((deallocate frame entries mem).left frame)

theorem clearEntry_keeps {deallocate : Nat → (Nat → Node level) → Frames → Released level}
    (deallocates : Deallocates deallocate) (node : Node (level + 1)) (mem : Frames) :
    Keeps mem node.frames (clearEntry deallocate node mem).2
      (clearEntry deallocate node mem).1.frames := by
  cases node with
  | absent => exact .refl
  | huge leaf => exact .refl
  | table frame flags entries =>
      have keeps := deallocates frame entries mem
      simp only [clearEntry, Node.frames_table]
      generalize deallocate frame entries mem = released at keeps ⊢
      obtain ⟨entries', ok, mem'⟩ := released
      cases ok with
      | true => exact keeps
      | false => exact keeps

theorem unmapTable_keeps {deallocate : Nat → (Nat → Node level) → Frames → Released level}
    (deallocates : Deallocates deallocate) (entries : Nat → Node (level + 1)) (mem : Frames)
    {count i : Nat} (le : i ≤ count) : Keeps mem (framesBelow entries count)
      (unmapTable deallocate entries mem i).2
      (framesBelow (unmapTable deallocate entries mem i).1 count) := by
  induction i with
  | zero => exact .refl
  | succ i inductionHypothesis =>
      refine (inductionHypothesis (Nat.le_of_succ_le le)).trans ?_
      exact (clearEntry_keeps deallocates _ _).update le

/-- The frame of the table itself goes last, or the table stays. -/
theorem deallocatePage_keeps {frame : Nat} {before after : Multiset Nat} {mem' : Frames}
    (keeps : Keeps mem before mem' after) : Keeps mem (frame ::ₘ before)
      (deallocatePage frame mem').2
      (bif (deallocatePage frame mem').1 then 0 else frame ::ₘ after) := by
  refine (keeps.cons frame).trans ?_
  unfold deallocatePage
  split
  · exact .refl
  · refine ⟨?_, rfl, fun other absent => absurd absent (Multiset.notMem_zero other), fun _ => id⟩
    show frame ::ₘ mem'.pool + 0 ≤ mem'.pool + frame ::ₘ after
    rw [add_zero, Multiset.add_cons]
    exact Multiset.cons_le_cons _ (Multiset.le_add_right _ _)

theorem deallocate_keeps (level : Nat) : Deallocates (deallocate level) := by
  induction level with
  | zero =>
      intro frame entries mem
      unfold deallocate Released.left
      have cleared : Keeps mem (framesBelow entries tableLength) mem (framesBelow
          (if (deallocatePage frame mem).1 then entries else fun _ => .absent) tableLength) := by
        split
        · exact .refl
        · rw [framesBelow_absent]
          exact Keeps.refl.shrink (Multiset.zero_le _)
      exact deallocatePage_keeps cleared
  | succ level inductionHypothesis =>
      intro frame entries mem
      unfold deallocate Released.left
      exact deallocatePage_keeps (unmapTable_keeps inductionHypothesis entries mem le_rfl)

theorem expandNode_keeps {leaf : Page} : Keeps mem 0 (expandNode leaf mem).2
    (tableFrames 0 (expandNode leaf mem).1) := by
  have keeps := @allocatePage_keeps mem
  have pages : framesBelow (expandedEntries leaf) tableLength = 0 := by
    apply framesBelow_eq_zero
    intro i
    simp only [expandedEntries, Node.frames]
  unfold expandNode
  generalize allocatePage mem = answer at keeps ⊢
  obtain ⟨answer, mem'⟩ := answer
  cases answer with
  | none => exact keeps
  | some frame =>
      simp only [tableFrames, pages]
      exact keeps

/-- The step makes no frames. -/
def Unmaps (unmap : Node level → Frames → NodeUnmapped level) : Prop :=
  ∀ node mem, Keeps mem node.frames (unmap node mem).mem (unmap node mem).node.frames

theorem unmapNodeBelow_keeps {va : Nat} {unmap : Node level → Frames → NodeUnmapped level}
    (unmaps : Unmaps unmap) : Unmaps (unmapNodeBelow va unmap) := by
  intro node mem
  cases node with
  | absent => exact .refl
  | huge leaf =>
      have keeps := @expandNode_keeps mem leaf
      obtain ⟨⟨answer, mem'⟩, eq⟩ : ∃ answer, expandNode leaf mem = answer := ⟨_, rfl⟩
      rw [eq] at keeps
      cases answer with
      | none =>
          simp only [unmapNodeBelow, eq]
          exact keeps
      | some table =>
          obtain ⟨frame, flags, entries⟩ := table
          simp only [unmapNodeBelow, eq]
          simp only [tableFrames] at keeps
          exact Keeps.trans keeps ((unmaps (entries (index 0 va)) mem').table (index_lt _ _))
  | table frame flags entries =>
      rw [Node.frames_table]
      exact (unmaps _ mem).table (index_lt _ _)

theorem unmapNode_keeps (level va stop : Nat) : Unmaps (unmapNode level va stop) := by
  induction level with
  | zero =>
      intro node mem
      exact Keeps.refl.shrink (Multiset.zero_le _)
  | succ level inductionHypothesis =>
      intro node mem
      unfold unmapNode
      split
      · exact (clearEntry_keeps (deallocate_keeps level) node mem).trans
          (unmapNodeBelow_keeps inductionHypothesis _ _)
      · exact unmapNodeBelow_keeps inductionHypothesis _ _

end Unmap

section Map

variable {level va pa : Nat} {flags : Flags} {mem : Frames}

/-- The step makes no frames. -/
def Maps (install : Node level → Frames → NodeInstalled level) : Prop :=
  ∀ node mem, Keeps mem node.frames (install node mem).mem (install node mem).node.frames

theorem getOrAllocNode_keeps (node : Node (level + 1)) (flags : Flags) (mem : Frames) :
    Keeps mem node.frames (getOrAllocNode node flags mem).2
      (tableFrames node.frames (getOrAllocNode node flags mem).1) := by
  cases node with
  | absent =>
      have keeps := @allocatePage_keeps mem
      obtain ⟨⟨answer, mem'⟩, eq⟩ : ∃ answer, allocatePage mem = answer := ⟨_, rfl⟩
      rw [eq] at keeps
      cases answer with
      | none =>
          simp only [getOrAllocNode, eq]
          exact keeps
      | some frame =>
          simp only [getOrAllocNode, eq, tableFrames, framesBelow_absent]
          exact keeps
  | huge leaf => exact expandNode_keeps
  | table frame flags entries => exact .refl

theorem withNode_keeps {install : Node level → Frames → NodeInstalled level}
    (maps : Maps install) : Maps (withNode va flags install) := by
  intro node mem
  have keeps := getOrAllocNode_keeps node flags mem
  unfold withNode
  generalize getOrAllocNode node flags mem = answer at keeps ⊢
  obtain ⟨answer, mem'⟩ := answer
  cases answer with
  | none => exact keeps
  | some table =>
      obtain ⟨frame, flags', entries⟩ := table
      simp only [tableFrames] at keeps
      exact Keeps.trans keeps ((maps (entries (index level va)) mem').table (index_lt _ _))

theorem setPte_keeps : Maps (setPte pa flags) := by
  intro node mem
  cases node with
  | absent => exact .refl
  | page leaf => exact .refl

theorem setPde_keeps : Maps (setPde pa flags) := by
  intro node mem
  cases node with
  | absent => exact .refl
  | huge leaf => exact .refl
  | table frame flags entries => exact .refl

end Map

section Root

variable {root root' root'' : Root} {mem mem' mem'' : Frames} {va pa stop len : Nat} {flags : Flags}

/-- The user half and the allocator together gain no frame, and the kernel half stays. -/
structure RootKeeps (root : Root) (mem : Frames) (root' : Root) (mem' : Frames) : Prop where
  user : Keeps mem root.userFrames mem' root'.userFrames
  kernel : ∀ i, 256 ≤ i → root' i = root i

theorem RootKeeps.refl : RootKeeps root mem root mem := ⟨.refl, fun _ _ => rfl⟩

theorem RootKeeps.trans (first : RootKeeps root mem root' mem')
    (second : RootKeeps root' mem' root'' mem'') : RootKeeps root mem root'' mem'' :=
  ⟨first.user.trans second.user, fun i high => (second.kernel i high).trans (first.kernel i high)⟩

theorem RootKeeps.kernelFrames (keeps : RootKeeps root mem root' mem') :
    root'.kernelFrames = root.kernelFrames := by
  have same : (fun i => root' (256 + i)) = fun i => root (256 + i) := by
    funext i
    exact keeps.kernel _ (Nat.le_add_right 256 i)
  unfold Root.kernelFrames
  rw [same]

/-- A step at an address of the user half. -/
theorem rootKeeps_update {node : Node 3} (user : va < 2 ^ 47)
    (keeps : Keeps mem (root (index 3 va)).frames mem' node.frames) :
    RootKeeps root mem (Function.update root (index 3 va) node) mem' := by
  have lower := index_root_lt user
  refine ⟨?_, fun i high => ?_⟩
  · unfold Root.userFrames
    exact keeps.update lower
  · have differs : i ≠ index 3 va := by omega
    rw [Function.update_of_ne differs]

theorem unmapRootNext_eq {below : NodeUnmapped 3}
    (eq : unmapNode 3 va stop (root (index 3 va)) mem = below) : unmapRootNext root va stop mem = {
      root := Function.update root (index 3 va) below.node
      va := below.next, mem := below.mem } := by
  unfold unmapRootNext
  rw [eq]

theorem unmapRootNext_keeps (user : va < 2 ^ 47) :
    RootKeeps root mem (unmapRootNext root va stop mem).root
      (unmapRootNext root va stop mem).mem := by
  have keeps := unmapNode_keeps 3 va stop (root (index 3 va)) mem
  obtain ⟨below, eq⟩ : ∃ below, unmapNode 3 va stop (root (index 3 va)) mem = below := ⟨_, rfl⟩
  rw [eq] at keeps
  rw [unmapRootNext_eq eq]
  exact rootKeeps_update user keeps

theorem unmapRootLoop_keeps (fuel : Nat) (le : va ≤ stop) (user : stop ≤ 2 ^ 47) :
    RootKeeps root mem (unmapRootLoop stop fuel root va mem).root
      (unmapRootLoop stop fuel root va mem).mem := by
  induction fuel generalizing root va mem with
  | zero => exact .refl
  | succ fuel inductionHypothesis =>
      by_cases done : va = stop
      · simp only [unmapRootLoop, if_pos done]
        exact .refl
      · have before : va < stop := Nat.lt_of_le_of_ne le done
        have round := @unmapRootNext_keeps root mem va stop (Nat.lt_of_lt_of_le before user)
        obtain ⟨after, eq⟩ : ∃ after, unmapRootNext root va stop mem = after := ⟨_, rfl⟩
        rw [eq] at round
        simp only [unmapRootLoop, if_neg done, eq]
        by_cases stuck : after.va = va
        · simp only [if_pos stuck]
          exact round
        · simp only [if_neg stuck]
          refine round.trans (inductionHypothesis ?_)
          split <;> omega

theorem rootUnmap_keeps {after : RootWalk} (user : va + len ≤ 2 ^ 47)
    (returned : rootUnmap root va len mem = some after) :
    RootKeeps root mem after.root after.mem := by
  unfold rootUnmap at returned
  split at returned
  · cases returned
    exact unmapRootLoop_keeps _ (Nat.le_add_right va len) user
  · cases returned

theorem atRootNode_keeps {install : Node 3 → Frames → NodeInstalled 3} (user : va < 2 ^ 47)
    (maps : Maps install) : RootKeeps root mem (atRootNode root va mem install).root
      (atRootNode root va mem install).mem := by
  have keeps := maps (root (index 3 va)) mem
  unfold atRootNode
  generalize install (root (index 3 va)) mem = below at keeps ⊢
  exact rootKeeps_update user keeps

theorem mapRoot4k_keeps (user : va < 2 ^ 47) : RootKeeps root mem
    (mapRoot4k root va pa flags mem).root (mapRoot4k root va pa flags mem).mem :=
  atRootNode_keeps user (withNode_keeps (withNode_keeps (withNode_keeps setPte_keeps)))

theorem mapRoot2m_keeps (user : va < 2 ^ 47) : RootKeeps root mem
    (mapRoot2m root va pa flags mem).root (mapRoot2m root va pa flags mem).mem :=
  atRootNode_keeps user (withNode_keeps (withNode_keeps setPde_keeps))

/-- The loop goes no further than the range. -/
theorem mapRootLoop_keeps (fuel : Nat) (whole : len % pageSize = 0) (user : va + len ≤ 2 ^ 47) :
    RootKeeps root mem (mapRootLoop flags fuel root va pa len mem).root
        (mapRootLoop flags fuel root va pa len mem).mem ∧
      pa ≤ (mapRootLoop flags fuel root va pa len mem).paCur ∧
      (mapRootLoop flags fuel root va pa len mem).paCur ≤ pa + len := by
  induction fuel generalizing root va pa len mem with
  | zero => exact ⟨.refl, le_rfl, Nat.le_add_right pa len⟩
  | succ fuel inductionHypothesis =>
      unfold mapRootLoop
      by_cases empty : len = 0
      · rw [if_pos empty]
        exact ⟨.refl, le_rfl, Nat.le_add_right pa len⟩
      · rw [if_neg empty]
        have positive : pageSize ≤ len :=
          Nat.le_of_dvd (Nat.pos_of_ne_zero empty) (Nat.dvd_of_mod_eq_zero whole)
        have page : 0 < pageSize := span_pos 0
        split
        · rename_i huge
          simp only [canUseHuge, Bool.and_eq_true, decide_eq_true_eq] at huge
          have large := huge.1.1
          have round := @mapRoot2m_keeps root mem va pa flags (by omega)
          have whole' : (len - hugePageSize) % pageSize = 0 :=
            Nat.mod_eq_zero_of_dvd (Nat.dvd_sub (Nat.dvd_of_mod_eq_zero whole)
              (span_dvd (Nat.zero_le 1)))
          dsimp only
          split
          · obtain ⟨later, lower, upper⟩ := @inductionHypothesis _ _ (va + hugePageSize)
              (pa + hugePageSize) (len - hugePageSize) whole' (by omega)
            exact ⟨round.trans later, by omega, by omega⟩
          · exact ⟨round, le_rfl, Nat.le_add_right pa len⟩
        · have round := @mapRoot4k_keeps root mem va pa flags (by omega)
          have whole' : (len - pageSize) % pageSize = 0 :=
            Nat.mod_eq_zero_of_dvd (Nat.dvd_sub (Nat.dvd_of_mod_eq_zero whole) (Nat.dvd_refl _))
          dsimp only
          split
          · obtain ⟨later, lower, upper⟩ := @inductionHypothesis _ _ (va + pageSize)
              (pa + pageSize) (len - pageSize) whole' (by omega)
            exact ⟨round.trans later, by omega, by omega⟩
          · exact ⟨round, le_rfl, Nat.le_add_right pa len⟩

theorem rootMap_keeps {after : RootWalk} (user : va + len ≤ 2 ^ 47)
    (returned : rootMap root va pa len flags mem = some after) :
    RootKeeps root mem after.root after.mem := by
  unfold rootMap at returned
  split at returned
  · rename_i aligned
    split at returned
    · cases returned
      exact .refl
    · obtain ⟨loop, lower, upper⟩ := @mapRootLoop_keeps root mem va pa len flags (len / pageSize)
        aligned.2.1 user
      dsimp only at returned
      split at returned
      · cases returned
        exact loop
      · obtain ⟨undone, unmapped, same⟩ := Option.map_eq_some_iff.mp returned
        subst same
        have reached : va + ((mapRootLoop flags (len / pageSize) root va pa len mem).paCur - pa) ≤
            2 ^ 47 := by omega
        have back := rootUnmap_keeps reached unmapped
        exact loop.trans back
  · cases returned

end Root

end Opal.PageTable
