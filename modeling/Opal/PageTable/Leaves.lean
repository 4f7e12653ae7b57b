import Opal.PageTable.Conservation

/-!
# The frames of the mapped pages

Unmapping keeps a page or drops it, and mapping adds the pages of its range.  So what is mapped
comes from the ranges that were handed over.
-/

namespace Opal.PageTable

attribute [local irreducible] tableLength

section Data

variable {level : Nat}

/-- The frames of the pages at and below an entry; a huge page counts as what it is split into. -/
def Node.data : {level : Nat} → Node level → Set Nat
  | _, .absent => ∅
  | _, .page leaf => {leaf.addr}
  | _, .huge leaf => {frame | ∃ i < tableLength, pteAddr (leaf.addr + i * pageSize) = frame}
  | _, .table _ _ entries => {frame | ∃ i < tableLength, frame ∈ (entries i).data}

/-- The frames of the pages below the first entries of a table. -/
def dataBelow (entries : Nat → Node level) (count : Nat) : Set Nat :=
  {frame | ∃ i < count, frame ∈ (entries i).data}

/-- The frames of the pages that the user half maps. -/
def Root.userData (root : Root) : Set Nat := dataBelow root 256

/-- The page frames of a physical range. -/
def pagesFrom (pa len : Nat) : Set Nat :=
  {frame | ∃ i, i * pageSize < len ∧ pa + i * pageSize = frame}

variable {known : Set Nat} {entries : Nat → Node level} {node : Node level} {count i : Nat}

theorem dataBelow_subset : dataBelow entries count ⊆ known ↔
    ∀ i < count, (entries i).data ⊆ known := by
  constructor
  · intro inside i lower frame mapped
    exact inside ⟨i, lower, mapped⟩
  · rintro each frame ⟨i, lower, mapped⟩
    exact each i lower mapped

theorem dataBelow_update (below : dataBelow entries count ⊆ known) (new : node.data ⊆ known) :
    dataBelow (Function.update entries i node) count ⊆ known := by
  rw [dataBelow_subset] at below ⊢
  intro j lower
  by_cases same : j = i
  · subst same
    rw [Function.update_self]
    exact new
  · rw [Function.update_of_ne same]
    exact below j lower

theorem dataBelow_absent : dataBelow (fun _ => (.absent : Node level)) count ⊆ known := by
  rw [dataBelow_subset]
  exact fun _ _ => Set.empty_subset known

theorem dataBelow_expandedEntries {leaf : Page} (inside : (Node.huge leaf).data ⊆ known) :
    dataBelow (expandedEntries leaf) tableLength ⊆ known := by
  rw [dataBelow_subset]
  rintro i lower frame mapped
  exact inside ⟨i, lower, (Set.mem_singleton_iff.mp mapped).symm⟩

end Data

section Unmap

variable {level : Nat} {known : Set Nat}

/-- What stays of a table maps no page that it did not map before. -/
def Drops (known : Set Nat) (deallocate : Nat → (Nat → Node level) → Frames → Released level) :
    Prop :=
  ∀ frame entries mem, dataBelow entries tableLength ⊆ known →
    dataBelow (deallocate frame entries mem).entries tableLength ⊆ known

theorem clearEntry_data {deallocate : Nat → (Nat → Node level) → Frames → Released level}
    (drops : Drops known deallocate) {node : Node (level + 1)} (inside : node.data ⊆ known)
    (mem : Frames) : (clearEntry deallocate node mem).1.data ⊆ known := by
  cases node with
  | absent => exact inside
  | huge leaf => exact Set.empty_subset known
  | table frame flags entries =>
      have kept := drops frame entries mem inside
      simp only [clearEntry]
      split
      · exact Set.empty_subset known
      · exact kept

theorem unmapTable_data {deallocate : Nat → (Nat → Node level) → Frames → Released level}
    (drops : Drops known deallocate) {entries : Nat → Node (level + 1)} {count i : Nat}
    (inside : dataBelow entries count ⊆ known) (mem : Frames) (le : i ≤ count) :
    dataBelow (unmapTable deallocate entries mem i).1 count ⊆ known := by
  induction i with
  | zero => exact inside
  | succ i inductionHypothesis =>
      have before := inductionHypothesis (Nat.le_of_succ_le le)
      exact dataBelow_update before (clearEntry_data drops (dataBelow_subset.mp before i le) _)

theorem deallocate_data (level : Nat) : Drops known (deallocate level) := by
  induction level with
  | zero =>
      intro frame entries mem inside
      unfold deallocate
      dsimp only
      split
      · exact inside
      · exact dataBelow_absent
  | succ level inductionHypothesis =>
      intro frame entries mem inside
      exact unmapTable_data inductionHypothesis inside mem le_rfl

/-- The step maps no page that was not mapped before. -/
def Narrows (known : Set Nat) (unmap : Node level → Frames → NodeUnmapped level) : Prop :=
  ∀ node mem, node.data ⊆ known → (unmap node mem).node.data ⊆ known

theorem unmapNodeBelow_data {va : Nat} {unmap : Node level → Frames → NodeUnmapped level}
    (narrows : Narrows known unmap) : Narrows known (unmapNodeBelow va unmap) := by
  intro node mem inside
  cases node with
  | absent => exact inside
  | huge leaf =>
      have split := dataBelow_expandedEntries inside
      obtain ⟨⟨answer, mem'⟩, eq⟩ : ∃ answer, allocatePage mem = answer := ⟨_, rfl⟩
      cases answer with
      | none =>
          simp only [unmapNodeBelow, expandNode, eq]
          exact inside
      | some frame =>
          simp only [unmapNodeBelow, expandNode, eq]
          refine dataBelow_update split (narrows _ mem' ?_)
          exact dataBelow_subset.mp split _ (index_lt 0 va)
  | table frame flags entries =>
      refine dataBelow_update inside (narrows _ mem ?_)
      exact dataBelow_subset.mp inside _ (index_lt level va)

theorem unmapNode_data (level va stop : Nat) : Narrows known (unmapNode level va stop) := by
  induction level with
  | zero => exact fun _ _ _ => Set.empty_subset known
  | succ level inductionHypothesis =>
      intro node mem inside
      unfold unmapNode
      split
      · exact unmapNodeBelow_data inductionHypothesis _ _
          (clearEntry_data (deallocate_data level) inside mem)
      · exact unmapNodeBelow_data inductionHypothesis _ _ inside

end Unmap

section Map

variable {level va pa : Nat} {known : Set Nat} {flags : Flags}

/-- The step maps none but known pages. -/
def Adds (known : Set Nat) (install : Node level → Frames → NodeInstalled level) : Prop :=
  ∀ node mem, node.data ⊆ known → (install node mem).node.data ⊆ known

theorem getOrAllocNode_data {node : Node (level + 1)} {mem mem' : Frames} {frame : Nat}
    {flags' : Flags} {entries : Nat → Node level} (inside : node.data ⊆ known)
    (found : getOrAllocNode node flags mem = (some (frame, flags', entries), mem')) :
    dataBelow entries tableLength ⊆ known := by
  cases node with
  | absent =>
      simp only [getOrAllocNode] at found
      split at found
      · cases found
      · cases found
        exact dataBelow_absent
  | huge leaf =>
      simp only [getOrAllocNode, expandNode] at found
      split at found
      · cases found
      · cases found
        exact dataBelow_expandedEntries inside
  | table frame flags entries =>
      simp only [getOrAllocNode] at found
      cases found
      exact inside

theorem withNode_data {install : Node level → Frames → NodeInstalled level}
    (adds : Adds known install) : Adds known (withNode va flags install) := by
  intro node mem inside
  unfold withNode
  split
  · exact inside
  · rename_i frame flags' entries mem' found
    have below := getOrAllocNode_data inside found
    exact dataBelow_update below (adds _ mem' (dataBelow_subset.mp below _ (index_lt level va)))

theorem setPte_data (page : pteAddr pa ∈ known) : Adds known (setPte pa flags) := by
  intro node mem inside
  cases node with
  | absent => exact Set.singleton_subset_iff.mpr page
  | page leaf => exact inside

theorem setPde_data (pages : ∀ i < tableLength, pteAddr (pteAddr pa + i * pageSize) ∈ known) :
    Adds known (setPde pa flags) := by
  intro node mem inside
  cases node with
  | absent =>
      rintro frame ⟨i, lower, rfl⟩
      exact pages i lower
  | huge leaf => exact inside
  | table frame flags entries => exact inside

end Map

section Root

variable {root : Root} {mem : Frames} {va pa stop len : Nat} {flags : Flags} {known : Set Nat}

theorem Root.entry_data (inside : root.userData ⊆ known) (user : va < 2 ^ 47) :
    (root (index 3 va)).data ⊆ known :=
  dataBelow_subset.mp inside _ (index_root_lt user)

theorem unmapRootNext_data (inside : root.userData ⊆ known) (user : va < 2 ^ 47) :
    (unmapRootNext root va stop mem).root.userData ⊆ known := by
  have entry := unmapNode_data 3 va stop (root (index 3 va)) mem (root.entry_data inside user)
  obtain ⟨below, eq⟩ : ∃ below, unmapNode 3 va stop (root (index 3 va)) mem = below := ⟨_, rfl⟩
  rw [eq] at entry
  rw [unmapRootNext_eq eq]
  exact dataBelow_update inside entry

theorem unmapRootLoop_data (fuel : Nat) (inside : root.userData ⊆ known) (le : va ≤ stop)
    (user : stop ≤ 2 ^ 47) : (unmapRootLoop stop fuel root va mem).root.userData ⊆ known := by
  induction fuel generalizing root va mem with
  | zero => exact inside
  | succ fuel inductionHypothesis =>
      by_cases done : va = stop
      · simp only [unmapRootLoop, if_pos done]
        exact inside
      · have before : va < stop := Nat.lt_of_le_of_ne le done
        have round := @unmapRootNext_data root mem va stop known inside
          (Nat.lt_of_lt_of_le before user)
        obtain ⟨after, eq⟩ : ∃ after, unmapRootNext root va stop mem = after := ⟨_, rfl⟩
        rw [eq] at round
        simp only [unmapRootLoop, if_neg done, eq]
        by_cases stuck : after.va = va
        · simp only [if_pos stuck]
          exact round
        · simp only [if_neg stuck]
          refine inductionHypothesis round ?_
          split <;> omega

theorem rootUnmap_data {after : RootWalk} (inside : root.userData ⊆ known)
    (user : va + len ≤ 2 ^ 47) (returned : rootUnmap root va len mem = some after) :
    after.root.userData ⊆ known := by
  unfold rootUnmap at returned
  split at returned
  · cases returned
    exact unmapRootLoop_data _ inside (Nat.le_add_right va len) user
  · cases returned

theorem atRootNode_data {install : Node 3 → Frames → NodeInstalled 3}
    (inside : root.userData ⊆ known) (user : va < 2 ^ 47) (adds : Adds known install) :
    (atRootNode root va mem install).root.userData ⊆ known :=
  dataBelow_update inside (adds _ mem (root.entry_data inside user))

theorem mapRoot4k_data (inside : root.userData ⊆ known) (user : va < 2 ^ 47)
    (page : pteAddr pa ∈ known) : (mapRoot4k root va pa flags mem).root.userData ⊆ known :=
  atRootNode_data inside user (withNode_data (withNode_data (withNode_data (setPte_data page))))

theorem mapRoot2m_data (inside : root.userData ⊆ known) (user : va < 2 ^ 47)
    (pages : ∀ i < tableLength, pteAddr (pteAddr pa + i * pageSize) ∈ known) :
    (mapRoot2m root va pa flags mem).root.userData ⊆ known :=
  atRootNode_data inside user (withNode_data (withNode_data (setPde_data pages)))

theorem hugePageSize_eq : hugePageSize = tableLength * pageSize := by
  unfold hugePageSize pageSize
  rw [span_succ, Nat.mul_comm]

theorem pageSize_pos : 0 < pageSize := span_pos 0

theorem pagesFrom_rest {n : Nat} :
    pagesFrom (pa + n * pageSize) (len - n * pageSize) ⊆ pagesFrom pa len := by
  rintro frame ⟨i, lower, rfl⟩
  refine ⟨n + i, ?_, ?_⟩
  · rw [Nat.add_mul]
    omega
  · rw [Nat.add_mul, Nat.add_assoc]

/-- The small pages of a huge one are pages of the range. -/
theorem pteAddr_huge_mem (aligned : pa % hugePageSize = 0) (bounded : pa + len ≤ 2 ^ 52)
    (large : hugePageSize ≤ len) (pages : pagesFrom pa len ⊆ known) :
    ∀ i < tableLength, pteAddr (pteAddr pa + i * pageSize) ∈ known := by
  intro i lower
  have inside : i * pageSize < hugePageSize := by
    rw [hugePageSize_eq]
    exact Nat.mul_lt_mul_of_pos_right lower pageSize_pos
  have whole : (pa + i * pageSize) % pageSize = 0 := by
    rw [Nat.add_mul_mod_self_right]
    exact Nat.mod_eq_zero_of_dvd (Nat.dvd_trans (hugePageSize_eq ▸ Nat.dvd_mul_left _ _)
      (Nat.dvd_of_mod_eq_zero aligned))
  rw [pteAddr_of_huge aligned (by omega), pteAddr_of_aligned whole (by omega)]
  exact pages ⟨i, by omega, rfl⟩

theorem mapRootLoop_data (fuel : Nat) (inside : root.userData ⊆ known)
    (physical : pa % pageSize = 0) (whole : len % pageSize = 0) (user : va + len ≤ 2 ^ 47)
    (bounded : pa + len ≤ 2 ^ 52) (pages : pagesFrom pa len ⊆ known) :
    (mapRootLoop flags fuel root va pa len mem).root.userData ⊆ known := by
  induction fuel generalizing root va pa len mem with
  | zero => exact inside
  | succ fuel inductionHypothesis =>
      unfold mapRootLoop
      by_cases empty : len = 0
      · rw [if_pos empty]
        exact inside
      · rw [if_neg empty]
        have positive : pageSize ≤ len :=
          Nat.le_of_dvd (Nat.pos_of_ne_zero empty) (Nat.dvd_of_mod_eq_zero whole)
        have page := pageSize_pos
        split
        · rename_i huge
          simp only [canUseHuge, Bool.and_eq_true, decide_eq_true_eq] at huge
          have large := huge.1.1
          have round := @mapRoot2m_data root mem va pa flags known inside (by omega)
            (pteAddr_huge_mem huge.2 bounded large pages)
          have rest := @pagesFrom_rest pa len tableLength
          rw [← hugePageSize_eq] at rest
          dsimp only
          split
          · refine inductionHypothesis round ?_ ?_ (by omega) (by omega) (rest.trans pages)
            · rw [hugePageSize_eq, Nat.add_mul_mod_self_right]
              exact physical
            · exact Nat.mod_eq_zero_of_dvd (Nat.dvd_sub (Nat.dvd_of_mod_eq_zero whole)
                (span_dvd (Nat.zero_le 1)))
          · exact round
        · have first : pteAddr pa ∈ known := by
            rw [pteAddr_of_aligned physical (by omega)]
            exact pages ⟨0, by omega, by omega⟩
          have round := @mapRoot4k_data root mem va pa flags known inside (by omega) first
          have rest := @pagesFrom_rest pa len 1
          rw [Nat.one_mul] at rest
          dsimp only
          split
          · refine inductionHypothesis round ?_ ?_ (by omega) (by omega) (rest.trans pages)
            · rw [Nat.add_mod_right]
              exact physical
            · exact Nat.mod_eq_zero_of_dvd (Nat.dvd_sub (Nat.dvd_of_mod_eq_zero whole)
                (Nat.dvd_refl _))
          · exact round

/-- A call maps pages of its range in addition, if any. -/
theorem rootMap_data {after : RootWalk} (inside : root.userData ⊆ known)
    (range : MapRange va pa len) (pages : pagesFrom pa len ⊆ known)
    (returned : rootMap root va pa len flags mem = some after) : after.root.userData ⊆ known := by
  have loop := @mapRootLoop_data root mem va pa len flags known (len / pageSize) inside
    range.physical range.whole range.user range.bounded pages
  have keeps := (@mapRootLoop_keeps root mem va pa len flags (len / pageSize) range.whole
    range.user).2
  unfold rootMap at returned
  split at returned
  · split at returned
    · cases returned
      exact inside
    · dsimp only at returned
      split at returned
      · cases returned
        exact loop
      · obtain ⟨undone, unmapped, rfl⟩ := Option.map_eq_some_iff.mp returned
        have user := range.user
        have reached : va + ((mapRootLoop flags (len / pageSize) root va pa len mem).paCur - pa) ≤
            2 ^ 47 := by omega
        have back := rootUnmap_data loop reached unmapped
        exact back
  · cases returned

end Root

end Opal.PageTable
