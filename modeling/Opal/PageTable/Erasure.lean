import Opal.PageTable.Lifetime

/-!
# Page tables without the frames of their tables

Where the frames are forgotten, the walkers of `Frames` are those of `Operations`, for the
answers that the allocator gave and as long as every table can be given back.  So the page
tables that calls lead to are the ones that the results about lookups speak of.
-/

namespace Opal.PageTable

attribute [local irreducible] tableLength

section Entries

variable {level : Nat}

/-- The entry without the frames of the tables. -/
def Node.erase : {level : Nat} → Node level → Entry level
  | _, .absent => .absent
  | _, .page leaf => .page leaf
  | _, .huge leaf => .huge leaf
  | _, .table _ flags entries => .table flags fun i => (entries i).erase

/-- The user half of a root without the frames of the tables. -/
def Root.erase (root : Root) : Pagetable := fun i => if i < 256 then (root i).erase else .absent

def RootWalk.erase (walk : RootWalk) (mem : AllocOracle) : Walk where
  ptbl := walk.root.erase
  va := walk.va
  mem := mem

def RootProgress.erase (progress : RootProgress) (mem : AllocOracle) : Progress where
  ptbl := progress.root.erase
  vaCur := progress.vaCur
  paCur := progress.paCur
  ok := progress.ok
  mem := mem

theorem erase_update {entries : Nat → Node level} {i : Nat} {node : Node level} :
    (fun j => (Function.update entries i node j).erase) =
      Function.update (fun j => (entries j).erase) i node.erase := by
  funext j
  exact Function.apply_update (fun _ => Node.erase) entries i node j

theorem Root.erase_update {root : Root} {i : Nat} {node : Node 3} (lower : i < 256) :
    Root.erase (Function.update root i node) = Function.update root.erase i node.erase := by
  funext j
  by_cases own : j = i
  · subst own
    rw [Root.erase, if_pos lower, Function.update_self, Function.update_self]
  · rw [Function.update_of_ne own, Root.erase, Root.erase, Function.update_of_ne own]

theorem erase_withKernel {root kernel : Root} : (root.withKernel kernel).erase = root.erase := by
  funext i
  unfold Root.erase Root.withKernel
  by_cases user : i < 256
  · rw [if_pos user, if_pos user, if_pos user]
  · rw [if_neg user, if_neg user]

end Entries

section Sane

variable {mem mem' : Frames} {before after : Multiset Nat}

/-- Every table can be given back: no frame of the pool or of these holds metadata. -/
def Sane (mem : Frames) (frames : Multiset Nat) : Prop := Plain mem (mem.pool + frames)

theorem Sane.mono (sane : Sane mem before) (le : after ≤ before) : Sane mem after :=
  Plain.mono sane (Multiset.add_le_add_left le)

theorem Sane.plain (sane : Sane mem before) : Plain mem before :=
  Plain.mono sane (Multiset.le_add_left _ _)

theorem Sane.keeps (sane : Sane mem before) (keeps : Keeps mem before mem' after) :
    Sane mem' after := by
  intro frame member
  rw [keeps.metadata]
  exact sane frame (Multiset.mem_of_le keeps.total member)

end Sane

section Unmap

variable {level va stop len : Nat} {root : Root} {mem : Frames}

/-- Without the frames the one step is the other; `rest` are the answers left to it. -/
def UnmapErases (unmap : Node level → Frames → NodeUnmapped level)
    (unmap' : Entry level → AllocOracle → Unmapped level) : Prop :=
  ∀ node mem rest, Sane mem node.frames → ∃ oracle, unmap' node.erase oracle =
    { entry := (unmap node mem).node.erase, next := (unmap node mem).next, mem := rest }

theorem expandNode_some {leaf : Page} {mem' : Frames} {frame : Nat} {flags : Flags}
    {entries : Nat → Node 0}
    (expanded : expandNode leaf mem = (some (frame, flags, entries), mem')) :
    flags = leaf.flags ∧ entries = expandedEntries leaf := by
  unfold expandNode at expanded
  split at expanded
  · cases expanded
  · cases expanded
    exact ⟨rfl, rfl⟩

theorem unmapNodeBelow_erases {unmap : Node level → Frames → NodeUnmapped level}
    {unmap' : Entry level → AllocOracle → Unmapped level} (erases : UnmapErases unmap unmap') :
    UnmapErases (unmapNodeBelow va unmap) (unmapBelow va unmap') := by
  intro node mem rest sane
  cases node with
  | absent => exact ⟨rest, rfl⟩
  | huge leaf =>
      have keeps := @expandNode_keeps mem leaf
      obtain ⟨⟨answer, mem'⟩, eq⟩ : ∃ answer, expandNode leaf mem = answer := ⟨_, rfl⟩
      rw [eq] at keeps
      cases answer with
      | none =>
          refine ⟨Stream'.cons false rest, ?_⟩
          simp only [unmapNodeBelow, eq]
          rfl
      | some table =>
          obtain ⟨frame, flags, entries⟩ := table
          obtain ⟨rfl, rfl⟩ := expandNode_some eq
          have sane' : Sane mem' (expandedEntries leaf (index 0 va)).frames := by
            refine (sane.keeps keeps).mono ?_
            exact (frames_le_framesBelow (index_lt _ _)).trans (Multiset.le_cons_self _ _)
          obtain ⟨oracle, same⟩ := erases _ mem' rest sane'
          refine ⟨Stream'.cons true oracle, ?_⟩
          have page : (expandedEntries leaf (index 0 va)).erase = .page
              { addr := pteAddr (leaf.addr + index 0 va * pageSize), flags := leaf.flags } := rfl
          rw [page] at same
          simp only [unmapNodeBelow, eq, Node.erase, erase_update, unmapBelow, Stream'.head_cons,
            Stream'.tail_cons, if_true, expandHugepage, same]
          rfl
  | table frame flags entries =>
      have below : (entries (index level va)).frames ≤ (Node.table frame flags entries).frames :=
        (frames_le_framesBelow (index_lt _ _)).trans (Multiset.le_cons_self _ _)
      obtain ⟨oracle, same⟩ := erases _ mem rest (sane.mono below)
      refine ⟨oracle, ?_⟩
      simp only [Node.erase, unmapBelow, unmapNodeBelow, same, erase_update]

theorem unmapNode_erases (level va stop : Nat) :
    UnmapErases (unmapNode level va stop) (unmapEntry level va stop) := by
  induction level with
  | zero =>
      intro node mem rest sane
      exact ⟨rest, rfl⟩
  | succ level inductionHypothesis =>
      intro node mem rest sane
      by_cases fits : va + span (level + 1) ≤ stop
      · obtain ⟨mem', -, cleared⟩ :=
          @unmapNode_frees level va stop mem node fits sane.plain
        refine ⟨rest, ?_⟩
        rw [cleared]
        simp only [unmapEntry, if_pos fits, unmapBelow, Node.erase]
      · simp only [unmapNode, unmapEntry, if_neg fits]
        exact unmapNodeBelow_erases inductionHypothesis node mem rest sane

theorem unmapRootNext_erases (user : va < 2 ^ 47) (sane : Sane mem root.userFrames)
    (rest : AllocOracle) : ∃ oracle, unmapNext root.erase va stop oracle =
      (unmapRootNext root va stop mem).erase rest := by
  have lower := index_root_lt user
  have here : root.erase (index 3 va) = (root (index 3 va)).erase := if_pos lower
  obtain ⟨oracle, same⟩ := unmapNode_erases 3 va stop (root (index 3 va)) mem rest
    (sane.mono (frames_le_framesBelow lower))
  obtain ⟨below, eq⟩ : ∃ below, unmapNode 3 va stop (root (index 3 va)) mem = below := ⟨_, rfl⟩
  rw [eq] at same
  refine ⟨oracle, ?_⟩
  rw [unmapRootNext_eq eq, unmapNext, here, same]
  exact congrArg (fun ptbl => Walk.mk ptbl below.next rest) (Root.erase_update lower).symm

theorem unmapRootLoop_erases (fuel : Nat) (le : va ≤ stop) (user : stop ≤ 2 ^ 47)
    (sane : Sane mem root.userFrames) (rest : AllocOracle) :
    ∃ oracle, unmapLoop stop fuel root.erase va oracle =
      (unmapRootLoop stop fuel root va mem).erase rest := by
  induction fuel generalizing root va mem with
  | zero => exact ⟨rest, rfl⟩
  | succ fuel inductionHypothesis =>
      by_cases done : va = stop
      · refine ⟨rest, ?_⟩
        simp only [unmapLoop, unmapRootLoop, if_pos done, RootWalk.erase]
      · have user' : va < 2 ^ 47 := by omega
        have keeps := (@unmapRootNext_keeps root mem va stop user').user
        have erased := @unmapRootNext_erases va stop root mem user' sane
        obtain ⟨after, eq⟩ : ∃ after, unmapRootNext root va stop mem = after := ⟨_, rfl⟩
        rw [eq] at keeps erased
        by_cases stuck : after.va = va
        · obtain ⟨oracle, same⟩ := erased rest
          refine ⟨oracle, ?_⟩
          simp only [unmapLoop, unmapRootLoop, if_neg done, same, eq, RootWalk.erase,
            if_pos stuck]
        · have inside : (if stop = 0 ∨ after.va < stop then after.va else stop) ≤ stop := by
            split <;> omega
          obtain ⟨later, loop⟩ := inductionHypothesis inside (sane.keeps keeps)
          obtain ⟨oracle, same⟩ := erased later
          refine ⟨oracle, ?_⟩
          simp only [unmapLoop, unmapRootLoop, if_neg done, same, eq, RootWalk.erase,
            if_neg stuck]
          exact loop

/-- `pagetable_unmap` does not depend on where the tables lie. -/
theorem rootUnmap_erases (user : va + len ≤ 2 ^ 47) (sane : Sane mem root.userFrames)
    (rest : AllocOracle) : ∃ oracle, pagetableUnmap root.erase va len oracle =
      (rootUnmap root va len mem).map fun after => after.erase rest := by
  unfold pagetableUnmap rootUnmap
  split
  · obtain ⟨oracle, same⟩ :=
      unmapRootLoop_erases (len / pageSize + 1) (Nat.le_add_right va len) user sane rest
    exact ⟨oracle, congrArg some same⟩
  · exact ⟨rest, rfl⟩

end Unmap

section Map

variable {level va pa len : Nat} {flags : Flags} {root : Root} {mem : Frames}

/-- Without the frames the one step is the other; `rest` are the answers left to it. -/
def MapErases (install : Node level → Frames → NodeInstalled level)
    (install' : Entry level → AllocOracle → Installed level) : Prop :=
  ∀ node mem rest, ∃ oracle, install' node.erase oracle =
    { entry := (install node mem).node.erase, ok := (install node mem).ok, mem := rest }

theorem getOrAllocNode_erases (node : Node (level + 1)) (flags : Flags) (mem : Frames)
    (rest : AllocOracle) : ∃ oracle, getOrAllocTable node.erase flags oracle =
      ((getOrAllocNode node flags mem).1.map fun table =>
        (table.2.1, fun i => (table.2.2 i).erase), rest) := by
  cases node with
  | absent =>
      obtain ⟨⟨answer, mem'⟩, eq⟩ : ∃ answer, allocatePage mem = answer := ⟨_, rfl⟩
      cases answer with
      | none =>
          refine ⟨Stream'.cons false rest, ?_⟩
          simp only [getOrAllocNode, eq]
          rfl
      | some frame =>
          refine ⟨Stream'.cons true rest, ?_⟩
          simp only [getOrAllocNode, eq]
          rfl
  | huge leaf =>
      obtain ⟨⟨answer, mem'⟩, eq⟩ : ∃ answer, allocatePage mem = answer := ⟨_, rfl⟩
      cases answer with
      | none =>
          refine ⟨Stream'.cons false rest, ?_⟩
          simp only [getOrAllocNode, expandNode, eq]
          rfl
      | some frame =>
          refine ⟨Stream'.cons true rest, ?_⟩
          simp only [getOrAllocNode, expandNode, eq]
          rfl
  | table frame flags entries => exact ⟨rest, rfl⟩

theorem withNode_erases {install : Node level → Frames → NodeInstalled level}
    {install' : Entry level → AllocOracle → Installed level} (erases : MapErases install install') :
    MapErases (withNode va flags install) (withTable va flags install') := by
  intro node mem rest
  have found := getOrAllocNode_erases node flags mem
  obtain ⟨⟨answer, mem'⟩, eq⟩ : ∃ answer, getOrAllocNode node flags mem = answer := ⟨_, rfl⟩
  rw [eq] at found
  cases answer with
  | none =>
      obtain ⟨oracle, same⟩ := found rest
      refine ⟨oracle, ?_⟩
      simp only [withNode, withTable, same, eq, Option.map_none]
  | some table =>
      obtain ⟨frame, flags', entries⟩ := table
      obtain ⟨later, below⟩ := erases (entries (index level va)) mem' rest
      obtain ⟨oracle, same⟩ := found later
      refine ⟨oracle, ?_⟩
      simp only [withNode, withTable, same, eq, Option.map_some, below, Node.erase, erase_update]

theorem setPte_erases : MapErases (setPte pa flags) (installPte pa flags) := by
  intro node mem rest
  cases node with
  | absent => exact ⟨rest, rfl⟩
  | page leaf => exact ⟨rest, rfl⟩

theorem setPde_erases : MapErases (setPde pa flags) (installPde pa flags) := by
  intro node mem rest
  cases node with
  | absent => exact ⟨rest, rfl⟩
  | huge leaf => exact ⟨rest, rfl⟩
  | table frame flags entries => exact ⟨rest, rfl⟩

theorem atRootNode_erases {install : Node 3 → Frames → NodeInstalled 3}
    {install' : Entry 3 → AllocOracle → Installed 3} (user : va < 2 ^ 47)
    (erases : MapErases install install') (rest : AllocOracle) :
    ∃ oracle, atRoot root.erase va oracle install' =
      { ptbl := (atRootNode root va mem install).root.erase
        ok := (atRootNode root va mem install).ok, mem := rest } := by
  have lower := index_root_lt user
  have here : root.erase (index 3 va) = (root (index 3 va)).erase := if_pos lower
  obtain ⟨oracle, same⟩ := erases (root (index 3 va)) mem rest
  refine ⟨oracle, ?_⟩
  simp only [atRoot, here, same, atRootNode, Root.erase_update lower]

theorem mapRoot4k_erases (user : va < 2 ^ 47) (rest : AllocOracle) :
    ∃ oracle, map4k root.erase va pa flags oracle =
      { ptbl := (mapRoot4k root va pa flags mem).root.erase
        ok := (mapRoot4k root va pa flags mem).ok, mem := rest } :=
  atRootNode_erases user (withNode_erases (withNode_erases (withNode_erases setPte_erases))) rest

theorem mapRoot2m_erases (user : va < 2 ^ 47) (rest : AllocOracle) :
    ∃ oracle, map2m root.erase va pa flags oracle =
      { ptbl := (mapRoot2m root va pa flags mem).root.erase
        ok := (mapRoot2m root va pa flags mem).ok, mem := rest } :=
  atRootNode_erases user (withNode_erases (withNode_erases setPde_erases)) rest

theorem mapRootLoop_erases (fuel : Nat) (whole : len % pageSize = 0) (user : va + len ≤ 2 ^ 47)
    (rest : AllocOracle) : ∃ oracle, mapLoop flags fuel root.erase va pa len oracle =
      (mapRootLoop flags fuel root va pa len mem).erase rest := by
  induction fuel generalizing root va pa len mem with
  | zero => exact ⟨rest, rfl⟩
  | succ fuel inductionHypothesis =>
      by_cases empty : len = 0
      · refine ⟨rest, ?_⟩
        simp only [mapLoop, mapRootLoop, if_pos empty, RootProgress.erase]
      have positive : pageSize ≤ len :=
        Nat.le_of_dvd (Nat.pos_of_ne_zero empty) (Nat.dvd_of_mod_eq_zero whole)
      have page : 0 < pageSize := span_pos 0
      by_cases huge : canUseHuge va pa len = true
      · have erased := @mapRoot2m_erases va pa flags root mem (by omega)
        obtain ⟨round, eq⟩ : ∃ round, mapRoot2m root va pa flags mem = round := ⟨_, rfl⟩
        rw [eq] at erased
        by_cases ok : round.ok = true
        · simp only [canUseHuge, Bool.and_eq_true, decide_eq_true_eq] at huge
          have large := huge.1.1
          have whole' : (len - hugePageSize) % pageSize = 0 :=
            Nat.mod_eq_zero_of_dvd (Nat.dvd_sub (Nat.dvd_of_mod_eq_zero whole)
              (span_dvd (Nat.zero_le 1)))
          obtain ⟨later, loop⟩ := @inductionHypothesis (va + hugePageSize) (pa + hugePageSize)
            (len - hugePageSize) round.root round.mem whole' (by omega)
          obtain ⟨oracle, same⟩ := erased later
          have huge : canUseHuge va pa len = true := by
            simp only [canUseHuge, Bool.and_eq_true, decide_eq_true_eq]
            exact huge
          refine ⟨oracle, ?_⟩
          simp only [mapLoop, mapRootLoop, if_neg empty, if_pos huge, same, eq, if_pos ok]
          exact loop
        · obtain ⟨oracle, same⟩ := erased rest
          refine ⟨oracle, ?_⟩
          simp only [mapLoop, mapRootLoop, if_neg empty, if_pos huge, same, eq, if_neg ok,
            RootProgress.erase]
      · have erased := @mapRoot4k_erases va pa flags root mem (by omega)
        obtain ⟨round, eq⟩ : ∃ round, mapRoot4k root va pa flags mem = round := ⟨_, rfl⟩
        rw [eq] at erased
        by_cases ok : round.ok = true
        · have whole' : (len - pageSize) % pageSize = 0 :=
            Nat.mod_eq_zero_of_dvd (Nat.dvd_sub (Nat.dvd_of_mod_eq_zero whole) (Nat.dvd_refl _))
          obtain ⟨later, loop⟩ := @inductionHypothesis (va + pageSize) (pa + pageSize)
            (len - pageSize) round.root round.mem whole' (by omega)
          obtain ⟨oracle, same⟩ := erased later
          refine ⟨oracle, ?_⟩
          simp only [mapLoop, mapRootLoop, if_neg empty, if_neg huge, same, eq, if_pos ok]
          exact loop
        · obtain ⟨oracle, same⟩ := erased rest
          refine ⟨oracle, ?_⟩
          simp only [mapLoop, mapRootLoop, if_neg empty, if_neg huge, same, eq, if_neg ok,
            RootProgress.erase]

/-- `pagetable_map` does not depend on where the tables lie. -/
theorem rootMap_erases (user : va + len ≤ 2 ^ 47) (sane : Sane mem root.userFrames)
    (rest : AllocOracle) : ∃ oracle, pagetableMap root.erase va pa len flags oracle =
      (rootMap root va pa len flags mem).map fun after => after.erase rest := by
  unfold pagetableMap rootMap
  by_cases aligned : pa % pageSize = 0 ∧ len % pageSize = 0 ∧ va % pageSize = 0
  · simp only [if_pos aligned]
    by_cases zero : va = 0
    · refine ⟨rest, ?_⟩
      simp only [if_pos zero]
      rfl
    · obtain ⟨keeps, lower, upper⟩ :=
        @mapRootLoop_keeps root mem va pa len flags (len / pageSize) aligned.2.1 user
      have erased := @mapRootLoop_erases va pa len flags root mem (len / pageSize) aligned.2.1 user
      obtain ⟨reached, eq⟩ :
          ∃ reached, mapRootLoop flags (len / pageSize) root va pa len mem = reached := ⟨_, rfl⟩
      rw [eq] at keeps lower upper erased
      by_cases ok : reached.ok = true
      · obtain ⟨oracle, same⟩ := erased rest
        refine ⟨oracle, ?_⟩
        simp only [if_neg zero, same, eq, RootProgress.erase, if_pos ok, Option.map_some,
          RootWalk.erase]
      · have inside : va + (reached.paCur - pa) ≤ 2 ^ 47 := by omega
        obtain ⟨later, undone⟩ := rootUnmap_erases inside (sane.keeps keeps.user) rest
        obtain ⟨oracle, same⟩ := erased later
        refine ⟨oracle, ?_⟩
        simp only [if_neg zero, same, eq, RootProgress.erase, if_neg ok]
        rw [undone, Option.map_map, Option.map_map]
        rfl
  · refine ⟨rest, ?_⟩
    simp only [if_neg aligned]
    rfl

end Map

section Runs

variable {kptbl : Root} {mem : Frames} {init s : World}

theorem walked_reachable {answer : Option RootWalk}
    (steps : ∀ after, answer = some after → Reachable after.root.erase) :
    Ensures (fun _ => True) (fun after => Reachable after.space.root.erase) (s.walked answer) := by
  cases answer with
  | none => exact trivial
  | some after => exact steps after rfl

theorem exec_reachable {call : Call} (owned : Owned s) (reachable : Reachable s.space.root.erase)
    (admitted : Admits s call) :
    Ensures (fun _ => True) (fun after => Reachable after.space.root.erase) (exec s call) := by
  cases call with
  | map va pa len flags =>
      obtain ⟨range, -, -⟩ := admitted
      obtain ⟨oracle, same⟩ := @rootMap_erases va pa len flags _ _ range.user owned.plain .always
      simp only [exec]
      refine walked_reachable fun after mapped => ?_
      rw [mapped] at same
      exact reachable.map range same
  | unmap va len =>
      obtain ⟨range, -⟩ := admitted
      obtain ⟨oracle, same⟩ := @rootUnmap_erases va len _ _ range.user owned.plain .always
      simp only [exec]
      refine walked_reachable fun after unmapped => ?_
      rw [unmapped] at same
      exact reachable.unmap range same
  | others mem held kernel =>
      show Reachable (s.space.root.withKernel kernel).erase
      rw [erase_withKernel]
      exact reachable

/-- Without its frames, a page table that calls lead to is one of those that the results about
lookups speak of. -/
theorem reachable_of_reaches (created : Created kptbl mem init)
    (reached : Reaches exec Admits init s) : Reachable s.space.root.erase := by
  have empty : Reachable init.space.root.erase := by
    have returned := created.returned
    unfold pagetableCreate pagetableClone at returned
    split at returned
    · cases returned
    · refine .start fun i user => ?_
      have same : init.space.root = kptbl := by
        have first := congrArg Prod.fst returned
        exact (congrArg Space.root (Option.some.inj first)).symm
      rw [Root.erase, if_pos user, same, created.user i user]
      rfl
  have both : Owned s ∧ Reachable s.space.root.erase := by
    induction reached with
    | start => exact ⟨created.owned, empty⟩
    | step _ admitted returned both =>
        have owned := exec_owned both.1 admitted
        exact (owned.and (exec_reachable both.1 both.2 admitted)).of_ok returned
  exact both.2

end Runs

end Opal.PageTable
