import Opal.PageTable.Destroy
import Opal.Library.Outcome

/-!
# The life of a page table

A page table starts as a copy of the kernel's, calls change its user half, and in between the rest
of the kernel uses the allocator and changes the kernel half.  A frame is in one place at a time:
it is free, a table or the root of the page table, a table of the kernel half, or held elsewhere.
-/

namespace Opal.PageTable

attribute [local irreducible] tableLength

section World

/-- A page table and the rest of the kernel, of which only the frames it holds matter. -/
structure World where
  space : Space
  mem : Frames
  held : Multiset Nat

/-- The frames of the root and of the tables of the user half. -/
def World.own (s : World) : Multiset Nat := s.space.frame ::ₘ s.space.root.userFrames

inductive Call where
  | map (va pa len : Nat) (flags : Flags)
  | unmap (va len : Nat)
  /-- The rest of the kernel. -/
  | others (mem : Frames) (held : Multiset Nat) (kernel : Root)

/-- The kernel half is shared, so it changes behind the back of the page table. -/
def Root.withKernel (root kernel : Root) : Root := fun i => if i < 256 then root i else kernel i

def World.walked (s : World) : Option RootWalk → Except Unit World
  | none => .error ()
  | some after => .ok { s with space := { s.space with root := after.root }, mem := after.mem }

def exec (s : World) : Call → Except Unit World
  | .map va pa len flags => s.walked (rootMap s.space.root va pa len flags s.mem)
  | .unmap va len => s.walked (rootUnmap s.space.root va len s.mem)
  | .others mem held kernel => .ok {
      space := { s.space with root := s.space.root.withKernel kernel }, mem := mem, held := held }

/-- The rest of the kernel moves frames that are free or its own, and frees no metadata. -/
structure Elsewhere (s : World) (mem : Frames) (held : Multiset Nat) (kernel : Root) : Prop where
  conserved : mem.pool + held + kernel.kernelFrames ≤
    s.mem.pool + s.held + s.space.root.kernelFrames
  plain : Plain mem mem.pool
  metadata : mem.metadata = s.mem.metadata

/-- No frame that the allocator may hand out is mapped. -/
def NoneMapped (s : World) : Prop :=
  ∀ frame ∈ s.mem.pool, Answers s.mem frame → frame ∉ s.space.root.userData

/-- Ranges of the user half; the pages to be mapped are neither free nor tables. -/
def Admits (s : World) : Call → Prop
  | .map va pa len _ => MapRange va pa len ∧ NoneMapped s ∧
      ∀ frame ∈ pagesFrom pa len, frame ∉ s.mem.pool + s.own
  | .unmap va len => UserRange va len ∧ NoneMapped s
  | .others mem held kernel => Elsewhere s mem held kernel

/-- A page table right after `pagetable_create`.  The kernel maps nothing in its user half. -/
structure Created (kptbl : Root) (mem : Frames) (s : World) : Prop where
  returned : pagetableCreate kptbl mem = (some s.space, s.mem)
  user : ∀ i < 256, kptbl i = .absent
  nodup : (mem.pool + s.held + kptbl.kernelFrames).Nodup
  plain : Plain mem mem.pool

end World

section Invariant

variable {s : World} {kptbl root : Root} {mem : Frames}

/-- Every frame has one place, none of the tables holds metadata, and no table is mapped. -/
structure Owned (s : World) : Prop where
  nodup : (s.mem.pool + s.held + s.space.root.kernelFrames + s.own).Nodup
  plain : Plain s.mem (s.mem.pool + s.space.root.userFrames)
  apart : ∀ frame ∈ s.space.root.userData, frame ∉ s.own

theorem userFrames_of_absent (user : ∀ i < 256, root i = .absent) : root.userFrames = 0 := by
  unfold Root.userFrames framesBelow
  refine Finset.sum_eq_zero fun i member => ?_
  rw [user i (Finset.mem_range.mp member)]
  rfl

theorem userData_of_absent (user : ∀ i < 256, root i = .absent) : root.userData = ∅ := by
  refine Set.subset_empty_iff.mp (dataBelow_subset.mpr fun i lower => ?_)
  rw [user i lower]
  exact Set.empty_subset ∅

theorem Created.owned (created : Created kptbl mem s) : Owned s := by
  have keeps := @mmAllocPage_keeps mem
  have returned := created.returned
  unfold pagetableCreate pagetableClone at returned
  obtain ⟨⟨answer, mem'⟩, eq⟩ : ∃ answer, mmAllocPage mem = answer := ⟨_, rfl⟩
  rw [eq] at keeps returned
  cases answer with
  | none => cases returned
  | some frame =>
      obtain ⟨space, mem, held⟩ := s
      cases returned
      have tables := userFrames_of_absent created.user
      have total : mem.pool + {frame} ≤ _ := keeps.total
      rw [add_zero] at total
      constructor
      · refine Multiset.nodup_of_le ?_ created.nodup
        unfold World.own
        simp only [tables, Multiset.cons_zero]
        calc mem.pool + held + kptbl.kernelFrames + {frame}
            = mem.pool + {frame} + (held + kptbl.kernelFrames) := by ac_rfl
          _ ≤ _ + (held + kptbl.kernelFrames) := Multiset.add_le_add_right total
          _ = _ := (add_assoc _ _ _).symm
      · intro other member
        simp only [tables, add_zero] at member
        rw [keeps.metadata]
        exact created.plain other
          (Multiset.mem_of_le ((Multiset.le_add_right _ _).trans total) member)
      · intro other mapped
        simp only [userData_of_absent created.user] at mapped
        exact absurd mapped (Set.notMem_empty other)

/-- A call keeps the invariant when it makes no frames and maps only known and new pages. -/
theorem Owned.of_keeps {new : Set Nat} (owned : Owned s)
    (keeps : RootKeeps s.space.root s.mem root mem)
    (data : root.userData ⊆ s.space.root.userData ∪ new) (none : NoneMapped s)
    (foreign : ∀ frame ∈ new, frame ∉ s.mem.pool + s.own) :
    Owned { s with space := { s.space with root := root }, mem := mem } := by
  have total : mem.pool + root.userFrames ≤ s.mem.pool + s.space.root.userFrames :=
    keeps.user.total
  constructor
  · refine Multiset.nodup_of_le ?_ owned.nodup
    unfold World.own
    simp only [keeps.kernelFrames, ← Multiset.singleton_add]
    calc mem.pool + s.held + s.space.root.kernelFrames + ({s.space.frame} + root.userFrames)
        = mem.pool + root.userFrames + (s.held + s.space.root.kernelFrames + {s.space.frame}) := by
          ac_rfl
      _ ≤ s.mem.pool + s.space.root.userFrames +
            (s.held + s.space.root.kernelFrames + {s.space.frame}) :=
          Multiset.add_le_add_right total
      _ = _ := by ac_rfl
  · intro frame member
    show mem.metadata frame = false
    rw [keeps.user.metadata]
    exact owned.plain frame (Multiset.mem_of_le total member)
  · intro frame mapped member
    rcases data mapped with old | added
    · rcases Multiset.mem_cons.mp member with same | table
      · exact owned.apart frame old (Multiset.mem_cons.mpr (.inl same))
      have before := Multiset.mem_of_le total (Multiset.mem_add.mpr (.inr table))
      rcases Multiset.mem_add.mp before with free | kept
      · rcases keeps.user.taken frame table with kept | answers
        · exact owned.apart frame old (Multiset.mem_cons.mpr (.inr kept))
        · exact none frame free answers old
      · exact owned.apart frame old (Multiset.mem_cons.mpr (.inr kept))
    · apply foreign frame added
      rcases Multiset.mem_cons.mp member with same | table
      · exact Multiset.mem_add.mpr (.inr (Multiset.mem_cons.mpr (.inl same)))
      have before := Multiset.mem_of_le total (Multiset.mem_add.mpr (.inr table))
      rcases Multiset.mem_add.mp before with free | kept
      · exact Multiset.mem_add.mpr (.inl free)
      · exact Multiset.mem_add.mpr (.inr (Multiset.mem_cons.mpr (.inr kept)))

section Others

variable {kernel : Root}

theorem userFrames_withKernel : (root.withKernel kernel).userFrames = root.userFrames := by
  unfold Root.userFrames framesBelow
  refine Finset.sum_congr rfl fun i member => ?_
  rw [Root.withKernel, if_pos (Finset.mem_range.mp member)]

theorem kernelFrames_withKernel : (root.withKernel kernel).kernelFrames = kernel.kernelFrames := by
  have same : (fun i => root.withKernel kernel (256 + i)) = fun i => kernel (256 + i) := by
    funext i
    exact if_neg (Nat.not_lt.mpr (Nat.le_add_right 256 i))
  unfold Root.kernelFrames
  rw [same]

theorem userData_withKernel : (root.withKernel kernel).userData ⊆ root.userData := by
  refine dataBelow_subset.mpr fun i lower => ?_
  rw [Root.withKernel, if_pos lower]
  exact dataBelow_subset.mp (Set.Subset.refl _) i lower

theorem Owned.others {held : Multiset Nat} (owned : Owned s)
    (elsewhere : Elsewhere s mem held kernel) : Owned {
      space := { s.space with root := s.space.root.withKernel kernel }
      mem := mem, held := held } where
  nodup := by
    refine Multiset.nodup_of_le ?_ owned.nodup
    unfold World.own
    simp only [kernelFrames_withKernel, userFrames_withKernel]
    exact Multiset.add_le_add_right elsewhere.conserved
  plain := by
    intro frame member
    simp only [userFrames_withKernel] at member
    rcases Multiset.mem_add.mp member with free | table
    · exact elsewhere.plain frame free
    · show mem.metadata frame = false
      rw [elsewhere.metadata]
      exact owned.plain frame (Multiset.mem_add.mpr (.inr table))
  apart := by
    intro frame mapped member
    unfold World.own at member
    simp only [userFrames_withKernel] at member
    exact owned.apart frame (userData_withKernel mapped) member

end Others

theorem Owned.walked {answer : Option RootWalk} {new : Set Nat} (owned : Owned s)
    (none : NoneMapped s) (foreign : ∀ frame ∈ new, frame ∉ s.mem.pool + s.own)
    (steps : ∀ after, answer = some after → RootKeeps s.space.root s.mem after.root after.mem ∧
      after.root.userData ⊆ s.space.root.userData ∪ new) :
    Ensures (fun _ => True) Owned (s.walked answer) := by
  cases answer with
  | none => exact trivial
  | some after =>
      obtain ⟨keeps, data⟩ := steps after rfl
      exact owned.of_keeps keeps data none foreign

theorem exec_owned {call : Call} (owned : Owned s) (admitted : Admits s call) :
    Ensures (fun _ => True) Owned (exec s call) := by
  cases call with
  | map va pa len flags =>
      obtain ⟨range, none, foreign⟩ := admitted
      simp only [exec]
      refine owned.walked none foreign fun after returned => ⟨rootMap_keeps range.user returned, ?_⟩
      exact rootMap_data Set.subset_union_left range Set.subset_union_right returned
  | unmap va len =>
      obtain ⟨range, none⟩ := admitted
      simp only [exec]
      refine @Owned.walked _ _ ∅ owned none (fun frame absent => ?_) fun after returned =>
        ⟨rootUnmap_keeps range.user returned, ?_⟩
      · exact absurd absent (Set.notMem_empty frame)
      · exact rootUnmap_data Set.subset_union_left range.user returned
  | others mem held kernel => exact owned.others admitted

/-- Destroying a page table in whatever state calls have left it returns the frames of the root and
of the tables of the user half, each once, and no frame that is mapped or a table of the kernel. -/
theorem pagetableDestroy_returns {init : World} (created : Created kptbl mem init)
    (reached : Reaches exec Admits init s) :
    ∃ after, pagetableDestroy s.space s.mem = some after ∧
      after.freed = s.own + s.mem.freed ∧ after.pool = s.own + s.mem.pool ∧ s.own.Nodup ∧
      (∀ frame ∈ s.space.root.userData, frame ∉ s.own) ∧
      ∀ frame ∈ s.space.root.kernelFrames, frame ∉ s.own := by
  have owned : Owned s :=
    reached.invariant created.owned fun _ _ owned admitted => exec_owned owned admitted
  have plain : Plain s.mem s.space.root.userFrames :=
    owned.plain.mono (Multiset.le_add_left _ _)
  obtain ⟨after, returned, frees⟩ := @pagetableDestroy_frees s.mem s.space plain
  have places := Multiset.nodup_add.mp owned.nodup
  refine ⟨after, returned, frees.freed, frees.pool, places.2.1, owned.apart, ?_⟩
  intro frame kernel member
  exact Multiset.disjoint_left.mp places.2.2 (Multiset.mem_add.mpr (.inr kernel)) member

end Invariant

section Example

variable {s : World}

/-- A kernel half with one table. -/
def kernelRoot : Root := fun i =>
  if i = 256 then .table 0x9000 userFlags fun _ => .absent else .absent

def booted : Frames where
  pool := {0x1000, 0x2000, 0x3000, 0x4000, 0x5000}
  answers := fun n => some (0x1000 * (n + 1))
  freed := 0
  metadata := fun _ => false

def created : World where
  space := { frame := 0x1000, root := kernelRoot }
  mem := (mmAllocPage booted).2
  held := 0

theorem kernelFrames_kernelRoot : kernelRoot.kernelFrames = {0x9000} := by
  have empty : framesBelow (fun _ => (.absent : Node 2)) tableLength = 0 := framesBelow_absent
  unfold Root.kernelFrames framesBelow
  rw [Finset.sum_eq_single 0]
  · show Node.frames (Node.table 0x9000 userFlags fun _ => .absent) = {0x9000}
    rw [Node.frames_table, empty]
    rfl
  · intro i _ other
    have differs : ¬ 256 + i = 256 := by omega
    simp only [kernelRoot, if_neg differs]
    rfl
  · intro absent
    exact absurd (Finset.mem_range.mpr (by decide)) absent

theorem user_kernelRoot : ∀ i < 256, kernelRoot i = .absent := fun _ lower =>
  if_neg (Nat.ne_of_lt lower)

theorem created_created : Created kernelRoot booted created where
  returned := by
    have answered : (mmAllocPage booted).1 = some 0x1000 := by decide +kernel
    have eq : mmAllocPage booted = (some 0x1000, created.mem) := Prod.ext answered rfl
    unfold pagetableCreate pagetableClone
    rw [eq]
    rfl
  user := user_kernelRoot
  nodup := by
    rw [kernelFrames_kernelRoot]
    decide +kernel
  plain := fun _ _ => rfl

theorem noneMapped_of_absent (user : ∀ i < 256, s.space.root i = .absent) : NoneMapped s := by
  intro frame _ _
  rw [userData_of_absent user]
  exact Set.notMem_empty frame

theorem created_places : created.mem.pool + created.own =
    {0x2000, 0x3000, 0x4000, 0x5000, 0x1000} := by
  have tables : created.space.root.userFrames = 0 := userFrames_of_absent user_kernelRoot
  unfold World.own
  rw [tables]
  decide +kernel

theorem created_admits : Admits created (.map 0x200000 0x100000 0x1000 userFlags) := by
  refine ⟨onePage_range, noneMapped_of_absent user_kernelRoot, ?_⟩
  rw [created_places]
  rintro frame ⟨i, lower, rfl⟩
  have only : i = 0 := by
    unfold pageSize span at lower
    omega
  subst only
  decide +kernel

theorem pagetableDestroy_returns_onePage : ∃ s after, Reaches exec Admits created s ∧
    pagetableDestroy s.space s.mem = some after ∧ after.freed = s.own + s.mem.freed := by
  have ok : (mapRootLoop userFlags 1 kernelRoot 0x200000 0x100000 0x1000
      created.mem).ok = true := by decide +kernel
  have returned : rootMap kernelRoot 0x200000 0x100000 0x1000 userFlags created.mem = some {
      root := (mapRootLoop userFlags 1 kernelRoot 0x200000 0x100000 0x1000 created.mem).root
      va := (mapRootLoop userFlags 1 kernelRoot 0x200000 0x100000 0x1000 created.mem).vaCur
      mem := (mapRootLoop userFlags 1 kernelRoot 0x200000 0x100000 0x1000 created.mem).mem } := by
    have rounds : 0x1000 / pageSize = 1 := by decide
    unfold rootMap
    rw [if_pos (by decide), if_neg (by decide), rounds]
    exact if_pos ok
  have step : exec created (.map 0x200000 0x100000 0x1000 userFlags) = created.walked (some _) :=
    congrArg created.walked returned
  have reached := Reaches.start.step created_admits step
  obtain ⟨after, destroyed, freed, -⟩ := pagetableDestroy_returns created_created reached
  exact ⟨_, after, reached, destroyed, freed⟩

end Example

end Opal.PageTable
