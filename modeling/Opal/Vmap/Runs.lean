import Opal.Vmap.Partition

/-!
# Runs of the vmap calls

Every call keeps the partition.  The only assertions that can fail are the one on a request
that wraps around and, where an entry more than the array has is needed, the one on its
length.
-/

namespace Opal.Vmap

open Library

variable {Table : Type} {paging : Paging Table} {vmap : Vmap Table} {spans : List Range}

section Calls

theorem alignFloor_mod (x : Nat) : alignFloor x % pageSize = 0 := Nat.mul_mod_left _ _

theorem alignCeil_mod (x : Nat) : alignCeil x % pageSize = 0 := Nat.mul_mod_left _ _

/-- The size that is mapped is made of whole pages. -/
theorem alignedSize_mod (pa x : Nat) :
    (alignCeil x + (wordSize - alignFloor pa)) % wordSize % pageSize = 0 := by
  have start := alignFloor_mod pa
  have stop := alignCeil_mod x
  have word : wordSize = 4503599627370496 * pageSize := by decide
  rw [word, Nat.mod_mul_left_mod]
  unfold pageSize at *
  omega

/-- What `mm_vmap_alloc` returns is a new outstanding span. -/
theorem mmVmapAlloc_spec (partition : Partition vmap.entries spans) (pa size : Nat) :
    Ensures (fun stop => stop = .overflow) (fun done =>
      Partition done.1.entries ((done.2.map Mapping.span).toList ++ spans))
      (mmVmapAlloc paging vmap pa size) := by
  unfold mmVmapAlloc
  split
  · exact partition
  · unfold kassert
    dsimp only
    split
    · rw [ok_bind]
      split
      · exact partition
      · rename_i nonzero
        have taken := takeRange_spec partition (Nat.pos_of_ne_zero nonzero)
          (alignedSize_mod pa ((pa + size) % wordSize))
        refine (taken.tolerate fun _ impossible => impossible.elim).bind fun result found => ?_
        cases result with
        | none => exact partition
        | some result => exact found result rfl
    · exact rfl

/-- A span that is outstanding is freed. -/
theorem mmVmapFree_spec {s : Range} (partition : Partition vmap.entries (s :: spans)) :
    Ensures (fun stop => stop = .full ∧ TooMany vmap.entries s)
      (fun after => Partition after.entries spans) (mmVmapFree paging vmap s) := by
  have paged := partition.pagedSpans s List.mem_cons_self
  have inside := partition.inside (List.mem_append_right _ List.mem_cons_self)
  have positive := paged.positive
  have stop : s.stop = s.addr + s.len := rfl
  have nonzero : ¬(s.addr = 0 ∨ s.len = 0) := by
    unfold vmapStart at inside
    omega
  unfold mmVmapFree kassert
  rw [if_neg nonzero, if_pos paged.addr, if_pos paged.len, if_pos (by omega), if_pos (by omega)]
  exact (giveRange_spec partition).bind fun entries kept => kept

end Calls

section Runs

variable {world : World Table}

/-- The assertions that may fail: a request wraps around, or a span that is freed needs an
entry that the array does not have. -/
def Tolerated (world : World Table) : Call → Stop → Prop
  | .alloc _ _, stop => stop = .overflow
  | .free held, stop => stop = .full ∧ TooMany world.vmap.entries held.2.span

/-- The books of the allocator. -/
def Sound (world : World Table) : Prop := Partition world.vmap.entries world.spans

theorem init_sound {ptbl : Table} : Sound (World.init ptbl) := partition_initialEntries

theorem step_sound (partition : Sound world) (call : Call) (admitted : Admits world call) :
    Ensures (Tolerated world call) Sound (step paging world call) := by
  cases call with
  | alloc pa size =>
      refine (mmVmapAlloc_spec partition pa size).bind fun done kept => ?_
      obtain ⟨vmap, result⟩ := done
      cases result with
      | none => exact kept
      | some mapping => exact kept
  | free held =>
      have taken := (List.perm_cons_erase admitted).map fun held => held.2.span
      exact (mmVmapFree_spec (partition.perm taken)).bind fun vmap kept => kept

/-- The free entries and the outstanding spans partition the area in every state that is
reached, and no call fails an assertion beyond those tolerated. -/
theorem reached_partition (paging : Paging Table) (ptbl : Table) {world : World Table}
    (reached : Reaches (step paging) Admits (World.init ptbl) world) :
    Sound world ∧ ∀ call, Admits world call →
      Ensures (Tolerated world call) Sound (step paging world call) := by
  have preserved : ∀ (before : World Table) call, Sound before → Admits before call →
      Ensures (fun _ => True) Sound (step paging before call) :=
    fun before call sound admitted =>
      (step_sound sound call admitted).tolerate fun _ _ => trivial
  have sound : Sound world := reached.invariant init_sound preserved
  exact ⟨sound, fun call admitted => step_sound sound call admitted⟩

/-- Three spans, of which the outer two are freed again. -/
def threeSpans : List Call :=
  let first : Nat × Mapping :=
    (0x1800, { span := { addr := vmapStart, len := 0x1000 }, pointer := vmapStart + 0x800 })
  let third : Nat × Mapping :=
    (0x9fff, { span := { addr := vmapStart + 0x3000, len := 0x2000 }
               pointer := vmapStart + 0x3fff })
  [.alloc 0x1800 0x800, .alloc 0x5000 0x1001, .alloc 0x9fff 2, .free first, .free third]

/-- The page table is left out. -/
def noPaging : Paging Unit := { map := fun _ _ _ _ => (), unmap := fun _ _ _ => () }

theorem reached_partition_threeSpans :
    ∃ world, runFrom (step noPaging) Admits (World.init ()) threeSpans = some world ∧
      world.vmap.entries.length = 2 ∧ world.spans.length = 1 ∧ Sound world := by
  obtain ⟨world, ran, free, held⟩ :
      ∃ world, runFrom (step noPaging) Admits (World.init ()) threeSpans = some world ∧
        world.vmap.entries.length = 2 ∧ world.spans.length = 1 :=
    ⟨_, rfl, by decide +kernel, by decide +kernel⟩
  exact ⟨world, ran, free, held, (reached_partition noPaging () (Reaches.start.of_runFrom ran)).1⟩

end Runs

end Opal.Vmap
