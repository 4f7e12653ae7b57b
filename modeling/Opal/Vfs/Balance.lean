import Opal.Vfs.Lookup

/-!
# Balance of references

A lookup follows the components of its path and adds one reference, that of the entry it
found; `vfs_create_path` adds none.
-/

namespace Opal.Vfs

section Create

variable {ι φ σ : Type} {ops : FsOps ι φ σ} {before vfs : State ι σ} {extra : Nat → Nat} {pe : Nat}

theorem openEntry_raises (raised : Raises before vfs extra) (inode : ι) (existed : Bool)
    (mode : Nat) : Raises before (openEntry ops vfs inode existed mode).2 extra := by
  unfold openEntry
  dsimp only
  split
  · exact raised.setFs _
  · split
    · split
      · exact (raised.setFs _).setFs _
      · exact (raised.setFs _).setFs _
    · exact raised.setFs _

/-- An entry whose parent has no inode is created nowhere. -/
def Orphaned (before : State ι σ) (stop : Stop) : Prop := stop = .stray ∧ ¬before.Linked

theorem pathEntryCreate_raises (ops : FsOps ι φ σ) (raised : Raises before vfs extra)
    (inside : pe < vfs.next) (flags mode : Nat) :
    Ensures (Orphaned before) (fun answer => Raises before answer.2 extra)
      (pathEntryCreate ops vfs pe flags mode) := by
  unfold pathEntryCreate
  split
  · split
    · exact raised
    · exact openEntry_raises raised _ _ _
  · rename_i negative
    split
    · exact raised
    · rename_i parent isParent
      split
      · exact raised
      · split
        · rename_i missing
          refine ⟨rfl, fun linked => ?_⟩
          obtain ⟨-, present⟩ := raised.linked linked pe inside parent isParent
          rw [missing] at present
          cases present
        · split
          · exact raised
          · dsimp only
            split
            · exact raised.setFs _
            · apply openEntry_raises
              apply (raised.setFs _).setInode
              · exact inside
              · exact negative

theorem vfsCreatePath_raises {start : Option Nat} (valid : ∀ pe ∈ start, pe < vfs.next)
    (path : List UInt8) (flags mode : Nat) :
    Ensures (fun stop => Saturated vfs 1 stop ∨ Orphaned vfs stop)
      (fun answer => Raises vfs answer.2 0) (vfsCreatePath ops vfs start path flags mode) := by
  unfold vfsCreatePath
  refine ((vfsLookupPath_raises valid path).tolerate fun _ => Or.inl).bind ?_
  rintro ⟨resolved, after⟩ raised
  dsimp only at raised ⊢
  cases found : resolved.found with
  | none =>
      rw [found] at raised
      exact raised
  | some id =>
      rw [found, ← add_zero (held (some id))] at raised
      dsimp only
      split
      · obtain ⟨last, released, raised⟩ := pathEntryRelease_raises raised
        rw [released, ok_bind]
        exact raised
      · have counted : 0 < after.count id := by
          rw [raised.counts, Pi.add_apply, held, if_pos rfl]
          omega
        have created := pathEntryCreate_raises ops raised (State.lt_of_count counted) flags mode
        refine (created.tolerate fun _ => Or.inr).bind ?_
        rintro ⟨created, after⟩ raised
        obtain ⟨last, released, raised⟩ := pathEntryRelease_raises raised
        dsimp only
        rw [released, ok_bind]
        exact raised

/-- Paths with the same components resolve alike; a lookup adds one reference, to `*found`,
and `vfs_create_path` adds none. -/
theorem vfsLookupPath_components (ops : FsOps ι φ σ) (vfs : State ι σ) {start : Option Nat}
    (valid : ∀ pe ∈ start, pe < vfs.next) :
    (∀ path path' : List UInt8, path ≠ [] → path' ≠ [] →
      (path.head? = some slash ↔ path'.head? = some slash) →
      Cpio.segments path = Cpio.segments path' →
      walkedOf (vfsLookupPath ops vfs start path) =
        walkedOf (vfsLookupPath ops vfs start path')) ∧
    (∀ path : List UInt8,
      Ensures (Saturated vfs 1) (fun found => Raises vfs found.2 (held found.1.found))
        (vfsLookupPath ops vfs start path)) ∧
    ∀ (path : List UInt8) (flags mode : Nat),
      Ensures (fun stop => Saturated vfs 1 stop ∨ Orphaned vfs stop)
        (fun created => Raises vfs created.2 0)
        (vfsCreatePath ops vfs start path flags mode) := by
  refine ⟨?_, vfsLookupPath_raises valid, vfsCreatePath_raises valid⟩
  intro path path' nonempty nonempty' alike same
  rw [vfsLookupPath_walked ops vfs start nonempty, vfsLookupPath_walked ops vfs start nonempty',
    same, decide_eq_decide.mpr alike]

/-- A root directory with a file `a` and a negative entry `b` in the cache. -/
def fileAndNegative : State Bool Unit where
  heap
    | 0 => { parent := none, inode := some true, children := [1, 2], name := [], refcount := 2 }
    | 1 => { parent := some 0, inode := some false, children := [], name := [97], refcount := 1 }
    | _ => { parent := some 0, inode := none, children := [], name := [98], refcount := 0 }
  next := 3
  fs := ()
  mem := .always
  rooted := by decide
  closed := by decide

/-- Inodes that are told apart by whether they are directories; every directory can get files. -/
def kindOps : FsOps Bool Unit Unit where
  isDir := id
  iterateDir _ := none
  getChild _ := none
  createChild
    | true => some fun _ _ fs => (.ok false, fs)
    | false => none
  inodeRelease _ fs := fs
  openInode _ _ fs := (.ok (), fs)
  fileTruncate _ _ fs := (.ok (), fs)
  fileRelease _ fs := fs

/-- `a` and `a/` are one path, its lookup holds the file, and creating `b` makes the negative
entry one of a file and holds nothing. -/
theorem vfsLookupPath_components_fileAndNegative :
    walkedOf (vfsLookupPath kindOps fileAndNegative (some gRoot) [97, 47]) =
      walkedOf (vfsLookupPath kindOps fileAndNegative (some gRoot) [97]) ∧
    (∃ found, vfsLookupPath kindOps fileAndNegative (some gRoot) [97] = .ok found ∧
      found.1.found = some 1 ∧ Raises fileAndNegative found.2 (held (some 1))) ∧
    ∃ created, vfsCreatePath kindOps fileAndNegative (some gRoot) [98] 0 openCreate =
        .ok created ∧
      (created.2.heap 2).inode = some false ∧ Raises fileAndNegative created.2 0 := by
  have valid : ∀ pe ∈ some gRoot, pe < fileAndNegative.next := by
    rintro pe ⟨⟩
    decide
  obtain ⟨same, looked, made⟩ := vfsLookupPath_components kindOps fileAndNegative valid
  refine ⟨same _ _ (List.cons_ne_nil _ _) (List.cons_ne_nil _ _) (by decide) (by decide),
    ⟨_, rfl, rfl, looked [97]⟩, ⟨_, rfl, rfl, made [98] 0 openCreate⟩⟩

end Create

end Opal.Vfs
