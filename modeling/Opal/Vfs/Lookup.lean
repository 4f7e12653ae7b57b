import Opal.Vfs.Walk

/-!
# References of a lookup

What each function of `vfs.c` adds to the references of the path entries, from one entry to
the whole walk.
-/

namespace Opal.Vfs

section Counts

variable {ι φ σ : Type}

namespace State

/-- The references to an entry; none to one that was not allocated yet. -/
def count (vfs : State ι σ) (id : Nat) : Nat :=
  if id < vfs.next then (vfs.heap id).refcount else 0

/-- The parent of an entry is an entry with an inode. -/
def Linked (vfs : State ι σ) : Prop :=
  ∀ id < vfs.next, ∀ parent ∈ (vfs.heap id).parent,
    parent < vfs.next ∧ (vfs.heap parent).inode.isSome

end State

/-- The reference that a result holds. -/
def held (found : Option Nat) (id : Nat) : Nat := if found = some id then 1 else 0

/-- The references grew by `extra`, and entries were only added. -/
structure Raises (before after : State ι σ) (extra : Nat → Nat) : Prop where
  grown : before.next ≤ after.next
  counts : ∀ id, after.count id = before.count id + extra id
  linked : before.Linked → after.Linked

variable {before vfs : State ι σ} {extra : Nat → Nat} {id : Nat}

theorem State.count_of_lt (inside : id < vfs.next) : vfs.count id = (vfs.heap id).refcount :=
  if_pos inside

theorem State.lt_of_count (counted : 0 < vfs.count id) : id < vfs.next := by
  by_contra outside
  rw [State.count, if_neg outside] at counted
  exact Nat.lt_irrefl 0 counted

theorem State.heap_setEntry (parent : Option Nat) (inode : Option ι) (name : Name)
    (refcount : Nat) :
    (vfs.setEntry id parent inode name refcount).heap id =
      { parent, inode, children := (vfs.heap id).children, name, refcount } :=
  Function.update_self ..

theorem State.count_setEntry (inside : id < vfs.next) (parent : Option Nat) (inode : Option ι)
    (name : Name) (refcount other : Nat) :
    (vfs.setEntry id parent inode name refcount).count other =
      if other = id then refcount else vfs.count other := by
  by_cases same : other = id
  · subst same
    rw [if_pos rfl]
    exact (if_pos inside).trans (congrArg PathEntry.refcount (State.heap_setEntry ..))
  · rw [if_neg same]
    unfold State.count State.setEntry
    dsimp only
    rw [Function.update_of_ne same]

theorem held_le (found : Option Nat) (id : Nat) : held found id ≤ 1 := by
  unfold held
  split
  · exact le_refl 1
  · exact Nat.zero_le 1

namespace Raises

theorem refl (vfs : State ι σ) : Raises vfs vfs 0 where
  grown := le_refl _
  counts _ := rfl
  linked := id

theorem setFs (raised : Raises before vfs extra) (fs : σ) : Raises before (vfs.setFs fs) extra :=
  ⟨raised.grown, raised.counts, raised.linked⟩

theorem kzalloc (raised : Raises before vfs extra) : Raises before vfs.kzalloc.2 extra :=
  ⟨raised.grown, raised.counts, raised.linked⟩

theorem hstrClone (raised : Raises before vfs extra) (name : Name) :
    Raises before (hstrClone vfs name).2 extra := by
  unfold Vfs.hstrClone
  split
  · exact raised
  · exact raised.kzalloc

/-- Another number of references, of one entry. -/
theorem setRefcount {refcount : Nat} {extra' : Nat → Nat} (raised : Raises before vfs extra)
    (inside : id < vfs.next) (self : refcount = before.count id + extra' id)
    (others : ∀ other, other ≠ id → extra' other = extra other) :
    Raises before (vfs.setRefcount id refcount) extra' where
  grown := raised.grown
  counts other := by
    rw [State.setRefcount, State.count_setEntry inside]
    by_cases same : other = id
    · rw [if_pos same, same, self]
    · rw [if_neg same, raised.counts, others other same]
  linked before := by
    intro other allocated parent isParent
    have same (entry : Nat) :
        ((vfs.setRefcount id refcount).heap entry).parent = (vfs.heap entry).parent ∧
          ((vfs.setRefcount id refcount).heap entry).inode = (vfs.heap entry).inode := by
      unfold State.setRefcount State.setEntry
      dsimp only
      by_cases entry_eq : entry = id
      · subst entry_eq
        rw [Function.update_self]
        exact ⟨rfl, rfl⟩
      · rw [Function.update_of_ne entry_eq]
        exact ⟨rfl, rfl⟩
    rw [(same other).1] at isParent
    rw [(same parent).2]
    exact raised.linked before other allocated parent isParent

theorem setInode (raised : Raises before vfs extra) (inside : id < vfs.next)
    (negative : (vfs.heap id).inode = none) (inode : Option ι) :
    Raises before (vfs.setInode id inode) extra where
  grown := raised.grown
  counts other := by
    rw [State.setInode, State.count_setEntry inside, ← raised.counts]
    by_cases same : other = id
    · rw [if_pos same, same, State.count_of_lt inside]
    · rw [if_neg same]
  linked before := by
    intro other allocated parent isParent
    have same : ((vfs.setInode id inode).heap other).parent = (vfs.heap other).parent := by
      unfold State.setInode State.setEntry
      dsimp only
      by_cases entry_eq : other = id
      · subst entry_eq
        rw [Function.update_self]
      · rw [Function.update_of_ne entry_eq]
    rw [same] at isParent
    obtain ⟨known, present⟩ := raised.linked before other allocated parent isParent
    have apart : parent ≠ id := by
      rintro rfl
      rw [negative] at present
      cases present
    have kept : (vfs.setInode id inode).heap parent = vfs.heap parent :=
      Function.update_of_ne apart ..
    rw [kept]
    exact ⟨known, present⟩

theorem pushChild {parent : Nat} (raised : Raises before vfs extra) (inside : parent < vfs.next)
    (directory : (vfs.heap parent).inode.isSome) (inode : Option ι) (name : Name) :
    Raises before (vfs.pushChild parent inode name) (extra + held (some vfs.next)) := by
  have old (other : Nat) (apart : other ≠ vfs.next) :
      (vfs.pushChild parent inode name).heap other = { vfs.heap other with
        children := ((vfs.pushChild parent inode name).heap other).children } := by
    unfold State.pushChild
    dsimp only
    rw [Function.update_of_ne apart]
    by_cases same : other = parent
    · subst same
      rw [Function.update_self]
    · rw [Function.update_of_ne same]
  have fresh : (vfs.pushChild parent inode name).heap vfs.next =
      { parent := some parent, inode, children := [], name, refcount := 1 } :=
    Function.update_self ..
  refine ⟨Nat.le_succ_of_le raised.grown, ?_, ?_⟩
  · intro other
    rw [Pi.add_apply, ← Nat.add_assoc, ← raised.counts]
    by_cases same : other = vfs.next
    · subst same
      rw [State.count_of_lt (Nat.lt_succ_self _), fresh, State.count, if_neg (Nat.lt_irrefl _),
        held, if_pos rfl]
    · have apart : some vfs.next ≠ some other := fun equal => same (Option.some.inj equal).symm
      have next : (vfs.pushChild parent inode name).next = vfs.next + 1 := rfl
      have bounds : other < vfs.next + 1 ↔ other < vfs.next := by omega
      rw [held, if_neg apart, Nat.add_zero, State.count, State.count, old other same, next]
      exact if_congr bounds rfl rfl
  · intro linked other allocated above isParent
    have present : above < vfs.next ∧ (vfs.heap above).inode.isSome := by
      by_cases same : other = vfs.next
      · subst same
        rw [fresh] at isParent
        cases isParent
        exact ⟨inside, directory⟩
      · rw [old other same] at isParent
        have allocated : other < vfs.next + 1 := allocated
        exact raised.linked linked other (by omega) above isParent
    rw [old above (Nat.ne_of_lt present.1)]
    exact ⟨Nat.lt_succ_of_lt present.1, present.2⟩

end Raises

end Counts

section Entries

variable {ι φ σ : Type} {ops : FsOps ι φ σ} {before vfs : State ι σ} {extra : Nat → Nat}
  {parent pe id : Nat} {name : Name}

/-- A call stops only where an entry has the greatest number of references. -/
def Saturated (before : State ι σ) (extra : Nat → Nat) (stop : Stop) : Prop :=
  stop = .assertion ∧ ∃ id, maxRefc ≤ before.count id + extra id

theorem pathEntryRetain_raises (raised : Raises before vfs extra) (inside : id < vfs.next) :
    Ensures (Saturated before extra)
      (fun after => Raises before after (extra + held (some id)) ∧ after.next = vfs.next ∧
        (after.heap id).inode = (vfs.heap id).inode)
      (pathEntryRetain vfs id) := by
  have counted := raised.counts id
  rw [State.count_of_lt inside] at counted
  unfold pathEntryRetain
  split
  · have self : (vfs.heap id).refcount + 1 = before.count id + (extra + held (some id)) id := by
      rw [counted, Pi.add_apply, held, if_pos rfl, Nat.add_assoc]
    have others (other : Nat) (apart : other ≠ id) :
        (extra + held (some id)) other = extra other := by
      have differs : some id ≠ some other := fun equal => apart (Option.some.inj equal).symm
      rw [Pi.add_apply, held, if_neg differs, Nat.add_zero]
    refine ⟨raised.setRefcount inside self others, rfl, ?_⟩
    rw [State.setRefcount, State.heap_setEntry]
  · rename_i full
    refine ⟨rfl, id, ?_⟩
    rw [← counted]
    exact Nat.le_of_not_lt full

/-- A reference that the call holds can be given back. -/
theorem pathEntryRelease_raises (raised : Raises before vfs (held (some id) + extra)) :
    ∃ after, pathEntryRelease vfs id = .ok after ∧ Raises before after extra := by
  have counted := raised.counts id
  rw [Pi.add_apply, held, if_pos rfl] at counted
  have positive : 0 < vfs.count id := by omega
  have inside := State.lt_of_count positive
  rw [State.count_of_lt inside] at counted positive
  refine ⟨_, if_pos positive, raised.setRefcount inside (by omega) ?_⟩
  intro other apart
  have differs : some id ≠ some other := fun equal => apart (Option.some.inj equal).symm
  rw [Pi.add_apply, held, if_neg differs, Nat.zero_add]

theorem childNamed_lt {child : Nat} (inside : parent < vfs.next)
    (found : childNamed vfs parent name = some child) : child < vfs.next :=
  vfs.closed parent inside child (List.mem_of_find?_eq_some found)

theorem findChild_raises (raised : Raises before vfs extra) (inside : parent < vfs.next) :
    Ensures (Saturated before extra)
      (fun answer => Raises before answer.2 (extra + held answer.1) ∧ vfs.next ≤ answer.2.next ∧
        (answer.1 = none → answer.2 = vfs))
      (findChild vfs parent name) := by
  unfold findChild
  cases found : childNamed vfs parent name with
  | none => exact ⟨raised, le_refl _, fun _ => rfl⟩
  | some child =>
      refine (pathEntryRetain_raises raised (childNamed_lt inside found)).bind ?_
      rintro after ⟨retained, kept, -⟩
      exact ⟨retained, kept.ge, fun absurd => nomatch absurd⟩

theorem pathEntryAdd_raises (raised : Raises before vfs extra) (inside : parent < vfs.next)
    (inode : Option ι) :
    Ensures (Saturated before extra)
      (fun answer => Raises before answer.2 (extra + held answer.1.toOption))
      (pathEntryAdd ops vfs parent inode name) := by
  unfold pathEntryAdd
  split
  · exact raised
  · rename_i directory
    have present : (vfs.heap parent).inode.isSome := by
      unfold isDirectory at directory
      cases inode : (vfs.heap parent).inode with
      | none =>
          rw [inode] at directory
          exact absurd Bool.false_ne_true directory
      | some _ => rfl
    cases found : childNamed vfs parent name with
    | none =>
        dsimp only
        split
        · exact raised.kzalloc.pushChild inside present inode name
        · exact raised.kzalloc
    | some child =>
        dsimp only
        split
        · exact raised
        · rename_i negative
          refine (pathEntryRetain_raises raised (childNamed_lt inside found)).bind ?_
          rintro after ⟨retained, kept, same⟩
          have negative : (after.heap child).inode = none :=
            same.trans (Option.not_isSome_iff_eq_none.mp negative)
          exact retained.setInode (kept ▸ childNamed_lt inside found) negative inode

theorem createNegative_raises (raised : Raises before vfs extra) (inside : parent < vfs.next) :
    Ensures (Saturated before extra)
      (fun answer => Raises before answer.2 (extra + held answer.1.toOption))
      (createNegative ops vfs parent name) := by
  have next : (hstrClone vfs name).2.next = vfs.next := by
    unfold hstrClone
    split <;> rfl
  unfold createNegative
  dsimp only
  split
  · exact pathEntryAdd_raises (raised.hstrClone name) (next ▸ inside) none
  · exact raised.hstrClone name

theorem lookupMissing_raises (raised : Raises before vfs extra) (inside : pe < vfs.next) :
    Ensures (Saturated before extra)
      (fun answer => Raises before answer.2 (extra + held answer.1.2))
      (lookupMissing ops vfs pe name) := by
  unfold lookupMissing
  refine (createNegative_raises raised inside).bind ?_
  rintro ⟨added, vfs⟩ raised
  cases added with
  | error error => exact raised
  | ok found => exact raised

theorem lookupPresent_raises (raised : Raises before vfs extra) (inside : pe < vfs.next)
    (getChild : Nat → σ → Except Kerrno ι × σ) (entry : Dirent.Entry) :
    Ensures (Saturated before extra)
      (fun answer => Raises before answer.2 (extra + held answer.1.2))
      (lookupPresent ops vfs pe name getChild entry) := by
  have next : (hstrClone vfs name).2.next = vfs.next := by
    unfold hstrClone
    split <;> rfl
  have cloned := raised.hstrClone name
  unfold lookupPresent
  dsimp only
  split
  · exact cloned
  · split
    · exact cloned.setFs _
    · refine (pathEntryAdd_raises (cloned.setFs _) ?_ _).bind ?_
      · exact lt_of_lt_of_eq inside next.symm
      rintro ⟨added, vfs⟩ raised
      cases added with
      | error error => exact raised.setFs _
      | ok found => exact raised

theorem lookupScan_raises (raised : Raises before vfs extra) (inside : pe < vfs.next) (inode : ι) :
    Ensures (Saturated before extra)
      (fun answer => Raises before answer.2 (extra + held answer.1.2))
      (lookupScan ops vfs pe inode name) := by
  unfold lookupScan
  split
  · dsimp only
    split
    · exact raised.setFs _
    · split
      · apply lookupMissing_raises (raised.setFs _)
        exact inside
      · apply lookupPresent_raises (raised.setFs _)
        exact inside
  · exact raised

/-- The entry that is looked up has a reference more than before, whatever the answer is. -/
theorem pathEntryLookup_raises (ops : FsOps ι φ σ) (name : Name)
    (raised : Raises before vfs extra) (inside : pe < vfs.next) :
    Ensures (Saturated before extra)
      (fun answer => Raises before answer.2 (extra + held answer.1.2))
      (pathEntryLookup ops vfs pe name) := by
  unfold pathEntryLookup
  split
  · exact raised
  split
  · exact raised
  cases (vfs.heap pe).inode with
  | none => exact raised
  | some inode =>
      dsimp only
      split
      · exact raised
      refine (findChild_raises raised inside).bind ?_
      rintro ⟨child, after⟩ ⟨raised, -, same⟩
      cases child with
      | none =>
          obtain rfl : after = vfs := same rfl
          exact lookupScan_raises raised inside inode
      | some child => exact raised

end Entries

section Walk

variable {ι φ σ : Type} {ops : FsOps ι φ σ} {before vfs : State ι σ} {pe : Nat}

/-- One reference is held on the way, that of the entry that was reached. -/
theorem walk_raises {components : List Name} (raised : Raises before vfs (held (some pe))) :
    Ensures (Saturated before 1) (fun found => Raises before found.2 (held found.1.found))
      (walk ops components vfs pe) := by
  induction components generalizing vfs pe with
  | nil =>
      rw [walk]
      split
      · exact raised
      · exact raised
  | cons name rest inductionHypothesis =>
      have counted : 0 < vfs.count pe := by
        rw [raised.counts pe, held, if_pos rfl]
        exact Nat.succ_pos _
      rw [walk]
      split
      · exact raised
      split
      · exact raised
      split
      · exact raised
      have lookedUp := pathEntryLookup_raises ops name raised (State.lt_of_count counted)
      refine (lookedUp.tolerate ?_).bind ?_
      · rintro stop ⟨rfl, id, full⟩
        exact ⟨rfl, id, full.trans (Nat.add_le_add_left (held_le _ id) _)⟩
      rintro ⟨⟨result, lookup⟩, vfs⟩ raised
      cases lookup with
      | none => exact raised
      | some lookup =>
          obtain ⟨after, released, raised⟩ := pathEntryRelease_raises raised
          dsimp only
          rw [released, ok_bind]
          cases result with
          | error error => exact raised
          | ok _ => exact inductionHypothesis raised

theorem walkFrom_raises {components : List Name} (inside : pe < vfs.next) :
    Ensures (Saturated vfs 1) (fun found => Raises vfs found.2 (held found.1.found))
      (walkFrom ops vfs pe components) := by
  have retained := pathEntryRetain_raises (Raises.refl vfs) inside
  refine (retained.tolerate ?_).bind ?_
  · rintro stop ⟨rfl, id, full⟩
    exact ⟨rfl, id, full.trans (Nat.add_le_add_left (Nat.zero_le 1) _)⟩
  · rintro after ⟨raised, -⟩
    rw [zero_add] at raised
    exact walk_raises raised

theorem vfsLookupPath_raises {start : Option Nat} (valid : ∀ pe ∈ start, pe < vfs.next)
    (path : List UInt8) :
    Ensures (Saturated vfs 1) (fun found => Raises vfs found.2 (held found.1.found))
      (vfsLookupPath ops vfs start path) := by
  by_cases empty : path = []
  · subst empty
    exact Raises.refl vfs
  · have followed := vfsLookupPath_walked ops vfs start empty
    have walked : Ensures (Saturated vfs 1) (fun found => Raises vfs found.2 (held found.1.found))
        (walkedOf (vfsLookupPath ops vfs start path)) := by
      rw [followed]
      cases from_ : startOf start (path.head? = some slash) with
      | none => exact Raises.refl vfs
      | some pe =>
          apply walkFrom_raises
          unfold startOf at from_
          split at from_
          · cases from_
            exact vfs.rooted
          · exact valid pe from_
    cases outcome : vfsLookupPath ops vfs start path with
    | error stop =>
        rw [outcome] at walked
        exact walked
    | ok found =>
        rw [outcome] at walked
        exact walked

end Walk

end Opal.Vfs
