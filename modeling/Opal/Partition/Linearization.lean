import Opal.Partition.Changes

/-!
# Interleaved requests

As long as no answer of the disk moves an element that a waiting removal points to, the
requests take effect one after the other, in the order in which they are answered.
-/

namespace Opal.Partition

section Invariant

/-- What a waiting request has changed, and what its handler will find. -/
inductive Waits (disk : Disk) (buffer : Nat) (table : Table) (ctx : Request) : Prop where
  | creating (created : ctx.entry = none) (free : table ctx.index = none)
      (old : ctx.oldMbrEntry.range = none)
      (recorded : disk.recorded ctx.index = some (ctx.lba, ctx.sectors))
      (positive : 0 < ctx.sectors.toNat)
      (last : ctx.lba.toNat + ctx.sectors.toNat ≤ disk.sectors.toNat)
  | removing {ptr : EntryPtr} {entry : PartitionEntry} (points : ctx.entry = some ptr)
      (here : ptr.buffer = buffer) (found : disk.partitions.entries[ptr.slot]? = some entry)
      (index : entry.index = ctx.index) (held : entry.bdev.refcount = 1)
      (old : ctx.oldMbrEntry.range = table ctx.index)
      (recorded : disk.recorded ctx.index = none)

/-- The table that the answers stand for, and how the list, the boot record and the waiting
requests relate to it. -/
structure Inv (initial : Table) (system : System) : Prop where
  lists : Lists system.disk.partitions.entries (replay initial system.answers)
  legal : LegalAnswers initial system.answers
  present : system.pending ≠ [] → system.disk.partTableSectors ≠ none
  inside : ∀ ctx ∈ system.pending, ctx.index < 4
  distinct : (system.pending.map (·.index)).Nodup
  waits : ∀ ctx ∈ system.pending,
    Waits system.disk system.buffer (replay initial system.answers) ctx
  idle : ∀ i, (∀ ctx ∈ system.pending, ctx.index ≠ i) →
    system.disk.recorded i = replay initial system.answers i
  unheld : ∀ entry ∈ system.disk.partitions.entries,
    (∀ ctx ∈ system.pending, ctx.index ≠ entry.index) → entry.bdev.refcount = 0

variable {initial table table' : Table} {system : System} {disk disk' : Disk}
  {buffer buffer' index k : Nat} {ctx : Request} {pool : Pool}

/-- A waiting request is not disturbed by what happens at other indices. -/
theorem Waits.transfer (waits : Waits disk buffer table ctx)
    (sectors : disk'.sectors = disk.sectors)
    (recorded : disk'.recorded ctx.index = disk.recorded ctx.index)
    (same : table' ctx.index = table ctx.index)
    (slots : ∀ ptr entry, ctx.entry = some ptr → ptr.buffer = buffer →
      disk.partitions.entries[ptr.slot]? = some entry → entry.index = ctx.index →
      ptr.buffer = buffer' ∧ disk'.partitions.entries[ptr.slot]? = some entry) :
    Waits disk' buffer' table' ctx := by
  cases waits with
  | creating created free old was positive last =>
      refine .creating created (same.trans free) old (recorded.trans was) positive ?_
      rwa [sectors]
  | @removing ptr entry points here found index held old was =>
      obtain ⟨here', found'⟩ := slots ptr entry points here found index
      exact .removing points here' found' index held (old.trans same.symm) (recorded.trans was)

/-- An answer changes the table at the index of the request only. -/
theorem replay_append_of_ne {answers : List (Change × Bool)} {change : Change} {ok : Bool} {i : Nat}
    (other : i ≠ change.index) :
    replay table (answers ++ [(change, ok)]) i = replay table answers i := by
  rw [replay_append]
  cases ok with
  | false => rfl
  | true =>
      rw [if_pos rfl]
      cases change with
      | create index lba sectors => exact Function.update_of_ne other _ _
      | remove index => exact Function.update_of_ne other _ _

theorem index_change (ctx : Request) : ctx.change.index = ctx.index := by
  unfold Request.change
  cases ctx.entry <;> rfl

/-- A request that is refused leaves everything as it was. -/
theorem Inv.refused (inv : Inv initial system) (change : Change) :
    Inv initial { system with answers := system.answers ++ [(change, false)] } := by
  have same : replay initial (system.answers ++ [(change, false)]) =
      replay initial system.answers := by
    rw [replay_append]
    rfl
  have legal : LegalAnswers initial (system.answers ++ [(change, false)]) :=
    legalAnswers_append inv.legal fun due => absurd due Bool.false_ne_true
  obtain ⟨lists, -, present, inside, distinct, waits, idle, unheld⟩ := inv
  rw [← same] at lists waits idle
  exact ⟨lists, legal, present, inside, distinct, waits, idle, unheld⟩

/-- A request that is answered, by what its handler did at its index. -/
theorem Inv.answered (inv : Inv initial system) (found : system.pending[k]? = some ctx)
    {answer : Bool} (due : answer = true → ctx.change.Legal (replay initial system.answers))
    (lists : Lists disk'.partitions.entries
      (replay initial (system.answers ++ [(ctx.change, answer)])))
    (present : disk'.partTableSectors ≠ none)
    (own : disk'.recorded ctx.index =
      replay initial (system.answers ++ [(ctx.change, answer)]) ctx.index)
    (sectors : disk'.sectors = system.disk.sectors)
    (others : ∀ i, i ≠ ctx.index → disk'.recorded i = system.disk.recorded i)
    (slots : ∀ other ∈ system.pending, other.index ≠ ctx.index → ∀ ptr entry,
      other.entry = some ptr → ptr.buffer = system.buffer →
      system.disk.partitions.entries[ptr.slot]? = some entry → entry.index = other.index →
      ptr.buffer = buffer' ∧ disk'.partitions.entries[ptr.slot]? = some entry)
    (unheld : ∀ entry ∈ disk'.partitions.entries, entry.index = ctx.index ∨
      entry ∈ system.disk.partitions.entries)
    (own_unheld : ∀ entry ∈ disk'.partitions.entries, entry.index = ctx.index →
      entry.bdev.refcount = 0) :
    Inv initial
      { disk := disk', buffer := buffer'
        pending := system.pending.eraseIdx k
        answers := system.answers ++ [(ctx.change, answer)] } := by
  have left {other : Request} : other ∈ system.pending.eraseIdx k ↔
      other ∈ system.pending ∧ other.index ≠ ctx.index :=
    mem_eraseIdx_iff_key inv.distinct found
  have kept : ∀ i, i ≠ ctx.index →
      replay initial (system.answers ++ [(ctx.change, answer)]) i =
        replay initial system.answers i := fun i other =>
    replay_append_of_ne (by rwa [index_change])
  refine ⟨lists, legalAnswers_append inv.legal due, fun _ => present, ?_,
    eraseIdx_distinct inv.distinct, ?_, ?_, ?_⟩
  · intro other member
    exact inv.inside other (left.mp member).1
  · intro other member
    obtain ⟨member, differs⟩ := left.mp member
    exact (inv.waits other member).transfer sectors (others _ differs) (kept _ differs)
      (slots other member differs)
  · intro i none
    by_cases same : i = ctx.index
    · rw [same]
      exact own
    · refine (others i same).trans ((inv.idle i fun other member equal => ?_).trans
        (kept i same).symm)
      exact none other (left.mpr ⟨member, fun index => same (equal ▸ index)⟩) equal
  · intro entry member none
    by_cases same : entry.index = ctx.index
    · exact own_unheld entry member same
    · refine inv.unheld entry ((unheld entry member).resolve_left same) fun other old equal => ?_
      exact none other (left.mpr ⟨old, fun index => same (equal ▸ index)⟩) equal

end Invariant

section Answers

variable {initial : Table} {system : System} {ctx : Request} {pool : Pool} {k : Nat}

/-- No element moves that another removal points to when the request succeeds. -/
def Undisturbed (system : System) (ctx : Request) : Prop :=
  ∀ other ∈ system.pending, other.index ≠ ctx.index → ∀ ptr, other.entry = some ptr →
    match ctx.entry with
    | some own => ptr.slot < own.slot
    | none => pushedSize system.disk.partitions ≤ system.disk.partitions.capacity

/-- What is left of a step: it returns, and leaves the invariant. -/
def Returns (initial : Table) (result : Except Stop System) : Prop :=
  ∃ after, result = .ok after ∧ Inv initial after

theorem step_complete {succeeded : Bool} {answer : Bool} {disk : Disk} {buffer : Nat}
    (found : system.pending[k]? = some ctx)
    (handled : coModifyHandler system.disk system.buffer ctx succeeded pool =
      .ok (answer, disk, buffer)) :
    step system (.complete k succeeded pool) = .ok
      { disk, buffer
        pending := system.pending.eraseIdx k
        answers := system.answers ++ [(ctx.change, answer)] } := by
  unfold step
  dsimp only
  rw [found]
  dsimp only
  rw [handled]
  rfl

theorem Inv.given (inv : Inv initial system) (found : system.pending[k]? = some ctx) :
    ∃ mbr, system.disk.partTableSectors = some mbr :=
  Option.ne_none_iff_exists'.mp
    (inv.present (List.ne_nil_of_mem (List.mem_of_getElem? found)))

/-- The disk could not write the entry of a new partition. -/
theorem Inv.forgets (inv : Inv initial system) (found : system.pending[k]? = some ctx)
    (created : ctx.entry = none) (free : replay initial system.answers ctx.index = none)
    (old : ctx.oldMbrEntry.range = none) :
    Returns initial (step system (.complete k false pool)) := by
  obtain ⟨mbr, given⟩ := inv.given found
  have inside := inv.inside ctx (List.mem_of_getElem? found)
  have same : replay initial (system.answers ++ [(ctx.change, false)]) =
      replay initial system.answers := by
    rw [replay_append]
    rfl
  have recorded := @recorded_putEntry system.disk mbr ctx.index ctx.oldMbrEntry given inside
    system.disk.partitions system.disk.queueFull
  refine ⟨_, step_complete found (coModifyHandler_forgets created given), inv.answered found
    (fun due => absurd due Bool.false_ne_true) ?_ nofun ?_ rfl ?_ ?_ ?_ ?_⟩
  · rw [same]
    exact inv.lists
  · rw [same, recorded, Function.update_self, old, free]
  · intro i other
    rw [recorded, Function.update_of_ne other]
  · intro other _ _ ptr entry _ here element _
    exact ⟨here, element⟩
  · exact fun entry member => .inr member
  · intro entry member index
    exact absurd index (inv.lists.not_mem free entry member)

/-- The disk could not write the entry of a partition that was to be removed. -/
theorem Inv.restores (inv : Inv initial system) (found : system.pending[k]? = some ctx)
    {ptr : EntryPtr} {entry : PartitionEntry} (points : ctx.entry = some ptr)
    (here : ptr.buffer = system.buffer)
    (element : system.disk.partitions.entries[ptr.slot]? = some entry)
    (index : entry.index = ctx.index) (held : entry.bdev.refcount = 1)
    (old : ctx.oldMbrEntry.range = replay initial system.answers ctx.index) :
    Returns initial (step system (.complete k false pool)) := by
  obtain ⟨mbr, given⟩ := inv.given found
  have inside := inv.inside ctx (List.mem_of_getElem? found)
  have same : replay initial (system.answers ++ [(ctx.change, false)]) =
      replay initial system.answers := by
    rw [replay_append]
    rfl
  have recorded := @recorded_putEntry system.disk mbr ctx.index ctx.oldMbrEntry given inside
    (released system.disk.partitions ptr.slot entry) system.disk.queueFull
  have nonzero : entry.bdev.refcount ≠ 0 := by
    rw [held]
    exact one_ne_zero
  -- the elements after the step: the one whose device is released, and the others
  have elements : ∀ other ∈ (released system.disk.partitions ptr.slot entry).entries,
      other = { entry with bdev := { entry.bdev with refcount := entry.bdev.refcount - 1 } } ∨
        other ∈ system.disk.partitions.entries := fun other member =>
    (List.mem_or_eq_of_mem_set member).symm
  refine ⟨_, step_complete found (coModifyHandler_restores points here element nonzero given),
    inv.answered found (fun due => absurd due Bool.false_ne_true) ?_ nofun ?_ rfl ?_ ?_ ?_ ?_⟩
  · rw [same]
    refine inv.lists.congr ?_
    exact map_set_of_key element rfl
  · rw [same, recorded, Function.update_self, old]
  · intro i other
    rw [recorded, Function.update_of_ne other]
  · intro other _ differs ptr' entry' _ here' element' index'
    refine ⟨here', ?_⟩
    have apart : ptr.slot ≠ ptr'.slot := by
      intro equal
      rw [equal] at element
      cases element.symm.trans element'
      exact differs (index'.symm.trans index)
    exact (List.getElem?_set_ne apart).trans element'
  · intro other member
    rcases elements other member with rfl | kept
    · exact .inl index
    · exact .inr kept
  · intro other member index'
    obtain ⟨i, at_⟩ := List.mem_iff_getElem?.mp member
    change (List.set _ _ _)[i]? = _ at at_
    rw [List.getElem?_set] at at_
    split at at_
    · split at at_
      · cases at_
        show entry.bdev.refcount - 1 = 0
        rw [held]
      · cases at_
    · rename_i apart
      have equal := getElem?_eq_of_key inv.lists.distinct element at_ (index.trans index'.symm)
      exact absurd equal apart

/-- The disk has written the entry of a new partition. -/
theorem Inv.creates (inv : Inv initial system) (found : system.pending[k]? = some ctx)
    (ample : Ample pool 1) (undisturbed : Undisturbed system ctx)
    (created : ctx.entry = none) (free : replay initial system.answers ctx.index = none)
    (recorded : system.disk.recorded ctx.index = some (ctx.lba, ctx.sectors))
    (positive : 0 < ctx.sectors.toNat)
    (last : ctx.lba.toNat + ctx.sectors.toNat ≤ system.disk.sectors.toNat) :
    Returns initial (step system (.complete k true pool)) := by
  obtain ⟨mbr, given⟩ := inv.given found
  obtain ⟨capacity, buffer', handled, stays⟩ :=
    @coModifyHandler_creates system.disk system.buffer ctx pool created ample positive last
  have change : ctx.change = .create ctx.index ctx.lba ctx.sectors := by
    unfold Request.change
    rw [created]
  have table : replay initial (system.answers ++ [(ctx.change, true)]) =
      Function.update (replay initial system.answers) ctx.index (some (ctx.lba, ctx.sectors)) := by
    rw [replay_append, if_pos rfl, change]
    rfl
  refine ⟨_, step_complete found handled, inv.answered found ?_ ?_ ?_ ?_ rfl ?_ ?_ ?_ ?_⟩
  · intro _
    rw [change]
    exact free
  · rw [table]
    exact @Lists.push _ _ ctx.element inv.lists free
  · show system.disk.partTableSectors ≠ none
    rw [given]
    exact nofun
  · rw [table, Function.update_self]
    exact recorded
  · exact fun i _ => rfl
  · intro other member differs ptr entry points here element _
    have room := undisturbed other member differs ptr points
    rw [created] at room
    refine ⟨here.trans (stays room).symm, ?_⟩
    have inRange := (List.getElem?_eq_some_iff.mp element).1
    show (system.disk.partitions.entries ++ [ctx.element])[ptr.slot]? = _
    rw [List.getElem?_append_left inRange]
    exact element
  · intro entry member
    rcases List.mem_append.mp member with old | new
    · exact .inr old
    · exact .inl (congrArg PartitionEntry.index (List.mem_singleton.mp new))
  · intro entry member index
    rcases List.mem_append.mp member with old | new
    · exact absurd index (inv.lists.not_mem free entry old)
    · rw [List.mem_singleton.mp new]
      rfl

/-- The disk has written the entry of a partition that is removed. -/
theorem Inv.removes (inv : Inv initial system) (found : system.pending[k]? = some ctx)
    (undisturbed : Undisturbed system ctx) {ptr : EntryPtr} {entry : PartitionEntry}
    (points : ctx.entry = some ptr) (here : ptr.buffer = system.buffer)
    (element : system.disk.partitions.entries[ptr.slot]? = some entry)
    (index : entry.index = ctx.index) (recorded : system.disk.recorded ctx.index = none) :
    Returns initial (step system (.complete k true pool)) := by
  obtain ⟨mbr, given⟩ := inv.given found
  have change : ctx.change = .remove ctx.index := by
    unfold Request.change
    rw [points]
  have table : replay initial (system.answers ++ [(ctx.change, true)]) =
      Function.update (replay initial system.answers) ctx.index none := by
    rw [replay_append, if_pos rfl, change]
    rfl
  have left {other : PartitionEntry} : other ∈ system.disk.partitions.entries.eraseIdx ptr.slot ↔
      other ∈ system.disk.partitions.entries ∧ other.index ≠ entry.index :=
    mem_eraseIdx_iff_key inv.lists.distinct element
  refine ⟨_, step_complete found (coModifyHandler_removes points here element),
    inv.answered found ?_ ?_ ?_ ?_ rfl ?_ ?_ ?_ ?_⟩
  · intro _
    rw [change]
    show replay initial system.answers ctx.index ≠ none
    rw [← index, inv.lists.mem (List.mem_of_getElem? element)]
    exact Option.some_ne_none _
  · rw [table, ← index]
    exact inv.lists.erase element
  · show system.disk.partTableSectors ≠ none
    rw [given]
    exact nofun
  · rw [table, Function.update_self]
    exact recorded
  · exact fun i _ => rfl
  · intro other member differs ptr' entry' points' here' element' _
    have before := undisturbed other member differs ptr' points'
    rw [points] at before
    refine ⟨here', ?_⟩
    show (system.disk.partitions.entries.eraseIdx ptr.slot)[ptr'.slot]? = _
    rw [List.getElem?_eraseIdx_of_lt before]
    exact element'
  · exact fun other member => .inr (left.mp member).1
  · intro other member index'
    exact absurd (index'.trans index.symm) (left.mp member).2

end Answers

section Calls

variable {initial : Table} {system : System} {pool : Pool} {index : Nat} {lba sectors : UInt64}
  {type : UInt8} {queueFull : Bool} {ctx : Request} {disk' : Disk}

/-- A request that is accepted joins the waiting ones, none of which is for its index. -/
theorem Inv.joins (inv : Inv initial system) (apart : ∀ other ∈ system.pending,
      other.index ≠ ctx.index) (inside : ctx.index < 4)
    (waits : Waits disk' system.buffer (replay initial system.answers) ctx)
    (present : disk'.partTableSectors ≠ none)
    (sectors : disk'.sectors = system.disk.sectors)
    (others : ∀ i, i ≠ ctx.index → disk'.recorded i = system.disk.recorded i)
    (lists : Lists disk'.partitions.entries (replay initial system.answers))
    (slots : ∀ (slot : Nat) (entry : PartitionEntry),
      system.disk.partitions.entries[slot]? = some entry →
      entry.index ≠ ctx.index → disk'.partitions.entries[slot]? = some entry)
    (unheld : ∀ entry ∈ disk'.partitions.entries, entry.index ≠ ctx.index →
      entry ∈ system.disk.partitions.entries) :
    Inv initial { system with disk := disk', pending := system.pending ++ [ctx] } := by
  refine ⟨lists, inv.legal, fun _ => present, ?_, ?_, ?_, ?_, ?_⟩
  · intro other member
    rcases List.mem_append.mp member with old | new
    · exact inv.inside other old
    · rw [List.mem_singleton.mp new]
      exact inside
  · show (List.map _ (_ ++ _)).Nodup
    rw [List.map_append, List.map_singleton, List.nodup_append]
    refine ⟨inv.distinct, List.pairwise_singleton _ _, ?_⟩
    intro i member j single
    rw [List.mem_singleton.mp single]
    obtain ⟨other, here, rfl⟩ := List.mem_map.mp member
    exact apart other here
  · intro other member
    rcases List.mem_append.mp member with old | new
    · refine (inv.waits other old).transfer sectors (others _ (apart other old)) rfl ?_
      intro ptr entry _ here found index
      exact ⟨here, slots _ entry found fun same => apart other old (index.symm.trans same)⟩
    · rw [List.mem_singleton.mp new]
      exact waits
  · intro i none
    have differs : i ≠ ctx.index := fun same => none ctx (by simp) same.symm
    refine (others i differs).trans (inv.idle i fun other member => ?_)
    exact none other (List.mem_append_left _ member)
  · intro entry member none
    have differs : entry.index ≠ ctx.index := fun same => none ctx (by simp) same.symm
    refine inv.unheld entry (unheld entry member differs) fun other old => ?_
    exact none other (List.mem_append_left _ old)

theorem Inv.create (inv : Inv initial system) (narrowLba : lba.toNat < 2 ^ 32)
    (narrowSectors : sectors.toNat < 2 ^ 32) :
    Returns initial (step system (.create index lba sectors type queueFull pool)) := by
  rcases diskCreatePartition_cases { system.disk with queueFull } index lba sectors type pool with
    ⟨result, refused⟩ | ⟨disk', written, ctx, returned, call⟩
  · refine ⟨_, ?_, inv.refused (.create index lba sectors)⟩
    unfold step
    dsimp only
    rw [refused]
    rfl
  · obtain ⟨mbr, given, old⟩ := call.given
    have accepted := diskCreatePartition_accepted given returned
    obtain ⟨entry, hasType, hasLba, hasSectors, rfl⟩ := accepted.written
    have range : entry.range = some (lba, sectors) := by
      unfold MbrPartEntry.range
      rw [hasType, if_neg accepted.used, hasLba, hasSectors, toUInt64_toUInt32 narrowLba,
        toUInt64_toUInt32 narrowSectors]
    have free : replay initial system.answers index = none :=
      inv.lists.find?_eq_none_iff.mp call.missing
    have empty : (tableEntry mbr index).range = none := if_pos accepted.free
    have before : system.disk.recorded index = none :=
      (recorded_of_given given accepted.inside).trans empty
    have recorded := @recorded_putEntry system.disk mbr index entry given accepted.inside
      system.disk.partitions queueFull
    have request : ctx.request system =
        { entry := none, oldMbrEntry := tableEntry mbr index, partname := ctx.partname, index,
          lba, sectors } := by
      unfold CoPartModify.request
      rw [call.entry, old, call.index, call.lba, call.sectors]
      rfl
    have ran : step system (.create index lba sectors type queueFull pool) =
        .ok { system with disk := disk', pending := system.pending ++ [ctx.request system] } := by
      unfold step
      dsimp only
      rw [returned]
      rfl
    refine ⟨_, ran, ?_⟩
    rw [call.disk, request]
    apply inv.joins
    · intro other member same
      cases inv.waits other member with
      | creating _ _ _ has _ _ =>
          change other.index = index at same
          rw [same, before] at has
          cases has
      | removing _ _ found at_ _ _ _ =>
          exact inv.lists.not_mem free _ (List.mem_of_getElem? found) (at_.trans same)
    · exact accepted.inside
    · refine .creating rfl free empty ?_ accepted.positive accepted.last
      refine (congrFun recorded index).trans ?_
      rw [Function.update_self]
      exact range
    · exact nofun
    · rfl
    · intro i other
      exact (congrFun recorded i).trans (Function.update_of_ne other _ _)
    · exact inv.lists
    · exact fun slot entry found _ => found
    · exact fun entry member _ => member

theorem retained_keys (partitions : Partitions) (index : Nat) :
    (retained partitions index).entries.map (·.key) = partitions.entries.map (·.key) := by
  unfold retained
  rw [List.map_map]
  refine List.map_congr_left fun entry _ => ?_
  dsimp only [Function.comp]
  split <;> rfl

theorem Inv.remove (inv : Inv initial system)
    (alone : ∀ ctx ∈ system.pending, ctx.index = index → ctx.entry = none) :
    Returns initial (step system (.remove index queueFull pool)) := by
  -- no request waits for an index that is in the list
  have idle : ∀ entry ∈ system.disk.partitions.entries, entry.index = index →
      ∀ other ∈ system.pending, other.index ≠ index := by
    intro entry member here other waiting same
    cases inv.waits other waiting with
    | creating _ free _ _ _ _ => exact inv.lists.not_mem free entry member (here.trans same.symm)
    | removing points _ _ _ _ _ _ =>
        rw [alone other waiting same] at points
        cases points
  have unheld : ∀ entry ∈ system.disk.partitions.entries, entry.index = index →
      entry.bdev.refcount = 0 := fun entry member here =>
    inv.unheld entry member fun other waiting => by
      rw [here]
      exact idle entry member here other waiting
  have few : ∀ entry ∈ system.disk.partitions.entries, entry.index = index →
      entry.bdev.refcount < maxRefc := fun entry member here => by
    rw [unheld entry member here]
    decide
  rcases diskRemovePartition_cases { system.disk with queueFull } index pool few with
    ⟨result, refused⟩ | ⟨disk', written, ctx, returned, call⟩
  · refine ⟨_, ?_, inv.refused (.remove index)⟩
    unfold step
    dsimp only
    rw [refused]
    rfl
  · obtain ⟨mbr, given, old, after⟩ := call.given
    obtain ⟨entry, points, found⟩ := call.found
    have member : entry ∈ system.disk.partitions.entries := List.mem_of_find?_eq_some found
    have here : entry.index = index := by simpa using List.find?_some found
    have recorded := @recorded_fill system.disk mbr index given call.inside
      (retained system.disk.partitions index) queueFull
    have slot : system.disk.partitions.entries[
        system.disk.partitions.entries.findIdx (·.index = index)]? = some entry :=
      List.find?_eq_getElem?_findIdx.symm.trans found
    have request : ctx.request system =
        { entry := some
            ⟨system.buffer, system.disk.partitions.entries.findIdx (·.index = index)⟩
          oldMbrEntry := tableEntry mbr index, partname := ctx.partname, index
          lba := ctx.lba, sectors := ctx.sectors } := by
      unfold CoPartModify.request
      rw [points, old, call.index]
      rfl
    have ran : step system (.remove index queueFull pool) =
        .ok { system with disk := disk', pending := system.pending ++ [ctx.request system] } := by
      unfold step
      dsimp only
      rw [returned]
      rfl
    have elements : ∀ slot, (retained system.disk.partitions index).entries[slot]? =
        (system.disk.partitions.entries[slot]?).map fun (other : PartitionEntry) =>
          if other.index = index then
            { other with bdev := { other.bdev with refcount := other.bdev.refcount + 1 } }
          else other := fun slot => List.getElem?_map
    refine ⟨_, ran, ?_⟩
    rw [after, request]
    apply inv.joins
    · exact idle entry member here
    · exact call.inside
    · have element : (retained system.disk.partitions index).entries[
          system.disk.partitions.entries.findIdx (·.index = index)]? =
            some { entry with
              bdev := { entry.bdev with refcount := entry.bdev.refcount + 1 } } := by
        rw [elements, slot, Option.map_some, if_pos here]
      refine .removing rfl rfl element ?_ ?_ ?_ ?_
      · exact here
      · show entry.bdev.refcount + 1 = 1
        rw [unheld entry member here]
      · rw [← inv.idle index (idle entry member here)]
        exact (recorded_of_given given call.inside).symm
      · refine (congrFun recorded index).trans ?_
        rw [Function.update_self]
    · exact nofun
    · rfl
    · intro i other
      exact (congrFun recorded i).trans (Function.update_of_ne other _ _)
    · exact inv.lists.congr (retained_keys _ _)
    · intro slot other found differs
      refine (elements slot).trans ?_
      rw [found, Option.map_some, if_neg differs]
    · intro other waiting differs
      obtain ⟨same, old, rfl⟩ := List.mem_map.mp waiting
      by_cases at_ : same.index = index
      · rw [if_pos at_] at differs
        exact absurd at_ differs
      · rw [if_neg at_]
        exact old

end Calls

section Runs

variable {initial : Table} {system : System}

/-- What keeps the requests apart: allocations succeed; a new partition has a range that an
entry can hold; a partition is removed by one request at a time; and no element that another
removal points to is moved. -/
def Admits (system : System) : Event → Prop
  | .create _ lba sectors _ _ pool =>
      Ample pool 1 ∧ lba.toNat < 2 ^ 32 ∧ sectors.toNat < 2 ^ 32
  | .remove index _ pool =>
      Ample pool 1 ∧ ∀ ctx ∈ system.pending, ctx.index = index → ctx.entry = none
  | .complete k succeeded pool =>
      Ample pool 1 ∧ (succeeded = true → ∀ ctx, system.pending[k]? = some ctx →
        Undisturbed system ctx)

theorem Inv.step (inv : Inv initial system) {event : Event} (admitted : Admits system event) :
    Returns initial (step system event) := by
  cases event with
  | create index lba sectors type queueFull pool => exact inv.create admitted.2.1 admitted.2.2
  | remove index queueFull pool => exact inv.remove admitted.2
  | complete k succeeded pool =>
      cases found : system.pending[k]? with
      | none =>
          refine ⟨system, ?_, inv⟩
          unfold Partition.step
          dsimp only
          rw [found]
      | some ctx =>
          have waits := inv.waits ctx (List.mem_of_getElem? found)
          cases succeeded with
          | false =>
              cases waits with
              | creating created free old _ _ _ => exact inv.forgets found created free old
              | removing points here element index held old _ =>
                  exact inv.restores found points here element index held old
          | true =>
              have undisturbed := admitted.2 rfl ctx found
              cases waits with
              | creating created free _ recorded positive last =>
                  exact inv.creates found admitted.1 undisturbed created free recorded positive last
              | removing points here element index _ _ recorded =>
                  exact inv.removes found undisturbed points here element index recorded

/-- A disk whose list says what its boot record says, with no request on its way and no
holder of a partition. -/
structure Consistent (system : System) : Prop where
  lists : Lists system.disk.partitions.entries system.disk.recorded
  unheld : ∀ entry ∈ system.disk.partitions.entries, entry.bdev.refcount = 0
  pending : system.pending = []
  answers : system.answers = []

/-- The answers so far stand for a table that the list says and, with no request on its way,
the boot record; each success was due, and the next step does not stop. -/
structure Linearized (initial : Table) (system : System) : Prop where
  lists : Lists system.disk.partitions.entries (replay initial system.answers)
  recorded : system.pending = [] → system.disk.recorded = replay initial system.answers
  legal : LegalAnswers initial system.answers
  returns : ∀ event, Admits system event → ∃ after, step system event = .ok after

theorem Consistent.inv (consistent : Consistent system) :
    Inv system.disk.recorded system := by
  obtain ⟨lists, unheld, pending, answers⟩ := consistent
  have same : replay system.disk.recorded system.answers = system.disk.recorded := by
    rw [answers]
    rfl
  refine ⟨?_, ?_, ?_, ?_, ?_, ?_, ?_, fun entry member _ => unheld entry member⟩
  · rwa [same]
  · rw [answers]
    trivial
  · exact fun some => absurd pending some
  · rw [pending]
    exact nofun
  · rw [pending]
    exact List.nodup_nil
  · rw [pending]
    exact nofun
  · intro i _
    rw [same]

theorem Inv.linearized (inv : Inv initial system) : Linearized initial system where
  lists := inv.lists
  recorded := fun none => funext fun i => inv.idle i fun ctx member => by
    rw [none] at member
    cases member
  legal := inv.legal
  returns := fun event admitted => by
    obtain ⟨after, ran, -⟩ := inv.step admitted
    exact ⟨after, ran⟩

theorem run_linearizes {init : System} (consistent : Consistent init)
    (reached : Reaches step Admits init system) : Linearized init.disk.recorded system := by
  have preserved : ∀ before event, Inv init.disk.recorded before → Admits before event →
      Ensures (fun _ => False) (Inv init.disk.recorded) (step before event) :=
    fun before event inv admitted => .of_returns (inv.step admitted)
  exact (reached.invariant consistent.inv preserved).linearized

def linuxEntry (lba sectors : UInt32) : MbrPartEntry :=
  { attr := 0, chsStart := (0xfe, 0xff, 0xff), type := 0x83, chsEnd := (0xfe, 0xff, 0xff), lba,
    sectors }

/-- A disk with the partitions 0, 1 and 2. -/
def threePartitions : System where
  disk :=
    { name := "hda"
      sectors := 0x10000
      partTableSectors := some (putEntry (putEntry (putEntry (fun _ => 0)
        (linuxEntry 0x100 0x100) 0) (linuxEntry 0x200 0x100) 1) (linuxEntry 0x300 0x100) 2)
      partitions :=
        { capacity := 64
          entries :=
            [⟨0, "hda:0", 0x100, 0x100, 0⟩, ⟨1, "hda:1", 0x200, 0x100, 0⟩,
              ⟨2, "hda:2", 0x300, 0x100, 0⟩] }
      queueFull := false }
  buffer := 0
  pending := []
  answers := []

theorem threePartitions_consistent : Consistent threePartitions := by
  refine ⟨⟨by decide, fun i range => ?_⟩, by decide, rfl, rfl⟩
  have recorded : ∀ i < 4, threePartitions.disk.recorded i =
      [some (0x100, 0x100), some (0x200, 0x100), some (0x300, 0x100), none].getD i none := by
    decide +kernel
  have entries : threePartitions.disk.partitions.entries =
      [⟨0, "hda:0", 0x100, 0x100, 0⟩, ⟨1, "hda:1", 0x200, 0x100, 0⟩,
        ⟨2, "hda:2", 0x300, 0x100, 0⟩] := rfl
  rw [entries]
  simp only [List.mem_cons, List.not_mem_nil, or_false, exists_eq_or_imp, exists_eq_left]
  by_cases inside : i < 4
  · rw [recorded i inside]
    obtain rfl | rfl | rfl | rfl : i = 0 ∨ i = 1 ∨ i = 2 ∨ i = 3 := by omega
    all_goals simp
  · have outside : threePartitions.disk.recorded i = none := if_neg inside
    rw [outside]
    refine iff_of_false nofun ?_
    rintro (⟨rfl, -⟩ | ⟨rfl, -⟩ | ⟨rfl, -⟩)
    all_goals exact inside (by decide)

theorem amplePool_ample_one : Ample amplePool 1 := amplePool_ample.mono (by decide)

/-- The state after a step that returns. -/
def System.after (system : System) (event : Event) : System :=
  match step system event with
  | .ok next => next
  | .error _ => system

theorem run_linearizes_removal : ∃ system,
    Reaches step Admits threePartitions system ∧ system.pending = [] ∧
      system.answers = [(.remove 1, true)] ∧
      Linearized threePartitions.disk.recorded system := by
  let waiting := threePartitions.after (.remove 1 false amplePool)
  have submit : step threePartitions (.remove 1 false amplePool) = .ok waiting := rfl
  have answer : step waiting (.complete 0 true amplePool) =
      .ok (waiting.after (.complete 0 true amplePool)) := rfl
  have first : Admits threePartitions (.remove 1 false amplePool) := ⟨amplePool_ample_one, nofun⟩
  have second : Admits waiting (.complete 0 true amplePool) := by
    refine ⟨amplePool_ample_one, fun _ ctx found other member differs => ?_⟩
    cases found
    exact absurd (congrArg Request.index (List.mem_singleton.mp member)) differs
  have answered : Reaches step Admits threePartitions
      (waiting.after (.complete 0 true amplePool)) :=
    (Reaches.start.step first submit).step second answer
  exact ⟨_, answered, rfl, rfl, run_linearizes threePartitions_consistent answered⟩

/-- The allocations of a step succeed. -/
def Event.Supplied : Event → Prop
  | .create _ _ _ _ _ pool => Ample pool 1
  | .remove _ _ pool => Ample pool 1
  | .complete _ _ pool => Ample pool 1

/-- Of two removals that wait at a time, the second one takes out another partition. -/
theorem run_not_always_linearizes : Consistent threePartitions ∧ ∃ system,
    Reaches step (fun _ event => event.Supplied) threePartitions system ∧
      system.pending = [] ∧ system.answers = [(.remove 0, true), (.remove 1, true)] ∧
      ¬Lists system.disk.partitions.entries system.disk.recorded := by
  let first := threePartitions.after (.remove 0 false amplePool)
  let both := first.after (.remove 1 false amplePool)
  let one := both.after (.complete 0 true amplePool)
  have step₁ : step threePartitions (.remove 0 false amplePool) = .ok first := rfl
  have step₂ : step first (.remove 1 false amplePool) = .ok both := rfl
  have step₃ : step both (.complete 0 true amplePool) = .ok one := rfl
  have step₄ : step one (.complete 0 true amplePool) =
      .ok (one.after (.complete 0 true amplePool)) := rfl
  have reached : Reaches step (fun _ event => event.Supplied) threePartitions
      (one.after (.complete 0 true amplePool)) := by
    refine .step (.step (.step (.step .start ?_ step₁) ?_ step₂) ?_ step₃) ?_ step₄
    all_goals exact amplePool_ample_one
  refine ⟨threePartitions_consistent, _, reached, rfl, rfl, fun lists => ?_⟩
  obtain ⟨entry, member, index, -⟩ := (lists.range 2 (0x300, 0x100)).mp (by decide +kernel)
  have only : entry = ⟨1, "hda:1", 0x200, 0x100, 1⟩ := List.mem_singleton.mp member
  rw [only] at index
  cases index

end Runs

end Opal.Partition
