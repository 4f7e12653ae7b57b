import Opal.Fat.Slots
import Opal.Fat.Updates

/-!
# What a volume holds

A volume holds the files of a view, each with a chain of clusters of its own.  An operation on a
file keeps to the chain of the file, to free clusters and to its entry, so that the volume still
holds all the other files, and nothing is changed in the clusters that belong to no file.
-/

namespace Opal.Fat

open Dirent (fatDentrySize fatDentryAt dentryIsEnd dentryIsSpecial)

section Views

/-- What is promised to the callers: the files by the index of their entry, and the handles. -/
structure View where
  files : Nat → Option File
  handles : List (Option Handle)

def View.withFile (view : View) (idx : Nat) (file : File) : View :=
  { view with files := Function.update view.files idx (some file) }

def View.moved (view : View) (h pos : Nat) : View :=
  { view with
    handles := view.handles.modify h (Option.map fun handle => { handle with pos := pos }) }

/-- The entry of a slot. -/
def Volume.entry (v : Volume) (idx : Nat) : Dentry := getDentry v.sectors idx

/-- The slot has the entry of a file. -/
structure Volume.IsFile (v : Volume) (idx : Nat) : Prop where
  inside : idx < v.layout.rootEntries
  visible : dentryIsVisible v.sectors idx = true
  isNormal : (v.entry idx).attr &&& fatAttrDirectory = 0

/-- The inode of a file agrees with its entry, and what it has read with the file. -/
structure Node.Stands (node : Node) (dentry : Dentry) (file : File) : Prop where
  first : maskEntry node.firstCluster = maskEntry dentry.firstCluster
  cached : ∀ buffer, node.buffer = some buffer → file.Shown node.filesize buffer

/-- The volume holds the files, each in a chain of its own. -/
structure Volume.Holds (v : Volume) (view : View) (chains : Nat → List Nat) : Prop where
  fixed : v.layout.Fixed
  works : v.table.Works
  synced : ∀ root, v.root = some root → SameSlots v.layout.rootEntries root v.sectors
  files : ∀ idx, (view.files idx).isSome = true ↔ v.IsFile idx
  stored : ∀ idx file, view.files idx = some file →
    file.Stored v.table v.clusters (v.entry idx) (chains idx)
  apart : ∀ idx other, idx ≠ other → (view.files idx).isSome = true →
    (view.files other).isSome = true → List.Disjoint (chains idx) (chains other)
  nodes : ∀ idx, (v.nodes idx).isSome = true →
    v.root.isSome = true ∧ idx < v.layout.rootEntries ∧ dentryIsVisible v.sectors idx = true
  stands : ∀ idx node file, v.nodes idx = some node → view.files idx = some file →
    node.Stands (v.entry idx) file
  handles : view.handles = v.handles
  opened : ∀ handle, some handle ∈ v.handles → (v.nodes handle.idx).isSome = true ∧
    (handle.writable = true → (view.files handle.idx).isSome = true)

/-- The cluster is in use and belongs to no file. -/
structure Volume.Foreign (v : Volume) (view : View) (chains : Nat → List Nat) (c : Nat) :
    Prop where
  inside : c < v.layout.clusterCount + 2
  used : v.table.stored c ≠ 0
  other : ∀ idx, (view.files idx).isSome = true → c ∉ chains idx

/-- The clusters that belong to no file are as they were. -/
def Spared (v : Volume) (view : View) (chains : Nat → List Nat) (after : Volume) (view' : View)
    (chains' : Nat → List Nat) : Prop :=
  ∀ c, v.Foreign view chains c → after.Foreign view' chains' c ∧
    after.table.stored c = v.table.stored c ∧ after.clusters c = v.clusters c

@[simp]
theorem View.withFile_self {view : View} {idx : Nat} {file : File} :
    (view.withFile idx file).files idx = some file := Function.update_self ..

theorem View.withFile_eq {view : View} {idx : Nat} {file : File}
    (found : view.files idx = some file) : view.withFile idx file = view := by
  unfold View.withFile
  rw [← found, Function.update_eq_self]

theorem View.withFile_other {view : View} {idx other : Nat} {file : File}
    (differs : other ≠ idx) : (view.withFile idx file).files other = view.files other :=
  Function.update_of_ne differs _ _

variable {v after : Volume} {view view' view'' : View} {chains chains' chains'' : Nat → List Nat}
  {idx : Nat} {chain chain' : List Nat} {file file' : File} {node : Node}

/-- Volumes with the same directory have the same files. -/
theorem Volume.isFile_congr (layout : after.layout = v.layout)
    (sectors : after.sectors = v.sectors) : after.IsFile idx ↔ v.IsFile idx := by
  have entry : after.entry idx = v.entry idx := congrArg (getDentry · idx) sectors
  constructor
  · rintro ⟨inside, visible, isNormal⟩
    rw [layout] at inside
    rw [sectors] at visible
    rw [entry] at isNormal
    exact ⟨inside, visible, isNormal⟩
  · rintro ⟨inside, visible, isNormal⟩
    rw [← layout] at inside
    rw [← sectors] at visible
    rw [← entry] at isNormal
    exact ⟨inside, visible, isNormal⟩

theorem Spared.refl (v : Volume) (view : View) (chains : Nat → List Nat) :
    Spared v view chains v view chains := fun _ foreign => ⟨foreign, rfl, rfl⟩

theorem Spared.trans {middle : Volume} (first : Spared v view chains middle view' chains')
    (second : Spared middle view' chains' after view'' chains'') :
    Spared v view chains after view'' chains'' := by
  intro c foreign
  obtain ⟨foreign', entry, data⟩ := first c foreign
  obtain ⟨foreign'', entry', data'⟩ := second c foreign'
  exact ⟨foreign'', entry'.trans entry, data'.trans data⟩

/-- The table and the clusters are the same. -/
theorem Spared.of_same (files : view'.files = view.files) (table : after.table = v.table)
    (clusters : after.clusters = v.clusters) : Spared v view chains after view' chains := by
  rintro c ⟨inside, used, other⟩
  refine ⟨⟨?_, ?_, ?_⟩, by rw [table], by rw [clusters]⟩
  · rw [Volume.layout, table]
    exact inside
  · rwa [table]
  · rw [files]
    exact other

/-- What an operation on a file does to the volume. -/
structure Changes (v : Volume) (idx : Nat) (chain : List Nat) (after : Volume) (file' : File)
    (chain' : List Nat) : Prop where
  confined : Confined v.table v.clusters chain after.table after.clusters chain'
  root : after.root.isSome = true
  synced : ∀ root, after.root = some root → SameSlots v.layout.rootEntries root after.sectors
  others : ∀ other < v.layout.rootEntries, other ≠ idx → SameSlot after.sectors v.sectors other
  isFile : after.IsFile idx
  stored : file'.Stored after.table after.clusters (after.entry idx) chain'
  nodes : ∀ other, other ≠ idx → after.nodes other = v.nodes other
  node : ∃ node, after.nodes idx = some node ∧ node.Stands (after.entry idx) file'
  handles : after.handles = v.handles

theorem Changes.isFile_iff (changes : Changes v idx chain after file' chain') {other : Nat}
    (differs : other ≠ idx) : after.IsFile other ↔ v.IsFile other := by
  have entries : after.layout.rootEntries = v.layout.rootEntries :=
    congrArg Layout.rootEntries changes.confined.layout
  constructor
  · rintro ⟨inside, visible, isNormal⟩
    rw [entries] at inside
    have same := changes.others other inside differs
    unfold Volume.entry at isNormal
    rw [same.isVisible] at visible
    rw [same.getDentry] at isNormal
    exact ⟨inside, visible, isNormal⟩
  · rintro ⟨inside, visible, isNormal⟩
    have same := changes.others other inside differs
    refine ⟨by rwa [entries], by rwa [same.isVisible], ?_⟩
    unfold Volume.entry
    rwa [same.getDentry]

/-- The chain is the one of the file, if there is a file. -/
def Own (view : View) (chains : Nat → List Nat) (idx : Nat) (chain : List Nat) : Prop :=
  chain = [] ∨ (view.files idx).isSome = true ∧ chain = chains idx

/-- An operation on a file leaves the clusters that belong to no file. -/
theorem Changes.spared (changes : Changes v idx chain after file' chain')
    (own : Own view chains idx chain) : Spared v view chains after (view.withFile idx file')
      (Function.update chains idx chain') := by
  rintro c ⟨inside, used, other⟩
  have outside : c ∉ chain := by
    rcases own with rfl | ⟨present, rfl⟩
    · exact List.not_mem_nil
    · exact other idx present
  have entry := changes.confined.entries c inside used outside
  refine ⟨⟨?_, ?_, fun slot present => ?_⟩, entry, changes.confined.data c used outside⟩
  · rwa [Volume.layout, changes.confined.layout]
  · rwa [entry]
  · by_cases same : slot = idx
    · rw [same, Function.update_self]
      exact fun member => (changes.confined.fresh c member).elim outside used
    · rw [View.withFile_other same] at present
      rw [Function.update_of_ne same]
      exact other slot present

/-- An operation on a file leaves the other files. -/
theorem Volume.Holds.update (holds : v.Holds view chains)
    (changes : Changes v idx chain after file' chain') (own : Own view chains idx chain) :
    after.Holds (view.withFile idx file') (Function.update chains idx chain') := by
  have layout : after.layout = v.layout := changes.confined.layout
  have apart {other : Nat} (differs : other ≠ idx) (present : (view.files other).isSome = true) :
      List.Disjoint (chains other) chain := by
    rcases own with rfl | ⟨mine, rfl⟩
    · exact List.disjoint_nil_right _
    · exact holds.apart other idx differs present mine
  have apart' {other : Nat} (differs : other ≠ idx) (present : (view.files other).isSome = true) :
      List.Disjoint (chains other) chain' := by
    obtain ⟨file, found⟩ := Option.isSome_iff_exists.mp present
    exact changes.confined.disjoint (holds.stored other file found) (apart differs present)
  have entry {other : Nat} (differs : other ≠ idx) (present : (view.files other).isSome = true) :
      after.entry other = v.entry other :=
    (changes.others other ((holds.files other).mp present).inside differs).getDentry
  refine ⟨?_, changes.confined.works, ?_, fun other => ?_, fun other file found => ?_,
    fun slot other differs present present' => ?_, fun other present => ?_,
    fun other node file inUse found => ?_, holds.handles.trans changes.handles.symm,
    fun handle member => ?_⟩
  · rw [layout]
    exact holds.fixed
  · rw [layout]
    exact changes.synced
  · by_cases same : other = idx
    · rw [same, View.withFile_self]
      exact ⟨fun _ => changes.isFile, fun _ => rfl⟩
    · rw [View.withFile_other same]
      exact (holds.files other).trans (changes.isFile_iff same).symm
  · by_cases same : other = idx
    · subst same
      rw [View.withFile_self] at found
      cases found
      rw [Function.update_self]
      exact changes.stored
    · rw [View.withFile_other same] at found
      have present := Option.isSome_of_eq_some found
      rw [Function.update_of_ne same, entry same present]
      exact changes.confined.spares (holds.stored other file found) (apart same present)
  · by_cases first : slot = idx <;> by_cases second : other = idx
    · exact absurd (first.trans second.symm) differs
    · rw [View.withFile_other second] at present'
      rw [first, Function.update_self, Function.update_of_ne second]
      exact (apart' second present').symm
    · rw [View.withFile_other first] at present
      rw [second, Function.update_self, Function.update_of_ne first]
      exact apart' first present
    · rw [View.withFile_other first] at present
      rw [View.withFile_other second] at present'
      rw [Function.update_of_ne first, Function.update_of_ne second]
      exact holds.apart slot other differs present present'
  · by_cases same : other = idx
    · rw [same]
      exact ⟨changes.root, changes.isFile.inside, changes.isFile.visible⟩
    · rw [changes.nodes other same] at present
      obtain ⟨-, inside, visible⟩ := holds.nodes other present
      rw [layout, (changes.others other inside same).isVisible]
      exact ⟨changes.root, inside, visible⟩
  · by_cases same : other = idx
    · subst same
      obtain ⟨node', inUse', stands⟩ := changes.node
      rw [View.withFile_self] at found
      cases found
      cases inUse.symm.trans inUse'
      exact stands
    · rw [View.withFile_other same] at found
      rw [changes.nodes other same] at inUse
      rw [entry same (Option.isSome_of_eq_some found)]
      exact holds.stands other node file inUse found
  · rw [changes.handles] at member
    obtain ⟨inUse, writes⟩ := holds.opened handle member
    by_cases same : handle.idx = idx
    · obtain ⟨node, inUse', -⟩ := changes.node
      rw [same, inUse', View.withFile_self]
      exact ⟨rfl, fun _ => rfl⟩
    · rw [changes.nodes _ same, View.withFile_other same]
      exact ⟨inUse, writes⟩

end Views

section Operations

variable {v after : Volume} {view : View} {chains : Nat → List Nat} {idx pos : Nat}
  {chain chain' : List Nat} {file file' : File} {node node' : Node} {dentry' : Dentry}
  {root buffer sectors : Memory} {table : FatTable} {clusters : Nat → Memory} {mem : AllocOracle}
  {inode : Inode}

/-- The volume with a file in another state. -/
def Volume.replaced (v : Volume) (idx : Nat) (table : FatTable) (clusters : Nat → Memory)
    (buffer sectors : Memory) (node : Node) (mem : AllocOracle) : Volume :=
  { v with
    table := table
    clusters := clusters
    root := some buffer
    sectors := sectors
    nodes := Function.update v.nodes idx (some node)
    mem := mem }

theorem Volume.IsFile.sized (isFile : v.IsFile idx) : (v.entry idx).hasSize = true := by
  obtain ⟨-, visible, isNormal⟩ := isFile
  have same : (fatDentryAt v.sectors idx).attr = (v.entry idx).attr := rfl
  have noLabel : (v.entry idx).attr &&& fatAttrVlabel = 0 := by
    unfold dentryIsVisible dentryIsSpecial at visible
    rw [same] at visible
    by_contra label
    simp [label] at visible
  unfold Dentry.hasSize
  rw [Nat.and_or_distrib_left, noLabel, isNormal]
  rfl

/-- A recorded change of a file. -/
theorem Recorded.changes (recorded : Recorded v idx dentry' buffer sectors)
    (isFile : v.IsFile idx) (attr : dentry'.attr = (v.entry idx).attr)
    (confined : Confined v.table v.clusters chain table clusters chain')
    (stored : file'.Stored table clusters dentry' chain') (stands : node'.Stands dentry' file') :
    Changes v idx chain (v.replaced idx table clusters buffer sectors node' mem) file' chain' := by
  have layout : table.layout = v.layout := confined.layout
  have entry : (v.replaced idx table clusters buffer sectors node' mem).entry idx = dentry' :=
    recorded.entry
  refine ⟨confined, rfl, ?_, recorded.others, ⟨?_, ?_, ?_⟩, ?_, ?_, ⟨node', ?_, ?_⟩, rfl⟩
  · rintro root' same
    cases same
    exact recorded.synced
  · show idx < table.layout.rootEntries
    rw [layout]
    exact isFile.inside
  · exact recorded.visible.trans isFile.visible
  · rw [entry, attr]
    exact isFile.isNormal
  · rw [entry]
    exact stored
  · exact fun other differs => Function.update_of_ne differs _ _
  · exact Function.update_self ..
  · rw [entry]
    exact stands

/-- The buffer of the directory has the entry of a file. -/
theorem Volume.Holds.entry_eq (holds : v.Holds view chains) (present : v.root = some root)
    (inside : idx < v.layout.rootEntries) : getDentry root idx = v.entry idx :=
  ((holds.synced root present).slot inside).getDentry

/-- The inode of a file stands for the file. -/
theorem Volume.Holds.behind (holds : v.Holds view chains) (found : view.files idx = some file)
    (inUse : v.nodes idx = some node) (present : v.root = some root) :
    file.Behind (v.inode node (getDentry root idx) pos) (getDentry root idx) (chains idx) ∧
      (v.inode node (getDentry root idx) pos).Works := by
  have isFile := (holds.files idx).mp (Option.isSome_of_eq_some found)
  have stands := holds.stands idx node file inUse found
  rw [holds.entry_eq present isFile.inside]
  exact ⟨⟨rfl, isFile.sized, holds.stored idx file found, stands.first, stands.cached⟩,
    ⟨holds.works, rfl, rfl, rfl, holds.fixed⟩⟩

/-- The volume behind an operation on the inode of a file. -/
theorem Volume.Holds.changes (holds : v.Holds view chains) (isFile : v.IsFile idx)
    (present : v.root = some root)
    (rewrites : Rewrites (v.inode node (getDentry root idx) pos) (getDentry root idx) chain inode
      file' dentry' chain') :
    Changes v idx chain ((v.withInode idx inode).recorded idx root inode) file' chain' ∧
      ((v.withInode idx inode).recorded idx root inode).table = inode.table := by
  obtain ⟨behind, confined, attr, fits⟩ := rewrites
  have layout : (v.withInode idx inode).layout = v.layout := confined.layout
  obtain ⟨buffer, sectors, replaced, recorded⟩ :=
    @recorded_recorded (v.withInode idx inode) root idx dentry' inode present
      (by rw [layout]; exact holds.synced root present) (by rw [layout]; exact isFile.inside)
      behind.entry attr fits.1 fits.2
  obtain ⟨synced, others, entry, visible⟩ := recorded
  rw [layout] at synced others
  have stands : Node.Stands
      { firstCluster := inode.firstCluster, filesize := inode.filesize, buffer := inode.buffer }
      dentry' file' := ⟨behind.first, behind.cached⟩
  rw [holds.entry_eq present isFile.inside] at attr
  rw [replaced]
  exact ⟨Recorded.changes ⟨synced, others, entry, visible⟩ isFile attr confined behind.stored
    stands, rfl⟩

/-- A read of a file changes no file. -/
theorem Volume.Holds.looked (holds : v.Holds view chains) (found : view.files idx = some file)
    (present : v.root = some root) (looked : Looked (v.inode node (getDentry root idx) pos) inode)
    (behind : file.Behind inode (getDentry root idx) (chains idx)) :
    (v.withInode idx inode).Holds view chains ∧
      Spared v view chains (v.withInode idx inode) view chains := by
  have isSome := Option.isSome_of_eq_some found
  obtain ⟨changes, -⟩ := holds.changes ((holds.files idx).mp isSome) present
    ⟨behind, looked.confined, rfl, getDentry_fits root idx⟩
  have recorded : (v.withInode idx inode).recorded idx root inode = v.withInode idx inode := by
    unfold Volume.recorded
    rw [behind.entry]
    exact if_pos rfl
  have own : Own view chains idx (chains idx) := .inr ⟨isSome, rfl⟩
  have held := holds.update changes own
  have spared := changes.spared own
  rw [recorded, View.withFile_eq found, Function.update_eq_self] at held spared
  exact ⟨held, spared⟩

end Operations

section Quiet

variable {v : Volume} {view : View} {chains : Nat → List Nat} {idx pos h : Nat} {root : Memory}
  {mem : AllocOracle}

theorem Volume.Holds.withMem (holds : v.Holds view chains) (mem : AllocOracle) :
    Volume.Holds { v with mem := mem } view chains := by
  obtain ⟨fixed, works, synced, files, stored, apart, nodes, stands, handles, opened⟩ := holds
  exact ⟨fixed, works, synced, fun idx => (files idx).trans (Volume.isFile_congr rfl rfl),
    stored, apart, nodes, stands, handles, opened⟩

theorem Volume.Holds.withRoot (holds : v.Holds view chains)
    (same : SameSlots v.layout.rootEntries root v.sectors) :
    Volume.Holds { v with root := some root } view chains := by
  obtain ⟨fixed, works, -, files, stored, apart, nodes, stands, handles, opened⟩ := holds
  refine ⟨fixed, works, ?_, fun idx => (files idx).trans (Volume.isFile_congr rfl rfl),
    stored, apart, fun idx present => ?_, stands, handles, opened⟩
  · rintro root' same'
    cases same'
    exact same
  · exact ⟨rfl, (nodes idx present).2⟩

@[simp]
theorem Volume.withNode_self {first : Nat} : (v.withNode idx first).nodes idx =
    some { firstCluster := first, filesize := 0, buffer := none } := Function.update_self ..

theorem Volume.withNode_of_ne {first other : Nat} (differs : other ≠ idx) :
    (v.withNode idx first).nodes other = v.nodes other := Function.update_of_ne differs _ _

/-- An inode is made from the entry. -/
theorem Volume.Holds.withNode (holds : v.Holds view chains) (present : v.root.isSome = true)
    (inside : idx < v.layout.rootEntries) (visible : dentryIsVisible v.sectors idx = true) :
    (v.withNode idx (v.entry idx).firstCluster).Holds view chains := by
  obtain ⟨fixed, works, synced, files, stored, apart, nodes, stands, handles, opened⟩ := holds
  refine ⟨fixed, works, synced, fun idx => (files idx).trans (Volume.isFile_congr rfl rfl),
    stored, apart, fun other inUse => ?_,
    fun other node file inUse found => ?_, handles, fun handle member => ?_⟩
  · by_cases same : other = idx
    · rw [same]
      exact ⟨present, inside, visible⟩
    · rw [Volume.withNode_of_ne same] at inUse
      exact nodes other inUse
  · by_cases same : other = idx
    · subst same
      rw [Volume.withNode_self] at inUse
      cases inUse
      exact ⟨rfl, fun _ some => nomatch some⟩
    · rw [Volume.withNode_of_ne same] at inUse
      exact stands other node file inUse found
  · obtain ⟨inUse, writes⟩ := opened handle member
    refine ⟨?_, writes⟩
    by_cases same : handle.idx = idx
    · rw [same, Volume.withNode_self]
      rfl
    · rw [Volume.withNode_of_ne same]
      exact inUse

/-- Only the handles are others. -/
theorem Volume.Holds.withHandles (holds : v.Holds view chains) (handles : List (Option Handle))
    (opened : ∀ handle, some handle ∈ handles → (v.nodes handle.idx).isSome = true ∧
      (handle.writable = true → (view.files handle.idx).isSome = true)) :
    Volume.Holds { v with handles := handles } { view with handles := handles } chains := by
  obtain ⟨fixed, works, synced, files, stored, apart, nodes, stands, -, -⟩ := holds
  exact ⟨fixed, works, synced, fun idx => (files idx).trans (Volume.isFile_congr rfl rfl),
    stored, apart, nodes, stands, rfl, opened⟩

theorem Volume.Holds.moved (holds : v.Holds view chains) :
    (v.moved h pos).Holds (view.moved h pos) chains := by
  have moved : view.moved h pos = { view with handles := (v.moved h pos).handles } := by
    unfold View.moved
    rw [holds.handles]
    rfl
  rw [moved]
  refine holds.withHandles _ fun handle member => ?_
  obtain ⟨i, here⟩ := List.mem_iff_getElem?.mp member
  rw [List.getElem?_modify] at here
  obtain ⟨slot, there, same⟩ := Option.map_eq_some_iff.mp here
  have found : ∃ handle', some handle' ∈ v.handles ∧ handle.idx = handle'.idx ∧
      handle.writable = handle'.writable := by
    have member' := List.mem_of_getElem? there
    by_cases mine : h = i
    · rw [if_pos mine] at same
      obtain ⟨handle', rfl, rfl⟩ := Option.map_eq_some_iff.mp same
      exact ⟨handle', member', rfl, rfl⟩
    · rw [if_neg mine] at same
      cases same
      exact ⟨handle, member', rfl, rfl⟩
  obtain ⟨handle', member', idx, writable⟩ := found
  rw [idx, writable]
  exact holds.opened handle' member'

/-- An inode without handles is given back. -/
theorem Volume.Holds.forget (holds : v.Holds view chains)
    (unused : ∀ handle, some handle ∈ v.handles → handle.idx ≠ idx) :
    Volume.Holds { v with nodes := Function.update v.nodes idx none } view chains := by
  obtain ⟨fixed, works, synced, files, stored, apart, nodes, stands, handles, opened⟩ := holds
  have kept {other : Nat} {node : Node}
      (inUse : Function.update v.nodes idx none other = some node) :
      v.nodes other = some node := by
    by_cases same : other = idx
    · rw [same, Function.update_self] at inUse
      cases inUse
    · rwa [Function.update_of_ne same] at inUse
  refine ⟨fixed, works, synced, fun idx => (files idx).trans (Volume.isFile_congr rfl rfl),
    stored, apart, fun other present => ?_,
    fun other node file inUse found => stands other node file (kept inUse) found, handles,
    fun handle member => ?_⟩
  · obtain ⟨node, inUse⟩ := Option.isSome_iff_exists.mp present
    exact nodes other (Option.isSome_of_eq_some (kept inUse))
  · obtain ⟨inUse, writes⟩ := opened handle member
    refine ⟨?_, writes⟩
    dsimp only
    rw [Function.update_of_ne (unused handle member)]
    exact inUse

/-- What is mounted again is what the device holds. -/
theorem Volume.Holds.mount (holds : v.Holds view chains)
    (unused : ∀ handle, some handle ∉ v.handles) :
    Volume.Holds { v with
      table := { v.table with buffer := none }
      root := none
      nodes := fun _ => none } view chains ∧
    ∀ c < v.layout.clusterCount + 2,
      FatTable.stored { v.table with buffer := none } c = v.table.stored c := by
  obtain ⟨fixed, works, synced, files, stored, apart, nodes, stands, handles, opened⟩ := holds
  have same : ∀ c < v.layout.clusterCount + 2,
      FatTable.stored { v.table with buffer := none } c = v.table.stored c := fun c inside =>
    works.stored_unloaded fixed.holds inside
  refine ⟨⟨fixed, works.unloaded, nofun, fun idx => (files idx).trans
    (Volume.isFile_congr rfl rfl), fun idx file found => ?_, apart,
    nofun, nofun, handles, fun handle member => absurd member (unused handle)⟩, same⟩
  have here := stored idx file found
  exact here.congr rfl (fun c member => same c (here.chained.entry member)) fun _ _ => rfl

/-- The directory is read. -/
theorem Volume.Holds.readall (holds : v.Holds view chains) :
    (∃ mem, rootInodeReadall v = (.error .enomem, { v with mem := mem }) ∧ ¬v.mem.Succeeds) ∨
      ∃ root mem, rootInodeReadall v = (.ok root, { v with root := some root, mem := mem }) ∧
        SameSlots v.layout.rootEntries root v.sectors ∧ (v.mem.Succeeds → mem.Succeeds) := by
  cases present : v.root with
  | some root =>
      refine .inr ⟨root, v.mem, ?_, holds.synced root present, id⟩
      rw [rootInodeReadall_of_some present, ← present]
  | none =>
      unfold rootInodeReadall Dirent.rootInodeReadall
      rw [present]
      dsimp only
      cases allocated : v.mem.head with
      | false =>
          exact .inl ⟨v.mem.tail, by rw [← present]; rfl, fun succeeds =>
            absurd (succeeds.head.symm.trans allocated) (by decide)⟩
      | true =>
          exact .inr ⟨v.sectors, v.mem.tail, rfl, fun _ _ => rfl, fun succeeds => succeeds.tail⟩

/-- A slot for a new file is looked for. -/
theorem Volume.Holds.allocDentry (holds : v.Holds view chains) :
    (∃ mem, rootInodeAllocDentry v = (.error .enomem, { v with mem := mem }) ∧ ¬v.mem.Succeeds) ∨
      ∃ root mem, SameSlots v.layout.rootEntries root v.sectors ∧
        (rootInodeAllocDentry v = (.error .enospc, { v with root := some root, mem := mem }) ∧
            (∀ idx < v.layout.rootEntries, dentryIsFree v.sectors idx = false) ∨
          ∃ idx, rootInodeAllocDentry v = (.ok idx, { v with root := some root, mem := mem }) ∧
            idx < v.layout.rootEntries ∧ dentryIsFree v.sectors idx = true) := by
  unfold rootInodeAllocDentry
  rcases holds.readall with ⟨mem, failed, short⟩ | ⟨root, mem, read, same, -⟩
  · rw [Op.run_bind_error failed]
    exact .inl ⟨mem, rfl, short⟩
  · rw [Op.run_bind_ok read, Op.run_get_bind]
    refine .inr ⟨root, mem, same, ?_⟩
    have layout : Volume.layout { v with root := some root, mem := mem } = v.layout := rfl
    rw [layout]
    cases found : (List.range v.layout.rootEntries).find? (dentryIsFree root) with
    | none =>
        refine .inl ⟨rfl, fun idx inside => ?_⟩
        have taken := List.find?_eq_none.mp found idx (List.mem_range.mpr inside)
        rw [← (same.slot inside).isFree]
        exact Bool.eq_false_iff.mpr taken
    | some idx =>
        have inside := List.mem_range.mp (List.mem_of_find?_eq_some found)
        refine .inr ⟨idx, rfl, inside, ?_⟩
        rw [← (same.slot inside).isFree]
        exact List.find?_some found

/-- A new file is empty and has no clusters. -/
theorem Volume.Holds.newFile (holds : v.Holds view chains) {name : FileName} {out : List UInt8}
    {buffer sectors : Memory} (packed : packFilename name.1 = some out)
    (inside : idx < v.layout.rootEntries) (writes : Writes v idx (newDentry out) buffer sectors) :
    Changes v idx []
      (Volume.withNode { v with root := some buffer, sectors := sectors } idx 0) .empty [] := by
  obtain ⟨synced, others, written⟩ := writes
  obtain ⟨visible, entry⟩ := newDentry_isFile name packed written
  refine ⟨(Still.refl _).confined holds.works, rfl, ?_, others, ⟨inside, visible, ?_⟩, ?_, ?_,
    ⟨_, Function.update_self .., ?_⟩, rfl⟩
  · rintro root same
    cases same
    exact synced
  · show (getDentry sectors idx).attr &&& fatAttrDirectory = 0
    rw [entry]
    rfl
  · show File.empty.Stored v.table v.clusters (getDentry sectors idx) []
    rw [entry]
    exact File.empty_stored rfl rfl
  · exact fun other differs => Function.update_of_ne differs _ _
  · refine ⟨?_, nofun⟩
    show maskEntry 0 = maskEntry (getDentry sectors idx).firstCluster
    rw [entry]

end Quiet

end Opal.Fat
