import Opal.Cpio.Paths

/-!
# The tree of a cpio archive

A tree is seen as a map from paths to what lies there.  An entry is inserted exactly when it
fits the map, and the map says what the tree is afterwards.
-/

namespace Opal.Cpio

section Views

/-- What lies at a path. -/
inductive Kind (δ : Type) where
  | dir (explicit : Bool)
  | file (data : δ)
  deriving DecidableEq, Repr

/-- A file's pointer into the buffer and its size. -/
abbrev Slice := Option Nat × Nat

def Node.kind (node : Node) : Kind Slice :=
  if node.attr.isDir then .dir node.attr.explicit else .file (node.attr.data, node.attr.size)

def Node.lookup : Node → List Name → Option Node
  | node, [] => some node
  | node, name :: rest => (findChild node.children name).bind fun child => child.lookup rest

abbrev View (δ : Type) := List Name → Option (Kind δ)

def Node.view (node : Node) : View Slice := fun path => (node.lookup path).map Node.kind

/-- A name that a path can have as a component. -/
structure ValidName (name : Name) : Prop where
  nonempty : name ≠ []
  notDot : name ≠ [dot]
  notDotdot : name ≠ [dot, dot]
  plain : slash ∉ name

inductive Node.Wf : Node → Prop where
  | mk {name : Name} {attr : Attr} {children : List Node}
      (distinct : (children.map Node.name).Nodup)
      (valid : ∀ child ∈ children, ValidName child.name)
      (leaf : attr.isDir = false → children = [])
      (wf : ∀ child ∈ children, child.Wf) : (Node.mk name attr children).Wf

variable {node child : Node} {name : Name}

theorem view_nil : node.view [] = some node.kind := rfl

theorem view_cons (rest : List Name) :
    node.view (name :: rest) = (findChild node.children name).bind fun child =>
      child.view rest := by
  unfold Node.view
  show ((findChild node.children name).bind fun child => child.lookup rest).map Node.kind = _
  cases findChild node.children name with
  | none => rfl
  | some child => rfl

theorem findChild_name {children : List Node} (found : findChild children name = some child) :
    child.name = name := by
  have holds := List.find?_some found
  exact of_decide_eq_true holds

theorem findChild_mem {children : List Node} (found : findChild children name = some child) :
    child ∈ children := List.mem_of_find?_eq_some found

/-- The child that was put is found under its name, the others as before. -/
theorem findChild_putChild {children : List Node} (named : child.name = name) (other : Name) :
    findChild (putChild name child children) other =
      if other = name then some child else findChild children other := by
  induction children with
  | nil =>
      unfold putChild findChild
      by_cases same : other = name
      · rw [if_pos same, List.find?_cons_of_pos (by rw [named, same]; exact decide_eq_true rfl)]
      · rw [if_neg same, List.find?_cons_of_neg (by
          rw [named]
          simpa using fun equal => same equal.symm)]
  | cons first rest inductionHypothesis =>
      unfold putChild
      unfold findChild at inductionHypothesis ⊢
      by_cases here : first.name = name
      · rw [if_pos here]
        by_cases same : other = name
        · rw [if_pos same, List.find?_cons_of_pos (by rw [named, same]; exact decide_eq_true rfl)]
        · rw [if_neg same, List.find?_cons_of_neg, List.find?_cons_of_neg]
          · rw [here]
            simpa using fun equal => same equal.symm
          · rw [named]
            simpa using fun equal => same equal.symm
      · rw [if_neg here, List.find?_cons, inductionHypothesis, List.find?_cons]
        split
        · rename_i found
          rw [if_neg fun same => here ((of_decide_eq_true found).trans same)]
        · rfl

theorem mem_putChild {children : List Node} {other : Node}
    (member : other ∈ putChild name child children) : other = child ∨ other ∈ children := by
  induction children with
  | nil => exact .inl (List.mem_singleton.mp member)
  | cons first rest inductionHypothesis =>
      unfold putChild at member
      split at member
      · exact (List.mem_cons.mp member).imp_right (List.mem_cons_of_mem _)
      · rcases List.mem_cons.mp member with rfl | later
        · exact .inr List.mem_cons_self
        · exact (inductionHypothesis later).imp_right (List.mem_cons_of_mem _)

theorem names_putChild {children : List Node} (named : child.name = name)
    (distinct : (children.map Node.name).Nodup) :
    ((putChild name child children).map Node.name).Nodup := by
  induction children with
  | nil => exact List.nodup_cons.mpr ⟨List.not_mem_nil, List.nodup_nil⟩
  | cons first rest inductionHypothesis =>
      unfold putChild
      rw [List.map_cons] at distinct
      obtain ⟨fresh, distinct'⟩ := List.nodup_cons.mp distinct
      split
      · rename_i here
        rw [List.map_cons, named, ← here]
        exact distinct
      · rename_i elsewhere
        rw [List.map_cons]
        refine List.nodup_cons.mpr ⟨?_, inductionHypothesis distinct'⟩
        intro member
        obtain ⟨other, inside, same⟩ := List.mem_map.mp member
        rcases mem_putChild inside with rfl | old
        · exact elsewhere (same ▸ named)
        · exact fresh (List.mem_map.mpr ⟨other, old, same⟩)

theorem Node.Wf.of_mem (wf : node.Wf) (member : child ∈ node.children) : child.Wf := by
  cases wf with
  | mk _ _ _ wf => exact wf child member

/-- A directory with a child put into it. -/
theorem Node.Wf.withChild (wf : node.Wf) (isDir : node.attr.isDir = true) (childWf : child.Wf)
    (named : child.name = name) (valid : ValidName name) : (node.withChild name child).Wf := by
  cases wf with
  | @mk ownName attr children distinct valid' leaf wf =>
      refine .mk (names_putChild named distinct) ?_ ?_ ?_
      · intro other member
        rcases mem_putChild member with rfl | old
        · exact named ▸ valid
        · exact valid' other old
      · intro isFile
        rw [show (Node.mk ownName attr children).attr.isDir = true from isDir] at isFile
        cases isFile
      · intro other member
        rcases mem_putChild member with rfl | old
        · exact childWf
        · exact wf other old

theorem view_withChild (named : child.name = name) (first : Name) (rest : List Name) :
    (node.withChild name child).view (first :: rest) =
      if first = name then child.view rest else node.view (first :: rest) := by
  rw [view_cons, view_cons]
  show (findChild (putChild name child node.children) first).bind _ = _
  rw [findChild_putChild named]
  split
  · rfl
  · rfl

end Views

section Entries

variable {δ : Type} {view : View δ} {path rest : List Name} {seg : Name} {isDir : Bool}

/-- The path without its `.` components. -/
def normal (path : List Name) : List Name := path.filter fun name => name ≠ [dot]

/-- The path of the node an entry describes itself; there is none where the path ends in
`.` or has no component. -/
def leafPath (path : List Name) : Option (List Name) :=
  if path.getLast? = none ∨ path.getLast? = some [dot] then none else some (normal path)

/-- The entry can be added: its path is allowed, lies in directories, and what it describes
is new or was only a directory on the way. -/
structure Fits (view : View δ) (path : List Name) (isDir : Bool) : Prop where
  allowed : ∀ name ∈ path, name.length ≤ vfsMaxName ∧ name ≠ [dot, dot]
  dirs : ∀ p, p <+: normal path → leafPath path ≠ some p → ∀ data, view p ≠ some (.file data)
  leaf : ∀ p, leafPath path = some p → view p = none ∨ view p = some (.dir false) ∧ isDir = true
  onlyDir : leafPath path = none → isDir = true

/-- The map after an entry was added. -/
def after (view : View δ) (path : List Name) (kind : Kind δ) : View δ := fun p =>
  if leafPath path = some p then some kind
  else if p <+: normal path then some ((view p).getD (.dir false))
  else view p

theorem normal_dot : normal ([dot] :: rest) = normal rest :=
  List.filter_cons_of_neg (by simp)

theorem normal_cons (named : seg ≠ [dot]) : normal (seg :: rest) = seg :: normal rest :=
  List.filter_cons_of_pos (by simpa using named)

theorem leafPath_dot (more : rest ≠ []) : leafPath ([dot] :: rest) = leafPath rest := by
  obtain ⟨second, tail, rfl⟩ := List.exists_cons_of_ne_nil more
  unfold leafPath
  rw [List.getLast?_cons_cons, normal_dot]

theorem leafPath_cons (named : seg ≠ [dot]) (more : rest ≠ []) :
    leafPath (seg :: rest) = (leafPath rest).map (seg :: ·) := by
  obtain ⟨second, tail, rfl⟩ := List.exists_cons_of_ne_nil more
  unfold leafPath
  rw [List.getLast?_cons_cons, normal_cons named]
  split
  · rfl
  · rfl

theorem leafPath_single (named : seg ≠ [dot]) : leafPath [seg] = some [seg] := by
  unfold leafPath
  rw [normal_cons named, if_neg (by simpa using named)]
  rfl

/-- The path that an entry describes is never the root. -/
theorem leafPath_ne_nil : leafPath path ≠ some [] := by
  unfold leafPath
  split
  · exact nofun
  · rename_i last
    intro empty
    obtain ⟨notEmpty, notDot⟩ := not_or.mp last
    obtain ⟨name, isLast⟩ := Option.ne_none_iff_exists'.mp notEmpty
    have other : name ≠ [dot] := fun same => notDot (same ▸ isLast)
    have kept : name ∈ normal path :=
      List.mem_filter.mpr ⟨List.mem_of_getLast? isLast, by simpa using other⟩
    rw [Option.some.inj empty] at kept
    cases kept

theorem leafPath_eq_normal {p : List Name} (leaf : leafPath path = some p) : p = normal path := by
  unfold leafPath at leaf
  split at leaf
  · cases leaf
  · exact (Option.some.inj leaf).symm

/-- The map of a directory on the way to an entry. -/
def below (view : View δ) (seg : Name) : View δ := fun p =>
  if p = [] then some ((view [seg]).getD (.dir false)) else view (seg :: p)

/-- The length and the `..` that the loop checks of every component. -/
def Allowed (name : Name) : Prop := name.length ≤ vfsMaxName ∧ name ≠ [dot, dot]

theorem fits_dot_end (root : ∀ data, view [] ≠ some (.file data)) :
    Fits view [[dot]] isDir ↔ isDir = true := by
  constructor
  · exact fun fits => fits.onlyDir rfl
  · intro dir
    refine ⟨?_, fun p short _ => ?_, nofun, fun _ => dir⟩
    · intro name member
      rw [List.mem_singleton.mp member]
      exact ⟨by decide, by decide⟩
    · rw [normal_dot] at short
      rw [List.prefix_nil.mp short]
      exact root

theorem fits_dot (more : rest ≠ []) : Fits view ([dot] :: rest) isDir ↔ Fits view rest isDir := by
  constructor
  · intro fits
    refine ⟨fun name member => fits.allowed name (List.mem_cons_of_mem _ member), ?_, ?_, ?_⟩
    · rw [← normal_dot, ← leafPath_dot more]
      exact fits.dirs
    · rw [← leafPath_dot more]
      exact fits.leaf
    · rw [← leafPath_dot more]
      exact fits.onlyDir
  · intro fits
    refine ⟨fun name member => ?_, ?_, ?_, ?_⟩
    · rcases List.mem_cons.mp member with rfl | later
      · exact ⟨by decide, by decide⟩
      · exact fits.allowed name later
    · rw [normal_dot, leafPath_dot more]
      exact fits.dirs
    · rw [leafPath_dot more]
      exact fits.leaf
    · rw [leafPath_dot more]
      exact fits.onlyDir

theorem fits_single (root : ∀ data, view [] ≠ some (.file data)) (named : seg ≠ [dot]) :
    Fits view [seg] isDir ↔ Allowed seg ∧
      (view [seg] = none ∨ view [seg] = some (.dir false) ∧ isDir = true) := by
  have leaf := leafPath_single named
  constructor
  · exact fun fits => ⟨fits.allowed seg List.mem_cons_self, fits.leaf [seg] leaf⟩
  · rintro ⟨allowed, free⟩
    refine ⟨?_, fun p short other => ?_, fun p same => ?_, fun none => ?_⟩
    · intro name member
      rw [List.mem_singleton.mp member]
      exact allowed
    · rw [normal_cons named] at short
      rcases List.prefix_cons_iff.mp short with rfl | ⟨tail, rfl, inside⟩
      · exact root
      · rw [List.prefix_nil.mp inside] at other
        exact absurd leaf other
    · rw [leaf] at same
      exact Option.some.inj same ▸ free
    · rw [leaf] at none
      cases none

theorem below_of_ne_nil {p : List Name} (more : p ≠ []) : below view seg p = view (seg :: p) :=
  if_neg more

theorem below_nil_ne_file {data : δ} (top : view [seg] ≠ some (.file data)) :
    below view seg [] ≠ some (.file data) := by
  show some ((view [seg]).getD (.dir false)) ≠ _
  cases found : view [seg] with
  | none => exact nofun
  | some kind => exact found ▸ top

theorem fits_cons (root : ∀ data, view [] ≠ some (.file data)) (named : seg ≠ [dot])
    (more : rest ≠ []) : Fits view (seg :: rest) isDir ↔
      Allowed seg ∧ (∀ data, view [seg] ≠ some (.file data)) ∧
        Fits (below view seg) rest isDir := by
  have leafs := leafPath_cons named more
  have normals := @normal_cons rest seg named
  have inner (p : List Name) : leafPath (seg :: rest) = some (seg :: p) ↔
      leafPath rest = some p := by
    rw [leafs]
    simp
  constructor
  · intro fits
    have dirs (p : List Name) (short : p <+: normal rest) (other : leafPath rest ≠ some p) :
        ∀ data, view (seg :: p) ≠ some (.file data) := by
      refine fits.dirs (seg :: p) ?_ fun leaf => other ((inner p).mp leaf)
      rw [normals]
      exact List.cons_prefix_cons.mpr ⟨rfl, short⟩
    have top := dirs [] List.nil_prefix leafPath_ne_nil
    refine ⟨fits.allowed seg List.mem_cons_self, top,
      fun name member => fits.allowed name (List.mem_cons_of_mem _ member), ?_, ?_, ?_⟩
    · intro p short other data
      by_cases end_ : p = []
      · exact end_ ▸ below_nil_ne_file (top data)
      · rw [below_of_ne_nil end_]
        exact dirs p short other data
    · intro p leaf
      rw [below_of_ne_nil fun end_ => leafPath_ne_nil (end_ ▸ leaf)]
      exact fits.leaf (seg :: p) ((inner p).mpr leaf)
    · intro none
      refine fits.onlyDir ?_
      rw [leafs, none]
      rfl
  · rintro ⟨allowed, top, fits⟩
    refine ⟨fun name member => ?_, fun p short other data => ?_, fun p leaf => ?_, fun none => ?_⟩
    · rcases List.mem_cons.mp member with rfl | later
      · exact allowed
      · exact fits.allowed name later
    · rw [normals] at short
      rcases List.prefix_cons_iff.mp short with rfl | ⟨tail, rfl, inside⟩
      · exact root data
      · by_cases end_ : tail = []
        · rw [end_]
          exact top data
        · have inner' := fits.dirs tail inside (fun leaf => other ((inner tail).mpr leaf)) data
          rwa [below_of_ne_nil end_] at inner'
    · rw [leafs] at leaf
      obtain ⟨tail, leaf', rfl⟩ := Option.map_eq_some_iff.mp leaf
      have nonempty : tail ≠ [] := fun end_ => leafPath_ne_nil (end_ ▸ leaf')
      have inner' := fits.leaf tail leaf'
      rwa [below_of_ne_nil nonempty] at inner'
    · refine fits.onlyDir ?_
      rw [leafs] at none
      exact Option.map_eq_none_iff.mp none

theorem after_dot (more : rest ≠ []) (kind : Kind δ) :
    after view ([dot] :: rest) kind = after view rest kind := by
  unfold after
  rw [leafPath_dot more, normal_dot]

theorem after_dot_end {kind top : Kind δ} (root : view [] = some top) :
    after view [[dot]] kind = view := by
  funext p
  unfold after
  rw [if_neg nofun, normal_dot]
  split
  · rename_i short
    rw [List.prefix_nil.mp short, root]
    rfl
  · rfl

/-- The map after an entry, from the map of the directory its path goes through. -/
theorem after_cons {kind : Kind δ} (named : seg ≠ [dot]) (more : rest ≠ []) (first : Name)
    (p : List Name) : after view (seg :: rest) kind (first :: p) =
      if first = seg then after (below view seg) rest kind p else view (first :: p) := by
  unfold after
  rw [leafPath_cons named more, normal_cons named]
  simp only [List.cons_prefix_cons]
  by_cases here : first = seg
  · subst here
    rw [if_pos rfl]
    simp only [Option.map_eq_some_iff, List.cons.injEq, true_and, exists_eq_right]
    by_cases leaf : leafPath rest = some p
    · rw [if_pos leaf, if_pos leaf]
    · rw [if_neg leaf, if_neg leaf]
      by_cases end_ : p = []
      · subst end_
        rw [if_pos List.nil_prefix, if_pos List.nil_prefix]
        rfl
      · rw [below_of_ne_nil end_]
  · rw [if_neg here, if_neg, if_neg fun both => here both.1]
    intro leaf
    obtain ⟨tail, _, same⟩ := Option.map_eq_some_iff.mp leaf
    exact here (List.cons.inj same).1.symm

theorem after_nil {kind top : Kind δ} (root : view [] = some top) :
    after view path kind [] = view [] := by
  unfold after
  rw [if_neg leafPath_ne_nil, if_pos List.nil_prefix, root]
  rfl

end Entries

section Insertion

variable {node : Node} {path rest : List Name} {seg : Name} {payload : Payload} {nextIno : Nat}

/-- What `upsert_leaf` makes of the node of an entry. -/
def Payload.kind (payload : Payload) : Kind Slice :=
  if payload.isDir then .dir true else .file (some payload.data, payload.size)

/-- The node as the entry leaves it. -/
structure Added (node : Node) (path : List Name) (payload : Payload) (done : Node × Nat) :
    Prop where
  wf : done.1.Wf
  name : done.1.name = node.name
  attr : done.1.attr = node.attr
  view : done.1.view = after node.view path payload.kind

theorem view_allocNode (isDir : Bool) (p : List Name) : (allocNode nextIno seg isDir).view p =
    if p = [] then some (allocNode nextIno seg isDir).kind else none := by
  cases p with
  | nil => rfl
  | cons first rest => rfl

theorem allocNode_wf (isDir : Bool) : (allocNode nextIno seg isDir).Wf :=
  .mk List.nodup_nil (fun _ member => nomatch member) (fun _ => rfl) fun _ member => nomatch member

theorem ensureDirChild_ok (wf : node.Wf) (isDir : ∀ data, node.view [seg] ≠ some (.file data)) :
    ∃ child next, ensureDirChild nextIno node seg = .ok (child, next) ∧ child.Wf ∧
      child.name = seg ∧ child.attr.isDir = true ∧ child.view = below node.view seg := by
  unfold ensureDirChild
  cases found : findChild node.children seg with
  | none =>
      have nothing : ∀ p, node.view (seg :: p) = none := by
        intro p
        rw [view_cons, found]
        rfl
      refine ⟨_, _, rfl, allocNode_wf true, rfl, rfl, ?_⟩
      funext p
      unfold below
      rw [view_allocNode, nothing, nothing]
      rfl
  | some child =>
      have same : ∀ p, node.view (seg :: p) = child.view p := by
        intro p
        rw [view_cons, found]
        rfl
      have childDir : child.attr.isDir = true := by
        by_contra file
        refine isDir (child.attr.data, child.attr.size) ?_
        rw [same, view_nil]
        unfold Node.kind
        rw [if_neg file]
      dsimp only
      rw [if_pos childDir]
      refine ⟨child, nextIno, rfl, wf.of_mem (findChild_mem found), findChild_name found, childDir,
        ?_⟩
      funext p
      unfold below
      rw [same, same, view_nil]
      split
      · rename_i root
        rw [root]
        rfl
      · rfl

theorem ensureDirChild_error {data : Slice} (isFile : node.view [seg] = some (.file data)) :
    ensureDirChild nextIno node seg = .error .einval := by
  rw [view_cons] at isFile
  unfold ensureDirChild
  cases found : findChild node.children seg with
  | none =>
      rw [found] at isFile
      cases isFile
  | some child =>
      rw [found] at isFile
      have kind : child.kind = .file data := Option.some.inj isFile
      unfold Node.kind at kind
      split at kind
      · cases kind
      · rename_i file
        dsimp only
        rw [if_neg file]

theorem setLeaf_isDir (child : Node) : (setLeaf payload child).attr.isDir = child.attr.isDir := by
  unfold setLeaf
  show (if payload.isDir then _ else _ : Attr).isDir = _
  split <;> rfl

theorem setLeaf_wf {child : Node} (wf : child.Wf) : (setLeaf payload child).Wf := by
  have sameDir := @setLeaf_isDir payload child
  cases wf with
  | mk distinct valid leaf wf =>
      exact .mk distinct valid (fun isFile => leaf (sameDir.symm.trans isFile)) wf

theorem setLeaf_kind {child : Node} (same : child.attr.isDir = payload.isDir) :
    (setLeaf payload child).kind = payload.kind := by
  unfold Payload.kind Node.kind
  rw [setLeaf_isDir, same]
  unfold setLeaf
  split <;> rfl

theorem view_setLeaf {child : Node} (same : child.attr.isDir = payload.isDir) (p : List Name) :
    (setLeaf payload child).view p = if p = [] then some payload.kind else child.view p := by
  cases p with
  | nil => rw [view_nil, setLeaf_kind same, if_pos rfl]
  | cons first rest =>
      rw [view_cons, view_cons]
      rfl

/-- A leaf put into a directory that has no node there, or a directory. -/
theorem added_leaf {child : Node} (wf : node.Wf) (isDir : node.attr.isDir = true)
    (valid : ValidName seg) (childWf : child.Wf) (named : child.name = seg)
    (same : child.attr.isDir = payload.isDir)
    (kept : ∀ p, p ≠ [] → child.view p = node.view (seg :: p)) :
    Added node [seg] payload (node.withChild seg (setLeaf payload child), nextIno) where
  wf := wf.withChild isDir (setLeaf_wf childWf) named valid
  name := rfl
  attr := rfl
  view := by
    funext p
    unfold after
    rw [leafPath_single valid.notDot, normal_cons valid.notDot]
    cases p with
    | nil =>
        rw [if_neg nofun, if_pos List.nil_prefix, view_nil]
        rfl
    | cons first rest =>
        dsimp only
        rw [@view_withChild node (setLeaf payload child) seg named, view_setLeaf same]
        by_cases here : first = seg
        · subst here
          rw [if_pos rfl]
          by_cases leaf : rest = []
          · rw [if_pos leaf, leaf, if_pos rfl]
          · have longer : ¬ first :: rest <+: first :: normal [] := by
              intro isPrefix
              exact leaf (List.prefix_nil.mp (List.cons_prefix_cons.mp isPrefix).2)
            rw [if_neg leaf, if_neg fun equal =>
              leaf (List.cons.inj (Option.some.inj equal)).2.symm,
              if_neg longer]
            exact kept rest leaf
        · have elsewhere : ¬ first :: rest <+: seg :: normal [] :=
            fun isPrefix => here (List.cons_prefix_cons.mp isPrefix).1
          rw [if_neg here, if_neg fun equal => here (List.cons.inj (Option.some.inj equal)).1.symm,
            if_neg elsewhere]

theorem upsertLeaf_ok (wf : node.Wf) (isDir : node.attr.isDir = true) (valid : ValidName seg)
    (fits : node.view [seg] = none ∨ node.view [seg] = some (.dir false) ∧ payload.isDir = true) :
    ∃ done, upsertLeaf nextIno node seg payload = .ok done ∧ Added node [seg] payload done := by
  unfold upsertLeaf
  cases found : findChild node.children seg with
  | none =>
      refine ⟨_, rfl, added_leaf wf isDir valid (allocNode_wf _) rfl rfl fun p more => ?_⟩
      rw [view_allocNode, if_neg more, view_cons, found]
      rfl
  | some child =>
      have same : ∀ p, node.view (seg :: p) = child.view p := by
        intro p
        rw [view_cons, found]
        rfl
      rw [same, view_nil] at fits
      rcases fits with none | ⟨kind, payloadDir⟩
      · cases none
      · have kind := Option.some.inj kind
        unfold Node.kind at kind
        split at kind
        · rename_i childDir
          have implicit : child.attr.explicit = false := Kind.dir.inj kind
          dsimp only
          rw [if_neg (by simp [implicit, payloadDir, childDir])]
          exact ⟨_, rfl, added_leaf wf isDir valid (wf.of_mem (findChild_mem found))
            (findChild_name found) (childDir.trans payloadDir.symm) fun p _ => (same p).symm⟩
        · cases kind

theorem upsertLeaf_error
    (misfit : ¬ (node.view [seg] = none ∨
      node.view [seg] = some (.dir false) ∧ payload.isDir = true)) :
    upsertLeaf nextIno node seg payload = .error .einval := by
  unfold upsertLeaf
  rw [view_cons] at misfit
  cases found : findChild node.children seg with
  | none =>
      rw [found] at misfit
      exact absurd (.inl rfl) misfit
  | some child =>
      rw [found] at misfit
      dsimp only
      apply if_pos
      by_contra fits
      obtain ⟨implicit, both⟩ := not_or.mp fits
      obtain ⟨payloadDir, childDir⟩ := not_not.mp both
      refine misfit (.inr ⟨?_, payloadDir⟩)
      show some child.kind = _
      unfold Node.kind
      rw [if_pos childDir, eq_false_of_ne_true implicit]

theorem root_dir (isDir : node.attr.isDir = true) :
    node.view [] = some (.dir node.attr.explicit) := by
  rw [view_nil]
  exact congrArg some (if_pos isDir)

/-- Components that the path of an entry can have at all. -/
def Plain (name : Name) : Prop := name ≠ [] ∧ slash ∉ name

/-- An entry that fits is added. -/
theorem insertPath_ok (wf : node.Wf) (isDir : node.attr.isDir = true) (nonempty : path ≠ [])
    (plain : ∀ name ∈ path, Plain name) (fits : Fits node.view path payload.isDir) :
    ∃ done, insertPath payload path node nextIno = .ok done ∧ Added node path payload done := by
  induction path generalizing node nextIno with
  | nil => exact absurd rfl nonempty
  | cons seg rest inductionHypothesis =>
      have root : ∀ data, node.view [] ≠ some (.file data) := by
        intro data
        rw [root_dir isDir]
        exact nofun
      have allowed : Allowed seg := fits.allowed seg List.mem_cons_self
      have plain' : ∀ name ∈ rest, Plain name :=
        fun name member => plain name (List.mem_cons_of_mem _ member)
      unfold insertPath
      rw [if_neg (not_or.mpr ⟨Nat.not_lt.mpr allowed.1, allowed.2⟩)]
      by_cases isDot : seg = [dot]
      · subst isDot
        rw [if_pos rfl]
        by_cases last : rest = []
        · subst last
          have dir : payload.isDir = true := fits.onlyDir rfl
          rw [if_pos rfl]
          unfold atRoot
          rw [if_pos dir]
          exact ⟨_, rfl, wf, rfl, rfl, (after_dot_end (root_dir isDir)).symm⟩
        · rw [if_neg last]
          obtain ⟨done, ran, added⟩ :=
            inductionHypothesis wf isDir last plain' ((fits_dot last).mp fits)
          refine ⟨done, ran, added.wf, added.name, added.attr, ?_⟩
          rw [after_dot last]
          exact added.view
      · have valid : ValidName seg :=
          ⟨(plain seg List.mem_cons_self).1, isDot, allowed.2, (plain seg List.mem_cons_self).2⟩
        rw [if_neg isDot]
        by_cases last : rest = []
        · subst last
          rw [if_pos rfl]
          exact upsertLeaf_ok wf isDir valid ((fits_single root isDot).mp fits).2
        · rw [if_neg last]
          obtain ⟨_, top, inner⟩ := (fits_cons root isDot last).mp fits
          obtain ⟨child, next, ensured, childWf, named, childDir, childView⟩ :=
            @ensureDirChild_ok node seg nextIno wf top
          rw [← childView] at inner
          obtain ⟨done, ran, added⟩ :=
            @inductionHypothesis child next childWf childDir last plain' inner
          rw [ensured, ok_bind]
          dsimp only
          rw [ran]
          have named' : done.1.name = seg := added.name.trans named
          refine ⟨_, rfl, wf.withChild isDir added.wf named' valid, rfl, rfl, ?_⟩
          funext p
          cases p with
          | nil => exact (after_nil (root_dir isDir)).symm
          | cons first p =>
              dsimp only
              rw [@view_withChild node done.1 seg named', after_cons isDot last, added.view,
                childView]

/-- An entry that does not fit is refused. -/
theorem insertPath_error (isDir : node.attr.isDir = true) (wf : node.Wf) (nonempty : path ≠ [])
    (misfit : ¬ Fits node.view path payload.isDir) :
    insertPath payload path node nextIno = .error .einval := by
  induction path generalizing node nextIno with
  | nil => exact absurd rfl nonempty
  | cons seg rest inductionHypothesis =>
      have root : ∀ data, node.view [] ≠ some (.file data) := by
        intro data
        rw [root_dir isDir]
        exact nofun
      unfold insertPath
      by_cases refused : seg.length > vfsMaxName ∨ seg = [dot, dot]
      · rw [if_pos refused]
      · rw [if_neg refused]
        have allowed : Allowed seg :=
          ⟨Nat.not_lt.mp fun long => refused (.inl long), fun dotdot => refused (.inr dotdot)⟩
        by_cases isDot : seg = [dot]
        · subst isDot
          rw [if_pos rfl]
          by_cases last : rest = []
          · subst last
            rw [if_pos rfl]
            exact if_neg fun dir => misfit ((fits_dot_end root).mpr dir)
          · rw [if_neg last]
            exact inductionHypothesis isDir wf last (mt (fits_dot last).mpr misfit)
        · rw [if_neg isDot]
          by_cases last : rest = []
          · subst last
            rw [if_pos rfl]
            exact upsertLeaf_error fun free => misfit ((fits_single root isDot).mpr ⟨allowed, free⟩)
          · rw [if_neg last]
            by_cases top : ∀ data, node.view [seg] ≠ some (.file data)
            · obtain ⟨child, next, ensured, childWf, _, childDir, childView⟩ :=
                @ensureDirChild_ok node seg nextIno wf top
              have misfit' : ¬ Fits child.view rest payload.isDir := by
                rw [childView]
                exact fun inner => misfit ((fits_cons root isDot last).mpr ⟨allowed, top, inner⟩)
              rw [ensured, ok_bind]
              dsimp only
              rw [@inductionHypothesis child next childDir childWf last misfit']
              rfl
            · obtain ⟨data, isFile⟩ := not_forall.mp top
              rw [ensureDirChild_error (not_not.mp isFile)]
              rfl

end Insertion

end Opal.Cpio
