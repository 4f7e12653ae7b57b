import Opal.Cpio.Tree

/-!
# The entries of a cpio archive

The map of a tree says what the entries say that were added to it, whatever their order was.
Whether the next entry fits is a question of each entry alone and of each pair.
-/

namespace Opal.Cpio

section Descriptions

/-- An entry with the components of its path. -/
structure Entry (δ : Type) where
  path : List Name
  isDir : Bool
  data : δ

variable {δ : Type} {view : View δ} {entries : List (Entry δ)} {entry : Entry δ}

def Entry.kind (entry : Entry δ) : Kind δ := if entry.isDir then .dir true else .file entry.data

/-- The path is a directory on the way of the entry, or the directory it describes. -/
def Entry.HasDir (entry : Entry δ) (p : List Name) : Prop :=
  p <+: normal entry.path ∧ (leafPath entry.path = some p → entry.isDir = true)

/-- What the entries say of a path. -/
def Describes (entries : List (Entry δ)) (p : List Name) : Kind δ → Prop
  | .file data => ∃ entry ∈ entries, leafPath entry.path = some p ∧ entry.isDir = false ∧
      entry.data = data
  | .dir explicit => (p = [] ∨ ∃ entry ∈ entries, entry.HasDir p) ∧
      (explicit = true ↔ p = [] ∨ ∃ entry ∈ entries, leafPath entry.path = some p)

def Represents (view : View δ) (entries : List (Entry δ)) : Prop :=
  ∀ p kind, view p = some kind ↔ Describes entries p kind

/-- The entry can be added to an archive at all. -/
structure Acceptable (entry : Entry δ) : Prop where
  allowed : ∀ name ∈ entry.path, Allowed name
  onlyDir : leafPath entry.path = none → entry.isDir = true

/-- Both describe one path, or the first is a file where the second has a directory. -/
def Clashes (first second : Entry δ) : Prop :=
  ∃ p, leafPath first.path = some p ∧
    (leafPath second.path = some p ∨ first.isDir = false ∧ p <+: normal second.path)

def Compatible (first second : Entry δ) : Prop := ¬ Clashes first second ∧ ¬ Clashes second first

theorem Compatible.symm {first second : Entry δ} (compatible : Compatible first second) :
    Compatible second first := ⟨compatible.2, compatible.1⟩

theorem leaf_start {path p : List Name} (leaf : leafPath path = some p) : p <+: normal path :=
  leafPath_eq_normal leaf ▸ List.prefix_rfl

theorem describes_root : Describes entries [] (.dir true) :=
  ⟨.inl rfl, fun _ => .inl rfl, fun _ => rfl⟩

/-- There is a node wherever an entry describes one. -/
theorem Represents.of_leaf (represents : Represents view entries) {other : Entry δ}
    (member : other ∈ entries) {p : List Name} (leaf : leafPath other.path = some p) :
    view p = some (.dir true) ∨ ∃ data, view p = some (.file data) := by
  cases isDir : other.isDir with
  | true =>
      refine .inl ((represents p _).mpr ⟨.inr ⟨other, member, leaf_start leaf, fun _ => isDir⟩, ?_⟩)
      exact ⟨fun _ => .inr ⟨other, member, leaf⟩, fun _ => rfl⟩
  | false => exact .inr ⟨other.data, (represents p _).mpr ⟨other, member, leaf, isDir, rfl⟩⟩

/-- There is a node at every path on the way of an entry. -/
theorem Represents.of_prefix (represents : Represents view entries) {other : Entry δ}
    (member : other ∈ entries) {p : List Name} (short : p <+: normal other.path) :
    view p ≠ none := by
  by_cases leaf : leafPath other.path = some p
  · rcases represents.of_leaf member leaf with found | ⟨data, found⟩
    · rw [found]
      exact nofun
    · rw [found]
      exact nofun
  · by_cases described : p = [] ∨ ∃ entry ∈ entries, leafPath entry.path = some p
    · rw [(represents p (.dir true)).mpr ⟨.inr ⟨other, member, short, fun l => absurd l leaf⟩,
        fun _ => described, fun _ => rfl⟩]
      exact nofun
    · rw [(represents p (.dir false)).mpr ⟨.inr ⟨other, member, short, fun l => absurd l leaf⟩,
        nofun, fun d => absurd d described⟩]
      exact nofun

/-- The paths of the tree are the root and those on the way of an entry. -/
theorem Represents.isSome_iff (represents : Represents view entries) (p : List Name) :
    (view p).isSome ↔ p = [] ∨ ∃ entry ∈ entries, p <+: normal entry.path := by
  constructor
  · intro some
    obtain ⟨kind, found⟩ := Option.isSome_iff_exists.mp some
    have described := (represents p kind).mp found
    cases kind with
    | file data =>
        obtain ⟨entry, member, leaf, _⟩ := described
        exact .inr ⟨entry, member, leaf_start leaf⟩
    | dir explicit =>
        exact described.1.imp_right fun ⟨entry, member, way⟩ => ⟨entry, member, way.1⟩
  · rintro (rfl | ⟨entry, member, short⟩)
    · rw [(represents [] _).mpr describes_root]
      rfl
    · exact Option.isSome_iff_ne_none.mpr (represents.of_prefix member short)

/-- An entry fits what others describe if and only if it can be added at all and clashes with
none of them. -/
theorem fits_iff (represents : Represents view entries) :
    Fits view entry.path entry.isDir ↔
      Acceptable entry ∧ ∀ other ∈ entries, Compatible entry other := by
  constructor
  · intro fits
    refine ⟨⟨fits.allowed, fits.onlyDir⟩, fun other member => ⟨?_, ?_⟩⟩
    · rintro ⟨p, leaf, both | ⟨isFile, short⟩⟩
      · rcases represents.of_leaf member both with found | ⟨data, found⟩ <;>
          rcases fits.leaf p leaf with free | ⟨implicit, _⟩ <;> simp_all
      · rcases fits.leaf p leaf with free | ⟨_, isDir⟩
        · exact represents.of_prefix member short free
        · rw [isFile] at isDir
          cases isDir
    · rintro ⟨p, leaf, both | ⟨isFile, short⟩⟩
      · rcases represents.of_leaf member leaf with found | ⟨data, found⟩ <;>
          rcases fits.leaf p both with free | ⟨implicit, _⟩ <;> simp_all
      · have file : view p = some (.file other.data) :=
          (represents p _).mpr ⟨other, member, leaf, isFile, rfl⟩
        by_cases both : leafPath entry.path = some p
        · rcases fits.leaf p both with free | ⟨implicit, _⟩ <;> simp_all
        · exact fits.dirs p short both _ file
  · rintro ⟨acceptable, compatible⟩
    refine ⟨acceptable.allowed, fun p short notLeaf data isFile => ?_, fun p leaf => ?_,
      acceptable.onlyDir⟩
    · obtain ⟨other, member, leaf, file, _⟩ := (represents p _).mp isFile
      exact (compatible other member).2 ⟨p, leaf, .inr ⟨file, short⟩⟩
    · cases found : view p with
      | none => exact .inl rfl
      | some kind =>
          have described := (represents p kind).mp found
          cases kind with
          | file data =>
              obtain ⟨other, member, leaf', _⟩ := described
              exact absurd ⟨p, leaf, .inl leaf'⟩ (compatible other member).1
          | dir explicit =>
              obtain ⟨way, named⟩ := described
              have notRoot : p ≠ [] := fun root => leafPath_ne_nil (root ▸ leaf)
              cases explicit with
              | true =>
                  rcases named.mp rfl with root | ⟨other, member, leaf'⟩
                  · exact absurd root notRoot
                  · exact absurd ⟨p, leaf, .inl leaf'⟩ (compatible other member).1
              | false =>
                  rcases way with root | ⟨other, member, short, _⟩
                  · exact absurd root notRoot
                  · refine .inr ⟨rfl, ?_⟩
                    by_contra isFile
                    exact (compatible other member).1
                      ⟨p, leaf, .inr ⟨eq_false_of_ne_true isFile, short⟩⟩

/-- Entries that say nothing of a path change nothing there. -/
theorem describes_cons {p : List Name} (notLeaf : leafPath entry.path ≠ some p)
    (notDir : ¬ entry.HasDir p ∨ p = [] ∨ ∃ other ∈ entries, other.HasDir p) (kind : Kind δ) :
    Describes (entry :: entries) p kind ↔ Describes entries p kind := by
  have leaf : (∃ other ∈ entry :: entries, leafPath other.path = some p) ↔
      ∃ other ∈ entries, leafPath other.path = some p := by
    rw [List.exists_mem_cons_iff]
    exact or_iff_right notLeaf
  cases kind with
  | file data =>
      show (∃ other ∈ entry :: entries, _) ↔ _
      rw [List.exists_mem_cons_iff]
      exact or_iff_right fun own => notLeaf own.1
  | dir explicit =>
      show (_ ∨ ∃ other ∈ entry :: entries, _) ∧ _ ↔ _
      rw [leaf, List.exists_mem_cons_iff]
      refine and_congr_left fun _ => ?_
      rcases notDir with not | already
      · rw [or_iff_right not]
      · exact ⟨fun _ => already, fun old => old.imp_right .inr⟩

/-- At its own path an entry is described alone. -/
theorem Entry.described_leaf {p : List Name} (entry : Entry δ) (leaf : leafPath entry.path = some p)
    (notRoot : p ≠ []) (own : ∀ other ∈ entries, leafPath other.path ≠ some p)
    (file : entry.isDir = false → ∀ other ∈ entries, ¬ p <+: normal other.path) {kind : Kind δ} :
    entry.kind = kind ↔ Describes (entry :: entries) p kind := by
  constructor
  · rintro rfl
    unfold Entry.kind
    split
    · rename_i isDir
      exact ⟨.inr ⟨entry, List.mem_cons_self, leaf_start leaf, fun _ => isDir⟩,
        fun _ => .inr ⟨entry, List.mem_cons_self, leaf⟩, fun _ => rfl⟩
    · rename_i isFile
      exact ⟨entry, List.mem_cons_self, leaf, eq_false_of_ne_true isFile, rfl⟩
  · intro described
    cases kind with
    | file data =>
        obtain ⟨other, member, leaf', isFile, rfl⟩ := described
        rcases List.mem_cons.mp member with rfl | old
        · exact if_neg (by rw [isFile]; decide)
        · exact absurd leaf' (own other old)
    | dir explicit =>
        obtain ⟨way, named⟩ := described
        have isDir : entry.isDir = true := by
          rcases way with root | ⟨other, member, short, dir⟩
          · exact absurd root notRoot
          · rcases List.mem_cons.mp member with rfl | old
            · exact dir leaf
            · by_contra isFile
              exact file (eq_false_of_ne_true isFile) other old short
        rw [named.mpr (.inr ⟨entry, List.mem_cons_self, leaf⟩)]
        exact if_pos isDir

/-- The entry that was added is described with the others. -/
theorem Represents.after (represents : Represents view entries)
    (fits : Fits view entry.path entry.isDir) :
    Represents (after view entry.path entry.kind) (entry :: entries) := by
  have compatible := ((fits_iff represents).mp fits).2
  intro p kind
  unfold Cpio.after
  by_cases leaf : leafPath entry.path = some p
  · rw [if_pos leaf]
    have notRoot : p ≠ [] := fun root => leafPath_ne_nil (root ▸ leaf)
    have own : ∀ other ∈ entries, leafPath other.path ≠ some p :=
      fun other member leaf' => (compatible other member).1 ⟨p, leaf, .inl leaf'⟩
    rw [Option.some.injEq]
    exact entry.described_leaf leaf notRoot own fun isFile other member short =>
      (compatible other member).1 ⟨p, leaf, .inr ⟨isFile, short⟩⟩
  · rw [if_neg leaf]
    by_cases way : p <+: normal entry.path
    · rw [if_pos way]
      cases found : view p with
      | none =>
          have notRoot : p ≠ [] := by
            rintro rfl
            rw [(represents [] _).mpr describes_root] at found
            cases found
          have unnamed : ¬ (p = [] ∨ ∃ other ∈ entry :: entries, leafPath other.path = some p) := by
            rintro (root | ⟨other, member, leaf'⟩)
            · exact notRoot root
            · rcases List.mem_cons.mp member with rfl | old
              · exact leaf leaf'
              · exact represents.of_prefix old (leaf_start leaf') found
          rw [Option.getD_none, Option.some.injEq]
          constructor
          · rintro rfl
            exact ⟨.inr ⟨entry, List.mem_cons_self, way, fun leaf' => absurd leaf' leaf⟩, nofun,
              fun named => absurd named unnamed⟩
          · intro described
            cases kind with
            | file data =>
                obtain ⟨other, member, leaf', _⟩ := described
                exact absurd (.inr ⟨other, member, leaf'⟩) unnamed
            | dir explicit =>
                cases explicit with
                | true => exact absurd (described.2.mp rfl) unnamed
                | false => rfl
      | some old =>
          rw [Option.getD_some, ← found, represents]
          refine (describes_cons leaf (.inr ?_) kind).symm
          cases old with
          | file data => exact absurd found (fits.dirs p way leaf data)
          | dir explicit => exact ((represents p _).mp found).1
    · rw [if_neg way, represents]
      exact (describes_cons leaf (.inl fun own => way own.1) kind).symm

end Descriptions

section Insertion

variable {root : Node} {entries : List (Entry Slice)} {payload : Payload} {path : List Name}
  {nextIno : Nat}

def Payload.entry (payload : Payload) (path : List Name) : Entry Slice :=
  ⟨path, payload.isDir, (some payload.data, payload.size)⟩

/-- A tree to which the entries have been added. -/
structure Mounted (root : Node) (entries : List (Entry Slice)) : Prop where
  wf : root.Wf
  name : root.name = []
  isDir : root.attr.isDir = true
  represents : Represents root.view entries

theorem atRoot_eq (dir : payload.isDir = true) : atRoot payload root nextIno =
    .ok (root, nextIno) :=
  if_pos dir

theorem after_empty {view : View Slice} {kind top : Kind Slice} (root : view [] = some top) :
    after view [] kind = view := by
  funext p
  unfold after
  rw [if_neg nofun]
  split
  · rename_i short
    rw [List.prefix_nil.mp short, root]
    rfl
  · rfl

theorem insertEntry_ok (mounted : Mounted root entries) (plain : ∀ name ∈ path, Plain name)
    (acceptable : Acceptable (payload.entry path))
    (compatible : ∀ other ∈ entries, Compatible (payload.entry path) other) :
    ∃ done, insertEntry payload path root nextIno = .ok done ∧
      Mounted done.1 (payload.entry path :: entries) := by
  have fits : Fits root.view (payload.entry path).path (payload.entry path).isDir :=
    (fits_iff mounted.represents).mpr ⟨acceptable, compatible⟩
  have represents := mounted.represents.after fits
  unfold insertEntry
  by_cases empty : path = []
  · subst empty
    rw [if_pos rfl, atRoot_eq (fits.onlyDir rfl)]
    refine ⟨_, rfl, mounted.wf, mounted.name, mounted.isDir, ?_⟩
    rwa [show (payload.entry []).path = [] from rfl, after_empty (root_dir mounted.isDir)]
      at represents
  · rw [if_neg empty]
    obtain ⟨done, ran, added⟩ :=
      @insertPath_ok root path payload nextIno mounted.wf mounted.isDir empty plain fits
    refine ⟨done, ran, added.wf, added.name.trans mounted.name, ?_, ?_⟩
    · rw [added.attr]
      exact mounted.isDir
    · rw [added.view]
      exact represents

theorem insertEntry_error (mounted : Mounted root entries)
    (refused : ¬ (Acceptable (payload.entry path) ∧
      ∀ other ∈ entries, Compatible (payload.entry path) other)) :
    insertEntry payload path root nextIno = .error .einval := by
  have misfit : ¬ Fits root.view (payload.entry path).path (payload.entry path).isDir :=
    fun fits => refused ((fits_iff mounted.represents).mp fits)
  unfold insertEntry
  by_cases empty : path = []
  · subst empty
    rw [if_pos rfl]
    refine if_neg fun dir => misfit ⟨nofun, fun p short _ data => ?_, nofun, fun _ => dir⟩
    rw [show p = [] from List.prefix_nil.mp short, root_dir mounted.isDir]
    exact nofun
  · rw [if_neg empty]
    exact insertPath_error mounted.isDir mounted.wf empty misfit

/-- `add_archive_entry` for one record after the other. -/
def insertAll : List (List Name × Payload) → Node → Nat → Except Fault Node
  | [], root, _ => .ok root
  | (path, payload) :: rest, root, nextIno => do
      let (root, nextIno) ← insertEntry payload path root nextIno
      insertAll rest root nextIno

abbrev toEntry (record : List Name × Payload) : Entry Slice := record.2.entry record.1

/-- Each entry can be added after those before it. -/
def Addable {δ : Type} : List (Entry δ) → List (Entry δ) → Prop
  | _, [] => True
  | before, entry :: rest =>
      (Acceptable entry ∧ ∀ other ∈ before, Compatible entry other) ∧ Addable (entry :: before) rest

/-- Whether all entries can be added does not depend on their order. -/
theorem addable_iff {δ : Type} {before new : List (Entry δ)} : Addable before new ↔
    (∀ entry ∈ new, Acceptable entry) ∧ new.Pairwise Compatible ∧
      ∀ entry ∈ new, ∀ other ∈ before, Compatible entry other := by
  induction new generalizing before with
  | nil => exact ⟨fun _ => ⟨nofun, .nil, nofun⟩, fun _ => trivial⟩
  | cons entry rest inductionHypothesis =>
      unfold Addable
      rw [inductionHypothesis, List.pairwise_cons, List.forall_mem_cons, List.forall_mem_cons]
      constructor
      · rintro ⟨⟨acceptable, old⟩, accepted, pairwise, later⟩
        refine ⟨⟨acceptable, accepted⟩, ⟨fun other member => ?_, pairwise⟩, old, ?_⟩
        · exact (later other member entry List.mem_cons_self).symm
        · exact fun other member older inside =>
            later other member older (List.mem_cons_of_mem _ inside)
      · rintro ⟨⟨acceptable, accepted⟩, ⟨first, pairwise⟩, old, later⟩
        refine ⟨⟨acceptable, old⟩, accepted, pairwise, fun other member older inside => ?_⟩
        rcases List.mem_cons.mp inside with rfl | inside'
        · exact (first other member).symm
        · exact later other member older inside'

theorem insertAll_ok {records : List (List Name × Payload)} (mounted : Mounted root entries)
    (plain : ∀ record ∈ records, ∀ name ∈ record.1, Plain name)
    (addable : Addable entries (records.map toEntry)) :
    ∃ done, insertAll records root nextIno = .ok done ∧
      Mounted done ((records.map toEntry).reverse ++ entries) := by
  induction records generalizing root entries nextIno with
  | nil => exact ⟨root, rfl, mounted⟩
  | cons record rest inductionHypothesis =>
      obtain ⟨path, payload⟩ := record
      obtain ⟨⟨acceptable, compatible⟩, later⟩ := addable
      obtain ⟨⟨root', next⟩, ran, mounted'⟩ := @insertEntry_ok root entries payload path nextIno
        mounted (plain _ List.mem_cons_self) acceptable compatible
      obtain ⟨done, ran', result⟩ := @inductionHypothesis root' _ next mounted'
        (fun record member => plain record (List.mem_cons_of_mem _ member)) later
      refine ⟨done, ?_, ?_⟩
      · unfold insertAll
        rw [ran]
        exact ran'
      · rw [List.map_cons, List.reverse_cons, List.append_assoc]
        exact result

theorem insertAll_error {records : List (List Name × Payload)} (mounted : Mounted root entries)
    (plain : ∀ record ∈ records, ∀ name ∈ record.1, Plain name)
    (refused : ¬ Addable entries (records.map toEntry)) :
    insertAll records root nextIno = .error .einval := by
  induction records generalizing root entries nextIno with
  | nil => exact absurd trivial refused
  | cons record rest inductionHypothesis =>
      obtain ⟨path, payload⟩ := record
      unfold insertAll
      by_cases fits : Acceptable (payload.entry path) ∧
          ∀ other ∈ entries, Compatible (payload.entry path) other
      · obtain ⟨⟨root', next⟩, ran, mounted'⟩ := @insertEntry_ok root entries payload path nextIno
          mounted (plain _ List.mem_cons_self) fits.1 fits.2
        rw [ran, ok_bind]
        exact inductionHypothesis mounted'
          (fun record member => plain record (List.mem_cons_of_mem _ member))
          fun later => refused ⟨fits, later⟩
      · rw [insertEntry_error mounted fits]
        rfl

end Insertion

end Opal.Cpio
