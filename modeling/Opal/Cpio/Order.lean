import Opal.Cpio.Mount
import Mathlib.Algebra.Group.Nat.Defs
import Mathlib.Data.List.Forall2
import Mathlib.Data.List.GetD
import Mathlib.Data.List.Nodup

/-!
# Mounting does not depend on the order of the entries

The records of an archive can be permuted before the trailer: the entries they make are the
same but for the place of their data, and what the entries describe has no order.
-/

namespace Opal.Cpio

section Contents

variable {δ ε : Type} {f : δ → ε} {view : View δ} {entries : List (Entry δ)}

def Kind.map (f : δ → ε) : Kind δ → Kind ε
  | .dir explicit => .dir explicit
  | .file data => .file (f data)

def Entry.map (f : δ → ε) (entry : Entry δ) : Entry ε := ⟨entry.path, entry.isDir, f entry.data⟩

/-- Whether entries can be added is a matter of their paths and kinds. -/
theorem addable_map : Addable [] (entries.map (Entry.map f)) ↔ Addable [] entries := by
  rw [addable_iff, addable_iff, List.pairwise_map, List.forall_mem_map]
  refine and_congr ?_ (and_congr Iff.rfl ⟨fun _ => nofun, fun _ => nofun⟩)
  exact forall₂_congr fun entry _ =>
    ⟨fun h => ⟨h.allowed, h.onlyDir⟩, fun h => ⟨h.allowed, h.onlyDir⟩⟩

theorem exists_mem_map {holds : Entry ε → Prop} :
    (∃ entry ∈ entries.map (Entry.map f), holds entry) ↔
      ∃ entry ∈ entries, holds (entry.map f) := by
  constructor
  · rintro ⟨_, member, holds⟩
    obtain ⟨entry, member', rfl⟩ := List.mem_map.mp member
    exact ⟨entry, member', holds⟩
  · rintro ⟨entry, member, holds⟩
    exact ⟨entry.map f, List.mem_map_of_mem member, holds⟩

theorem describes_map_dir {p : List Name} {explicit : Bool} :
    Describes (entries.map (Entry.map f)) p (.dir explicit) ↔
      Describes entries p (.dir explicit) := by
  show (_ ∨ ∃ entry ∈ entries.map (Entry.map f), _) ∧
    (_ ↔ _ ∨ ∃ entry ∈ entries.map (Entry.map f), _) ↔ _
  rw [exists_mem_map, exists_mem_map]
  rfl

theorem Represents.map (represents : Represents view entries) :
    Represents (fun p => (view p).map (Kind.map f)) (entries.map (Entry.map f)) := by
  intro p kind
  rw [Option.map_eq_some_iff]
  constructor
  · rintro ⟨old, found, rfl⟩
    have described := (represents p old).mp found
    cases old with
    | file data =>
        obtain ⟨entry, member, leaf, isFile, rfl⟩ := described
        exact ⟨entry.map f, List.mem_map_of_mem member, leaf, isFile, rfl⟩
    | dir explicit => exact describes_map_dir.mpr described
  · intro described
    cases kind with
    | file data =>
        obtain ⟨entry, member, leaf, isFile, rfl⟩ := exists_mem_map.mp described
        exact ⟨.file entry.data, (represents p _).mpr ⟨entry, member, leaf, isFile, rfl⟩, rfl⟩
    | dir explicit =>
        exact ⟨.dir explicit, (represents p _).mpr (describes_map_dir.mp described), rfl⟩

/-- Trees of the same entries look the same. -/
theorem Represents.unique {view' : View δ} {others : List (Entry δ)}
    (represents : Represents view entries) (represents' : Represents view' others)
    (same : ∀ entry, entry ∈ entries ↔ entry ∈ others) : view = view' := by
  funext p
  apply Option.ext
  intro kind
  rw [represents, represents']
  cases kind with
  | file data => exact exists_congr fun entry => and_congr_left fun _ => same entry
  | dir explicit =>
      show (_ ∨ ∃ entry ∈ entries, _) ∧ (_ ↔ _ ∨ ∃ entry ∈ entries, _) ↔ _
      simp only [same]
      rfl

end Contents

section Trees

/-- The bytes of a file. -/
def content (image : Image) (slice : Slice) : List UInt8 :=
  match slice.1 with
  | none => []
  | some pos => image.window pos slice.2

/-- Two trees are equal up to the order of siblings, the inode numbers and where in its buffer
a file lies. -/
inductive SameTree (image image' : Image) : Node → Node → Prop where
  | mk {a b : Node} (name : a.name = b.name)
      (kind : a.kind.map (content image) = b.kind.map (content image')) (siblings : List Node)
      (perm : siblings.Perm b.children)
      (same : List.Forall₂ (SameTree image image') a.children siblings) : SameTree image image' a b

variable {image image' : Image} {a b child : Node} {name : Name}

theorem findChild_of_mem (wf : a.Wf) (member : child ∈ a.children) :
    findChild a.children child.name = some child := by
  cases wf with
  | @mk _ _ children distinct =>
      change child ∈ children at member
      show children.find? _ = some child
      clear * - distinct member
      induction children with
      | nil => cases member
      | cons first rest inductionHypothesis =>
          obtain ⟨fresh, distinct'⟩ := List.nodup_cons.mp distinct
          rcases List.mem_cons.mp member with rfl | later
          · exact List.find?_cons_of_pos (decide_eq_true rfl)
          · rw [List.find?_cons_of_neg]
            · exact inductionHypothesis distinct' later
            · intro same
              refine fresh ?_
              rw [of_decide_eq_true same]
              exact List.mem_map_of_mem later

theorem view_child (wf : a.Wf) (member : child ∈ a.children) (p : List Name) :
    a.view (child.name :: p) = child.view p := by
  rw [view_cons, findChild_of_mem wf member]
  rfl

/-- Where one tree has a child the other has one that looks the same. -/
theorem exists_partner (wf : a.Wf)
    (same : ∀ p, (a.view p).map (Kind.map (content image)) =
      (b.view p).map (Kind.map (content image'))) (member : child ∈ a.children) :
    ∃ partner ∈ b.children, partner.name = child.name ∧
      ∀ p, (child.view p).map (Kind.map (content image)) =
        (partner.view p).map (Kind.map (content image')) := by
  have here (p : List Name) := same (child.name :: p)
  simp only [view_child wf member, view_cons] at here
  cases found : findChild b.children child.name with
  | none =>
      have top := here []
      rw [found] at top
      cases top
  | some partner =>
      refine ⟨partner, findChild_mem found, findChild_name found, fun p => ?_⟩
      rw [here p, found]
      rfl

/-- What two lists of siblings that belong together have in common. -/
structure Paired (image image' : Image) (b : Node) (child partner : Node) : Prop where
  member : partner ∈ b.children
  named : partner.name = child.name
  same : SameTree image image' child partner

theorem exists_paired {children : List Node}
    (each : ∀ child ∈ children, ∃ partner, Paired image image' b child partner) :
    ∃ siblings, List.Forall₂ (Paired image image' b) children siblings := by
  induction children with
  | nil => exact ⟨[], .nil⟩
  | cons first rest inductionHypothesis =>
      obtain ⟨partner, paired⟩ := each first List.mem_cons_self
      obtain ⟨siblings, rest'⟩ := inductionHypothesis fun child member =>
        each child (List.mem_cons_of_mem _ member)
      exact ⟨partner :: siblings, .cons paired rest'⟩

theorem names_of_paired {children siblings : List Node}
    (paired : List.Forall₂ (Paired image image' b) children siblings) :
    siblings.map Node.name = children.map Node.name := by
  induction paired with
  | nil => rfl
  | cons first _ inductionHypothesis =>
      rw [List.map_cons, List.map_cons, first.named, inductionHypothesis]

theorem exists_pair_of_mem {children siblings : List Node} {sibling : Node}
    (paired : List.Forall₂ (Paired image image' b) children siblings)
    (inside : sibling ∈ siblings) : ∃ child ∈ children, Paired image image' b child sibling := by
  induction paired with
  | nil => cases inside
  | cons first _ inductionHypothesis =>
      rcases List.mem_cons.mp inside with rfl | later
      · exact ⟨_, List.mem_cons_self, first⟩
      · obtain ⟨child, member, pair⟩ := inductionHypothesis later
        exact ⟨child, List.mem_cons_of_mem _ member, pair⟩

theorem Node.Wf.names (wf : a.Wf) : (a.children.map Node.name).Nodup := by
  cases wf with
  | mk distinct => exact distinct

/-- Siblings with the names of all children are all children. -/
theorem perm_of_names {siblings : List Node} (wf : b.Wf)
    (members : ∀ sibling ∈ siblings, sibling ∈ b.children)
    (distinct : (siblings.map Node.name).Nodup)
    (names : ∀ child ∈ b.children, child.name ∈ siblings.map Node.name) :
    siblings.Perm b.children := by
  refine (List.perm_ext_iff_of_nodup (List.Nodup.of_map _ distinct)
    (List.Nodup.of_map _ wf.names)).mpr fun child => ⟨members child, fun member => ?_⟩
  obtain ⟨sibling, inside, same⟩ := List.mem_map.mp (names child member)
  have found := findChild_of_mem wf (members sibling inside)
  rw [same, findChild_of_mem wf member] at found
  rwa [Option.some.inj found]

/-- Trees that look the same are the same up to the order of siblings. -/
theorem sameTree_of_view (wf : a.Wf) (wf' : b.Wf) (named : a.name = b.name)
    (same : ∀ p, (a.view p).map (Kind.map (content image)) =
      (b.view p).map (Kind.map (content image'))) : SameTree image image' a b := by
  induction wf generalizing b with
  | @mk name attr children distinct valid leaf wf inductionHypothesis =>
      have whole : (Node.mk name attr children).Wf := .mk distinct valid leaf wf
      have each : ∀ child ∈ children, ∃ partner, Paired image image' b child partner := by
        intro child member
        obtain ⟨partner, member', named', same'⟩ := exists_partner whole same member
        exact ⟨partner, member', named', inductionHypothesis child member (wf'.of_mem member')
          named'.symm same'⟩
      obtain ⟨siblings, paired⟩ := exists_paired each
      have names := names_of_paired paired
      refine .mk named ?_ siblings ?_ (paired.imp fun _ _ pair => pair.same)
      · have top := same []
        rw [view_nil, view_nil] at top
        exact Option.some.inj top
      · refine perm_of_names wf' (fun sibling inside => ?_) (names ▸ distinct)
          fun child member => ?_
        · obtain ⟨child, _, pair⟩ := exists_pair_of_mem paired inside
          exact pair.member
        · obtain ⟨partner, member', named', _⟩ :=
            exists_partner wf' (fun p => (same p).symm) member
          rw [names, ← named']
          exact List.mem_map_of_mem member'

end Trees

section Archives

variable {image small : Image} {off : Nat} {header : Header}

def Image.ofBytes (bytes : List UInt8) (bound : bytes.length < 2 ^ 64) : Image :=
  ⟨fun i => bytes.getD i 0, bytes.length, bound⟩

/-- The bytes of the small buffer lie in the other one from the offset on. -/
structure LiesAt (small image : Image) (off : Nat) : Prop where
  inside : off + small.len ≤ image.len
  same : ∀ i < small.len, image.bytes (off + i) = small.bytes i

theorem LiesAt.window (lies : LiesAt small image off) {k n : Nat} (inside : k + n ≤ small.len) :
    image.window (off + k) n = small.window k n := by
  induction n generalizing k with
  | zero => rfl
  | succ n inductionHypothesis =>
      unfold Image.window
      rw [lies.same k (by omega), Nat.add_assoc, inductionHypothesis (by omega)]

def Header.shift (header : Header) (off : Nat) : Header :=
  { header with name := off + header.name, data := off + header.data, next := off + header.next }

theorem roundUp4_add {x : Nat} (aligned : 4 ∣ off) : roundUp4 (off + x) = off + roundUp4 x := by
  unfold roundUp4
  omega

/-- A record is the same record wherever it lies. -/
theorem RecordAt.shift (record : RecordAt small 0 header) (lies : LiesAt small image off)
    (aligned : 4 ∣ off) : RecordAt image off (header.shift off) := by
  obtain ⟨dataGe, nextGe, nextLe⟩ := record.bounds
  have name := record.name
  unfold cpioHdrSize at dataGe name
  have fixed (k n : Nat) (inside : k + n ≤ 110) : image.window (off + k) n =
    small.window (0 + k) n := by
    rw [Nat.zero_add]
    exact lies.window (by omega)
  refine ⟨?_, ?_, ?_, ?_, ?_, ?_, ?_, ?_, ?_, ?_⟩
  · rw [show image.window off 6 = small.window 0 6 from fixed 0 6 (by decide)]
    exact record.magic
  · rw [fixed 14 8 (by decide)]
    exact record.mode
  · rw [fixed 54 8 (by decide)]
    exact record.size
  · rw [fixed 94 8 (by decide)]
    exact record.nameSize
  · show off + header.name = off + cpioHdrSize
    rw [name]
    rfl
  · show image.bytes (off + header.name + header.nameLen) = 0
    rw [Nat.add_assoc, lies.same _ (by omega)]
    exact record.ended
  · show 0 ∉ image.window (off + header.name) header.nameLen
    rw [lies.window (by omega)]
    exact record.noZero
  · show off + header.data = roundUp4 (off + header.name + header.nameLen + 1)
    rw [Nat.add_assoc, Nat.add_assoc, roundUp4_add aligned, record.data, Nat.add_assoc]
  · show off + header.next = roundUp4 (off + header.data + header.size)
    rw [Nat.add_assoc, roundUp4_add aligned, record.next]
  · show off + header.next ≤ image.len
    have := lies.inside
    omega

/-- The bytes of one record. -/
structure Record where
  bytes : List UInt8
  bound : bytes.length < 2 ^ 64
  header : Header
  isRecord : RecordAt (.ofBytes bytes bound) 0 header
  whole : header.next = bytes.length

variable {record : Record} {records others : List Record} {last : Record} {tail : List UInt8}

def Record.name (record : Record) : Name :=
  (Image.ofBytes record.bytes record.bound).window record.header.name record.header.nameLen

/-- The entry that the record makes, with the bytes of its data. -/
def Record.entry (record : Record) : Entry (List UInt8) :=
  (record.header.entry (.ofBytes record.bytes record.bound)).map
    (content (.ofBytes record.bytes record.bound))

/-- Records, one after the other, before the trailer; what lies behind it is not read. -/
def archive (records : List Record) (last : Record) (tail : List UInt8) : List UInt8 :=
  (records.map Record.bytes).flatten ++ (last.bytes ++ tail)

theorem Record.aligned (record : Record) : 4 ∣ record.bytes.length := by
  rw [← record.whole, record.isRecord.next]
  exact Nat.dvd_mul_left _ _

theorem Record.nonempty (record : Record) : 0 < record.bytes.length := by
  rw [← record.whole]
  exact record.isRecord.off_lt

/-- The headers of the records where they lie in the archive. -/
def headersFrom : Nat → List Record → List Header
  | _, [] => []
  | off, record :: rest => record.header.shift off :: headersFrom (off + record.bytes.length) rest

theorem liesAt_append {bytes before middle after : List UInt8} (bound : bytes.length < 2 ^ 64)
    (bound' : middle.length < 2 ^ 64) (split : bytes = before ++ (middle ++ after)) :
    LiesAt (.ofBytes middle bound') (.ofBytes bytes bound) before.length := by
  subst split
  refine ⟨?_, fun i inside => ?_⟩
  · show before.length + middle.length ≤ (before ++ (middle ++ after)).length
    rw [List.length_append, List.length_append]
    omega
  · show (before ++ (middle ++ after)).getD (before.length + i) 0 = middle.getD i 0
    rw [List.getD_append_right _ _ _ _ (by omega), Nat.add_sub_cancel_left,
      List.getD_append _ _ _ _ inside]

theorem Record.name_shift (record : Record)
    (lies : LiesAt (.ofBytes record.bytes record.bound) image off) :
    image.window (record.header.shift off).name (record.header.shift off).nameLen =
      record.name := by
  have bounds := record.isRecord.bounds
  have name := record.isRecord.name
  have inside : record.header.name + record.header.nameLen ≤
      (Image.ofBytes record.bytes record.bound).len := by omega
  exact lies.window inside

/-- The entry of a record does not depend on where it lies. -/
theorem Record.entry_shift (record : Record)
    (lies : LiesAt (.ofBytes record.bytes record.bound) image off) :
    ((record.header.shift off).entry image).map (content image) = record.entry := by
  obtain ⟨dataGe, nextGe, nextLe⟩ := record.isRecord.bounds
  have sameName : image.window (off + record.header.name) record.header.nameLen = record.name :=
    record.name_shift lies
  have sameData : image.window (off + record.header.data) record.header.size =
      (Image.ofBytes record.bytes record.bound).window record.header.data record.header.size :=
    lies.window (by omega)
  show (⟨segments (image.window (off + record.header.name) record.header.nameLen), _,
    image.window (off + record.header.data) record.header.size⟩ : Entry (List UInt8)) = _
  rw [sameName, sameData]
  rfl

/-- The records of an archive are its records. -/
theorem records_archive {bytes before : List UInt8} (bound : bytes.length < 2 ^ 64)
    (split : bytes = before ++ archive records last tail) (aligned : 4 ∣ before.length)
    (notLast : ∀ record ∈ records, record.name ≠ trailer) (isLast : last.name = trailer) :
    Records (.ofBytes bytes bound) before.length (headersFrom before.length records) ∧
      ((headersFrom before.length records).map (Header.entry (.ofBytes bytes bound))).map
        (Entry.map (content (.ofBytes bytes bound))) = records.map Record.entry := by
  induction records generalizing before with
  | nil =>
      have lies := liesAt_append bound last.bound split
      have inside := lies.inside
      have some := last.nonempty
      refine ⟨.trailer ?_ (last.isRecord.shift lies aligned) ?_, rfl⟩
      · change before.length + last.bytes.length ≤ _ at inside
        omega
      · rw [last.name_shift lies]
        exact isLast
  | cons record rest inductionHypothesis =>
      have split' : bytes = before ++ (record.bytes ++ archive rest last tail) := by
        rw [split]
        unfold archive
        rw [List.map_cons, List.flatten_cons, List.append_assoc]
      have lies := liesAt_append bound record.bound split'
      have inside := lies.inside
      have some := record.nonempty
      have next : (before ++ record.bytes).length = before.length + record.bytes.length :=
        List.length_append
      obtain ⟨records, entries⟩ := @inductionHypothesis (before ++ record.bytes)
        (by rw [split', List.append_assoc])
        (by rw [next]; exact (Nat.dvd_add_right aligned).mpr record.aligned)
        fun other member => notLast other (List.mem_cons_of_mem _ member)
      rw [next] at records entries
      refine ⟨.record ?_ (record.isRecord.shift lies aligned) ?_ ?_, ?_⟩
      · change before.length + record.bytes.length ≤ _ at inside
        omega
      · rw [record.name_shift lies]
        exact notLast record List.mem_cons_self
      · rw [show (record.header.shift before.length).next = before.length + record.bytes.length
          from congrArg _ record.whole]
        exact records
      · show _ :: _ = _ :: _
        rw [record.entry_shift lies]
        exact congrArg _ entries

theorem length_archive (perm : records.Perm others) :
    (archive others last tail).length = (archive records last tail).length := by
  unfold archive
  have same := (perm.map Record.bytes).flatten.length_eq
  simp only [List.length_append, same]

theorem supported_headersFrom : (∀ header ∈ headersFrom off records, header.Supported) ↔
    ∀ record ∈ records, record.header.Supported := by
  induction records generalizing off with
  | nil => exact ⟨nofun, nofun⟩
  | cons record rest inductionHypothesis =>
      unfold headersFrom
      rw [List.forall_mem_cons, List.forall_mem_cons, inductionHypothesis]
      rfl

/-- What `cpio_mount` makes of an archive. -/
theorem cpioMount_archive (bound : (archive records last tail).length < 2 ^ 64)
    (notLast : ∀ record ∈ records, record.name ≠ trailer) (isLast : last.name = trailer) :
    ((∃ root, cpioMount (.ofBytes _ bound) = .ok root) ↔
      (∀ record ∈ records, record.header.Supported) ∧ Addable [] (records.map Record.entry)) ∧
    ∀ root, cpioMount (.ofBytes _ bound) = .ok root → root.Wf ∧ root.name = [] ∧
      Represents (fun p => (root.view p).map (Kind.map (content (.ofBytes _ bound))))
        (records.map Record.entry).reverse := by
  obtain ⟨isArchive, entries⟩ := @records_archive records last tail _ [] bound rfl
    (Nat.dvd_zero _) notLast isLast
  rw [List.length_nil] at isArchive entries
  have addable : Addable [] ((headersFrom 0 records).map (Header.entry (.ofBytes _ bound))) ↔
      Addable [] (records.map Record.entry) := by
    rw [← entries, addable_map]
  have supported (root : Node) (ran : cpioMount (.ofBytes _ bound) = .ok root) :
      ∀ header ∈ headersFrom 0 records, header.Supported := by
    obtain ⟨headers, found, supported⟩ := (mountLoop_spec (Nat.lt_succ_self _)).of_ok ran
    rwa [isArchive.unique found]
  refine ⟨⟨?_, ?_⟩, fun root ran => ?_⟩
  · rintro ⟨root, ran⟩
    refine ⟨supported_headersFrom.mp (supported root ran), addable.mp ?_⟩
    exact (mounted_of_records isArchive (supported root ran) ran).1
  · rintro ⟨all, adds⟩
    exact cpioMount_ok isArchive (supported_headersFrom.mpr all) (addable.mpr adds)
  · have mounted := (mounted_of_records isArchive (supported root ran) ran).2
    refine ⟨mounted.wf, mounted.name, ?_⟩
    rw [← entries, ← List.map_reverse]
    exact mounted.represents.map

/-- An archive and one with its records in another order are both mounted or both refused,
and the trees are the same up to the order of siblings. -/
theorem cpioMount_perm (perm : records.Perm others)
    (notLast : ∀ record ∈ records, record.name ≠ trailer) (isLast : last.name = trailer)
    (bound : (archive records last tail).length < 2 ^ 64) :
    ((∃ root, cpioMount (.ofBytes (archive records last tail) bound) = .ok root) ↔
      ∃ root, cpioMount (.ofBytes (archive others last tail) (length_archive perm ▸ bound)) =
        .ok root) ∧
    ∀ root root', cpioMount (.ofBytes (archive records last tail) bound) = .ok root →
      cpioMount (.ofBytes (archive others last tail) (length_archive perm ▸ bound)) = .ok root' →
      SameTree (.ofBytes (archive records last tail) bound)
        (.ofBytes (archive others last tail) (length_archive perm ▸ bound)) root root' := by
  have notLast' : ∀ record ∈ others, record.name ≠ trailer :=
    fun record member => notLast record (perm.mem_iff.mpr member)
  obtain ⟨exactly, spec⟩ := cpioMount_archive bound notLast isLast
  obtain ⟨exactly', spec'⟩ :=
    cpioMount_archive (length_archive perm ▸ bound) notLast' isLast
  refine ⟨?_, fun root root' ran ran' => ?_⟩
  · rw [exactly, exactly']
    refine and_congr ⟨fun all record member => all record (perm.mem_iff.mpr member),
      fun all record member => all record (perm.mem_iff.mp member)⟩ ?_
    rw [addable_iff, addable_iff]
    have entries := perm.map Record.entry
    refine and_congr ⟨fun all entry member => all entry (entries.mem_iff.mpr member),
      fun all entry member => all entry (entries.mem_iff.mp member)⟩ (and_congr ?_
        ⟨fun _ => nofun, fun _ => nofun⟩)
    exact entries.pairwise_iff fun compatible => compatible.symm
  · obtain ⟨wf, name, represents⟩ := spec root ran
    obtain ⟨wf', name', represents'⟩ := spec' root' ran'
    have views := represents.unique represents' fun entry => by
      rw [List.mem_reverse, List.mem_reverse]
      exact (perm.map Record.entry).mem_iff
    exact sameTree_of_view wf wf' (name.trans name'.symm) (congrFun views)

end Archives

section Example

/-- A number as eight hexadecimal digits. -/
def hexBytes (number : Nat) : List UInt8 := (List.range 8).map fun i =>
  let digit := number / 16 ^ (7 - i) % 16
  UInt8.ofNat (if digit < 10 then 48 + digit else 87 + digit)

def padded (bytes : List UInt8) : List UInt8 :=
  bytes ++ List.replicate (roundUp4 bytes.length - bytes.length) 0

/-- A record with only the fields that are read. -/
def newcRecord (mode : Nat) (name : Name) (data : List UInt8) : List UInt8 :=
  padded (newcMagic ++ hexBytes 0 ++ hexBytes mode ++ (List.replicate 4 (hexBytes 0)).flatten ++
    hexBytes data.length ++ (List.replicate 4 (hexBytes 0)).flatten ++
    hexBytes (name.length + 1) ++ hexBytes 0 ++ name ++ [0]) ++ padded data

/-- The directory `a`. -/
def dirRecord : Record where
  bytes := newcRecord 0o040755 [97] []
  bound := by decide +kernel
  header := ⟨0o040755, 110, 1, 112, 0, 112⟩
  isRecord := recordAt_of_readRecord (by decide +kernel)
  whole := by decide +kernel

/-- The file `a/b` with three bytes. -/
def fileRecord : Record where
  bytes := newcRecord 0o100644 [97, 47, 98] [1, 2, 3]
  bound := by decide +kernel
  header := ⟨0o100644, 110, 3, 116, 3, 120⟩
  isRecord := recordAt_of_readRecord (by decide +kernel)
  whole := by decide +kernel

def trailerRecord : Record where
  bytes := newcRecord 0 trailer []
  bound := by decide +kernel
  header := ⟨0, 110, 10, 124, 0, 124⟩
  isRecord := recordAt_of_readRecord (by decide +kernel)
  whole := by decide +kernel

theorem exists_of_isOk {ε α : Type} {x : Except ε α} (isOk : x.isOk = true) :
    ∃ value, x = .ok value := by
  cases x with
  | error stop => cases isOk
  | ok value => exact ⟨value, rfl⟩

theorem cpioMount_perm_two : ∃ root root',
    cpioMount (.ofBytes (archive [dirRecord, fileRecord] trailerRecord []) (by decide +kernel)) =
      .ok root ∧
    cpioMount (.ofBytes (archive [fileRecord, dirRecord] trailerRecord []) (by decide +kernel)) =
      .ok root' ∧
    SameTree (.ofBytes (archive [dirRecord, fileRecord] trailerRecord []) (by decide +kernel))
      (.ofBytes (archive [fileRecord, dirRecord] trailerRecord []) (by decide +kernel)) root
        root' := by
  have perm : [dirRecord, fileRecord].Perm [fileRecord, dirRecord] := .swap _ _ _
  have bound : (archive [dirRecord, fileRecord] trailerRecord []).length < 2 ^ 64 := by
    decide +kernel
  have notLast : ∀ record ∈ [dirRecord, fileRecord], record.name ≠ trailer := by decide +kernel
  obtain ⟨exactly, same⟩ :=
    @cpioMount_perm _ _ trailerRecord [] perm notLast (by decide +kernel) bound
  have isOk : (cpioMount (.ofBytes (archive [dirRecord, fileRecord] trailerRecord [])
      (by decide +kernel))).isOk = true := by decide +kernel
  obtain ⟨root, ran⟩ := exists_of_isOk isOk
  obtain ⟨root', ran'⟩ := exactly.mp ⟨root, ran⟩
  exact ⟨root, root', ran, ran', same root root' ran ran'⟩

end Example

end Opal.Cpio
