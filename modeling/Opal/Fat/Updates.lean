import Opal.Fat.Contents

/-!
# Writing and truncating a file

A write leaves the file with the bytes up to where it has come to, and a truncation leaves it
empty.  Both keep to the clusters of the file and to free ones.
-/

namespace Opal.Fat

open Library

section Confined

variable {fat middle after : FatTable} {clusters clusters' clusters'' : Nat → Memory}
  {chain chain' chain'' other : List Nat} {first c : Nat} {file : File} {dentry : Dentry}

/-- An operation changes the clusters of a chain and takes free ones to it. -/
structure Confined (fat : FatTable) (clusters : Nat → Memory) (chain : List Nat)
    (after : FatTable) (clusters' : Nat → Memory) (chain' : List Nat) : Prop where
  layout : after.layout = fat.layout
  works : after.Works
  fresh : ∀ c ∈ chain', c ∈ chain ∨ fat.stored c = 0
  entries : ∀ c < fat.layout.clusterCount + 2, fat.stored c ≠ 0 → c ∉ chain →
    after.stored c = fat.stored c
  data : ∀ c, fat.stored c ≠ 0 → c ∉ chain → clusters' c = clusters c

theorem Extended.confined (extended : Extended fat chain after chain')
    (data : ∀ c, fat.stored c ≠ 0 → c ∉ chain → clusters' c = clusters c) :
    Confined fat clusters chain after clusters' chain' := by
  obtain ⟨layout, works, ⟨new, rfl, free⟩, kept⟩ := extended
  refine ⟨layout, works, fun c member => ?_, kept, data⟩
  exact (List.mem_append.mp member).imp id (free c)

theorem Still.confined (still : Still fat after) (works : after.Works) :
    Confined fat clusters chain after clusters chain :=
  (still.extended works).confined fun _ _ _ => rfl

/-- A file whose clusters are others is left as it was. -/
theorem Confined.spares (confined : Confined fat clusters chain after clusters' chain')
    (stored : file.Stored fat clusters dentry other) (apart : List.Disjoint other chain) :
    file.Stored after clusters' dentry other :=
  stored.congr confined.layout
    (fun c member => confined.entries c (stored.chained.entry member)
      (stored.chained.used c member) (apart member))
    fun c member => confined.data c (stored.chained.used c member) (apart member)

/-- The clusters of the chain are still none of another file. -/
theorem Confined.disjoint (confined : Confined fat clusters chain after clusters' chain')
    (stored : file.Stored fat clusters dentry other) (apart : List.Disjoint other chain) :
    List.Disjoint other chain' := by
  intro c member inside
  rcases confined.fresh c inside with old | free
  · exact apart member old
  · exact stored.chained.used c member free

/-- The first cluster of a file that had none. -/
theorem Marks.extended (marks : Marks fat c after) (works : after.Works) :
    Extended fat [] after [c] := by
  refine ⟨marks.takes.layout, works, ⟨[c], rfl, fun d member => ?_⟩, fun d inside used _ => ?_⟩
  · cases List.mem_singleton.mp member
    exact marks.zero
  · apply marks.takes.others d inside
    rintro rfl
    exact used marks.zero

/-- A file has room in the chain that has been extended. -/
theorem Extended.room (extended : Extended fat chain after chain') {clusters : Nat → Memory}
    {dentry : Dentry} {file : File} (stored : file.Stored fat clusters dentry chain) :
    file.size ≤ chain'.length * fat.layout.bpc := by
  obtain ⟨new, rfl, -⟩ := extended.fresh
  rw [List.length_append, Nat.add_mul]
  exact stored.room.trans (Nat.le_add_right _ _)

theorem Extended.index (extended : Extended fat chain after chain') {j : Nat}
    (here : chain[j]? = some c) : chain'[j]? = some c := by
  obtain ⟨new, rfl, -⟩ := extended.fresh
  rw [List.getElem?_append_left (List.getElem?_eq_some_iff.mp here).1]
  exact here

/-- The walk of a write starts at the first cluster of the chain, or at one that was free. -/
theorem firstOf_begins (works : fat.Works) (regular : fat.layout.Regular)
    (chained : ClusterChain fat first chain) :
    (∃ after, firstOf first fat = (.error (.allocation .enospc), after) ∧ Still fat after ∧
        after.Works ∧ fat.Full) ∨
      ∃ c after chain', firstOf first fat = (.ok c, after) ∧ chain'[0]? = some c ∧
        ClusterChain after c chain' ∧ Extended fat chain after chain' ∧
          (chain = [] ∨ c = first) := by
  unfold firstOf
  by_cases ends : fat.layout.Ends first
  · rw [if_pos ends]
    obtain rfl : chain = [] := chained.strung.unique (.stop ends) |>.symm
    rcases works.tableAlloc regular.holds with ⟨after, failed, still, works', full⟩ |
      ⟨c, after, allocated, marks, works'⟩
    · rw [failed]
      exact .inl ⟨after, rfl, still, works', full⟩
    · rw [allocated]
      exact .inr ⟨c, after, [c], rfl, rfl, marks.clusterChain regular, marks.extended works',
        .inl rfl⟩
  · rw [if_neg ends]
    exact .inr ⟨first, fat, chain, rfl, chained.strung.head_eq ends, chained,
      (Still.refl fat).extended works, .inr rfl⟩

end Confined

section Writing

variable {inode walked after : Inode} {file : File} {dentry : Dentry} {chain chain' : List Nat}
  {source : List UInt8} {pos n c fsz : Nat} {result : Except Failure Nat} {append : Bool}
  {ended : Option Cause}

/-- The bytes that a write is given. -/
def bytesAt (source : List UInt8) : Memory := fun i => source.getD i 0

/-- Between the end of the file and the position there are zeros. -/
theorem newBuffer_gap {i : Nat} {bytes : Memory} {size : Nat} (behind : inode.filesize ≤ i)
    (before : i < pos) : newBuffer inode pos bytes size i = 0 := by
  unfold newBuffer
  rw [Memory.copyInto_outside (Or.inl before), Memory.copyInto_outside (by omega)]

/-- The buffer of the longer file shows what has been written. -/
theorem File.Shown.write {bpc : Nat} (shown : file.Shown inode.filesize inode.cached)
    (few : n ≤ source.length) (all : n = source.length ∨ file.size ≤ pos + n) {i : Nat} {b : UInt8}
    (promised : (file.write bpc pos (source.take n)).byte i = some b) :
    newBuffer inode pos (bytesAt source) source.length i = b := by
  have length : (source.take n).length = n := List.length_take_of_le few
  have cases : file.written bpc pos (source.take n) i = some b := promised
  unfold File.written at cases
  rw [length] at cases
  split_ifs at cases with new old gap
  · obtain ⟨k, rfl⟩ := Nat.exists_eq_add_of_le new.1
    have less : k < n := by omega
    rw [Nat.add_sub_cancel_left, List.getElem?_take_of_lt less] at cases
    rw [newBuffer_new (less.trans_le few), bytesAt, List.getD_eq_getElem?_getD, cases]
    rfl
  · rw [newBuffer_old (shown.1 ▸ old) (by omega)]
    exact shown.2 i b cases
  · rw [newBuffer_gap (shown.1 ▸ Nat.le_of_not_lt old) gap.2]
    exact Option.some.inj cases

/-- An entry of the directory holds the fields. -/
def Dentry.Fits (dentry : Dentry) : Prop := dentry.firstCluster < 2 ^ 16 ∧ dentry.fileSize < 2 ^ 32

/-- A cluster of such a volume is recorded as it is. -/
theorem Layout.Fixed.records {layout : Layout} (fixed : layout.Fixed)
    (bound : c < layout.clusterCount + 2) (dentry : Dentry) :
    dentrySetFirstCluster layout.bits c dentry = { dentry with firstCluster := c } ∧
      c < 2 ^ 16 := by
  have small := bound.trans_le fixed.small
  unfold dentrySetFirstCluster
  rcases fixed.bits with narrow | wide
  · have width : layout.width = .fat12 := if_pos narrow
    rw [width] at small
    have few : c < 2 ^ 12 := small.trans (by decide)
    rw [if_pos narrow, Nat.mod_eq_of_lt few]
    exact ⟨rfl, few.trans (by decide)⟩
  · have width : layout.width = .fat16 := by
      unfold Layout.width
      rw [wide]
      rfl
    rw [width] at small
    have few : c < 2 ^ 16 := small.trans (by decide)
    rw [wide, if_neg (by decide), if_neg (by decide), Nat.mod_eq_of_lt few]
    exact ⟨rfl, few⟩

/-- What the end of a write makes of an entry. -/
structure Dentry.Becomes (dentry : Dentry) (c fsz : Nat) (dentry' : Dentry) : Prop where
  attr : dentry'.attr = dentry.attr
  first : maskEntry dentry'.firstCluster = c
  size : dentry'.fileSize = fsz
  fits : dentry'.Fits

theorem updateDentry_becomes {layout : Layout} (fixed : layout.Fixed)
    (bound : c < layout.clusterCount + 2) (masked : maskEntry c = c) (small : fsz < 2 ^ 32)
    (present : walked.dentry = some dentry) (works : walked.entries = Stream'.const none)
    (sized : dentry.hasSize = true) (size : dentry.fileSize = walked.filesize)
    (first : maskEntry walked.firstCluster = maskEntry dentry.firstCluster) (fits : dentry.Fits) :
    ∃ dentry', updateDentry layout c fsz ended walked =
        (.ok (), { walked with dentry := some dentry' }) ∧ dentry.Becomes c fsz dentry' := by
  obtain ⟨set, few⟩ := fixed.records bound dentry
  have wrote (dentry' : Dentry) :
      writeDentry dentry' walked = (.ok (), { walked with dentry := some dentry' }) := by
    have head : walked.entries.head = none := by
      rw [works]
      rfl
    have tail : walked.entries.tail = walked.entries := by
      rw [works]
      rfl
    unfold writeDentry
    rw [head, tail]
  have kept : walked = { walked with dentry := some dentry } := by rw [← present]
  unfold updateDentry
  rw [present]
  dsimp only
  rw [set]
  by_cases moved : c ≠ maskEntry walked.firstCluster <;>
    by_cases resized : fsz ≠ walked.filesize ∧ dentry.hasSize
  · rw [if_pos moved, if_pos resized, if_pos (Or.inl moved), wrote]
    exact ⟨_, rfl, rfl, masked, rfl, few, small⟩
  · have same : dentry.fileSize = fsz := by
      rw [size]
      by_contra differs
      exact resized ⟨Ne.symm differs, sized⟩
    rw [if_pos moved, if_neg resized, if_pos (Or.inl moved), wrote]
    exact ⟨_, rfl, rfl, masked, same, few, fits.2⟩
  · rw [if_neg moved, if_pos resized, if_pos (Or.inr resized), wrote]
    exact ⟨_, rfl, rfl, by rw [← first, not_not.mp moved], rfl, fits.1, small⟩
  · have same : dentry.fileSize = fsz := by
      rw [size]
      by_contra differs
      exact resized ⟨Ne.symm differs, sized⟩
    rw [if_neg moved, if_neg resized, if_neg (not_or.mpr ⟨moved, resized⟩)]
    exact ⟨dentry, by rw [← kept], rfl, by rw [← first, not_not.mp moved], same, fits⟩

/-- How a write at a position ends, with the file and the position after it. -/
inductive WriteEnds (inode : Inode) (file : File) (pos : Nat) (source : List UInt8)
    (after : Inode) : Except Failure Nat → File → Prop where
  | short (lacks : ¬inode.mem.Succeeds) :
      WriteEnds inode file pos source after (.error (.early .enomem)) file
  | large (exceeds : uint32Max < pos + source.length) :
      WriteEnds inode file pos source after (.error (.early .enospc)) file
  | nothing (empty : source = []) (still : after.pos = inode.pos) :
      WriteEnds inode file pos source after (.ok 0) file
  | refused {cause : Cause} (full : after.table.Full) (fault : cause.fault = .enospc) :
      WriteEnds inode file pos source after (.error (.refused cause)) file
  | wrote {n : Nat} (some_bytes : 0 < n) (few : n ≤ source.length)
      (full : n < source.length → after.table.Full) (moved : after.pos = pos + n) :
      WriteEnds inode file pos source after (.ok n)
        (file.write inode.layout.bpc pos (source.take n))

/-- An operation on a file makes another file of it. -/
structure Rewrites (inode : Inode) (dentry : Dentry) (chain : List Nat) (after : Inode)
    (file' : File) (dentry' : Dentry) (chain' : List Nat) : Prop where
  behind : file'.Behind after dentry' chain'
  confined : Confined inode.table inode.clusters chain after.table after.clusters chain'
  attr : dentry'.attr = dentry.attr
  fits : dentry'.Fits

variable {table : FatTable} {chain₀ : List Nat} {e : Nat} {newbuf : Memory}

/-- The walk of a write, from its start on. -/
structure Walks (inode : Inode) (chain : List Nat) (newbuf : Memory) (pos writeEnd c e : Nat)
    (ended : Option Cause) (walked : Inode) (chain' : List Nat) : Prop where
  chained : ClusterChain walked.table c chain'
  extended : Extended inode.table chain walked.table chain'
  met : e ≤ chain'.length
  written : ∀ k d, k < e → pos < (k + 1) * inode.layout.bpc → chain'[k]? = some d →
    ∀ i < inode.layout.bpc, walked.clusters d i = newbuf (k * inode.layout.bpc + i)
  kept : ∀ d, (∀ k < e, pos < (k + 1) * inode.layout.bpc → chain'[k]? ≠ some d) →
    walked.clusters d = inode.clusters d
  same : SameFile inode walked
  done : ended = none → writeEnd ≤ e * inode.layout.bpc
  short : ∀ cause, ended = some cause → cause = .extension .enospc ∧ chain'.length = e ∧
    e * inode.layout.bpc < writeEnd ∧ walked.table.Full

/-- A cluster is a number of whole sectors. -/
theorem FatTable.whole (fat : FatTable) :
    fat.layout.sectorsPerCluster * fat.layout.lsec * diskSectorSize = fat.layout.bpc := by
  have sectors : fat.layout.bytesPerSector = diskSectorSize * fat.layout.lsec :=
    (lsec_of_isValidBps fat.tabular.bps).1
  rw [Layout.bpc, sectors, Nat.mul_assoc, Nat.mul_comm, Nat.mul_comm fat.layout.lsec]

theorem walk_walks (works : inode.Works) (behind : file.Behind inode dentry chain)
    (begins : inode.Begins source.length append) :
    (∃ table, inode.walk (bytesAt source) source.length append =
        (.error (.refused (.allocation .enospc)), { inode.begun with table := table }) ∧
        Still inode.table table ∧ table.Works ∧ inode.table.Full) ∨
      ∃ c e ended walked chain', inode.walk (bytesAt source) source.length append =
          finish inode.layout (newBuffer inode (inode.writePos append) (bytesAt source)
            source.length) c (inode.writePos append) source.length
            (max inode.filesize (inode.writePos append + source.length))
            ((e * inode.layout.bpc, ended), walked) ∧
        Walks inode chain (newBuffer inode (inode.writePos append) (bytesAt source) source.length)
          (inode.writePos append) (inode.writePos append + source.length) c e ended walked chain' ∧
        (chain = [] ∨ c = maskEntry inode.firstCluster) := by
  have chained := behind.stored.chained
  rw [← behind.first] at chained
  unfold Inode.walk
  rcases firstOf_begins works.table works.layout.toRegular chained with
    ⟨table, failed, still, works', full⟩ |
    ⟨c, table, chain₀, first, here, chained₀, extended₀, start⟩
  · left
    rw [@writeClusters_of_error _ inode.begun _ _ _ _ table _ failed]
    exact ⟨table, rfl, still, works', full⟩
  · right
    rw [@writeClusters_of_ok _ inode.begun _ _ _ _ c table first]
    have layout : table.layout = inode.layout := extended₀.layout
    have room := @Inode.le_newlen inode source.length append works.layout.positive
    have some_bytes := Nat.pos_of_ne_zero begins.some_bytes
    have traverses := @writeLoop_traversed
      (newBuffer inode (inode.writePos append) (bytesAt source) source.length)
      (inode.writePos append) (inode.writePos append + source.length)
      (inode.newlen source.length append / inode.layout.bpc) c 0 c chain₀
      { inode.begun with table := table } extended₀.works works.writes
    rw [show Inode.layout { inode.begun with table := table } = inode.layout from layout,
      Nat.zero_mul] at traverses
    obtain ⟨e, ended, walked, chain', ran, traversed⟩ := traverses works.layout.toRegular
      inode.table.whole chained₀ here begins.rounds_le (Nat.add_pos_right _ some_bytes)
      (by rw [Nat.zero_add]; omega)
    rw [layout, ran]
    refine ⟨c, e, ended, walked, chain', rfl, ?_, start⟩
    obtain ⟨lt, met, chained', extended, written, kept, mem, done, short⟩ := traversed
    have same : Inode.layout { inode.begun with table := table } = inode.layout := layout
    rw [same] at written kept done short
    obtain ⟨dentry', firstCluster, filesize, buffer, entries⟩ := writeLoop_sameFile ran
    refine ⟨chained', ?_, met, fun k d less => written k d (Nat.zero_le k) less,
      fun d spared => kept d fun k _ less => spared k less,
      ⟨dentry', firstCluster, filesize, buffer, entries⟩, done, short⟩
    refine extended₀.trans extended (fun d member zero => ?_) fun d member => ?_
    · exact absurd zero (chained₀.used_of_extended extended₀ d member)
    · have entry := chained'.entry member
      rwa [extended.layout, layout] at entry

variable {writeEnd : Nat} {dentry' : Dentry}

/-- The clusters that were in use elsewhere hold what they held. -/
theorem Walks.confined (walks : Walks inode chain newbuf pos writeEnd c e ended walked chain') :
    Confined inode.table inode.clusters chain walked.table walked.clusters chain' := by
  refine walks.extended.confined fun d used other => walks.kept d fun k _ _ found => ?_
  obtain ⟨new, same, free⟩ := walks.extended.fresh
  have member := List.mem_of_getElem? found
  rw [same] at member
  exact (List.mem_append.mp member).elim other fun fresh => used (free d fresh)

/-- A cluster that is not written holds what it held. -/
theorem Walks.old (walks : Walks inode chain newbuf pos writeEnd c e ended walked chain')
    (stored : file.Stored inode.table inode.clusters dentry chain) {j d i : Nat} {b : UInt8}
    (here : chain'[j]? = some d) (less : i < inode.layout.bpc)
    (promised : file.byte (j * inode.layout.bpc + i) = some b)
    (spared : e ≤ j ∨ (j + 1) * inode.layout.bpc ≤ pos) : walked.clusters d i = b := by
  have inside := file.inside _ b promised
  have before : j < chain.length := by
    by_contra beyond
    have bound := Nat.mul_le_mul_right inode.layout.bpc (Nat.le_of_not_lt beyond)
    have room := stored.room
    unfold Inode.layout at *
    omega
  have old := List.getElem?_eq_getElem before
  have same : chain[j] = d := Option.some.inj ((walks.extended.index old).symm.trans here)
  rw [same] at old
  have kept : walked.clusters d = inode.clusters d := by
    refine walks.kept d fun k lower inside found => ?_
    have again : k = j := (List.getElem?_inj (List.getElem?_eq_some_iff.mp found).1
      walks.chained.strung.nodup).mp (found.trans here.symm)
    rw [again] at lower inside
    omega
  rw [kept]
  exact stored.bytes j d old i less b promised

/-- A write that has come to no cluster at the position leaves the file. -/
theorem Walks.refused (walks : Walks inode chain newbuf pos writeEnd c e ended walked chain')
    (behind : file.Behind inode dentry chain) (fits : dentry.Fits)
    (before : e * inode.layout.bpc ≤ pos) (start : chain = [] ∨ c = maskEntry inode.firstCluster) :
    ∃ chain', Rewrites inode dentry chain walked file dentry chain' := by
  have layout : walked.layout = inode.layout := walks.extended.layout
  have confined := walks.confined
  have same : walked.clusters = inode.clusters := by
    funext d
    refine walks.kept d fun k less inside _ => ?_
    have bound : (k + 1) * inode.layout.bpc ≤ e * inode.layout.bpc := Nat.mul_le_mul_right _ less
    omega
  obtain ⟨entry, sized, stored, first, cached⟩ := behind
  obtain ⟨dentry', firstCluster, filesize, buffer, -⟩ := walks.same
  have behind' {chain' : List Nat}
      (stored : file.Stored walked.table walked.clusters dentry chain') :
      file.Behind walked dentry chain' := by
    refine ⟨dentry'.trans entry, sized, stored, ?_, ?_⟩
    · rw [firstCluster]
      exact first
    · rw [buffer, filesize]
      exact cached
  rcases start with rfl | rfl
  · refine ⟨[], behind' ?_, ⟨confined.layout, confined.works, by simp, confined.entries,
      confined.data⟩, rfl, fits⟩
    exact stored.congr layout (fun d member => nomatch member) fun d member => nomatch member
  · refine ⟨chain', behind' ⟨?_, stored.size, ?_, fun j d here i less b promised => ?_⟩, confined,
      rfl, fits⟩
    · rw [← first]
      exact walks.chained
    · rw [walks.extended.layout]
      exact walks.extended.room stored
    · rw [walks.extended.layout] at less promised
      refine walks.old stored here less promised ((Nat.lt_or_ge j e).symm.imp id fun lower => ?_)
      exact (Nat.mul_le_mul_right _ lower).trans before

/-- The clusters behind a walk hold what has been written, and the old bytes besides. -/
theorem Walks.stored (walks : Walks inode chain (newBuffer inode pos (bytesAt source)
      source.length) pos writeEnd c e ended walked chain')
    (positive : 0 < inode.layout.bpc) (shown : file.Shown inode.filesize inode.cached)
    (stored : file.Stored inode.table inode.clusters dentry chain) (few : n ≤ source.length)
    (all : n = source.length ∨ file.size ≤ pos + n) (met : pos + n ≤ e * inode.layout.bpc)
    (becomes : dentry.Becomes c (max file.size (pos + n)) dentry') :
    (file.write inode.layout.bpc pos (source.take n)).Stored walked.table walked.clusters dentry'
      chain' := by
  have layout : walked.table.layout.bpc = inode.layout.bpc :=
    congrArg Layout.bpc walks.extended.layout
  have length : (source.take n).length = n := List.length_take_of_le few
  have size : (file.write inode.layout.bpc pos (source.take n)).size = max file.size (pos + n) := by
    rw [File.write_size, length]
  refine ⟨?_, ?_, ?_, fun j d here i less b promised => ?_⟩
  · rw [becomes.first]
    exact walks.chained
  · rw [becomes.size, size]
  · have end_met := met.trans (Nat.mul_le_mul_right _ walks.met)
    rw [size, layout]
    exact max_le (walks.extended.room stored) end_met
  · rw [layout] at less promised
    by_cases written : j < e ∧ pos < (j + 1) * inode.layout.bpc
    · rw [walks.written j d written.1 written.2 here i less]
      exact shown.write few all promised
    · have spared : e ≤ j ∨ (j + 1) * inode.layout.bpc ≤ pos := by omega
      refine walks.old stored here less ?_ spared
      have promised' : file.written inode.layout.bpc pos (source.take n)
        (j * inode.layout.bpc + i) = some b := promised
      have ends : (j + 1) * inode.layout.bpc = j * inode.layout.bpc + inode.layout.bpc :=
        Nat.succ_mul _ _
      have later (beyond : e ≤ j) : e * inode.layout.bpc ≤ j * inode.layout.bpc :=
        Nat.mul_le_mul_right _ beyond
      unfold File.written at promised'
      rw [length] at promised'
      split_ifs at promised' with new old gap
      · exact absurd new (by omega)
      · exact promised'
      · rcases spared with beyond | before
        · exact absurd gap.2 (by have bound := later beyond; omega)
        · have bound := Nat.mul_le_mul_right inode.layout.bpc
            ((Nat.le_div_iff_mul_le positive).mpr before)
          exact absurd gap.1 (by omega)

/-- The file that a write leaves behind the walk. -/
theorem Walks.commits (walks : Walks inode chain (newBuffer inode pos (bytesAt source)
      source.length) pos writeEnd c e ended walked chain') (works : inode.Works)
    (shown : file.Shown inode.filesize inode.cached) (behind : file.Behind inode dentry chain)
    (fits : dentry.Fits) (some_bytes : 0 < n) (few : n ≤ source.length)
    (all : n = source.length ∨ file.size ≤ pos + n) (met : pos + n ≤ e * inode.layout.bpc)
    (small : pos + n ≤ uint32Max) :
    ∃ after dentry', commit inode.layout (newBuffer inode pos (bytesAt source) source.length) c n
        (max file.size (pos + n)) (pos + n) ended walked = (.ok n, after) ∧
      Rewrites inode dentry chain after (file.write inode.layout.bpc pos (source.take n)) dentry'
        chain' ∧ after.pos = pos + n ∧ after.table = walked.table := by
  have goes : ¬inode.layout.Ends c := by
    have strung := walks.chained.strung
    have rounds : e ≠ 0 := by
      rintro rfl
      omega
    rw [walks.extended.layout] at strung
    generalize walked.table = table at strung
    cases strung with
    | stop _ => exact absurd walks.met (Nat.not_le.mpr (Nat.pos_of_ne_zero rounds))
    | link goes _ => exact goes
  obtain ⟨-, below, bound⟩ := cluster_of_not_ends goes
  have masked : maskEntry c = c := Nat.mod_eq_of_lt (below.trans (by decide))
  obtain ⟨entry, sized, stored, first, -⟩ := behind
  obtain ⟨dentry_eq, first_eq, filesize_eq, -, entries_eq⟩ := walks.same
  have size : dentry.fileSize = walked.filesize := by
    rw [filesize_eq, shown.1, stored.size]
  have small' : max file.size (pos + n) < 2 ^ 32 := by
    have old := fits.2
    rw [stored.size] at old
    unfold uint32Max at small
    omega
  obtain ⟨dentry', updated, becomes⟩ := @updateDentry_becomes walked dentry c
    (max file.size (pos + n)) ended inode.layout works.layout bound masked small'
    (dentry_eq.trans entry) (entries_eq.trans works.entries) sized size
    (by rw [first_eq]; exact first) fits
  unfold commit
  rw [updated]
  refine ⟨_, dentry', rfl, ⟨⟨rfl, ?_, walks.stored works.layout.positive shown stored few all met
    becomes, masked.trans becomes.first.symm, fun buffer some => ?_⟩, walks.confined, becomes.attr,
    becomes.fits⟩, rfl, rfl⟩
  · rw [Dentry.hasSize, becomes.attr]
    exact sized
  · cases some
    refine ⟨?_, fun i b promised => shown.write few all promised⟩
    rw [File.write_size, List.length_take_of_le few]

/-- A write fails early, does nothing, or walks along the clusters. -/
theorem fatInodeWrite_outcomes {bytes : Memory} {size : Nat} (settled : inode.Settled)
    (ran : fatInodeWrite bytes size append inode = some (result, after)) :
    (result = .error (.early .enospc) ∧ after = inode ∧ uint32Max < inode.writePos append + size) ∨
      (result = .ok 0 ∧ after = inode ∧ size = 0) ∨
      (result = .error (.early .enomem) ∧ after = inode.begun ∧ inode.mem.head = false) ∨
      inode.Begins size append ∧ inode.walk bytes size append = (result, after) := by
  unfold fatInodeWrite at ran
  rw [settled.fatInodeReadall_eq] at ran
  dsimp only at ran
  have writePos : (if append then inode.filesize else inode.pos) = inode.writePos append := rfl
  rw [writePos] at ran
  split_ifs at ran with exceeds empty large
  · cases ran
    exact .inl ⟨rfl, rfl, by omega⟩
  · cases ran
    exact .inr (.inl ⟨rfl, rfl, empty⟩)
  · unfold allocate at ran
    cases allocated : inode.mem.head with
    | false =>
        rw [allocated] at ran
        cases ran
        exact .inr (.inr (.inl ⟨rfl, rfl, rfl⟩))
    | true =>
        rw [allocated] at ran
        exact .inr (.inr (.inr ⟨⟨by omega, by omega, empty, Nat.le_of_not_lt large⟩,
          Option.some.inj ran⟩))

/-- A write to a file that has been read. -/
theorem File.Behind.write_shown (behind : file.Behind inode dentry chain) (works : inode.Works)
    (fits : dentry.Fits) (shown : file.Shown inode.filesize inode.cached)
    (settled : inode.Settled)
    (ran : fatInodeWrite (bytesAt source) source.length append inode = some (result, after)) :
    ∃ file' dentry' chain',
      WriteEnds inode file (inode.writePos append) source after result file' ∧
        Rewrites inode dentry chain after file' dentry' chain' := by
  rcases fatInodeWrite_outcomes settled ran with ⟨rfl, rfl, exceeds⟩ | ⟨rfl, rfl, empty⟩ |
    ⟨rfl, rfl, short⟩ | ⟨begins, walk⟩
  · exact ⟨file, dentry, chain, .large exceeds, behind,
      (Still.refl _).confined works.table, rfl, fits⟩
  · exact ⟨file, dentry, chain, .nothing (List.length_eq_zero_iff.mp empty) rfl, behind,
      (Still.refl _).confined works.table, rfl, fits⟩
  · obtain ⟨entry, sized, stored, first, cached⟩ := behind
    refine ⟨file, dentry, chain, .short fun succeeds => ?_, ⟨entry, sized, stored, first, cached⟩,
      (Still.refl _).confined works.table, rfl, fits⟩
    exact absurd (succeeds.head.symm.trans short) (by decide)
  · have small : inode.writePos append + source.length ≤ uint32Max := by
      have pos := begins.pos
      have fits := begins.fits
      omega
    have some_bytes := Nat.pos_of_ne_zero begins.some_bytes
    rcases walk_walks works behind begins with ⟨table, refused, still, works', full⟩ |
      ⟨c, e, ended, walked, chain', walked_eq, walks, start⟩
    · rw [refused] at walk
      cases walk
      obtain ⟨entry, sized, stored, first, cached⟩ := behind
      refine ⟨file, dentry, chain, .refused (still.full_iff.mpr full) rfl,
        ⟨entry, sized, ?_, first, cached⟩, still.confined works', rfl, fits⟩
      exact stored.congr still.layout (fun _ _ => still.stored_eq) fun _ _ => rfl
    · rw [walked_eq] at walk
      cases ended with
      | none =>
          obtain ⟨after', dentry', committed, rewrites, moved, -⟩ := walks.commits works shown
            behind fits some_bytes le_rfl (Or.inl rfl) (walks.done rfl) small
          rw [finish, shown.1, committed] at walk
          cases walk
          refine ⟨_, dentry', chain', .wrote some_bytes le_rfl (fun less => ?_) moved, rewrites⟩
          exact absurd less (Nat.lt_irrefl _)
      | some cause =>
          obtain ⟨rfl, length, more, full⟩ := walks.short cause rfl
          rw [finish] at walk
          split_ifs at walk with before
          · cases walk
            obtain ⟨chain', rewrites⟩ := walks.refused behind fits before start
            exact ⟨file, dentry, chain', .refused full rfl, rewrites⟩
          · have room : file.size ≤ e * inode.layout.bpc := by
              rw [← length]
              exact walks.extended.room behind.stored
            have reached : inode.writePos append +
                (e * inode.layout.bpc - inode.writePos append) = e * inode.layout.bpc := by omega
            obtain ⟨after', dentry', committed, rewrites, moved, table⟩ :=
              @Walks.commits inode walked file dentry chain chain' source (inode.writePos append)
                (e * inode.layout.bpc - inode.writePos append) c _ e _ walks works shown behind fits
                (by omega) (by omega) (Or.inr (by omega)) (by omega) (by omega)
            rw [reached, max_eq_right room] at committed
            rw [committed] at walk
            cases walk
            refine ⟨_, dentry', chain', .wrote (by omega) (by omega) (fun _ => ?_) moved, rewrites⟩
            rw [table]
            exact full

variable {middle : Inode} {file' : File}

theorem Looked.confined (looked : Looked inode middle) :
    Confined inode.table inode.clusters chain middle.table middle.clusters chain := by
  have still : Still inode.table middle.table := ⟨looked.view, looked.layout⟩
  rw [looked.clusters]
  exact still.confined looked.works.table

/-- What is done to a file once it is read is done to the file. -/
theorem Looked.rewrites (looked : Looked inode middle)
    (rewrites : Rewrites middle dentry chain after file' dentry' chain') :
    Rewrites inode dentry chain after file' dentry' chain' := by
  obtain ⟨behind, ⟨layout, works, fresh, entries, data⟩, attr, fits⟩ := rewrites
  have still : Still inode.table middle.table := ⟨looked.view, looked.layout⟩
  have same (d : Nat) : middle.table.stored d = inode.table.stored d := still.stored_eq
  simp only [same, still.layout, looked.clusters] at layout fresh entries data
  exact ⟨behind, ⟨layout, works, fresh, entries, data⟩, attr, fits⟩

theorem WriteEnds.looked (looked : Looked inode middle)
    (writes : WriteEnds middle file pos source after result file') :
    WriteEnds inode file pos source after result file' := by
  cases writes with
  | short lacks => exact .short fun succeeds => lacks (looked.mem succeeds)
  | large exceeds => exact .large exceeds
  | nothing empty still => exact .nothing empty (still.trans looked.pos)
  | refused full fault => exact .refused full fault
  | wrote some_bytes few full moved =>
      rw [looked.layout]
      exact .wrote some_bytes few full moved

/-- What a write does to a file. -/
theorem File.Behind.write (behind : file.Behind inode dentry chain) (works : inode.Works)
    (fits : dentry.Fits)
    (ran : fatInodeWrite (bytesAt source) source.length append inode = some (result, after)) :
    ∃ file' dentry' chain',
      WriteEnds inode file (if append then file.size else inode.pos) source after result file' ∧
        Rewrites inode dentry chain after file' dentry' chain' := by
  rcases behind.readall works with ⟨middle, failed, looked, behind', short⟩ |
    ⟨middle, read, looked, behind', shown⟩
  · unfold fatInodeWrite at ran
    rw [failed] at ran
    cases ran
    exact ⟨file, dentry, chain, .short short, behind', looked.confined, rfl, fits⟩
  · rw [fatInodeWrite_of_fatInodeReadall works.layout.positive read] at ran
    have settled := settled_of_fatInodeReadall works.layout.positive read
    obtain ⟨file', dentry', chain', writes, rewrites⟩ :=
      behind'.write_shown looked.works fits shown settled ran
    unfold Inode.writePos at writes
    rw [shown.1, looked.pos] at writes
    exact ⟨file', dentry', chain', writes.looked looked, looked.rewrites rewrites⟩

/-- The size of the buffer of a file that ends at a position. -/
def bufferSize (bpc size : Nat) : Nat := (size + bpc - 1) / bpc * bpc

/-- A write stops the kernel only if the buffer of the file is too large. -/
theorem File.Behind.write_stops (behind : file.Behind inode dentry chain) (works : inode.Works)
    (stopped : fatInodeWrite (bytesAt source) source.length append inode = none) :
    kmallocMaxSize < bufferSize inode.layout.bpc
      (max file.size ((if append then file.size else inode.pos) + source.length)) := by
  rcases behind.readall works with ⟨middle, failed, -⟩ | ⟨middle, read, looked, -, shown⟩
  · unfold fatInodeWrite at stopped
    rw [failed] at stopped
    cases stopped
  · unfold fatInodeWrite at stopped
    rw [read] at stopped
    dsimp only at stopped
    rw [shown.1, looked.pos, looked.layout] at stopped
    generalize (if append then file.size else inode.pos) = writePos at stopped ⊢
    split_ifs at stopped with exceeds empty large
    · exact large
    · cases allocated : allocate middle with
      | mk outcome after =>
          rw [allocated] at stopped
          cases outcome <;> cases stopped

end Writing

section Truncating

variable {fat after : FatTable} {clusters : Nat → Memory} {first fuel : Nat} {chain : List Nat}

theorem freeRound_of_works (works : fat.Works) (holds : fat.layout.Holds)
    (entry : first < fat.layout.clusterCount + 2) :
    ∃ after, freeRound first fat = (.ok (nextCluster fat first), after) ∧
      Takes fat first 0 after ∧ after.Works := by
  have entry' := entry
  rw [← (still_loaded fat).layout] at entry'
  obtain ⟨after, set, takes, works'⟩ :=
    works.loaded.tableSet first 0 (loaded_holds holds) entry'
  refine ⟨after, ?_, takes.ofLoaded, works'⟩
  rw [freeRound, Op.run_bind_ok (tableAt_eq works.readable holds entry), Op.run_bind_ok set]
  rfl

/-- On a device that does not fail a truncation frees the clusters of the chain. -/
theorem freeChain_frees (works : fat.Works) (holds : fat.layout.Holds)
    (strung : Strung fat.layout.Ends (nextCluster fat) first chain)
    (enough : chain.length < fuel) :
    ∃ after, freeChain fuel first fat = some (.ok (), after) ∧ after.Works ∧
      after.layout = fat.layout ∧
      ∀ c < fat.layout.clusterCount + 2,
        after.stored c = if c ∈ chain then 0 else fat.stored c := by
  induction chain generalizing fat first fuel with
  | nil =>
      obtain ⟨fuel, rfl⟩ : ∃ left, fuel = left + 1 := ⟨fuel - 1, by omega⟩
      cases strung with
      | stop stops =>
          refine ⟨fat, ?_, works, rfl, fun c _ => rfl⟩
          rw [freeChain, if_pos stops]
  | cons cluster rest inductionHypothesis =>
      obtain ⟨fuel, rfl⟩ : ∃ left, fuel = left + 1 := ⟨fuel - 1, by omega⟩
      have once := (List.nodup_cons.mp strung.nodup).1
      cases strung with
      | link goes strung =>
          obtain ⟨middle, freed, takes, works'⟩ :=
            freeRound_of_works works holds (cluster_of_not_ends goes).2.2
          have same : ∀ c ∈ rest, nextCluster middle c = nextCluster fat c := by
            intro c member
            refine nextCluster_congr takes.layout (takes.others c ?_ ?_)
            · exact (cluster_of_not_ends (strung.goes c member)).2.2
            · rintro rfl
              exact once member
          have strung' := strung.congr same
          rw [← takes.layout] at strung'
          obtain ⟨after, ran, works'', layout, entries⟩ :=
            @inductionHypothesis middle _ fuel works'
              (takes.trans_layout holds) strung' (Nat.lt_of_succ_lt_succ enough)
          refine ⟨after, ?_, works'', layout.trans takes.layout, fun c inside => ?_⟩
          · rw [freeChain, if_neg goes, freed]
            exact ran
          · have inside' := inside
            rw [← takes.layout] at inside'
            rw [entries c inside']
            by_cases here : c = cluster
            · rw [here, if_neg once, if_pos List.mem_cons_self, takes.self, Nat.zero_mod]
            · simp only [List.mem_cons, here, false_or]
              rw [takes.others c inside here]

theorem ClusterChain.length_le (chained : ClusterChain fat first chain) :
    chain.length ≤ fat.layout.clusterCount + 2 := by
  have simple := List.toFinset_card_of_nodup chained.strung.nodup
  have inside : chain.toFinset ⊆ Finset.range (fat.layout.clusterCount + 2) := fun c member =>
    Finset.mem_range.mpr (chained.entry (List.mem_toFinset.mp member))
  have few := Finset.card_le_card inside
  rwa [simple, Finset.card_range] at few

/-- The loop of a truncation ends with all clusters of the chain free, and changes no other. -/
theorem ClusterChain.freed (chained : ClusterChain fat first chain) (works : fat.Works)
    (holds : fat.layout.Holds) :
    ∃ after, freeChain (fat.layout.clusterCount + 4) first fat = some (.ok (), after) ∧
      Confined fat clusters chain after clusters [] := by
  have few := chained.length_le
  obtain ⟨after, ran, works', layout, entries⟩ :=
    @freeChain_frees fat first (fat.layout.clusterCount + 4) chain works holds chained.strung
      (by omega)
  refine ⟨after, ran, layout, works', by simp, fun c inside _ other => ?_, fun _ _ _ => rfl⟩
  rw [entries c inside, if_neg other]

end Truncating

end Opal.Fat
