import Opal.Fat.Chains
import Opal.Fat.Volume

/-!
# The contents of a file

A file is its size and the bytes that are promised to those who read it.  A write behind the end
promises zeros only from the cluster of the position on: the clusters before it are linked and not
written.  The first read of a file returns what its clusters hold.
-/

namespace Opal.Fat

open Library

section Files

/-- The size of a file, and the bytes that are promised. -/
structure File where
  size : Nat
  byte : Nat → Option UInt8
  inside : ∀ pos b, byte pos = some b → pos < size

def File.empty : File where
  size := 0
  byte _ := none
  inside _ _ promised := nomatch promised

/-- The bytes after a write of some bytes. -/
def File.written (bpc : Nat) (file : File) (pos : Nat) (source : List UInt8) (i : Nat) :
    Option UInt8 :=
  if pos ≤ i ∧ i < pos + source.length then source[i - pos]?
  else if i < file.size then file.byte i
  else if pos / bpc * bpc ≤ i ∧ i < pos then some 0
  else none

def File.write (bpc : Nat) (file : File) (pos : Nat) (source : List UInt8) : File where
  size := max file.size (pos + source.length)
  byte := file.written bpc pos source
  inside i b promised := by
    unfold File.written at promised
    split_ifs at promised <;> omega

@[simp]
theorem File.write_size {bpc : Nat} {file : File} {pos : Nat} {source : List UInt8} :
    (file.write bpc pos source).size = max file.size (pos + source.length) := rfl

variable {file : File} {table after : FatTable} {clusters clusters' : Nat → Memory}
  {dentry : Dentry} {chain chain' : List Nat} {bytes : Memory} {size : Nat}

/-- The bytes are the ones that are promised. -/
def File.Shown (file : File) (size : Nat) (bytes : Memory) : Prop :=
  size = file.size ∧ ∀ pos b, file.byte pos = some b → bytes pos = b

/-- The entry of the directory and the clusters of the chain hold the file. -/
structure File.Stored (file : File) (table : FatTable) (clusters : Nat → Memory)
    (dentry : Dentry) (chain : List Nat) : Prop where
  chained : ClusterChain table (maskEntry dentry.firstCluster) chain
  size : dentry.fileSize = file.size
  room : file.size ≤ chain.length * table.layout.bpc
  bytes : ∀ j c, chain[j]? = some c → ∀ i < table.layout.bpc, ∀ b,
    file.byte (j * table.layout.bpc + i) = some b → clusters c i = b

/-- A file is left by a change elsewhere. -/
theorem File.Stored.congr (stored : file.Stored table clusters dentry chain)
    (layout : after.layout = table.layout)
    (entries : ∀ c ∈ chain, after.stored c = table.stored c)
    (same : ∀ c ∈ chain, clusters' c = clusters c) :
    file.Stored after clusters' dentry chain := by
  obtain ⟨chained, size, room, bytes⟩ := stored
  refine ⟨chained.congr layout entries, size, ?_, fun j c here i less b promised => ?_⟩
  · rw [layout]
    exact room
  · rw [layout] at less promised
    rw [same c (List.mem_of_getElem? here)]
    exact bytes j c here i less b promised

/-- The clusters one after the other show the file. -/
theorem File.Stored.shown {e : Nat} (stored : file.Stored table clusters dentry chain)
    (positive : 0 < table.layout.bpc) (covered : file.size ≤ e * table.layout.bpc)
    (same : ∀ k c, k < e → chain[k]? = some c → ∀ i < table.layout.bpc,
      bytes (k * table.layout.bpc + i) = clusters c i) : file.Shown file.size bytes := by
  refine ⟨rfl, fun pos b promised => ?_⟩
  have inside := file.inside pos b promised
  have place : pos / table.layout.bpc * table.layout.bpc + pos % table.layout.bpc = pos :=
    Nat.div_add_mod' _ _
  have less : pos % table.layout.bpc < table.layout.bpc := Nat.mod_lt _ positive
  have before (n : Nat) (bound : file.size ≤ n * table.layout.bpc) :
      pos / table.layout.bpc < n :=
    (Nat.div_lt_iff_lt_mul positive).mpr (inside.trans_le bound)
  have here := List.getElem?_eq_getElem (before _ stored.room)
  have data := same _ _ (before e covered) here _ less
  rw [place] at data
  rw [data]
  refine stored.bytes _ _ here _ less b ?_
  rwa [place]

/-- An empty file has no clusters. -/
theorem File.empty_stored (first : dentry.firstCluster = 0) (size : dentry.fileSize = 0) :
    File.empty.Stored table clusters dentry [] := by
  refine ⟨⟨?_, by simp, by simp⟩, size, Nat.zero_le _, by simp⟩
  rw [first]
  exact .stop ends_zero

end Files

section Reading

variable {inode after middle : Inode} {chain : List Nat} {cluster filesize rounds j : Nat}
  {buffer : Memory}

/-- The layout of a volume with a root directory of fixed size. -/
structure Layout.Fixed (layout : Layout) : Prop extends Layout.Regular layout where
  positive : 0 < layout.bpc
  bits : layout.bits = 12 ∨ layout.bits = 16

/-- The inode of a file on a device that does not fail. -/
structure Inode.Works (inode : Inode) : Prop where
  table : inode.table.Works
  reads : inode.reads = Stream'.const none
  writes : inode.writes = Stream'.const none
  entries : inode.entries = Stream'.const none
  layout : inode.layout.Fixed

/-- What a read leaves. -/
structure Looked (before after : Inode) : Prop extends Rests before after where
  works : after.Works
  mem : before.mem.Succeeds → after.mem.Succeeds

theorem Looked.refl (works : inode.Works) : Looked inode inode := ⟨.refl _, works, id⟩

theorem Looked.trans (first : Looked inode middle) (second : Looked middle after) :
    Looked inode after :=
  ⟨first.toRests.trans second.toRests, second.works, second.mem ∘ first.mem⟩

/-- The state behind a round of the reading. -/
def Inode.round (inode : Inode) : Inode :=
  { inode with table := inode.table.loaded, mem := inode.mem.tail, reads := inode.reads.tail }

theorem Inode.Works.round (works : inode.Works) : Looked inode inode.round := by
  obtain ⟨table, reads, writes, entries, fixed⟩ := works
  have layout : inode.round.layout = inode.layout := loaded_layout
  refine ⟨⟨loaded_view, layout, rfl, rfl, rfl, rfl⟩, ⟨table.loaded, ?_, writes, entries, ?_⟩,
    fun succeeds => succeeds.tail⟩
  · show inode.reads.tail = _
    rw [reads]
    rfl
  · rwa [layout]

/-- A round copies a cluster and goes to the next one. -/
theorem readLoop_round (works : inode.Works) (goes : ¬inode.layout.Ends cluster)
    (more : ¬filesize ≤ j) (allocated : inode.mem.head = true) :
    readLoop filesize (rounds + 1) j cluster buffer inode =
      readLoop filesize rounds (j + inode.layout.bpc) (nextCluster inode.table cluster)
        (buffer.copyInto j inode.layout.bpc (inode.clusters cluster)) inode.round := by
  have taken : allocate inode = (.ok (), inode.begun) := by
    unfold allocate
    rw [if_pos allocated]
    rfl
  have data : readCluster cluster inode.begun =
      (.ok (inode.clusters cluster), { inode.begun with reads := inode.reads.tail }) := by
    unfold readCluster
    have head : inode.begun.reads.head = none := by
      show inode.reads.head = none
      rw [works.reads]
      rfl
    rw [head]
    rfl
  have entry := tableAt_eq works.table.readable works.layout.holds (cluster_of_not_ends goes).2.2
  rw [readLoop, Op.run_get_bind, if_neg (not_or.mpr ⟨goes, more⟩), Op.run_bind_ok taken,
    Op.run_bind_ok data]
  have linked : onTable (tableAt cluster) { inode.begun with reads := inode.reads.tail } =
      (.ok (extendMark inode.layout.width.limit
        (inode.layout.width.stored inode.table.view cluster)), inode.round) := by
    unfold onTable
    have same : Inode.table { inode.begun with reads := inode.reads.tail } = inode.table := rfl
    rw [same, entry]
    rfl
  rw [Op.run_bind_ok linked]
  rfl

/-- What the reading from an index on has done when it comes to another one. -/
structure Collected (filesize j : Nat) (chain : List Nat) (buffer : Memory) (inode : Inode)
    (e : Nat) (buffer' : Memory) (after : Inode) : Prop where
  looked : Looked inode after
  covered : filesize ≤ e * inode.layout.bpc
  old : ∀ i < j * inode.layout.bpc, buffer' i = buffer i
  new : ∀ k c, j ≤ k → k < e → chain[k]? = some c → ∀ i < inode.layout.bpc,
    buffer' (k * inode.layout.bpc + i) = inode.clusters c i

theorem Collected.goes {e : Nat} {buffer' : Memory} (works : inode.Works)
    (here : chain[j]? = some cluster)
    (rest : Collected filesize (j + 1) chain (buffer.copyInto (j * inode.layout.bpc)
      inode.layout.bpc (inode.clusters cluster)) inode.round e buffer' after) :
    Collected filesize j chain buffer inode e buffer' after := by
  have layout : inode.round.layout = inode.layout := works.round.layout
  obtain ⟨looked, covered, old, new⟩ := rest
  rw [layout] at covered old new
  refine ⟨works.round.trans looked, covered, fun i less => ?_, fun k c low high found i less => ?_⟩
  · rw [old i (less.trans_le (Nat.mul_le_mul_right _ (Nat.le_succ j)))]
    exact Memory.copyInto_outside (Or.inl less)
  · rcases Nat.lt_or_eq_of_le low with later | rfl
    · exact new k c later high found i less
    · cases here.symm.trans found
      have before : j * inode.layout.bpc + i < (j + 1) * inode.layout.bpc := by
        rw [Nat.succ_mul]
        exact Nat.add_lt_add_left less _
      rw [old _ before]
      exact Memory.copyInto_inside less

/-- The reading of a chain ends behind the size of the file, unless memory is short. -/
theorem readLoop_collected (works : inode.Works)
    (strung : Strung inode.layout.Ends (nextCluster inode.table) cluster (chain.drop j))
    (room : filesize ≤ chain.length * inode.layout.bpc)
    (enough : filesize ≤ (j + rounds) * inode.layout.bpc) :
    (∃ after, readLoop filesize rounds (j * inode.layout.bpc) cluster buffer inode =
        (.error .enomem, after) ∧ Looked inode after ∧ after.buffer = inode.buffer ∧
          ¬inode.mem.Succeeds) ∨
      ∃ e buffer' after, readLoop filesize rounds (j * inode.layout.bpc) cluster buffer inode =
          (.ok (e * inode.layout.bpc, buffer'), after) ∧
        Collected filesize j chain buffer inode e buffer' after := by
  induction rounds generalizing j cluster buffer inode with
  | zero =>
      exact .inr ⟨j, buffer, inode, rfl, .refl works, enough, fun _ _ => rfl,
        fun k c low high => absurd high (Nat.not_lt.mpr low)⟩
  | succ rounds inductionHypothesis =>
      by_cases covered : filesize ≤ j * inode.layout.bpc
      · refine .inr ⟨j, buffer, inode, ?_, .refl works, covered, fun _ _ => rfl,
          fun k c low high => absurd high (Nat.not_lt.mpr low)⟩
        rw [readLoop, Op.run_get_bind, if_pos (Or.inr covered)]
        rfl
      generalize dropped : chain.drop j = nodes at strung
      cases strung with
      | stop _ =>
          have length := Nat.mul_le_mul_right inode.layout.bpc (List.drop_eq_nil_iff.mp dropped)
          exact absurd (room.trans length) covered
      | @link _ rest goes strung =>
          cases allocated : inode.mem.head with
          | false =>
              have failed : allocate inode = (.error .enomem, inode.begun) := by
                unfold allocate
                rw [allocated]
                rfl
              obtain ⟨table, reads, writes, entries, layout⟩ := works
              refine .inl ⟨inode.begun, ?_, ⟨⟨rfl, rfl, rfl, rfl, rfl, rfl⟩,
                ⟨table, reads, writes, entries, layout⟩, fun succeeds => succeeds.tail⟩,
                rfl, fun succeeds => absurd (succeeds.head.symm.trans allocated) (by decide)⟩
              rw [readLoop, Op.run_get_bind, if_neg (not_or.mpr ⟨goes, covered⟩),
                Op.run_bind_error failed]
          | true =>
              have tail : chain.drop (j + 1) = rest := by
                rw [← List.tail_drop, dropped, List.tail_cons]
              have here : chain[j]? = some cluster := by
                have first := @List.getElem?_drop Nat chain j 0
                rw [dropped] at first
                exact first.symm
              have layout : inode.round.layout = inode.layout := works.round.layout
              have links : nextCluster inode.round.table = nextCluster inode.table :=
                funext fun _ => (still_loaded inode.table).nextCluster_eq
              have onward := @inductionHypothesis inode.round (nextCluster inode.table cluster)
                (j + 1) (buffer.copyInto (j * inode.layout.bpc) inode.layout.bpc
                  (inode.clusters cluster)) works.round.works
              have shift : j + (rounds + 1) = j + 1 + rounds := by omega
              rw [layout, links, tail] at onward
              rw [shift] at enough
              rw [readLoop_round works goes covered allocated, ← Nat.succ_mul]
              rcases onward strung room enough with ⟨after, failed, looked, buffer, short⟩ |
                ⟨e, buffer', after, read, collected⟩
              · exact .inl ⟨after, failed, works.round.trans looked, buffer, fun succeeds =>
                  short succeeds.tail⟩
              · exact .inr ⟨e, buffer', after, read, collected.goes works here⟩

variable {file : File} {dentry : Dentry}

/-- The inode stands for a file: what it has read of the file is right. -/
structure File.Behind (file : File) (inode : Inode) (dentry : Dentry) (chain : List Nat) :
    Prop where
  entry : inode.dentry = some dentry
  sized : dentry.hasSize = true
  stored : file.Stored inode.table inode.clusters dentry chain
  first : maskEntry inode.firstCluster = maskEntry dentry.firstCluster
  cached : ∀ buffer, inode.buffer = some buffer → file.Shown inode.filesize buffer

theorem File.Behind.looked (behind : file.Behind inode dentry chain) (looked : Looked inode after)
    (cached : ∀ buffer, after.buffer = some buffer → file.Shown after.filesize buffer) :
    file.Behind after dentry chain := by
  obtain ⟨same, sized, stored, first, -⟩ := behind
  have still : Still inode.table after.table := ⟨looked.view, looked.layout⟩
  refine ⟨looked.dentry.trans same, sized, ?_, ?_, cached⟩
  · rw [looked.clusters]
    exact stored.congr still.layout (fun _ _ => still.stored_eq) fun _ _ => rfl
  · rw [looked.firstCluster]
    exact first

/-- Once a file is read, its inode shows it. -/
theorem File.Behind.readall (behind : file.Behind inode dentry chain) (works : inode.Works) :
    (∃ after, fatInodeReadall inode = (.error .enomem, after) ∧ Looked inode after ∧
        file.Behind after dentry chain ∧ ¬inode.mem.Succeeds) ∨
      ∃ after, fatInodeReadall inode = (.ok (), after) ∧ Looked inode after ∧
        file.Behind after dentry chain ∧ file.Shown after.filesize after.cached := by
  have looks := fatInodeReadall_looks inode
  have declared : (inode.dentry.filter (·.hasSize)).map (·.fileSize) = some file.size := by
    rw [behind.entry, Option.filter_some, if_pos behind.sized]
    exact congrArg some behind.stored.size
  unfold fatInodeReadall at looks ⊢
  rw [Op.run_get_bind] at looks ⊢
  cases present : inode.buffer with
  | some buffer =>
      refine .inr ⟨inode, rfl, .refl works, behind, ?_⟩
      rw [Inode.cached, present]
      exact behind.cached buffer present
  | none =>
      rw [present] at looks
      dsimp only at looks ⊢
      rw [declared] at looks ⊢
      by_cases empty : file.size = 0
      · rw [Option.getD_some, if_pos empty] at looks ⊢
        have looked : Looked inode { inode with filesize := 0 } := by
          obtain ⟨table, reads, writes, entries, layout⟩ := works
          exact ⟨looks, ⟨table, reads, writes, entries, layout⟩, id⟩
        have none_promised : file.Shown 0 (Inode.cached { inode with filesize := 0 }) :=
          ⟨empty.symm, fun pos b promised => absurd (file.inside pos b promised) (by omega)⟩
        exact .inr ⟨_, rfl, looked, behind.looked looked fun buffer some =>
          absurd (present.symm.trans some) (by simp), none_promised⟩
      · rw [Option.getD_some, if_neg empty] at looks ⊢
        have chained := behind.stored.chained.strung
        rw [← behind.first] at chained
        have rounds : file.size ≤
            (0 + (file.size + inode.layout.bpc - 1) / inode.layout.bpc) * inode.layout.bpc := by
          have positive := works.layout.positive
          have cut := Nat.lt_div_mul_add (a := file.size + inode.layout.bpc - 1) positive
          rw [Nat.zero_add]
          omega
        have read := @readLoop_collected inode chain (maskEntry inode.firstCluster) file.size _ 0
          (fun _ => 0) works chained behind.stored.room rounds
        rw [Nat.zero_mul] at read
        rcases read with ⟨after, failed, looked, buffer, short⟩ |
          ⟨e, buffer, middle, read, collected⟩
        · rw [Op.run_bind_error failed]
          refine .inl ⟨after, rfl, looked, behind.looked looked fun buffer' some => ?_, short⟩
          rw [buffer, present] at some
          cases some
        · rw [Op.run_bind_ok read] at looks ⊢
          obtain ⟨looked, covered, -, new⟩ := collected
          dsimp only at looks ⊢
          rw [Op.run_modify, if_neg (by omega)] at looks ⊢
          have size : ((some file.size).map (min · (e * inode.layout.bpc))).getD
              (e * inode.layout.bpc) = file.size := Nat.min_eq_left covered
          rw [size] at looks ⊢
          have shown : file.Shown file.size buffer :=
            behind.stored.shown works.layout.positive covered fun k c less here =>
              new k c (Nat.zero_le k) less here
          obtain ⟨-, ⟨table, reads, writes, entries, layout⟩, mem⟩ := looked
          have looked : Looked inode { middle with
              filesize := file.size
              buffer := some buffer } :=
            ⟨looks, ⟨table, reads, writes, entries, layout⟩, mem⟩
          refine .inr ⟨_, rfl, looked, behind.looked looked fun buffer' some => ?_, shown⟩
          cases some
          exact shown

end Reading

end Opal.Fat
