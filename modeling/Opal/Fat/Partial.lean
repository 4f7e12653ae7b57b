import Opal.Fat.Links

/-!
# A write that is cut short

A write that fails behind the first cluster reports the bytes up to the cluster it has come to,
and takes the end of the last whole cluster for the size of the file.  A file that is longer
loses the rest.
-/

namespace Opal.Fat

section Loop

variable {layout : Layout} {newbuf : Memory} {inode after : Inode} {ended : Option Cause}
  {writePos writeEnd rounds byteIndex cluster count first j e : Nat}

/-- What the write of a round does to the clusters. -/
theorem putCluster_clusters {result : Except TransferError Unit}
    (whole : layout.sectorsPerCluster * layout.lsec * diskSectorSize = layout.bpc)
    (put : putCluster layout newbuf writePos byteIndex cluster inode = (result, after)) :
    (∀ c, c ≠ cluster ∨ byteIndex + layout.bpc ≤ writePos → after.clusters c = inode.clusters c) ∧
      (result = .ok () → writePos < byteIndex + layout.bpc → ∀ i < layout.bpc,
        after.clusters cluster i = newbuf (byteIndex + i)) := by
  by_cases inside : byteIndex + layout.bpc > writePos
  · unfold putCluster writeCluster at put
    rw [if_pos inside] at put
    dsimp only at put
    have outside {c : Nat} (apart : c ≠ cluster ∨ byteIndex + layout.bpc ≤ writePos) :
        c ≠ cluster := apart.resolve_right (Nat.not_le.mpr inside)
    split at put
    · cases put
      refine ⟨fun c apart => Function.update_of_ne (outside apart) _ _, fun _ _ i less => ?_⟩
      dsimp only
      rw [Function.update_self, whole]
      have copied := @Memory.copyInto_inside (inode.clusters cluster) (newbuf.region byteIndex) 0
        layout.bpc i less
      rwa [Nat.zero_add] at copied
    · cases put
      exact ⟨fun c apart => Function.update_of_ne (outside apart) _ _, fun done => nomatch done⟩
  · rw [putCluster_of_le (Nat.le_of_not_lt inside)] at put
    cases put
    exact ⟨fun _ _ => rfl, fun _ within => absurd within inside⟩

/-- What the walk from an index has done when it comes to another one. -/
structure Wrote (newbuf : Memory) (writePos writeEnd count first j : Nat) (inode : Inode)
    (e : Nat) (ended : Option Cause) (after : Inode) : Prop where
  le : j ≤ e
  layout : after.layout = inode.layout
  chain : ∀ k, k ≤ j ∨ k < count →
    linkedAt after.table first k = linkedAt inode.table first k
  written : ∀ k, j ≤ k → k < e → writePos < (k + 1) * inode.layout.bpc →
    ∀ i < inode.layout.bpc, after.clusters (linkedAt after.table first k) i =
      newbuf (k * inode.layout.bpc + i)
  kept : ∀ k, k ≤ j ∨ k < count →
    k < j ∨ (k + 1) * inode.layout.bpc ≤ writePos ∨ ended = none ∧ e ≤ k →
      after.clusters (linkedAt after.table first k) = inode.clusters (linkedAt inode.table first k)
  done : ended = none → writeEnd ≤ e * inode.layout.bpc
  short : ended ≠ none → e * inode.layout.bpc < writeEnd

theorem writeLoop_wrote {index : Nat}
    (whole : inode.layout.sectorsPerCluster * inode.layout.lsec * diskSectorSize =
      inode.layout.bpc) (sound : inode.layout.Sound)
    (walked : Walked inode.table count first j)
    (small : (j + rounds) * inode.layout.bpc < 2 ^ 32)
    (here : j * inode.layout.bpc < writeEnd)
    (enough : writeEnd ≤ (j + rounds) * inode.layout.bpc)
    (ran : writeLoop inode.layout newbuf writePos writeEnd rounds (j * inode.layout.bpc)
      (linkedAt inode.table first j) inode = ((index, ended), after)) :
    ∃ e, index = e * inode.layout.bpc ∧
      Wrote newbuf writePos writeEnd count first j inode e ended after := by
  induction rounds generalizing j inode with
  | zero => exact absurd enough (Nat.not_le.mpr here)
  | succ rounds inductionHypothesis =>
      have next : (j * inode.layout.bpc + inode.layout.bpc) % 2 ^ 32 = (j + 1) * inode.layout.bpc :=
        next_index ((Nat.mul_le_mul_right _ (by omega)).trans_lt small)
      -- The clusters that the write of this round leaves.
      have spared {middle : Inode} {result : Except TransferError Unit}
          (put : putCluster inode.layout newbuf writePos (j * inode.layout.bpc)
            (linkedAt inode.table first j) inode = (result, middle)) (k : Nat)
          (met : k ≤ j ∨ k < count)
          (apart : k ≠ j ∨ (k + 1) * inode.layout.bpc ≤ writePos) :
          middle.clusters (linkedAt inode.table first k) =
            inode.clusters (linkedAt inode.table first k) := by
        apply (putCluster_clusters whole put).1
        by_cases same : k = j
        · right
          rw [← Nat.succ_mul, ← same]
          exact apart.resolve_left (not_not_intro same)
        · exact Or.inl (walked.ne same met)
      have round := @writeLoop_round inode.layout newbuf writePos writeEnd rounds
        (j * inode.layout.bpc) (linkedAt inode.table first j) inode
      rw [ran] at round
      generalize outcome : ((index, ended), after) = result at round
      cases round with
      | broken put =>
          cases outcome
          refine ⟨j, rfl, le_rfl, congrArg FatTable.layout (putCluster_sameFile put).2, ?_, ?_, ?_,
            fun none => (nomatch none), fun _ => here⟩
          · intro k _
            rw [(putCluster_sameFile put).2]
          · intro k low high
            omega
          · intro k met why
            rw [(putCluster_sameFile put).2]
            apply spared put k met
            rcases why with less | before | ⟨none, -⟩
            · exact Or.inl less.ne
            · exact Or.inr before
            · cases none
      | done put last =>
          rw [next] at outcome last
          cases outcome
          have table := (putCluster_sameFile put).2
          refine ⟨j + 1, rfl, Nat.le_succ j, congrArg FatTable.layout table, ?_, ?_, ?_,
            fun _ => last, fun some => absurd rfl some⟩
          · intro k _
            rw [table]
          · intro k low high inside i less
            obtain rfl : k = j := by omega
            rw [Nat.succ_mul] at inside
            rw [table]
            exact (putCluster_clusters whole put).2 rfl inside i less
          · intro k met why
            rw [table]
            apply spared put k met
            rcases why with less | before | ⟨-, above⟩
            · exact Or.inl less.ne
            · exact Or.inr before
            · exact Or.inl (by omega)
      | @stopped middle cause table put more failed =>
          rw [next] at outcome more
          cases outcome
          have same := (putCluster_sameFile put).2
          rw [same] at failed
          obtain ⟨layout, links, -⟩ := walked.step sound failed
          refine ⟨j + 1, rfl, Nat.le_succ j, layout, links, ?_, ?_, fun none => (nomatch none),
            fun _ => more⟩
          · intro k low high inside i less
            obtain rfl : k = j := by omega
            rw [Nat.succ_mul] at inside
            have link := links k (Or.inl le_rfl)
            dsimp only
            rw [link]
            exact (putCluster_clusters whole put).2 rfl inside i less
          · intro k met why
            have link := links k met
            dsimp only
            rw [link]
            apply spared put k met
            rcases why with less | before | ⟨none, -⟩
            · exact Or.inl less.ne
            · exact Or.inr before
            · cases none
      | @goes middle c table put more went =>
          rw [next] at outcome more
          have same := (putCluster_sameFile put).2
          rw [same] at went
          obtain ⟨layout, links, leads⟩ := walked.step sound went
          obtain ⟨rfl, walked'⟩ := leads c rfl
          have layout' : Inode.layout { middle with table := table } = inode.layout := layout
          have shift : j + (rounds + 1) = j + 1 + rounds := by omega
          rw [shift] at small enough
          have rest := @inductionHypothesis { middle with table := table } (j + 1)
          rw [layout'] at rest
          obtain ⟨e, rfl, wrote⟩ := rest whole sound walked' small more enough outcome.symm
          obtain ⟨le, layout'', chain, written, kept, done, short⟩ := wrote
          rw [layout'] at layout'' written kept done short
          refine ⟨e, rfl, Nat.le_of_succ_le le, layout'', ?_, ?_, ?_, done, short⟩
          · intro k met
            exact (chain k (by omega)).trans (links k met)
          · intro k low high inside
            rcases Nat.lt_or_eq_of_le low with less | rfl
            · exact written k less high inside
            · intro i less
              have left := kept j (Or.inl (Nat.le_succ j)) (Or.inl (Nat.lt_succ_self j))
              dsimp only at left
              rw [left, links j (Or.inl le_rfl)]
              rw [Nat.succ_mul] at inside
              exact (putCluster_clusters whole put).2 rfl inside i less
          · intro k met why
            have left := kept k (by omega) (by
              rcases why with less | before | above
              · exact Or.inl (Nat.lt_succ_of_lt less)
              · exact Or.inr (Or.inl before)
              · exact Or.inr (Or.inr above))
            dsimp only at left
            rw [left, links k met]
            apply spared put k met
            rcases why with less | before | ⟨-, above⟩
            · exact Or.inl less.ne
            · exact Or.inr before
            · exact Or.inl (by omega)

end Loop

section Files

variable {source newbuf : Memory} {inode file after : Inode} {size n pos : Nat} {append : Bool}

/-- The cluster of a file at an index, by the links. -/
def Inode.cluster (inode : Inode) (k : Nat) : Nat :=
  linkedAt inode.table (maskEntry inode.firstCluster) k

/-- What the device holds of a file. -/
def Inode.diskByte (inode : Inode) (i : Nat) : UInt8 :=
  inode.clusters (inode.cluster (i / inode.layout.bpc)) (i % inode.layout.bpc)

/-- A file as the driver keeps it: its chain has a cluster for every byte and none of them
twice, and the buffer holds what the device does. -/
structure Inode.Intact (inode : Inode) : Prop where
  covers : ∀ k, k * inode.layout.bpc < inode.filesize →
    ¬inode.layout.Ends (chainAt inode.table (maskEntry inode.firstCluster) k)
  simple : ∀ a b, a < b →
    (∀ i ≤ b, ¬inode.layout.Ends (chainAt inode.table (maskEntry inode.firstCluster) i)) →
      chainAt inode.table (maskEntry inode.firstCluster) a ≠
        chainAt inode.table (maskEntry inode.firstCluster) b
  cached : ∀ i < inode.filesize, inode.cached i = inode.diskByte i

/-- A write of so many bytes has changed these and nothing else, in the buffer and on the
device. -/
structure Kept (file after : Inode) (source : Memory) (pos n : Nat) : Prop where
  filesize : after.filesize = max file.filesize (pos + n)
  cachedNew : ∀ i < n, after.cached (pos + i) = source i
  cachedOld : ∀ i < file.filesize, i < pos ∨ pos + n ≤ i → after.cached i = file.cached i
  diskNew : ∀ i < n, after.diskByte (pos + i) = source i
  diskOld : ∀ i < file.filesize, i < pos ∨ pos + n ≤ i → after.diskByte i = file.diskByte i

/-- Whatever comes of the allocations and transfers, the bytes that are reported are written and
all others are kept. -/
def LosesNothing (source : Memory) (size : Nat) (append : Bool) (file : Inode) : Prop :=
  ∀ outcomes n after, 0 < n →
    fatInodeWrite source size append (file.withOutcomes outcomes) = some (.ok n, after) →
      Kept file after source (file.writePos append) n

/-- The end of the cluster at the position. -/
def Inode.firstEnd (append : Bool) (inode : Inode) : Nat :=
  (inode.writePos append / inode.layout.bpc + 1) * inode.layout.bpc

/-- The file or the write ends in the cluster at the position, or there is no entry in a
directory, so that a write that is cut short is reported as a failure. -/
def Inode.EndsEarly (size : Nat) (append : Bool) (inode : Inode) : Prop :=
  inode.dentry = none ∨ inode.filesize ≤ inode.firstEnd append ∨
    inode.writePos append + size ≤ inode.firstEnd append

theorem Inode.Intact.withOutcomes (intact : file.Intact) (outcomes : Outcomes) :
    (file.withOutcomes outcomes).Intact := by
  obtain ⟨covers, simple, cached⟩ := intact
  exact ⟨covers, simple, cached⟩

theorem lt_ceil_iff {k size bpc : Nat} (positive : 0 < bpc) :
    k < (size + bpc - 1) / bpc ↔ k * bpc < size := by
  rw [← Nat.succ_le_iff, Nat.le_div_iff_mul_le positive, Nat.succ_mul]
  omega

/-- What a write that succeeds leaves of the state that the walk has come to. -/
structure Committed (newbuf : Memory) (c size fsz : Nat) (ended : Option Cause)
    (walked after : Inode) (n : Nat) : Prop where
  size : n = size
  filesize : after.filesize = fsz
  cached : after.cached = newbuf
  firstCluster : after.firstCluster = c
  table : after.table = walked.table
  clusters : after.clusters = walked.clusters
  whole : ended ≠ none → walked.dentry ≠ none

theorem updateDentry_rests {layout : Layout} {c fsz : Nat} {ended : Option Cause}
    {walked : Inode} {result : Except Fault Unit}
    (ran : updateDentry layout c fsz ended walked = (result, after)) :
    after.table = walked.table ∧ after.clusters = walked.clusters ∧
      (result = .ok () → ended ≠ none → walked.dentry ≠ none) := by
  unfold updateDentry at ran
  split at ran
  · split at ran
    · cases ran
      exact ⟨rfl, rfl, fun _ some => absurd rfl some⟩
    · cases ran
      exact ⟨rfl, rfl, fun done => nomatch done⟩
  · rename_i dentry present
    have some : result = .ok () → ended ≠ none → walked.dentry ≠ none := by
      rw [present]
      exact fun _ _ => nofun
    dsimp only at ran
    split at ran
    · unfold writeDentry at ran
      dsimp only at ran
      split at ran <;> cases ran <;> exact ⟨rfl, rfl, some⟩
    · cases ran
      exact ⟨rfl, rfl, some⟩

theorem commit_committed {layout : Layout} {c size fsz writeEnd : Nat} {ended : Option Cause}
    {walked : Inode}
    (ran : commit layout newbuf c size fsz writeEnd ended walked = (.ok n, after)) :
    Committed newbuf c size fsz ended walked after n := by
  unfold commit at ran
  cases updated : updateDentry layout c fsz ended walked with
  | mk result middle =>
      obtain ⟨table, clusters, whole⟩ := updateDentry_rests updated
      rw [updated] at ran
      cases result with
      | ok done =>
          cases ran
          exact ⟨rfl, rfl, rfl, rfl, table, clusters, whole rfl⟩
      | error fault => cases ran

/-- A byte of the buffer that is written. -/
theorem newBuffer_old {i : Nat} (old : i < file.filesize) (outside : i < pos ∨ pos + size ≤ i) :
    newBuffer file pos source size i = file.cached i := by
  unfold newBuffer
  rw [Memory.copyInto_outside outside]
  have copied := @Memory.copyInto_inside (fun _ => 0) file.cached 0 file.filesize i old
  rwa [Nat.zero_add] at copied

theorem newBuffer_new {i : Nat} (new : i < size) :
    newBuffer file pos source size (pos + i) = source i :=
  Memory.copyInto_inside new

/-- How the walk of a write that succeeds has ended. -/
theorem finish_committed {layout : Layout} {c fsz index : Nat} {ended : Option Cause}
    {walked : Inode}
    (ran : finish layout newbuf c pos size fsz ((index, ended), walked) = (.ok n, after)) :
    (ended = none ∧ Committed newbuf c size fsz ended walked after n) ∨
      ended ≠ none ∧ pos < index ∧
        Committed newbuf c (index - pos) index ended walked after n := by
  cases ended with
  | none => exact Or.inl ⟨rfl, commit_committed ran⟩
  | some cause =>
      rw [finish] at ran
      split at ran
      · cases ran
      · rename_i beyond
        exact Or.inr ⟨nofun, Nat.lt_of_not_le beyond, commit_committed ran⟩

/-- The walk of a write that succeeds. -/
theorem walk_wrote (positive : 0 < file.layout.bpc)
    (whole : file.layout.sectorsPerCluster * file.layout.lsec * diskSectorSize = file.layout.bpc)
    (sound : file.layout.Sound) (intact : file.Intact) (begins : file.Begins size append)
    (ran : file.walk source size append = (.ok n, after)) :
    ∃ c table walked e ended,
      table.layout = file.layout ∧ maskEntry c = c ∧
      (∀ k, k * file.layout.bpc < file.filesize → linkedAt table c k = file.cluster k) ∧
      Wrote (newBuffer file (file.writePos append) source size) (file.writePos append)
        (file.writePos append + size) ((file.filesize + file.layout.bpc - 1) / file.layout.bpc) c 0
        { file.begun with table := table } e ended walked ∧
      SameFile file walked ∧
      ((ended = none ∧ Committed (newBuffer file (file.writePos append) source size) c size
          (max file.filesize (file.writePos append + size)) ended walked after n) ∨
        ended ≠ none ∧ file.writePos append < e * file.layout.bpc ∧
          Committed (newBuffer file (file.writePos append) source size) c
            (e * file.layout.bpc - file.writePos append) (e * file.layout.bpc) ended walked after
            n) := by
  unfold Inode.walk at ran
  have some_bytes := begins.some_bytes
  have room := @Inode.le_newlen file size append positive
  have small := begins.rounds_le
  cases found : firstOf (maskEntry file.firstCluster) file.table with
  | mk result table =>
      have found' : firstOf (maskEntry file.begun.firstCluster) file.begun.table =
        (result, table) := found
      cases result with
      | error cause =>
          rw [writeClusters_of_error found'] at ran
          cases ran
      | ok c =>
          rw [writeClusters_of_ok found'] at ran
          obtain ⟨layout, masked, walked, links⟩ := @firstOf_walked file.table table
            ((file.filesize + file.layout.bpc - 1) / file.layout.bpc)
            (maskEntry file.firstCluster) c sound (Nat.mod_mod _ _)
            (fun k inside => intact.covers k ((lt_ceil_iff positive).mp inside)) intact.simple found
          have layout' : table.layout = file.layout := layout
          rw [layout'] at ran
          cases looped : writeLoop file.layout
              (newBuffer file (file.writePos append) source size) (file.writePos append)
              (file.writePos append + size) (file.newlen size append / file.layout.bpc) 0 c
              { file.begun with table := table } with
          | mk reached middle =>
              obtain ⟨index, ended⟩ := reached
              have wrote := @writeLoop_wrote (newBuffer file (file.writePos append) source size)
                { file.begun with table := table } middle ended (file.writePos append)
                (file.writePos append + size) (file.newlen size append / file.layout.bpc)
                ((file.filesize + file.layout.bpc - 1) / file.layout.bpc) c 0 index
              have layout'' : Inode.layout { file.begun with table := table } =
                file.layout := layout
              rw [layout'', Nat.zero_mul] at wrote
              obtain ⟨e, rfl, stops⟩ := wrote whole sound walked small (by omega)
                (by rw [Nat.zero_add]; omega) looped
              obtain ⟨dentry, firstCluster, filesize, buffer, entries⟩ := writeLoop_sameFile looped
              have ran' := (congrArg (finish file.layout
                (newBuffer file (file.writePos append) source size) c (file.writePos append) size
                (max file.filesize (file.writePos append + size))) looped).symm.trans ran
              exact ⟨c, table, middle, e, ended, layout', masked,
                fun k inside => links k ((lt_ceil_iff positive).mpr inside), stops,
                ⟨dentry, firstCluster, filesize, buffer, entries⟩, finish_committed ran'⟩

/-- A byte on the device behind a walk, by the index of its cluster. -/
theorem byte_of_index {bpc i : Nat} (positive : 0 < bpc) :
    i / bpc * bpc ≤ i ∧ i < (i / bpc + 1) * bpc ∧ i / bpc * bpc + i % bpc = i ∧ i % bpc < bpc := by
  have parts := Nat.div_add_mod' i bpc
  have rest := Nat.mod_lt i positive
  rw [Nat.succ_mul]
  omega

/-- A write loses nothing if the file or the write ends in the cluster at the position. -/
theorem Inode.Intact.kept (positive : 0 < file.layout.bpc)
    (whole : file.layout.sectorsPerCluster * file.layout.lsec * diskSectorSize = file.layout.bpc)
    (sound : file.layout.Sound) (intact : file.Intact) (begins : file.Begins size append)
    (early : file.EndsEarly size append) (ran : file.walk source size append = (.ok n, after)) :
    Kept file after source (file.writePos append) n := by
  obtain ⟨c, table, walked, e, ended, layout, masked, links, wrote, same, committed⟩ :=
    walk_wrote positive whole sound intact begins ran
  obtain ⟨-, layout', chain, written, kept, done, short⟩ := wrote
  have here : Inode.layout { file.begun with table := table } = file.layout := layout
  rw [here] at layout' written kept done short
  unfold Inode.EndsEarly Inode.firstEnd at early
  generalize file.writePos append = pos at *
  -- What has ended the walk decides over the size and the bytes.
  obtain ⟨fsz, count, committed', filesize, within, covered, beyond⟩ : ∃ fsz count,
      Committed (newBuffer file pos source size) c count fsz ended walked after n ∧
      fsz = max file.filesize (pos + n) ∧ n ≤ size ∧ pos + n ≤ e * file.layout.bpc ∧
      ((n = size ∧ ended = none) ∨ file.filesize ≤ e * file.layout.bpc ∧
        pos + n = e * file.layout.bpc) := by
    rcases committed with ⟨none, committed⟩ | ⟨some, ahead, committed⟩
    · obtain rfl := committed.size
      exact ⟨_, _, committed, rfl, le_rfl, done none, Or.inl ⟨rfl, none⟩⟩
    · have last := short some
      have present := committed.whole some
      rw [same.dentry] at present
      have index : pos / file.layout.bpc < e := (Nat.div_lt_iff_lt_mul positive).mpr ahead
      have first : (pos / file.layout.bpc + 1) * file.layout.bpc ≤ e * file.layout.bpc :=
        Nat.mul_le_mul_right _ index
      have ends := early.resolve_left present
      have old : file.filesize ≤ e * file.layout.bpc := by omega
      obtain rfl := committed.size
      exact ⟨_, _, committed, by omega, by omega, by omega, Or.inr ⟨old, by omega⟩⟩
  have cached := committed'.cached
  have cluster (k : Nat) : after.cluster k = linkedAt walked.table c k := by
    unfold Inode.cluster
    rw [committed'.firstCluster, masked, committed'.table]
  have bpc : after.layout.bpc = file.layout.bpc := by
    unfold Inode.layout at layout' ⊢
    rw [committed'.table, layout']
  have new (i : Nat) (low : pos < (i / file.layout.bpc + 1) * file.layout.bpc)
      (high : i < e * file.layout.bpc) :
      after.diskByte i = newBuffer file pos source size i := by
    obtain ⟨-, -, parts, rest⟩ := @byte_of_index file.layout.bpc i positive
    unfold Inode.diskByte
    rw [bpc, cluster, committed'.clusters, written (i / file.layout.bpc) (Nat.zero_le _)
      ((Nat.div_lt_iff_lt_mul positive).mpr high) low _ rest, parts]
  have old (i : Nat) (inside : i < file.filesize)
      (left : (i / file.layout.bpc + 1) * file.layout.bpc ≤ pos ∨
        ended = none ∧ e * file.layout.bpc ≤ i) : after.diskByte i = file.diskByte i := by
    have start := (@byte_of_index file.layout.bpc i positive).1
    have index := links (i / file.layout.bpc) (start.trans_lt inside)
    have met : i / file.layout.bpc < (file.filesize + file.layout.bpc - 1) / file.layout.bpc :=
      (lt_ceil_iff positive).mpr (start.trans_lt inside)
    unfold Inode.diskByte
    rw [bpc, cluster, committed'.clusters, kept (i / file.layout.bpc) (Or.inr met) (by
      rcases left with before | ⟨none, behind⟩
      · exact Or.inr (Or.inl before)
      · exact Or.inr (Or.inr ⟨none, (Nat.le_div_iff_mul_le positive).mpr behind⟩))]
    dsimp only
    rw [index]
    rfl
  constructor
  · exact committed'.filesize.trans filesize
  · intro i less
    rw [cached]
    exact newBuffer_new (less.trans_le within)
  · intro i inside outside
    rw [cached]
    apply newBuffer_old inside
    omega
  · intro i less
    have place := (@byte_of_index file.layout.bpc (pos + i) positive).2.1
    rw [new (pos + i) (by omega) (by omega)]
    exact newBuffer_new (less.trans_le within)
  · intro i inside outside
    have place := @byte_of_index file.layout.bpc i positive
    by_cases before : (i / file.layout.bpc + 1) * file.layout.bpc ≤ pos
    · exact old i inside (Or.inl before)
    · by_cases reached : i < e * file.layout.bpc
      · rw [new i (Nat.lt_of_not_le before) reached, newBuffer_old inside (by omega)]
        exact intact.cached i inside
      · refine old i inside (Or.inr ⟨?_, Nat.le_of_not_lt reached⟩)
        rcases beyond with ⟨-, none⟩ | ⟨covered, -⟩
        · exact none
        · omega

end Files

section Cutting

variable {source newbuf : Memory} {fat : FatTable} {inode file after : Inode} {append : Bool}
  {writePos writeEnd rounds size first k j : Nat} {error : TransferError}

theorem putCluster_succeeds {layout : Layout} {byteIndex cluster : Nat}
    (works : inode.writes.head = none) : ∃ after,
      putCluster layout newbuf writePos byteIndex cluster inode = (.ok (), after) ∧
        (byteIndex + layout.bpc > writePos → after.writes = inode.writes.tail) := by
  unfold putCluster writeCluster
  split
  · rw [works]
    exact ⟨_, rfl, fun _ => rfl⟩
  · rename_i before
    exact ⟨inode, rfl, fun inside => absurd inside before⟩

/-- The walk along a chain that goes on, when the second cluster cannot be written. -/
theorem writeLoop_cut (holds : fat.layout.Holds)
    (goes : ∀ i ≤ k + 1, ¬fat.layout.Ends (chainAt fat first i)) (below : j ≤ k)
    (still : Still fat inode.table) (readable : inode.table.Readable)
    (works : inode.writes.head = none)
    (broken : inode.writes.tail.head = some (0, error))
    (here : k * fat.layout.bpc ≤ writePos) (inside : writePos < (k + 1) * fat.layout.bpc)
    (more : (k + 1) * fat.layout.bpc < writeEnd)
    (small : (j + rounds) * fat.layout.bpc < 2 ^ 32) (enough : k + 1 < j + rounds) :
    ∃ after, writeLoop fat.layout newbuf writePos writeEnd rounds (j * fat.layout.bpc)
      (chainAt fat first j) inode =
        (((k + 1) * fat.layout.bpc, some (.transfer error)), after) := by
  have step {table : FatTable} {j : Nat} (below : j ≤ k) (still : Still fat table)
      (readable : table.Readable) :
      stepCluster (chainAt fat first j) table =
        (.ok (chainAt fat first (j + 1)), table.loaded) := by
    have entry : chainAt fat first j < table.layout.clusterCount + 2 := by
      rw [still.layout]
      exact (cluster_of_not_ends (goes j (by omega))).2.2
    have next : nextCluster table (chainAt fat first j) = chainAt fat first (j + 1) := by
      rw [still.nextCluster_eq, chainAt_succ]
    rw [stepCluster_of_readable readable (by rwa [still.layout]) entry, next, still.layout,
      if_neg (goes (j + 1) (by omega))]
  induction rounds generalizing j inode with
  | zero => omega
  | succ rounds inductionHypothesis =>
      have next : (j * fat.layout.bpc + fat.layout.bpc) % 2 ^ 32 = (j + 1) * fat.layout.bpc :=
        next_index ((Nat.mul_le_mul_right _ (by omega)).trans_lt small)
      have onward : (j + 1) * fat.layout.bpc < writeEnd :=
        (Nat.mul_le_mul_right _ (Nat.succ_le_succ below)).trans_lt more
      have shift : j + (rounds + 1) = j + 1 + rounds := by omega
      rw [shift] at small enough
      obtain ⟨middle, put, used⟩ := @putCluster_succeeds newbuf inode writePos fat.layout
        (j * fat.layout.bpc) (chainAt fat first j) works
      have table := (putCluster_sameFile put).2
      rw [writeLoop, put]
      dsimp only
      rw [next, if_neg (Nat.not_le.mpr onward), table, step below still readable]
      dsimp only
      rcases Nat.lt_or_eq_of_le below with less | rfl
      · have before : j * fat.layout.bpc + fat.layout.bpc ≤ writePos := by
          rw [← Nat.succ_mul]
          exact (Nat.mul_le_mul_right _ less).trans here
        rw [putCluster_of_le before] at put
        cases put
        exact inductionHypothesis less (still.trans (still_loaded _)) loaded_readable works broken
          small enough
      · obtain ⟨rounds, rfl⟩ : ∃ more, rounds = more + 1 := ⟨rounds - 1, by omega⟩
        rw [← Nat.succ_mul] at used
        have ended : middle.writes.head = some (0, error) := by
          rw [used inside]
          exact broken
        obtain ⟨after, failed⟩ := @putCluster_breaks fat.layout newbuf writePos
          ((j + 1) * fat.layout.bpc) (chainAt fat first (j + 1))
          { middle with table := inode.table.loaded } 0 error ended (by omega)
        rw [writeLoop, failed]
        exact ⟨after, rfl⟩

theorem updateDentry_succeeds {layout : Layout} {c fsz : Nat} {ended : Option Cause}
    (present : inode.dentry ≠ none) (works : inode.entries.head = none) :
    (updateDentry layout c fsz ended inode).1 = .ok () := by
  unfold updateDentry
  split
  · rename_i absent
    exact absurd absent present
  · dsimp only
    split
    · unfold writeDentry
      rw [works]
    · rfl

/-- The outcomes of a device that fails at the second write of a cluster. -/
def Outcomes.cut : Outcomes where
  mem := AllocOracle.always
  reads := Stream'.const none
  writes := Stream'.cons none (Stream'.const (some (0, .eio)))
  entries := Stream'.const none
  tableMem := AllocOracle.always
  tableReads := Stream'.const none
  tableWrites := Stream'.const none

/-- A write that is cut short behind the first cluster shortens a longer file. -/
theorem fatInodeWrite_shortens (positive : 0 < file.layout.bpc) (holds : file.layout.Holds)
    (settled : file.Settled) (intact : file.Intact) (begins : file.Begins size append)
    (present : file.dentry ≠ none) (old : file.firstEnd append < file.filesize)
    (more : file.firstEnd append < file.writePos append + size) :
    ∃ after, fatInodeWrite source size append (file.withOutcomes .cut) =
        some (.ok (file.firstEnd append - file.writePos append), after) ∧
      after.filesize = file.firstEnd append ∧ file.writePos append < file.firstEnd append := by
  have begins' : (file.withOutcomes .cut).Begins size append :=
    ⟨begins.pos, begins.fits, begins.some_bytes, begins.buffer⟩
  obtain ⟨here, inside, -, -⟩ := @byte_of_index file.layout.bpc (file.writePos append) positive
  have room := @Inode.le_newlen file size append positive
  have goes : ∀ i ≤ file.writePos append / file.layout.bpc + 1,
      ¬file.layout.Ends (chainAt file.table (maskEntry file.firstCluster) i) := by
    intro i below
    exact intact.covers i ((Nat.mul_le_mul_right _ below).trans_lt old)
  have enough : file.writePos append / file.layout.bpc + 1 <
      0 + file.newlen size append / file.layout.bpc := by
    rw [Nat.zero_add]
    apply Nat.lt_of_mul_lt_mul_right (a := file.layout.bpc)
    exact more.trans_le ((le_max_right _ _).trans room)
  have found : firstOf (maskEntry (file.withOutcomes .cut).begun.firstCluster)
      (file.withOutcomes .cut).begun.table =
        (.ok (maskEntry file.firstCluster), (file.withOutcomes .cut).table) :=
    if_neg (goes 0 (Nat.zero_le _))
  obtain ⟨middle, looped⟩ := @writeLoop_cut
    (newBuffer (file.withOutcomes .cut) (file.writePos append) source size) file.table
    { (file.withOutcomes .cut).begun with table := (file.withOutcomes .cut).table }
    (file.writePos append) (file.writePos append + size)
    (file.newlen size append / file.layout.bpc) (maskEntry file.firstCluster)
    (file.writePos append / file.layout.bpc) 0 .eio holds goes (Nat.zero_le _) ⟨rfl, rfl⟩
    (fun _ => ⟨rfl, rfl⟩) rfl rfl here inside more begins.rounds_le enough
  rw [Nat.zero_mul] at looped
  have same := writeLoop_sameFile looped
  refine ⟨{ (updateDentry file.layout (maskEntry file.firstCluster) (file.firstEnd append)
      (some (.transfer .eio)) middle).2 with
    firstCluster := maskEntry file.firstCluster
    filesize := file.firstEnd append
    buffer := some (newBuffer (file.withOutcomes .cut) (file.writePos append) source size)
    pos := file.firstEnd append }, ?_, rfl, inside⟩
  have result : (updateDentry file.layout (maskEntry file.firstCluster) (file.firstEnd append)
      (some (.transfer .eio)) middle).1 = .ok () := by
    apply updateDentry_succeeds
    · rw [same.dentry]
      exact present
    · rw [same.entries]
      rfl
  rw [fatInodeWrite_of_begins (settled.withOutcomes .cut) begins' rfl]
  unfold Inode.walk
  rw [writeClusters_of_ok found]
  have stops : _ = ((file.firstEnd append, some (Cause.transfer .eio)), middle) := looped
  refine congrArg some (((congrArg (finish file.layout _ (maskEntry file.firstCluster)
    (file.writePos append) size _) stops).trans (if_neg (Nat.not_le.mpr inside))).trans ?_)
  rw [commit]
  dsimp only
  rw [result]
  rfl

end Cutting

section Claims

variable {source : Memory} {inode file : Inode} {size : Nat} {append : Bool}

/-- A write loses nothing, whatever comes of the allocations and transfers, exactly if the file
or the write ends in the cluster at the position. -/
theorem fatInodeWrite_losesNothing_iff {bdevSectors : Nat} {bpb : Bpb}
    (parsed : parseBpb bdevSectors bpb = some inode.layout) (sound : inode.layout.Sound)
    (read : fatInodeReadall inode = (.ok (), file)) (intact : file.Intact) :
    fatInodeWrite source size append inode = fatInodeWrite source size append file ∧
      (LosesNothing source size append file ↔
        (file.Begins size append → file.EndsEarly size append)) := by
  have placed := parseBpb_placed parsed
  have looks := fatInodeReadall_looks inode
  rw [read] at looks
  have settled := settled_of_fatInodeReadall (bpc_pos placed) read
  have positive : 0 < file.layout.bpc := by
    rw [looks.layout]
    exact bpc_pos placed
  have whole : file.layout.sectorsPerCluster * file.layout.lsec * diskSectorSize =
      file.layout.bpc := by
    rw [looks.layout, Layout.bpc, placed.bps, Nat.mul_comm, ← Nat.mul_assoc,
      Nat.mul_right_comm]
  rw [← looks.layout] at sound
  refine ⟨fatInodeWrite_of_fatInodeReadall (bpc_pos placed) read, fun keeps begins => ?_,
    fun early outcomes n after some ran => ?_⟩
  · by_contra late
    obtain ⟨present, longer⟩ := not_or.mp late
    obtain ⟨old, more⟩ := not_or.mp longer
    obtain ⟨after, ran, filesize, inside⟩ := @fatInodeWrite_shortens source file append size
      positive sound.holds settled intact begins present (Nat.lt_of_not_le old)
      (Nat.lt_of_not_le more)
    have kept := (keeps .cut _ after (Nat.sub_pos_of_lt inside) ran).filesize
    omega
  · rcases fatInodeWrite_cases (settled.withOutcomes outcomes) ran with
      ⟨fault, failed⟩ | nothing | ⟨begins, walked⟩
    · cases failed
    · cases nothing
      exact absurd some (Nat.lt_irrefl 0)
    · have begins' : file.Begins size append :=
        ⟨begins.pos, begins.fits, begins.some_bytes, begins.buffer⟩
      have kept := @Inode.Intact.kept source (file.withOutcomes outcomes) after size n append
        positive whole sound (intact.withOutcomes outcomes) begins (early begins') walked
      exact ⟨kept.filesize, kept.cachedNew, kept.cachedOld, kept.diskNew, kept.diskOld⟩

/-- Two clusters grow by two: a write that is cut short behind the second cluster leaves the
file as long as the bytes that it reports. -/
theorem fatInodeWrite_losesNothing_grown :
    (fatInodeWrite (fun _ => 1) 700 true
      ((smallFile 2 1000 [0xf8, 0xff, 0xff, 0x03, 0xf0, 0xff]).withOutcomes .cut)).map
        (fun (result, after) => (result, after.filesize)) = some (.ok 24, 1024) ∧
      LosesNothing (fun _ => 1) 700 true
        (smallFile 2 1000 [0xf8, 0xff, 0xff, 0x03, 0xf0, 0xff]) := by
  have parsed : parseBpb 200 (shortTable 200) =
      some (smallFile 2 1000 [0xf8, 0xff, 0xff, 0x03, 0xf0, 0xff]).layout := if_pos (by decide)
  have sound : (smallFile 2 1000 [0xf8, 0xff, 0xff, 0x03, 0xf0, 0xff]).layout.Sound :=
    ⟨by unfold Layout.Holds; decide, by decide⟩
  refine ⟨by decide +kernel, (fatInodeWrite_losesNothing_iff parsed sound rfl
    ⟨?_, ?_, fun _ _ => rfl⟩).2.mpr fun _ => Or.inr (Or.inl (by decide))⟩
  · intro k inside
    have small : k * 512 < 1000 := inside
    have first : k = 0 ∨ k = 1 := by omega
    rcases first with rfl | rfl
    · decide
    · decide
  · intro a b less goes
    have short : b < 2 := by
      by_contra long
      exact absurd (goes 2 (Nat.le_of_not_lt long)) (by decide)
    have pair : a = 0 ∧ b = 1 := by omega
    obtain ⟨rfl, rfl⟩ := pair
    decide

/-- The first of three clusters is written and the second one is not: the file is as long as
the first. -/
theorem fatInodeWrite_losesClusters :
    fatInodeReadall (smallFile 2 1536 [0xf8, 0xff, 0xff, 0x03, 0x40, 0x00, 0xff, 0x0f]) =
        (.ok (), smallFile 2 1536 [0xf8, 0xff, 0xff, 0x03, 0x40, 0x00, 0xff, 0x0f]) ∧
      (fatInodeWrite (fun _ => 1) 1024 false
        ((smallFile 2 1536 [0xf8, 0xff, 0xff, 0x03, 0x40, 0x00, 0xff, 0x0f]).withOutcomes
          .cut)).map (fun (result, after) => (result, after.filesize)) = some (.ok 512, 512) ∧
      ¬LosesNothing (fun _ => 1) 1024 false
        (smallFile 2 1536 [0xf8, 0xff, 0xff, 0x03, 0x40, 0x00, 0xff, 0x0f]) := by
  refine ⟨rfl, rfl, fun keeps => ?_⟩
  have kept := (keeps .cut 512 _ (by decide) rfl).filesize
  exact absurd kept (by decide)

end Claims

end Opal.Fat
