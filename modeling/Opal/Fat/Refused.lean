import Opal.Fat.Rounds

/-!
# A write that is refused

A write that fails before it has accepted a byte has written no entry of the directory and
has not changed the inode.  The clusters that the walk has allocated by then stay allocated:
nothing is left exactly if the walk allocates none.
-/

namespace Opal.Fat

section Conditions

variable {inode file after : Inode}

/-- The walk has ended because a cluster could not be allocated, linked or written. -/
def Cause.ofWriting : Cause → Prop
  | allocation _ => True
  | transfer _ => True
  | link _ => False
  | extension _ => True

/-- Nothing is changed: the entries, the directory and the inode are as before the call, with
the size and the contents that reading the file has given. -/
structure Untouched (inode file after : Inode) : Prop where
  entries : SameEntries inode.table after.table
  dentry : after.dentry = inode.dentry
  firstCluster : after.firstCluster = inode.firstCluster
  filesize : after.filesize = file.filesize
  buffer : after.buffer = file.buffer

/-- Whatever comes of the allocations and transfers, a write that is refused for one of the
causes leaves nothing behind. -/
def LeavesNoTrace (source : Memory) (size : Nat) (append : Bool) (inode file : Inode) : Prop :=
  ∀ outcomes cause after, cause.ofWriting →
    fatInodeWrite source size append (file.withOutcomes outcomes) =
      some (.error (.refused cause), after) → Untouched inode file after

/-- Where the chain ends before it has come to a cluster it cannot be extended: no cluster is
free, or the last link is no end mark. -/
def Stuck (fat : FatTable) (first last : Nat) : Prop :=
  ∀ k ≤ last, (∀ i < k, ¬fat.layout.Ends (chainAt fat first i)) →
    fat.layout.Ends (chainAt fat first k) → fat.Full ∨ 0 < k ∧ chainAt fat first k < 0x0ffffff8

/-- The walk to the position can allocate no cluster. -/
def Inode.Spares (append : Bool) (inode : Inode) : Prop :=
  Stuck inode.table (maskEntry inode.firstCluster) (inode.writePos append / inode.layout.bpc)

end Conditions

section Tables

variable {fat after : FatTable} {cluster : Nat}

theorem tableAlloc_of_full (full : fat.Full) :
    ∃ fault after, tableAlloc fat = (.error fault, after) ∧ Still fat after := by
  have alloc {scan : Memory → Nat → Option Nat} {bound : Nat → Nat}
      {set : Nat → Nat → FatOp Unit} {mark : Nat}
      (nothing : scan fat.view fat.layout.clusterEnd = none) :
      ∃ fault after, tableAllocBy scan bound set mark fat = (.error fault, after) ∧
        Still fat after := by
    unfold tableAllocBy
    by_cases readable : fat.Readable
    · rw [Op.run_bind_ok (fatTableReadall_eq readable), Op.run_get_bind, loaded_layout, nothing]
      exact ⟨.enospc, fat.loaded, rfl, still_loaded fat⟩
    · obtain ⟨fault, after, failed, -⟩ := fatTableReadall_fails readable
      have keeps := fatTableReadall_keeps fat
      rw [failed] at keeps
      exact ⟨fault, after, Op.run_bind_error failed _, keeps⟩
  unfold FatTable.Full at full
  unfold tableAlloc
  rw [Op.run_get_bind]
  cases width : fat.layout.width with
  | fat12 =>
      rw [width] at full
      exact alloc full
  | fat16 =>
      rw [width] at full
      exact alloc full
  | fat32 =>
      rw [width] at full
      exact alloc full

/-- A chain that cannot be extended is left as it is. -/
theorem fatTableAppend_still (stuck : fat.Full ∨ nextCluster fat cluster < 0x0ffffff8) :
    ∃ fault after, fatTableAppend cluster fat = (.error fault, after) ∧ Still fat after := by
  have keeps := tableAt_keeps cluster fat
  cases read : tableAt cluster fat with
  | mk result loaded =>
      rw [read] at keeps
      cases result with
      | error fault =>
          unfold fatTableAppend
          rw [Op.run_bind_error read]
          exact ⟨fault, loaded, rfl, keeps⟩
      | ok entry =>
          obtain ⟨next, rfl⟩ := maskEntry_tableAt read
          by_cases inner : entry % 2 ^ 28 < 0x0ffffff8
          · unfold fatTableAppend
            rw [Op.run_bind_ok read, if_pos inner]
            exact ⟨.einval, fat.loaded, rfl, still_loaded fat⟩
          · rw [← next] at stuck
            have full := stuck.resolve_right inner
            obtain ⟨fault, after, failed, still⟩ :=
              tableAlloc_of_full ((still_loaded fat).full_iff.mpr full)
            rw [fatTableAppend_eq read inner, failed]
            exact ⟨fault, after, rfl, (still_loaded fat).trans still⟩

/-- A step of the walk that cannot extend the chain leaves the entries, and leads to the next
cluster of the chain or nowhere. -/
theorem stepCluster_still (stuck : fat.layout.Ends (nextCluster fat cluster) →
      fat.Full ∨ nextCluster fat cluster < 0x0ffffff8) :
    Still fat (stepCluster cluster fat).2 ∧ ∀ next, (stepCluster cluster fat).1 = .ok next →
      next = nextCluster fat cluster ∧ ¬fat.layout.Ends next := by
  have keeps := tableAt_keeps cluster fat
  unfold stepCluster
  cases read : tableAt cluster fat with
  | mk result loaded =>
      rw [read] at keeps
      cases result with
      | error fault => exact ⟨keeps, fun next stepped => nomatch stepped⟩
      | ok entry =>
          obtain ⟨same, rfl⟩ := maskEntry_tableAt read
          dsimp only
          rw [same, loaded_layout]
          by_cases last : fat.layout.Ends (nextCluster fat cluster)
          · have stuck' : fat.loaded.Full ∨ nextCluster fat.loaded cluster < 0x0ffffff8 := by
              rw [(still_loaded fat).full_iff, (still_loaded fat).nextCluster_eq]
              exact stuck last
            obtain ⟨fault, after, failed, still⟩ := fatTableAppend_still stuck'
            rw [if_pos last, failed]
            exact ⟨(still_loaded fat).trans still, fun next stepped => nomatch stepped⟩
          · rw [if_neg last]
            refine ⟨still_loaded fat, fun next stepped => ?_⟩
            cases stepped
            exact ⟨rfl, last⟩

end Tables

section Walk

variable {source newbuf : Memory} {fat : FatTable} {inode file after : Inode}
  {writePos writeEnd rounds size fsz first j : Nat} {append : Bool} {cause : Cause}

/-- A walk that is refused has extended no chain that it could not extend. -/
theorem writeLoop_still {index : Nat} (positive : 0 < fat.layout.bpc)
    (stuck : Stuck fat first (writePos / fat.layout.bpc))
    (small : (j + rounds) * fat.layout.bpc < 2 ^ 32)
    (reached : ∀ i ≤ j, ¬fat.layout.Ends (chainAt fat first i)) (still : Still fat inode.table)
    (ran : writeLoop fat.layout newbuf writePos writeEnd rounds (j * fat.layout.bpc)
      (chainAt fat first j) inode = ((index, some cause), after))
    (refused : index ≤ writePos) : Still fat after.table := by
  induction rounds generalizing j inode with
  | zero => cases ran
  | succ rounds inductionHypothesis =>
      have next : (j * fat.layout.bpc + fat.layout.bpc) % 2 ^ 32 = (j + 1) * fat.layout.bpc :=
        next_index ((Nat.mul_le_mul_right _ (by omega)).trans_lt small)
      have step (before : (j + 1) * fat.layout.bpc ≤ writePos) :
          Still fat (stepCluster (chainAt fat first j) inode.table).2 ∧
            ∀ next, (stepCluster (chainAt fat first j) inode.table).1 = .ok next →
              next = chainAt fat first (j + 1) ∧ ¬fat.layout.Ends next := by
        have here : nextCluster inode.table (chainAt fat first j) = chainAt fat first (j + 1) := by
          rw [still.nextCluster_eq, chainAt_succ]
        have stepped := @stepCluster_still inode.table (chainAt fat first j)
        rw [here, still.layout, still.full_iff] at stepped
        obtain ⟨view, leads⟩ := stepped fun last =>
          (stuck (j + 1) ((Nat.le_div_iff_mul_le positive).mpr before)
            (fun i less => reached i (Nat.le_of_lt_succ less)) last).imp_right And.right
        exact ⟨still.trans view, leads⟩
      have round := @writeLoop_round fat.layout newbuf writePos writeEnd rounds
        (j * fat.layout.bpc) (chainAt fat first j) inode
      rw [ran] at round
      generalize outcome : ((index, some cause), after) = result at round
      cases round with
      | broken put =>
          cases outcome
          rw [(putCluster_sameFile put).2]
          exact still
      | done put last => cases outcome
      | @stopped middle _ table put more failed =>
          rw [next] at outcome
          cases outcome
          rw [putCluster_of_le (by rwa [← Nat.succ_mul])] at put
          cases put
          have here := (step refused).1
          rwa [failed] at here
      | @goes middle c table put more went =>
          rw [next] at outcome
          have before : (j + 1) * fat.layout.bpc ≤ writePos := by
            obtain ⟨e, less, rfl⟩ := writeLoop_index (by
              rwa [Nat.add_right_comm, Nat.add_assoc]) outcome.symm
            exact (Nat.mul_le_mul_right _ less).trans refused
          rw [putCluster_of_le (by rwa [← Nat.succ_mul])] at put
          cases put
          obtain ⟨here, leads⟩ := step before
          rw [went] at here leads
          obtain ⟨rfl, onward⟩ := leads c rfl
          refine inductionHypothesis (j := j + 1) (by rwa [Nat.add_right_comm, Nat.add_assoc])
            (fun i below => ?_) here outcome.symm
          rcases Nat.lt_succ_iff_lt_or_eq.mp (Nat.lt_succ_of_le below) with less | rfl
          · exact reached i (Nat.le_of_lt_succ less)
          · exact onward

/-- How the write comes to the exit `err`. -/
theorem writeClusters_refused
    (ran : writeClusters newbuf rounds writePos size fsz inode =
      (.error (.refused cause), after)) :
    (∃ table, firstOf (maskEntry inode.firstCluster) inode.table = (.error cause, table) ∧
      after = { inode with table := table }) ∨
    ∃ first table index, firstOf (maskEntry inode.firstCluster) inode.table = (.ok first, table) ∧
      writeLoop table.layout newbuf writePos (writePos + size) rounds 0 first
        { inode with table := table } = ((index, some cause), after) ∧ index ≤ writePos := by
  have accepted {layout : Layout} {first size fsz writeEnd : Nat} {ended : Option Cause}
      {before : Inode} : commit layout newbuf first size fsz writeEnd ended before ≠
        (.error (.refused cause), after) := by
    intro same
    unfold commit at same
    dsimp only at same
    split at same <;> cases same
  cases begun : firstOf (maskEntry inode.firstCluster) inode.table with
  | mk result table =>
      cases result with
      | error fault =>
          rw [writeClusters_of_error begun] at ran
          cases ran
          exact Or.inl ⟨table, rfl, rfl⟩
      | ok first =>
          rw [writeClusters_of_ok begun] at ran
          cases walked : writeLoop table.layout newbuf writePos (writePos + size) rounds 0 first
              { inode with table := table } with
          | mk reached middle =>
              obtain ⟨index, ended⟩ := reached
              rw [walked] at ran
              cases ended with
              | none =>
                  rw [finish] at ran
                  exact absurd ran accepted
              | some ended =>
                  rw [finish] at ran
                  split at ran
                  · rename_i before
                    cases ran
                    exact Or.inr ⟨first, table, index, rfl, walked, before⟩
                  · exact absurd ran accepted

/-- A write that is refused has walked along the clusters. -/
theorem fatInodeWrite_refused (settled : file.Settled)
    (ran : fatInodeWrite source size append file = some (.error (.refused cause), after)) :
    file.Begins size append ∧ file.walk source size append = (.error (.refused cause), after) := by
  rcases fatInodeWrite_cases settled ran with ⟨fault, early⟩ | nothing | walked
  · cases early
  · cases nothing
  · exact walked

end Walk

section Sparing

variable {source : Memory} {inode file after : Inode} {size : Nat} {append : Bool} {cause : Cause}

theorem firstOf_still {fat : FatTable} {first last : Nat} (stuck : Stuck fat first last) :
    Still fat (firstOf first fat).2 ∧ ∀ c, (firstOf first fat).1 = .ok c →
      c = first ∧ ¬fat.layout.Ends first := by
  unfold firstOf
  by_cases last' : fat.layout.Ends first
  · have full : fat.Full := (stuck 0 (Nat.zero_le _) (fun i less => absurd less (Nat.not_lt_zero i))
      last').resolve_right fun inner => absurd inner.1 (Nat.lt_irrefl 0)
    obtain ⟨fault, after, failed, still⟩ := tableAlloc_of_full full
    rw [if_pos last', failed]
    exact ⟨still, fun c found => nomatch found⟩
  · rw [if_neg last']
    exact ⟨.refl fat, fun c found => by cases found; exact ⟨rfl, last'⟩⟩

/-- A write that allocates nothing leaves nothing behind when it is refused. -/
theorem untouched_of_spares (positive : 0 < file.layout.bpc) (settled : file.Settled)
    (spares : file.Spares append)
    (ran : fatInodeWrite source size append file = some (.error (.refused cause), after)) :
    Still file.table after.table ∧ SameFile file after := by
  obtain ⟨begins, walked⟩ := fatInodeWrite_refused settled ran
  obtain ⟨still, leads⟩ := firstOf_still spares
  rcases writeClusters_refused walked with ⟨table, first, rfl⟩ |
    ⟨first, table, index, found, looped, refused⟩
  · have begun : firstOf (maskEntry file.firstCluster) file.table = (.error cause, table) := first
    rw [begun] at still
    exact ⟨still, ⟨rfl, rfl, rfl, rfl, rfl⟩⟩
  · have begun : firstOf (maskEntry file.firstCluster) file.table = (.ok first, table) := found
    rw [begun] at still leads
    obtain ⟨rfl, goes⟩ := leads first rfl
    rw [still.layout] at looped
    refine ⟨?_, ?_⟩
    · refine writeLoop_still (j := 0) positive spares begins.rounds_le (fun i below => ?_) still
        (by rw [Nat.zero_mul]; exact looped) refused
      cases Nat.le_zero.mp below
      exact goes
    · obtain ⟨dentry, firstCluster, filesize, buffer, entries⟩ := writeLoop_sameFile looped
      exact ⟨dentry, firstCluster, filesize, buffer, entries⟩

/-- If the walk to the position can allocate no cluster, a write that is refused leaves nothing
behind. -/
theorem leavesNoTrace_of_spares (positive : 0 < inode.layout.bpc)
    (read : fatInodeReadall inode = (.ok (), file))
    (spares : file.Begins size append → file.Spares append) :
    LeavesNoTrace source size append inode file := by
  intro outcomes cause after _ ran
  have looks := fatInodeReadall_looks inode
  rw [read] at looks
  have settled := (settled_of_fatInodeReadall positive read).withOutcomes outcomes
  have begins : file.Begins size append := by
    obtain ⟨pos, fits, some_bytes, buffer⟩ := (fatInodeWrite_refused settled ran).1
    exact ⟨pos, fits, some_bytes, buffer⟩
  have positive' : 0 < (file.withOutcomes outcomes).layout.bpc := by
    have same : (file.withOutcomes outcomes).layout = inode.layout := looks.layout
    rwa [same]
  have spares' : (file.withOutcomes outcomes).Spares append := spares begins
  obtain ⟨still, same⟩ := untouched_of_spares positive' settled spares' ran
  refine ⟨Still.sameEntries ⟨?_, ?_⟩, ?_, ?_, same.filesize, same.buffer⟩
  · exact still.view.trans looks.view
  · exact still.layout.trans looks.layout
  · exact same.dentry.trans looks.dentry
  · exact same.firstCluster.trans looks.firstCluster

end Sparing

section Tracing

variable {fat middle after : FatTable} {cluster first k j : Nat}

/-- An entry that was free is in use. -/
structure Taken (fat after : FatTable) : Prop where
  layout : after.layout = fat.layout
  entry : ∃ c < fat.layout.clusterCount + 2, fat.stored c = 0 ∧ after.stored c ≠ 0

/-- An entry is not what it was. -/
structure Traced (fat after : FatTable) : Prop where
  layout : after.layout = fat.layout
  entry : ∃ c < fat.layout.clusterCount + 2, after.stored c ≠ fat.stored c

theorem Marks.taken {c : Nat} (marks : Marks fat c after) : Taken fat after :=
  ⟨marks.takes.layout, c, marks.bound, marks.zero, marks.stored_ne_zero⟩

theorem Taken.grows (taken : Taken fat middle) (grows : Grows middle after) : Taken fat after := by
  obtain ⟨layout, c, inside, zero, used⟩ := taken
  exact ⟨grows.layout.trans layout, c, inside, zero, grows.used c (by rwa [layout]) used⟩

theorem Taken.traced (taken : Taken fat after) : Traced fat after := by
  obtain ⟨layout, c, inside, zero, used⟩ := taken
  exact ⟨layout, c, inside, by rwa [zero]⟩

theorem Still.taken (still : Still fat middle) (taken : Taken middle after) : Taken fat after := by
  obtain ⟨layout, c, inside, zero, used⟩ := taken
  exact ⟨layout.trans still.layout, c, by rwa [← still.layout], by rwa [← still.stored_eq], used⟩

theorem Still.traced (still : Still fat middle) (traced : Traced middle after) :
    Traced fat after := by
  obtain ⟨layout, c, inside, differs⟩ := traced
  exact ⟨layout.trans still.layout, c, by rwa [← still.layout], by rwa [← still.stored_eq]⟩

/-- The number of a cluster is not taken for an end mark. -/
theorem link_lt (sound : fat.layout.Sound) {c : Nat} (two : 2 ≤ c)
    (bound : c < fat.layout.clusterCount + 2) :
    maskEntry (extendMark fat.layout.width.limit (c % fat.layout.width.values)) < 0x0ffffff8 := by
  obtain ⟨fits, small⟩ := storable_lt sound.few (Or.inr (Or.inl ⟨two, bound⟩))
  have few := sound.few
  have counted : c < 0x0ffffff8 ∧ (fat.layout.width.limit ≤ c → c % 16 < 8) := by
    cases width : fat.layout.width with
    | fat12 =>
        rw [bits_of_fat12 width] at few
        have count : fat.layout.clusterCount ≤ 4084 := few
        exact ⟨by omega, fun widened => by
          have least : 0xff0 ≤ c := widened
          omega⟩
    | fat16 =>
        have count : fat.layout.clusterCount ≤ 65524 := clusterCount_le_of_fat16 few width
        exact ⟨by omega, fun widened => by
          have least : 0xfff0 ≤ c := widened
          omega⟩
    | fat32 =>
        have count : fat.layout.clusterCount ≤ 0x0ffffff4 := clusterCount_le_of_fat32 few width
        exact ⟨by omega, fun widened => by
          have least : 2 ^ 32 ≤ c := widened
          omega⟩
  rw [Nat.mod_eq_of_lt fits]
  unfold extendMark maskEntry
  split
  · rename_i widened
    have rest := counted.2 widened
    omega
  · omega

/-- A chain whose end can be extended, although the extension may fail half way. -/
theorem fatTableAppend_traced (sound : fat.layout.Sound) (readable : fat.Readable)
    (entry : cluster < fat.layout.clusterCount + 2) (room : ¬fat.Full)
    (last : ¬nextCluster fat cluster < 0x0ffffff8) :
    Traced fat (fatTableAppend cluster fat).2 ∧ ∀ c, (fatTableAppend cluster fat).1 = .ok c →
      Taken fat (fatTableAppend cluster fat).2 ∧ c < fat.layout.clusterCount + 2 ∧
        (fatTableAppend cluster fat).2.Readable := by
  have appends := fatTableAppend_appends sound.holds entry
  generalize (fatTableAppend cluster fat).1 = outcome at appends ⊢
  generalize (fatTableAppend cluster fat).2 = after at appends ⊢
  cases appends with
  | refused still reason => exact absurd (reason readable) (not_or.mpr ⟨room, last⟩)
  | marked marks apart => exact ⟨marks.taken.traced, fun c found => nomatch found⟩
  | @linked c middle _ marks apart link =>
      have taken : Taken fat after := by
        apply marks.taken.grows
        apply link.grows
        intro _
        rw [marks.takes.layout]
        exact marks.value_ne_zero sound
      refine ⟨taken.traced, fun c' found => ?_⟩
      cases found
      exact ⟨taken, marks.bound, link.readable⟩
  | @reset _ c middle linked _ marks apart link free =>
      -- The end of the chain is linked to the cluster that is given back.
      have layout : linked.layout = fat.layout := link.layout.trans marks.takes.layout
      refine ⟨⟨free.layout.trans layout, cluster, entry, fun same => ?_⟩,
        fun c found => nomatch found⟩
      rw [free.others cluster (by rwa [layout]) (Ne.symm apart), link.self,
        marks.takes.layout] at same
      apply last
      unfold nextCluster
      rw [show fat.layout.width.stored fat.view cluster = fat.stored cluster from rfl, ← same]
      exact link_lt sound marks.two marks.bound

/-- The chain ends at an index, and can be extended there. -/
structure EndsAt (fat : FatTable) (first k : Nat) : Prop where
  goes : ∀ i < k, ¬fat.layout.Ends (chainAt fat first i)
  ends : fat.layout.Ends (chainAt fat first k)
  room : ¬fat.Full
  mark : 0 < k → ¬chainAt fat first k < 0x0ffffff8

/-- The walk before and behind the end of the chain. -/
inductive Leads (fat : FatTable) (first k : Nat) : Nat → Nat → FatTable → Prop where
  | along {j : Nat} {table : FatTable} (less : j < k) (still : Still fat table)
      (readable : table.Readable) : Leads fat first k j (chainAt fat first j) table
  | beyond {j cluster : Nat} {table : FatTable} (taken : Taken fat table)
      (readable : table.Readable) (entry : cluster < fat.layout.clusterCount + 2) :
      Leads fat first k j cluster table

theorem Leads.layout {table : FatTable} (leads : Leads fat first k j cluster table) :
    table.layout = fat.layout := by
  cases leads with
  | along less still readable => exact still.layout
  | beyond taken readable entry => exact taken.layout

theorem not_ends_entry {layout : Layout} {c : Nat} (goes : ¬layout.Ends c) :
    c < layout.clusterCount + 2 := (cluster_of_not_ends goes).2.2

/-- A step of the walk leaves a trace, or has yet to come to the end of the chain. -/
theorem Leads.step {table : FatTable} (sound : fat.layout.Sound) (endsAt : EndsAt fat first k)
    (leads : Leads fat first k j cluster table) :
    (∀ cause after, stepCluster cluster table = (.error cause, after) →
      cause.ofWriting ∧ Traced fat after) ∧
    ∀ next after, stepCluster cluster table = (.ok next, after) →
      Leads fat first k (j + 1) next after := by
  cases leads with
  | along less still readable =>
      have entry : chainAt fat first j < table.layout.clusterCount + 2 := by
        rw [still.layout]
        exact not_ends_entry (endsAt.goes j less)
      have here : nextCluster table (chainAt fat first j) = chainAt fat first (j + 1) := by
        rw [still.nextCluster_eq, chainAt_succ]
      have still' : Still fat table.loaded := still.trans (still_loaded table)
      rw [stepCluster_of_readable readable (by rw [still.layout]; exact sound.holds) entry, here,
        still.layout]
      rcases Nat.lt_or_eq_of_le (Nat.succ_le_of_lt less) with less' | rfl
      · rw [if_neg (endsAt.goes (j + 1) less')]
        refine ⟨fun cause after failed => (nomatch failed), fun next after went => ?_⟩
        cases went
        exact .along less' still' loaded_readable
      · rw [if_pos endsAt.ends]
        have traced := @fatTableAppend_traced table.loaded (chainAt fat first j)
          (by rw [still'.layout]; exact sound) loaded_readable
          (by rw [still'.layout, ← still.layout]; exact entry)
          (by rw [still'.full_iff]; exact endsAt.room)
          (by rw [still'.nextCluster_eq, ← chainAt_succ]; exact endsAt.mark (Nat.succ_pos j))
        cases appended : fatTableAppend (chainAt fat first j) table.loaded with
        | mk result after =>
            rw [appended] at traced
            obtain ⟨traced, taken⟩ := traced
            cases result with
            | error fault =>
                refine ⟨fun cause after failed => ?_, fun next after went => nomatch went⟩
                cases failed
                exact ⟨trivial, still'.traced traced⟩
            | ok c =>
                refine ⟨fun cause after failed => (nomatch failed), fun next after went => ?_⟩
                cases went
                obtain ⟨taken, bound, readable⟩ := taken c rfl
                rw [still'.layout] at bound
                exact .beyond (still'.taken taken) readable bound
  | beyond taken readable entry =>
      have sound' : table.layout.Sound := by
        rw [taken.layout]
        exact sound
      have entry' : cluster < table.layout.clusterCount + 2 := by
        rw [taken.layout]
        exact entry
      rw [stepCluster_of_readable readable sound'.holds entry']
      split
      · have appends := @fatTableAppend_appends table.loaded cluster
          (by rw [loaded_layout]; exact sound'.holds) (by rwa [loaded_layout])
        have grows := (still_loaded table).grows.trans
          (appends.grows (by rwa [loaded_layout]))
        cases appended : fatTableAppend cluster table.loaded with
        | mk result after =>
            rw [appended] at appends grows
            have taken' := taken.grows grows
            cases result with
            | error fault =>
                refine ⟨fun cause after failed => ?_, fun next after went => nomatch went⟩
                cases failed
                exact ⟨trivial, taken'.traced⟩
            | ok c =>
                refine ⟨fun cause after failed => (nomatch failed), fun next after went => ?_⟩
                cases went
                cases appends with
                | linked marks apart link =>
                    refine .beyond taken' link.readable ?_
                    have bound := marks.bound
                    rwa [loaded_layout, taken.layout] at bound
      · rename_i onward
        refine ⟨fun cause after failed => (nomatch failed), fun next after went => ?_⟩
        cases went
        refine .beyond (taken.grows (still_loaded table).grows) loaded_readable ?_
        rw [← taken.layout]
        exact not_ends_entry onward

end Tracing

section Breaking

variable {source newbuf : Memory} {fat : FatTable} {inode file after : Inode} {append : Bool}
  {writePos writeEnd rounds size first k j cluster written : Nat} {error : TransferError}

/-- A walk that extends the chain and cannot write the first cluster leaves a trace. -/
theorem writeLoop_traced (sound : fat.layout.Sound) (endsAt : EndsAt fat first k)
    (leads : Leads fat first k j cluster inode.table)
    (broken : inode.writes.head = some (written, error))
    (small : (j + rounds) * fat.layout.bpc < 2 ^ 32) (here : j * fat.layout.bpc ≤ writePos)
    (enough : writePos < (j + rounds) * fat.layout.bpc) (more : writePos < writeEnd)
    (before : k * fat.layout.bpc ≤ writePos) :
    ∃ index cause after, writeLoop fat.layout newbuf writePos writeEnd rounds
      (j * fat.layout.bpc) cluster inode = ((index, some cause), after) ∧ index ≤ writePos ∧
        cause.ofWriting ∧ Traced fat after.table := by
  induction rounds generalizing j cluster inode with
  | zero => exact absurd enough (Nat.not_lt.mpr here)
  | succ rounds inductionHypothesis =>
      rw [writeLoop]
      by_cases inside : j * fat.layout.bpc + fat.layout.bpc > writePos
      · obtain ⟨after, put⟩ := @putCluster_breaks fat.layout newbuf writePos
          (j * fat.layout.bpc) cluster inode written error broken inside
        rw [put]
        refine ⟨j * fat.layout.bpc, .transfer error, after, rfl, here, trivial, ?_⟩
        rw [(putCluster_sameFile put).2]
        cases leads with
        | along less still readable =>
            rw [← Nat.succ_mul] at inside
            exact absurd ((Nat.mul_le_mul_right _ less).trans before) (Nat.not_le.mpr inside)
        | beyond taken readable entry => exact taken.traced
      · have next : (j * fat.layout.bpc + fat.layout.bpc) % 2 ^ 32 = (j + 1) * fat.layout.bpc :=
          next_index ((Nat.mul_le_mul_right _ (by omega)).trans_lt small)
        have onward : (j + 1) * fat.layout.bpc ≤ writePos := by
          rw [Nat.succ_mul]
          exact Nat.le_of_not_lt inside
        have shift : j + (rounds + 1) = j + 1 + rounds := by omega
        rw [shift] at small enough
        rw [putCluster_of_le (Nat.le_of_not_lt inside)]
        dsimp only
        rw [next, if_neg (by omega)]
        obtain ⟨fails, goes⟩ := leads.step sound endsAt
        cases stepped : stepCluster cluster inode.table with
        | mk result table =>
            cases result with
            | error cause =>
                obtain ⟨listed, traced⟩ := fails cause table stepped
                exact ⟨_, cause, _, rfl, onward, listed, traced⟩
            | ok c =>
                exact inductionHypothesis (goes c table stepped) broken small onward enough

theorem stuck_or_endsAt (fat : FatTable) (first last : Nat) :
    Stuck fat first last ∨ ∃ k ≤ last, EndsAt fat first k := by
  by_contra neither
  obtain ⟨loose, never⟩ := not_or.mp neither
  refine loose fun k below goes ends => ?_
  by_contra extends'
  obtain ⟨room, inner⟩ := not_or.mp extends'
  exact never ⟨k, below, goes, ends, room, fun positive less => inner ⟨positive, less⟩⟩

theorem firstOf_leads {table : FatTable} (sound : fat.layout.Sound) (endsAt : EndsAt fat first k)
    (still : Still fat table) (readable : table.Readable) :
    (∀ cause after, firstOf first table = (.error cause, after) →
      cause.ofWriting ∧ Traced fat after) ∧
    ∀ c after, firstOf first table = (.ok c, after) → Leads fat first k 0 c after := by
  unfold firstOf
  rw [still.layout]
  cases k with
  | zero =>
      have ends : isClusterEof fat.layout first = true := endsAt.ends
      have room : ¬table.Full := by
        rw [still.full_iff]
        exact endsAt.room
      rw [if_pos ends]
      have holds : table.layout.Holds := by
        rw [still.layout]
        exact sound.holds
      rcases tableAlloc_cases holds with
        ⟨fault, after, failed, same, full⟩ | ⟨c, after, marks, outcome⟩
      · exact absurd (full readable) room
      · have taken : Taken fat after := still.taken marks.taken
        have bound := marks.bound
        rw [still.layout] at bound
        rcases outcome with allocated | ⟨fault, failed⟩
        · rw [allocated]
          refine ⟨fun cause after failed => (nomatch failed), fun c after went => ?_⟩
          cases went
          exact .beyond taken marks.takes.readable bound
        · rw [failed]
          refine ⟨fun cause after failed => ?_, fun c after went => nomatch went⟩
          cases failed
          exact ⟨trivial, taken.traced⟩
  | succ k =>
      have goes : ¬isClusterEof fat.layout first = true := endsAt.goes 0 (Nat.succ_pos k)
      rw [if_neg goes]
      refine ⟨fun cause after failed => (nomatch failed), fun c after went => ?_⟩
      cases went
      exact .along (Nat.succ_pos k) still readable

/-- The outcomes of a device that reads everything and writes no cluster. -/
def Outcomes.broken : Outcomes where
  mem := AllocOracle.always
  reads := Stream'.const none
  writes := Stream'.const (some (0, .eio))
  entries := Stream'.const none
  tableMem := AllocOracle.always
  tableReads := Stream'.const none
  tableWrites := Stream'.const none

/-- A write that extends the chain before it has come to the position leaves a trace on a
device that writes no cluster. -/
theorem fatInodeWrite_traced (positive : 0 < file.layout.bpc) (settled : file.Settled)
    (sound : file.layout.Sound) (begins : file.Begins size append)
    (endsAt : EndsAt file.table (maskEntry file.firstCluster) k)
    (before : k ≤ file.writePos append / file.layout.bpc) :
    ∃ cause after, fatInodeWrite source size append (file.withOutcomes .broken) =
      some (.error (.refused cause), after) ∧ cause.ofWriting ∧ Traced file.table after.table := by
  have begins' : (file.withOutcomes .broken).Begins size append :=
    ⟨begins.pos, begins.fits, begins.some_bytes, begins.buffer⟩
  have still : Still file.table (file.withOutcomes .broken).table := ⟨rfl, rfl⟩
  obtain ⟨fails, leads⟩ := firstOf_leads sound endsAt still fun _ => ⟨rfl, rfl⟩
  rw [fatInodeWrite_of_begins (settled.withOutcomes .broken) begins' rfl]
  unfold Inode.walk
  cases begun : firstOf (maskEntry file.firstCluster) (file.withOutcomes .broken).table with
  | mk result table =>
      have begun' : firstOf (maskEntry (file.withOutcomes .broken).begun.firstCluster)
          (file.withOutcomes .broken).begun.table = (result, table) := begun
      cases result with
      | error cause =>
          obtain ⟨listed, traced⟩ := fails cause table begun
          rw [writeClusters_of_error begun']
          exact ⟨cause, _, rfl, listed, traced⟩
      | ok c =>
          have enough := @Inode.le_newlen file size append positive
          have some_bytes := begins.some_bytes
          have last : file.writePos append <
              (0 + file.newlen size append / file.layout.bpc) * file.layout.bpc := by
            rw [Nat.zero_add]
            omega
          obtain ⟨index, cause, after, ran, refused, listed, traced⟩ :=
            @writeLoop_traced (newBuffer (file.withOutcomes .broken)
              ((file.withOutcomes .broken).writePos append) source size) file.table
              { (file.withOutcomes .broken).begun with table := table }
              (file.writePos append) (file.writePos append + size)
              (file.newlen size append / file.layout.bpc) (maskEntry file.firstCluster) k 0 c 0
              .eio sound endsAt (leads c table begun) rfl begins.rounds_le
              (by rw [Nat.zero_mul]; exact Nat.zero_le _) last
              (by omega) ((Nat.le_div_iff_mul_le positive).mp before)
          rw [Nat.zero_mul] at ran
          refine ⟨cause, after, congrArg some ?_, listed, traced⟩
          rw [writeClusters_of_ok begun']
          have layout : table.layout = file.table.layout := (leads c table begun).layout
          rw [layout]
          exact (congrArg (finish file.table.layout _ c (file.writePos append) size _) ran).trans
            (if_pos refused)

/-- A write that leaves nothing behind whatever happens can allocate no cluster. -/
theorem spares_of_leavesNoTrace (positive : 0 < inode.layout.bpc) (sound : inode.layout.Sound)
    (read : fatInodeReadall inode = (.ok (), file))
    (clean : LeavesNoTrace source size append inode file) (begins : file.Begins size append) :
    file.Spares append := by
  have looks := fatInodeReadall_looks inode
  rw [read] at looks
  have still : Still inode.table file.table := ⟨looks.view, looks.layout⟩
  refine (stuck_or_endsAt _ _ _).resolve_right ?_
  rintro ⟨k, before, endsAt⟩
  obtain ⟨cause, after, ran, listed, traced⟩ := @fatInodeWrite_traced source file append size k
    (by rwa [looks.layout]) (settled_of_fatInodeReadall positive read) (by rwa [looks.layout])
    begins endsAt before
  obtain ⟨layout, c, inside, differs⟩ := still.traced traced
  have untouched := clean .broken cause after listed ran
  exact differs (untouched.entries.stored_eq sound.holds layout inside)

end Breaking

section Claims

variable {source : Memory} {inode file : Inode} {size : Nat} {append : Bool}

/-- A write that is refused leaves nothing behind, whatever comes of the allocations and
transfers, exactly if the walk to the position can allocate no cluster. -/
theorem fatInodeWrite_leavesNoTrace_iff {bdevSectors : Nat} {bpb : Bpb}
    (parsed : parseBpb bdevSectors bpb = some inode.layout)
    (read : fatInodeReadall inode = (.ok (), file)) :
    fatInodeWrite source size append inode = fatInodeWrite source size append file ∧
      ((file.Begins size append → file.Spares append) →
        LeavesNoTrace source size append inode file) ∧
      (inode.layout.Sound → LeavesNoTrace source size append inode file →
        file.Begins size append → file.Spares append) := by
  have positive := bpc_pos (parseBpb_placed parsed)
  refine ⟨fatInodeWrite_of_fatInodeReadall positive read, ?_, ?_⟩
  · exact leavesNoTrace_of_spares positive read
  · exact fun sound => spares_of_leavesNoTrace positive sound read

/-- The first cluster of a file is written again. -/
theorem fatInodeWrite_leavesNoTrace_one :
    LeavesNoTrace (fun _ => 1) 512 false (smallFile 2 512 [0xf8, 0xff, 0xff, 0xff, 0x0f])
      (smallFile 2 512 [0xf8, 0xff, 0xff, 0xff, 0x0f]) := by
  have parsed : parseBpb 200 (shortTable 200) =
      some (smallFile 2 512 [0xf8, 0xff, 0xff, 0xff, 0x0f]).layout := if_pos (by decide)
  refine (fatInodeWrite_leavesNoTrace_iff parsed rfl).2.1 fun _ k below _ ends => ?_
  cases Nat.le_zero.mp below
  exact absurd ends (by decide)

/-- The first cluster of an empty file cannot be written, and stays allocated. -/
theorem fatInodeWrite_leavesTrace :
    fatInodeReadall (smallFile 0 0 []) = (.ok (), smallFile 0 0 []) ∧
      (fatInodeWrite (fun _ => 1) 1 false ((smallFile 0 0 []).withOutcomes .broken)).map
        Prod.fst = some (.error (.refused (.transfer .eio))) ∧
      ¬LeavesNoTrace (fun _ => 1) 1 false (smallFile 0 0 []) (smallFile 0 0 []) := by
  refine ⟨rfl, rfl, fun clean => ?_⟩
  have untouched := clean .broken (.transfer .eio) _ trivial rfl
  have entry := congrArg Except.toOption (untouched.entries 2)
  exact absurd entry (by decide +kernel)

end Claims

end Opal.Fat
