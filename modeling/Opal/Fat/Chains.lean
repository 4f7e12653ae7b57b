import Opal.Fat.Partial
import Opal.Fat.Working

/-!
# The clusters of a file

The chain of a file is a list of clusters in use.  A write walks along the list and puts new
clusters to its end, and these were free before.  So it changes neither the entries nor the data
of the clusters in use elsewhere.
-/

namespace Opal.Fat

open Library

section Chains

variable {fat after middle : FatTable} {first cluster c j : Nat} {chain chain' : List Nat}

/-- The clusters of a chain in order.  Each is in use, and the last one is marked as such. -/
structure ClusterChain (fat : FatTable) (first : Nat) (chain : List Nat) : Prop where
  strung : Strung fat.layout.Ends (nextCluster fat) first chain
  used : ∀ c ∈ chain, fat.stored c ≠ 0
  closed : ∀ c ∈ chain, fat.layout.Ends (nextCluster fat c) → 0x0ffffff8 ≤ nextCluster fat c

/-- No cluster is mistaken for the end of a chain. -/
structure Layout.Regular (layout : Layout) : Prop extends Layout.Sound layout where
  small : layout.clusterCount + 2 ≤ layout.width.reserved

theorem Layout.Regular.not_ends (regular : fat.layout.Regular) (two : 2 ≤ c)
    (bound : c < fat.layout.clusterCount + 2) : ¬fat.layout.Ends c := by
  have small := regular.small
  have reserved : fat.layout.width.reserved ≤ 0x0ffffff0 := by
    cases fat.layout.width <;> decide
  unfold Layout.Ends isClusterEof
  simp only [decide_eq_true_eq, not_not]
  omega

/-- The number of a cluster is read as it was stored. -/
theorem Layout.Regular.nextCluster_eq (regular : fat.layout.Regular)
    (bound : c < fat.layout.clusterCount + 2) (self : fat.stored cluster = c) :
    nextCluster fat cluster = c := by
  have small := bound.trans_le regular.small
  have limits : fat.layout.width.reserved ≤ fat.layout.width.limit ∧
      fat.layout.width.reserved ≤ 2 ^ 28 := by
    cases fat.layout.width <;> decide
  unfold FatTable.stored at self
  unfold nextCluster extendMark maskEntry
  rw [self, if_neg (by omega), Nat.mod_eq_of_lt (by omega)]

theorem nextCluster_congr (layout : after.layout = fat.layout)
    (same : after.stored c = fat.stored c) : nextCluster after c = nextCluster fat c := by
  unfold FatTable.stored at same
  unfold nextCluster
  rw [same, layout]

theorem nextCluster_of_mark
    (self : fat.stored c = fat.layout.width.mark % fat.layout.width.values) :
    0x0ffffff8 ≤ nextCluster fat c := by
  unfold FatTable.stored at self
  unfold nextCluster
  rw [self]
  cases fat.layout.width <;> decide

theorem ClusterChain.entry (chained : ClusterChain fat first chain) (member : c ∈ chain) :
    c < fat.layout.clusterCount + 2 :=
  (cluster_of_not_ends (chained.strung.goes c member)).2.2

theorem ClusterChain.congr (chained : ClusterChain fat first chain)
    (layout : after.layout = fat.layout) (same : ∀ c ∈ chain, after.stored c = fat.stored c) :
    ClusterChain after first chain := by
  have next : ∀ c ∈ chain, nextCluster after c = nextCluster fat c := fun c member =>
    nextCluster_congr layout (same c member)
  refine ⟨?_, fun c member => ?_, fun c member => ?_⟩
  · rw [layout]
    exact chained.strung.congr next
  · rw [same c member]
    exact chained.used c member
  · rw [layout, next c member]
    exact chained.closed c member

theorem ClusterChain.still (chained : ClusterChain fat first chain) (still : Still fat after) :
    ClusterChain after first chain :=
  chained.congr still.layout fun _ _ => still.stored_eq

/-- A chain of one cluster that has been free. -/
theorem Marks.clusterChain (marks : Marks fat c after) (regular : fat.layout.Regular) :
    ClusterChain after c [c] := by
  have self := marks.takes.self
  rw [← marks.takes.layout] at self
  have ends := ends_of_mark self
  have goes : ¬after.layout.Ends c := by
    rw [marks.takes.layout]
    exact regular.not_ends marks.two marks.bound
  refine ⟨.link goes (.stop ends), fun d member => ?_, fun d member _ => ?_⟩
  · cases List.mem_singleton.mp member
    exact marks.stored_ne_zero
  · cases List.mem_singleton.mp member
    exact nextCluster_of_mark self

end Chains

section Extending

variable {fat after middle : FatTable} {first cluster c j : Nat} {chain chain' chain'' : List Nat}

/-- The chain goes on with clusters that were free, and the entries of other clusters in use are
as they were. -/
structure Extended (fat : FatTable) (chain : List Nat) (after : FatTable) (chain' : List Nat) :
    Prop where
  layout : after.layout = fat.layout
  works : after.Works
  fresh : ∃ new, chain' = chain ++ new ∧ ∀ c ∈ new, fat.stored c = 0
  kept : ∀ c < fat.layout.clusterCount + 2, fat.stored c ≠ 0 → c ∉ chain →
    after.stored c = fat.stored c

theorem Still.extended (still : Still fat after) (works : after.Works) :
    Extended fat chain after chain :=
  ⟨still.layout, works, ⟨[], by simp⟩, fun _ _ _ _ => still.stored_eq⟩

theorem Extended.trans (first : Extended fat chain middle chain')
    (second : Extended middle chain' after chain'')
    (used : ∀ c ∈ chain, middle.stored c = 0 → fat.stored c = 0)
    (entries : ∀ c ∈ chain'', c < fat.layout.clusterCount + 2) :
    Extended fat chain after chain'' := by
  obtain ⟨new, rfl, free⟩ := first.fresh
  obtain ⟨new', rfl, free'⟩ := second.fresh
  have outside {c : Nat} (nonzero : fat.stored c ≠ 0) (other : c ∉ chain) :
      c ∉ chain ++ new := by
    intro member
    exact (List.mem_append.mp member).elim other fun new => nonzero (free c new)
  refine ⟨second.layout.trans first.layout, second.works,
    ⟨new ++ new', List.append_assoc _ _ _, fun c member => ?_⟩, fun c inside nonzero other => ?_⟩
  · rcases List.mem_append.mp member with old | later
    · exact free c old
    · by_contra nonzero
      by_cases earlier : c ∈ chain
      · exact nonzero (used c earlier (free' c later))
      · have inside := entries c (List.mem_append_right _ later)
        exact nonzero ((first.kept c inside nonzero earlier).symm.trans (free' c later))
  · have same := first.kept c inside nonzero other
    rw [← same]
    refine second.kept c ?_ ?_ (outside nonzero other)
    · rwa [first.layout]
    · rwa [same]

/-- A new cluster is linked behind the last one. -/
theorem ClusterChain.linked (chained : ClusterChain fat first chain)
    (regular : fat.layout.Regular) (last : chain[j]? = some cluster)
    (length : chain.length = j + 1) (marks : Marks fat c middle) (apart : c ≠ cluster)
    (link : Takes middle cluster c after) (works : after.Works) :
    ClusterChain after first (chain ++ [c]) ∧ Extended fat chain after (chain ++ [c]) := by
  have layout : after.layout = fat.layout := link.layout.trans marks.takes.layout
  have others : ∀ d < fat.layout.clusterCount + 2, d ≠ c → d ≠ cluster →
      after.stored d = fat.stored d := by
    intro d inside fresh differs
    have inside' := inside
    rw [← marks.takes.layout] at inside'
    exact (link.others d inside' differs).trans (marks.takes.others d inside fresh)
  have old : ∀ d ∈ chain, d ≠ c := fun d member same => chained.used d member (same ▸ marks.zero)
  obtain ⟨fits, small⟩ := storable_lt regular.few (Or.inr (Or.inl ⟨marks.two, marks.bound⟩))
  have self : after.stored cluster = c := by
    rw [link.self, marks.takes.layout, Nat.mod_eq_of_lt fits]
  have goes : ¬after.layout.Ends c := by
    rw [layout]
    exact regular.not_ends marks.two marks.bound
  have next : nextCluster after cluster = c := by
    have bound := marks.bound
    rw [← layout] at regular bound
    exact regular.nextCluster_eq bound self
  have mark : after.stored c = after.layout.width.mark % after.layout.width.values := by
    rw [layout]
    have inside := marks.bound
    rw [← marks.takes.layout] at inside
    exact (link.others c inside apart).trans marks.takes.self
  have same : ∀ d ∈ chain, d ≠ cluster → nextCluster after d = nextCluster fat d := by
    intro d member differs
    exact nextCluster_congr layout (others d (chained.entry member) (old d member) differs)
  refine ⟨⟨?_, fun d member => ?_, fun d member stops => ?_⟩, layout, works,
    ⟨[c], rfl, fun d member => ?_⟩, fun d inside nonzero other => ?_⟩
  · have strung := chained.strung
    rw [← layout] at strung
    exact strung.concat last length same next goes (ends_of_mark mark)
  · rcases List.mem_append.mp member with before | new
    · by_cases isLast : d = cluster
      · rw [isLast, self]
        have two := marks.two
        omega
      · rw [others d (chained.entry before) (old d before) isLast]
        exact chained.used d before
    · cases List.mem_singleton.mp new
      rw [mark, ← Nat.pos_iff_ne_zero]
      exact Nat.pos_of_ne_zero (mark_ne_zero _)
  · rcases List.mem_append.mp member with before | new
    · by_cases isLast : d = cluster
      · rw [isLast, next] at stops
        exact absurd stops goes
      · rw [layout, same d before isLast] at stops
        rw [same d before isLast]
        exact chained.closed d before stops
    · cases List.mem_singleton.mp new
      exact nextCluster_of_mark mark
  · cases List.mem_singleton.mp member
    exact marks.zero
  · exact others d inside (fun same => nonzero (same ▸ marks.zero))
      (fun same => other (same ▸ List.mem_of_getElem? last))

theorem ClusterChain.used_of_extended (chained : ClusterChain middle first chain')
    (extended : Extended fat chain middle chain') : ∀ c ∈ chain, middle.stored c ≠ 0 := by
  obtain ⟨new, rfl, -⟩ := extended.fresh
  exact fun c member => chained.used c (List.mem_append_left _ member)

/-- A step of a write leads to the next cluster of the chain, which may be a new one. -/
theorem ClusterChain.step (chained : ClusterChain fat first chain) (works : fat.Works)
    (regular : fat.layout.Regular) (here : chain[j]? = some cluster) :
    (∃ next after chain', stepCluster cluster fat = (.ok next, after) ∧
      chain'[j + 1]? = some next ∧ ClusterChain after first chain' ∧
        Extended fat chain after chain') ∨
    ∃ after, stepCluster cluster fat = (.error (.extension .enospc), after) ∧
      chain.length = j + 1 ∧ after.Full ∧ ClusterChain after first chain ∧
        Extended fat chain after chain := by
  have member := List.mem_of_getElem? here
  have entry := chained.entry member
  rw [stepCluster_of_readable works.readable regular.holds entry]
  rcases chained.strung.next_of_get here with ⟨stops, length⟩ | ⟨goes, next⟩
  · rw [if_pos stops]
    have closed : 0x0ffffff8 ≤ nextCluster fat.loaded cluster := by
      rw [(still_loaded fat).nextCluster_eq]
      exact chained.closed cluster member stops
    have entry' : cluster < fat.loaded.layout.clusterCount + 2 := by
      rw [loaded_layout]
      exact entry
    rcases works.loaded.fatTableAppend (loaded_holds regular.holds) entry' closed with
      ⟨after, failed, still, works', full⟩ | ⟨c, middle, after, ran, marks, apart, link, works'⟩
    · right
      have still' := (still_loaded fat).trans still
      rw [failed]
      exact ⟨after, rfl, length, still.full_iff.mpr full, chained.still still',
        still'.extended works'⟩
    · left
      obtain ⟨chained', extended⟩ :=
        chained.linked regular here length marks.ofLoaded apart link works'
      rw [ran]
      refine ⟨c, after, chain ++ [c], rfl, ?_, chained', extended⟩
      rw [← length, List.getElem?_concat_length]
  · left
    rw [if_neg goes]
    exact ⟨nextCluster fat cluster, fat.loaded, chain, rfl, next, chained.still (still_loaded fat),
      (still_loaded fat).extended works.loaded⟩

end Extending

section Walking

variable {newbuf : Memory} {writePos writeEnd rounds first j e cluster : Nat}
  {chain chain' chain'' : List Nat} {inode middle after : Inode} {table : FatTable}
  {ended : Option Cause}

/-- What the write of a round does on a device that does not fail. -/
structure Puts (newbuf : Memory) (writePos j cluster : Nat) (inode after : Inode) : Prop where
  table : after.table = inode.table
  writes : after.writes = Stream'.const none
  mem : after.mem = inode.mem
  kept : ∀ c, c ≠ cluster ∨ (j + 1) * inode.layout.bpc ≤ writePos →
    after.clusters c = inode.clusters c
  written : writePos < (j + 1) * inode.layout.bpc → ∀ i < inode.layout.bpc,
    after.clusters cluster i = newbuf (j * inode.layout.bpc + i)

theorem putCluster_puts (writes : inode.writes = Stream'.const none)
    (whole : inode.layout.sectorsPerCluster * inode.layout.lsec * diskSectorSize =
      inode.layout.bpc) :
    ∃ after, putCluster inode.layout newbuf writePos (j * inode.layout.bpc) cluster inode =
      (.ok (), after) ∧ Puts newbuf writePos j cluster inode after := by
  have works : inode.writes.head = none := by
    rw [writes]
    rfl
  obtain ⟨after, put, -⟩ := @putCluster_succeeds newbuf inode writePos inode.layout
    (j * inode.layout.bpc) cluster works
  obtain ⟨kept, written⟩ := putCluster_clusters whole put
  rw [← Nat.succ_mul] at kept written
  have rest : after.writes = Stream'.const none ∧ after.mem = inode.mem := by
    unfold putCluster writeCluster at put
    split at put
    · rw [works] at put
      cases put
      exact ⟨by rw [writes]; rfl, rfl⟩
    · cases put
      exact ⟨writes, rfl⟩
  exact ⟨after, put, (putCluster_sameFile put).2, rest.1, rest.2, kept, written rfl⟩

/-- What the walk from an index has done when it comes to another one. -/
structure Traversed (newbuf : Memory) (writePos writeEnd first j : Nat) (inode : Inode)
    (chain : List Nat) (e : Nat) (ended : Option Cause) (after : Inode) (chain' : List Nat) :
    Prop where
  lt : j < e
  met : e ≤ chain'.length
  chained : ClusterChain after.table first chain'
  extended : Extended inode.table chain after.table chain'
  written : ∀ k c, j ≤ k → k < e → writePos < (k + 1) * inode.layout.bpc → chain'[k]? = some c →
    ∀ i < inode.layout.bpc, after.clusters c i = newbuf (k * inode.layout.bpc + i)
  kept : ∀ c, (∀ k, j ≤ k → k < e → writePos < (k + 1) * inode.layout.bpc →
    chain'[k]? ≠ some c) → after.clusters c = inode.clusters c
  mem : after.mem = inode.mem
  done : ended = none → writeEnd ≤ e * inode.layout.bpc
  short : ∀ cause, ended = some cause → cause = .extension .enospc ∧ chain'.length = e ∧
    e * inode.layout.bpc < writeEnd ∧ after.table.Full

/-- The cluster that a round has written is on its own. -/
theorem Puts.kept_of_spared (puts : Puts newbuf writePos j cluster inode middle) {c : Nat}
    (spared : writePos < (j + 1) * inode.layout.bpc → c ≠ cluster) :
    middle.clusters c = inode.clusters c := by
  apply puts.kept
  by_cases inside : writePos < (j + 1) * inode.layout.bpc
  · exact Or.inl (spared inside)
  · exact Or.inr (Nat.le_of_not_lt inside)

/-- The walk ends behind a cluster. -/
theorem Puts.last (puts : Puts newbuf writePos j cluster inode middle)
    (here : chain[j]? = some cluster) (chained : ClusterChain table first chain)
    (extended : Extended inode.table chain table chain)
    (done : ended = none → writeEnd ≤ (j + 1) * inode.layout.bpc)
    (short : ∀ cause, ended = some cause → cause = .extension .enospc ∧ chain.length = j + 1 ∧
      (j + 1) * inode.layout.bpc < writeEnd ∧ table.Full) :
    Traversed newbuf writePos writeEnd first j inode chain (j + 1) ended
      { middle with table := table } chain := by
  refine ⟨Nat.lt_succ_self j, (List.getElem?_eq_some_iff.mp here).1, chained, extended, ?_, ?_,
    puts.mem, done, short⟩
  · intro k c low high inside found i less
    obtain rfl : k = j := by omega
    cases here.symm.trans found
    exact puts.written inside i less
  · intro c spared
    apply puts.kept_of_spared
    rintro inside rfl
    exact spared j le_rfl (Nat.lt_succ_self j) inside here

/-- The walk goes on behind a cluster. -/
theorem Puts.goes (puts : Puts newbuf writePos j cluster inode middle)
    (here : chain[j]? = some cluster) (chained : ClusterChain table first chain')
    (extended : Extended inode.table chain table chain')
    (rest : Traversed newbuf writePos writeEnd first (j + 1) { middle with table := table } chain'
      e ended after chain'') :
    Traversed newbuf writePos writeEnd first j inode chain e ended after chain'' := by
  have layout : Inode.layout { middle with table := table } = inode.layout := extended.layout
  obtain ⟨lt, met, chained', extended', written, kept, mem, done, short⟩ := rest
  rw [layout] at written kept done short
  have here' : chain''[j]? = some cluster := by
    obtain ⟨new, rfl, -⟩ := extended.fresh
    obtain ⟨new', rfl, -⟩ := extended'.fresh
    have inside := (List.getElem?_eq_some_iff.mp here).1
    rw [List.append_assoc, List.getElem?_append_left inside]
    exact here
  have again : ∀ k, chain''[k]? = some cluster → k = j := fun k found =>
    (List.getElem?_inj (List.getElem?_eq_some_iff.mp found).1 chained'.strung.nodup).mp
      (found.trans here'.symm)
  refine ⟨Nat.lt_of_succ_lt lt, met, chained', ?_, ?_, ?_, mem.trans puts.mem, done, short⟩
  · refine extended.trans extended' (fun d member zero => ?_) fun d member => ?_
    · exact absurd zero (chained.used_of_extended extended d member)
    · have entry := chained'.entry member
      rwa [extended'.layout, extended.layout] at entry
  · intro k c low high inside found i less
    rcases Nat.lt_or_eq_of_le low with later | rfl
    · exact written k c later high inside found i less
    · cases here'.symm.trans found
      rw [kept cluster fun k low' _ _ found' => ?_]
      · exact puts.written inside i less
      · exact Nat.ne_of_gt low' (again k found')
  · intro c spared
    rw [kept c fun k low high inside found =>
      spared k (Nat.le_of_succ_le low) high inside found]
    apply puts.kept_of_spared
    rintro inside rfl
    exact spared j le_rfl (Nat.lt_of_succ_lt lt) inside here'

/-- On a device that does not fail a write walks to its end, or to the end of the chain when no
cluster is free. -/
theorem writeLoop_traversed (works : inode.table.Works)
    (writes : inode.writes = Stream'.const none) (regular : inode.layout.Regular)
    (whole : inode.layout.sectorsPerCluster * inode.layout.lsec * diskSectorSize =
      inode.layout.bpc)
    (chained : ClusterChain inode.table first chain) (here : chain[j]? = some cluster)
    (small : (j + rounds) * inode.layout.bpc < 2 ^ 32) (more : j * inode.layout.bpc < writeEnd)
    (enough : writeEnd ≤ (j + rounds) * inode.layout.bpc) :
    ∃ e ended after chain', writeLoop inode.layout newbuf writePos writeEnd rounds
        (j * inode.layout.bpc) cluster inode = ((e * inode.layout.bpc, ended), after) ∧
      Traversed newbuf writePos writeEnd first j inode chain e ended after chain' := by
  induction rounds generalizing j cluster inode chain with
  | zero => exact absurd enough (Nat.not_le.mpr more)
  | succ rounds inductionHypothesis =>
      have next : (j * inode.layout.bpc + inode.layout.bpc) % 2 ^ 32 = (j + 1) * inode.layout.bpc :=
        next_index ((Nat.mul_le_mul_right _ (by omega)).trans_lt small)
      obtain ⟨middle, put, puts⟩ := @putCluster_puts newbuf writePos j cluster inode writes whole
      rw [writeLoop, put]
      dsimp only
      rw [next]
      by_cases last : writeEnd ≤ (j + 1) * inode.layout.bpc
      · rw [if_pos last]
        have traversed : Traversed newbuf writePos writeEnd first j inode chain (j + 1) none
            { middle with table := inode.table } chain :=
          puts.last here chained ((Still.refl _).extended works) (fun _ => last)
            (by rintro cause ⟨⟩)
        rw [← puts.table] at traversed
        exact ⟨j + 1, none, middle, chain, rfl, traversed⟩
      · rw [if_neg last, puts.table]
        rcases chained.step works regular here with
          ⟨c, table, chain', stepped, here', chained', extended⟩ |
          ⟨table, stopped, length, full, chained', extended⟩
        · rw [stepped]
          dsimp only
          have layout : Inode.layout { middle with table := table } = inode.layout :=
            extended.layout
          have rest := @inductionHypothesis (j + 1) c chain' { middle with table := table }
          have shift : j + (rounds + 1) = j + 1 + rounds := by omega
          rw [layout] at rest
          rw [shift] at small enough
          obtain ⟨e, ended, after, chain'', ran, traversed⟩ := rest extended.works puts.writes
            regular whole chained' here' small (Nat.lt_of_not_le last) enough
          exact ⟨e, ended, after, chain'', ran, puts.goes here chained' extended traversed⟩
        · rw [stopped]
          refine ⟨j + 1, some (.extension .enospc), { middle with table := table }, chain, rfl,
            puts.last here chained' extended (by rintro ⟨⟩) fun cause ended => ?_⟩
          cases ended
          exact ⟨rfl, length, Nat.lt_of_not_le last, full⟩

end Walking

end Opal.Fat
