import Opal.Fat.Codec
import Opal.Library.Chain

/-!
# Freeing a chain of clusters

The loop of `fat_file_truncate` reads the link of a cluster, frees the cluster and follows
the link.  Nothing counts the rounds and nothing remembers the clusters that were met: the
loop ends because a cluster that is met again has no link any more.
-/

namespace Opal.Fat

open Library

section Operations

/-- A round of the loop of `fat_file_truncate`, with the next cluster. -/
def freeRound (cluster : Nat) : FatOp Nat := do
  let entry ← tableAt cluster
  tableSet cluster 0
  pure (maskEntry entry)

/-- The loop of `fat_file_truncate`; `none` says that it has not ended after so many rounds. -/
def freeChain : Nat → Nat → FatTable → Option (Except Fault Unit × FatTable)
  | 0, _, _ => none
  | fuel + 1, cluster, fat =>
      if isClusterEof fat.layout cluster then some (.ok (), fat)
      else
        match freeRound cluster fat with
        | (.ok next, fat) => freeChain fuel next fat
        | (.error error, fat) => some (.error error, fat)

end Operations

section Rounds

variable {fat after : FatTable} {layout : Layout} {cluster other next first : Nat}

/-- The number is not taken for the end of a chain. -/
abbrev Layout.Ends (layout : Layout) (cluster : Nat) : Prop := isClusterEof layout cluster = true

/-- The cluster behind another one, as the loops that follow a chain read it. -/
def nextCluster (fat : FatTable) (cluster : Nat) : Nat :=
  maskEntry (extendMark fat.layout.width.limit (fat.layout.width.stored fat.view cluster))

/-- The clusters of the chain that starts with a cluster. -/
abbrev InChain (fat : FatTable) (first : Nat) : Nat → Prop :=
  Linked fat.layout.Ends (nextCluster fat) first

/-- The table has an entry of that number, at a place that 32 bits can hold. -/
def Layout.HasEntry (layout : Layout) (cluster : Nat) : Prop :=
  layout.width.half cluster = cluster * layout.width.halves ∧
    layout.width.pos cluster + layout.width.bytes ≤ layout.fatBytes

theorem ends_zero : layout.Ends 0 := by
  unfold Layout.Ends isClusterEof
  simp

theorem cluster_of_not_ends (goes : ¬layout.Ends cluster) :
    2 ≤ cluster ∧ cluster < 0x0ffffff0 ∧ cluster < layout.clusterCount + 2 := by
  unfold Layout.Ends isClusterEof at goes
  simp only [decide_eq_true_eq, not_not] at goes
  omega

theorem half_of_not_ends (goes : ¬layout.Ends cluster) :
    layout.width.half cluster = cluster * layout.width.halves := by
  obtain ⟨-, small, -⟩ := cluster_of_not_ends goes
  cases layout.width with
  | fat12 => exact Nat.mod_eq_of_lt (by omega)
  | fat16 =>
      show 2 * (cluster * 2 % 2 ^ 32) = cluster * 4
      omega
  | fat32 =>
      show 2 * (cluster * 4 % 2 ^ 32) = cluster * 8
      omega

/-- The entries of two numbers have no half byte in common. -/
theorem apart_of_half (place : layout.width.half cluster = cluster * layout.width.halves)
    (place' : layout.width.half other = other * layout.width.halves) (differs : other ≠ cluster) :
    layout.width.Apart cluster other := by
  unfold Width.Apart
  rw [place, place', ← Nat.succ_mul, ← Nat.succ_mul]
  rcases Nat.lt_or_gt_of_ne differs with less | greater
  · exact Or.inr (Nat.mul_le_mul_right _ less)
  · exact Or.inl (Nat.mul_le_mul_right _ greater)

/-- What a round leaves: the entry is free, and all others are as they were. -/
structure Freed (fat : FatTable) (cluster next : Nat) (after : FatTable) : Prop where
  readable : fat.Readable
  loaded : after.Readable
  layout : after.layout = fat.layout
  entry : fat.layout.HasEntry cluster
  next : next = nextCluster fat cluster
  view : after.view = fat.layout.width.encode fat.view cluster 0

theorem freeRound_freed (goes : ¬fat.layout.Ends cluster)
    (round : freeRound cluster fat = (.ok next, after)) : Freed fat cluster next after := by
  unfold freeRound at round
  cases read : tableAt cluster fat with
  | mk outcome fat₁ =>
      cases outcome with
      | error error =>
          rw [Op.run_bind_error read] at round
          cases round
      | ok entry =>
          obtain ⟨readable, inside⟩ := inside_of_tableAt read
          rw [tableAt_of_inside readable inside] at read
          cases read
          rw [Op.run_bind_ok (tableAt_of_inside readable inside)] at round
          have loaded : fat.loaded.Readable := readable_of_buffer loaded_buffer
          cases wrote : tableSet cluster 0 fat.loaded with
          | mk outcome fat₂ =>
              cases outcome with
              | error error =>
                  rw [Op.run_bind_error wrote] at round
                  cases round
              | ok done =>
                  rw [Op.run_bind_ok wrote] at round
                  cases round
                  have change :=
                    changed_of_inside loaded (by rw [loaded_layout]; exact inside) wrote
                  have buffer := change.buffer
                  rw [loaded_layout, loaded_view] at buffer
                  exact ⟨readable, readable_of_buffer buffer, change.layout.trans loaded_layout,
                    ⟨half_of_not_ends goes, inside⟩, rfl, view_of_buffer buffer⟩

theorem Freed.stored_self (freed : Freed fat cluster next after) :
    fat.layout.width.stored after.view cluster = 0 := by
  rw [freed.view, Width.stored_encode, Nat.zero_mod]

theorem Freed.stored_other (freed : Freed fat cluster next after)
    (place : fat.layout.width.half other = other * fat.layout.width.halves)
    (differs : other ≠ cluster) :
    fat.layout.width.stored after.view other = fat.layout.width.stored fat.view other := by
  rw [freed.view, Width.stored_encode_apart _ (apart_of_half freed.entry.1 place differs)]

theorem extendMark_zero (layout : Layout) : extendMark layout.width.limit 0 = 0 := by
  cases layout.width <;> rfl

/-- A round replaces the link of the cluster by one to the end. -/
theorem Freed.nextCluster_eq (freed : Freed fat cluster next after)
    (goes : ¬fat.layout.Ends other) :
    nextCluster after other = Function.update (nextCluster fat) cluster 0 other := by
  unfold nextCluster
  rw [freed.layout]
  by_cases same : other = cluster
  · subst same
    rw [freed.stored_self, extendMark_zero, Function.update_self]
    rfl
  · rw [freed.stored_other (half_of_not_ends goes) same, Function.update_of_ne same]

/-- The chain of a cluster is the cluster and what a round leaves of its chain. -/
theorem Freed.inChain_iff (freed : Freed fat cluster next after)
    (goes : ¬fat.layout.Ends cluster) :
    InChain fat cluster other ↔ other = cluster ∨ InChain after next other := by
  have same (v : Nat) (continues : ¬fat.layout.Ends v) := freed.nextCluster_eq continues
  unfold InChain
  rw [linked_update goes ends_zero, freed.layout, freed.next]
  refine or_congr_right ⟨fun linked => ?_, fun linked => ?_⟩
  · exact linked.congr fun v continues => (same v continues).symm
  · exact linked.congr same

end Rounds

section Loop

variable {fat after : FatTable} {cluster first other fuel fuel' : Nat} {result : Except Fault Unit}

/-- The numbers that are not taken for the end of a chain. -/
def Layout.clusters (layout : Layout) : Finset Nat :=
  (Finset.range (layout.clusterCount + 2)).filter fun cluster => ¬layout.Ends cluster

theorem mem_clusters {layout : Layout} : cluster ∈ layout.clusters ↔ ¬layout.Ends cluster := by
  rw [Layout.clusters, Finset.mem_filter, Finset.mem_range]
  exact ⟨And.right, fun goes => ⟨(cluster_of_not_ends goes).2.2, goes⟩⟩

/-- The clusters with a link to another one. -/
def liveLinks (fat : FatTable) : Nat := live fat.layout.Ends (nextCluster fat) fat.layout.clusters

theorem liveLinks_le (fat : FatTable) : liveLinks fat ≤ fat.layout.clusterCount + 2 := by
  have few : fat.layout.clusters.card ≤ fat.layout.clusterCount + 2 := by
    rw [Layout.clusters]
    refine le_trans (Finset.card_filter_le _ _) ?_
    rw [Finset.card_range]
  rw [liveLinks, live]
  exact le_trans (Finset.card_filter_le _ _) few

/-- A round that goes on uses up a link. -/
theorem Freed.liveLinks_lt {next : Nat} (freed : Freed fat cluster next after)
    (goes : ¬fat.layout.Ends cluster) (onward : ¬fat.layout.Ends next) :
    liveLinks after < liveLinks fat := by
  unfold liveLinks
  rw [freed.layout]
  apply live_lt (mem_clusters.mpr goes)
  · rwa [← freed.next]
  · rw [freed.nextCluster_eq goes, Function.update_self]
    exact ends_zero
  · intro v member differs
    rw [freed.nextCluster_eq (mem_clusters.mp member), Function.update_of_ne differs]

/-- The loop ends after as many rounds as there are links, and two more. -/
theorem freeChain_ends (enough : liveLinks fat + 1 < fuel) :
    ∃ result after, freeChain fuel cluster fat = some (result, after) := by
  induction fuel generalizing cluster fat with
  | zero => cases enough
  | succ fuel inductionHypothesis =>
      unfold freeChain
      split
      · exact ⟨_, _, rfl⟩
      · rename_i goes
        split
        · rename_i next fat₁ round
          have freed := freeRound_freed goes round
          by_cases last : fat.layout.Ends next
          · obtain ⟨more, rfl⟩ : ∃ more, fuel = more + 1 := ⟨fuel - 1, by omega⟩
            unfold freeChain
            rw [freed.layout, if_pos last]
            exact ⟨_, _, rfl⟩
          · have fewer := freed.liveLinks_lt goes last
            exact inductionHypothesis (by omega)
        · exact ⟨_, _, rfl⟩

/-- More rounds than it takes make no difference. -/
theorem freeChain_mono (ended : freeChain fuel cluster fat = some (result, after))
    (more : fuel ≤ fuel') : freeChain fuel' cluster fat = some (result, after) := by
  induction fuel generalizing cluster fat fuel' with
  | zero => cases ended
  | succ fuel inductionHypothesis =>
      obtain ⟨rest, rfl⟩ : ∃ rest, fuel' = rest + 1 := ⟨fuel' - 1, by omega⟩
      unfold freeChain at ended ⊢
      split
      · rename_i stops
        rwa [if_pos stops] at ended
      · rename_i goes
        rw [if_neg goes] at ended
        split
        · rename_i next fat₁ round
          rw [round] at ended
          exact inductionHypothesis ended (Nat.le_of_succ_le_succ more)
        · rename_i error fat₁ round
          rwa [round] at ended

/-- What the loop leaves when it reports success. -/
structure ChainFreed (fat : FatTable) (first : Nat) (after : FatTable) : Prop where
  layout : after.layout = fat.layout
  readable : (fat.layout.Ends first ∧ after = fat) ∨ (fat.Readable ∧ after.Readable)
  entries : ∀ c, InChain fat first c → fat.layout.HasEntry c
  freed : ∀ c, InChain fat first c → fat.layout.width.stored after.view c = 0
  others : ∀ c, fat.layout.HasEntry c → ¬InChain fat first c →
    fat.layout.width.stored after.view c = fat.layout.width.stored fat.view c

/-- A round followed by what the loop does after it. -/
theorem Freed.chainFreed {fat₁ : FatTable} {next : Nat} (freed : Freed fat cluster next fat₁)
    (goes : ¬fat.layout.Ends cluster) (rest : ChainFreed fat₁ next after) :
    ChainFreed fat cluster after := by
  obtain ⟨layout, readable, entries, zeros, others⟩ := rest
  rw [freed.layout] at layout entries zeros others
  have step (c : Nat) := @Freed.inChain_iff _ _ _ c _ freed goes
  refine ⟨layout, .inr ⟨freed.readable, ?_⟩, fun c linked => ?_, fun c linked => ?_,
    fun c entry free => ?_⟩
  · rcases readable with ⟨-, rfl⟩ | both
    · exact freed.loaded
    · exact both.2
  · rcases (step c).mp linked with rfl | later
    · exact freed.entry
    · exact entries c later
  · by_cases later : InChain fat₁ next c
    · exact zeros c later
    · obtain rfl := ((step c).mp linked).resolve_right later
      rw [others c freed.entry later]
      exact freed.stored_self
  · have apart := fun inside => free ((step c).mpr inside)
    rw [others c entry fun later => apart (.inr later)]
    exact freed.stored_other entry.1 fun same => apart (.inl same)

theorem freeChain_chainFreed (ended : freeChain fuel cluster fat = some (.ok (), after)) :
    ChainFreed fat cluster after := by
  induction fuel generalizing cluster fat with
  | zero => cases ended
  | succ fuel inductionHypothesis =>
      unfold freeChain at ended
      split at ended
      · rename_i stops
        cases ended
        exact ⟨rfl, .inl ⟨stops, rfl⟩, fun c linked => absurd stops linked.goes_first,
          fun c linked => absurd stops linked.goes_first, fun _ _ _ => rfl⟩
      · rename_i goes
        split at ended
        · rename_i next fat₁ round
          have freed := freeRound_freed goes round
          exact freed.chainFreed goes (inductionHypothesis ended)
        · cases ended

/-- The loop of `fat_file_truncate` ends whatever the table holds.  If it reports success the
clusters of the chain are free, and all other entries are as they were. -/
theorem freeChain_exact (fat : FatTable) (first : Nat) : ∃ result after,
    (∀ fuel, fat.layout.clusterCount + 4 ≤ fuel →
      freeChain fuel first fat = some (result, after)) ∧
    (result = .ok () → (∀ c, InChain fat first c → (tableAt c after).1 = .ok 0) ∧
      ∀ c, fat.layout.HasEntry c → ¬InChain fat first c →
        (tableAt c after).1 = (tableAt c fat).1) := by
  have bound := liveLinks_le fat
  obtain ⟨result, after, ended⟩ : ∃ result after,
      freeChain (fat.layout.clusterCount + 4) first fat = some (result, after) :=
    freeChain_ends (by omega)
  refine ⟨result, after, fun fuel more => freeChain_mono ended more, ?_⟩
  rintro rfl
  obtain ⟨layout, readable, entries, freed, others⟩ := freeChain_chainFreed ended
  refine ⟨fun c linked => ?_, fun c entry free => ?_⟩
  · rcases readable with ⟨stops, -⟩ | ⟨-, loaded⟩
    · exact absurd stops linked.goes_first
    · rw [tableAt_of_inside loaded (by rw [layout]; exact (entries c linked).2), layout,
        freed c linked, extendMark_zero]
  · rcases readable with ⟨-, rfl⟩ | ⟨loadable, loaded⟩
    · rfl
    · rw [tableAt_of_inside loaded (by rw [layout]; exact entry.2), layout,
        tableAt_of_inside loadable entry.2, others c entry free]

/-- A cluster that is linked to itself is freed in the first round. -/
example : (freeChain 3 2 { largestFat12 with
    copies := fun _ i => if i = 3 then 2 else 0 }).map (fun (result, after) =>
      (result.isOk, after.view 3)) = some (true, 0) := by
  decide +kernel

end Loop

end Opal.Fat
