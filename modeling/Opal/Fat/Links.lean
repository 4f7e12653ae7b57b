import Opal.Fat.Rounds

/-!
# The links of a file

The walk of a write is described by the links in the entries: the clusters it has met are apart
from each other and in use, so that a new cluster is none of them, and what is left of the chain
is met later.
-/

namespace Opal.Fat

section Links

variable {fat after : FatTable} {first c j k m : Nat}

/-- The link in an entry, before the end marks are widened. -/
def linkOf (fat : FatTable) (c : Nat) : Nat := maskEntry (fat.stored c)

/-- The cluster that the links lead to after a number of steps. -/
def linkedAt (fat : FatTable) (first k : Nat) : Nat := (linkOf fat)^[k] first

/-- The chain goes on for a number of clusters. -/
def Path (fat : FatTable) (c m : Nat) : Prop := ∀ i < m, ¬fat.layout.Ends (chainAt fat c (i + 1))

theorem linkedAt_succ (fat : FatTable) (first k : Nat) :
    linkedAt fat first (k + 1) = linkOf fat (linkedAt fat first k) :=
  Function.iterate_succ_apply' _ _ _

theorem linkedAt_add (fat : FatTable) (first j m : Nat) :
    linkedAt fat first (j + m) = linkedAt fat (linkedAt fat first j) m := by
  unfold linkedAt
  rw [Nat.add_comm, Function.iterate_add_apply]

theorem chainAt_cons (fat : FatTable) (c m : Nat) :
    chainAt fat (nextCluster fat c) m = chainAt fat c (m + 1) :=
  (Function.iterate_succ_apply _ _ _).symm

/-- A link that is no end is the next cluster. -/
theorem linkOf_of_goes (goes : ¬fat.layout.Ends (nextCluster fat c)) :
    linkOf fat c = nextCluster fat c := by
  obtain ⟨-, small, -⟩ := cluster_of_not_ends goes
  unfold nextCluster maskEntry extendMark at small
  unfold linkOf nextCluster extendMark
  split at small
  · omega
  · rename_i kept
    rw [if_neg kept]
    rfl

theorem linkedAt_of_path (path : Path fat c m) : ∀ i ≤ m, linkedAt fat c i = chainAt fat c i := by
  intro i below
  induction i with
  | zero => rfl
  | succ i inductionHypothesis =>
      have goes := path i below
      rw [chainAt_succ] at goes ⊢
      rw [linkedAt_succ, inductionHypothesis (Nat.le_of_succ_le below), linkOf_of_goes goes]

theorem Path.cons (goes : ¬fat.layout.Ends (nextCluster fat c))
    (path : Path fat (nextCluster fat c) m) : Path fat c (m + 1) := by
  intro i less
  rw [← chainAt_cons]
  cases i with
  | zero => exact goes
  | succ i => exact path i (Nat.lt_of_succ_lt_succ less)

theorem Path.tail (path : Path fat c (m + 1)) : Path fat (nextCluster fat c) m := by
  intro i less
  rw [chainAt_cons]
  exact path (i + 1) (Nat.succ_lt_succ less)

/-- The links from the clusters before an index lead to it. -/
theorem linkedAt_congr (same : ∀ i < j, after.stored (linkedAt fat first i) =
    fat.stored (linkedAt fat first i)) : ∀ k ≤ j, linkedAt after first k =
      linkedAt fat first k := by
  intro k below
  induction k with
  | zero => rfl
  | succ k inductionHypothesis =>
      rw [linkedAt_succ, linkedAt_succ, inductionHypothesis (Nat.le_of_succ_le below)]
      unfold linkOf
      rw [same k below]

theorem Still.linkedAt_eq (still : Still fat after) :
    linkedAt after first k = linkedAt fat first k :=
  linkedAt_congr (fun _ _ => still.stored_eq) k le_rfl

theorem Still.chainAt_eq (still : Still fat after) :
    chainAt after first k = chainAt fat first k := by
  have next : nextCluster after = nextCluster fat := funext fun _ => still.nextCluster_eq
  unfold chainAt
  rw [next]

theorem Still.path_iff (still : Still fat after) : Path after c m ↔ Path fat c m := by
  unfold Path
  simp only [still.chainAt_eq, still.layout]

end Links

section Walked

variable {fat after : FatTable} {count first j k : Nat}

/-- Where the walk is: the clusters it has met, and what is left of the chain, of which the
first `count` clusters hold the file. -/
structure Walked (fat : FatTable) (count first j : Nat) : Prop where
  entry : ∀ i ≤ j, linkedAt fat first i < fat.layout.clusterCount + 2
  used : ∀ i < j, fat.stored (linkedAt fat first i) ≠ 0
  apart : ∀ a b, a < b → b ≤ j → linkedAt fat first a ≠ linkedAt fat first b
  ahead : ∀ m, Path fat (linkedAt fat first j) m → ∀ i < j,
    chainAt fat (linkedAt fat first j) m ≠ linkedAt fat first i
  simple : ∀ a b, a < b → Path fat (linkedAt fat first j) b →
    chainAt fat (linkedAt fat first j) a ≠ chainAt fat (linkedAt fat first j) b
  rest : ∀ k < count, j ≤ k → Path fat (linkedAt fat first j) (k - j)

theorem Walked.still (walked : Walked fat count first j) (still : Still fat after) :
    Walked after count first j := by
  obtain ⟨entry, used, apart, ahead, simple, rest⟩ := walked
  constructor <;>
    simp only [still.linkedAt_eq, still.chainAt_eq, still.path_iff, still.layout, still.stored_eq]
  · exact entry
  · exact used
  · exact apart
  · exact ahead
  · exact simple
  · exact rest

/-- The clusters of the walk and of the file are apart. -/
theorem Walked.ne (walked : Walked fat count first j) (differs : k ≠ j) (met : k ≤ j ∨ k < count) :
    linkedAt fat first k ≠ linkedAt fat first j := by
  rcases Nat.lt_or_gt_of_ne differs with less | greater
  · exact walked.apart k j less le_rfl
  · have path := walked.rest k (met.resolve_left (Nat.not_le.mpr greater)) greater.le
    have here := walked.simple 0 (k - j) (Nat.sub_pos_of_lt greater) path
    rw [← linkedAt_of_path path (k - j) le_rfl, ← linkedAt_add,
      Nat.add_sub_cancel' greater.le] at here
    exact Ne.symm here

/-- Following a link. -/
theorem Walked.goes (walked : Walked fat count first j)
    (goes : ¬fat.layout.Ends (nextCluster fat (linkedAt fat first j))) :
    Walked fat count first (j + 1) := by
  have next : linkedAt fat first (j + 1) = nextCluster fat (linkedAt fat first j) := by
    rw [linkedAt_succ, linkOf_of_goes goes]
  have one : Path fat (linkedAt fat first j) 1 := Path.cons goes fun i less =>
    absurd less (Nat.not_lt_zero i)
  have fresh : ∀ i ≤ j, linkedAt fat first i ≠ linkedAt fat first (j + 1) := by
    intro i below
    rw [next]
    rcases Nat.lt_or_eq_of_le below with less | rfl
    · exact (walked.ahead 1 one i less).symm
    · exact walked.simple 0 1 Nat.zero_lt_one one
  constructor
  · intro i below
    rcases Nat.lt_or_eq_of_le below with less | rfl
    · exact walked.entry i (Nat.le_of_lt_succ less)
    · rw [next]
      exact (cluster_of_not_ends goes).2.2
  · intro i below
    rcases Nat.lt_succ_iff_lt_or_eq.mp below with less | rfl
    · exact walked.used i less
    · intro zero
      have link := linkOf_of_goes goes
      unfold linkOf at link
      rw [zero] at link
      rw [← link] at goes
      exact goes ends_zero
  · intro a b less below
    rcases Nat.lt_or_eq_of_le below with before | rfl
    · exact walked.apart a b less (Nat.le_of_lt_succ before)
    · exact fresh a (Nat.le_of_lt_succ less)
  · intro m path i below
    rw [next] at path ⊢
    rw [chainAt_cons]
    have longer := Path.cons goes path
    rcases Nat.lt_succ_iff_lt_or_eq.mp below with less | rfl
    · exact walked.ahead (m + 1) longer i less
    · exact (walked.simple 0 (m + 1) (Nat.succ_pos m) longer).symm
  · intro a b less path
    rw [next] at path ⊢
    rw [chainAt_cons, chainAt_cons]
    exact walked.simple (a + 1) (b + 1) (Nat.succ_lt_succ less) (Path.cons goes path)
  · intro k inside below
    have path := walked.rest k inside (Nat.le_of_succ_le below)
    rw [next]
    rw [show k - j = k - (j + 1) + 1 by omega] at path
    exact path.tail

/-- At the end of the chain the walk has met all clusters of the file. -/
theorem Walked.le_of_ends (walked : Walked fat count first j)
    (ends : fat.layout.Ends (nextCluster fat (linkedAt fat first j))) (inside : k < count) :
    k ≤ j := by
  by_contra beyond
  have path := walked.rest k inside (Nat.le_of_not_le beyond)
  exact path 0 (Nat.sub_pos_of_lt (Nat.lt_of_not_le beyond)) ends

theorem Appends.layout {cluster : Nat} {outcome : Except Fault Nat}
    (appends : Appends fat cluster outcome after) : after.layout = fat.layout := by
  cases appends with
  | refused still reason => exact still.layout
  | marked marks apart => exact marks.takes.layout
  | linked marks apart link => exact link.layout.trans marks.takes.layout
  | reset marks apart link free => exact free.layout.trans (link.layout.trans marks.takes.layout)

/-- An extension leaves the entries in use, but for the last one of the chain. -/
theorem Appends.others {cluster other : Nat} {outcome : Except Fault Nat}
    (appends : Appends fat cluster outcome after) (inside : other < fat.layout.clusterCount + 2)
    (used : fat.stored other ≠ 0) (differs : other ≠ cluster) :
    after.stored other = fat.stored other := by
  have fresh {c : Nat} {middle : FatTable} (marks : Marks fat c middle) :
      other ≠ c ∧ middle.stored other = fat.stored other ∧
        other < middle.layout.clusterCount + 2 := by
    have apart : other ≠ c := fun same => used (same ▸ marks.zero)
    refine ⟨apart, marks.takes.others other inside apart, ?_⟩
    rw [marks.takes.layout]
    exact inside
  cases appends with
  | refused still reason => exact still.stored_eq
  | marked marks apart => exact (fresh marks).2.1
  | linked marks apart link =>
      obtain ⟨-, same, inside'⟩ := fresh marks
      exact (link.others other inside' differs).trans same
  | reset marks apart link free =>
      obtain ⟨apart', same, inside'⟩ := fresh marks
      have here := (link.others other inside' differs).trans same
      have inside'' := inside'
      rw [← link.layout] at inside''
      exact (free.others other inside'' apart').trans here

/-- An extension leaves the links between the clusters that the walk has met. -/
theorem Walked.append (walked : Walked fat count first j) {outcome : Except Fault Nat}
    (appends : Appends fat (linkedAt fat first j) outcome after) :
    ∀ k ≤ j, linkedAt after first k = linkedAt fat first k := by
  apply linkedAt_congr
  intro i less
  exact appends.others (walked.entry i less.le) (walked.used i less)
    (walked.apart i j less le_rfl)

theorem ends_of_mark {c : Nat}
    (self : fat.stored c = fat.layout.width.mark % fat.layout.width.values) :
    fat.layout.Ends (nextCluster fat c) := by
  have seen := @seenAs_mark fat.layout
  unfold SeenAs at seen
  rw [if_pos rfl] at seen
  rw [Nat.mod_eq_of_lt (mark_lt _)] at self
  unfold FatTable.stored at self
  unfold nextCluster
  rw [self]
  exact seen

/-- A new chain that ends with its first cluster. -/
theorem walked_of_ends {c : Nat} (entry : c < fat.layout.clusterCount + 2)
    (ends : fat.layout.Ends (nextCluster fat c)) : Walked fat 0 c 0 where
  entry i below := by
    cases Nat.le_zero.mp below
    exact entry
  used i less := absurd less (Nat.not_lt_zero i)
  apart a b less below := by omega
  ahead m _ i less := absurd less (Nat.not_lt_zero i)
  simple a b less path := absurd ends (path 0 (Nat.zero_lt_of_lt less))
  rest k less := absurd less (Nat.not_lt_zero k)

/-- Linking a new cluster behind the last one. -/
theorem Walked.linked {c : Nat} {middle : FatTable} (walked : Walked fat count first j)
    (sound : fat.layout.Sound)
    (ends : fat.layout.Ends (nextCluster fat (linkedAt fat first j)))
    (marks : Marks fat c middle) (differs : c ≠ linkedAt fat first j)
    (link : Takes middle (linkedAt fat first j) c after) :
    c = linkedAt after first (j + 1) ∧ Walked after count first (j + 1) := by
  have appends : Appends fat (linkedAt fat first j) (.ok c) after := .linked marks differs link
  have kept := walked.append appends
  have layout := appends.layout
  obtain ⟨fits, small⟩ := storable_lt sound.few (Or.inr (Or.inl ⟨marks.two, marks.bound⟩))
  have self : after.stored (linkedAt fat first j) = c := by
    rw [link.self, marks.takes.layout, Nat.mod_eq_of_lt fits]
  have next : linkedAt after first (j + 1) = c := by
    rw [linkedAt_succ, kept j le_rfl]
    unfold linkOf maskEntry
    rw [self, Nat.mod_eq_of_lt small]
  have stored : ∀ i < j, after.stored (linkedAt fat first i) = fat.stored (linkedAt fat first i) :=
    fun i less => appends.others (walked.entry i less.le) (walked.used i less)
      (walked.apart i j less le_rfl)
  have fresh : ∀ i ≤ j, linkedAt fat first i ≠ c := by
    intro i below
    rcases Nat.lt_or_eq_of_le below with less | rfl
    · exact fun same => walked.used i less (same ▸ marks.zero)
    · exact differs.symm
  -- Behind the new cluster there is nothing.
  have stop : after.layout.Ends (nextCluster after c) := by
    have bound : c < middle.layout.clusterCount + 2 := by
      rw [marks.takes.layout]
      exact marks.bound
    apply ends_of_mark
    rw [layout]
    exact (link.others c bound differs).trans marks.takes.self
  have none : ∀ m, Path after c m → m = 0 := by
    intro m path
    by_contra some
    exact path 0 (Nat.pos_of_ne_zero some) stop
  refine ⟨next.symm, ?_⟩
  constructor
  · intro i below
    rw [layout]
    rcases Nat.lt_or_eq_of_le below with less | rfl
    · rw [kept i (Nat.le_of_lt_succ less)]
      exact walked.entry i (Nat.le_of_lt_succ less)
    · rw [next]
      exact marks.bound
  · intro i below
    rw [kept i (Nat.le_of_lt_succ below)]
    rcases Nat.lt_succ_iff_lt_or_eq.mp below with less | rfl
    · rw [stored i less]
      exact walked.used i less
    · rw [self]
      have two := marks.two
      omega
  · intro a b less below
    rw [kept a (by omega)]
    rcases Nat.lt_or_eq_of_le below with before | rfl
    · rw [kept b (Nat.le_of_lt_succ before)]
      exact walked.apart a b less (Nat.le_of_lt_succ before)
    · rw [next]
      exact fresh a (Nat.le_of_lt_succ less)
  · intro m path i below
    rw [next] at path ⊢
    rw [none m path, kept i (Nat.le_of_lt_succ below)]
    exact (fresh i (Nat.le_of_lt_succ below)).symm
  · intro a b less path
    rw [next] at path
    have zero := none b path
    omega
  · intro k inside below
    exact absurd (walked.le_of_ends ends inside) (by omega)

/-- A step of the walk keeps the links between the clusters it has met and those of the file,
and leads to the next cluster. -/
theorem Walked.step {outcome : Except Cause Nat} (walked : Walked fat count first j)
    (sound : fat.layout.Sound)
    (stepped : stepCluster (linkedAt fat first j) fat = (outcome, after)) :
    after.layout = fat.layout ∧
      (∀ k, k ≤ j ∨ k < count → linkedAt after first k = linkedAt fat first k) ∧
      ∀ next, outcome = .ok next →
        next = linkedAt after first (j + 1) ∧ Walked after count first (j + 1) := by
  have keeps := tableAt_keeps (linkedAt fat first j) fat
  unfold stepCluster at stepped
  cases read : tableAt (linkedAt fat first j) fat with
  | mk result loaded =>
      rw [read] at keeps stepped
      cases result with
      | error fault =>
          cases stepped
          exact ⟨keeps.layout, fun k _ => keeps.linkedAt_eq, fun next went => nomatch went⟩
      | ok entry =>
          obtain ⟨same, rfl⟩ := maskEntry_tableAt read
          dsimp only at stepped
          rw [same, loaded_layout] at stepped
          by_cases ends : fat.layout.Ends (nextCluster fat (linkedAt fat first j))
          · rw [if_pos ends] at stepped
            have walked' : Walked fat.loaded count first j := walked.still keeps
            have sound' : fat.loaded.layout.Sound := by rwa [loaded_layout]
            have here : linkedAt fat.loaded first j = linkedAt fat first j := keeps.linkedAt_eq
            have ends' : fat.loaded.layout.Ends
                (nextCluster fat.loaded (linkedAt fat.loaded first j)) := by
              rw [here, keeps.nextCluster_eq, loaded_layout]
              exact ends
            have appends := @fatTableAppend_appends fat.loaded (linkedAt fat.loaded first j)
              sound'.holds (walked'.entry j le_rfl)
            rw [← here] at stepped
            have links (k : Nat) (met : k ≤ j ∨ k < count) :
                linkedAt (fatTableAppend (linkedAt fat.loaded first j) fat.loaded).2 first k =
                  linkedAt fat first k := by
              have below : k ≤ j := met.elim id (walked'.le_of_ends ends')
              exact (walked'.append appends k below).trans keeps.linkedAt_eq
            have layout := appends.layout.trans keeps.layout
            cases appended : fatTableAppend (linkedAt fat.loaded first j) fat.loaded with
            | mk result table =>
                rw [appended] at stepped appends links layout
                cases result with
                | error fault =>
                    cases stepped
                    exact ⟨layout, links, fun next went => nomatch went⟩
                | ok c =>
                    cases stepped
                    refine ⟨layout, links, fun next went => ?_⟩
                    cases went
                    cases appends with
                    | linked marks apart link =>
                        exact walked'.linked sound' ends' marks apart link
          · rw [if_neg ends] at stepped
            cases stepped
            refine ⟨keeps.layout, fun k _ => keeps.linkedAt_eq, fun next went => ?_⟩
            cases went
            refine ⟨?_, (walked.goes ends).still keeps⟩
            rw [keeps.linkedAt_eq, linkedAt_succ, linkOf_of_goes ends]

theorem firstOf_walked {c : Nat} (sound : fat.layout.Sound) (masked : maskEntry first = first)
    (covers : ∀ k < count, ¬fat.layout.Ends (chainAt fat first k))
    (simple : ∀ a b, a < b → (∀ i ≤ b, ¬fat.layout.Ends (chainAt fat first i)) →
      chainAt fat first a ≠ chainAt fat first b)
    (found : firstOf first fat = (.ok c, after)) :
    after.layout = fat.layout ∧ maskEntry c = c ∧ Walked after count c 0 ∧
      ∀ k < count, linkedAt after c k = linkedAt fat first k := by
  unfold firstOf at found
  by_cases ends : fat.layout.Ends first
  · have empty : count = 0 := by
      by_contra some
      exact covers 0 (Nat.pos_of_ne_zero some) ends
    subst empty
    rw [if_pos ends] at found
    rcases tableAlloc_cases sound.holds with ⟨fault, table, failed, -, -⟩ |
      ⟨c', table, marks, allocated | ⟨fault, failed⟩⟩
    · rw [failed] at found
      cases found
    · rw [allocated] at found
      cases found
      obtain ⟨-, small⟩ := storable_lt sound.few (Or.inr (Or.inl ⟨marks.two, marks.bound⟩))
      have layout := marks.takes.layout
      have entry := marks.bound
      have self := marks.takes.self
      rw [← layout] at entry self
      exact ⟨layout, Nat.mod_eq_of_lt small, walked_of_ends entry (ends_of_mark self),
        fun k less => absurd less (Nat.not_lt_zero k)⟩
    · rw [failed] at found
      cases found
  · rw [if_neg ends] at found
    cases found
    have whole {b : Nat} (path : Path fat first b) : ∀ i ≤ b,
        ¬fat.layout.Ends (chainAt fat first i) := by
      intro i below
      cases i with
      | zero => exact ends
      | succ i => exact path i below
    refine ⟨rfl, masked, ?_, fun k _ => rfl⟩
    constructor
    · intro i below
      cases Nat.le_zero.mp below
      exact (cluster_of_not_ends ends).2.2
    · exact fun i less => absurd less (Nat.not_lt_zero i)
    · intro a b less below
      omega
    · exact fun m _ i less => absurd less (Nat.not_lt_zero i)
    · exact fun a b less path => simple a b less (whole path)
    · intro k inside _ i less
      exact covers (i + 1) (by omega)

end Walked

end Opal.Fat
