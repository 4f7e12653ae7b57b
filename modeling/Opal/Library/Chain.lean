import Mathlib.Data.Finset.Card
import Mathlib.Logic.Function.Basic

/-!
# Chains of links

Every node has a link to another, and some nodes end a chain.  Following the links from a
node may run into a cycle, but not if the link of each node is replaced by one to an end when
the node is left: the chain is then used up, and all of its nodes have been met.
-/

namespace Opal.Library

variable {ν : Type*} {ends : ν → Prop} {next next' : ν → ν} {first v w blank : ν}

/-- The nodes that are met along the links, up to the first that ends the chain. -/
inductive Linked (ends : ν → Prop) (next : ν → ν) (first : ν) : ν → Prop where
  | first (goes : ¬ends first) : Linked ends next first first
  | next {v : ν} (linked : Linked ends next first v) (goes : ¬ends (next v)) :
      Linked ends next first (next v)

theorem Linked.goes (linked : Linked ends next first v) : ¬ends v := by
  cases linked with
  | first goes => exact goes
  | next _ goes => exact goes

theorem Linked.goes_first (linked : Linked ends next first v) : ¬ends first := by
  induction linked with
  | first goes => exact goes
  | next _ _ inductionHypothesis => exact inductionHypothesis

/-- Only the links of nodes that do not end the chain matter. -/
theorem Linked.congr (linked : Linked ends next first v) (same : ∀ v, ¬ends v → next v = next' v) :
    Linked ends next' first v := by
  induction linked with
  | first goes => exact .first goes
  | @next v linked goes inductionHypothesis =>
      rw [same v linked.goes] at goes ⊢
      exact .next inductionHypothesis goes

section Strung

variable {nodes nodes' : List ν}

/-- The nodes of a chain in order.  There is such a list unless the chain runs into a cycle. -/
inductive Strung (ends : ν → Prop) (next : ν → ν) : ν → List ν → Prop where
  | stop {v : ν} (stops : ends v) : Strung ends next v []
  | link {v : ν} {nodes : List ν} (goes : ¬ends v) (rest : Strung ends next (next v) nodes) :
      Strung ends next v (v :: nodes)

theorem Strung.goes (strung : Strung ends next first nodes) : ∀ v ∈ nodes, ¬ends v := by
  induction strung with
  | stop stops => exact fun _ member => nomatch member
  | link goes _ inductionHypothesis => exact List.forall_mem_cons.mpr ⟨goes, inductionHypothesis⟩

theorem Strung.unique (strung : Strung ends next first nodes)
    (strung' : Strung ends next first nodes') : nodes' = nodes := by
  induction strung generalizing nodes' with
  | stop stops =>
      cases strung' with
      | stop _ => rfl
      | link goes _ => exact absurd stops goes
  | link goes _ inductionHypothesis =>
      cases strung' with
      | stop stops => exact absurd stops goes
      | link _ rest => rw [inductionHypothesis rest]

/-- A chain that comes to an end meets no node twice. -/
theorem Strung.nodup (strung : Strung ends next first nodes) : nodes.Nodup := by
  have suffix {v : ν} {nodes : List ν} (strung : Strung ends next v nodes) :
      ∀ w ∈ nodes, ∃ rest, Strung ends next w rest ∧ rest.length ≤ nodes.length := by
    induction strung with
    | stop _ => exact fun _ member => nomatch member
    | @link v nodes goes rest inductionHypothesis =>
        intro w member
        rcases List.mem_cons.mp member with rfl | later
        · exact ⟨w :: nodes, .link goes rest, le_rfl⟩
        · obtain ⟨rest, strung, short⟩ := inductionHypothesis w later
          exact ⟨rest, strung, short.trans (Nat.le_succ _)⟩
  induction strung with
  | stop _ => exact List.nodup_nil
  | @link v nodes goes rest inductionHypothesis =>
      refine List.nodup_cons.mpr ⟨fun again => ?_, inductionHypothesis⟩
      obtain ⟨others, strung, short⟩ := suffix rest v again
      rw [(Strung.link goes rest).unique strung] at short
      exact absurd short (Nat.not_le.mpr (Nat.lt_succ_self _))

theorem Strung.congr (strung : Strung ends next first nodes)
    (same : ∀ v ∈ nodes, next' v = next v) : Strung ends next' first nodes := by
  induction strung with
  | stop stops => exact .stop stops
  | link goes _ inductionHypothesis =>
      obtain ⟨here, rest⟩ := List.forall_mem_cons.mp same
      refine .link goes ?_
      rw [here]
      exact inductionHypothesis rest

theorem Strung.head_eq (strung : Strung ends next first nodes) (goes : ¬ends first) :
    nodes[0]? = some first := by
  cases strung with
  | stop stops => exact absurd stops goes
  | link _ _ => rfl

/-- A node is followed by the next one, or it is the last. -/
theorem Strung.next_of_get {j : Nat} (strung : Strung ends next first nodes)
    (here : nodes[j]? = some v) :
    ends (next v) ∧ nodes.length = j + 1 ∨
      ¬ends (next v) ∧ nodes[j + 1]? = some (next v) := by
  induction strung generalizing j with
  | stop _ => cases here
  | @link w nodes _ rest inductionHypothesis =>
      cases j with
      | zero =>
          cases here
          cases rest with
          | stop stops => exact .inl ⟨stops, rfl⟩
          | link goes _ => exact .inr ⟨goes, rfl⟩
      | succ j =>
          rcases inductionHypothesis here with ⟨stops, length⟩ | later
          · exact .inl ⟨stops, congrArg Nat.succ length⟩
          · exact .inr later

/-- The last node is linked to one that ends the chain so far. -/
theorem Strung.concat {j : Nat} (strung : Strung ends next first nodes)
    (last : nodes[j]? = some v) (length : nodes.length = j + 1)
    (same : ∀ u ∈ nodes, u ≠ v → next' u = next u) (linked : next' v = w) (goes : ¬ends w)
    (stops : ends (next' w)) : Strung ends next' first (nodes ++ [w]) := by
  have simple := strung.nodup
  induction strung generalizing j with
  | stop _ => cases last
  | @link u nodes onward rest inductionHypothesis =>
      obtain ⟨once, simple'⟩ := List.nodup_cons.mp simple
      cases j with
      | zero =>
          cases last
          obtain rfl : nodes = [] := List.length_eq_zero_iff.mp (Nat.succ.inj length)
          refine .link onward ?_
          rw [linked]
          exact .link goes (.stop stops)
      | succ j =>
          have member : v ∈ nodes := List.mem_of_getElem? last
          have differs : u ≠ v := by
            rintro rfl
            exact once member
          refine .link onward ?_
          rw [same u List.mem_cons_self differs]
          exact inductionHypothesis last (Nat.succ.inj length)
            (fun x inside => same x (List.mem_cons_of_mem _ inside)) simple'

end Strung

section Live

variable [DecidablePred ends]

/-- The number of nodes with a link to one that does not end the chain. -/
def live (ends : ν → Prop) [DecidablePred ends] (next : ν → ν) (nodes : Finset ν) : Nat :=
  (nodes.filter fun v => ¬ends (next v)).card

/-- The number falls when a link is replaced by one to an end. -/
theorem live_lt {nodes : Finset ν} (member : first ∈ nodes) (goes : ¬ends (next first))
    (stops : ends (next' first)) (others : ∀ v ∈ nodes, v ≠ first → next' v = next v) :
    live ends next' nodes < live ends next nodes := by
  refine Finset.card_lt_card ⟨fun v inside => ?_, fun all => ?_⟩
  · obtain ⟨isNode, goes'⟩ := Finset.mem_filter.mp inside
    have differs : v ≠ first := by
      rintro rfl
      exact goes' stops
    rw [others v isNode differs] at goes'
    exact Finset.mem_filter.mpr ⟨isNode, goes'⟩
  · have still := all (Finset.mem_filter.mpr ⟨member, goes⟩)
    exact (Finset.mem_filter.mp still).2 stops

end Live

section Update

variable [DecidableEq ν]

/-- Behind the first node, a chain does not need the link of the first node. -/
theorem linked_update (goes : ¬ends first) (stops : ends blank) : Linked ends next first w ↔
    w = first ∨ Linked ends (Function.update next first blank) (next first) w := by
  constructor
  · intro linked
    induction linked with
    | first _ => exact .inl rfl
    | @next v linked onward inductionHypothesis =>
        by_cases again : v = first
        · subst again
          exact .inr (.first onward)
        · have link := inductionHypothesis.resolve_left again
          have same : Function.update next first blank v = next v := Function.update_of_ne again _ _
          rw [← same] at onward ⊢
          exact .inr (.next link onward)
  · rintro (rfl | linked)
    · exact .first goes
    · induction linked with
      | first onward => exact .next (.first goes) onward
      | @next v linked onward inductionHypothesis =>
          have differs : v ≠ first := by
            rintro rfl
            rw [Function.update_self] at onward
            exact onward stops
          rw [Function.update_of_ne differs] at onward ⊢
          exact .next inductionHypothesis onward

end Update

end Opal.Library
