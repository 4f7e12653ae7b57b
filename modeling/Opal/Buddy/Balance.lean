import Opal.Buddy.Lists
import Mathlib.Data.List.Pairwise

/-!
# Allocation and release keep the balance

Every usable page is in a free block or taken, never both, and no two buddies below
the largest order are free together.  Taking a block from its list adds its pages to
the taken ones and putting a block into its list removes them; allocation and release
are runs of these two steps.
-/

namespace Opal.Buddy

open Opal.Library

section Sections

/-- The frame lies in a usable section. -/
def Usable (map : SectionMap) (x : Nat) : Prop :=
  ∃ entry ∈ map, entry.type = .usable ∧ entry.pfnStart ≤ x ∧ x < entry.pfnEnd

/-- A sorted map of disjoint sections, the usable ones page aligned and apart. -/
structure WellFormed (map : SectionMap) : Prop where
  bound : ∀ entry ∈ map, entry.addr + entry.len ≤ 2 ^ 64
  sorted : map.Pairwise fun a b => a.addr + a.len ≤ b.addr
  aligned : ∀ entry ∈ map, entry.type = .usable →
    pageSize ∣ entry.addr ∧ pageSize ∣ entry.len
  separate : map.Pairwise fun a b =>
    a.type = .usable → b.type = .usable → a.addr + a.len ≠ b.addr

namespace Section

theorem pfnStart_le_pfnEnd (entry : Section) : entry.pfnStart ≤ entry.pfnEnd :=
  Nat.le_add_right _ _

theorem pfnEnd_le (entry : Section) : entry.pfnEnd ≤ (entry.addr + entry.len) / pageSize := by
  simp only [pfnEnd, pfnStart, pageSize]
  omega

theorem pfnEnd_le_pfnStart {a b : Section} (before : a.addr + a.len ≤ b.addr) :
    a.pfnEnd ≤ b.pfnStart :=
  le_trans a.pfnEnd_le (Nat.div_le_div_right before)

end Section

variable {map : SectionMap}

theorem Usable.of_cons {entry : Section} {rest : SectionMap} {x : Nat} (usable : Usable rest x) :
    Usable (entry :: rest) x := by
  obtain ⟨e, mem, props⟩ := usable
  exact ⟨e, List.mem_cons_of_mem _ mem, props⟩

theorem WellFormed.tail {entry : Section} {rest : SectionMap}
    (ok : WellFormed (entry :: rest)) : WellFormed rest where
  bound e mem := ok.bound e (List.mem_cons_of_mem _ mem)
  sorted := (List.pairwise_cons.mp ok.sorted).2
  aligned e mem := ok.aligned e (List.mem_cons_of_mem _ mem)
  separate := (List.pairwise_cons.mp ok.separate).2

theorem WellFormed.pfnStart_ge {entry : Section} {rest : SectionMap}
    (ok : WellFormed (entry :: rest)) {e : Section} (mem : e ∈ rest) :
    entry.pfnEnd ≤ e.pfnStart :=
  Section.pfnEnd_le_pfnStart ((List.pairwise_cons.mp ok.sorted).1 e mem)

/-- `pfn_is_valid` finds every usable frame. -/
theorem WellFormed.pfnIsValid (ok : WellFormed map) {x : Nat} (usable : Usable map x) :
    pfnIsValid map x = true := by
  induction map with
  | nil =>
    obtain ⟨e, mem, -⟩ := usable
    cases mem
  | cons entry rest ih =>
    obtain ⟨e, mem, type, low, high⟩ := usable
    unfold Buddy.pfnIsValid
    rcases List.mem_cons.mp mem with rfl | inRest
    · rw [if_neg (not_lt.mpr low), if_pos high]
    · have after := ok.pfnStart_ge inRest
      have start := entry.pfnStart_le_pfnEnd
      rw [if_neg (by omega), if_neg (by omega)]
      exact ih ok.tail ⟨e, inRest, type, low, high⟩

/-- Usable frames have descriptors. -/
theorem WellFormed.lt_pfnEnd (ok : WellFormed map) {x : Nat} (usable : Usable map x) :
    x < getPfnEnd map := by
  obtain ⟨e, mem, -, -, high⟩ := usable
  obtain ⟨front, last, rfl⟩ := List.eq_nil_or_concat map |>.resolve_left (by rintro rfl; cases mem)
  rw [List.concat_eq_append] at ok mem ⊢
  rw [getPfnEnd, List.getLast?_concat]
  rcases List.mem_append.mp mem with inFront | isLast
  · have order := (List.pairwise_append.mp ok.sorted).2.2 e inFront last (by simp)
    have after := Section.pfnEnd_le_pfnStart order
    exact lt_of_lt_of_le high (le_trans after last.pfnStart_le_pfnEnd)
  · obtain rfl := List.mem_singleton.mp isLast
    exact high

theorem WellFormed.getPfnEnd_lt (ok : WellFormed map) : getPfnEnd map < pfnInvalid := by
  unfold getPfnEnd
  split
  · decide
  · rename_i last isLast
    have bound := ok.bound last (List.mem_of_getLast? isLast)
    have page := last.pfnEnd_le
    simp only [pageSize, pfnInvalid, uintptrMax] at *
    omega

end Sections

section Balance

variable {map : SectionMap}

/-- The pages are divided between the free blocks and the taken pages. -/
structure Balanced (map : SectionMap) (s : State) (taken : Nat → Prop) : Prop where
  core : Core map s
  cover : ∀ x, Usable map x ↔ FreePage s x ∨ taken x
  apart : ∀ x, FreePage s x → ¬ taken x
  noPair : ∀ b, Free s b → b.order < s.maxOrder → ¬ Free s b.buddy
  metadata : ∀ x, Usable map x → (s.pages x).metadata = false

theorem Balanced.congr {s : State} {taken other : Nat → Prop} (balanced : Balanced map s taken)
    (same : ∀ x, taken x ↔ other x) : Balanced map s other :=
  (funext fun x => propext (same x) : taken = other) ▸ balanced

/-- The counters play no part in the balance. -/
theorem Balanced.withCounters {s : State} {taken : Nat → Prop} (balanced : Balanced map s taken)
    (freePages reservedPages totalPages : Nat) :
    Balanced map { s with freePages, reservedPages, totalPages } taken where
  core :=
    { bounded := balanced.core.bounded, order := balanced.core.order,
      aligned := balanced.core.aligned, inside := balanced.core.inside,
      nodup := balanced.core.nodup, apart := balanced.core.apart, flag := balanced.core.flag,
      head := balanced.core.head }
  cover := balanced.cover
  apart := balanced.apart
  noPair := balanced.noPair
  metadata := balanced.metadata

theorem Block.le_pfnEnd (ok : WellFormed map) {b : Block} (usable : ∀ x, b.Has x → Usable map x) :
    b.start + b.size ≤ getPfnEnd map := by
  have last : b.Has (b.start + b.size - 1) := by
    have := b.size_pos
    constructor <;> omega
  have := ok.lt_pfnEnd (usable _ last)
  omega

variable {s : State} {taken : Nat → Prop} {b : Block}

theorem Balanced.listPush (ok : WellFormed map) (balanced : Balanced map s taken)
    (order : b.order ≤ s.maxOrder) (aligned : b.Aligned) (inside : ∀ x, b.Has x → taken x)
    (single : b.order < s.maxOrder → ¬ Free s b.buddy) :
    ∃ s', listPush map s b.order b.start = some s' ∧ Pushed map s b s' ∧
      Balanced map s' fun x => taken x ∧ ¬ b.Has x := by
  have usable (x : Nat) (has : b.Has x) : Usable map x :=
    (balanced.cover x).mpr (.inr (inside x has))
  have apart (c : Block) (free : Free s c) : b.Apart c :=
    fun x has hasC => balanced.apart x ⟨c, free, hasC⟩ (inside x has)
  obtain ⟨s', eq, pushed⟩ :=
    balanced.core.listPush order aligned (Block.le_pfnEnd ok usable) apart
  have page (x : Nat) : FreePage s' x ↔ b.Has x ∨ FreePage s x := by
    unfold FreePage
    simp only [pushed.free, or_and_right, exists_or, exists_eq_left]
  refine ⟨s', eq, pushed, pushed.core, fun x => ?_, fun x free => ?_, fun c freeC below => ?_, ?_⟩
  · rw [balanced.cover, page]
    by_cases has : b.Has x
    · simp [has, inside x has]
    · simp [has]
  · rintro ⟨isTaken, out⟩
    exact balanced.apart x ((page x).mp free |>.resolve_left out) isTaken
  · rw [pushed.maxOrder] at below
    rw [pushed.free] at freeC ⊢
    rintro (same | freeBuddy)
    · rcases freeC with rfl | old
      · exact aligned.apart_buddy.ne same.symm
      · have back : b.buddy = c := by rw [← same, Block.buddy_buddy]
        exact single (same ▸ below) (back ▸ old)
    · rcases freeC with rfl | old
      · exact single below freeBuddy
      · exact balanced.noPair c old below freeBuddy
  · intro x isUsable
    rw [pushed.metadata]
    exact balanced.metadata x isUsable

theorem Balanced.removed (balanced : Balanced map s taken) {s' : State}
    (free : Free s b) (removed : Removed map s b s') :
    Balanced map s' fun x => taken x ∨ b.Has x := by
  have page (x : Nat) : FreePage s' x ↔ FreePage s x ∧ ¬ b.Has x := by
    constructor
    · rintro ⟨c, freeC, has⟩
      obtain ⟨old, ne⟩ := (removed.free c).mp freeC
      exact ⟨⟨c, old, has⟩, balanced.core.apart c b old free ne x has⟩
    · rintro ⟨⟨c, old, has⟩, out⟩
      refine ⟨c, (removed.free c).mpr ⟨old, ?_⟩, has⟩
      rintro rfl
      exact out has
  have inFree (x : Nat) (has : b.Has x) : FreePage s x := ⟨b, free, has⟩
  refine ⟨removed.core, fun x => ?_, fun x freeX => ?_, fun c freeC below freeBuddy => ?_, ?_⟩
  · rw [balanced.cover, page]
    by_cases has : b.Has x
    · simp [has, inFree x has]
    · simp [has]
  · obtain ⟨old, out⟩ := (page x).mp freeX
    exact not_or.mpr ⟨balanced.apart x old, out⟩
  · rw [removed.maxOrder] at below
    exact balanced.noPair c ((removed.free c).mp freeC).1 below ((removed.free _).mp freeBuddy).1
  · intro x isUsable
    rw [removed.metadata]
    exact balanced.metadata x isUsable

end Balance

section Alloc

variable {map : SectionMap} {s : State}

theorem findOrder_spec (s : State) {rounds cur : Nat} (enough : s.maxOrder + 1 ≤ cur + rounds) :
    cur ≤ findOrder s rounds cur ∧
      (findOrder s rounds cur ≤ s.maxOrder → s.freeList (findOrder s rounds cur) ≠ []) := by
  induction rounds generalizing cur with
  | zero => exact ⟨le_refl _, fun le => absurd le (by simp only [findOrder]; omega)⟩
  | succ rounds ih =>
    unfold findOrder
    by_cases empty : cur ≤ s.maxOrder ∧ s.freeList cur = []
    · rw [if_pos empty]
      obtain ⟨low, found⟩ := @ih (cur + 1) (by omega)
      exact ⟨by omega, found⟩
    · rw [if_neg empty]
      exact ⟨le_refl _, fun le nil => empty ⟨le, nil⟩⟩

/-- Splitting gives back the upper halves and keeps the lowest block of the order. -/
theorem splitLoop_spec (ok : WellFormed map) {pfn order : Nat} {taken : Nat → Prop} {rounds : Nat}
    (balanced : Balanced map s taken) (le : order + rounds ≤ s.maxOrder)
    (aligned : (⟨pfn, order + rounds⟩ : Block).Aligned)
    (inside : ∀ x, (⟨pfn, order + rounds⟩ : Block).Has x → taken x) :
    ∃ s', splitLoop map pfn order rounds s = some s' ∧ Frame s s' ∧
      listedPages s' + 2 ^ order = listedPages s + 2 ^ (order + rounds) ∧
      Balanced map s' fun x => taken x ∧
        ((⟨pfn, order + rounds⟩ : Block).Has x → (⟨pfn, order⟩ : Block).Has x) := by
  induction rounds generalizing s taken with
  | zero =>
    refine ⟨s, rfl, ⟨rfl, rfl, fun _ => rfl⟩, rfl, balanced.congr fun x => ?_⟩
    simp
  | succ rounds ih =>
    have low := aligned.of_le (Nat.le_succ (order + rounds))
    have below : order + rounds ≤ s.maxOrder := Nat.le_of_succ_le le
    have whole := Block.has_halves pfn (order + rounds)
    have halves : (⟨pfn, order + rounds⟩ : Block).buddy =
        ⟨pfn + 2 ^ (order + rounds), order + rounds⟩ := aligned.buddy_lower
    -- the lower half is taken, so the upper half has no free buddy
    have single : ¬ Free s (⟨pfn + 2 ^ (order + rounds), order + rounds⟩ : Block).buddy := by
      rw [← halves, Block.buddy_buddy]
      exact fun free => balanced.apart pfn ⟨_, free, Block.has_start _⟩
        (inside pfn (Block.has_start ⟨pfn, order + (rounds + 1)⟩))
    obtain ⟨s₁, eqPush, pushed, balanced₁⟩ :=
      @Balanced.listPush _ _ _ ⟨pfn + 2 ^ (order + rounds), order + rounds⟩ ok balanced below
        aligned.upper (fun x has => inside x ((whole x).mpr (.inr has))) fun _ => single
    obtain ⟨s₂, eqRest, frame, listed, balanced₂⟩ := ih balanced₁
      (by rw [pushed.maxOrder]; exact below) low
      fun x has => ⟨inside x ((whole x).mpr (.inl has)), Block.apart_halves _ _ x has⟩
    refine ⟨s₂, ?_, pushed.toFrame.trans frame, ?_, balanced₂.congr fun x => ?_⟩
    · rw [splitLoop, orderPages_of_le balanced.core.bounded below]
      simp only [Option.bind_eq_bind, Option.bind_some]
      rw [eqPush]
      exact eqRest
    · have pushedPages := pushed.listed
      have double : 2 ^ (order + (rounds + 1)) = 2 ^ (order + rounds) + 2 ^ (order + rounds) := by
        rw [← Nat.add_assoc, pow_succ, mul_two]
      simp only [Block.size] at pushedPages
      omega
    · have split := whole x
      have exclusive := Block.apart_halves pfn (order + rounds) x
      have nested : (⟨pfn, order⟩ : Block).Has x → (⟨pfn, order + rounds⟩ : Block).Has x :=
        fun has => has.of_le (Nat.le_add_right _ _)
      rw [← Nat.add_assoc]
      tauto

/-- `buddy_alloc` reports failure and changes nothing, or hands out a free block of
the order. -/
theorem buddyAlloc_spec (ok : WellFormed map) {taken : Nat → Prop}
    (balanced : Balanced map s taken) (counted : s.freePages = listedPages s) (order : Nat) :
    buddyAlloc map s order = some (pfnInvalid, s) ∨
    ∃ pfn s', buddyAlloc map s order = some (pfn, s') ∧ pfn < pfnInvalid ∧
      order ≤ s.maxOrder ∧ (⟨pfn, order⟩ : Block).Aligned ∧
      (∀ x, (⟨pfn, order⟩ : Block).Has x → FreePage s x) ∧
      s'.maxOrder = s.maxOrder ∧ s'.freePages = listedPages s' ∧
      s'.freePages + 2 ^ order = s.freePages ∧
      Balanced map s' fun x => taken x ∨ (⟨pfn, order⟩ : Block).Has x := by
  unfold buddyAlloc
  by_cases tooLarge : order > s.maxOrder
  · exact .inl (if_pos tooLarge)
  rw [if_neg tooLarge]
  rw [gt_iff_lt, not_lt] at tooLarge
  obtain ⟨low, nonempty⟩ := @findOrder_spec s (s.maxOrder + 1 - order) order (by omega)
  generalize findOrder s (s.maxOrder + 1 - order) order = cur at *
  by_cases none : cur > s.maxOrder
  · exact .inl (if_pos none)
  right
  simp only [if_neg none]
  rw [gt_iff_lt, not_lt] at none
  obtain ⟨pfn, s₁, eqPop, free, removed⟩ := balanced.core.listPop (nonempty none)
  have balanced₁ := balanced.removed free removed
  obtain ⟨rounds, rfl⟩ := Nat.exists_eq_add_of_le low
  have aligned := balanced.core.aligned _ free
  obtain ⟨s₂, eqSplit, frame, listed, balanced₂⟩ := splitLoop_spec ok balanced₁
    (by rw [removed.maxOrder]; exact none) aligned fun x has => .inr has
  have nested (x : Nat) (has : (⟨pfn, order⟩ : Block).Has x) :
      (⟨pfn, order + rounds⟩ : Block).Has x := has.of_le (Nat.le_add_right _ _)
  have pages := orderPages_of_le balanced.core.bounded tooLarge
  have removedPages := removed.listed
  simp only [Block.size] at removedPages
  have samePages : s₂.freePages = s.freePages := frame.freePages.trans removed.freePages
  have enough : 2 ^ order ≤ s₂.freePages := by omega
  refine ⟨pfn, { s₂ with freePages := s₂.freePages - 2 ^ order }, ?_, ?_, tooLarge, ?_, ?_, ?_, ?_,
    ?_, ?_⟩
  · rw [eqPop]
    simp only [Option.bind_eq_bind, Option.bind_some]
    rw [Nat.add_sub_cancel_left, eqSplit, pages]
    simp only [Option.bind_some, if_pos enough]
  · have inside := balanced.core.inside _ free
    have bound := ok.getPfnEnd_lt
    simp only at inside
    omega
  · exact aligned.of_le (Nat.le_add_right _ _)
  · exact fun x has => ⟨_, free, nested x has⟩
  · exact frame.maxOrder.trans removed.maxOrder
  · show s₂.freePages - 2 ^ order = listedPages s₂
    omega
  · show s₂.freePages - 2 ^ order + 2 ^ order = s.freePages
    omega
  · have same (x : Nat) : ((taken x ∨ (⟨pfn, order + rounds⟩ : Block).Has x) ∧
        ((⟨pfn, order + rounds⟩ : Block).Has x → (⟨pfn, order⟩ : Block).Has x)) ↔
        taken x ∨ (⟨pfn, order⟩ : Block).Has x := by
      have inside := nested x
      have untaken : taken x → ¬ (⟨pfn, order + rounds⟩ : Block).Has x :=
        fun isTaken has => balanced.apart x ⟨_, free, has⟩ isTaken
      tauto
    exact (balanced₂.congr same).withCounters _ _ _

end Alloc

section Free

variable {map : SectionMap}

/-- The block the merging loop ends with: it is around the freed block, the pages it
added were free, and it has no free buddy any more. -/
structure Merged (map : SectionMap) (s : State) (taken : Nat → Prop) (b : Block) (s' : State)
    (b' : Block) : Prop extends Frame s s' where
  order : b'.order ≤ s.maxOrder
  aligned : b'.Aligned
  around : ∀ x, b.Has x → b'.Has x
  added : ∀ x, b'.Has x → b.Has x ∨ FreePage s x
  single : b'.order < s.maxOrder → ¬ Free s' b'.buddy
  listed : listedPages s' + b'.size = listedPages s + b.size
  balanced : Balanced map s' fun x => taken x ∨ b'.Has x

theorem Merged.refl {s : State} {taken : Nat → Prop} {b : Block}
    (balanced : Balanced map s taken) (order : b.order ≤ s.maxOrder) (aligned : b.Aligned)
    (inside : ∀ x, b.Has x → taken x) (single : b.order < s.maxOrder → ¬ Free s b.buddy) :
    Merged map s taken b s b where
  maxOrder := rfl
  freePages := rfl
  metadata _ := rfl
  order := order
  aligned := aligned
  around _ has := has
  added _ has := .inl has
  single := single
  listed := rfl
  balanced := balanced.congr fun x => ⟨.inl, fun either => either.elim id (inside x)⟩

theorem Balanced.pfnIsValid (ok : WellFormed map) {s : State} {taken : Nat → Prop}
    (balanced : Balanced map s taken) {b : Block} (free : Free s b) :
    pfnIsValid map b.start = true :=
  ok.pfnIsValid ((balanced.cover b.start).mpr (.inl ⟨b, free, b.has_start⟩))

/-- A round of the loop takes the buddy from its list and goes on with the parent. -/
theorem Merged.of_parent {s s₁ s' : State} {taken : Nat → Prop} {b b' : Block}
    (aligned : b.Aligned) (free : Free s b.buddy) (removed : Removed map s b.buddy s₁)
    (rest : Merged map s₁ (fun x => taken x ∨ b.buddy.Has x) b.parent s' b') :
    Merged map s taken b s' b' where
  toFrame := removed.toFrame.trans rest.toFrame
  order := removed.maxOrder ▸ rest.order
  aligned := rest.aligned
  around x has := rest.around x ((aligned.has_parent x).mpr (.inl has))
  added x has := by
    rcases rest.added x has with inParent | ⟨c, freeC, hasC⟩
    · exact ((aligned.has_parent x).mp inParent).imp_right fun inBuddy => ⟨_, free, inBuddy⟩
    · exact .inr ⟨c, ((removed.free c).mp freeC).1, hasC⟩
  single below := rest.single (removed.maxOrder.symm ▸ below)
  listed := by
    have listedRest := rest.listed
    have listedBuddy := removed.listed
    have sameSize : b.buddy.size = b.size := rfl
    rw [b.size_parent] at listedRest
    omega
  balanced := rest.balanced.congr fun x => by
    have inParent := aligned.has_parent x
    have around := rest.around x
    tauto

theorem mergeLoop_spec (ok : WellFormed map) {rounds : Nat} {s : State} {taken : Nat → Prop}
    {b : Block} (balanced : Balanced map s taken) (order : b.order ≤ s.maxOrder)
    (aligned : b.Aligned) (inside : ∀ x, b.Has x → taken x)
    (enough : s.maxOrder ≤ b.order + rounds) :
    ∃ s' b', mergeLoop map rounds s b.start b.order = some (s', b'.start, b'.order) ∧
      Merged map s taken b s' b' := by
  induction rounds generalizing s taken b with
  | zero =>
    exact ⟨s, b, rfl, .refl balanced order aligned inside
      fun below => absurd enough (not_le.mpr below)⟩
  | succ rounds ih =>
    unfold mergeLoop
    by_cases below : b.order < s.maxOrder
    · rw [if_pos below, orderPages_of_le balanced.core.bounded order]
      simp only [Option.bind_eq_bind, Option.bind_some]
      have buddyStart : b.start ^^^ 2 ^ b.order = b.buddy.start := rfl
      rw [buddyStart]
      have isHead := @Core.isFreeHeadOfOrder_iff _ _ b.buddy balanced.core (balanced.pfnIsValid ok)
      by_cases free : Free s b.buddy
      · have room : ¬ (b.buddy.start ≥ getPfnEnd map ∨
            ¬ isFreeHeadOfOrder map s b.buddy.start b.order = true) := by
          have inEnd := balanced.core.inside _ free
          have positive := b.buddy.size_pos
          rw [not_or, not_not]
          exact ⟨by omega, isHead.mpr free⟩
        rw [if_neg room]
        obtain ⟨s₁, eqRemove, removed⟩ :=
          balanced.core.listRemove free (balanced.pfnIsValid ok free)
        have eqRemove : listRemove map s b.order b.buddy.start = some s₁ := eqRemove
        rw [eqRemove]
        simp only [Option.bind_some]
        have parentStart : (if b.buddy.start < b.start then b.buddy.start else b.start) =
            b.parent.start := by
          rw [Block.parent, buddyStart.symm]
          simp only [Block.size]
          split <;> omega
        rw [parentStart]
        have insideParent (x : Nat) (has : b.parent.Has x) : taken x ∨ b.buddy.Has x :=
          ((aligned.has_parent x).mp has).imp_left (inside x)
        have next : b.parent.order = b.order + 1 := rfl
        obtain ⟨s', b', eq, merged⟩ := @ih s₁ _ b.parent (balanced.removed free removed)
          (by rw [removed.maxOrder, next]; exact below) aligned.parent insideParent
          (by rw [removed.maxOrder, next]; omega)
        exact ⟨s', b', eq, .of_parent aligned free removed merged⟩
      · have noHead : ¬ isFreeHeadOfOrder map s b.buddy.start b.order = true :=
          fun head => free (isHead.mp head)
        rw [if_pos (.inr noHead)]
        exact ⟨s, b, rfl, .refl balanced order aligned inside fun _ => free⟩
    · rw [if_neg below]
      exact ⟨s, b, rfl, .refl balanced order aligned inside fun lt => absurd lt below⟩

/-- `buddy_free` of a taken block passes its assertions and gives the pages back. -/
theorem buddyFree_spec (ok : WellFormed map) {s : State} {taken : Nat → Prop} {b : Block}
    (balanced : Balanced map s taken) (counted : s.freePages = listedPages s)
    (order : b.order ≤ s.maxOrder) (aligned : b.Aligned) (inside : ∀ x, b.Has x → taken x) :
    ∃ s', buddyFree map s b.start b.order = some s' ∧ s'.maxOrder = s.maxOrder ∧
      s'.freePages = listedPages s' ∧ s'.freePages = s.freePages + b.size ∧
      Balanced map s' fun x => taken x ∧ ¬ b.Has x := by
  have usable : Usable map b.start := (balanced.cover _).mpr (.inr (inside _ b.has_start))
  have notFree : (s.pages b.start).buddyFree = false := by
    rw [← Bool.not_eq_true, balanced.core.flag]
    exact fun free => balanced.apart _ free (inside _ b.has_start)
  have isUsable : pageIsUsable map s b.start = true := by
    rw [pageIsUsable, ok.pfnIsValid usable, balanced.metadata _ usable]
    rfl
  have multiple : b.start &&& (2 ^ b.order - 1) = 0 := by
    rw [Nat.and_two_pow_sub_one_eq_mod]
    exact Nat.mod_eq_zero_of_dvd aligned
  obtain ⟨s₁, b', eqMerge, merged⟩ := mergeLoop_spec ok balanced order aligned inside
    (show s.maxOrder ≤ b.order + (s.maxOrder - b.order) by omega)
  obtain ⟨s₂, eqPush, pushed, balanced₂⟩ := merged.balanced.listPush ok
    (merged.maxOrder.symm ▸ merged.order) merged.aligned (fun x has => .inr has)
    (merged.maxOrder.symm ▸ merged.single)
  have listed₁ := merged.listed
  have listed₂ := pushed.listed
  have samePages : s₂.freePages = s.freePages := pushed.freePages.trans merged.freePages
  refine ⟨{ s₂ with freePages := s₂.freePages + 2 ^ b.order }, ?_,
    pushed.maxOrder.trans merged.maxOrder, ?_, ?_, ?_⟩
  · rw [buddyFree, if_neg (not_not.mpr ⟨order, isUsable⟩),
      orderPages_of_le balanced.core.bounded order]
    have below := ok.lt_pfnEnd usable
    simp only [Option.bind_eq_bind, Option.bind_some, multiple, notFree, eqMerge, eqPush]
    rw [if_neg (by simp; omega)]
  · show s₂.freePages + 2 ^ b.order = listedPages s₂
    simp only [Block.size] at listed₁ listed₂
    omega
  · show s₂.freePages + 2 ^ b.order = s.freePages + b.size
    simp only [Block.size]
    omega
  · refine (balanced₂.congr fun x => ?_).withCounters _ _ _
    constructor
    · rintro ⟨either, out⟩
      exact ⟨either.resolve_right out, fun has => out (merged.around x has)⟩
    · rintro ⟨isTaken, out⟩
      refine ⟨.inl isTaken, fun has => ?_⟩
      rcases merged.added x has with inB | free
      · exact out inB
      · exact balanced.apart x free isTaken

end Free

end Opal.Buddy
