import Opal.Buddy.Balance

/-!
# Conservation of pages

`buddy_create` seeds the lists with the largest aligned blocks that fit into the usable
ranges.  From there on every allocation and every release of an outstanding block keeps
free and outstanding blocks apart and accounts for all usable pages.
-/

namespace Opal.Buddy

open Opal.Library

section Seed

variable {map : SectionMap}

theorem chooseOrder_spec {maxOrder pfn remaining : Nat} (bounded : maxOrder < maxOrders)
    {rounds k : Nat} (le : k ≤ maxOrder) (enough : maxOrder ≤ k + rounds) (dvd : 2 ^ k ∣ pfn)
    (fits : 2 ^ k ≤ remaining) :
    ∃ order, chooseOrder maxOrder pfn remaining rounds k = some order ∧ order ≤ maxOrder ∧
      2 ^ order ∣ pfn ∧ 2 ^ order ≤ remaining ∧
      (order < maxOrder → 2 ^ (order + 1) ∣ pfn → remaining < 2 ^ (order + 1)) := by
  induction rounds generalizing k with
  | zero => exact ⟨k, rfl, le, dvd, fits, fun below => absurd enough (not_le.mpr below)⟩
  | succ rounds ih =>
    unfold chooseOrder
    by_cases below : k + 1 ≤ maxOrder
    · rw [if_pos below, show orderPages (k + 1) = some (2 ^ (k + 1)) from
        if_pos (lt_of_le_of_lt below bounded)]
      simp only [Option.bind_eq_bind, Option.bind_some, Nat.and_two_pow_sub_one_eq_mod]
      by_cases stuck : pfn % 2 ^ (k + 1) ≠ 0 ∨ 2 ^ (k + 1) > remaining
      · rw [if_pos stuck]
        refine ⟨k, rfl, le, dvd, fits, fun _ larger => ?_⟩
        exact stuck.resolve_left (not_not.mpr (Nat.mod_eq_zero_of_dvd larger))
      · rw [if_neg stuck]
        obtain ⟨multiple, room⟩ := not_or.mp stuck
        exact ih below (by omega) (Nat.dvd_of_mod_eq_zero (not_not.mp multiple)) (not_lt.mp room)
    · rw [if_neg below]
      exact ⟨k, rfl, le, dvd, fits, fun lt => absurd lt below⟩

/-- The upper neighbour of a free lower half is not usable as a whole. -/
def Greedy (map : SectionMap) (s : State) : Prop :=
  ∀ b, Free s b → b.order < s.maxOrder → 2 ^ (b.order + 1) ∣ b.start →
    ∃ x, b.buddy.Has x ∧ ¬ Usable map x

theorem Greedy.not_free_buddy {s : State} {taken : Nat → Prop} (greedy : Greedy map s)
    (balanced : Balanced map s taken) {b : Block} (aligned : b.Aligned)
    (usable : ∀ x, b.Has x → Usable map x) (below : b.order < s.maxOrder)
    (own : 2 ^ (b.order + 1) ∣ b.start → ∃ x, b.buddy.Has x ∧ ¬ Usable map x) :
    ¬ Free s b.buddy := by
  intro free
  by_cases lower : 2 ^ (b.order + 1) ∣ b.start
  · obtain ⟨x, has, out⟩ := own lower
    exact out ((balanced.cover x).mpr (.inl ⟨_, free, has⟩))
  · have lowerBuddy : 2 ^ (b.buddy.order + 1) ∣ b.buddy.start := by
      obtain ⟨m, ⟨start, -⟩ | ⟨-, buddy⟩⟩ := aligned.cases
      · exact absurd ⟨m, start⟩ lower
      · exact ⟨m, buddy⟩
    obtain ⟨x, has, out⟩ := greedy b.buddy free below lowerBuddy
    rw [Block.buddy_buddy] at has
    exact out (usable x has)

theorem Balanced.of_empty {s : State} {pfn stop : Nat} {later : Nat → Prop}
    (balanced : Balanced map s fun x => (pfn ≤ x ∧ x < stop) ∨ later x) (reached : pfn = stop) :
    Balanced map s later :=
  balanced.congr fun x => ⟨fun either => either.resolve_left (by omega), .inr⟩

theorem addRangeLoop_spec (ok : WellFormed map) {stop : Nat} (wall : ¬ Usable map stop)
    {later : Nat → Prop} (after : ∀ x, later x → stop ≤ x) {rounds : Nat} {s : State} {pfn : Nat}
    (enough : stop ≤ pfn + rounds) (start : pfn ≤ stop) (greedy : Greedy map s)
    (balanced : Balanced map s fun x => (pfn ≤ x ∧ x < stop) ∨ later x)
    (counted : s.freePages = listedPages s) :
    ∃ s', addRangeLoop map stop rounds s pfn = some s' ∧ s'.maxOrder = s.maxOrder ∧
      Greedy map s' ∧ Balanced map s' later ∧ s'.freePages = listedPages s' ∧
      s'.freePages = s.freePages + (stop - pfn) := by
  induction rounds generalizing s pfn with
  | zero =>
    have reached : pfn = stop := by omega
    exact ⟨s, rfl, rfl, greedy, balanced.of_empty reached, counted, by omega⟩
  | succ rounds ih =>
    unfold addRangeLoop
    by_cases more : pfn < stop
    · rw [if_pos more]
      obtain ⟨order, eqOrder, le, dvd, fits, greedyOrder⟩ :=
        chooseOrder_spec balanced.core.bounded (Nat.zero_le s.maxOrder) (Nat.le_add_left _ 0)
          (one_dvd pfn) (show 2 ^ 0 ≤ stop - pfn by simp; omega)
      have inRange (x : Nat) (has : (⟨pfn, order⟩ : Block).Has x) : pfn ≤ x ∧ x < stop := by
        simp only [Block.Has, Block.size] at has
        omega
      have usable (x : Nat) (has : (⟨pfn, order⟩ : Block).Has x) : Usable map x :=
        (balanced.cover x).mpr (.inr (.inl (inRange x has)))
      have aligned : (⟨pfn, order⟩ : Block).Aligned := dvd
      -- the order was not raised, so the range ends inside the next larger block
      have own (below : order < s.maxOrder) (lower : 2 ^ (order + 1) ∣ pfn) :
          ∃ x, (⟨pfn, order⟩ : Block).buddy.Has x ∧ ¬ Usable map x := by
        refine ⟨stop, ?_, wall⟩
        have short := greedyOrder below lower
        rw [pow_succ] at short
        rw [Block.Aligned.buddy_lower lower]
        simp only [Block.Has, Block.size]
        omega
      obtain ⟨s₁, eqPush, pushed, balanced₁⟩ := balanced.listPush ok le aligned
        (fun x has => .inl (inRange x has))
        fun below => greedy.not_free_buddy balanced aligned usable below (own below)
      have greedy₁ : Greedy map { s₁ with freePages := s₁.freePages + 2 ^ order } := by
        intro c free below lower
        rcases (pushed.free c).mp free with rfl | old
        · exact own (pushed.maxOrder ▸ below) lower
        · exact greedy c old (pushed.maxOrder ▸ below) lower
      have rest (x : Nat) : ((pfn ≤ x ∧ x < stop) ∨ later x) ∧ ¬ (⟨pfn, order⟩ : Block).Has x ↔
          (pfn + 2 ^ order ≤ x ∧ x < stop) ∨ later x := by
        have past := after x
        simp only [Block.Has, Block.size]
        constructor
        · rintro ⟨either, out⟩
          exact either.imp_left (by omega)
        · rintro (between | isLater)
          · omega
          · exact ⟨.inr isLater, by have := past isLater; omega⟩
      have listed := pushed.listed
      have positive : 0 < 2 ^ order := Nat.pow_pos (by decide)
      obtain ⟨s₂, eqRest, max₂, greedy₂, balanced₂, counted₂, total₂⟩ :=
        @ih { s₁ with freePages := s₁.freePages + 2 ^ order } (pfn + 2 ^ order) (by omega)
          (by omega) greedy₁ ((balanced₁.congr rest).withCounters _ _ _) (by
            show s₁.freePages + 2 ^ order = listedPages s₁
            rw [listed, pushed.freePages, counted]
            rfl)
      refine ⟨s₂, ?_, max₂.trans pushed.maxOrder, greedy₂, balanced₂, counted₂, ?_⟩
      · rw [eqOrder]
        simp only [Option.bind_eq_bind, Option.bind_some, eqPush,
          orderPages_of_le balanced.core.bounded le]
        exact eqRest
      · have same := pushed.freePages
        simp only at total₂
        omega
    · rw [if_neg more]
      have reached : pfn = stop := by omega
      exact ⟨s, rfl, rfl, greedy, balanced.of_empty reached, counted, by omega⟩

/-- The number of usable pages of the map. -/
def usablePages (map : SectionMap) : Nat :=
  ((map.filter fun entry => entry.type = .usable).map fun entry => entry.len / pageSize).sum

theorem usable_cons {entry : Section} {rest : SectionMap} (type : entry.type = .usable) (x : Nat) :
    Usable (entry :: rest) x ↔ (entry.pfnStart ≤ x ∧ x < entry.pfnEnd) ∨ Usable rest x := by
  simp only [Usable, List.mem_cons, or_and_right, exists_or, exists_eq_left, type, true_and]

theorem usable_cons_of_ne {entry : Section} {rest : SectionMap} (type : entry.type ≠ .usable)
    (x : Nat) : Usable (entry :: rest) x ↔ Usable rest x := by
  simp only [Usable, List.mem_cons, or_and_right, exists_or, exists_eq_left, type, false_and,
    false_or]

/-- The frame after a usable section is not usable. -/
theorem WellFormed.not_usable_pfnEnd {front rest : SectionMap} {entry : Section}
    (ok : WellFormed (front ++ entry :: rest)) (type : entry.type = .usable) :
    ¬ Usable (front ++ entry :: rest) entry.pfnEnd := by
  rintro ⟨e, mem, typeE, low, high⟩
  obtain ⟨-, sortedRest, sortedFront⟩ := List.pairwise_append.mp ok.sorted
  obtain ⟨-, separateRest, -⟩ := List.pairwise_append.mp ok.separate
  have start := entry.pfnStart_le_pfnEnd
  rcases List.mem_append.mp mem with inFront | inBack
  · have before := Section.pfnEnd_le_pfnStart (sortedFront e inFront entry List.mem_cons_self)
    omega
  · rcases List.mem_cons.mp inBack with rfl | inRest
    · exact absurd high (lt_irrefl _)
    · have order := (List.pairwise_cons.mp sortedRest).1 e inRest
      have apart := (List.pairwise_cons.mp separateRest).1 e inRest type typeE
      obtain ⟨alignedAddr, alignedLen⟩ := ok.aligned entry (by simp) type
      obtain ⟨alignedE, -⟩ := ok.aligned e mem typeE
      simp only [Section.pfnEnd, Section.pfnStart, pageSize] at *
      omega

theorem prepareEntry_of_ne (map : SectionMap) (s : State) {entry : Section}
    (type : entry.type ≠ .usable) :
    ∃ reservedPages, prepareEntry map s entry = some { s with reservedPages } := by
  unfold prepareEntry
  cases kind : entry.type with
  | usable => exact absurd kind type
  | reserved => exact ⟨_, rfl⟩
  | metadata => exact ⟨s.reservedPages, rfl⟩

theorem prepare_spec (ok : WellFormed map) {front rest : SectionMap} (split : map = front ++ rest)
    {s : State} (greedy : Greedy map s) (balanced : Balanced map s (Usable rest))
    (counted : s.freePages = listedPages s) :
    ∃ s', rest.foldlM (prepareEntry map) s = some s' ∧ Balanced map s' (fun _ => False) ∧
      s'.freePages = listedPages s' ∧ s'.freePages = s.freePages + usablePages rest := by
  induction rest generalizing front s with
  | nil =>
    refine ⟨s, rfl, balanced.congr fun x => ?_, counted, rfl⟩
    simp [Usable]
  | cons entry rest ih =>
    have split' : map = (front ++ [entry]) ++ rest := by rw [split]; simp
    rw [List.foldlM_cons]
    by_cases type : entry.type = .usable
    · subst split
      have after (x : Nat) (usable : Usable rest x) : entry.pfnEnd ≤ x := by
        obtain ⟨e, mem, -, low, -⟩ := usable
        obtain ⟨-, sortedRest, -⟩ := List.pairwise_append.mp ok.sorted
        exact le_trans (Section.pfnEnd_le_pfnStart ((List.pairwise_cons.mp sortedRest).1 e mem)) low
      obtain ⟨s₁, eq, -, greedy₁, balanced₁, counted₁, total₁⟩ :=
        addRangeLoop_spec ok (ok.not_usable_pfnEnd type) after
          (show entry.pfnEnd ≤ entry.pfnStart + (entry.pfnEnd - entry.pfnStart) by omega)
          entry.pfnStart_le_pfnEnd greedy (balanced.congr (usable_cons type)) counted
      obtain ⟨s₂, eqRest, balanced₂, counted₂, total₂⟩ := ih split' greedy₁ balanced₁ counted₁
      refine ⟨s₂, ?_, balanced₂, counted₂, ?_⟩
      · simp only [prepareEntry, type, addRange, eq, Option.bind_eq_bind, Option.bind_some, eqRest]
      · have width : entry.pfnEnd - entry.pfnStart = entry.len / pageSize :=
          Nat.add_sub_cancel_left _ _
        simp only [usablePages, type, decide_true, List.filter_cons_of_pos, List.map_cons,
          List.sum_cons] at total₂ ⊢
        omega
    · obtain ⟨reservedPages, eq⟩ := prepareEntry_of_ne map s type
      obtain ⟨s₁, eqRest, balanced₁, counted₁, total₁⟩ :=
        ih (s := { s with reservedPages }) split' greedy
          ((balanced.congr (usable_cons_of_ne type)).withCounters _ _ _) counted
      refine ⟨s₁, ?_, balanced₁, counted₁, ?_⟩
      · rw [eq]
        exact eqRest
      · rw [total₁, usablePages, usablePages, List.filter_cons_of_neg (by simp [type])]

/-- The largest order the loop of `buddy_create` finds is a valid one. -/
theorem maxOrderLoop_spec (pfnEnd : Nat) {rounds k : Nat} (small : k < maxOrders) :
    ∃ order, maxOrderLoop pfnEnd rounds k = some order ∧ order < maxOrders := by
  induction rounds generalizing k with
  | zero => exact ⟨k, rfl, small⟩
  | succ rounds ih =>
    unfold maxOrderLoop
    by_cases next : k + 1 < maxOrders
    · rw [if_pos next, show orderPages (k + 1) = some (2 ^ (k + 1)) from if_pos next]
      simp only [Option.bind_eq_bind, Option.bind_some]
      split
      · exact ih next
      · exact ⟨k, rfl, small⟩
    · rw [if_neg next]
      exact ⟨k, rfl, small⟩

theorem WellFormed.section_unique (ok : WellFormed map) {x : Nat} {a b : Section} (memA : a ∈ map)
    (memB : b ∈ map) (inA : a.pfnStart ≤ x ∧ x < a.pfnEnd) (inB : b.pfnStart ≤ x ∧ x < b.pfnEnd) :
    a = b := by
  induction map with
  | nil => cases memA
  | cons entry rest ih =>
    rcases List.mem_cons.mp memA with rfl | restA <;> rcases List.mem_cons.mp memB with rfl | restB
    · rfl
    · have := ok.pfnStart_ge restB
      omega
    · have := ok.pfnStart_ge restA
      omega
    · exact ih ok.tail restA restB

theorem balanced_init (ok : WellFormed map) {maxOrder : Nat} (bounded : maxOrder < maxOrders) :
    Balanced map ⟨fun _ => [], maxOrder, 0, 0, 0, initialPage map⟩ (Usable map) := by
  have empty (b : Block) : ¬ Free ⟨fun _ => [], maxOrder, 0, 0, 0, initialPage map⟩ b :=
    List.not_mem_nil
  have noPage (x : Nat) : ¬ FreePage ⟨fun _ => [], maxOrder, 0, 0, 0, initialPage map⟩ x := by
    rintro ⟨b, free, -⟩
    exact empty b free
  refine ⟨?_, fun x => ?_, fun x free => absurd free (noPage x), fun b free =>
    absurd free (empty b),
    fun x usable => ?_⟩
  · refine { bounded := bounded, order := fun b free => absurd free (empty b),
             aligned := fun b free => absurd free (empty b),
             inside := fun b free => absurd free (empty b), nodup := fun _ => List.nodup_nil,
             apart := fun b _ free => absurd free (empty b), flag := fun x => ?_,
             head := fun x order => ?_ }
    · simp [noPage x, initialPage]
    · simp [initialPage]
  · simp [noPage x]
  · obtain ⟨e, mem, type, inside⟩ := usable
    simp only [initialPage, List.any_eq_false]
    intro other memOther
    simp only [decide_eq_true_eq, not_and]
    intro typeOther low high
    have same := ok.section_unique mem memOther inside ⟨low, high⟩
    rw [← same, type] at typeOther
    cases typeOther

/-- `buddy_create` passes its assertions and frees all usable pages. -/
theorem buddyCreate_spec (ok : WellFormed map) :
    ∃ s, buddyCreate map = some s ∧ Balanced map s (fun _ => False) ∧
      s.freePages = listedPages s ∧ s.freePages = usablePages map := by
  obtain ⟨maxOrder, eqMax, bounded⟩ :=
    @maxOrderLoop_spec (getPfnEnd map) maxOrders 0 (by decide)
  have greedy : Greedy map ⟨fun _ => [], maxOrder, 0, 0, 0, initialPage map⟩ :=
    fun b free => absurd free List.not_mem_nil
  obtain ⟨s, eq, balanced, counted, total⟩ := prepare_spec ok (List.nil_append map).symm greedy
    (balanced_init ok bounded) (by simp [listedPages])
  refine ⟨{ s with totalPages := s.freePages + s.reservedPages }, ?_, balanced.withCounters _ _ _,
    counted, ?_⟩
  · rw [buddyCreate, eqMax]
    simp only [Option.bind_eq_bind, Option.bind_some, eq]
  · rw [total]
    exact Nat.zero_add _

end Seed

section Run

variable {map : SectionMap}

/-- The states that allocations and releases reach, each with the blocks that are
outstanding.  A caller may regard an outstanding block as its two halves, and it frees
only outstanding blocks. -/
inductive Reaches (map : SectionMap) : State → Finset Block → Prop
  | create {s} : buddyCreate map = some s → Reaches map s ∅
  | fail {s held order s'} : Reaches map s held →
      buddyAlloc map s order = some (pfnInvalid, s') → Reaches map s' held
  | alloc {s held order pfn s'} : Reaches map s held →
      buddyAlloc map s order = some (pfn, s') → pfn ≠ pfnInvalid →
      Reaches map s' (insert ⟨pfn, order⟩ held)
  | halve {s held p k} : Reaches map s held → ⟨p, k + 1⟩ ∈ held →
      Reaches map s (insert ⟨p, k⟩ (insert ⟨p + 2 ^ k, k⟩ (held.erase ⟨p, k + 1⟩)))
  | free {s held b s'} : Reaches map s held → b ∈ held →
      buddyFree map s b.start b.order = some s' → Reaches map s' (held.erase b)

/-- What the lists, the descriptors and the counter say about free and outstanding
blocks. -/
structure Consistent (map : SectionMap) (s : State) (held : Finset Block) : Prop where
  once : ∀ order, (s.freeList order).Nodup
  apart : ∀ b c, Free s b → Free s c → b ≠ c → b.Apart c
  aligned : ∀ b, Free s b → b.Aligned
  inside : ∀ b, Free s b → ∃ entry ∈ map, entry.type = .usable ∧
    entry.pfnStart ≤ b.start ∧ b.start + b.size ≤ entry.pfnEnd
  heldApart : ∀ b c, b ∈ held → c ∈ held → b ≠ c → b.Apart c
  freeHeldApart : ∀ b c, Free s b → c ∈ held → b.Apart c
  pages : ∀ x, Usable map x ↔ FreePage s x ∨ ∃ b ∈ held, b.Has x
  total : s.freePages + ∑ b ∈ held, b.size = usablePages map
  counter : s.freePages = listedPages s
  freeFlag : ∀ x, (s.pages x).buddyFree = true ↔ FreePage s x
  headFlag : ∀ x order, ((s.pages x).buddyHead = true ∧ (s.pages x).buddyOrder = order) ↔
    Free s ⟨x, order⟩
  noPair : ∀ b, Free s b → b.order < s.maxOrder → ¬ Free s b.buddy

/-- The invariant behind consistency, with what callers know about their blocks. -/
structure Invariant (map : SectionMap) (s : State) (held : Finset Block) : Prop where
  balanced : Balanced map s fun x => ∃ b ∈ held, b.Has x
  order : ∀ b ∈ held, b.order ≤ s.maxOrder
  aligned : ∀ b ∈ held, b.Aligned
  apart : ∀ b ∈ held, ∀ c ∈ held, b ≠ c → b.Apart c
  counter : s.freePages = listedPages s
  total : s.freePages + ∑ b ∈ held, b.size = usablePages map

/-- A block of usable pages lies in one section, since usable sections do not touch. -/
theorem WellFormed.exists_section (ok : WellFormed map) {b : Block}
    (usable : ∀ x, b.Has x → Usable map x) :
    ∃ entry ∈ map, entry.type = .usable ∧ entry.pfnStart ≤ b.start ∧
      b.start + b.size ≤ entry.pfnEnd := by
  obtain ⟨entry, mem, type, low, high⟩ := usable b.start b.has_start
  refine ⟨entry, mem, type, low, ?_⟩
  by_contra beyond
  obtain ⟨front, rest, rfl⟩ := List.append_of_mem mem
  exact ok.not_usable_pfnEnd type (usable _ ⟨by omega, by omega⟩)

theorem Invariant.consistent (ok : WellFormed map) {s : State} {held : Finset Block}
    (inv : Invariant map s held) : Consistent map s held where
  once := inv.balanced.core.nodup
  apart := inv.balanced.core.apart
  aligned := inv.balanced.core.aligned
  inside b free := ok.exists_section fun x has => (inv.balanced.cover x).mpr (.inl ⟨b, free, has⟩)
  heldApart b c memB memC := inv.apart b memB c memC
  freeHeldApart b c free mem x hasB hasC := inv.balanced.apart x ⟨b, free, hasB⟩ ⟨c, mem, hasC⟩
  pages := inv.balanced.cover
  total := inv.total
  counter := inv.counter
  freeFlag := inv.balanced.core.flag
  headFlag := inv.balanced.core.head
  noPair := inv.balanced.noPair

theorem Invariant.alloc (ok : WellFormed map) {s s' : State} {held : Finset Block}
    (inv : Invariant map s held) {order pfn : Nat}
    (eq : buddyAlloc map s order = some (pfn, s')) (valid : pfn ≠ pfnInvalid) :
    Invariant map s' (insert ⟨pfn, order⟩ held) := by
  rcases buddyAlloc_spec ok inv.balanced inv.counter order with
    failed | ⟨p, t, eq', -, le, aligned, wasFree, max, counter, total, balanced⟩
  · rw [eq] at failed
    cases failed
    exact absurd rfl valid
  rw [eq] at eq'
  cases eq'
  have fresh (c : Block) (mem : c ∈ held) : (⟨pfn, order⟩ : Block).Apart c :=
    fun x has hasC => inv.balanced.apart x (wasFree x has) ⟨c, mem, hasC⟩
  have notMem : (⟨pfn, order⟩ : Block) ∉ held := fun mem => (fresh _ mem).ne rfl
  refine ⟨balanced.congr fun x => ?_, ?_, ?_, ?_, counter, ?_⟩
  · simp only [Finset.mem_insert, exists_eq_or_imp]
    exact or_comm
  · rw [max]
    exact Finset.forall_mem_insert _ _ _ |>.mpr ⟨le, inv.order⟩
  · exact Finset.forall_mem_insert _ _ _ |>.mpr ⟨aligned, inv.aligned⟩
  · intro b memB c memC ne
    rcases Finset.mem_insert.mp memB with rfl | oldB <;>
      rcases Finset.mem_insert.mp memC with rfl | oldC
    · exact absurd rfl ne
    · exact fresh c oldC
    · exact (fresh b oldB).symm
    · exact inv.apart b oldB c oldC ne
  · rw [Finset.sum_insert notMem]
    have before := inv.total
    simp only [Block.size] at before ⊢
    omega

theorem Invariant.free (ok : WellFormed map) {s s' : State} {held : Finset Block}
    (inv : Invariant map s held) {b : Block} (mem : b ∈ held)
    (eq : buddyFree map s b.start b.order = some s') : Invariant map s' (held.erase b) := by
  obtain ⟨t, eq', max, counter, total, balanced⟩ := buddyFree_spec ok inv.balanced inv.counter
    (inv.order b mem) (inv.aligned b mem) fun x has => ⟨b, mem, has⟩
  rw [eq] at eq'
  cases eq'
  refine ⟨balanced.congr fun x => ?_, ?_, ?_, ?_, counter, ?_⟩
  · constructor
    · rintro ⟨⟨c, memC, has⟩, out⟩
      exact ⟨c, Finset.mem_erase.mpr ⟨fun same => out (same ▸ has), memC⟩, has⟩
    · rintro ⟨c, memC, has⟩
      obtain ⟨ne, old⟩ := Finset.mem_erase.mp memC
      exact ⟨⟨c, old, has⟩, inv.apart c old b mem ne x has⟩
  · rw [max]
    exact fun c memC => inv.order c (Finset.mem_of_mem_erase memC)
  · exact fun c memC => inv.aligned c (Finset.mem_of_mem_erase memC)
  · exact fun c memC d memD =>
      inv.apart c (Finset.mem_of_mem_erase memC) d (Finset.mem_of_mem_erase memD)
  · have before := inv.total
    rw [← Finset.add_sum_erase _ _ mem] at before
    omega

theorem Invariant.halve {s : State} {held : Finset Block} (inv : Invariant map s held) {p k : Nat}
    (mem : ⟨p, k + 1⟩ ∈ held) :
    Invariant map s (insert ⟨p, k⟩ (insert ⟨p + 2 ^ k, k⟩ (held.erase ⟨p, k + 1⟩))) := by
  have aligned := inv.aligned _ mem
  have order : k + 1 ≤ s.maxOrder := inv.order _ mem
  have whole := Block.has_halves p k
  have rest (c : Block) (memC : c ∈ held.erase ⟨p, k + 1⟩) : (⟨p, k + 1⟩ : Block).Apart c :=
    inv.apart _ mem c (Finset.mem_of_mem_erase memC) (Finset.ne_of_mem_erase memC).symm
  have lowApart (c : Block) (memC : c ∈ insert (⟨p + 2 ^ k, k⟩ : Block) (held.erase ⟨p, k + 1⟩)) :
      (⟨p, k⟩ : Block).Apart c := by
    rcases Finset.mem_insert.mp memC with rfl | old
    · exact Block.apart_halves p k
    · exact (rest c old).mono fun x has => (whole x).mpr (.inl has)
  have highApart (c : Block) (memC : c ∈ held.erase ⟨p, k + 1⟩) :
      (⟨p + 2 ^ k, k⟩ : Block).Apart c :=
    (rest c memC).mono fun x has => (whole x).mpr (.inr has)
  refine ⟨inv.balanced.congr fun x => ?_, ?_, ?_, ?_, inv.counter, ?_⟩
  · simp only [Finset.mem_insert, exists_eq_or_imp]
    rw [← or_assoc, ← whole]
    constructor
    · rintro ⟨c, memC, has⟩
      by_cases same : c = ⟨p, k + 1⟩
      · exact .inl (same ▸ has)
      · exact .inr ⟨c, Finset.mem_erase.mpr ⟨same, memC⟩, has⟩
    · rintro (has | ⟨c, memC, has⟩)
      · exact ⟨_, mem, has⟩
      · exact ⟨c, Finset.mem_of_mem_erase memC, has⟩
  · simp only [Finset.forall_mem_insert]
    exact ⟨by omega, by omega, fun c memC => inv.order c (Finset.mem_of_mem_erase memC)⟩
  · simp only [Finset.forall_mem_insert]
    exact ⟨aligned.of_le (Nat.le_succ k), aligned.upper,
      fun c memC => inv.aligned c (Finset.mem_of_mem_erase memC)⟩
  · intro b memB c memC ne
    rcases Finset.mem_insert.mp memB with rfl | memB <;>
      rcases Finset.mem_insert.mp memC with rfl | memC
    · exact absurd rfl ne
    · exact lowApart c memC
    · exact (lowApart b memB).symm
    · rcases Finset.mem_insert.mp memB with rfl | oldB <;>
        rcases Finset.mem_insert.mp memC with rfl | oldC
      · exact absurd rfl ne
      · exact highApart c oldC
      · exact (highApart b oldB).symm
      · exact inv.apart b (Finset.mem_of_mem_erase oldB) c (Finset.mem_of_mem_erase oldC) ne
  · rw [Finset.sum_insert fun memL => (lowApart _ memL).ne rfl,
      Finset.sum_insert fun memH => (highApart _ memH).ne rfl]
    have before := inv.total
    rw [← Finset.add_sum_erase _ _ mem] at before
    simp only [Block.size, pow_succ, mul_two] at before ⊢
    omega

theorem Reaches.invariant (ok : WellFormed map) {s : State} {held : Finset Block}
    (reached : Reaches map s held) : Invariant map s held := by
  induction reached with
  | @create s eq =>
    obtain ⟨t, eq', balanced, counter, total⟩ := buddyCreate_spec ok
    rw [eq] at eq'
    cases eq'
    refine ⟨balanced.congr fun x => ?_, ?_, ?_, ?_, counter, ?_⟩ <;> simp [total]
  | @fail s held order s' _ eq ih =>
    rcases buddyAlloc_spec ok ih.balanced ih.counter order with
      same | ⟨pfn, t, eq', valid, -⟩
    · rw [eq] at same
      cases same
      exact ih
    · rw [eq] at eq'
      cases eq'
      exact absurd valid (lt_irrefl _)
  | alloc _ eq valid ih => exact ih.alloc ok eq valid
  | halve _ mem ih => exact ih.halve mem
  | free _ mem eq ih => exact ih.free ok mem eq

/-- `buddy_create` returns, and in every state that allocations and releases reach the
blocks are consistent and no assertion fires in the next call. -/
theorem conservation (map : SectionMap) (ok : WellFormed map) :
    (∃ s, buddyCreate map = some s) ∧
    ∀ s held, Reaches map s held → Consistent map s held ∧
      (∀ order, ∃ result, buddyAlloc map s order = some result) ∧
      ∀ b ∈ held, ∃ s', buddyFree map s b.start b.order = some s' := by
  obtain ⟨s, eq, -⟩ := buddyCreate_spec ok
  refine ⟨⟨s, eq⟩, fun t held reached => ?_⟩
  have inv := reached.invariant ok
  refine ⟨inv.consistent ok, fun order => ?_, fun b mem => ?_⟩
  · rcases buddyAlloc_spec ok inv.balanced inv.counter order with failed | ⟨pfn, t', found, -⟩
    · exact ⟨_, failed⟩
    · exact ⟨_, found⟩
  · obtain ⟨t', freed, -⟩ := buddyFree_spec ok inv.balanced inv.counter (inv.order b mem)
      (inv.aligned b mem) fun x has => ⟨b, mem, has⟩
    exact ⟨t', freed⟩

theorem conservation_two_sections :
    let map : SectionMap := [⟨0x1000, 0x5000, .usable⟩, ⟨0x6000, 0x1000, .metadata⟩,
      ⟨0x7000, 0x9000, .usable⟩]
    WellFormed map ∧ ∃ s, Reaches map s ∅ ∧ Consistent map s ∅ ∧ s.freePages = 14 := by
  have ok : WellFormed [⟨0x1000, 0x5000, .usable⟩, ⟨0x6000, 0x1000, .metadata⟩,
      ⟨0x7000, 0x9000, .usable⟩] := by
    refine ⟨?_, ?_, ?_, ?_⟩ <;> simp [pageSize]
  obtain ⟨⟨s, eq⟩, all⟩ := conservation _ ok
  have consistent := (all s ∅ (.create eq)).1
  refine ⟨ok, s, .create eq, consistent, ?_⟩
  have total := consistent.total
  rw [Finset.sum_empty, Nat.add_zero] at total
  rw [total]
  decide

end Run

end Opal.Buddy
