import Opal.Basic
import Mathlib.Algebra.Group.Nat.Defs
import Mathlib.Logic.Function.Basic

/-!
# The buddy allocator of page frames

The state holds the allocator and the part of the page descriptors it owns.  A
function returns `none` when one of its assertions fires, among them those of
`pfn_to_page` and the unlinking of a descriptor that is in no list.
-/

namespace Opal.Buddy

def pageSize : Nat := 4096

/-- `BUDDY_MAX_ORDERS`, the width of a page frame number. -/
def maxOrders : Nat := 52

def pfnInvalid : Nat := uintptrMax

section Sections

inductive SectionType where
  | metadata
  | reserved
  | usable
  deriving DecidableEq, Repr

structure Section where
  addr : Nat
  len : Nat
  type : SectionType
  deriving DecidableEq, Repr

namespace Section

def pfnStart (entry : Section) : Nat := entry.addr / pageSize

def pfnEnd (entry : Section) : Nat := entry.pfnStart + entry.len / pageSize

end Section

abbrev SectionMap := List Section

def getPfnEnd (map : SectionMap) : Nat :=
  match map.getLast? with
  | none => 0
  | some entry => entry.pfnEnd

def pfnIsValid : SectionMap → Nat → Bool
  | [], _ => false
  | entry :: rest, pfn =>
      if pfn < entry.pfnStart then false
      else if pfn < entry.pfnEnd then true
      else pfnIsValid rest pfn

end Sections

section State

structure Page where
  metadata : Bool
  buddyFree : Bool
  buddyHead : Bool
  buddyOrder : Nat
  deriving DecidableEq, Repr

/-- The descriptor of a frame after `initialize_pages`. -/
def initialPage (map : SectionMap) (pfn : Nat) : Page where
  metadata := map.any fun entry =>
    entry.type = .metadata ∧ entry.pfnStart ≤ pfn ∧ pfn < entry.pfnEnd
  buddyFree := false
  buddyHead := false
  buddyOrder := 0

structure State where
  freeList : Nat → List Nat
  maxOrder : Nat
  freePages : Nat
  reservedPages : Nat
  totalPages : Nat
  pages : Nat → Page

def orderPages (order : Nat) : Option Nat :=
  if order < maxOrders then some (2 ^ order) else none

end State

section Lists

variable (map : SectionMap)

def pageIsUsable (s : State) (pfn : Nat) : Bool :=
  pfnIsValid map pfn && !(s.pages pfn).metadata

def setBlockFreeState (s : State) (pfn order : Nat) (isFree : Bool) : Option State := do
  let pages ← orderPages order
  if pfn + pages ≤ getPfnEnd map then
    some { s with
      pages := fun x =>
        if pfn ≤ x ∧ x < pfn + pages then
          { s.pages x with buddyFree := isFree, buddyHead := false }
        else s.pages x }
  else none

def listPush (s : State) (order pfn : Nat) : Option State := do
  let s ← setBlockFreeState map s pfn order true
  some { s with
    pages := Function.update s.pages pfn
      { s.pages pfn with buddyFree := true, buddyHead := true, buddyOrder := order }
    freeList := Function.update s.freeList order (pfn :: s.freeList order) }

/-- What `list_pop` and `list_remove` do with a descriptor after it left its list. -/
def unmark (s : State) (order pfn : Nat) : Option State := do
  let s ← setBlockFreeState map s pfn order false
  some { s with
    pages := Function.update s.pages pfn { s.pages pfn with buddyHead := false, buddyOrder := 0 } }

def listPop (s : State) (order : Nat) : Option (Nat × State) :=
  match s.freeList order with
  | [] => none
  | head :: rest => do
      let s ← unmark map { s with freeList := Function.update s.freeList order rest } order head
      some (head, s)

def isFreeHeadOfOrder (s : State) (pfn order : Nat) : Bool :=
  pfnIsValid map pfn && (s.pages pfn).buddyFree && (s.pages pfn).buddyHead &&
    (s.pages pfn).buddyOrder == order

def listRemove (s : State) (order pfn : Nat) : Option State :=
  if isFreeHeadOfOrder map s pfn order ∧ pfn ∈ s.freeList order then
    unmark map { s with
      freeList := Function.update s.freeList order ((s.freeList order).erase pfn) } order pfn
  else none

end Lists

section Create

/-- The inner loop of `add_range`, which takes at most `maxOrder` rounds. -/
def chooseOrder (maxOrder pfn remaining : Nat) : Nat → Nat → Option Nat
  | 0, order => some order
  | rounds + 1, order =>
      if order + 1 ≤ maxOrder then do
        let block ← orderPages (order + 1)
        if pfn &&& (block - 1) ≠ 0 ∨ block > remaining then some order
        else chooseOrder maxOrder pfn remaining rounds (order + 1)
      else some order

/-- The outer loop of `add_range`, which takes at most `stop - pfn` rounds. -/
def addRangeLoop (map : SectionMap) (stop : Nat) : Nat → State → Nat → Option State
  | 0, s, _ => some s
  | rounds + 1, s, pfn =>
      if pfn < stop then do
        let order ← chooseOrder s.maxOrder pfn (stop - pfn) s.maxOrder 0
        let s ← listPush map s order pfn
        let pages ← orderPages order
        addRangeLoop map stop rounds { s with freePages := s.freePages + pages } (pfn + pages)
      else some s

def addRange (map : SectionMap) (s : State) (start stop : Nat) : Option State :=
  addRangeLoop map stop (stop - start) s start

def prepareEntry (map : SectionMap) (s : State) (entry : Section) : Option State :=
  match entry.type with
  | .usable => addRange map s entry.pfnStart entry.pfnEnd
  | .reserved =>
      some { s with reservedPages := s.reservedPages + (entry.pfnEnd - entry.pfnStart) }
  | .metadata => some s

/-- The loop of `buddy_create` that finds the largest order. -/
def maxOrderLoop (pfnEnd : Nat) : Nat → Nat → Option Nat
  | 0, order => some order
  | rounds + 1, order =>
      if order + 1 < maxOrders then do
        let pages ← orderPages (order + 1)
        if pages ≤ pfnEnd then maxOrderLoop pfnEnd rounds (order + 1) else some order
      else some order

def buddyCreate (map : SectionMap) : Option State := do
  let maxOrder ← maxOrderLoop (getPfnEnd map) maxOrders 0
  let s ← map.foldlM (prepareEntry map) ⟨fun _ => [], maxOrder, 0, 0, 0, initialPage map⟩
  some { s with totalPages := s.freePages + s.reservedPages }

end Create

section Interface

/-- The search of `buddy_alloc`: the first order with a free block. -/
def findOrder (s : State) : Nat → Nat → Nat
  | 0, cur => cur
  | rounds + 1, cur =>
      if cur ≤ s.maxOrder ∧ s.freeList cur = [] then findOrder s rounds (cur + 1) else cur

/-- The splitting loop of `buddy_alloc` from `order + rounds` down to `order`. -/
def splitLoop (map : SectionMap) (pfn order : Nat) : Nat → State → Option State
  | 0, s => some s
  | rounds + 1, s => do
      let pages ← orderPages (order + rounds)
      let s ← listPush map s (order + rounds) (pfn + pages)
      splitLoop map pfn order rounds s

def buddyAlloc (map : SectionMap) (s : State) (order : Nat) : Option (Nat × State) :=
  if order > s.maxOrder then some (pfnInvalid, s)
  else
    let cur := findOrder s (s.maxOrder + 1 - order) order
    if cur > s.maxOrder then some (pfnInvalid, s)
    else do
      let (pfn, s) ← listPop map s cur
      let s ← splitLoop map pfn order (cur - order) s
      let pages ← orderPages order
      if pages ≤ s.freePages then some (pfn, { s with freePages := s.freePages - pages })
      else none

/-- The merging loop of `buddy_free`, which takes at most `maxOrder - order` rounds. -/
def mergeLoop (map : SectionMap) : Nat → State → Nat → Nat → Option (State × Nat × Nat)
  | 0, s, pfn, order => some (s, pfn, order)
  | rounds + 1, s, pfn, order =>
      if order < s.maxOrder then do
        let pages ← orderPages order
        let buddyPfn := pfn ^^^ pages
        if buddyPfn ≥ getPfnEnd map ∨ ¬ isFreeHeadOfOrder map s buddyPfn order then
          some (s, pfn, order)
        else do
          let s ← listRemove map s order buddyPfn
          mergeLoop map rounds s (if buddyPfn < pfn then buddyPfn else pfn) (order + 1)
      else some (s, pfn, order)

def buddyFree (map : SectionMap) (s : State) (pfn order : Nat) : Option State :=
  if ¬ (order ≤ s.maxOrder ∧ pageIsUsable map s pfn) then none
  else do
    let pages ← orderPages order
    if pfn &&& (pages - 1) ≠ 0 ∨ pfn ≥ getPfnEnd map ∨ (s.pages pfn).buddyFree then none
    else do
      let (s, head, merged) ← mergeLoop map (s.maxOrder - order) s pfn order
      let s ← listPush map s merged head
      some { s with freePages := s.freePages + pages }

end Interface

end Opal.Buddy
