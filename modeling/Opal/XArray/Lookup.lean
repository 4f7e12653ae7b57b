import Opal.XArray.Node
import Mathlib.Algebra.Order.Group.Nat
import Mathlib.Data.Nat.Bitwise

/-!
# What a node of an xarray maps

The indices below a slot of level `l` are those with one quotient by `64 ^ l`.  The
slots of the node with quotient `q` have the quotients `64 * q + i`, so the walk of
`xarray_get` is repeated division.
-/

namespace Opal.XArray

section Words

theorem testBit_one (i : Nat) : Nat.testBit 1 i = decide (i = 0) := by
  cases i <;> simp [Nat.testBit_succ]

theorem payload_or_flag {value : Nat} (even : value % 2 = 0) (fits : value < 2 ^ 64) :
    payload (value ||| flagValue) = value := by
  apply Nat.eq_of_testBit_eq
  intro i
  have mask : Nat.testBit (uint64Max - flagMask) i = (decide (i < 64) && !decide (i = 0)) := by
    rw [← testBit_one]
    exact Nat.testBit_two_pow_sub_succ (show 1 < 2 ^ 64 by decide) i
  rw [payload, Nat.testBit_and, Nat.testBit_or, mask, flagValue, testBit_one]
  by_cases low : i = 0
  · subst low
    simp [Nat.testBit_zero, even]
  · by_cases inWord : i < 64
    · simp [low, inWord]
    · have high : value.testBit i = false :=
        Nat.testBit_lt_two_pow (lt_of_lt_of_le fits (Nat.pow_le_pow_right (by decide) (by omega)))
      simp [high, low]

theorem isValue_or_flag (value : Nat) : isValue (value ||| flagValue) = true := by
  have bit : Nat.testBit ((value ||| flagValue) &&& flagValue) 0 = true := by
    simp [flagValue]
  rw [isValue, bne_iff_ne]
  intro zero
  simp [zero] at bit

@[simp] theorem isValue_zero : isValue 0 = false := by decide

@[simp] theorem payload_zero : payload 0 = 0 := by decide

theorem shr64_eq {a : Nat} (b : Nat) (fits : a < 2 ^ 64) : shr64 a b = a / 2 ^ b := by
  rw [shr64]
  split
  · rename_i big
    exact (Nat.div_eq_of_lt (lt_of_lt_of_le fits (Nat.pow_le_pow_right (by decide) big))).symm
  · exact Nat.shiftRight_eq_div_pow a b

theorem addmulU64Checked_eq (base mulA mulB : Nat) :
    addmulU64Checked base mulA mulB =
      if base + mulA * mulB < 2 ^ 64 then some (base + mulA * mulB) else none := by
  rw [addmulU64Checked]
  by_cases overflow : mulA ≠ 0 ∧ mulB > uint64Max / mulA
  · have large : uint64Max < mulA * mulB := by
      have := (Nat.div_lt_iff_lt_mul (Nat.pos_of_ne_zero overflow.1)).mp overflow.2
      rwa [mul_comm]
    rw [if_pos overflow, if_neg]
    simp only [uint64Max] at large
    omega
  · rw [if_neg overflow]
    have small : mulA * mulB ≤ uint64Max := by
      by_cases zero : mulA = 0
      · simp [zero]
      · have bound : mulB ≤ uint64Max / mulA := not_lt.mp fun big => overflow ⟨zero, big⟩
        rw [mul_comm]
        exact (Nat.le_div_iff_mul_le (Nat.pos_of_ne_zero zero)).mp bound
    have bound : uint64Max = 2 ^ 64 - 1 := rfl
    by_cases large : base > uint64Max - mulA * mulB
    · rw [if_pos large, if_neg (by omega)]
    · rw [if_neg large, if_pos (by omega)]

end Words

section Quotients

/-- The number of indices below a slot of the level. -/
def span (level : Nat) : Nat := 2 ^ (level * slotBits)

theorem span_pos (level : Nat) : 0 < span level := Nat.pow_pos (by decide)

@[simp] theorem span_zero : span 0 = 1 := by decide

theorem span_succ (level : Nat) : span (level + 1) = span level * slotSize := by
  rw [span, span, slotSize, add_mul, one_mul, pow_add]

theorem div_span_succ (index : Nat) (level : Nat) :
    index / span (level + 1) = index / span level / slotSize := by
  rw [span_succ, Nat.div_div_eq_div_mul]

theorem slotIndex_val {index : Nat} (fits : index < 2 ^ 64) (level : Nat) :
    (slotIndex index (level * slotBits)).val = index / span level % slotSize := by
  have quotient := shr64_eq (level * slotBits) fits
  show shr64 index (level * slotBits) &&& (slotSize - 1) = _
  rw [quotient]
  exact Nat.and_two_pow_sub_one_eq_mod _ slotBits

/-- The slot of an index in the node with quotient `q`. -/
theorem slotIndex_eq_iff {index : Nat} (fits : index < 2 ^ 64) {level q : Nat}
    (inside : index / span (level + 1) = q) (i : Fin slotSize) :
    slotIndex index (level * slotBits) = i ↔ index / span level = slotSize * q + i := by
  rw [← Fin.val_inj, slotIndex_val fits]
  rw [div_span_succ] at inside
  have split := Nat.div_add_mod (index / span level) slotSize
  rw [inside] at split
  have bound := i.isLt
  have unique : (slotSize * q + i.val) % slotSize = i.val := by
    rw [Nat.mul_add_mod, Nat.mod_eq_of_lt bound]
  constructor
  · intro same
    rw [← split, same]
  · intro same
    rw [same, unique]

/-- The offset of an index in its slot. -/
theorem and_span (index : Nat) (level : Nat) :
    index &&& (2 ^ (level * slotBits) - 1) = index % span level :=
  Nat.and_two_pow_sub_one_eq_mod _ _

end Quotients

section Slots

/-- What `xarray_get` returns when it meets this slot at the level. -/
def readSlot (stride : Nat) (index : Nat) (level : Nat) : Slot → Except Fault Nat
  | .node child => getNode stride index level child
  | .word slot =>
      if isValue slot then .ok (storedValue stride index (level * slotBits) slot)
      else if payload slot = 0 then .ok 0
      else if level = 0 then .error .panic
      else .error .wildPointer

theorem getNode_succ (stride : Nat) (index : Nat) (level : Nat) (node : Node) :
    getNode stride index (level + 1) node =
      readSlot stride index level (node (slotIndex index (level * slotBits))) := by
  rw [getNode]
  cases node (slotIndex index (level * slotBits)) <;> rfl

@[simp] theorem readSlot_zero (stride : Nat) (index : Nat) (level : Nat) :
    readSlot stride index level (.word 0) = .ok 0 := by
  simp [readSlot]

theorem getNode_empty (stride : Nat) (index : Nat) (level : Nat) :
    getNode stride index (level + 1) emptyNode = .ok 0 := by
  rw [getNode_succ, emptyNode, readSlot_zero]

/-- A slot of the level holds a value, a node of the level below, or nothing. -/
inductive WfSlot : Nat → Slot → Prop
  | word {level slot} : isValue slot = true ∨ slot = 0 → WfSlot level (.word slot)
  | node {level slots} : (∀ i, WfSlot level (slots i)) → WfSlot (level + 1) (.node slots)

theorem wfSlot_empty (level : Nat) (i : Fin slotSize) : WfSlot level (emptyNode i) :=
  .word (.inr rfl)

/-- Below a slot of the level with quotient `s` a whole slot of a level `l` above
the lowest, the one with quotient `t`, is stored as one value. -/
inductive CompressedSlot : Nat → Nat → Slot → Nat → Nat → Prop
  | here {level s slot} : isValue slot = true →
      CompressedSlot (level + 1) s (.word slot) (level + 1) s
  | child {level s slots i l t} : CompressedSlot level (slotSize * s + i.val) (slots i) l t →
      CompressedSlot (level + 1) s (.node slots) l t

theorem not_compressedSlot_empty {level s l t : Nat} {i : Fin slotSize} :
    ¬ CompressedSlot level s (emptyNode i) l t := by
  intro compressed
  cases compressed with
  | here value => simp at value

/-- The child below a slot that stores no value. -/
theorem childOf_spec {level : Nat} {slot : Slot} (wf : WfSlot (level + 1) slot)
    (plain : ∀ word, slot = .word word → isValue word = false) (stride shift : Nat)
    (mem : AllocOracle) :
    (∃ later, childOf stride shift slot mem = .ok (none, later)) ∨
    ∃ child later, childOf stride shift slot mem = .ok (some child, later) ∧
      (∀ i, WfSlot level (child i)) ∧
      (∀ index, readSlot stride index (level + 1) slot = getNode stride index (level + 1) child) ∧
      ∀ s (i : Fin slotSize) l t, CompressedSlot level (slotSize * s + i.val) (child i) l t →
        CompressedSlot (level + 1) s slot l t := by
  cases wf with
  | node wfs =>
    exact .inr ⟨_, mem, rfl, wfs, fun _ => rfl, fun _ _ _ _ compressed => .child compressed⟩
  | word cases =>
    obtain zero := cases.resolve_left (by simp [plain _ rfl])
    subst zero
    by_cases allocated : mem.head = true
    · right
      refine ⟨emptyNode, mem.tail, by simp [childOf, allocated], wfSlot_empty level, ?_, ?_⟩
      · intro index
        rw [readSlot_zero, getNode_empty]
      · exact fun _ _ _ _ compressed => absurd compressed not_compressedSlot_empty
    · exact .inl ⟨mem.tail, by simp [childOf, allocated]⟩

/-- A value stored at a whole slot gives each of its indices its own value. -/
theorem readSlot_value {stride level : Nat} {index : Nat} {value : Nat}
    (even : value % 2 = 0) (fits : value + index % span level * stride < 2 ^ 64) :
    readSlot stride index level (.word (value ||| flagValue)) =
      .ok (value + index % span level * stride) := by
  have valueFits : value < 2 ^ 64 := lt_of_le_of_lt (Nat.le_add_right _ _) fits
  rw [readSlot, if_pos (isValue_or_flag value), storedValue, payload_or_flag even valueFits,
    and_span, Nat.mod_eq_of_lt fits]

end Slots

section Depth

/-- The array has at least one level, no more than 64-bit indices need, and its
slots are well-formed. -/
structure Wf (xa : Xarray) : Prop where
  depth : 1 ≤ xa.depth
  bound : xa.depth ≤ 11
  slots : ∀ i, WfSlot (xa.depth - 1) (xa.root i)

def Compressed (xa : Xarray) (l t : Nat) : Prop :=
  ∃ i : Fin slotSize, CompressedSlot (xa.depth - 1) i.val (xa.root i) l t

theorem xarrayGet_eq {xa : Xarray} {index : Nat} (fits : index < 2 ^ 64) :
    xarrayGet xa index =
      if index / span xa.depth = 0 then getNode xa.stride index xa.depth xa.root else .ok 0 := by
  rw [xarrayGet, shr64_eq _ fits, ite_not]
  rfl

/-- `new` is `old` with more levels on top. -/
structure Grown (old new : Xarray) : Prop where
  wf : Wf new
  stride : new.stride = old.stride
  get : ∀ index < 2 ^ 64, xarrayGet new index = xarrayGet old index
  compressed : ∀ l t, Compressed new l t → Compressed old l t

/-- A new root above the old one changes no answer. -/
theorem xarrayGet_raised {xa : Xarray} (positive : 1 ≤ xa.depth) {index : Nat}
    (fits : index < 2 ^ 64) :
    xarrayGet { xa with
      root := Function.update emptyNode ⟨0, by decide⟩ (.node xa.root), depth :=
        xa.depth + 1 } index = xarrayGet xa index := by
  obtain ⟨d, depth⟩ := Nat.exists_eq_add_of_le' positive
  rw [xarrayGet_eq fits, xarrayGet_eq fits]
  simp only [getNode_succ]
  by_cases outside : index / span (xa.depth + 1) = 0
  · have where_ := slotIndex_eq_iff fits outside ⟨0, by decide⟩
    simp only [mul_zero, zero_add] at where_
    rw [if_pos outside]
    by_cases first : index / span xa.depth = 0
    · rw [if_pos first, where_.mpr first, Function.update_self]
      rfl
    · rw [if_neg first, Function.update_of_ne (fun eq => first (where_.mp eq))]
      exact readSlot_zero _ _ _
  · rw [if_neg outside, if_neg]
    intro zero
    rw [div_span_succ, zero] at outside
    exact outside (Nat.zero_div _)

theorem grown_step {xa : Xarray} (wf : Wf xa) (small : xa.depth ≤ 10) :
    Grown xa { xa with
      root := Function.update emptyNode ⟨0, by decide⟩ (.node xa.root), depth :=
        xa.depth + 1 } := by
  obtain ⟨d, depth⟩ := Nat.exists_eq_add_of_le' wf.depth
  have slots := wf.slots
  rw [depth, Nat.add_sub_cancel] at slots
  refine ⟨⟨by simp, Nat.succ_le_succ small, ?_⟩, rfl, ?_, ?_⟩
  · intro i
    simp only [depth, Nat.add_sub_cancel]
    by_cases first : i = ⟨0, by decide⟩
    · subst first
      rw [Function.update_self]
      exact .node slots
    · rw [Function.update_of_ne first]
      exact wfSlot_empty _ i
  · exact fun index fits => xarrayGet_raised wf.depth fits
  · rintro l t ⟨i, compressed⟩
    simp only [depth, Nat.add_sub_cancel] at compressed
    by_cases first : i = ⟨0, by decide⟩
    · subst first
      rw [Function.update_self] at compressed
      cases compressed with
      | child compressed =>
        rw [mul_zero, zero_add] at compressed
        exact ⟨_, by rwa [depth, Nat.add_sub_cancel]⟩
    · rw [Function.update_of_ne first] at compressed
      exact absurd compressed not_compressedSlot_empty

theorem Grown.trans {old mid new : Xarray} (first : Grown old mid) (second : Grown mid new) :
    Grown old new where
  wf := second.wf
  stride := second.stride.trans first.stride
  get index fits := (second.get index fits).trans (first.get index fits)
  compressed l t h := first.compressed l t (second.compressed l t h)

theorem ensureDepthLoop_spec {index : Nat} (fits : index < 2 ^ 64) {rounds : Nat}
    {xa : Xarray} (wf : Wf xa) (enough : 64 < (xa.depth + rounds) * slotBits) (mem : AllocOracle) :
    Grown xa (ensureDepthLoop index rounds xa mem).1.2 ∧
      ((ensureDepthLoop index rounds xa mem).1.1 = true →
        index / span (ensureDepthLoop index rounds xa mem).1.2.depth = 0) := by
  induction rounds generalizing xa mem with
  | zero =>
    refine ⟨⟨wf, rfl, fun _ _ => rfl, fun _ _ h => h⟩, fun _ => Nat.div_eq_of_lt ?_⟩
    exact lt_of_lt_of_le fits (Nat.pow_le_pow_right (by decide) (le_of_lt enough))
  | succ rounds ih =>
    rw [ensureDepthLoop]
    split
    · rename_i small
      refine ⟨⟨wf, rfl, fun _ _ => rfl, fun _ _ h => h⟩, fun _ => ?_⟩
      rw [shr64_eq _ fits] at small
      exact small
    · split
      · rename_i large _
        have small : xa.depth ≤ 10 := by
          by_contra big
          apply large
          rw [shr64, if_pos]
          simp only [slotBits]
          omega
        have grown := grown_step wf small
        have enough' : 64 < (xa.depth + 1 + rounds) * slotBits := by
          rwa [Nat.add_right_comm, Nat.add_assoc]
        obtain ⟨further, covers⟩ := ih grown.wf enough' mem.tail
        exact ⟨grown.trans further, covers⟩
      · exact ⟨⟨wf, rfl, fun _ _ => rfl, fun _ _ h => h⟩, fun ok => by cases ok⟩

/-- A successful `ensure_depth` makes room for the index and changes nothing else. -/
theorem ensureDepth_spec {xa : Xarray} (wf : Wf xa) {index : Nat} (fits : index < 2 ^ 64)
    (mem : AllocOracle) :
    Grown xa (ensureDepth xa index mem).1.2 ∧
      ((ensureDepth xa index mem).1.1 = true →
        index / span (ensureDepth xa index mem).1.2.depth = 0) := by
  apply ensureDepthLoop_spec fits wf
  have := wf.depth
  simp only [slotBits]
  omega

end Depth

end Opal.XArray
