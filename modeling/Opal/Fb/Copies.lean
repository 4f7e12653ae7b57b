import Opal.Fb.Bitblt

/-!
# The rectangle as one simultaneous copy

The moves of `fb_bitblt` in their order never touch what an earlier one wrote, as long as no row
starts beyond the 32 bits of its product.  Otherwise the last row of one of the rectangles is
missed, and the copy is right only where source and target are the same.
-/

namespace Opal.Fb

open Opal.Library

section Moves

variable (fb : Fbinfo) (x y cx cy x0 y0 : Nat)

def rowOrder : List Nat :=
  if y < y0 then List.range cy else if y > y0 then (List.range cy).reverse else List.range cy

def colOrder : List Nat :=
  if y < y0 then List.range cx
  else if y > y0 then List.range cx
  else if x < x0 then List.range cx
  else (List.range cx).reverse

def moves : List (Move Nat) :=
  (rowOrder y cy y0).flatMap fun row => (colOrder x y cx x0 y0).map (pixelMove fb x y x0 y0 row)

variable {fb x y cx cy x0 y0} {pixels after : Pixels} {row col : Nat}

theorem mem_rowOrder : row ∈ rowOrder y cy y0 ↔ row < cy := by
  unfold rowOrder
  split
  · exact List.mem_range
  · split
    · rw [List.mem_reverse, List.mem_range]
    · exact List.mem_range

theorem mem_colOrder : col ∈ colOrder x y cx x0 y0 ↔ col < cx := by
  unfold colOrder
  split
  · exact List.mem_range
  · split
    · exact List.mem_range
    · split
      · exact List.mem_range
      · rw [List.mem_reverse, List.mem_range]

theorem mem_moves {move : Move Nat} : move ∈ moves fb x y cx cy x0 y0 ↔
    ∃ row < cy, ∃ col < cx, pixelMove fb x y x0 y0 row col = move := by
  simp only [moves, List.mem_flatMap, List.mem_map, mem_rowOrder, mem_colOrder]

theorem foldlM_copyRow {rows cols : List Nat} :
    rows.foldlM (copyRow fb x y x0 y0 cols) pixels =
      (rows.flatMap fun row => cols.map (pixelMove fb x y x0 y0 row)).foldlM
        (copyPixel fb) pixels := by
  induction rows generalizing pixels with
  | nil => rfl
  | cons row rest inductionHypothesis =>
      rw [List.flatMap_cons, List.foldlM_append, List.foldlM_cons, List.foldlM_map]
      refine congrArg (copyRow fb x y x0 y0 cols pixels row >>= ·) (funext fun pixels => ?_)
      exact inductionHypothesis

theorem copyRect_eq : copyRect fb x y cx cy x0 y0 pixels =
    (moves fb x y cx cy x0 y0).foldlM (copyPixel fb) pixels := by
  unfold copyRect moves rowOrder colOrder
  rw [← foldlM_copyRow]
  split
  · rfl
  · split
    · rfl
    · split
      · rfl
      · rfl

theorem foldlM_copyPixel {moves : List (Move Nat)} :
    moves.foldlM (copyPixel fb) pixels = .ok after ↔
      (∀ move ∈ moves, Seen fb move) ∧ moves.foldl Move.apply pixels = after := by
  induction moves generalizing pixels with
  | nil => simp [pure, Except.pure]
  | cons move rest inductionHypothesis =>
      rw [List.foldlM_cons, copyPixel, List.forall_mem_cons, List.foldl_cons]
      by_cases seen : Seen fb move
      · rw [if_pos seen, ok_bind, inductionHypothesis, and_iff_right seen]
      · rw [if_neg seen]
        constructor
        · intro returned
          cases returned
        · rintro ⟨⟨seen', -⟩, -⟩
          exact absurd seen' seen

end Moves

section Offsets

variable {fb : Fbinfo} {r r' a b : Nat}

theorem offset_inj (first : a < fb.pitch) (second : b < fb.pitch)
    (same : a + r * fb.pitch = b + r' * fb.pitch) : a = b ∧ r = r' := by
  have rows := congrArg (· / fb.pitch) same
  have positive : 0 < fb.pitch := Nat.zero_lt_of_lt first
  simp only [Nat.add_mul_div_right _ _ positive, Nat.div_eq_of_lt first, Nat.div_eq_of_lt second,
    Nat.zero_add] at rows
  subst rows
  exact ⟨Nat.add_right_cancel same, rfl⟩

theorem onScreen_offset (first : a < fb.pitch) :
    OnScreen fb (a + r * fb.pitch) ↔ a < fb.width ∧ r < fb.height := by
  unfold OnScreen
  rw [Nat.add_mul_mod_self_right, Nat.mod_eq_of_lt first,
    Nat.add_mul_div_right _ _ (Nat.zero_lt_of_lt first), Nat.div_eq_of_lt first, Nat.zero_add]

theorem rowStart_of_lt (low : r * fb.pitch < 2 ^ 32) : rowStart fb r = r * fb.pitch :=
  Nat.mod_eq_of_lt low

/-- The last row is missed when its start does not fit. -/
theorem rowStart_ne (above : r ≤ r') (high : 2 ^ 32 ≤ r' * fb.pitch) (inside : a < fb.width) :
    a + rowStart fb r ≠ b + r' * fb.pitch := by
  have below : rowStart fb r ≤ r * fb.pitch := Nat.mod_le ..
  have wide := fb.wide
  rcases Nat.lt_or_eq_of_le above with earlier | rfl
  · have next : (r + 1) * fb.pitch ≤ r' * fb.pitch := Nat.mul_le_mul_right _ earlier
    rw [Nat.add_mul] at next
    omega
  · have small := fb.width_lt
    have wrapped : rowStart fb r < 2 ^ 32 := Nat.mod_lt _ (by decide)
    have parts : 2 ^ 32 * (r * fb.pitch / 2 ^ 32) + rowStart fb r = r * fb.pitch :=
      Nat.div_add_mod ..
    have positive : 0 < r * fb.pitch / 2 ^ 32 := Nat.div_pos high (by decide)
    omega

end Offsets

section Rectangles

/-- Source and target of a rectangle on the screen. -/
structure Placed (fb : Fbinfo) (x y cx cy x0 y0 : Nat) : Prop where
  right : x + cx ≤ fb.width
  bottom : y + cy ≤ fb.height
  right0 : x0 + cx ≤ fb.width
  bottom0 : y0 + cy ≤ fb.height

/-- No row starts beyond the 32 bits of its product. -/
def Low (fb : Fbinfo) (y cy y0 : Nat) : Prop :=
  ∀ row < cy, (y + row) * fb.pitch < 2 ^ 32 ∧ (y0 + row) * fb.pitch < 2 ^ 32

variable {fb : Fbinfo} {x y cx cy x0 y0 : Nat} {pixels after : Pixels}

theorem pixelMove_low {row col : Nat} (low : Low fb y cy y0) (inside : row < cy) :
    pixelMove fb x y x0 y0 row col =
      ⟨x + col + (y + row) * fb.pitch, x0 + col + (y0 + row) * fb.pitch⟩ := by
  obtain ⟨target, source⟩ := low row inside
  rw [pixelMove, rowStart_of_lt target, rowStart_of_lt source, Nat.add_right_comm,
    Nat.add_right_comm x0]

theorem Placed.seen (placed : Placed fb x y cx cy x0 y0) (low : Low fb y cy y0) :
    ∀ move ∈ moves fb x y cx cy x0 y0, Seen fb move := by
  intro move member
  obtain ⟨row, below, col, inside, rfl⟩ := mem_moves.mp member
  obtain ⟨right, bottom, right0, bottom0⟩ := placed
  have wide := fb.wide
  rw [pixelMove_low low below]
  constructor
  · exact (onScreen_offset (by omega)).mpr (by omega)
  · exact (onScreen_offset (by omega)).mpr (by omega)

theorem pairwise_range (n : Nat) : (List.range n).Pairwise fun a b => a < n ∧ b < n ∧ a < b :=
  List.pairwise_lt_range.imp_of_mem fun first second less =>
    ⟨List.mem_range.mp first, List.mem_range.mp second, less⟩

theorem pairwise_reverse_range (n : Nat) :
    (List.range n).reverse.Pairwise fun a b => a < n ∧ b < n ∧ b < a :=
  List.pairwise_reverse.mpr ((pairwise_range n).imp fun ⟨first, second, less⟩ =>
    ⟨second, first, less⟩)

theorem pairwise_rowOrder : (rowOrder y cy y0).Pairwise fun r s =>
    r < cy ∧ s < cy ∧ s ≠ r ∧ y0 + s ≠ y + r := by
  unfold rowOrder
  split
  · refine (pairwise_range cy).imp ?_
    omega
  · split
    · refine (pairwise_reverse_range cy).imp ?_
      omega
    · refine (pairwise_range cy).imp ?_
      omega

theorem pairwise_colOrder : (colOrder x y cx x0 y0).Pairwise fun c d =>
    c < cx ∧ d < cx ∧ d ≠ c ∧ (y = y0 → x0 + d ≠ x + c) := by
  unfold colOrder
  split
  · refine (pairwise_range cx).imp ?_
    omega
  · split
    · refine (pairwise_range cx).imp ?_
      omega
    · split
      · refine (pairwise_range cx).imp ?_
        omega
      · refine (pairwise_reverse_range cx).imp ?_
        omega

theorem Placed.ordered (placed : Placed fb x y cx cy x0 y0) (low : Low fb y cy y0) :
    (moves fb x y cx cy x0 y0).Pairwise Move.Before := by
  obtain ⟨right, -, right0, -⟩ := placed
  have wide := fb.wide
  refine List.pairwise_flatMap.mpr ⟨fun row member => ?_, ?_⟩
  · have below := mem_rowOrder.mp member
    refine List.pairwise_map.mpr (pairwise_colOrder.imp ?_)
    rintro c d ⟨inside, inside', differ, apart⟩
    rw [pixelMove_low low below, pixelMove_low low below]
    constructor
    · intro same
      obtain ⟨cols, rows⟩ := offset_inj (by omega) (by omega) same
      exact apart (by omega) cols
    · intro same
      obtain ⟨cols, -⟩ := offset_inj (by omega) (by omega) same
      omega
  · refine pairwise_rowOrder.imp ?_
    rintro r s ⟨below, below', differ, apart⟩ first firstMember second secondMember
    obtain ⟨c, inside, rfl⟩ := List.mem_map.mp firstMember
    obtain ⟨d, inside', rfl⟩ := List.mem_map.mp secondMember
    rw [mem_colOrder] at inside inside'
    rw [pixelMove_low low below, pixelMove_low low below']
    constructor
    · intro same
      exact apart (offset_inj (by omega) (by omega) same).2
    · intro same
      obtain ⟨-, rows⟩ := offset_inj (by omega) (by omega) same
      omega

/-- Each pixel of the target has the old value of its source, and no other pixel has changed. -/
structure Moved (fb : Fbinfo) (x y cx cy x0 y0 : Nat) (before after : Pixels) : Prop where
  inside : ∀ row < cy, ∀ col < cx, after (x + col + (y + row) * fb.pitch) =
    before (x0 + col + (y0 + row) * fb.pitch)
  outside : ∀ offset, (∀ row < cy, ∀ col < cx, x + col + (y + row) * fb.pitch ≠ offset) →
    after offset = before offset

theorem Placed.moved (placed : Placed fb x y cx cy x0 y0) (low : Low fb y cy y0) :
    ∃ after, copyRect fb x y cx cy x0 y0 pixels = .ok after ∧
      Moved fb x y cx cy x0 y0 pixels after := by
  refine ⟨_, copyRect_eq.trans (foldlM_copyPixel.mpr ⟨placed.seen low, rfl⟩), ?_, ?_⟩
  · intro row below col inside
    have copied := @foldl_apply_target _ _ _ _ pixels _ (placed.ordered low)
      (mem_moves.mpr ⟨row, below, col, inside, rfl⟩)
    rw [pixelMove_low low below] at copied
    exact copied
  · intro offset other
    refine foldl_apply_other fun move member => ?_
    obtain ⟨row, below, col, inside, rfl⟩ := mem_moves.mp member
    rw [pixelMove_low low below]
    exact other row below col inside

/-- A rectangle copied onto itself stays as it is, wherever its rows are taken to start. -/
theorem copyRect_self : copyRect fb x y cx cy x y pixels = .ok after ↔
    (∀ move ∈ moves fb x y cx cy x y, Seen fb move) ∧ pixels = after := by
  have still : (moves fb x y cx cy x y).foldl Move.apply pixels = pixels := by
    refine foldl_apply_self fun move member => ?_
    obtain ⟨row, below, col, inside, rfl⟩ := mem_moves.mp member
    rfl
  rw [copyRect_eq, foldlM_copyPixel, still]

theorem Placed.low_of_moved (placed : Placed fb x y cx cy x0 y0) (some_row : 0 < cy)
    (some_col : 0 < cx) (differ : ¬(x = x0 ∧ y = y0))
    (copies : ∀ pixels, ∃ after, copyRect fb x y cx cy x0 y0 pixels = .ok after ∧
      Moved fb x y cx cy x0 y0 pixels after) : Low fb y cy y0 := by
  obtain ⟨right, bottom, right0, bottom0⟩ := placed
  have wide := fb.wide
  obtain ⟨last, rfl⟩ := Nat.exists_eq_add_one_of_ne_zero (Nat.ne_of_gt some_row)
  have apart : x + (y + last) * fb.pitch ≠ x0 + (y0 + last) * fb.pitch := by
    intro same
    obtain ⟨cols, rows⟩ := offset_inj (by omega) (by omega) same
    exact differ ⟨cols, Nat.add_right_cancel rows⟩
  -- only the source of the last row's first pixel is marked
  obtain ⟨after, returned, moved⟩ :=
    copies fun offset => if offset = x0 + (y0 + last) * fb.pitch then 1 else 0
  rw [copyRect_eq, foldlM_copyPixel] at returned
  obtain ⟨-, rfl⟩ := returned
  have marked := moved.inside last (Nat.lt_succ_self last) 0 some_col
  simp only [Nat.add_zero, if_true] at marked
  have targetLow : (y + last) * fb.pitch < 2 ^ 32 := by
    by_contra high
    refine absurd (marked.symm.trans (foldl_apply_other ?_)) (by simp [apart])
    intro move member
    obtain ⟨row, below, col, inside, rfl⟩ := mem_moves.mp member
    rw [pixelMove, Nat.add_right_comm]
    exact rowStart_ne (by omega) (Nat.le_of_not_lt high) (by omega)
  have sourceLow : (y0 + last) * fb.pitch < 2 ^ 32 := by
    by_contra high
    refine absurd (marked.symm.trans
      (foldl_apply_unread ?_ (fun c differs => if_neg differs) apart))
      (by decide : (1 : UInt32) ≠ 0)
    intro move member
    obtain ⟨row, below, col, inside, rfl⟩ := mem_moves.mp member
    rw [pixelMove, Nat.add_right_comm x0]
    exact rowStart_ne (by omega) (Nat.le_of_not_lt high) (by omega)
  intro row below
  have target : (y + row) * fb.pitch ≤ (y + last) * fb.pitch :=
    Nat.mul_le_mul_right _ (by omega)
  have source : (y0 + row) * fb.pitch ≤ (y0 + last) * fb.pitch :=
    Nat.mul_le_mul_right _ (by omega)
  exact ⟨Nat.lt_of_le_of_lt target targetLow, Nat.lt_of_le_of_lt source sourceLow⟩

end Rectangles

section Screen

/-- The rectangle as a whole was copied at once, where both pixels are on the screen. -/
structure Copied (fb : Fbinfo) (x y cx cy x0 y0 : Int) (before after : Pixels) : Prop where
  copied : ∀ col row : Nat, Clipped fb.width x cx x0 col → Clipped fb.height y cy y0 row →
    after (col + row * fb.pitch) =
      before ((col - x + x0).toNat + (row - y + y0).toNat * fb.pitch)
  unchanged : ∀ offset, (∀ col row : Nat, Clipped fb.width x cx x0 col →
    Clipped fb.height y cy y0 row → col + row * fb.pitch ≠ offset) → after offset = before offset

/-- No row that is copied, nor its source, starts beyond the 32 bits of its product. -/
def Addressed (fb : Fbinfo) (x y cx cy x0 y0 : Int) : Prop :=
  ∀ col row : Nat, Clipped fb.width x cx x0 col → Clipped fb.height y cy y0 row →
    row * fb.pitch < 2 ^ 32 ∧ (row - y + y0).toNat * fb.pitch < 2 ^ 32

/-- Source and target are the same, and the offsets that are taken for their pixels are those
of pixels on the screen. -/
def Still (fb : Fbinfo) (x y cx cy x0 y0 : Int) : Prop :=
  x = x0 ∧ y = y0 ∧ ∀ col row : Nat, Clipped fb.width x cx x0 col →
    Clipped fb.height y cy y0 row → OnScreen fb (col + rowStart fb row)

variable {fb : Fbinfo} {x y cx cy x0 y0 : Int} {limit d c s d' c' s' : Int}
  {pixels after : Pixels}

theorem Clip.clipped_iff (clip : Clip limit d c s d' c' s') {position : Nat} :
    Clipped limit d c s position ↔ ∃ i < c'.toNat, d'.toNat + i = position := by
  obtain ⟨target, source, positive, -, exact⟩ := clip
  rw [← exact]
  constructor
  · intro inside
    exact ⟨position - d'.toNat, by omega, by omega⟩
  · rintro ⟨i, inside, rfl⟩
    omega

theorem Clip.source_eq (clip : Clip limit d c s d' c' s') (i : Nat) :
    (((d'.toNat + i : Nat) : Int) - d + s).toNat = s'.toNat + i := by
  obtain ⟨target, source, -, shift, -⟩ := clip
  omega

section Both

variable {x' y' cx' cy' x0' y0' : Int} (clipX : Clip fb.width x cx x0 x' cx' x0')
  (clipY : Clip fb.height y cy y0 y' cy' y0')

include clipX clipY

theorem placed_of_clips :
    Placed fb x'.toNat y'.toNat cx'.toNat cy'.toNat x0'.toNat y0'.toNat := by
  obtain ⟨targetX, sourceX, positiveX, -, -⟩ := clipX
  obtain ⟨targetY, sourceY, positiveY, -, -⟩ := clipY
  constructor <;> omega

theorem addressed_iff : Addressed fb x y cx cy x0 y0 ↔ Low fb y'.toNat cy'.toNat y0'.toNat := by
  have some_col : 0 < cx'.toNat := by
    have positive := clipX.positive
    omega
  constructor
  · intro addressed row below
    have starts := addressed _ _ (clipX.clipped_iff.mpr ⟨0, some_col, rfl⟩)
      (clipY.clipped_iff.mpr ⟨row, below, rfl⟩)
    rw [clipY.source_eq] at starts
    exact starts
  · intro low col row onCol onRow
    obtain ⟨i, below, rfl⟩ := clipY.clipped_iff.mp onRow
    rw [clipY.source_eq]
    exact low i below

theorem copied_iff : Copied fb x y cx cy x0 y0 pixels after ↔
    Moved fb x'.toNat y'.toNat cx'.toNat cy'.toNat x0'.toNat y0'.toNat pixels after := by
  constructor
  · rintro ⟨copied, unchanged⟩
    constructor
    · intro row below col inside
      have value := copied _ _ (clipX.clipped_iff.mpr ⟨col, inside, rfl⟩)
        (clipY.clipped_iff.mpr ⟨row, below, rfl⟩)
      rw [clipX.source_eq, clipY.source_eq] at value
      exact value
    · intro offset other
      refine unchanged offset fun col row onCol onRow => ?_
      obtain ⟨j, inside, rfl⟩ := clipX.clipped_iff.mp onCol
      obtain ⟨i, below, rfl⟩ := clipY.clipped_iff.mp onRow
      exact other i below j inside
  · rintro ⟨inside, outside⟩
    constructor
    · intro col row onCol onRow
      obtain ⟨j, within, rfl⟩ := clipX.clipped_iff.mp onCol
      obtain ⟨i, below, rfl⟩ := clipY.clipped_iff.mp onRow
      rw [clipX.source_eq, clipY.source_eq]
      exact inside i below j within
    · intro offset other
      refine outside offset fun row below col within => ?_
      exact other _ _ (clipX.clipped_iff.mpr ⟨col, within, rfl⟩)
        (clipY.clipped_iff.mpr ⟨row, below, rfl⟩)

theorem still_iff : Still fb x y cx cy x0 y0 ↔ (x' = x0' ∧ y' = y0') ∧
    ∀ move ∈ moves fb x'.toNat y'.toNat cx'.toNat cy'.toNat x'.toNat y'.toNat, Seen fb move := by
  have shiftX := clipX.shift
  have shiftY := clipY.shift
  unfold Still
  rw [← and_assoc]
  refine and_congr (by omega) ⟨fun onScreen move member => ?_, fun seen col row onCol onRow => ?_⟩
  · obtain ⟨i, below, j, inside, rfl⟩ := mem_moves.mp member
    have shown := onScreen _ _ (clipX.clipped_iff.mpr ⟨j, inside, rfl⟩)
      (clipY.clipped_iff.mpr ⟨i, below, rfl⟩)
    rw [Nat.add_right_comm] at shown
    exact ⟨shown, shown⟩
  · obtain ⟨j, inside, rfl⟩ := clipX.clipped_iff.mp onCol
    obtain ⟨i, below, rfl⟩ := clipY.clipped_iff.mp onRow
    have shown := (seen _ (mem_moves.mpr ⟨i, below, j, inside, rfl⟩)).1
    rw [pixelMove, Nat.add_right_comm] at shown
    exact shown

end Both

/-- `fb_bitblt` is a simultaneous copy of what is on the screen exactly when every row it copies
starts within 32 bits, or source and target are the same. -/
theorem fbBitblt_copies_iff (fb : Fbinfo) (x y cx cy x0 y0 : Int) :
    (∀ pixels, ∃ after, fbBitblt (some fb) x y cx cy x0 y0 pixels = .ok after ∧
      Copied fb x y cx cy x0 y0 pixels after) ↔
    Addressed fb x y cx cy x0 y0 ∨ Still fb x y cx cy x0 y0 := by
  have nothing (none_left : ∀ col row : Nat, Clipped fb.width x cx x0 col →
      Clipped fb.height y cy y0 row → False) :
      Addressed fb x y cx cy x0 y0 ∧ ∀ pixels, Copied fb x y cx cy x0 y0 pixels pixels :=
    ⟨fun col row onCol onRow => (none_left col row onCol onRow).elim, fun pixels =>
      ⟨fun col row onCol onRow => (none_left col row onCol onRow).elim, fun _ _ => rfl⟩⟩
  rcases clipAxis_spec fb.width x cx x0 with ⟨x', cx', x0', clippedX, clipX⟩ | ⟨goneX, emptyX⟩
  · rcases clipAxis_spec fb.height y cy y0 with ⟨y', cy', y0', clippedY, clipY⟩ | ⟨goneY, emptyY⟩
    · simp only [fbBitblt_eq, clippedX, clippedY, copied_iff clipX clipY,
        addressed_iff clipX clipY, still_iff clipX clipY]
      have placed := placed_of_clips clipX clipY
      have some_col := clipX.positive
      have some_row := clipY.positive
      constructor
      · intro copies
        by_cases same : x' = x0' ∧ y' = y0'
        · obtain ⟨rfl, rfl⟩ := same
          obtain ⟨after, returned, -⟩ := copies fun _ => 0
          exact .inr ⟨⟨rfl, rfl⟩, (copyRect_self.mp returned).1⟩
        · have targetX := clipX.target
          have targetY := clipY.target
          have sourceX := clipX.source
          have sourceY := clipY.source
          exact .inl (placed.low_of_moved (by omega) (by omega) (by omega) copies)
      · rintro (low | ⟨⟨rfl, rfl⟩, seen⟩) pixels
        · exact placed.moved low
        · refine ⟨pixels, copyRect_self.mpr ⟨seen, rfl⟩, ?_, fun _ _ => rfl⟩
          intro row below col inside
          rfl
    · obtain ⟨addressed, unchanged⟩ := nothing fun _ row _ onRow => emptyY row onRow
      simp only [fbBitblt_eq, clippedX, goneY]
      exact iff_of_true (fun pixels => ⟨pixels, rfl, unchanged pixels⟩) (.inl addressed)
  · obtain ⟨addressed, unchanged⟩ := nothing fun col _ onCol _ => emptyX col onCol
    simp only [fbBitblt_eq, goneX]
    exact iff_of_true (fun pixels => ⟨pixels, rfl, unchanged pixels⟩) (.inl addressed)

/-- A screen of 2^32 pixels and one row more. -/
def tallScreen : Fbinfo where
  pitch := 65536
  width := 1
  height := 65537
  wide := by decide
  pitch_lt := by decide
  width_lt := by decide
  height_lt := by decide

/-- The first pixel alone is lit. -/
def lit : Pixels := fun offset => if offset = 0 then 1 else 0

/-- The first pixel is not copied to the last row: the copy ends where it started. -/
theorem fbBitblt_misses : ¬∃ after, fbBitblt (some tallScreen) 0 65536 1 1 0 0 lit = .ok after ∧
    Copied tallScreen 0 65536 1 1 0 0 lit after := by
  rintro ⟨after, returned, copied, -⟩
  have computed : (fbBitblt (some tallScreen) 0 65536 1 1 0 0 lit).toOption.map
      (fun pixels => pixels (65536 * 65536)) = some 0 := by
    decide +kernel
  rw [returned] at computed
  have dark : after (65536 * 65536) = 0 := Option.some.inj computed
  have bright : after (0 + 65536 * 65536) = 1 := copied 0 65536 (by decide) (by decide)
  rw [Nat.zero_add, dark] at bright
  cases bright

end Screen

end Opal.Fb
