import Mathlib.Algebra.Group.Nat.Defs
import Opal.Library.Moves
import Opal.Library.Outcome

/-!
# Copying a rectangle of the screen

`fb_bitblt` clips the rectangle against the screen and copies it pixel by pixel, in a
direction in which no pixel is overwritten before it is read.  Coordinates are integers, since
a sum that does not fit into an `int` has no meaning in the source.  The start of a row is a
product of 32 bits.
-/

namespace Opal.Fb

open Opal.Library

section Operations

/-- `struct fbinfo` of a framebuffer that is there; the pitch is in pixels. -/
structure Fbinfo where
  pitch : Nat
  width : Nat
  height : Nat
  wide : width ≤ pitch
  pitch_lt : pitch < 2 ^ 32
  width_lt : width < 2 ^ 31
  height_lt : height < 2 ^ 31

/-- The pixels by their offset in the framebuffer. -/
abbrev Pixels := Nat → UInt32

/-- A pixel outside the screen is read or written. -/
inductive Stop where
  | stray

variable (fb : Fbinfo)

/-- The offset is that of a pixel on the screen. -/
def OnScreen (offset : Nat) : Prop := offset % fb.pitch < fb.width ∧ offset / fb.pitch < fb.height

instance : DecidablePred (OnScreen fb) := fun _ => inferInstanceAs (Decidable (_ ∧ _))

/-- `row * g_fb.pitch`, an `unsigned int`. -/
def rowStart (row : Nat) : Nat := row * fb.pitch % 2 ^ 32

/-- Both pixels are on the screen. -/
def Seen (move : Move Nat) : Prop := OnScreen fb move.source ∧ OnScreen fb move.target

instance : DecidablePred (Seen fb) := fun _ => inferInstanceAs (Decidable (_ ∧ _))

/-- `dst[col] = src[col]`. -/
def copyPixel (pixels : Pixels) (move : Move Nat) : Except Stop Pixels :=
  if Seen fb move then .ok (move.apply pixels) else .error .stray

/-- The cells of `dst[col] = src[col]` in a row of the rectangle. -/
def pixelMove (x y x0 y0 row col : Nat) : Move Nat where
  target := x + rowStart fb (y + row) + col
  source := x0 + rowStart fb (y0 + row) + col

/-- The inner loops, by the columns in the order in which they are visited. -/
def copyRow (x y x0 y0 : Nat) (cols : List Nat) (pixels : Pixels) (row : Nat) :
    Except Stop Pixels :=
  cols.foldlM (fun pixels col => copyPixel fb pixels (pixelMove fb x y x0 y0 row col)) pixels

/-- The end of `fb_bitblt`, for a rectangle on the screen. -/
def copyRect (x y cx cy x0 y0 : Nat) (pixels : Pixels) : Except Stop Pixels :=
  if y < y0 then (List.range cy).foldlM (copyRow fb x y x0 y0 (List.range cx)) pixels
  else if y > y0 then
    (List.range cy).reverse.foldlM (copyRow fb x y x0 y0 (List.range cx)) pixels
  else if x < x0 then (List.range cy).foldlM (copyRow fb x y x0 y0 (List.range cx)) pixels
  else (List.range cy).foldlM (copyRow fb x y x0 y0 (List.range cx).reverse) pixels

/-- The steps that start the range of an axis on the screen. -/
def clipStart (d c s : Int) : Int × Int × Int :=
  let (d, c, s) := if d < 0 then (0, c - -d, s + -d) else (d, c, s)
  if s < 0 then (d + -s, c - -s, 0) else (d, c, s)

/-- The steps that end the range of an axis on the screen. -/
def clipEnd (limit d c s : Int) : Int :=
  let c := if d + c > limit then limit - d else c
  if s + c > limit then limit - s else c

/-- The two axes take their steps by turns in the source. -/
def fbBitblt (screen : Option Fbinfo) (x y cx cy x0 y0 : Int) (pixels : Pixels) :
    Except Stop Pixels :=
  match screen with
  | none => .ok pixels
  | some fb =>
      if cx ≤ 0 ∨ cy ≤ 0 then .ok pixels
      else
        let (x, cx, x0) := clipStart x cx x0
        let (y, cy, y0) := clipStart y cy y0
        if cx ≤ 0 ∨ cy ≤ 0 then .ok pixels
        else if x ≥ fb.width ∨ y ≥ fb.height ∨ x0 ≥ fb.width ∨ y0 ≥ fb.height then .ok pixels
        else
          let cx := clipEnd fb.width x cx x0
          let cy := clipEnd fb.height y cy y0
          if cx ≤ 0 ∨ cy ≤ 0 then .ok pixels
          else copyRect fb x.toNat y.toNat cx.toNat cy.toNat x0.toNat y0.toNat pixels

end Operations

section Clipping

/-- What the clipping of an axis is for: the positions of the target that are on the screen
together with their sources. -/
def Clipped (limit d c s position : Int) : Prop :=
  d ≤ position ∧ position < d + c ∧ 0 ≤ position ∧ position < limit ∧
    0 ≤ position - d + s ∧ position - d + s < limit

instance (limit d c s position : Int) : Decidable (Clipped limit d c s position) :=
  inferInstanceAs (Decidable (_ ∧ _))

/-- A range on the screen that is what is left of the given one. -/
structure Clip (limit d c s d' c' s' : Int) : Prop where
  target : 0 ≤ d' ∧ d' + c' ≤ limit
  source : 0 ≤ s' ∧ s' + c' ≤ limit
  positive : 0 < c'
  shift : d' - s' = d - s
  exact : ∀ position, d' ≤ position ∧ position < d' + c' ↔ Clipped limit d c s position

/-- The clipping of one axis alone; `none` where the source returns early. -/
def clipAxis (limit d c s : Int) : Option (Int × Int × Int) :=
  if c ≤ 0 then none
  else
    let (d, c, s) := clipStart d c s
    if c ≤ 0 then none
    else if d ≥ limit ∨ s ≥ limit then none
    else if clipEnd limit d c s ≤ 0 then none
    else some (d, clipEnd limit d c s, s)

theorem clipStart_spec (d c s : Int) : ∃ d' c' s', clipStart d c s = (d', c', s') ∧
    0 ≤ d' ∧ 0 ≤ s' ∧ d' - s' = d - s ∧ d' + c' = d + c ∧ (d' = d ∨ d' = 0 ∨ s' = 0) ∧
      d ≤ d' := by
  unfold clipStart
  by_cases left : d < 0
  · rw [if_pos left]
    dsimp only
    split
    · exact ⟨_, _, _, rfl, by omega⟩
    · exact ⟨_, _, _, rfl, by omega⟩
  · rw [if_neg left]
    dsimp only
    split
    · exact ⟨_, _, _, rfl, by omega⟩
    · exact ⟨_, _, _, rfl, by omega⟩

theorem clipEnd_spec (limit d c s : Int) :
    clipEnd limit d c s = min c (min (limit - d) (limit - s)) := by
  unfold clipEnd
  dsimp only
  split <;> split <;> omega

theorem clipAxis_spec (limit d c s : Int) :
    (∃ d' c' s', clipAxis limit d c s = some (d', c', s') ∧ Clip limit d c s d' c' s') ∨
      (clipAxis limit d c s = none ∧ ∀ position, ¬Clipped limit d c s position) := by
  unfold clipAxis Clipped
  by_cases empty : c ≤ 0
  · exact .inr ⟨if_pos empty, fun position => by omega⟩
  · rw [if_neg empty]
    obtain ⟨d', c', s', started, low⟩ := clipStart_spec d c s
    rw [started]
    dsimp only
    have ended := clipEnd_spec limit d' c' s'
    generalize clipEnd limit d' c' s' = c'' at ended
    by_cases gone : c' ≤ 0
    · exact .inr ⟨if_pos gone, fun position => by omega⟩
    · rw [if_neg gone]
      by_cases beyond : d' ≥ limit ∨ s' ≥ limit
      · exact .inr ⟨if_pos beyond, fun position => by omega⟩
      · rw [if_neg beyond, if_neg (by omega)]
        refine .inl ⟨d', c'', s', rfl, by omega, by omega, by omega, by omega, fun position => ?_⟩
        unfold Clipped
        omega

theorem fbBitblt_eq {fb : Fbinfo} (x y cx cy x0 y0 : Int) (pixels : Pixels) :
    fbBitblt (some fb) x y cx cy x0 y0 pixels =
      match clipAxis fb.width x cx x0, clipAxis fb.height y cy y0 with
      | some (x, cx, x0), some (y, cy, y0) =>
          copyRect fb x.toNat y.toNat cx.toNat cy.toNat x0.toNat y0.toNat pixels
      | _, _ => .ok pixels := by
  unfold fbBitblt clipAxis
  by_cases emptyX : cx ≤ 0
  · simp only [emptyX, true_or, if_true]
  by_cases emptyY : cy ≤ 0
  · simp only [emptyX, emptyY, or_true, if_true, if_false]
    split <;> simp_all
  simp only [emptyX, emptyY, or_self, if_false]
  generalize clipStart x cx x0 = startX
  generalize clipStart y cy y0 = startY
  obtain ⟨x, cx, x0⟩ := startX
  obtain ⟨y, cy, y0⟩ := startY
  dsimp only
  generalize clipEnd fb.width x cx x0 = endX
  generalize clipEnd fb.height y cy y0 = endY
  split_ifs <;> simp_all <;> omega

end Clipping

end Opal.Fb
