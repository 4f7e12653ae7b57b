import Mathlib.Order.Lattice
import Mathlib.Order.Basic
import Mathlib.Data.List.Basic

/-!
# Half-open tilings of a linear order

A `Cell` is a half-open range `[lo, hi)` that carries a value.  A list of cells
tiles `[lo, hi)` when its ranges are non-empty and follow each other without
gap or overlap.  Such a list is a finite description of a function on
`[lo, hi)`, and two tilings describe the same function as soon as every cell of
one lies inside a cell of the other with the same value.
-/

namespace Opal.Library

universe u v w

/-- A half-open range `[lo, hi)` together with the value it carries. -/
structure Cell (α : Type u) (β : Type v) where
  lo : α
  hi : α
  val : β
  deriving DecidableEq, Repr

variable {α : Type u} {β : Type v} {γ : Type w} [LinearOrder α]

/-- The cell contains the point. -/
def Cell.Has (c : Cell α β) (a : α) : Prop := c.lo ≤ a ∧ a < c.hi

/-- The first range lies inside the second. -/
def Cell.Inside (c : Cell α β) (d : Cell α γ) : Prop := d.lo ≤ c.lo ∧ c.hi ≤ d.hi

theorem Cell.Has.inside {c : Cell α β} {d : Cell α γ} {a : α} (has : c.Has a)
    (inside : c.Inside d) : d.Has a :=
  ⟨le_trans inside.1 has.1, lt_of_lt_of_le has.2 inside.2⟩

/-- The cells cover `[lo, hi)` from left to right, each one non-empty. -/
def Tiles (lo hi : α) : List (Cell α β) → Prop
  | [] => lo = hi
  | c :: cs => c.lo = lo ∧ lo < c.hi ∧ Tiles c.hi hi cs

/-- Some cell of the list gives the point this value. -/
def HasValue (cs : List (Cell α β)) (a : α) (v : β) : Prop :=
  ∃ c ∈ cs, c.Has a ∧ c.val = v

@[simp] theorem tiles_nil (lo hi : α) : Tiles lo hi ([] : List (Cell α β)) ↔ lo = hi := Iff.rfl

@[simp] theorem tiles_cons (lo hi : α) (c : Cell α β) (cs : List (Cell α β)) :
    Tiles lo hi (c :: cs) ↔ c.lo = lo ∧ lo < c.hi ∧ Tiles c.hi hi cs := Iff.rfl

theorem Tiles.le {lo hi : α} {cs : List (Cell α β)} (tiles : Tiles lo hi cs) : lo ≤ hi := by
  induction cs generalizing lo with
  | nil => exact le_of_eq tiles
  | cons c cs ih => exact le_trans (le_of_lt tiles.2.1) (ih tiles.2.2)

theorem Tiles.append {lo mid hi : α} {cs ds : List (Cell α β)}
    (left : Tiles lo mid cs) (right : Tiles mid hi ds) : Tiles lo hi (cs ++ ds) := by
  induction cs generalizing lo with
  | nil =>
    cases left
    exact right
  | cons c cs ih => exact ⟨left.1, left.2.1, ih left.2.2⟩

theorem Tiles.mem_bounds {lo hi : α} {cs : List (Cell α β)} (tiles : Tiles lo hi cs)
    {c : Cell α β} (mem : c ∈ cs) : lo ≤ c.lo ∧ c.lo < c.hi ∧ c.hi ≤ hi := by
  induction cs generalizing lo with
  | nil => simp at mem
  | cons d ds ih =>
    obtain ⟨start, nonempty, rest⟩ := tiles
    rcases List.mem_cons.mp mem with rfl | inTail
    · exact ⟨le_of_eq start.symm, start ▸ nonempty, rest.le⟩
    · obtain ⟨low, inner, high⟩ := ih rest inTail
      exact ⟨le_trans (le_of_lt nonempty) low, inner, high⟩

theorem Tiles.exists_has {lo hi a : α} {cs : List (Cell α β)} (tiles : Tiles lo hi cs)
    (low : lo ≤ a) (high : a < hi) : ∃ c ∈ cs, c.Has a := by
  induction cs generalizing lo with
  | nil =>
    cases tiles
    exact absurd low (not_le.mpr high)
  | cons c cs ih =>
    obtain ⟨start, _, rest⟩ := tiles
    by_cases below : a < c.hi
    · exact ⟨c, by simp, start ▸ low, below⟩
    · obtain ⟨d, mem, has⟩ := ih rest (not_lt.mp below)
      exact ⟨d, List.mem_cons_of_mem _ mem, has⟩

/-- A point lies in at most one cell of a tiling. -/
theorem Tiles.eq_of_has {lo hi a : α} {cs : List (Cell α β)} (tiles : Tiles lo hi cs)
    {c d : Cell α β} (memC : c ∈ cs) (memD : d ∈ cs) (hasC : c.Has a) (hasD : d.Has a) :
    c = d := by
  induction cs generalizing lo with
  | nil => simp at memC
  | cons e es ih =>
    obtain ⟨-, -, rest⟩ := tiles
    rcases List.mem_cons.mp memC with rfl | tailC <;> rcases List.mem_cons.mp memD with rfl | tailD
    · rfl
    · exact absurd hasC.2 (not_lt.mpr (le_trans (rest.mem_bounds tailD).1 hasD.1))
    · exact absurd hasD.2 (not_lt.mpr (le_trans (rest.mem_bounds tailC).1 hasC.1))
    · exact ih rest tailC tailD

/-- Two different cells of a tiling lie side by side. -/
theorem Tiles.apart {lo hi : α} {cs : List (Cell α β)} (tiles : Tiles lo hi cs)
    {c d : Cell α β} (memC : c ∈ cs) (memD : d ∈ cs) (ne : c ≠ d) :
    c.hi ≤ d.lo ∨ d.hi ≤ c.lo := by
  by_contra meet
  obtain ⟨left, right⟩ := not_or.mp meet
  rw [not_le] at left right
  have hasC : c.Has (max c.lo d.lo) :=
    ⟨le_max_left _ _, max_lt (tiles.mem_bounds memC).2.1 left⟩
  have hasD : d.Has (max c.lo d.lo) :=
    ⟨le_max_right _ _, max_lt right (tiles.mem_bounds memD).2.1⟩
  exact ne (tiles.eq_of_has memC memD hasC hasD)

theorem Tiles.value_unique {lo hi a : α} {cs : List (Cell α β)} (tiles : Tiles lo hi cs)
    {v w : β} (left : HasValue cs a v) (right : HasValue cs a w) : v = w := by
  obtain ⟨c, memC, hasC, rfl⟩ := left
  obtain ⟨d, memD, hasD, rfl⟩ := right
  rw [tiles.eq_of_has memC memD hasC hasD]

theorem Tiles.of_append {lo hi : α} {cs ds : List (Cell α β)} {c : Cell α β}
    (tiles : Tiles lo hi (cs ++ c :: ds)) : Tiles c.hi hi ds := by
  induction cs generalizing lo with
  | nil => exact tiles.2.2
  | cons d cs ih => exact ih tiles.2.2

theorem Tiles.pairwise {lo hi : α} {cs : List (Cell α β)} (tiles : Tiles lo hi cs) :
    cs.Pairwise fun c d => c.hi ≤ d.lo := by
  induction cs generalizing lo with
  | nil => exact .nil
  | cons c cs ih => exact .cons (fun d mem => (tiles.2.2.mem_bounds mem).1) (ih tiles.2.2)

/-- Replacing every cell by a tiling of its own range gives a tiling again. -/
theorem Tiles.flatMap {lo hi : α} {cs : List (Cell α β)} {f : Cell α β → List (Cell α γ)}
    (tiles : Tiles lo hi cs) (inner : ∀ c ∈ cs, Tiles c.lo c.hi (f c)) :
    Tiles lo hi (cs.flatMap f) := by
  induction cs generalizing lo with
  | nil => simpa using tiles
  | cons c cs ih =>
    obtain ⟨start, -, rest⟩ := tiles
    have head := inner c (by simp)
    rw [start] at head
    exact head.append (ih rest fun d mem => inner d (List.mem_cons_of_mem _ mem))

/-- Every cell of `cs` lies in a cell of `ds`, whose value is what `f` assigns to it. -/
def CoveredBy (f : Cell α β → γ) (cs : List (Cell α β)) (ds : List (Cell α γ)) : Prop :=
  ∀ c ∈ cs, ∃ d ∈ ds, c.Inside d ∧ d.val = f c

theorem CoveredBy.hasValue {f : Cell α β → γ} {cs : List (Cell α β)} {ds : List (Cell α γ)}
    (covered : CoveredBy f cs ds) {c : Cell α β} (mem : c ∈ cs) {a : α} (has : c.Has a) :
    HasValue ds a (f c) := by
  obtain ⟨d, memD, inside, value⟩ := covered c mem
  exact ⟨d, memD, has.inside inside, value⟩

theorem CoveredBy.refl (cs : List (Cell α β)) : CoveredBy Cell.val cs cs :=
  fun c mem => ⟨c, mem, ⟨le_refl _, le_refl _⟩, rfl⟩

theorem CoveredBy.trans {f : Cell α β → γ} {cs : List (Cell α β)} {ds es : List (Cell α γ)}
    (first : CoveredBy f cs ds) (second : CoveredBy Cell.val ds es) : CoveredBy f cs es := by
  intro c mem
  obtain ⟨d, memD, inside, value⟩ := first c mem
  obtain ⟨e, memE, outside, same⟩ := second d memD
  exact ⟨e, memE, ⟨le_trans outside.1 inside.1, le_trans inside.2 outside.2⟩, same.trans value⟩

/-- Consecutive cells cut out of `[lo, hi)` by a list of pivots, one cell for
each slot. -/
def cells (lo hi : α) : List α → List β → List (Cell α β)
  | _, [] => []
  | [], s :: _ => [⟨lo, hi, s⟩]
  | p :: ps, s :: ss => ⟨lo, p, s⟩ :: cells p hi ps ss

omit [LinearOrder α] in
@[simp] theorem cells_nil (lo hi : α) (ps : List α) : cells lo hi ps ([] : List β) = [] := by
  cases ps <;> rfl

omit [LinearOrder α] in
@[simp] theorem cells_last (lo hi : α) (s : β) (ss : List β) :
    cells lo hi [] (s :: ss) = [⟨lo, hi, s⟩] := rfl

omit [LinearOrder α] in
@[simp] theorem cells_cons (lo hi p : α) (ps : List α) (s : β) (ss : List β) :
    cells lo hi (p :: ps) (s :: ss) = ⟨lo, p, s⟩ :: cells p hi ps ss := rfl

/-- Pivots that increase strictly inside `(lo, hi)`. -/
def Increasing (lo hi : α) : List α → Prop
  | [] => lo < hi
  | p :: ps => lo < p ∧ Increasing p hi ps

@[simp] theorem increasing_nil (lo hi : α) : Increasing lo hi ([] : List α) ↔ lo < hi := Iff.rfl

@[simp] theorem increasing_cons (lo hi p : α) (ps : List α) :
    Increasing lo hi (p :: ps) ↔ lo < p ∧ Increasing p hi ps := Iff.rfl

theorem Increasing.lt {lo hi : α} {ps : List α} (inc : Increasing lo hi ps) : lo < hi := by
  induction ps generalizing lo with
  | nil => exact inc
  | cons p ps ih => exact lt_trans inc.1 (ih inc.2)

theorem Increasing.mem_bounds {lo hi : α} {ps : List α} (inc : Increasing lo hi ps) {p : α}
    (mem : p ∈ ps) : lo < p ∧ p < hi := by
  induction ps generalizing lo with
  | nil => simp at mem
  | cons q qs ih =>
    rcases List.mem_cons.mp mem with rfl | inTail
    · exact ⟨inc.1, inc.2.lt⟩
    · exact ⟨lt_trans inc.1 (ih inc.2 inTail).1, (ih inc.2 inTail).2⟩

theorem Increasing.pairwise {lo hi : α} {ps : List α} (inc : Increasing lo hi ps) :
    ps.Pairwise (· < ·) := by
  induction ps generalizing lo with
  | nil => exact .nil
  | cons p ps ih =>
    refine List.pairwise_cons.mpr ⟨fun q mem => ?_, ih inc.2⟩
    exact (inc.2.mem_bounds mem).1

theorem tiles_cells {lo hi : α} {ps : List α} {ss : List β} (inc : Increasing lo hi ps)
    (length : ss.length = ps.length + 1) : Tiles lo hi (cells lo hi ps ss) := by
  induction ps generalizing lo ss with
  | nil =>
    obtain ⟨s, rfl⟩ := List.length_eq_one_iff.mp length
    exact ⟨rfl, inc, rfl⟩
  | cons p ps ih =>
    cases ss with
    | nil => simp at length
    | cons s ss => exact ⟨rfl, inc.1, ih inc.2 (by simpa using length)⟩

omit [LinearOrder α] in
theorem mem_of_mem_cells {lo hi : α} {ps : List α} {ss : List β} {c : Cell α β}
    (mem : c ∈ cells lo hi ps ss) : c.val ∈ ss := by
  induction ss generalizing lo ps with
  | nil => simp at mem
  | cons s ss ih =>
    cases ps with
    | nil =>
      obtain rfl := List.mem_singleton.mp mem
      simp
    | cons p ps =>
      rcases List.mem_cons.mp mem with rfl | inTail
      · simp
      · exact List.mem_cons_of_mem _ (ih inTail)

omit [LinearOrder α] in
/-- A cell ends at pivots or at the ends of the whole. -/
theorem ends_of_mem_cells {lo hi : α} {ps : List α} {ss : List β} {c : Cell α β}
    (mem : c ∈ cells lo hi ps ss) : (c.lo = lo ∨ c.lo ∈ ps) ∧ (c.hi = hi ∨ c.hi ∈ ps) := by
  induction ss generalizing lo ps with
  | nil => simp at mem
  | cons s ss ih =>
    cases ps with
    | nil =>
      obtain rfl := List.mem_singleton.mp mem
      exact ⟨.inl rfl, .inl rfl⟩
    | cons p ps =>
      rcases List.mem_cons.mp mem with rfl | inTail
      · exact ⟨.inl rfl, .inr List.mem_cons_self⟩
      · obtain ⟨low, high⟩ := ih inTail
        refine ⟨.inr ?_, high.imp_right (List.mem_cons_of_mem _)⟩
        rcases low with same | inside
        · exact same ▸ List.mem_cons_self
        · exact List.mem_cons_of_mem _ inside

omit [LinearOrder α] in
theorem exists_cell_of_mem {lo hi : α} {ps : List α} {ss : List β} {s : β}
    (length : ss.length = ps.length + 1) (mem : s ∈ ss) :
    ∃ c ∈ cells lo hi ps ss, c.val = s := by
  induction ps generalizing lo ss with
  | nil =>
    obtain ⟨t, rfl⟩ := List.length_eq_one_iff.mp length
    exact ⟨⟨lo, hi, t⟩, by simp, (List.mem_singleton.mp mem).symm⟩
  | cons p ps ih =>
    cases ss with
    | nil => simp at length
    | cons t ts =>
      rcases List.mem_cons.mp mem with rfl | tail
      · exact ⟨⟨lo, p, s⟩, by simp, rfl⟩
      · obtain ⟨c, memC, eq⟩ := @ih p ts (by simpa using length) tail
        exact ⟨c, List.mem_cons_of_mem _ memC, eq⟩

omit [LinearOrder α] in
@[simp] theorem length_cells {lo hi : α} {ps : List α} {ss : List β}
    (length : ss.length = ps.length + 1) : (cells lo hi ps ss).length = ss.length := by
  induction ps generalizing lo ss with
  | nil =>
    obtain ⟨s, rfl⟩ := List.length_eq_one_iff.mp length
    rfl
  | cons p ps ih =>
    cases ss with
    | nil => simp at length
    | cons s ss => simpa using ih (by simpa using length)

omit [LinearOrder α] in
/-- Changing the slots cell by cell keeps the bounds of the cells. -/
theorem cells_map_cells (f : Cell α β → γ) {lo hi : α} {ps : List α} {ss : List β}
    (length : ss.length = ps.length + 1) :
    cells lo hi ps ((cells lo hi ps ss).map f) =
      (cells lo hi ps ss).map fun c => ⟨c.lo, c.hi, f c⟩ := by
  induction ps generalizing lo ss with
  | nil =>
    obtain ⟨s, rfl⟩ := List.length_eq_one_iff.mp length
    rfl
  | cons p ps ih =>
    cases ss with
    | nil => simp at length
    | cons s ss => simpa using ih (by simpa using length)

omit [LinearOrder α] in
theorem cells_map (f : β → γ) (lo hi : α) (ps : List α) (ss : List β) :
    cells lo hi ps (ss.map f) = (cells lo hi ps ss).map fun c => ⟨c.lo, c.hi, f c.val⟩ := by
  induction ss generalizing lo ps with
  | nil => simp
  | cons s ss ih =>
    cases ps with
    | nil => rfl
    | cons p ps => simpa using ih p ps

/-- No cell has `x` in its interior. -/
def IsBoundary (x : α) (cs : List (Cell α β)) : Prop := ∀ c ∈ cs, x ≤ c.lo ∨ c.hi ≤ x

theorem IsBoundary.of_coveredBy {f : Cell α β → γ} {x : α} {cs : List (Cell α β)}
    {ds : List (Cell α γ)} (boundary : IsBoundary x ds) (covered : CoveredBy f cs ds) :
    IsBoundary x cs := by
  intro c mem
  obtain ⟨d, memD, inside, -⟩ := covered c mem
  rcases boundary d memD with low | high
  · exact .inl (le_trans low inside.1)
  · exact .inr (le_trans inside.2 high)

theorem isBoundary_cells_of_mem {lo hi x : α} {ps : List α} {ss : List β}
    (inc : Increasing lo hi ps) (length : ss.length = ps.length + 1) (mem : x ∈ ps) :
    IsBoundary x (cells lo hi ps ss) := by
  induction ps generalizing lo ss with
  | nil => simp at mem
  | cons p ps ih =>
    cases ss with
    | nil => simp at length
    | cons s ss =>
      intro c memC
      have tail : Tiles p hi (cells p hi ps ss) := tiles_cells inc.2 (by simpa using length)
      rcases List.mem_cons.mp memC with rfl | tailC
      · rcases List.mem_cons.mp mem with rfl | tailX
        · exact .inr (le_refl _)
        · exact .inr (le_of_lt (inc.2.mem_bounds tailX).1)
      · rcases List.mem_cons.mp mem with rfl | tailX
        · exact .inl (tail.mem_bounds tailC).1
        · exact ih inc.2 (by simpa using length) tailX c tailC

end Opal.Library
