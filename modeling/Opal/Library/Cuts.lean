import Opal.Library.Tiling

/-!
# Cuts of tilings of the natural numbers

A tiling shows a function.  It is separate when every cut lies between two different values.  From
two tilings, the functions they show and where one of them is cut, one can tell which cells that
are no holes they share: all of them when only holes are cut anew, and one more when a new value
is written into a hole.
-/

namespace Opal.Library

variable {β : Type} {lo hi : ℕ} {T T' : List (Cell ℕ β)} {f f' : ℕ → β}

/-- The tiling shows the function. -/
def Shows (T : List (Cell ℕ β)) (f : ℕ → β) : Prop := ∀ c ∈ T, ∀ a, c.Has a → f a = c.val

/-- Cells that touch carry different values. -/
def Separate (T : List (Cell ℕ β)) : Prop := ∀ c ∈ T, ∀ d ∈ T, c.hi = d.lo → c.val ≠ d.val

theorem Tiles.isBoundary_ends (tiles : Tiles lo hi T) {c : Cell ℕ β} (mem : c ∈ T) :
    IsBoundary c.lo T ∧ IsBoundary c.hi T := by
  have inner := (tiles.mem_bounds mem).2.1
  constructor <;> intro d memD <;> by_cases same : c = d
  · exact .inl (same ▸ Nat.le_refl _)
  · exact (tiles.apart mem memD same).imp (fun le => by omega) id
  · exact .inr (same ▸ Nat.le_refl _)
  · exact (tiles.apart mem memD same).imp id fun le => by omega

/-- In a separate tiling the values on the two sides of a cut differ. -/
theorem Separate.differ (separate : Separate T) (tiles : Tiles lo hi T) (shows : Shows T f)
    {b : ℕ} (cut : IsBoundary b T) (low : lo < b) (high : b < hi) : f (b - 1) ≠ f b := by
  obtain ⟨c, memC, hasC⟩ := tiles.exists_has (a := b - 1) (by omega) (by omega)
  obtain ⟨d, memD, hasD⟩ := tiles.exists_has (Nat.le_of_lt low) high
  have endC : c.hi = b := by
    rcases cut c memC with le | le
    · have := hasC.1
      omega
    · have := hasC.2
      omega
  have startD : d.lo = b := by
    rcases cut d memD with le | le
    · have := hasD.1
      omega
    · have := hasD.2
      omega
  rw [shows c memC _ hasC, shows d memD _ hasD]
  exact separate c memC d memD (endC.trans startD.symm)

theorem separate_of_differ (tiles : Tiles lo hi T) (shows : Shows T f)
    (differ : ∀ b, IsBoundary b T → lo < b → b < hi → f (b - 1) ≠ f b) : Separate T := by
  intro c memC d memD touch same
  have boundsC := tiles.mem_bounds memC
  have boundsD := tiles.mem_bounds memD
  apply differ c.hi (tiles.isBoundary_ends memC).2 (by omega) (by omega)
  rw [shows c memC _ ⟨by omega, by omega⟩, shows d memD _ ⟨by omega, by omega⟩, same]

/-- Cells of two tilings that share a point are equal when neither is cut in the other tiling. -/
theorem eq_of_cuts {c d : Cell ℕ β} (tiles : Tiles lo hi T) (tiles' : Tiles lo hi T')
    (memC : c ∈ T') (memD : d ∈ T) {a : ℕ} (hasC : c.Has a) (hasD : d.Has a)
    (inC : ∀ b, c.lo < b → b < c.hi → ¬ IsBoundary b T)
    (inD : ∀ b, d.lo < b → b < d.hi → ¬ IsBoundary b T') (same : c.val = d.val) : c = d := by
  have endsC := tiles'.isBoundary_ends memC
  have endsD := tiles.isBoundary_ends memD
  obtain ⟨lowC, highC⟩ := hasC
  obtain ⟨lowD, highD⟩ := hasD
  have low : c.lo = d.lo := by
    rcases Nat.lt_trichotomy c.lo d.lo with less | eq | greater
    · exact absurd endsD.1 (inC _ less (by omega))
    · exact eq
    · exact absurd endsC.1 (inD _ greater (by omega))
  have high : c.hi = d.hi := by
    rcases Nat.lt_trichotomy c.hi d.hi with less | eq | greater
    · exact absurd endsC.2 (inD _ (by omega) less)
    · exact eq
    · exact absurd endsD.2 (inC _ (by omega) greater)
  cases c
  cases d
  simp_all

section Agree

variable (tiles : Tiles lo hi T) (tiles' : Tiles lo hi T') (separate : Separate T)
  (shows : Shows T f) (shows' : Shows T' f')
include tiles tiles' separate shows shows'

/-- A cell of the new tiling where the function has not changed is a cell of the old one, which it
meets, unless that one is cut. -/
theorem eq_of_shows {c d : Cell ℕ β} (memC : c ∈ T') (memD : d ∈ T) {a : ℕ} (hasC : c.Has a)
    (hasD : d.Has a) (same : ∀ a, c.Has a → f' a = f a)
    (uncut : ∀ b, d.lo < b → b < d.hi → ¬ IsBoundary b T') : c = d := by
  have boundsC := tiles'.mem_bounds memC
  refine eq_of_cuts tiles tiles' memC memD hasC hasD (fun b low high cut => ?_) uncut ?_
  · apply separate.differ tiles shows cut (by omega) (by omega)
    rw [← same _ ⟨by omega, by omega⟩, ← same _ ⟨by omega, by omega⟩,
      shows' c memC _ ⟨by omega, by omega⟩, shows' c memC _ ⟨by omega, by omega⟩]
  · rw [← shows' c memC a hasC, same a hasC, shows d memD a hasD]

/-- When the function stays and the cells of a kind are not cut, these stay as well. -/
theorem mem_of_uncut (kind : β → Prop) (same : ∀ a, lo ≤ a → a < hi → f' a = f a)
    (uncut : ∀ d ∈ T, kind d.val → ∀ b, d.lo < b → b < d.hi → ¬ IsBoundary b T')
    (c : Cell ℕ β) : c ∈ T' ∧ kind c.val ↔ c ∈ T ∧ kind c.val := by
  constructor
  · rintro ⟨mem, ofKind⟩
    have bounds := tiles'.mem_bounds mem
    have start : c.Has c.lo := ⟨Nat.le_refl _, bounds.2.1⟩
    obtain ⟨d, memD, hasD⟩ := tiles.exists_has (a := c.lo) (by omega) (by omega)
    have value : d.val = c.val := by
      rw [← shows d memD _ hasD, ← same _ (by omega) (by omega), shows' c mem _ start]
    have eq : c = d := eq_of_shows tiles tiles' separate shows shows' mem memD start hasD
      (fun a has => same a (by have := has.1; omega) (by have := has.2; omega))
      (uncut d memD (value ▸ ofKind))
    exact ⟨eq ▸ memD, ofKind⟩
  · rintro ⟨mem, ofKind⟩
    have bounds := tiles.mem_bounds mem
    have start : c.Has c.lo := ⟨Nat.le_refl _, bounds.2.1⟩
    obtain ⟨d, memD, hasD⟩ := tiles'.exists_has (a := c.lo) (by omega) (by omega)
    have boundsD := tiles'.mem_bounds memD
    have eq : d = c := eq_of_shows tiles tiles' separate shows shows' memD mem hasD start
      (fun a has => same a (by have := has.1; omega) (by have := has.2; omega))
      (uncut c mem ofKind)
    exact ⟨eq ▸ memD, ofKind⟩

end Agree

section Written

variable (tiles : Tiles lo hi T) (tiles' : Tiles lo hi T') (separate : Separate T)
  (shows : Shows T f) (shows' : Shows T' f') {start stop : ℕ} {hole new : β}
  (nonempty : start < stop)
  (inside : ∀ a, start ≤ a → a < stop → f' a = new)
  (outside : ∀ a, lo ≤ a → a < hi → a < start ∨ stop ≤ a → f' a = f a)
include tiles tiles' separate shows shows' nonempty inside outside

/-- A new value written into a hole leaves a separate tiling separate. -/
theorem separate_of_written (fresh : ∀ a, lo ≤ a → a < hi → f a ≠ new)
    (free : ∀ a, start ≤ a → a < stop → f a = hole)
    (cuts : ∀ b, IsBoundary b T' → b = start ∨ b = stop ∨ IsBoundary b T) : Separate T' := by
  refine separate_of_differ tiles' shows' fun b cut low high => ?_
  have old (ne : b ≠ start) (ne' : b ≠ stop) : f (b - 1) ≠ f b :=
    separate.differ tiles shows (((cuts b cut).resolve_left ne).resolve_left ne') low high
  rcases Nat.lt_trichotomy b start with less | rfl | greater
  · rw [outside _ (by omega) (by omega) (by omega), outside _ (by omega) (by omega) (by omega)]
    exact old (by omega) (by omega)
  · rw [inside b (Nat.le_refl _) nonempty, outside _ (by omega) (by omega) (by omega)]
    exact fresh _ (by omega) (by omega)
  · rcases Nat.lt_trichotomy b stop with less | rfl | beyond
    · have both := old (by omega) (by omega)
      rw [free _ (by omega) (by omega), free _ (by omega) less] at both
      exact absurd rfl both
    · rw [inside _ (by omega) (by omega), outside b (by omega) high (by omega)]
      exact (fresh b (by omega) high).symm
    · rw [outside _ (by omega) (by omega) (by omega), outside _ (by omega) (by omega) (by omega)]
      exact old (by omega) (by omega)

omit tiles' separate shows' nonempty inside outside in
/-- A cell that is no hole lies beside a range that is one. -/
theorem beside_of_free (nonempty : start < stop)
    (free : ∀ a, start ≤ a → a < stop → f a = hole) {d : Cell ℕ β} (mem : d ∈ T)
    (value : d.val ≠ hole) : d.hi ≤ start ∨ stop ≤ d.lo := by
  have bounds := tiles.mem_bounds mem
  by_contra meet
  apply value
  rw [← shows d mem (max d.lo start) ⟨by omega, by omega⟩]
  exact free _ (by omega) (by omega)

omit nonempty inside in
/-- A cell with the old value of its range is an old one. -/
theorem mem_of_outside {c : Cell ℕ β} (mem : c ∈ T') (off : c.hi ≤ start ∨ stop ≤ c.lo)
    (uncut : ∀ d ∈ T, d.val = c.val → ∀ b, d.lo < b → b < d.hi → ¬ IsBoundary b T') : c ∈ T := by
  have bounds := tiles'.mem_bounds mem
  have begins : c.Has c.lo := ⟨Nat.le_refl _, bounds.2.1⟩
  obtain ⟨d, memD, hasD⟩ := tiles.exists_has (a := c.lo) (by omega) (by omega)
  have same (a : ℕ) (has : c.Has a) : f' a = f a :=
    outside a (by have := has.1; omega) (by have := has.2; omega)
      (by have := has.1; have := has.2; omega)
  have value : d.val = c.val := by
    rw [← shows d memD _ hasD, ← same _ begins, shows' c mem _ begins]
  have eq : c = d := eq_of_shows tiles tiles' separate shows shows' mem memD begins hasD same
    (uncut d memD value)
  exact eq ▸ memD

/-- Writing a new value into a hole adds the range to the cells that are no holes. -/
theorem mem_of_written (low : lo ≤ start) (high : stop ≤ hi)
    (fresh : ∀ a, lo ≤ a → a < hi → f a ≠ new)
    (free : ∀ a, start ≤ a → a < stop → f a = hole)
    (cuts : ∀ b, IsBoundary b T' → b = start ∨ b = stop ∨ IsBoundary b T) (c : Cell ℕ β) :
    c ∈ T' ∧ c.val ≠ hole ↔ c ∈ T ∧ c.val ≠ hole ∨ c = ⟨start, stop, new⟩ := by
  have isNew : new ≠ hole := fun same =>
    fresh start low (by omega) ((free start (Nat.le_refl _) nonempty).trans same.symm)
  have differ := fun b => (separate_of_written tiles tiles' separate shows shows' nonempty inside
    outside fresh free cuts).differ tiles' shows' (b := b)
  have forward (c : Cell ℕ β) (mem : c ∈ T') (value : c.val ≠ hole) :
      c ∈ T ∨ c = ⟨start, stop, new⟩ := by
    have bounds := tiles'.mem_bounds mem
    have ends := tiles'.isBoundary_ends mem
    by_cases written : c.val = new
    · have within (a : ℕ) (first : c.lo ≤ a) (last : a < c.hi) : start ≤ a ∧ a < stop := by
        by_contra off
        apply fresh a (by omega) (by omega)
        rw [← outside a (by omega) (by omega) (by omega), shows' c mem a ⟨first, last⟩, written]
      have first := within c.lo (Nat.le_refl _) bounds.2.1
      have last := within (c.hi - 1) (by omega) (by omega)
      have begins : c.lo = start := by
        by_contra differs
        apply differ c.lo ends.1 (by omega) (by omega)
        rw [inside _ (by omega) (by omega), inside _ (by omega) (by omega)]
      have finishes : c.hi = stop := by
        by_contra differs
        apply differ c.hi ends.2 (by omega) (by omega)
        rw [inside _ (by omega) (by omega), inside _ (by omega) (by omega)]
      refine .inr ?_
      cases c
      simp_all
    · have off : c.hi ≤ start ∨ stop ≤ c.lo := by
        by_contra meet
        apply written
        rw [← shows' c mem (max c.lo start) ⟨by omega, by omega⟩]
        exact inside _ (by omega) (by omega)
      refine .inl (mem_of_outside tiles tiles' separate shows shows' outside mem
        off fun d memD same b above under cut => ?_)
      have beside := beside_of_free tiles shows nonempty free memD (same ▸ value)
      rcases cuts b cut with rfl | rfl | old
      · omega
      · omega
      · rcases old d memD with le | le <;> omega
  constructor
  · rintro ⟨mem, value⟩
    exact (forward c mem value).imp (fun old => ⟨old, value⟩) id
  · rintro (⟨mem, value⟩ | rfl)
    · have bounds := tiles.mem_bounds mem
      have beside := beside_of_free tiles shows nonempty free mem value
      obtain ⟨d, memD, hasD⟩ := tiles'.exists_has (a := c.lo) (by omega) (by omega)
      have begins : c.Has c.lo := ⟨Nat.le_refl _, bounds.2.1⟩
      have same : d.val = c.val := by
        rw [← shows' d memD _ hasD, outside _ (by omega) (by omega) (by omega),
          shows c mem _ begins]
      rcases forward d memD (same ▸ value) with old | rfl
      · obtain rfl := tiles.eq_of_has old mem hasD begins
        exact ⟨memD, value⟩
      · have := hasD.1
        have := hasD.2
        dsimp only at *
        omega
    · obtain ⟨d, memD, hasD⟩ := tiles'.exists_has (a := start) low (by omega)
      have value : d.val = new := by
        rw [← shows' d memD _ hasD, inside _ (Nat.le_refl _) nonempty]
      rcases forward d memD (value ▸ isNew) with old | rfl
      · refine absurd ?_ (fresh start low (by omega))
        rw [shows d old _ hasD, value]
      · exact ⟨memD, isNew⟩

/-- Making a cell a hole takes it away from the cells that are no holes. -/
theorem mem_of_erased {value : β} (mem : ⟨start, stop, value⟩ ∈ T) (erases : new = hole)
    (cuts : ∀ b, IsBoundary b T' → IsBoundary b T) (c : Cell ℕ β) :
    c ∈ T' ∧ c.val ≠ hole ↔ (c ∈ T ∧ c.val ≠ hole) ∧ c ≠ ⟨start, stop, value⟩ := by
  have forward (c : Cell ℕ β) (new' : c ∈ T') (value' : c.val ≠ hole) :
      c ∈ T ∧ c ≠ ⟨start, stop, value⟩ := by
    have bounds := tiles'.mem_bounds new'
    have off : c.hi ≤ start ∨ stop ≤ c.lo := by
      by_contra meet
      apply value'
      rw [← shows' c new' (max c.lo start) ⟨by omega, by omega⟩, ← erases]
      exact inside _ (by omega) (by omega)
    refine ⟨mem_of_outside tiles tiles' separate shows shows' outside new' off
      fun d memD _ b above under cut => ?_, ?_⟩
    · rcases cuts b cut d memD with le | le <;> omega
    · rintro rfl
      dsimp only at *
      omega
  constructor
  · rintro ⟨new', value'⟩
    exact ⟨⟨(forward c new' value').1, value'⟩, (forward c new' value').2⟩
  · rintro ⟨⟨old, value'⟩, ne⟩
    have bounds := tiles.mem_bounds old
    have begins : c.Has c.lo := ⟨Nat.le_refl _, bounds.2.1⟩
    have apart := tiles.apart old mem ne
    obtain ⟨d, memD, hasD⟩ := tiles'.exists_has (a := c.lo) (by omega) (by omega)
    have same : d.val = c.val := by
      rw [← shows' d memD _ hasD, outside _ bounds.1 (by omega) (by dsimp only at apart; omega),
        shows c old _ begins]
    have memT := (forward d memD (same ▸ value')).1
    obtain rfl := tiles.eq_of_has memT old hasD begins
    exact ⟨memD, value'⟩

end Written

end Opal.Library
