import Opal.Process.Sections
import Opal.VmTree.Areas

/-!
# Process images

In a sound image the mapped pages are those of its areas, each in a frame of its own that is not
free.  `map_section` keeps an image sound or leaves one that can still be given back; giving an
image back frees each of its frames once.
-/

namespace Opal.Process

open Opal.Library
open Opal.PageTable
open Opal.VmTree

section Release

variable {ptbl : Pagetable} {space : Space} {host : Host}

theorem physToPfn_frame {frame : Nat} (small : frame < 2 ^ 40) :
    physToPfn (frame * pageSize) = frame := by
  unfold physToPfn
  rw [pteAddr_of_aligned (Nat.mul_mod_left _ _) (by rw [pageSize_eq]; omega),
    Nat.mul_div_cancel frame (by decide : 0 < pageSize)]

/-- The frames of a range of pages can be given back: they are taken, and no two are the same. -/
structure Returnable (space : Space) (page count : Nat) (host : Host) : Prop where
  user : page + count ≤ userPages
  taken : ∀ i < count, ∀ f, space (page + i) = some f → f ∉ host.pool ∧ f < 2 ^ 40
  distinct : ∀ i < count, ∀ j < count, ∀ f, space (page + i) = some f →
    space (page + j) = some f → i = j

/-- The pool with the frames of some pages added to it. -/
def Returned (space : Space) (pages : Set Nat) (before after : Finset Nat) : Prop :=
  ∀ f, f ∈ after ↔ f ∈ before ∨ ∃ p ∈ pages, space p = some f

theorem Returned.refl {pool : Finset Nat} : Returned space ∅ pool pool :=
  fun _ => ⟨.inl, fun either => either.elim id fun ⟨_, absent, _⟩ => absent.elim⟩

theorem Returned.trans {first second : Set Nat} {before mid after : Finset Nat}
    (one : Returned space first before mid) (two : Returned space second mid after) :
    Returned space (first ∪ second) before after := by
  intro f
  rw [two f, one f]
  constructor
  · rintro ((old | ⟨p, mem, found⟩) | ⟨p, mem, found⟩)
    · exact .inl old
    · exact .inr ⟨p, .inl mem, found⟩
    · exact .inr ⟨p, .inr mem, found⟩
  · rintro (old | ⟨p, mem | mem, found⟩)
    · exact .inl (.inl old)
    · exact .inl (.inr ⟨p, mem, found⟩)
    · exact .inr ⟨p, mem, found⟩

/-- The pages of a range. -/
def pageRange (page count : Nat) : Set Nat := { p | page ≤ p ∧ p < page + count }

theorem pageRange_succ {page count : Nat} :
    pageRange page (count + 1) = {page} ∪ pageRange (page + 1) count := by
  ext p
  simp only [pageRange, Set.mem_ofPred_eq, Set.singleton_union, Set.mem_insert_iff]
  omega

theorem freePages_spec (maps : Maps ptbl space) {page count : Nat}
    (returnable : Returnable space page count host) :
    ∃ pool, freePages ptbl count (page * pageSize) host = some { host with pool := pool } ∧
      Returned space (pageRange page count) host.pool pool := by
  induction count generalizing page host with
  | zero =>
      refine ⟨host.pool, rfl, ?_⟩
      have empty : pageRange page 0 = ∅ := by
        ext p
        simp only [pageRange, Set.mem_ofPred_eq, Set.mem_empty_iff_false, iff_false]
        omega
      rw [empty]
      exact .refl
  | succ count inductionHypothesis =>
      have next : page * pageSize + pageSize = (page + 1) * pageSize := (Nat.succ_mul _ _).symm
      have lookup := maps.page (p := page) (by have := returnable.user; omega)
      have shifted (i : Nat) : page + 1 + i = page + (i + 1) := by omega
      have user : page + 1 + count ≤ userPages := by
        have := returnable.user
        omega
      unfold freePages
      rcases found : space page with _ | f
      · -- a page that is not mapped is passed over
        rw [found, Option.map_none] at lookup
        have rest : Returnable space (page + 1) count host := by
          refine ⟨user, fun i lower => ?_, fun i lower j lower' f same same' => ?_⟩
          · rw [shifted]
            exact returnable.taken (i + 1) (by omega)
          · rw [shifted] at same same'
            have := returnable.distinct (i + 1) (by omega) (j + 1) (by omega) f same same'
            omega
        obtain ⟨pool, freed, returned⟩ := inductionHypothesis rest
        simp only [lookup]
        rw [next]
        refine ⟨pool, freed, fun g => (returned g).trans (or_congr Iff.rfl ?_)⟩
        rw [pageRange_succ]
        constructor
        · rintro ⟨p, mem, at'⟩
          exact ⟨p, .inr mem, at'⟩
        · rintro ⟨p, rfl | mem, at'⟩
          · rw [found] at at'
            cases at'
          · exact ⟨p, mem, at'⟩
      · rw [found, Option.map_some] at lookup
        obtain ⟨taken, small⟩ := returnable.taken 0 (Nat.succ_pos _) f found
        have rest : Returnable space (page + 1) count
            { host with pool := insert f host.pool } := by
          refine ⟨user, fun i lower g at' => ?_, fun i lower j lower' g same same' => ?_⟩
          · rw [shifted] at at'
            obtain ⟨out, small'⟩ := returnable.taken (i + 1) (by omega) g at'
            refine ⟨fun mem => ?_, small'⟩
            rcases Finset.mem_insert.mp mem with rfl | mem
            · exact absurd (returnable.distinct 0 (by omega) (i + 1) (by omega) g found at')
                (by omega)
            · exact out mem
          · rw [shifted] at same same'
            have := returnable.distinct (i + 1) (by omega) (j + 1) (by omega) g same same'
            omega
        obtain ⟨pool, freed, returned⟩ := inductionHypothesis rest
        simp only [lookup, physToPfn_frame small, mmFreePage_single taken, Option.bind_some]
        rw [next]
        refine ⟨pool, freed, ?_⟩
        rw [pageRange_succ]
        have first : Returned space {page} host.pool (insert f host.pool) := by
          intro g
          rw [Finset.mem_insert]
          constructor
          · rintro (rfl | old)
            · exact .inr ⟨page, rfl, found⟩
            · exact .inl old
          · rintro (old | ⟨p, rfl, at'⟩)
            · exact .inr old
            · rw [found] at at'
              exact .inl (Option.some.inj at').symm
        exact first.trans returned

end Release

section Images

/-- A range of addresses with the `struct vm_area` of its pages. -/
abbrev Area := Cell ℕ ℕ

/-- The areas of a process. -/
def areasOf (vmtree : Node) : List Area := mapped vmtree

/-- The pages of some areas. -/
def pagesOf (areas : List Area) : Set Nat :=
  { p | ∃ c ∈ areas, c.lo ≤ p * pageSize ∧ p * pageSize < c.hi }

/-- Areas of the user half that start with a page, one behind the other. -/
structure Aligned (areas : List Area) : Prop where
  pairwise : areas.Pairwise fun c d => c.hi ≤ d.lo
  bounds : ∀ c ∈ areas, c.lo < c.hi ∧ c.hi ≤ 2 ^ 47
  aligned : ∀ c ∈ areas, c.lo % pageSize = 0

/-- An image that can be given back, whatever else its page table maps. -/
structure Releasable (image : Image) (host : Host) (space : Space) : Prop where
  wf : image.ptbl.Wf
  tree : VmTree.Wf image.vmtree 0 uintptrMax
  maps : Maps image.ptbl space
  aligned : Aligned (areasOf image.vmtree)
  live : ∀ c ∈ areasOf image.vmtree, (host.areas c.val).isSome
  distinct : ∀ c ∈ areasOf image.vmtree, ∀ d ∈ areasOf image.vmtree, c.val = d.val → c = d
  taken : ∀ p ∈ pagesOf (areasOf image.vmtree), ∀ f, space p = some f →
    f ∉ host.pool ∧ f < 2 ^ 40
  injective : ∀ p ∈ pagesOf (areasOf image.vmtree), ∀ q ∈ pagesOf (areasOf image.vmtree), ∀ f,
    space p = some f → space q = some f → p = q

/-- An image in which nothing but the pages of its areas is mapped, and all of these are. -/
structure Sound (image : Image) (host : Host) (space : Space) : Prop
    extends Releasable image host space where
  separated : Separated (segments image.vmtree 0 uintptrMax)
  covered : ∀ p, (space p).isSome ↔ p ∈ pagesOf (areasOf image.vmtree)

variable {image : Image} {host after : Host} {space : Space} {areas : List Area}

theorem Sound.canonicalTree (sound : Sound image host space) : Canonical image.vmtree :=
  ⟨sound.tree, sound.separated⟩

theorem Sound.mem_pages (sound : Sound image host space) {p f : Nat}
    (found : space p = some f) : p ∈ pagesOf (areasOf image.vmtree) :=
  (sound.covered p).mp (by rw [found]; rfl)

theorem Sound.frame_taken (sound : Sound image host space) {p f : Nat}
    (found : space p = some f) : f ∉ host.pool ∧ f < 2 ^ 40 :=
  sound.taken p (sound.mem_pages found) f found

/-- What is spared stays sound. -/
theorem Releasable.spared (releasable : Releasable image host space) {frames live : Set Nat}
    (spares : Spares host after frames live)
    (owned : ∀ p ∈ pagesOf (areasOf image.vmtree), ∀ f, space p = some f → f ∉ frames)
    (own : ∀ c ∈ areasOf image.vmtree, c.val ∉ live) : Releasable image after space where
  wf := releasable.wf
  tree := releasable.tree
  maps := releasable.maps
  aligned := releasable.aligned
  live := fun c mem => by
    rw [spares.areas c.val (own c mem) (releasable.live c mem)]
    exact releasable.live c mem
  distinct := releasable.distinct
  taken := fun p mem f found =>
    ⟨spares.pool f (owned p mem f found) (releasable.taken p mem f found).1,
      (releasable.taken p mem f found).2⟩
  injective := releasable.injective

theorem Sound.spared (sound : Sound image host space) {frames live : Set Nat}
    (spares : Spares host after frames live) (owned : ∀ p f, space p = some f → f ∉ frames)
    (own : ∀ c ∈ areasOf image.vmtree, c.val ∉ live) : Sound image after space :=
  ⟨sound.toReleasable.spared spares (fun p _ f => owned p f) own, sound.separated, sound.covered⟩

/-- The pages of one area are a range. -/
theorem Aligned.pages (aligned : Aligned areas) {c : Area} (mem : c ∈ areas) :
    ∃ page, c.lo = page * pageSize ∧ page + pageCount (c.hi - c.lo) ≤ userPages ∧
      ∀ p, p ∈ pageRange page (pageCount (c.hi - c.lo)) ↔
        c.lo ≤ p * pageSize ∧ p * pageSize < c.hi := by
  obtain ⟨nonempty, user⟩ := aligned.bounds c mem
  have whole := aligned.aligned c mem
  refine ⟨c.lo / pageSize, ?_, ?_, fun p => ?_⟩
  · exact (Nat.div_mul_cancel (Nat.dvd_of_mod_eq_zero whole)).symm
  · unfold pageCount userPages
    rw [pageSize_eq] at *
    omega
  · simp only [pageRange, pageCount, Set.mem_ofPred_eq]
    rw [pageSize_eq] at *
    omega

/-- An area and what comes behind it share no page. -/
theorem Aligned.tail {c : Area} (aligned : Aligned (c :: areas)) : Aligned areas where
  pairwise := (List.pairwise_cons.mp aligned.pairwise).2
  bounds := fun d mem => aligned.bounds d (List.mem_cons_of_mem _ mem)
  aligned := fun d mem => aligned.aligned d (List.mem_cons_of_mem _ mem)

theorem pagesOf_nil : pagesOf [] = ∅ := by
  ext p
  simp [pagesOf]

theorem mem_pagesOf_cons {c : Area} {p : Nat} :
    p ∈ pagesOf (c :: areas) ↔ (c.lo ≤ p * pageSize ∧ p * pageSize < c.hi) ∨ p ∈ pagesOf areas := by
  simp [pagesOf]

end Images

section Destroy

variable {image : Image} {host : Host} {space : Space} {ptbl : Pagetable}

/-- The frames of the pages can be given back one after the other. -/
structure Owned (space : Space) (pages : Set Nat) (pool : Finset Nat) : Prop where
  taken : ∀ p ∈ pages, ∀ f, space p = some f → f ∉ pool ∧ f < 2 ^ 40
  injective : ∀ p ∈ pages, ∀ q ∈ pages, ∀ f, space p = some f → space q = some f → p = q

/-- Giving back some of the pages leaves the others to be given back. -/
theorem Owned.rest {pages first rest : Set Nat} {before after : Finset Nat}
    (owned : Owned space pages before) (returned : Returned space first before after)
    (inFirst : first ⊆ pages) (inRest : rest ⊆ pages) (apart : ∀ p ∈ first, p ∉ rest) :
    Owned space rest after where
  taken := by
    intro p mem f found
    obtain ⟨out, small⟩ := owned.taken p (inRest mem) f found
    refine ⟨fun back => ?_, small⟩
    rcases (returned f).mp back with old | ⟨q, memQ, found'⟩
    · exact out old
    · have same := owned.injective p (inRest mem) q (inFirst memQ) f found found'
      exact apart q memQ (same ▸ mem)
  injective := fun p memP q memQ => owned.injective p (inRest memP) q (inRest memQ)

theorem freeEntries_spec (maps : Maps ptbl space) {areas : List Area} (aligned : Aligned areas)
    (owned : Owned space (pagesOf areas) host.pool) :
    ∃ pool, areas.foldlM (fun host entry =>
        freePages ptbl (pageCount (entry.hi - entry.lo)) entry.lo host) host =
          some { host with pool := pool } ∧
      Returned space (pagesOf areas) host.pool pool := by
  induction areas generalizing host with
  | nil =>
      refine ⟨host.pool, rfl, ?_⟩
      rw [pagesOf_nil]
      exact .refl
  | cons c rest inductionHypothesis =>
      obtain ⟨page, start, user, range⟩ := aligned.pages List.mem_cons_self
      have inFirst : pageRange page (pageCount (c.hi - c.lo)) ⊆ pagesOf (c :: rest) :=
        fun p mem => mem_pagesOf_cons.mpr (.inl ((range p).mp mem))
      have inRest : pagesOf rest ⊆ pagesOf (c :: rest) :=
        fun p mem => mem_pagesOf_cons.mpr (.inr mem)
      have apart (p : Nat) (mem : p ∈ pageRange page (pageCount (c.hi - c.lo))) :
          p ∉ pagesOf rest := by
        rintro ⟨d, memD, low, high⟩
        have behind := (List.pairwise_cons.mp aligned.pairwise).1 d memD
        have := ((range p).mp mem).2
        omega
      have inside (i : Nat) (lower : i < pageCount (c.hi - c.lo)) :
          page + i ∈ pagesOf (c :: rest) := inFirst ⟨by omega, by omega⟩
      have returnable : Returnable space page (pageCount (c.hi - c.lo)) host := by
        refine ⟨user, fun i lower => owned.taken _ (inside i lower), ?_⟩
        intro i lower j lower' f found found'
        have := owned.injective _ (inside i lower) _ (inside j lower') f found found'
        omega
      obtain ⟨pool, freed, returned⟩ := freePages_spec maps returnable
      obtain ⟨pool', freed', returned'⟩ := @inductionHypothesis { host with pool := pool }
        aligned.tail (owned.rest returned inFirst inRest apart)
      refine ⟨pool', ?_, ?_⟩
      · rw [← start] at freed
        rw [List.foldlM_cons, freed]
        exact freed'
      · have pages : pagesOf (c :: rest) =
            pageRange page (pageCount (c.hi - c.lo)) ∪ pagesOf rest := by
          ext p
          rw [mem_pagesOf_cons, Set.mem_union, range p]
        rw [pages]
        exact returned.trans returned'

/-- The areas that are left when some are freed. -/
def without (areas : List Area) (live : Nat → Option Flags) : Nat → Option Flags :=
  fun a => if a ∈ areas.map Cell.val then none else live a

theorem kfreeAreas_spec {areas : List Area} (live : ∀ c ∈ areas, (host.areas c.val).isSome)
    (distinct : (areas.map Cell.val).Nodup) :
    areas.foldlM (fun host entry => kfreeArea entry.val host) host =
      some { host with areas := without areas host.areas } := by
  induction areas generalizing host with
  | nil =>
      have same : without [] host.areas = host.areas := by
        funext a
        simp [without]
      rw [same]
      rfl
  | cons c rest inductionHypothesis =>
      rw [List.map_cons, List.nodup_cons] at distinct
      obtain ⟨flags, found⟩ := Option.isSome_iff_exists.mp (live c List.mem_cons_self)
      have freed : kfreeArea c.val host =
          some { host with areas := Function.update host.areas c.val none } := by
        simp only [kfreeArea, found]
      have others : ∀ d ∈ rest, (Function.update host.areas c.val none d.val).isSome := by
        intro d mem
        have ne : d.val ≠ c.val := fun same => distinct.1 (same ▸ List.mem_map_of_mem mem)
        rw [Function.update_of_ne ne]
        exact live d (List.mem_cons_of_mem _ mem)
      have rest' := @inductionHypothesis
        { host with areas := Function.update host.areas c.val none } others distinct.2
      rw [List.foldlM_cons, freed]
      refine rest'.trans (congrArg some ?_)
      have same : without rest (Function.update host.areas c.val none) =
          without (c :: rest) host.areas := by
        funext a
        unfold without
        by_cases first : a = c.val
        · subst first
          simp
        · simp [first]
      dsimp only
      rw [same]

theorem Releasable.entries (releasable : Releasable image host space) :
    entries image.vmtree = areasOf image.vmtree := releasable.tree.collect_mapped

theorem Releasable.nodup (releasable : Releasable image host space) :
    ((areasOf image.vmtree).map Cell.val).Nodup := by
  have behind := releasable.aligned.pairwise
  refine List.nodup_map_iff_inj_on ?_ |>.mpr releasable.distinct
  refine behind.imp_of_mem fun {c d} memC memD le => ?_
  rintro rfl
  have := (releasable.aligned.bounds c memC).1
  omega

/-- Giving an image back frees the frames of its areas, each one once, and its areas. -/
theorem Releasable.destroy (releasable : Releasable image host space) :
    ∃ pool, processImageDestroyParts image host =
        some { host with pool := pool, areas := without (areasOf image.vmtree) host.areas } ∧
      Returned space (pagesOf (areasOf image.vmtree)) host.pool pool := by
  obtain ⟨pool, freed, returned⟩ := freeEntries_spec releasable.maps releasable.aligned
    ⟨releasable.taken, releasable.injective⟩
  refine ⟨pool, ?_, returned⟩
  have first : freeMappedPagesAll image.ptbl image.vmtree host =
      some { host with pool := pool } := by
    unfold freeMappedPagesAll
    rw [releasable.entries]
    exact freed
  unfold processImageDestroyParts freeVmAreasAll
  rw [first, releasable.entries, Option.bind_some]
  exact @kfreeAreas_spec { host with pool := pool } _ releasable.live releasable.nodup

end Destroy

end Opal.Process
