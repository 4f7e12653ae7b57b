import Opal.Cpio.Paths
import Opal.Vfs.Entries

/-!
# The walk along the components

`vfs_lookup_path` skips separators in two places.  It is the walk along the components of the
path, so two paths with the same components lead to the same entry.
-/

namespace Opal.Vfs

open Opal.Cpio (segments isSlash notSlash)

section Separators

variable {s : List UInt8}

theorem takeWhile_split (p : UInt8 → Bool) (s : List UInt8) :
    s.take (s.takeWhile p).length = s.takeWhile p ∧
      s.drop (s.takeWhile p).length = s.dropWhile p := by
  have split : s.takeWhile p ++ s.dropWhile p = s := List.takeWhile_append_dropWhile
  constructor
  · exact (List.prefix_iff_eq_take.mp (List.takeWhile_prefix p)).symm
  · calc
      s.drop (s.takeWhile p).length =
          (s.takeWhile p ++ s.dropWhile p).drop (s.takeWhile p).length := by rw [split]
      _ = s.dropWhile p := List.drop_left

theorem contains_slash (ch : UInt8) : [slash].contains ch = isSlash ch := by
  rw [List.contains_cons, List.contains_nil, Bool.or_false]
  rfl

theorem strspn_eq : strspn s [slash] = (s.takeWhile isSlash).length := by
  rw [strspn, funext contains_slash]

theorem strcspn_eq : strcspn s [slash] = (s.takeWhile notSlash).length := by
  have same : (fun ch => !([slash].contains ch)) = notSlash := by
    funext ch
    rw [contains_slash, notSlash]
    cases isSlash ch <;> rfl
  rw [strcspn, same]

end Separators

section Walk

variable {ι φ σ : Type} (ops : FsOps ι φ σ)

/-- What a walk returns: the result, `*found` and the components that are left. -/
structure Walked where
  result : Except Kerrno Unit
  found : Option Nat
  unresolved : List Name

/-- The walk along the components. -/
def walk : List Name → State ι σ → Nat → Except Stop (Walked × State ι σ)
  | [], vfs, pe =>
      match (vfs.heap pe).inode with
      | none => .ok (⟨.error .enoent, some pe, []⟩, vfs)
      | some _ => .ok (⟨.ok (), some pe, []⟩, vfs)
  | name :: rest, vfs, pe =>
      match (vfs.heap pe).inode with
      | none => .ok (⟨.error .enoent, some pe, name :: rest⟩, vfs)
      | some inode =>
          if ¬ops.isDir inode then .ok (⟨.error .enotdir, some pe, name :: rest⟩, vfs)
          else if name.length > vfsMaxName then
            .ok (⟨.error .enoent, some pe, name :: rest⟩, vfs)
          else do
            let ((result, lookup), vfs) ← pathEntryLookup ops vfs pe name
            match lookup with
            | none => .ok (⟨result, some pe, name :: rest⟩, vfs)
            | some lookup => do
                let vfs ← pathEntryRelease vfs pe
                match result with
                | .error error => .ok (⟨.error error, some lookup, rest⟩, vfs)
                | .ok _ => walk rest vfs lookup

/-- What a caller can tell of a lookup, if it reads the rest of the path as components. -/
def Resolved.walked (resolved : Resolved) : Walked where
  result := resolved.result
  found := resolved.found
  unresolved := segments resolved.unresolved

def walkedOf (outcome : Except Stop (Resolved × State ι σ)) : Except Stop (Walked × State ι σ) :=
  outcome.map fun found => (found.1.walked, found.2)

variable {ops} {vfs : State ι σ} {pe rounds : Nat} {subpath : List UInt8}

/-- The loop follows the components. -/
theorem lookupLoop_walked (start : ∀ ch ∈ subpath.head?, isSlash ch = false)
    (enough : subpath.length < rounds) :
    walkedOf (lookupLoop ops rounds vfs pe subpath) = walk ops (segments subpath) vfs pe := by
  induction rounds generalizing vfs pe subpath with
  | zero => exact absurd enough (Nat.not_lt_zero _)
  | succ rounds inductionHypothesis =>
      rw [lookupLoop]
      by_cases empty : subpath = []
      · subst empty
        rw [Cpio.segments_nil, walk]
        cases (vfs.heap pe).inode with
        | none => rfl
        | some inode => rfl
      · have components := Cpio.segments_cons start empty
        have name := Cpio.takeWhile_ne_nil start empty
        obtain ⟨front, behind⟩ := takeWhile_split notSlash subpath
        obtain ⟨-, skipped⟩ := takeWhile_split isSlash (subpath.dropWhile notSlash)
        have unchanged (result : Except Kerrno Unit) :
            Resolved.walked ⟨result, some pe, subpath⟩ = ⟨result, some pe,
              subpath.takeWhile notSlash :: segments (subpath.dropWhile notSlash)⟩ := by
          rw [Resolved.walked, components]
        rw [components, walk]
        cases (vfs.heap pe).inode with
        | none => exact congrArg Except.ok (Prod.ext (unchanged _) rfl)
        | some inode =>
            dsimp only
            rw [if_neg empty, strcspn_eq, front]
            by_cases isDir : ops.isDir inode = true
            · have directory : ¬¬ops.isDir inode = true := not_not.mpr isDir
              rw [if_neg directory, if_neg directory]
              by_cases long : (subpath.takeWhile notSlash).length > vfsMaxName
              · rw [if_pos long, if_pos long]
                exact congrArg Except.ok (Prod.ext (unchanged _) rfl)
              · rw [if_neg long, if_neg long]
                cases pathEntryLookup ops vfs pe (subpath.takeWhile notSlash) with
                | error stop => rfl
                | ok answer =>
                    obtain ⟨⟨result, lookup⟩, vfs⟩ := answer
                    simp only [ok_bind]
                    cases lookup with
                    | none => exact congrArg Except.ok (Prod.ext (unchanged _) rfl)
                    | some lookup =>
                        dsimp only
                        rw [behind, strspn_eq, skipped]
                        cases pathEntryRelease vfs pe with
                        | error stop => rfl
                        | ok vfs =>
                            simp only [ok_bind]
                            cases result with
                            | error error =>
                                exact congrArg Except.ok (Prod.ext
                                  (congrArg (Walked.mk (.error error) (some lookup))
                                    Cpio.segments_dropWhile) rfl)
                            | ok _ =>
                                dsimp only
                                rw [inductionHypothesis Cpio.head_dropWhile,
                                  Cpio.segments_dropWhile]
                                have shorter := List.length_pos_of_ne_nil name
                                have split := congrArg List.length
                                  (@List.takeWhile_append_dropWhile _ notSlash subpath)
                                have rest := (List.dropWhile_suffix isSlash
                                  (l := subpath.dropWhile notSlash)).length_le
                                rw [List.length_append] at split
                                omega
            · rw [if_pos isDir, if_pos isDir]
              exact congrArg Except.ok (Prod.ext (unchanged _) rfl)

/-- The walk from the entry where a path starts. -/
def walkFrom (ops : FsOps ι φ σ) (vfs : State ι σ) (pe : Nat) (components : List Name) :
    Except Stop (Walked × State ι σ) := do
  let vfs ← pathEntryRetain vfs pe
  walk ops components vfs pe

theorem lookupFrom_walked (start : ∀ ch ∈ subpath.head?, isSlash ch = false) :
    walkedOf (lookupFrom ops vfs pe subpath) = walkFrom ops vfs pe (segments subpath) := by
  unfold lookupFrom walkFrom
  cases pathEntryRetain vfs pe with
  | error stop => rfl
  | ok vfs => exact lookupLoop_walked start (Nat.lt_succ_self _)

/-- Where a path starts; `none` where that is a null pointer. -/
def startOf (pe : Option Nat) (absolute : Bool) : Option Nat :=
  if absolute then some gRoot else pe

/-- A lookup is the walk along the components of its path. -/
theorem vfsLookupPath_walked (ops : FsOps ι φ σ) (vfs : State ι σ) (pe : Option Nat)
    {path : List UInt8} (nonempty : path ≠ []) :
    walkedOf (vfsLookupPath ops vfs pe path) =
      match startOf pe (path.head? = some slash) with
      | some start => walkFrom ops vfs start (segments path)
      | none => .ok (⟨.error .einval, none, segments path⟩, vfs) := by
  unfold vfsLookupPath startOf
  by_cases absolute : path.head? = some slash
  · obtain ⟨-, skipped⟩ := takeWhile_split isSlash path
    rw [if_pos absolute, decide_eq_true absolute, if_pos rfl, strspn_eq, skipped,
      lookupFrom_walked Cpio.head_dropWhile, Cpio.segments_dropWhile]
  · have start : ∀ ch ∈ path.head?, isSlash ch = false := by
      intro ch first
      refine decide_eq_false ?_
      rintro rfl
      exact absolute first
    rw [if_neg absolute, decide_eq_false absolute, if_neg nonempty, if_neg Bool.false_ne_true]
    cases pe with
    | none => rfl
    | some pe => exact lookupFrom_walked start

end Walk

end Opal.Vfs
