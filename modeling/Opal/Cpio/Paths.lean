import Opal.Cpio.Archive
import Mathlib.Data.List.DropRight

/-!
# Paths of a cpio archive

The loops over the bytes of a path stay inside the buffer, end, and go through the
components of the path one after the other.
-/

namespace Opal.Cpio

section Windows

variable {image : Image} {pos n : Nat}

/-- The `n` bytes from `pos`. -/
def Image.window (image : Image) (pos : Nat) : Nat → List UInt8
  | 0 => []
  | n + 1 => image.bytes pos :: image.window (pos + 1) n

@[simp]
theorem length_window : (image.window pos n).length = n := by
  induction n generalizing pos with
  | zero => rfl
  | succ n inductionHypothesis => exact congrArg (· + 1) inductionHypothesis

theorem window_add (m : Nat) :
    image.window pos (m + n) = image.window pos m ++ image.window (pos + m) n := by
  induction m generalizing pos with
  | zero => rw [Nat.zero_add]; rfl
  | succ m inductionHypothesis =>
      rw [Nat.add_right_comm]
      show image.bytes pos :: image.window (pos + 1) (m + n) = _
      rw [inductionHypothesis, Nat.add_assoc, Nat.add_comm 1 m]
      rfl

theorem drop_window {k : Nat} (inside : k ≤ n) :
    (image.window pos n).drop k = image.window (pos + k) (n - k) := by
  obtain ⟨rest, rfl⟩ := Nat.exists_eq_add_of_le inside
  rw [window_add, List.drop_left' length_window, Nat.add_sub_cancel_left]

theorem take_window {k : Nat} (inside : k ≤ n) :
    (image.window pos n).take k = image.window pos k := by
  obtain ⟨rest, rfl⟩ := Nat.exists_eq_add_of_le inside
  rw [window_add, List.take_left' length_window]

theorem read_eq (inside : pos < image.len) : image.read pos = .ok (image.bytes pos) :=
  if_pos inside

theorem slice_eq (inside : pos + n ≤ image.len) :
    image.slice pos n = .ok (image.window pos n) := by
  induction n generalizing pos with
  | zero => rfl
  | succ n inductionHypothesis =>
      unfold Image.slice
      rw [read_eq (by omega), ok_bind, inductionHypothesis (by omega)]
      rfl

/-- A scan goes over the bytes of which the predicate holds. -/
theorem skipWhile_eq (p : UInt8 → Bool) (inside : pos + n ≤ image.len) :
    skipWhile image p pos n = .ok (pos + ((image.window pos n).takeWhile p).length) := by
  induction n generalizing pos with
  | zero => rfl
  | succ n inductionHypothesis =>
      unfold skipWhile Image.window
      rw [read_eq (by omega), ok_bind, List.takeWhile_cons]
      split
      · rw [inductionHypothesis (by omega), List.length_cons, Nat.add_assoc, Nat.add_comm 1]
      · rfl

theorem isDot_eq (inside : pos + n ≤ image.len) :
    isDot image pos n = .ok (decide (image.window pos n = [dot])) := by
  unfold isDot
  split
  · rename_i one
    subst one
    rw [read_eq (by omega)]
    simp [Image.window, pure, Except.pure, bind, Except.bind]
  · rename_i other
    rw [decide_eq_false]
    · rfl
    · intro same
      have := congrArg List.length same
      rw [length_window] at this
      exact other this

theorem isDotdot_eq (inside : pos + n ≤ image.len) :
    isDotdot image pos n = .ok (decide (image.window pos n = [dot, dot])) := by
  unfold isDotdot
  split
  · rename_i two
    subst two
    rw [read_eq (by omega), ok_bind, read_eq (by omega)]
    by_cases first : image.bytes pos = dot
    · simp [Image.window, first, pure, Except.pure, bind, Except.bind]
    · simp [Image.window, first, pure, Except.pure]
  · rename_i other
    rw [decide_eq_false]
    · rfl
    · intro same
      have := congrArg List.length same
      rw [length_window] at this
      exact other this

end Windows

section Segments

variable {path rest : List UInt8}

/-- The components of a path, without the empty ones. -/
def segments (path : List UInt8) : List Name := (path.splitOn slash).filter fun name => name ≠ []

theorem segments_nil : segments [] = [] := rfl

theorem segments_slash : segments (slash :: rest) = segments rest := by
  unfold segments
  rw [← List.nil_append (slash :: rest), List.splitOn_append_cons_self, List.filter_append]
  rfl

/-- Slashes before a path do not count. -/
theorem segments_dropWhile : segments (path.dropWhile isSlash) = segments path := by
  induction path with
  | nil => rfl
  | cons ch rest inductionHypothesis =>
      rw [List.dropWhile_cons]
      split
      · rename_i isSlash
        rw [inductionHypothesis, show ch = slash from of_decide_eq_true isSlash, segments_slash]
      · rfl

/-- The first component of a path that does not start with a slash. -/
theorem segments_of_not_slash {seg : Name} (nonempty : seg ≠ []) (plain : slash ∉ seg)
    (next : ∀ ch ∈ rest.head?, ch = slash) : segments (seg ++ rest) = seg :: segments rest := by
  cases rest with
  | nil =>
      unfold segments
      rw [List.append_nil, List.splitOn_eq_singleton plain]
      simp [nonempty]
  | cons ch rest =>
      rw [next ch rfl, segments_slash]
      unfold segments
      rw [List.splitOn_append_cons_self, List.splitOn_eq_singleton plain, List.singleton_append,
        List.filter_cons_of_pos (by simpa using nonempty)]

/-- The bytes of a component. -/
def notSlash (ch : UInt8) : Bool := ¬ isSlash ch

theorem head_dropWhile {p : UInt8 → Bool} : ∀ ch ∈ (path.dropWhile p).head?, p ch = false := by
  intro ch first
  have := List.head?_dropWhile_not p path
  rw [Option.mem_def] at first
  rw [first] at this
  simpa using this

theorem takeWhile_ne_nil (start : ∀ ch ∈ path.head?, isSlash ch = false) (nonempty : path ≠ []) :
    path.takeWhile notSlash ≠ [] := by
  cases path with
  | nil => exact absurd rfl nonempty
  | cons ch rest =>
      have first : notSlash ch = true := by simp [notSlash, start ch rfl]
      rw [List.takeWhile_cons, if_pos first]
      exact List.cons_ne_nil _ _

/-- A path behind its slashes starts with its first component. -/
theorem segments_cons (start : ∀ ch ∈ path.head?, isSlash ch = false) (nonempty : path ≠ []) :
    segments path = path.takeWhile notSlash :: segments (path.dropWhile notSlash) := by
  have split : path.takeWhile notSlash ++ path.dropWhile notSlash = path :=
    List.takeWhile_append_dropWhile
  have plain : slash ∉ path.takeWhile notSlash := by
    intro member
    have all := List.all_eq_true.mp (List.all_takeWhile (p := notSlash)) slash member
    exact absurd all (by decide)
  nth_rewrite 1 [← split]
  refine segments_of_not_slash (takeWhile_ne_nil start nonempty) plain fun ch first => ?_
  have behind := head_dropWhile ch first
  simpa [notSlash, isSlash] using behind

theorem segments_eq_nil : segments path = [] ↔ path.dropWhile isSlash = [] := by
  rw [← segments_dropWhile]
  constructor
  · intro empty
    by_contra nonempty
    rw [segments_cons head_dropWhile nonempty] at empty
    cases empty
  · intro empty
    rw [empty]
    rfl

end Segments

section Insertion

variable {image : Image} {stop : Nat} {payload : Payload}

/-- The loop of `add_archive_entry` over the components of the path. -/
def insertPath (payload : Payload) : List Name → Node → Nat → Except Fault (Node × Nat)
  | [], node, nextIno => .ok (node, nextIno)
  | seg :: rest, node, nextIno =>
      if seg.length > vfsMaxName ∨ seg = [dot, dot] then .error .einval
      else if seg = [dot] then
        if rest = [] then atRoot payload node nextIno else insertPath payload rest node nextIno
      else if rest = [] then upsertLeaf nextIno node seg payload
      else do
        let (child, nextIno) ← ensureDirChild nextIno node seg
        let (child, nextIno) ← insertPath payload rest child nextIno
        pure (node.withChild seg child, nextIno)

/-- The bytes that a scan skips and those it leaves. -/
theorem skipped_window {pos : Nat} (p : UInt8 → Bool) {i : Nat}
    (at_i : i = pos + ((image.window pos (stop - pos)).takeWhile p).length) (below : pos ≤ stop) :
    pos ≤ i ∧ i ≤ stop ∧ image.window pos (i - pos) = (image.window pos (stop - pos)).takeWhile p ∧
      image.window i (stop - i) = (image.window pos (stop - pos)).dropWhile p := by
  have le : ((image.window pos (stop - pos)).takeWhile p).length ≤ stop - pos := by
    have := (List.takeWhile_prefix p (l := image.window pos (stop - pos))).length_le
    rwa [length_window] at this
  have taken := @take_window image pos (stop - pos) _ le
  have dropped := @drop_window image pos (stop - pos) _ le
  have split := @List.takeWhile_append_dropWhile _ p (image.window pos (stop - pos))
  subst at_i
  refine ⟨by omega, by omega, ?_, ?_⟩
  · rw [Nat.add_sub_cancel_left, ← taken]
    nth_rewrite 2 [← split]
    rw [List.take_left]
  · rw [← Nat.sub_sub, ← dropped]
    nth_rewrite 2 [← split]
    rw [List.drop_left]

theorem insertSegments_eq {fuel pos : Nat} {node : Node} {nextIno : Nat}
    (inside : stop ≤ image.len) (below : pos ≤ stop) (enough : stop - pos < fuel) :
    insertSegments image stop payload fuel pos node nextIno =
      insertPath payload (segments (image.window pos (stop - pos))) node nextIno := by
  induction fuel generalizing pos node nextIno with
  | zero => omega
  | succ fuel inductionHypothesis =>
      unfold insertSegments
      by_cases ended : pos < stop
      · rw [if_neg (not_not_intro ended), skipWhile_eq _ (by omega), ok_bind]
        obtain ⟨start, atStart⟩ : ∃ start, start =
            pos + ((image.window pos (stop - pos)).takeWhile isSlash).length := ⟨_, rfl⟩
        obtain ⟨_, startLe, _, left⟩ := skipped_window isSlash atStart below
        rw [← atStart, ← segments_dropWhile, ← left]
        dsimp only
        by_cases empty : start ≥ stop
        · rw [if_pos empty, Nat.sub_eq_zero_of_le empty]
          rfl
        · rw [if_neg empty, show (fun ch => decide ¬ isSlash ch = true) = notSlash from rfl,
            skipWhile_eq _ (by omega), ok_bind]
          obtain ⟨i, atI⟩ : ∃ i, i =
              start + ((image.window start (stop - start)).takeWhile notSlash).length := ⟨_, rfl⟩
          obtain ⟨iGe, iLe, seg, behind⟩ := skipped_window notSlash atI startLe
          have first : ∀ ch ∈ (image.window start (stop - start)).head?, isSlash ch = false := by
            rw [left]
            exact head_dropWhile
          have nonempty : image.window start (stop - start) ≠ [] := by
            intro none
            have := congrArg List.length none
            rw [length_window, List.length_nil] at this
            omega
          rw [← atI, segments_cons first nonempty, ← seg, ← behind]
          have segLen : (image.window start (i - start)).length = i - start := length_window
          have progress : i - start ≠ 0 := by
            intro zero
            rw [zero] at seg
            exact takeWhile_ne_nil first nonempty seg.symm
          unfold insertPath
          rw [segLen]
          by_cases long : i - start > vfsMaxName
          · rw [if_pos (.inr long), if_pos (.inl long)]
          · rw [if_neg (not_or.mpr ⟨progress, long⟩), isDotdot_eq (by omega), ok_bind]
            by_cases dotdot : image.window start (i - start) = [dot, dot]
            · rw [if_pos (decide_eq_true dotdot), if_pos (.inr dotdot)]
            · rw [if_neg (by simpa using dotdot), if_neg (not_or.mpr ⟨long, dotdot⟩),
                skipWhile_eq _ (by omega), ok_bind, isDot_eq (by omega), ok_bind]
              obtain ⟨next, atNext⟩ : ∃ next, next =
                  i + ((image.window i (stop - i)).takeWhile isSlash).length := ⟨_, rfl⟩
              obtain ⟨nextGe, nextLe, _, later⟩ := skipped_window isSlash atNext iLe
              have last : next ≥ stop ↔ segments (image.window i (stop - i)) = [] := by
                rw [segments_eq_nil, ← later, ← List.length_eq_zero_iff, length_window]
                omega
              have rest : segments (image.window i (stop - i)) =
                  segments (image.window next (stop - next)) := by
                rw [later, segments_dropWhile]
              rw [← atNext]
              by_cases isDot : image.window start (i - start) = [dot]
              · rw [if_pos (decide_eq_true isDot), if_pos isDot]
                by_cases atEnd : next ≥ stop
                · rw [if_pos atEnd, if_pos (last.mp atEnd)]
                · rw [if_neg atEnd, if_neg (mt last.mpr atEnd), rest,
                    inductionHypothesis nextLe (by omega)]
              · rw [if_neg (by simpa using isDot), if_neg isDot, slice_eq (by omega), ok_bind]
                by_cases atEnd : next ≥ stop
                · rw [if_pos atEnd, if_pos (last.mp atEnd)]
                · rw [if_neg atEnd, if_neg (mt last.mpr atEnd), rest]
                  simp only [inductionHypothesis nextLe (show stop - next < fuel by omega)]
      · rw [if_pos ended, Nat.sub_eq_zero_of_le (by omega)]
        rfl

/-- `add_archive_entry` for a path given by its components. -/
def insertEntry (payload : Payload) (path : List Name) (root : Node) (nextIno : Nat) :
    Except Fault (Node × Nat) :=
  if path = [] then atRoot payload root nextIno else insertPath payload path root nextIno

theorem addArchiveEntry_eq {path pathLen : Nat} {root : Node} {nextIno : Nat}
    (inside : path + pathLen ≤ image.len) :
    addArchiveEntry image path pathLen payload root nextIno =
      insertEntry payload (segments (image.window path pathLen)) root nextIno := by
  obtain ⟨stop, atStop⟩ : ∃ stop, stop = path + pathLen := ⟨_, rfl⟩
  have pathLen_eq : pathLen = stop - path := by omega
  obtain ⟨start, atStart⟩ : ∃ start, start =
      path + ((image.window path (stop - path)).takeWhile isSlash).length := ⟨_, rfl⟩
  obtain ⟨_, startLe, _, left⟩ := skipped_window isSlash atStart (by omega)
  unfold addArchiveEntry insertEntry
  rw [skipWhile_eq _ inside, ok_bind, pathLen_eq, ← atStart, ← segments_dropWhile, ← left,
    show path + (stop - path) = stop by omega]
  dsimp only
  by_cases empty : stop - start = 0
  · rw [if_pos empty, empty]
    rfl
  · rw [if_neg empty, isDot_eq (by omega), ok_bind]
    by_cases isDot : image.window start (stop - start) = [dot]
    · rw [if_pos (decide_eq_true isDot), isDot]
      rfl
    · have some : segments (image.window start (stop - start)) ≠ [] := by
        rw [Ne, segments_eq_nil, left, List.dropWhile_idempotent, ← left,
          ← List.length_eq_zero_iff, length_window]
        exact empty
      rw [if_neg (by simpa using isDot), if_neg some]
      exact insertSegments_eq (by omega) startLe (Nat.lt_succ_self _)

/-- An entry is refused in one way. -/
theorem insertEntry_einval (path : List Name) {root : Node} {nextIno : Nat} :
    Ensures (· = Fault.einval) (fun _ => True) (insertEntry payload path root nextIno) := by
  have root_einval (node : Node) (nextIno : Nat) :
      Ensures (· = Fault.einval) (fun _ => True) (atRoot payload node nextIno) := by
    unfold atRoot
    split
    · trivial
    · rfl
  unfold insertEntry
  split
  · exact root_einval root nextIno
  · clear * - root_einval
    induction path generalizing root nextIno with
    | nil => trivial
    | cons seg rest inductionHypothesis =>
        unfold insertPath
        split
        · rfl
        · split
          · split
            · exact root_einval root nextIno
            · exact inductionHypothesis
          · split
            · unfold upsertLeaf
              split
              · trivial
              · split
                · rfl
                · trivial
            · unfold ensureDirChild
              split
              · exact (@inductionHypothesis _ _).bind fun _ _ => trivial
              · split
                · exact (@inductionHypothesis _ _).bind fun _ _ => trivial
                · rfl

end Insertion

end Opal.Cpio
