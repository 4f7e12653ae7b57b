import Opal.Disk.Cursors

/-!
# Releasing requests and runs of the queue

A release marks its request and drops the released requests from the head of the ring, so
the oldest request that is kept is never a released one.
-/

namespace Opal.Disk

section Loops

variable (buffer : Nat → Request) (capacity req : Nat)

/-- The first loop drops the longest prefix of released requests. -/
theorem reclaim_spec (count base : Nat) (found : Bool) : ∃ dropped ≤ count,
    reclaim buffer capacity req count (base % capacity) found =
      (count - dropped, (base + dropped) % capacity,
        found || decide (∃ i < dropped, (base + i) % capacity = req)) ∧
    (∀ i < dropped, (buffer ((base + i) % capacity)).state = .released) ∧
    (dropped < count → (buffer ((base + dropped) % capacity)).state ≠ .released) := by
  induction count generalizing base found with
  | zero => exact ⟨0, Nat.le_refl 0, by simp [reclaim], by simp, by simp⟩
  | succ count inductionHypothesis =>
      unfold reclaim
      by_cases head : (buffer (base % capacity)).state = .released
      · rw [if_neg (not_not_intro head), Nat.mod_add_mod]
        obtain ⟨dropped, bound, result, before, after⟩ :=
          inductionHypothesis (base + 1) (found || base % capacity == req)
        have shift : ∀ i, base + 1 + i = base + (i + 1) := fun i => by omega
        simp only [shift] at result before after
        refine ⟨dropped + 1, Nat.succ_le_succ bound, ?_, ?_, ?_⟩
        · rw [result]
          refine Prod.ext (by dsimp only; omega) (Prod.ext rfl ?_)
          simp only [Nat.exists_lt_succ_left, Nat.add_zero, Bool.decide_or, Bool.or_assoc,
            beq_eq_decide]
        · intro i lower
          cases i with
          | zero => exact head
          | succ i => exact before i (Nat.lt_of_succ_lt_succ lower)
        · exact fun more => after (Nat.lt_of_succ_lt_succ more)
      · rw [if_pos head]
        exact ⟨0, Nat.zero_le _, by simp, by simp, fun _ => head⟩

theorem findRemaining_iff (remaining base : Nat) :
    findRemaining capacity req remaining (base % capacity) = true ↔
      ∃ i < remaining, (base + i) % capacity = req := by
  induction remaining generalizing base with
  | zero => simp [findRemaining]
  | succ remaining inductionHypothesis =>
      unfold findRemaining
      have shift : ∀ i, base + 1 + i = base + (i + 1) := fun i => by omega
      rw [Nat.mod_add_mod, Bool.or_eq_true, inductionHypothesis, Nat.exists_lt_succ_left,
        beq_iff_eq]
      simp only [shift, Nat.add_zero]

end Loops

section Release

variable {system : System} {base req : Nat}

/-- The system once the request in the slot is released and `dropped` slots reclaimed. -/
def System.freed (system : System) (req dropped : Nat) : System :=
  { system with
    queue := { setState system.queue req .released with
      countDone := system.queue.countDone - dropped
      rpos := (system.queue.rpos + dropped) % system.queue.capacity }
    released := system.released ++ (system.number req).toList }

/-- A request that may be released is a completed one of the ring. -/
theorem Tracks.of_releasable (tracks : Tracks system base) (releasable : system.Releasable req) :
    ∃ n, base ≤ n ∧ n < base + system.queue.countDone ∧ n ∉ system.released ∧
      req = n % system.queue.capacity ∧ system.number req = some n := by
  obtain ⟨n, number, completed, unreleased⟩ := releasable
  rw [tracks.completed, List.mem_range] at completed
  refine ⟨n, Nat.le_of_not_lt fun lower => ?_, completed, unreleased, ?_, number⟩
  · exact unreleased (tracks.reclaimed n lower)
  · exact (tracks.slot req n number).1

theorem mem_freed {dropped n : Nat} (number : system.number req = some n) (m : Nat) :
    m ∈ (system.freed req dropped).released ↔ m ∈ system.released ∨ m = n := by
  simp [System.freed, number]

/-- The states of the completed requests once one of them is marked. -/
theorem Tracks.marked (tracks : Tracks system base) {n : Nat} (low : base ≤ n)
    (high : n < base + system.queue.countDone) (number : system.number req = some n) {m : Nat}
    (lowM : base ≤ m) (highM : m < base + system.queue.countDone) :
    ((setState system.queue req .released).buffer (m % system.queue.capacity)).state =
      if m ∈ system.released ∨ m = n then .released else .done := by
  have fits := tracks.fits
  have slot := (tracks.slot req n number).1
  by_cases same : m = n
  · rw [same, ← slot, if_pos (.inr rfl)]
    simp only [setState, Function.update_self]
  · have apart : m % system.queue.capacity ≠ req := fun shared =>
      same (Ring.eq_of_mod_eq lowM (by omega) low (by omega) (shared.trans slot))
    simp only [setState, Function.update_of_ne apart, same, or_false]
    exact tracks.done m lowM highM

/-- The longest prefix of released requests leaves the ring. -/
theorem Tracks.freed (tracks : Tracks system base) {n dropped : Nat} (low : base ≤ n)
    (high : n < base + system.queue.countDone) (number : system.number req = some n)
    (bound : dropped ≤ system.queue.countDone)
    (before : ∀ i < dropped, base + i ∈ system.released ∨ base + i = n)
    (after : dropped < system.queue.countDone → ¬ (base + dropped ∈ system.released ∨
      base + dropped = n)) :
    Tracks (system.freed req dropped) (base + dropped) := by
  have total := tracks.submitted
  have fits := tracks.fits
  have slot := (tracks.slot req n number).1
  have members : ∀ m, m ∈ (system.freed req dropped).released ↔ m ∈ system.released ∨ m = n :=
    mem_freed number
  have sum : base + dropped + (system.queue.countDone - dropped) =
      base + system.queue.countDone := by omega
  refine
    { submitted := ?_
      fits := ?_
      rpos := ?_
      fpos := ?_
      wpos := tracks.wpos
      completed := ?_
      fetched := ?_
      numbered := fun m lowM highM => tracks.numbered m (by omega) highM
      slot := tracks.slot
      length := tracks.length
      request := ?_
      done := ?_
      doing := ?_
      released := ?_
      reclaimed := ?_
      head := ?_ }
  · show system.submitted = base + dropped + (system.queue.countDone - dropped) + _
    rw [sum]
    exact total
  · show system.queue.countDone - dropped + system.queue.countDoing ≤ system.queue.capacity
    omega
  · show (system.queue.rpos + dropped) % system.queue.capacity = _
    rw [tracks.rpos, Nat.mod_add_mod]
    rfl
  · show system.queue.fpos = (base + dropped + (system.queue.countDone - dropped)) % _
    rw [sum]
    exact tracks.fpos
  · show system.completed = List.range (base + dropped + (system.queue.countDone - dropped))
    rw [sum]
    exact tracks.completed
  · show system.fetched = system.completed ∨ 0 < system.queue.countDoing ∧
      system.fetched = system.completed ++ [base + dropped + (system.queue.countDone - dropped)]
    rw [sum]
    exact tracks.fetched
  · intro m lowM highM
    refine (tracks.request m (by omega) highM).trans ?_
    simp only [System.freed, disk_setState, info_setState]
    rfl
  · intro m lowM highM
    replace highM : m < base + dropped + (system.queue.countDone - dropped) := highM
    simp only [members]
    exact tracks.marked low high number (by omega) (by omega)
  · intro m lowM highM
    replace lowM : base + dropped + (system.queue.countDone - dropped) ≤ m := lowM
    replace highM : m < system.submitted := highM
    have apart : m % system.queue.capacity ≠ req := fun shared => by
      have := Ring.eq_of_mod_eq (show base ≤ m by omega) (by omega) low (by omega)
        (shared.trans slot)
      omega
    have kept := tracks.doing m (by omega) highM
    simp only [System.freed, setState, Function.update_of_ne apart]
    exact kept
  · intro m member
    show m < base + dropped + (system.queue.countDone - dropped)
    rw [sum]
    rcases (members m).mp member with old | new
    · exact tracks.released m old
    · exact new ▸ high
  · intro m lower
    rw [members]
    by_cases old : m < base
    · exact .inl (tracks.reclaimed m old)
    · obtain ⟨i, rfl⟩ := Nat.exists_eq_add_of_le (Nat.le_of_not_lt old)
      exact before i (by omega)
  · intro kept
    replace kept : 0 < system.queue.countDone - dropped := kept
    rw [members]
    exact after (by omega)

theorem Tracks.release (tracks : Tracks system base) (releasable : system.Releasable req) :
    ∃ dropped, system.release req = .ok (system.freed req dropped) ∧
      Tracks (system.freed req dropped) (base + dropped) := by
  obtain ⟨n, low, high, unreleased, slot, number⟩ := tracks.of_releasable releasable
  obtain ⟨dropped, bound, result, before, after⟩ :=
    reclaim_spec (setState system.queue req .released).buffer system.queue.capacity req
      system.queue.countDone base false
  have done : (system.queue.buffer req).state = .done := by
    rw [slot, tracks.done n low high, if_neg unreleased]
  have found : (∃ i < dropped, (base + i) % system.queue.capacity = req) ∨
      ∃ i < system.queue.countDone - dropped,
        (base + dropped + i) % system.queue.capacity = req := by
    by_cases early : n < base + dropped
    · refine .inl ⟨n - base, by omega, ?_⟩
      rw [Nat.add_sub_cancel' low, slot]
    · refine .inr ⟨n - (base + dropped), by omega, ?_⟩
      rw [Nat.add_sub_cancel' (Nat.le_of_not_lt early), slot]
  refine ⟨dropped, ?_, tracks.freed low high number bound (fun i lower => ?_) fun more => ?_⟩
  · unfold System.release diskRequestRelease
    rw [if_neg (by omega), if_neg (not_not_intro done)]
    have capacity : (setState system.queue req .released).capacity = system.queue.capacity := rfl
    have countDone : (setState system.queue req .released).countDone = system.queue.countDone := rfl
    have rpos : (setState system.queue req .released).rpos = base % system.queue.capacity :=
      tracks.rpos
    simp only [capacity, countDone, rpos, result, Bool.false_or]
    rw [if_pos]
    · simp only [System.freed, ok_bind, pure, Except.pure, tracks.rpos, Nat.mod_add_mod]
      rfl
    · rw [Bool.or_eq_true, decide_eq_true_iff, findRemaining_iff]
      exact found
  · have state := before i lower
    rw [tracks.marked low high number (Nat.le_add_right _ _) (by omega)] at state
    by_contra neither
    rw [if_neg neither] at state
    cases state
  · intro either
    apply after more
    rw [tracks.marked low high number (Nat.le_add_right _ _) (by omega), if_pos either]

end Release

section Runs

variable {system : System} {base : Nat}

/-- What holds of the ring at any time of a run. -/
structure RingSound (system : System) : Prop where
  donePos : (system.queue.rpos + system.queue.countDone) % system.queue.capacity =
    system.queue.fpos
  doingPos : (system.queue.fpos + system.queue.countDoing) % system.queue.capacity =
    system.queue.wpos
  fits : system.queue.countDoing + system.queue.countDone ≤ system.queue.capacity
  /-- Requests are fetched in the order of their submission. -/
  order : system.fetched = List.range system.fetched.length
  /-- A slot that is handed out has no request of an earlier use that was not released. -/
  fresh : ∀ disk reqinfo slot queue, submitRequest system.queue disk reqinfo = some (slot, queue) →
    ∀ n ∈ system.number slot, n ∈ system.released
  /-- The requests that have left the ring are those that were released with all earlier ones. -/
  reclaimed : ∀ n,
    n + (system.queue.countDone + system.queue.countDoing) < system.submitted ↔
      ∀ m ≤ n, m ∈ system.released
  /-- No assertion fires. -/
  safe : ∀ call, admits system call → ∃ after, step system call = .ok after

theorem Tracks.step (tracks : Tracks system base) {call : Call} (admitted : admits system call) :
    ∃ after base', step system call = .ok after ∧ Tracks after base' := by
  cases call with
  | submit disk reqinfo => exact ⟨_, base, rfl, tracks.submit⟩
  | fetch =>
      unfold Disk.step
      rw [tracks.fetch_eq admitted]
      by_cases nothing : system.queue.countDoing = 0
      · exact ⟨system, base, by rw [if_pos nothing]; rfl, tracks⟩
      · refine ⟨system.taken, base, by rw [if_neg nothing]; rfl, ?_⟩
        exact tracks.taken admitted (Nat.pos_of_ne_zero nothing)
  | popFetched result =>
      exact ⟨_, base, tracks.popFetched_eq admitted result, tracks.finished admitted result⟩
  | release req =>
      obtain ⟨dropped, returned, tracks'⟩ := tracks.release admitted
      exact ⟨_, _, returned, tracks'⟩

theorem Tracks.fresh (tracks : Tracks system base)
    (room : ¬ diskReqQueueIsFullUnlocked system.queue) {n : Nat}
    (number : n ∈ system.number system.queue.wpos) : n ∈ system.released := by
  obtain ⟨slot, bound⟩ := tracks.slot _ n number
  by_cases old : n < base
  · exact tracks.reclaimed n old
  · exact absurd slot.symm
      (tracks.wpos_ne (Nat.lt_of_not_le room) (Nat.le_of_not_lt old) bound)

theorem Tracks.reclaimed_iff (tracks : Tracks system base) (n : Nat) :
    n + (system.queue.countDone + system.queue.countDoing) < system.submitted ↔
      ∀ m ≤ n, m ∈ system.released := by
  have total := tracks.submitted
  constructor
  · intro gone m upper
    exact tracks.reclaimed m (by omega)
  · intro all
    by_contra kept
    have first : base ∈ system.released := all base (by omega)
    have lower := tracks.released base first
    exact tracks.head (by omega) first

theorem Tracks.sound (tracks : Tracks system base) : RingSound system where
  donePos := by rw [tracks.rpos, tracks.fpos, Nat.mod_add_mod]
  doingPos := by rw [tracks.fpos, tracks.wpos, tracks.submitted, Nat.mod_add_mod]
  fits := by rw [Nat.add_comm]; exact tracks.fits
  order := by
    rcases tracks.fetched with same | ⟨_, more⟩
    · rw [same, tracks.completed, List.length_range]
    · rw [more, tracks.completed, ← List.range_succ, List.length_range]
  fresh := by
    intro disk reqinfo slot queue submitted n number
    unfold submitRequest at submitted
    split at submitted
    · cases submitted
    · rename_i room
      cases submitted
      exact tracks.fresh room number
  reclaimed := tracks.reclaimed_iff
  safe := by
    intro call admitted
    obtain ⟨after, _, returned, _⟩ := tracks.step admitted
    exact ⟨after, returned⟩

/-- In every interleaving of submissions, fetches, completions and releases the cursors
and counters of the ring agree, requests are fetched in order, slots are reused only after
a release and reclaimed as early as possible, and no assertion fires. -/
theorem run_ring {buffer : Nat → Request} {capacity : Nat}
    (reached : Reaches step admits (System.init buffer capacity) system) : RingSound system := by
  obtain ⟨base, tracks⟩ : ∃ base, Tracks system base := by
    induction reached with
    | start => exact ⟨0, Tracks.init buffer capacity⟩
    | step _ admitted returned inductionHypothesis =>
        obtain ⟨base, tracks⟩ := inductionHypothesis
        obtain ⟨after, base', returned', tracks'⟩ := tracks.step admitted
        obtain rfl := Except.ok.inj (returned.symm.trans returned')
        exact ⟨base', tracks'⟩
  exact tracks.sound

def exampleRequest : RequestInfo := ⟨0, 1, 0, .read⟩

/-- Two slots; the second request is released first, so both slots come back at once. -/
def exampleCalls : List Call :=
  [.submit 0 exampleRequest, .submit 0 exampleRequest, .submit 0 exampleRequest, .fetch,
    .popFetched opalOk, .fetch, .popFetched opalEio, .release 1, .release 0,
    .submit 1 exampleRequest, .fetch]

def exampleStart : System := System.init (fun _ => ⟨exampleRequest, 0, .queued, 0⟩) 2

theorem run_ring_two_slots : ∃ after, runFrom step admits exampleStart exampleCalls = some after ∧
    after.fetched = [0, 1, 2] ∧ RingSound after := by
  obtain ⟨after, ran⟩ : ∃ after, runFrom step admits exampleStart exampleCalls = some after :=
    Option.isSome_iff_exists.mp (by decide +kernel)
  have fetched : (runFrom step admits exampleStart exampleCalls).map System.fetched =
      some [0, 1, 2] := by decide +kernel
  rw [ran] at fetched
  exact ⟨after, ran, Option.some.inj fetched, run_ring (Reaches.start.of_runFrom ran)⟩

end Runs

end Opal.Disk
