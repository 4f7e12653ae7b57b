import Opal.Disk.Queue
import Opal.Library.Ring

/-!
# The cursors of the request queue

Request `n` lives in slot `n % capacity`.  At any time the requests below `base` have
been reclaimed, the next `count_done` have been completed, and the driver has yet to
finish the `count_doing` after them.
-/

namespace Opal.Disk

section Invariant

variable {system system' : System} {base : Nat}

/-- The requests from `base` on are in the ring, each in the state its history gives. -/
structure Tracks (system : System) (base : Nat) : Prop where
  submitted : system.submitted = base + system.queue.countDone + system.queue.countDoing
  fits : system.queue.countDone + system.queue.countDoing ≤ system.queue.capacity
  rpos : system.queue.rpos = base % system.queue.capacity
  fpos : system.queue.fpos = (base + system.queue.countDone) % system.queue.capacity
  wpos : system.queue.wpos = system.submitted % system.queue.capacity
  completed : system.completed = List.range (base + system.queue.countDone)
  fetched : system.fetched = system.completed ∨ 0 < system.queue.countDoing ∧
    system.fetched = system.completed ++ [base + system.queue.countDone]
  numbered : ∀ n, base ≤ n → n < system.submitted →
    system.number (n % system.queue.capacity) = some n
  slot : ∀ slot, ∀ n ∈ system.number slot, slot = n % system.queue.capacity ∧ n < system.submitted
  length : system.requests.length = system.submitted
  request : ∀ n, base ≤ n → n < system.submitted → system.requests[n]? =
    some ((system.queue.buffer (n % system.queue.capacity)).disk,
      (system.queue.buffer (n % system.queue.capacity)).info)
  done : ∀ n, base ≤ n → n < base + system.queue.countDone →
    (system.queue.buffer (n % system.queue.capacity)).state =
      if n ∈ system.released then .released else .done
  doing : ∀ n, base + system.queue.countDone ≤ n → n < system.submitted →
    (system.queue.buffer (n % system.queue.capacity)).state =
      if n ∈ system.fetched then .inflight else .queued
  released : ∀ n ∈ system.released, n < base + system.queue.countDone
  reclaimed : ∀ n < base, n ∈ system.released
  head : 0 < system.queue.countDone → base ∉ system.released

namespace Tracks

theorem init (buffer : Nat → Request) (capacity : Nat) :
    Tracks (System.init buffer capacity) 0 where
  submitted := rfl
  fits := Nat.zero_le _
  rpos := (Nat.zero_mod _).symm
  fpos := (Nat.zero_mod _).symm
  wpos := (Nat.zero_mod _).symm
  completed := rfl
  fetched := .inl rfl
  numbered := fun _ _ upper => absurd upper (Nat.not_lt_zero _)
  slot := fun _ _ none => nomatch none
  length := rfl
  request := fun _ _ upper => absurd upper (Nat.not_lt_zero _)
  done := fun _ _ upper => absurd upper (Nat.not_lt_zero _)
  doing := fun _ _ upper => absurd upper (Nat.not_lt_zero _)
  released := fun _ member => nomatch member
  reclaimed := fun _ lower => absurd lower (Nat.not_lt_zero _)
  head := fun some => absurd some (Nat.lt_irrefl 0)

theorem idle_iff (tracks : Tracks system base) :
    system.Idle ↔ base + system.queue.countDone ∉ system.fetched := by
  unfold System.Idle
  constructor
  · intro idle
    rw [idle, tracks.completed, List.mem_range]
    exact Nat.lt_irrefl _
  · intro absent
    rcases tracks.fetched with same | ⟨_, more⟩
    · exact same
    · exact absurd (more ▸ List.mem_append_right _ List.mem_cons_self) absent

theorem busy_iff (tracks : Tracks system base) :
    ¬ system.Idle ↔ 0 < system.queue.countDoing ∧
      system.fetched = system.completed ++ [base + system.queue.countDone] := by
  constructor
  · intro busy
    exact tracks.fetched.resolve_left busy
  · rintro ⟨_, more⟩ idle
    have lengths := congrArg List.length (idle.symm.trans more)
    simp at lengths

end Tracks

end Invariant

section Submit

variable {system : System} {base disk : Nat} {reqinfo : RequestInfo}

/-- The slot at `wpos` belongs to no request of the ring while the ring is not full. -/
theorem Tracks.wpos_ne (tracks : Tracks system base)
    (room : system.queue.countDoing + system.queue.countDone < system.queue.capacity) {n : Nat}
    (low : base ≤ n) (high : n < system.submitted) :
    n % system.queue.capacity ≠ system.queue.wpos := by
  have total := tracks.submitted
  rw [tracks.wpos]
  intro same
  have := Ring.eq_of_mod_eq low (by omega) (by omega) (by omega) same
  omega

theorem Tracks.submit (tracks : Tracks system base) : Tracks (system.submit disk reqinfo) base := by
  unfold System.submit submitRequest
  by_cases full : diskReqQueueIsFullUnlocked system.queue
  · rw [if_pos full]
    exact tracks
  · have room : system.queue.countDoing + system.queue.countDone < system.queue.capacity :=
      Nat.lt_of_not_le full
    have total := tracks.submitted
    have other : ∀ n, base ≤ n → n < system.submitted →
        n % system.queue.capacity ≠ system.queue.wpos := fun n => tracks.wpos_ne room
    have last : ∀ n, n < system.submitted + 1 → ¬ n < system.submitted → n = system.submitted :=
      fun n upper lower => by omega
    rw [if_neg full]
    refine
      { submitted := by dsimp only; omega
        fits := by dsimp only; omega
        rpos := tracks.rpos
        fpos := tracks.fpos
        wpos := ?_
        completed := tracks.completed
        fetched := tracks.fetched.imp_right fun more => ⟨Nat.succ_pos _, more.2⟩
        numbered := ?_
        slot := ?_
        length := ?_
        request := ?_
        done := ?_
        doing := ?_
        released := tracks.released
        reclaimed := tracks.reclaimed
        head := tracks.head }
    · dsimp only
      rw [tracks.wpos, Nat.mod_add_mod]
    · dsimp only
      intro n low high
      by_cases old : n < system.submitted
      · rw [Function.update_of_ne (other n low old)]
        exact tracks.numbered n low old
      · rw [last n high old, ← tracks.wpos, Function.update_self]
    · dsimp only
      intro slot n number
      by_cases new : slot = system.queue.wpos
      · rw [new, Function.update_self] at number
        obtain rfl := Option.some.inj number
        exact ⟨new.trans tracks.wpos, Nat.lt_succ_self _⟩
      · rw [Function.update_of_ne new] at number
        obtain ⟨place, bound⟩ := tracks.slot slot n number
        exact ⟨place, Nat.lt_succ_of_lt bound⟩
    · simp [tracks.length]
    · dsimp only
      intro n low high
      by_cases old : n < system.submitted
      · rw [Function.update_of_ne (other n low old),
          List.getElem?_append_left (by rw [tracks.length]; exact old)]
        exact tracks.request n low old
      · rw [last n high old, ← tracks.wpos, Function.update_self, ← tracks.length,
          List.getElem?_concat_length]
    · dsimp only
      intro n low high
      rw [Function.update_of_ne (other n low (by omega))]
      exact tracks.done n low high
    · dsimp only
      intro n low high
      by_cases old : n < system.submitted
      · rw [Function.update_of_ne (other n (by omega) old)]
        exact tracks.doing n low old
      · rw [last n high old, ← tracks.wpos, Function.update_self, if_neg]
        intro member
        rcases tracks.fetched with same | ⟨some, more⟩
        · rw [same, tracks.completed, List.mem_range] at member
          omega
        · rw [more, tracks.completed, List.mem_append, List.mem_range, List.mem_singleton] at member
          omega

end Submit

section Driver

variable {system : System} {base : Nat}

/-- The request at `fpos` while the driver has something to do. -/
theorem Tracks.number_fpos (tracks : Tracks system base) (some : 0 < system.queue.countDoing) :
    system.number system.queue.fpos = .some (base + system.queue.countDone) := by
  have total := tracks.submitted
  rw [tracks.fpos]
  exact tracks.numbered _ (Nat.le_add_right _ _) (by omega)

theorem Tracks.state_fpos (tracks : Tracks system base) (some : 0 < system.queue.countDoing) :
    (system.queue.buffer system.queue.fpos).state = if system.Idle then .queued else .inflight := by
  have total := tracks.submitted
  rw [tracks.fpos, tracks.doing _ (Nat.le_refl _) (by omega)]
  by_cases idle : system.Idle
  · rw [if_pos idle, if_neg (tracks.idle_iff.mp idle)]
  · rw [if_neg idle, if_pos (not_not.mp (mt tracks.idle_iff.mpr idle))]

/-- Another request of the ring than the one at `fpos` is in another slot. -/
theorem Tracks.fpos_ne (tracks : Tracks system base) {n : Nat} (low : base ≤ n)
    (high : n < system.submitted) (other : n ≠ base + system.queue.countDone)
    (some : 0 < system.queue.countDoing) : n % system.queue.capacity ≠ system.queue.fpos := by
  have total := tracks.submitted
  have fits := tracks.fits
  rw [tracks.fpos]
  intro same
  exact other (Ring.eq_of_mod_eq low (by omega) (Nat.le_add_right _ _) (by omega) same)

@[simp]
theorem info_setState (queue : ReqQueue) (slot i : Nat) (state : RequestState) :
    ((setState queue slot state).buffer i).info = (queue.buffer i).info := by
  by_cases same : i = slot
  · simp [setState, same]
  · simp [setState, Function.update_of_ne same]

@[simp]
theorem disk_setState (queue : ReqQueue) (slot i : Nat) (state : RequestState) :
    ((setState queue slot state).buffer i).disk = (queue.buffer i).disk := by
  by_cases same : i = slot
  · simp [setState, same]
  · simp [setState, Function.update_of_ne same]

@[simp]
theorem result_setState (queue : ReqQueue) (slot i : Nat) (state : RequestState) :
    ((setState queue slot state).buffer i).result = (queue.buffer i).result := by
  by_cases same : i = slot
  · simp [setState, same]
  · simp [setState, Function.update_of_ne same]

/-- The system once the request at `fpos` is fetched. -/
def System.taken (system : System) : System :=
  { system with
    queue := setState system.queue system.queue.fpos .inflight
    fetched := system.fetched ++ (system.number system.queue.fpos).toList }

theorem Tracks.fetch_eq (tracks : Tracks system base) (idle : system.Idle) :
    system.fetch = .ok (if system.queue.countDoing = 0 then (none, system)
      else (some system.queue.fpos, system.taken)) := by
  unfold System.fetch diskReqQueueFetch System.taken
  by_cases nothing : system.queue.countDoing = 0
  · simp [nothing]
  · have queued := tracks.state_fpos (Nat.pos_of_ne_zero nothing)
    rw [if_pos idle] at queued
    simp [nothing, queued]

theorem Tracks.taken (tracks : Tracks system base) (idle : system.Idle)
    (some : 0 < system.queue.countDoing) : Tracks system.taken base := by
  have total := tracks.submitted
  have fetched : system.taken.fetched = system.completed ++ [base + system.queue.countDone] := by
    unfold System.taken
    rw [tracks.number_fpos some, idle]
    rfl
  refine
    { submitted := tracks.submitted
      fits := tracks.fits
      rpos := tracks.rpos
      fpos := tracks.fpos
      wpos := tracks.wpos
      completed := tracks.completed
      fetched := .inr ⟨some, fetched⟩
      numbered := tracks.numbered
      slot := tracks.slot
      length := tracks.length
      request := ?_
      done := ?_
      doing := ?_
      released := tracks.released
      reclaimed := tracks.reclaimed
      head := tracks.head }
  · intro n low high
    refine (tracks.request n low high).trans ?_
    simp only [System.taken, disk_setState, info_setState]
    rfl
  · intro n low (high : n < base + system.queue.countDone)
    have apart := tracks.fpos_ne low (by omega) (Nat.ne_of_lt high) some
    have kept := tracks.done n low high
    simp only [System.taken, setState, Function.update_of_ne apart]
    exact kept
  · intro n low high
    by_cases first : n = base + system.queue.countDone
    · have member : n ∈ system.taken.fetched := by
        rw [fetched, first]
        exact List.mem_append_right _ List.mem_cons_self
      rw [if_pos member, first]
      show (system.taken.queue.buffer
        ((base + system.queue.countDone) % system.queue.capacity)).state = _
      rw [← tracks.fpos]
      simp only [System.taken, setState, Function.update_self]
    · have apart := tracks.fpos_ne (show base ≤ n by omega) high first some
      have member : n ∈ system.taken.fetched ↔ n ∈ system.fetched := by
        rw [fetched, idle, List.mem_append, List.mem_singleton, or_iff_left first]
      have kept := tracks.doing n low high
      simp only [member]
      simp only [System.taken, setState, Function.update_of_ne apart]
      exact kept

theorem Tracks.busy_taken (tracks : Tracks system base) (idle : system.Idle)
    (some : 0 < system.queue.countDoing) : ¬ system.taken.Idle := by
  refine (tracks.taken idle some).busy_iff.mpr ⟨some, ?_⟩
  unfold System.taken
  rw [tracks.number_fpos some, idle]
  rfl

/-- The system once the request in flight is completed. -/
def System.finished (system : System) (result : Kerrno) : System :=
  { system with
    queue := { system.queue with
      buffer := Function.update system.queue.buffer system.queue.fpos
        { system.queue.buffer system.queue.fpos with state := .done, result := result }
      fpos := (system.queue.fpos + 1) % system.queue.capacity
      countDoing := system.queue.countDoing - 1
      countDone := system.queue.countDone + 1 }
    completed := system.completed ++ (system.number system.queue.fpos).toList }

theorem kept_finished (result : Kerrno) (i : Nat) :
    ((system.finished result).queue.buffer i).info = (system.queue.buffer i).info ∧
      ((system.finished result).queue.buffer i).disk = (system.queue.buffer i).disk := by
  by_cases same : i = system.queue.fpos
  · simp [System.finished, same]
  · simp [System.finished, Function.update_of_ne same]

/-- The result goes to the request at `fpos`. -/
theorem result_finished (result : Kerrno) (i : Nat) :
    ((system.finished result).queue.buffer i).result =
      if i = system.queue.fpos then result else (system.queue.buffer i).result := by
  by_cases same : i = system.queue.fpos
  · simp [System.finished, same]
  · simp [System.finished, same]

theorem Tracks.popFetched_eq (tracks : Tracks system base) (busy : ¬ system.Idle)
    (result : Kerrno) : system.popFetched result = .ok (system.finished result) := by
  obtain ⟨some, _⟩ := tracks.busy_iff.mp busy
  have inflight := tracks.state_fpos some
  rw [if_neg busy] at inflight
  unfold System.popFetched diskReqQueuePopFetched System.finished
  rw [if_neg (Nat.ne_of_gt some), if_neg (not_not_intro inflight)]
  rfl

theorem Tracks.idle_finished (tracks : Tracks system base) (busy : ¬ system.Idle)
    (result : Kerrno) : (system.finished result).Idle := by
  obtain ⟨some, more⟩ := tracks.busy_iff.mp busy
  unfold System.Idle System.finished
  rw [more, tracks.number_fpos some]
  rfl

theorem Tracks.finished (tracks : Tracks system base) (busy : ¬ system.Idle)
    (result : Kerrno) : Tracks (system.finished result) base := by
  obtain ⟨some, _⟩ := tracks.busy_iff.mp busy
  have total := tracks.submitted
  have idle := tracks.idle_finished busy result
  have unreleased : base + system.queue.countDone ∉ system.released :=
    fun member => absurd (tracks.released _ member) (Nat.lt_irrefl _)
  refine
    { submitted := ?_
      fits := ?_
      rpos := tracks.rpos
      fpos := ?_
      wpos := tracks.wpos
      completed := ?_
      fetched := .inl idle
      numbered := tracks.numbered
      slot := tracks.slot
      length := tracks.length
      request := ?_
      done := ?_
      doing := ?_
      released := fun n member => Nat.lt_succ_of_lt (tracks.released n member)
      reclaimed := tracks.reclaimed
      head := ?_ }
  · simp only [System.finished]
    omega
  · have fits := tracks.fits
    simp only [System.finished]
    omega
  · simp only [System.finished]
    rw [tracks.fpos, Nat.mod_add_mod, Nat.add_assoc]
  · simp only [System.finished]
    rw [tracks.number_fpos some, tracks.completed]
    exact List.range_succ.symm
  · intro n low high
    refine (tracks.request n low high).trans ?_
    rw [(kept_finished result _).1, (kept_finished result _).2]
    rfl
  · intro n low (high : n < base + (system.queue.countDone + 1))
    show (Function.update system.queue.buffer _ _ (n % system.queue.capacity)).state =
      if n ∈ system.released then .released else .done
    by_cases last : n = base + system.queue.countDone
    · rw [last, if_neg unreleased, ← tracks.fpos, Function.update_self]
    · rw [Function.update_of_ne (tracks.fpos_ne low (by omega) last some)]
      exact tracks.done n low (by omega)
  · intro n low high
    simp only [System.finished] at low high ⊢
    rw [Function.update_of_ne (tracks.fpos_ne (by omega) high (by omega) some)]
    exact tracks.doing n (by omega) high
  · intro _
    by_cases none : system.queue.countDone = 0
    · rw [none] at unreleased
      exact unreleased
    · exact tracks.head (Nat.pos_of_ne_zero none)

end Driver

end Opal.Disk
