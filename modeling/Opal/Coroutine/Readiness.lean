import Opal.Coroutine.Operations

/-!
# Readiness is not lost

A coroutine that was set ready has an entry in the queue that its handler will be run for,
and every step of the worker brings that entry nearer to the front.  This holds as long as no
handler returns over a call of `coroutine_set_ready` made while it ran.
-/

namespace Opal.Coroutine

section Drain

variable {owed : Nat → Bool} {co : Nat}

theorem popReady_spec (state : Nat → CoState) (jobQueue : List Nat) :
    ∃ skipped, (∀ co ∈ skipped, state co ≠ .ready) ∧
      ((∃ co rest, popReady state jobQueue = (some co, rest) ∧
        jobQueue = skipped ++ co :: rest ∧ state co = .ready) ∨
      (popReady state jobQueue = (none, []) ∧ jobQueue = skipped)) := by
  induction jobQueue with
  | nil => exact ⟨[], by simp, Or.inr ⟨rfl, rfl⟩⟩
  | cons head tail inductionHypothesis =>
      by_cases ready : state head = .ready
      · exact ⟨[], by simp, Or.inl ⟨head, tail, if_pos ready, rfl, ready⟩⟩
      · obtain ⟨skipped, idle, found⟩ := inductionHypothesis
        have same : popReady state (head :: tail) = popReady state tail := if_neg ready
        refine ⟨head :: skipped, List.forall_mem_cons.mpr ⟨ready, idle⟩, ?_⟩
        rw [same]
        rcases found with ⟨co, rest, popped, split, starts⟩ | ⟨popped, all⟩
        · exact Or.inl ⟨co, rest, popped, by rw [split, List.cons_append], starts⟩
        · exact Or.inr ⟨popped, by rw [all]⟩

/-- The queue holds no coroutine twice, and an entry for every one that is owed a run. -/
structure Entries (jobQueue : List Nat) (state : Nat → CoState) (owed : Nat → Bool) : Prop where
  linked : jobQueue.Nodup
  entry : ∀ co, owed co = true → co ∈ jobQueue ∧ state co = .ready

/-- The entries are kept, and the worker does not wait while there are some. -/
structure Sound (world : World) : Prop where
  entries : Entries world.pool.jobQueue world.pool.state world.owed
  attended : world.pool.worker = .waiting → world.pool.jobQueue = []
  signaled : world.pool.worker = .starting → world.pool.jobQueue ≠ [] → world.pool.signaled = true

/-- The handler of the coroutine is run, or its entry has moved forward. -/
def Nearer (before after : List Nat) (world : World) (co : Nat) : Prop :=
  world.pool.worker = .running co ∨ world.owed co = true ∧ after.idxOf co < before.idxOf co

theorem settle_running_of_ne {next : Nat} (other : co ≠ next) :
    settle owed (.running next) co = owed co := Function.update_of_ne other _ _

/-- A drain runs the handler of the first coroutine that is ready. -/
theorem drain_spec (pool : Pool) (entries : Entries pool.jobQueue pool.state owed) :
    Sound { pool := drain pool, owed := settle owed (drain pool).worker } ∧
      ∀ co, owed co = true → Nearer pool.jobQueue (drain pool).jobQueue
        { pool := drain pool, owed := settle owed (drain pool).worker } co := by
  obtain ⟨skipped, idle, found⟩ := popReady_spec pool.state pool.jobQueue
  rcases found with ⟨next, rest, popped, split, starts⟩ | ⟨popped, all⟩
  · have drained : drain pool = { pool with jobQueue := rest, worker := .running next } := by
      unfold drain
      rw [popped]
    have nodup := entries.linked
    rw [split] at nodup
    have nodupRest := (List.nodup_append.mp nodup).2.1
    have behind : ∀ co, owed co = true → co ≠ next → co ∈ rest ∧ co ∉ skipped := by
      intro co owes other
      obtain ⟨member, ready⟩ := entries.entry co owes
      have notSkipped : co ∉ skipped := fun inSkipped => idle co inSkipped ready
      rw [split, List.mem_append, List.mem_cons] at member
      exact ⟨(member.resolve_left notSkipped).resolve_left other, notSkipped⟩
    rw [drained]
    refine ⟨⟨⟨nodupRest.of_cons, fun co owes => ?_⟩, nofun, nofun⟩, fun co owes => ?_⟩
    · have other : co ≠ next := by
        rintro rfl
        simp [settle] at owes
      have owes' : owed co = true := (settle_running_of_ne other).symm.trans owes
      exact ⟨(behind co owes' other).1, (entries.entry co owes').2⟩
    · by_cases isNext : co = next
      · exact Or.inl (by rw [isNext])
      · refine Or.inr ⟨(settle_running_of_ne isNext).trans owes, ?_⟩
        show rest.idxOf co < pool.jobQueue.idxOf co
        rw [split, List.idxOf_append_of_notMem (behind co owes isNext).2,
          List.idxOf_cons_ne _ (Ne.symm isNext)]
        omega
  · have drained : drain pool = { pool with jobQueue := [], worker := .starting } := by
      unfold drain
      rw [popped]
    have nothing : ∀ co, owed co ≠ true := by
      intro co owes
      obtain ⟨member, ready⟩ := entries.entry co owes
      exact idle co (all ▸ member) ready
    rw [drained]
    refine ⟨⟨⟨List.nodup_nil, fun co owes => absurd owes (nothing co)⟩, nofun, ?_⟩, ?_⟩
    · exact fun _ filled => absurd rfl filled
    · exact fun co owes => absurd owes (nothing co)

end Drain

section Steps

variable {world : World} {co : Nat}

/-- A coroutine outside of the queue gets its entry at the end. -/
theorem linkedlistPushBack_eq {jobQueue : List Nat} (outside : co ∉ jobQueue) :
    linkedlistPushBack jobQueue co = .ok (jobQueue ++ [co]) := if_neg outside

theorem nodup_concat {jobQueue : List Nat} (linked : jobQueue.Nodup) (outside : co ∉ jobQueue) :
    (jobQueue ++ [co]).Nodup := by
  refine List.nodup_append.mpr
    ⟨linked, List.pairwise_singleton _ co, fun other member last single => ?_⟩
  rintro rfl
  exact outside (List.mem_singleton.mp single ▸ member)

/-- A signal wakes the worker, or is kept for it. -/
theorem eventSignal_spec (pool : Pool) :
    (eventSignal pool).jobQueue = pool.jobQueue ∧ (eventSignal pool).state = pool.state ∧
      (eventSignal pool).worker ≠ .waiting ∧
      ((eventSignal pool).worker = .starting → (eventSignal pool).signaled = true) := by
  cases worker : pool.worker <;> simp [eventSignal, worker]

/-- What becomes of a coroutine that is owed a run: it keeps its entry, which moves forward
whenever the worker goes on, until the handler is run or has returned `CO_DONE`. -/
def Followed (world : World) (action : Action) (after : World) (co : Nat) : Prop :=
  match action with
  | .wake => Nearer world.pool.jobQueue after.pool.jobQueue after co
  | .returns state => state = .done ∧ world.pool.worker = .running co ∨
      Nearer world.pool.jobQueue after.pool.jobQueue after co
  | _ => after.owed co = true ∧ after.pool.jobQueue.idxOf co ≤ world.pool.jobQueue.idxOf co

/-- Setting a coroutine ready links it behind the others. -/
theorem setReady_spec (sound : Sound world) (outside : co ∉ world.pool.jobQueue) :
    ∃ after, step world (.setReady co) = .ok after ∧ Sound after ∧
      ∀ other, world.owed other = true → Followed world (.setReady co) after other := by
  have set : step world (.setReady co) = .ok
      { pool := eventSignal { world.pool with
          state := Function.update world.pool.state co .ready
          jobQueue := world.pool.jobQueue ++ [co] }
        owed := Function.update world.owed co true } := by
    show (coroutineSetReady world.pool co >>= _) = _
    unfold coroutineSetReady
    rw [linkedlistPushBack_eq outside]
    rfl
  have entries : Entries (world.pool.jobQueue ++ [co])
      (Function.update world.pool.state co .ready) (Function.update world.owed co true) := by
    refine ⟨nodup_concat sound.entries.linked outside, fun other owes => ?_⟩
    by_cases same : other = co
    · rw [same, Function.update_self]
      exact ⟨by simp, rfl⟩
    · rw [Function.update_of_ne same] at owes ⊢
      obtain ⟨member, ready⟩ := sound.entries.entry other owes
      exact ⟨List.mem_append_left _ member, ready⟩
  have queue : ∀ other, world.owed other = true → Function.update world.owed co true other = true ∧
      (world.pool.jobQueue ++ [co]).idxOf other ≤ world.pool.jobQueue.idxOf other := by
    intro other owes
    have member := (sound.entries.entry other owes).1
    have different : other ≠ co := by
      rintro rfl
      exact outside member
    refine ⟨?_, Nat.le_of_eq (List.idxOf_append_of_mem member)⟩
    rw [Function.update_of_ne different]
    exact owes
  obtain ⟨jobQueue, state, attended, signaled⟩ := eventSignal_spec { world.pool with
    state := Function.update world.pool.state co .ready
    jobQueue := world.pool.jobQueue ++ [co] }
  refine ⟨_, set, ⟨?_, fun waits => absurd waits attended, fun starts _ => signaled starts⟩, ?_⟩
  · rw [jobQueue, state]
    exact entries
  · intro other owes
    unfold Followed
    rw [jobQueue]
    exact queue other owes

/-- An object that is initialized is not in use. -/
theorem init_spec (sound : Sound world) (outside : co ∉ world.pool.jobQueue) :
    ∃ after, step world (.init co) = .ok after ∧ Sound after ∧
      ∀ other, world.owed other = true → Followed world (.init co) after other := by
  refine ⟨_, rfl, ⟨⟨sound.entries.linked, fun other owes => ?_⟩, sound.attended, sound.signaled⟩,
    fun other owes => ⟨owes, Nat.le_refl _⟩⟩
  obtain ⟨member, ready⟩ := sound.entries.entry other owes
  have different : other ≠ co := by
    rintro rfl
    exact outside member
  exact ⟨member, (Function.update_of_ne different _ _).trans ready⟩

/-- The worker waits only for an empty queue. -/
theorem wait_spec (sound : Sound world) (starts : world.pool.worker = .starting) :
    ∃ after, step world .wait = .ok after ∧ Sound after ∧
      ∀ other, world.owed other = true → Followed world .wait after other := by
  refine ⟨_, rfl, ?_, ?_⟩
  · unfold eventWait
    split
    · exact ⟨sound.entries, nofun, nofun⟩
    · rename_i silent
      refine ⟨sound.entries, fun _ => ?_, nofun⟩
      by_contra filled
      exact silent (sound.signaled starts filled)
  · intro other owes
    refine ⟨owes, ?_⟩
    show (eventWait world.pool).jobQueue.idxOf other ≤ _
    unfold eventWait
    split <;> exact Nat.le_refl _

theorem wake_spec (sound : Sound world) :
    ∃ after, step world .wake = .ok after ∧ Sound after ∧
      ∀ other, world.owed other = true → Followed world .wake after other := by
  obtain ⟨kept, nearer⟩ := drain_spec world.pool sound.entries
  exact ⟨_, rfl, kept, nearer⟩

/-- The worker goes on after a handler that was not called for again. -/
theorem returns_spec {state : CoState} (sound : Sound world)
    (runs : world.pool.worker = .running co) (kept : co ∈ world.pool.jobQueue → state = .done) :
    ∃ after, step world (.returns state) = .ok after ∧ Sound after ∧
      ∀ other, world.owed other = true → Followed world (.returns state) after other := by
  -- What is owed to another coroutine is not touched by the state that is stored.
  have others : ∀ other, world.owed other = true → other ≠ co →
      other ∈ world.pool.jobQueue ∧ Function.update world.pool.state co state other = .ready := by
    intro other owes different
    obtain ⟨member, ready⟩ := sound.entries.entry other owes
    exact ⟨member, (Function.update_of_ne different _ _).trans ready⟩
  cases state with
  | ready =>
      have outside : co ∉ world.pool.jobQueue := fun member => nomatch kept member
      have different : ∀ other, world.owed other = true → other ≠ co := by
        rintro other owes rfl
        exact outside (sound.entries.entry other owes).1
      have entries : Entries (world.pool.jobQueue ++ [co])
          (Function.update world.pool.state co .ready) world.owed := by
        refine ⟨nodup_concat sound.entries.linked outside, fun other owes => ?_⟩
        obtain ⟨member, ready⟩ := others other owes (different other owes)
        exact ⟨List.mem_append_left _ member, ready⟩
      obtain ⟨after, nearer⟩ := drain_spec { world.pool with
        state := Function.update world.pool.state co .ready
        jobQueue := world.pool.jobQueue ++ [co] } entries
      refine ⟨_, ?_, after, fun other owes => Or.inr ?_⟩
      · unfold step handlerReturns
        simp only [runs, if_true, linkedlistPushBack_eq outside]
        rfl
      · have member := (sound.entries.entry other owes).1
        have closer := nearer other owes
        unfold Nearer at closer ⊢
        dsimp only at closer
        rw [List.idxOf_append_of_mem member] at closer
        exact closer
  | deferred =>
      have outside : co ∉ world.pool.jobQueue := fun member => nomatch kept member
      have entries : Entries world.pool.jobQueue
          (Function.update world.pool.state co .deferred) world.owed := by
        refine ⟨sound.entries.linked, fun other owes => others other owes ?_⟩
        rintro rfl
        exact outside (sound.entries.entry other owes).1
      obtain ⟨after, nearer⟩ := drain_spec { world.pool with
        state := Function.update world.pool.state co .deferred } entries
      refine ⟨_, ?_, after, fun other owes => Or.inr (nearer other owes)⟩
      unfold step handlerReturns
      simp only [runs]
      rfl
  | done =>
      have entries : Entries world.pool.jobQueue (Function.update world.pool.state co .done)
          (Function.update world.owed co false) := by
        refine ⟨sound.entries.linked, fun other owes => ?_⟩
        have different : other ≠ co := by
          rintro rfl
          simp at owes
        rw [Function.update_of_ne different] at owes
        exact others other owes different
      obtain ⟨after, nearer⟩ := drain_spec { world.pool with
        state := Function.update world.pool.state co .done } entries
      refine ⟨_, ?_, after, fun other owes => ?_⟩
      · unfold step handlerReturns
        simp only [runs]
        rfl
      · by_cases same : other = co
        · exact Or.inl ⟨rfl, same ▸ runs⟩
        · refine Or.inr (nearer other ?_)
          rw [Function.update_of_ne same]
          exact owes

end Steps

section Runs

variable {world : World}

/-- The steps of a run in which no handler returns over a call of `coroutine_set_ready`. -/
def Allowed (world : World) (action : Action) : Prop := Admits world action ∧ Kept world action

instance (world : World) (action : Action) : Decidable (Allowed world action) :=
  inferInstanceAs (Decidable (Admits world action ∧ Kept world action))

theorem step_sound (sound : Sound world) (action : Action) (allowed : Allowed world action) :
    ∃ after, step world action = .ok after ∧ Sound after ∧
      ∀ co, world.owed co = true → Followed world action after co := by
  obtain ⟨admitted, kept⟩ := allowed
  cases action with
  | init co => exact init_spec sound admitted.1
  | setReady co => exact setReady_spec sound admitted.1
  | wait => exact wait_spec sound admitted
  | wake => exact wake_spec sound
  | returns state =>
      cases runs : world.pool.worker with
      | running co => exact returns_spec sound runs (kept co (by rw [runs]; rfl))
      | starting | waiting | awake =>
          unfold Admits at admitted
          rw [runs] at admitted
          cases admitted

theorem start_sound : Sound World.start where
  entries := ⟨List.nodup_nil, fun _ owes => nomatch owes⟩
  attended := fun _ => rfl
  signaled := fun _ filled => absurd rfl filled

/-- In a run of such steps every coroutine that is set ready keeps an entry in the queue until
its handler is run or has returned `CO_DONE`, and no coroutine is linked twice. -/
theorem run_readiness (reached : Reaches step Allowed World.start world) :
    Sound world ∧ ∀ action, Allowed world action → ∃ after, step world action = .ok after ∧
      Sound after ∧ ∀ co, world.owed co = true → Followed world action after co := by
  have preserved : ∀ before action, Sound before → Allowed before action →
      Ensures (fun _ => False) Sound (step before action) := by
    intro before action sound allowed
    obtain ⟨after, done, kept, -⟩ := step_sound sound action allowed
    rw [done]
    exact kept
  have sound := reached.invariant start_sound preserved
  exact ⟨sound, fun action allowed => step_sound sound action allowed⟩

/-- A coroutine is set ready, and its handler runs. -/
def firstRun : List Action := [.init 0, .setReady 0, .wait, .wake]

theorem run_readiness_firstRun :
    ∃ world, runFrom step Allowed World.start (firstRun ++ [.returns .deferred, .setReady 0]) =
        some world ∧ world.owed 0 = true ∧ Sound world := by
  obtain ⟨world, ran, owes⟩ : ∃ world, runFrom step Allowed World.start
      (firstRun ++ [.returns .deferred, .setReady 0]) = some world ∧ world.owed 0 = true :=
    ⟨_, rfl, rfl⟩
  exact ⟨world, ran, owes, (run_readiness (Reaches.start.of_runFrom ran)).1⟩

/-- A coroutine that is set ready while its handler runs is forgotten if the handler returns
`CO_DEFERRED`, and linked a second time if it returns `CO_READY`. -/
theorem readiness_lost :
    (∃ world, runFrom step Admits World.start (firstRun ++ [.setReady 0, .returns .deferred]) =
        some world ∧ world.owed 0 = true ∧ world.pool.jobQueue = []) ∧
      ∃ world, runFrom step Admits World.start (firstRun ++ [.setReady 0]) = some world ∧
        Admits world (.returns .ready) ∧ step world (.returns .ready) = .error .linkedTwice :=
  ⟨⟨_, rfl, rfl, rfl⟩, _, rfl, rfl, rfl⟩

end Runs

end Opal.Coroutine
