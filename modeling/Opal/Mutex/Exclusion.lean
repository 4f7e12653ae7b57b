import Opal.Mutex.Operations

/-!
# Exclusion and wakeups of mutexes

The owner is the one task inside.  While the mutex has no owner nobody comes to the wait
list, and `mutex_unlock` leaves a woken task behind whenever it leaves a waiting one.
-/

namespace Opal.Mutex

variable {Tid : Type} [DecidableEq Tid] {s : System Tid} {current : Tid}

/-- The tasks are where the mutex says they are, and a free mutex that is waited for has a
woken task that will try it. -/
structure Sound (s : System Tid) : Prop where
  inside : ∀ tid, s.phase tid = .inside ↔ s.mutex.owner = some tid
  waiting : ∀ tid, s.phase tid = .waiting ↔ tid ∈ s.mutex.waitList
  linked : s.mutex.waitList.Nodup
  woken : s.mutex.owner = none → s.mutex.waitList ≠ [] → ∃ tid, s.phase tid = .woken

theorem phase_setPhase (s : System Tid) (tid other : Tid) (phase : Phase) :
    (s.setPhase tid phase).phase other = if other = tid then phase else s.phase other :=
  Function.update_apply ..

theorem mutex_setPhase (s : System Tid) (tid : Tid) (phase : Phase) :
    (s.setPhase tid phase).mutex = s.mutex := rfl

section Lock

/-- A task that is neither inside nor waiting finds the mutex free and takes it. -/
theorem Sound.acquire (sound : Sound s) (free : s.mutex.owner = none)
    (notWaiting : s.phase current ≠ .waiting) :
    Sound
      ({ s with mutex := { s.mutex with owner := some current } }.setPhase current .inside) := by
  refine ⟨fun tid => ?_, fun tid => ?_, sound.linked, fun owned => nomatch owned⟩
  · rw [phase_setPhase, mutex_setPhase]
    by_cases same : tid = current
    · rw [if_pos same, same]
      exact iff_of_true rfl rfl
    · rw [if_neg same, sound.inside, free]
      exact iff_of_false nofun fun owned => same (Option.some.inj owned).symm
  · rw [phase_setPhase, mutex_setPhase]
    by_cases same : tid = current
    · rw [if_pos same, same]
      exact iff_of_false nofun fun member => notWaiting ((sound.waiting current).mpr member)
    · rw [if_neg same]
      exact sound.waiting tid

/-- A task that finds the mutex taken comes to the end of the wait list. -/
theorem Sound.wait (sound : Sound s) (taken : s.mutex.owner ≠ none)
    (other : s.mutex.owner ≠ some current) (notWaiting : s.phase current ≠ .waiting) :
    Sound (taskWait s current) := by
  have outside : current ∉ s.mutex.waitList := fun member =>
    notWaiting ((sound.waiting current).mpr member)
  unfold taskWait
  refine ⟨fun tid => ?_, fun tid => ?_, ?_, fun free => absurd free taken⟩
  · rw [phase_setPhase, mutex_setPhase]
    by_cases same : tid = current
    · rw [if_pos same, same]
      exact iff_of_false nofun other
    · rw [if_neg same]
      exact sound.inside tid
  · rw [phase_setPhase, mutex_setPhase]
    by_cases same : tid = current
    · rw [if_pos same, same]
      exact iff_of_true rfl (by simp)
    · rw [if_neg same, sound.waiting, List.mem_append, List.mem_singleton, or_iff_left same]
  · apply List.nodup_append.mpr ⟨sound.linked, List.pairwise_singleton _ current, ?_⟩
    rintro tid member last single rfl
    exact outside (List.mem_singleton.mp single ▸ member)

/-- One try of `mutex_lock`. -/
theorem lockRound_spec (sound : Sound s)
    (tries : s.phase current = .outside ∨ s.phase current = .woken) :
    ∃ after, lockRound s current = .ok after ∧ Sound after := by
  have other : s.mutex.owner ≠ some current := by
    intro owns
    have inside := (sound.inside current).mpr owns
    rcases tries with phase | phase <;> rw [phase] at inside <;> cases inside
  have notWaiting : s.phase current ≠ .waiting := by
    intro waits
    rcases tries with phase | phase <;> rw [phase] at waits <;> cases waits
  unfold lockRound tryAcquire
  rw [if_neg other]
  cases owner : s.mutex.owner with
  | none => exact ⟨_, rfl, sound.acquire owner notWaiting⟩
  | some owns =>
      refine ⟨_, rfl, sound.wait ?_ other notWaiting⟩
      rw [owner]
      exact nofun

end Lock

section Unlock

/-- The owner leaves, and the first of the waiting tasks is woken. -/
theorem Sound.release (sound : Sound s) (owns : s.mutex.owner = some current) :
    Sound ((waitListWakeOne { s with mutex := { s.mutex with owner := none } }).setPhase current
      .outside) := by
  have inside : s.phase current = .inside := (sound.inside current).mpr owns
  have others : ∀ tid, tid ≠ current → s.phase tid ≠ .inside := by
    intro tid different isInside
    rw [sound.inside, owns] at isInside
    exact different (Option.some.inj isInside).symm
  unfold waitListWakeOne
  cases queue : s.mutex.waitList with
  | nil =>
      have nobody : ∀ tid, s.phase tid ≠ .waiting := by
        intro tid waits
        rw [sound.waiting, queue] at waits
        cases waits
      refine ⟨fun tid => ?_, fun tid => ?_, ?_, fun _ filled => absurd queue filled⟩
      · rw [phase_setPhase, mutex_setPhase]
        refine iff_of_false ?_ nofun
        split
        · exact nofun
        · rename_i different
          exact others tid different
      · rw [phase_setPhase, mutex_setPhase]
        show _ ↔ tid ∈ s.mutex.waitList
        rw [queue]
        refine iff_of_false ?_ List.not_mem_nil
        split
        · exact nofun
        · exact nobody tid
      · exact sound.linked
  | cons first rest =>
      have linked := sound.linked
      rw [queue] at linked
      have waits : s.phase first = .waiting := by
        rw [sound.waiting, queue]
        exact List.mem_cons_self
      have different : first ≠ current := by
        rintro rfl
        rw [inside] at waits
        cases waits
      have notFirst : first ∉ rest := (List.nodup_cons.mp linked).1
      dsimp only
      refine ⟨fun tid => ?_, fun tid => ?_, (List.nodup_cons.mp linked).2, fun _ _ => ⟨first, ?_⟩⟩
      · rw [phase_setPhase, phase_setPhase, mutex_setPhase, mutex_setPhase]
        refine iff_of_false ?_ nofun
        split
        · exact nofun
        · rename_i other
          split
          · exact nofun
          · exact others tid other
      · rw [phase_setPhase, phase_setPhase, mutex_setPhase, mutex_setPhase]
        show _ ↔ tid ∈ rest
        split
        · rename_i isCurrent
          refine iff_of_false nofun fun member => ?_
          have member' : tid ∈ s.mutex.waitList := by
            rw [queue]
            exact List.mem_cons_of_mem _ member
          rw [← sound.waiting, isCurrent, inside] at member'
          cases member'
        · split
          · rename_i isFirst
            rw [isFirst]
            exact iff_of_false nofun notFirst
          · rename_i notHead
            rw [sound.waiting, queue, List.mem_cons, or_iff_right notHead]
      · rw [phase_setPhase, phase_setPhase, if_neg different, if_pos rfl]

end Unlock

section Runs

theorem init_sound : Sound (System.init : System Tid) where
  inside := fun _ => iff_of_false nofun nofun
  waiting := fun _ => iff_of_false nofun nofun
  linked := List.nodup_nil
  woken := fun _ filled => absurd rfl filled

theorem step_sound (sound : Sound s) (action : Action Tid) (admitted : Admits s action) :
    ∃ after, step s action = .ok after ∧ Sound after := by
  cases action with
  | lock current => exact lockRound_spec sound (Or.inl admitted)
  | retry current => exact lockRound_spec sound (Or.inr admitted)
  | unlock current => exact ⟨_, if_pos admitted, sound.release admitted⟩

/-- In every state that is reached at most one task is inside, the recorded owner; a free mutex
that is waited for has a task that was woken and has not tried again; and no call panics. -/
theorem run_exclusive (reached : Reaches step Admits System.init s) :
    (∀ tid, s.phase tid = .inside ↔ s.mutex.owner = some tid) ∧
      (∀ tid other, s.phase tid = .inside → s.phase other = .inside → tid = other) ∧
      (∀ tid, s.phase tid = .waiting ↔ tid ∈ s.mutex.waitList) ∧
      (s.mutex.owner = none → s.mutex.waitList ≠ [] → ∃ tid, s.phase tid = .woken) ∧
      ∀ action, Admits s action → ∃ after, step s action = .ok after := by
  have preserved : ∀ (before : System Tid) (action : Action Tid), Sound before →
      Admits before action → Ensures (fun _ => False) Sound (step before action) := by
    intro before action sound admitted
    obtain ⟨after, done, kept⟩ := step_sound sound action admitted
    rw [done]
    exact kept
  have sound := reached.invariant init_sound preserved
  refine ⟨sound.inside, ?_, sound.waiting, sound.woken, fun action admitted => ?_⟩
  · intro tid other isInside otherInside
    rw [sound.inside] at isInside otherInside
    exact Option.some.inj (isInside.symm.trans otherInside)
  · obtain ⟨after, done, -⟩ := step_sound sound action admitted
    exact ⟨after, done⟩

/-- A newcomer overtakes the task that was woken, which comes to the wait list again. -/
def overtaking : List (Action Nat) :=
  [.lock 0, .lock 1, .lock 2, .unlock 0, .lock 3, .retry 1, .unlock 3]

theorem run_exclusive_overtaking :
    ∃ s : System Nat, runFrom step Admits System.init overtaking = some s ∧
      s.mutex.owner = none ∧ s.mutex.waitList = [1] ∧ s.phase 2 = .woken ∧
      ∃ tid, s.phase tid = .woken := by
  obtain ⟨s, ran, free, queue, woken⟩ :
      ∃ s : System Nat, runFrom step Admits System.init overtaking = some s ∧
        s.mutex.owner = none ∧ s.mutex.waitList = [1] ∧ s.phase 2 = .woken :=
    ⟨_, rfl, rfl, rfl, rfl⟩
  refine ⟨s, ran, free, queue, woken, ?_⟩
  refine (run_exclusive (Reaches.start.of_runFrom ran)).2.2.2.1 free ?_
  rw [queue]
  exact nofun

end Runs

end Opal.Mutex
