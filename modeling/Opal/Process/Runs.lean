import Opal.Library.Outcome
import Opal.Process.Isolation

/-!
# Runs of the processes

Programs are loaded, forked, replaced and ended in any order, while the rest of the kernel goes on
with its own memory.  What the processes find in theirs is what the calls mean: a loaded program
is the image its file describes, a child finds what its parent found, and a byte that one process
writes changes no other process.  No data frame and no area is lost while the calls succeed.
-/

namespace Opal.Process

open Opal.PageTable
open Opal.VmTree

section Meaning

/-- A call, a write of a program, or a step of the rest of the kernel. -/
inductive Event where
  | loadElfFile (file : Memory) (size : Nat) (created task : Bool)
  | execElfFile (pid : Nat) (file : Memory) (size : Nat) (created task : Bool)
  | fork (pid : Nat) (created : Bool) (files : Errno) (task : Bool)
  | release (pid : Nat)
  | store (pid addr : Nat) (value : UInt8)
  | others (host : Host)

def step (s : System) : Event → Option (Errno × System)
  | .loadElfFile file size created task => processLoadElfFile file size created task s
  | .execElfFile pid file size created task => processExecElfFile pid file size created task s
  | .fork pid created files task => processFork pid created files task s
  | .release pid => (processRelease pid s).map fun s => (.ok, s)
  | .store pid addr value => userStore pid addr value s
  | .others host => some (.ok, { s with host := host })

/-- What there is to know about the processes from outside. -/
structure View where
  next : Nat
  memories : Nat → Option (Nat → Option UInt8)

def System.view (s : System) : View := { next := s.next, memories := s.memories }

/-- What a call with its answer means for the processes. -/
def View.apply (view : View) : Event → Errno → View
  | .loadElfFile file _ created _, answer => {
      next := if created then view.next + 1 else view.next
      memories :=
        if answer = .ok then Function.update view.memories view.next (some (programMemory file))
        else view.memories }
  | .execElfFile pid file _ _ _, answer => { view with
      memories :=
        if answer = .ok then Function.update view.memories pid (some (programMemory file))
        else view.memories }
  | .fork pid created _ _, answer => {
      next := if created then view.next + 1 else view.next
      memories :=
        if answer = .ok then Function.update view.memories view.next (view.memories pid)
        else view.memories }
  | .release pid, _ => { view with memories := Function.update view.memories pid none }
  | .store pid addr value, answer => { view with
      memories :=
        if answer = .ok then
          Function.update view.memories pid
            ((view.memories pid).map fun memory => Function.update memory addr (some value))
        else view.memories }
  | .others _, _ => view

/-- A call concerns a process that there is, there are pids left, and the rest of the kernel spares
what belongs to the processes. -/
def Admits (s : System) : Event → Prop
  | .loadElfFile _ _ created _ => created = true → s.next < pidEnd
  | .execElfFile pid _ _ _ _ => (s.images pid).isSome
  | .fork pid created _ _ => (s.images pid).isSome ∧ (created = true → s.next < pidEnd)
  | .release pid => (s.images pid).isSome
  | .store pid _ _ => (s.images pid).isSome
  | .others host => Spares s.host host (s.frames)ᶜ (s.areas)ᶜ

end Meaning

section Stores

variable {image : Image} {host : Host} {space : Space} {addr f : Nat} {value : UInt8}

/-- A byte of a page. -/
def Host.store (host : Host) (frame addr : Nat) (value : UInt8) : Host :=
  { host with bytes := Function.update host.bytes (frame * pageSize + addr % pageSize) value }

theorem Host.store_away {g r : Nat} (ne : g ≠ f) (small : r < pageSize) :
    (host.store f addr value).bytes (g * pageSize + r) = host.bytes (g * pageSize + r) := by
  have small' : addr % pageSize < pageSize := Nat.mod_lt addr (by decide)
  have other : g * pageSize + r ≠ f * pageSize + addr % pageSize := by
    rw [pageSize_eq] at *
    omega
  unfold Host.store
  dsimp only
  rw [Function.update_of_ne other]

theorem Sound.stored (sound : Sound image host space) :
    Sound image (host.store f addr value) space :=
  ⟨⟨sound.wf, sound.tree, sound.maps, sound.aligned, sound.live, sound.distinct, sound.taken,
    sound.injective⟩, sound.separated, sound.covered⟩

theorem Sound.store_self (sound : Sound image host space)
    (frame : space (addr / pageSize) = some f) : image.memory (host.store f addr value) =
      Function.update (image.memory host) addr (some value) := by
  funext a
  rw [sound.stored.memory_eq]
  by_cases here : a = addr
  · subst here
    rw [frame, Function.update_self]
    exact congrArg some (Function.update_self _ _ _)
  rw [Function.update_of_ne here, sound.memory_eq]
  rcases found : space (a / pageSize) with _ | g
  · rfl
  refine congrArg some ?_
  by_cases same : g = f
  · -- the same frame is the same page, so the place in it is another one
    subst same
    have page := sound.injective _ (sound.mem_pages found) _ (sound.mem_pages frame) g found frame
    refine Function.update_of_ne ?_ _ _
    rw [pageSize_eq] at *
    omega
  · exact Host.store_away same (Nat.mod_lt a (by decide))

theorem Sound.store_other (sound : Sound image host space)
    (away : ∀ p g, space p = some g → g ≠ f) :
    image.memory (host.store f addr value) = image.memory host := by
  have spares : Spares host (host.store f addr value) {f} ∅ :=
    ⟨fun _ _ taken => taken, fun g ne _ r small => Host.store_away ne small, fun _ _ _ => rfl⟩
  exact sound.memory_spared spares away

end Stores

section Calls

variable {s : System} {spaces : Nat → Space} {pid : Nat}

/-- An event that concerns a process. -/
def Event.own : Event → Bool
  | .others _ => false
  | _ => true

def Event.Complete (event : Event) (answer : Errno) : Prop := event.own = true ∧ answer = .ok

/-- An event is answered, keeps the processes isolated, and means what it should.  When it
succeeds nothing is lost. -/
def Answered (s : System) (event : Event) : Prop :=
  ∃ answer after spaces', step s event = some (answer, after) ∧ Isolated after spaces' ∧
    after.view = s.view.apply event answer ∧ (event.Complete answer → Conserves s after)

theorem Isolated.release (isolated : Isolated s spaces) (live : (s.images pid).isSome) :
    Answered s (.release pid) := by
  obtain ⟨image, found⟩ := Option.isSome_iff_exists.mp live
  have sound : Sound image (s.drop pid).host (spaces pid) := isolated.sound pid image found
  obtain ⟨host, destroyed, ⟨isolated', memories⟩, returns⟩ :=
    (isolated.drop pid).destroy sound.toReleasable (isolated.aside_drop found)
  have destroyed' : processImageDestroyParts image s.host = some host := destroyed
  refine ⟨.ok, { s.drop pid with host := host }, spaces, ?_, isolated', ?_, fun _ => ?_⟩
  · simp only [step, processRelease, found, destroyed', Option.bind_eq_bind, Option.bind_some]
    rfl
  · exact congrArg (View.mk s.next) (memories.trans System.memories_drop)
  · exact conserves_release found sound returns rfl

/-- A new process with the image that has been built for it. -/
theorem Isolated.adopt (isolated : Isolated s spaces) {image : Image} {after : Host} {space : Space}
    (sound : Sound image after space)
    (grown : Extends processImageInit s.host (fun _ => none) image after space) :
    let next : System := { host := after, next := s.next + 1
                           images := Function.update s.images s.next (some image) }
    Isolated next (Function.update spaces s.next space) ∧
      next.view = { next := s.next + 1
                    memories := Function.update s.memories s.next (some (image.memory after)) } ∧
      Conserves s next := by
  obtain ⟨⟨isolated', memories⟩, aside⟩ := isolated.grown grown.toGrows
  have bumped : Isolated { s with host := after, next := s.next + 1 } spaces :=
    ⟨isolated'.sound, isolated'.apart,
      fun pid above => isolated'.fresh pid (Nat.le_of_succ_le above)⟩
  refine ⟨bumped.insert (Nat.lt_succ_self _) sound fun pid other found => ?_, ?_,
    conserves_adopt (isolated.fresh s.next le_rfl) grown sound rfl⟩
  · exact aside pid other (System.drop_some found).2
  · refine congrArg (View.mk (s.next + 1)) ?_
    rw [← memories]
    exact @System.memories_update { s with host := after, next := s.next + 1 } image s.next

/-- A new process that has failed is gone, and its image is given back. -/
theorem Isolated.abandon (isolated : Isolated s spaces) {image : Image} {after : Host}
    {space : Space} (releasable : Releasable image after space)
    (grows : Grows processImageInit s.host (fun _ => none) image after space) :
    ∃ last, processRelease s.next { host := after, next := s.next + 1
                                    images := Function.update s.images s.next (some image) } =
        some last ∧ Isolated last spaces ∧
      last.view = { next := s.next + 1, memories := s.memories } := by
  obtain ⟨⟨isolated', memories⟩, aside⟩ := isolated.grown grows
  obtain ⟨host, destroyed, ⟨isolated'', memories'⟩, -⟩ := isolated'.destroy releasable aside
  have gone : Function.update s.images s.next none = s.images := by
    rw [← isolated.fresh s.next le_rfl, Function.update_eq_self]
  refine ⟨{ s with host := host, next := s.next + 1 }, ?_, ?_, ?_⟩
  · dsimp only at destroyed
    simp only [processRelease, Function.update_self, Option.bind_eq_bind, Option.bind_some,
      destroyed, Function.update_idem, gone]
    rfl
  · exact ⟨isolated''.sound, isolated''.apart,
      fun pid above => isolated''.fresh pid (Nat.le_of_succ_le above)⟩
  · exact congrArg (View.mk (s.next + 1)) (memories'.trans memories)

theorem Isolated.loadElfFile (isolated : Isolated s spaces) (file : Memory) (size : Nat)
    {created : Bool} (task : Bool) (left : created = true → s.next < pidEnd) :
    Answered s (.loadElfFile file size created task) := by
  cases created with
  | false => exact ⟨.enomem, s, spaces, rfl, isolated, rfl, fun complete => by cases complete.2⟩
  | true =>
      obtain ⟨⟨status, image, after, start⟩, returned, outcome, -⟩ :=
        loadElfImage_spec (@sound_init s.host) memory_init file size
      have create : processCreate true s = some (some s.next, { s with
          next := s.next + 1
          images := Function.update s.images s.next (some processImageInit) }) := if_pos (left rfl)
      unfold Answered
      simp only [step, processLoadElfFile, create, processLoadElf, Function.update_self,
        Option.bind_eq_bind, Option.bind_some, returned, Function.update_idem]
      cases outcome with
      | done sound grown laid =>
          cases task with
          | true =>
              obtain ⟨isolated', view, conserves⟩ := isolated.adopt sound grown
              rw [laid.eq_programMemory] at view
              exact ⟨.ok, _, _, rfl, isolated', view, fun _ => conserves⟩
          | false =>
              obtain ⟨last, released, isolated', view⟩ :=
                isolated.abandon sound.toReleasable grown.toGrows
              refine ⟨.enomem, last, spaces, ?_, isolated', view,
                fun complete => by cases complete.2⟩
              simp [released]
      | failed ne releasable grows =>
          obtain ⟨last, released, isolated', view⟩ := isolated.abandon releasable grows
          refine ⟨status, last, spaces, ?_, isolated', ?_, fun complete => absurd complete.2 ne⟩
          · simp [ne, released]
          · rw [view]
            simp [View.apply, ne, System.view]

theorem Isolated.fork (isolated : Isolated s spaces) {created : Bool} (files : Errno) (task : Bool)
    (live : (s.images pid).isSome) (left : created = true → s.next < pidEnd) :
    Answered s (.fork pid created files task) := by
  cases created with
  | false => exact ⟨.enomem, s, spaces, rfl, isolated, rfl, fun complete => by cases complete.2⟩
  | true =>
      obtain ⟨parent, found⟩ := Option.isSome_iff_exists.mp live
      have ne : pid ≠ s.next := by
        rintro rfl
        rw [isolated.fresh s.next le_rfl] at found
        cases found
      have create : processCreate true s = some (some s.next, { s with
          next := s.next + 1
          images := Function.update s.images s.next (some processImageInit) }) := if_pos (left rfl)
      unfold Answered
      simp only [step, processFork, create, Option.bind_eq_bind, Option.bind_some,
        Function.update_self, Function.update_of_ne ne, found, Function.update_idem]
      by_cases failed : files = .ok
      swap
      · obtain ⟨last, released, isolated', view⟩ := isolated.abandon sound_init.toReleasable .refl
        refine ⟨files, last, spaces, ?_, isolated', ?_, fun complete => absurd complete.2 failed⟩
        · simp [failed, released]
        · rw [view]
          simp [View.apply, failed, System.view]
      rw [if_neg (not_not.mpr failed)]
      obtain ⟨⟨status, image, after⟩, returned, outcome⟩ := processCloneVmem_spec
        (@sound_init s.host) (isolated.sound pid parent found) memory_init
      have parentMemory : s.memories pid = some (parent.memory s.host) :=
        congrArg (Option.map _) found
      simp only [returned, Option.bind_some]
      cases outcome with
      | done sound grown same =>
          cases task with
          | true =>
              obtain ⟨isolated', view, conserves⟩ := isolated.adopt sound grown
              rw [same, ← parentMemory] at view
              exact ⟨.ok, _, _, rfl, isolated', view, fun _ => conserves⟩
          | false =>
              obtain ⟨last, released, isolated', view⟩ :=
                isolated.abandon sound.toReleasable grown.toGrows
              refine ⟨.enomem, last, spaces, ?_, isolated', view,
                fun complete => by cases complete.2⟩
              simp [released]
      | failed ne releasable grows =>
          obtain ⟨last, released, isolated', view⟩ := isolated.abandon releasable grows
          refine ⟨status, last, spaces, ?_, isolated', ?_, fun complete => absurd complete.2 ne⟩
          · simp [ne, released]
          · rw [view]
            simp [View.apply, ne, System.view]

theorem Isolated.execElfFile (isolated : Isolated s spaces) (file : Memory) (size : Nat)
    (created task : Bool) (live : (s.images pid).isSome) :
    Answered s (.execElfFile pid file size created task) := by
  obtain ⟨old, found⟩ := Option.isSome_iff_exists.mp live
  have low : pid < s.next := by
    by_contra above
    rw [isolated.fresh pid (Nat.not_lt.mp above)] at found
    cases found
  cases created with
  | false => exact ⟨.enomem, s, spaces, rfl, isolated, rfl, fun complete => by cases complete.2⟩
  | true =>
      obtain ⟨⟨status, image, after, start⟩, returned, outcome, -⟩ :=
        loadElfImage_spec (@sound_init s.host) memory_init file size
      unfold Answered
      simp only [step, processExecElfFile, returned, Option.bind_eq_bind, Option.bind_some, found]
      -- the image that has been built is given back
      have undo {less : Space} (releasable : Releasable image after less)
          (grows : Grows processImageInit s.host (fun _ => none) image after less) :
          ∃ host, processImageDestroyParts image after = some host ∧
            Isolated { s with host := host } spaces ∧
            System.view { s with host := host } = s.view := by
        obtain ⟨⟨isolated', memories⟩, aside⟩ := isolated.grown grows
        obtain ⟨host, destroyed, ⟨isolated'', memories'⟩, -⟩ :=
          isolated'.destroy releasable aside
        exact ⟨host, destroyed, isolated'', congrArg (View.mk s.next) (memories'.trans memories)⟩
      cases outcome with
      | failed ne releasable grows =>
          obtain ⟨host, destroyed, isolated', view⟩ := undo releasable grows
          refine ⟨status, _, spaces, ?_, isolated', ?_, fun complete => absurd complete.2 ne⟩
          · simp [ne, destroyed]
          · rw [view]
            simp [View.apply, ne]
      | @done _ _ space sound grown laid =>
          cases task with
          | false =>
              obtain ⟨host, destroyed, isolated', view⟩ := undo sound.toReleasable grown.toGrows
              refine ⟨.enomem, _, spaces, ?_, isolated', view, fun complete => by cases complete.2⟩
              simp [destroyed]
          | true =>
              obtain ⟨⟨isolated', memories⟩, aside⟩ := isolated.grown grown.toGrows
              have found' : ({ s with host := after } : System).images pid = some old := found
              have replaced := isolated'.insert low sound
                fun pid' other found => aside pid' other (System.drop_some found).2
              have oldSound := isolated'.sound pid old found'
              have oldAside : Aside { s with
                  host := after, images := Function.update s.images pid (some image) }
                  (Function.update spaces pid space) old (spaces pid) := by
                intro pid' other there
                by_cases same : pid' = pid
                · subst same
                  simp only [Function.update_self, Option.some.injEq] at there ⊢
                  exact there ▸ (aside pid' old found).symm
                · simp only [Function.update_of_ne same] at there ⊢
                  exact isolated.apart pid old pid' other found there (Ne.symm same)
              obtain ⟨host, destroyed, ⟨isolated'', memories'⟩, returns⟩ :=
                replaced.destroy oldSound.toReleasable oldAside
              have destroyed' : processImageDestroyParts old after = some host := destroyed
              refine ⟨.ok, _, _, ?_, isolated'', ?_, fun _ => ?_⟩
              · simp [destroyed']
              · refine congrArg (View.mk s.next) (memories'.trans ?_)
                rw [← laid.eq_programMemory]
                refine (@System.memories_update { s with host := after } image pid).trans ?_
                exact congrArg (fun kept => Function.update kept pid (some (image.memory after)))
                  memories
              · exact conserves_replace found grown sound oldSound returns rfl

theorem Isolated.store (isolated : Isolated s spaces) (addr : Nat) (value : UInt8)
    (live : (s.images pid).isSome) : Answered s (.store pid addr value) := by
  obtain ⟨image, found⟩ := Option.isSome_iff_exists.mp live
  have sound := isolated.sound pid image found
  unfold Answered
  simp only [step, userStore, found, Option.map_some]
  by_cases user : addr < 2 ^ 47
  swap
  · rw [if_neg user]
    exact ⟨.einval, s, spaces, rfl, isolated, rfl, fun _ => ⟨rfl, rfl⟩⟩
  rw [if_pos user, sound.maps addr user]
  rcases frame : spaces pid (addr / pageSize) with _ | f
  · exact ⟨.einval, s, spaces, rfl, isolated, rfl, fun _ => ⟨rfl, rfl⟩⟩
  refine ⟨.ok, _, spaces, rfl, ⟨fun pid' other there => ?_, isolated.apart, isolated.fresh⟩, ?_,
    fun _ => ⟨rfl, rfl⟩⟩
  · exact (isolated.sound pid' other there).stored
  refine congrArg (View.mk s.next) (funext fun pid' => ?_)
  simp only [System.view, if_true]
  by_cases same : pid' = pid
  · subst same
    rw [Function.update_self]
    unfold System.memories
    simp only [found, Option.map_some]
    exact congrArg some (sound.store_self frame)
  · rw [Function.update_of_ne same]
    unfold System.memories
    rcases there : s.images pid' with _ | other
    · simp only [Option.map_none]
    · simp only [Option.map_some]
      refine congrArg some ((isolated.sound pid' other there).store_other fun p g at' eq => ?_)
      have soundOther := isolated.sound pid' other there
      exact (isolated.apart pid image pid' other found there (Ne.symm same)).frames _
        (sound.mem_pages frame) p (soundOther.mem_pages at') f frame (eq ▸ at')

theorem Isolated.others (isolated : Isolated s spaces) {host : Host}
    (spares : Spares s.host host (s.frames)ᶜ (s.areas)ᶜ) : Answered s (.others host) := by
  have changed := isolated.change spares ?_ ?_
  · exact ⟨.ok, _, spaces, rfl, changed.1, congrArg (View.mk s.next) changed.2,
      fun complete => by cases complete.1⟩
  · intro pid image found p f at' away
    have sound := isolated.sound pid image found
    exact away ⟨pid, image, found, sound.mem_frames.mpr ⟨p, sound.mem_pages at', at'⟩⟩
  · exact fun pid image found c mem away => away ⟨pid, image, found, c, mem, rfl⟩

/-- Every admitted event is answered. -/
theorem Isolated.step (isolated : Isolated s spaces) {event : Event} (admitted : Admits s event) :
    Answered s event := by
  cases event with
  | loadElfFile file size created task => exact isolated.loadElfFile file size task admitted
  | execElfFile pid file size created task =>
      exact isolated.execElfFile file size created task admitted
  | fork pid created files task => exact isolated.fork files task admitted.1 admitted.2
  | release pid => exact isolated.release admitted
  | store pid addr value => exact isolated.store addr value admitted
  | others host => exact isolated.others admitted

end Calls

section Runs

/-- The processes with all that has happened. -/
structure World where
  system : System
  history : List (Event × Errno)

/-- An event with its answer; an error is a failed assertion or something freed twice. -/
def exec (w : World) (event : Event) : Except Unit World :=
  match step w.system event with
  | none => .error ()
  | some (answer, s) => .ok { system := s, history := w.history ++ [(event, answer)] }

/-- What a history means. -/
def View.replay (view : View) (history : List (Event × Errno)) : View :=
  history.foldl (fun view done => view.apply done.1 done.2) view

/-- No processes yet. -/
def boot (host : Host) : World where
  system := { host := host, next := 0, images := fun _ => none }
  history := []

/-- The invariant of the runs. -/
structure Inv (init w : World) : Prop where
  isolated : ∃ spaces, Isolated w.system spaces
  view : w.system.view = init.system.view.replay w.history

theorem Inv.exec {init w : World} (inv : Inv init w) {event : Event}
    (admitted : Admits w.system event) :
    ∃ after, exec w event = .ok after ∧ Inv init after := by
  obtain ⟨spaces, isolated⟩ := inv.isolated
  obtain ⟨answer, s, spaces', returned, isolated', view, -⟩ := isolated.step admitted
  refine ⟨{ system := s, history := w.history ++ [(event, answer)] }, ?_, ⟨spaces', isolated'⟩, ?_⟩
  · unfold Process.exec
    rw [returned]
  · rw [view, inv.view]
    unfold View.replay
    rw [List.foldl_append]
    rfl

theorem boot_inv (host : Host) : Inv (boot host) (boot host) where
  isolated := ⟨fun _ _ => none, fun _ _ found => (by cases found),
    fun _ _ _ _ found => (by cases found), fun _ _ => rfl⟩
  view := rfl

/-- What holds in every state that is reached. -/
structure Kept (init w : World) : Prop where
  /-- No two places that processes can use are the same, and none of them is free. -/
  apart : ∀ pid image pid' image' a a' pa, w.system.images pid = some image →
    w.system.images pid' = some image' → a < 2 ^ 47 → a' < 2 ^ 47 →
    pagetableLookup image.ptbl a = some pa → pagetableLookup image'.ptbl a' = some pa →
    pid = pid' ∧ a = a' ∧ pa / pageSize ∉ w.system.host.pool
  /-- The memories of the processes are what the history means. -/
  view : w.system.view = init.system.view.replay w.history
  /-- Nothing that may happen next stops the kernel. -/
  returns : ∀ event, Admits w.system event → ∃ after, Process.exec w event = .ok after

theorem Inv.kept {init w : World} (inv : Inv init w) : Kept init w where
  apart := by
    intro pid image pid' image' a a' pa found found' user user' lookup lookup'
    obtain ⟨spaces, isolated⟩ := inv.isolated
    have sound := isolated.sound pid image found
    have sound' := isolated.sound pid' image' found'
    rw [sound.maps a user, Option.map_eq_some_iff] at lookup
    rw [sound'.maps a' user', Option.map_eq_some_iff] at lookup'
    obtain ⟨f, frame, rfl⟩ := lookup
    obtain ⟨f', frame', same⟩ := lookup'
    have place : f' = f ∧ a' % pageSize = a % pageSize ∧
        (f * pageSize + a % pageSize) / pageSize = f := by
      rw [pageSize_eq] at *
      omega
    obtain ⟨rfl, offset, number⟩ := place
    rw [number]
    by_cases one : pid = pid'
    · subst one
      obtain rfl : image = image' := Option.some.inj (found.symm.trans found')
      have page := sound.injective _ (sound.mem_pages frame) _ (sound.mem_pages frame') f'
        frame frame'
      refine ⟨rfl, ?_, (sound.frame_taken frame).1⟩
      rw [pageSize_eq] at *
      omega
    · have apart := isolated.apart pid image pid' image' found found' one
      exact absurd frame'
        (apart.frames _ (sound.mem_pages frame) _ (sound'.mem_pages frame') f' frame)
  view := inv.view
  returns := fun event admitted =>
    let ⟨after, returned, _⟩ := inv.exec admitted
    ⟨after, returned⟩

theorem invariant {host : Host} {w : World}
    (reached : Reaches exec (fun w => Admits w.system) (boot host) w) : Inv (boot host) w := by
  have preserved : ∀ before event, Inv (boot host) before → Admits before.system event →
      Ensures (fun _ => False) (Inv (boot host)) (exec before event) :=
    fun before event inv admitted => .of_returns (inv.exec admitted)
  exact reached.invariant (boot_inv host) preserved

/-- In every run the processes stay isolated, and their memories are what the calls mean. -/
theorem run_isolates {host : Host} {w : World}
    (reached : Reaches exec (fun w => Admits w.system) (boot host) w) : Kept (boot host) w :=
  (invariant reached).kept

/-- A file without program headers. -/
def emptyProgram : Memory := fun i =>
  ([0x7f, 0x45, 0x4c, 0x46, 2, 1, 1, 0, 0, 0, 0, 0, 0, 0, 0, 0, 2, 0, 62, 0, 1, 0, 0, 0,
    0, 0x10, 0, 0, 0, 0, 0, 0] ++ List.replicate 20 0 ++ [64, 0, 56, 0] : List UInt8).getD i 0

/-- Four page frames that are handed out in their order. -/
def idleHost : Host where
  bytes := fun _ => 7
  pool := Finset.range 4
  blocks := fun n => some n
  areas := fun _ => none
  pointers := fun n => some (n + 1)
  tables := AllocOracle.always
  nodes := Stream'.const AllocOracle.always

/-- The state after an event that is answered. -/
def World.after (w : World) (event : Event) : World :=
  match exec w event with
  | .ok after => after
  | .error _ => w

theorem exec_after {w : World} {event : Event} (answered : (step w.system event).isSome) :
    exec w event = .ok (w.after event) := by
  obtain ⟨⟨answer, s⟩, returned⟩ := Option.isSome_iff_exists.mp answered
  simp only [World.after, exec, returned]

/-- A program is loaded and forked, and its child writes to the stack. -/
theorem run_isolates_fork : ∃ w, Reaches exec (fun w => Admits w.system) (boot idleHost) w ∧
    w.history.map Prod.snd = [.ok, .ok, .ok] ∧
    (w.system.memories 0).map (· (ustackBottom + 5)) = some (some 0) ∧
    (w.system.memories 1).map (· (ustackBottom + 5)) = some (some 42) ∧
    Kept (boot idleHost) w := by
  let loaded := (boot idleHost).after (.loadElfFile emptyProgram 64 true true)
  let forked := loaded.after (.fork 0 true .ok true)
  let stored := forked.after (.store 1 (ustackBottom + 5) 42)
  have load : Admits (boot idleHost).system (.loadElfFile emptyProgram 64 true true) :=
    fun _ => (by decide : (0 : Nat) < pidEnd)
  have fork : Admits loaded.system (.fork 0 true .ok true) :=
    ⟨by decide +kernel, fun _ => by decide +kernel⟩
  have child : (forked.system.images 1).isSome := by decide +kernel
  have store : Admits forked.system (.store 1 (ustackBottom + 5) 42) := child
  have first : Reaches exec (fun w => Admits w.system) (boot idleHost) loaded :=
    .step .start load (exec_after (by decide +kernel))
  have second : Reaches exec (fun w => Admits w.system) (boot idleHost) forked :=
    .step first fork (exec_after (by decide +kernel))
  have reached : Reaches exec (fun w => Admits w.system) (boot idleHost) stored :=
    .step second store (exec_after (by decide +kernel))
  refine ⟨stored, reached, ?_, ?_, ?_, run_isolates reached⟩ <;> decide +kernel

end Runs

section Ledger

/-- What is left of `held` when `before` becomes `after`: the losses go and the gains come. -/
def settle (held before after : Set Nat) : Set Nat := held \ (before \ after) ∪ after \ before

/-- The areas that are in use. -/
def Host.live (host : Host) : Set Nat := { a | (host.areas a).isSome }

/-- The frames that are left to the processes and the areas that are not theirs, as the rest of the
kernel keeps account of them: those of the beginning, with what it has taken and given back since.
The calls of the processes do not enter. -/
inductive Ledger (host : Host) : World → Set Nat → Set Nat → Prop where
  | start : Ledger host (boot host) host.pool host.live
  | own {w after : World} {event : Event} {frames areas : Set Nat}
      (ledger : Ledger host w frames areas) (admitted : Admits w.system event)
      (own : event.own = true) (ran : exec w event = .ok after) : Ledger host after frames areas
  | others {w after : World} {next : Host} {frames areas : Set Nat}
      (ledger : Ledger host w frames areas) (admitted : Admits w.system (.others next))
      (ran : exec w (.others next) = .ok after) :
      Ledger host after (settle frames w.system.host.pool next.pool)
        (settle areas w.system.host.live next.live)

variable {host next : Host} {w : World} {s after : System} {spaces : Nat → Space} {event : Event}
  {frames areas : Set Nat}

theorem Ledger.reached (ledger : Ledger host w frames areas) :
    Reaches exec (fun w => Admits w.system) (boot host) w := by
  induction ledger with
  | start => exact .start
  | own _ admitted _ ran reached => exact reached.step admitted ran
  | others _ admitted ran reached => exact reached.step admitted ran

theorem exists_ledger (reached : Reaches exec (fun w => Admits w.system) (boot host) w) :
    ∃ frames areas, Ledger host w frames areas := by
  induction reached with
  | start => exact ⟨_, _, .start⟩
  | @step before after event _ admitted ran inductionHypothesis =>
      obtain ⟨frames, areas, ledger⟩ := inductionHypothesis
      cases event with
      | others next => exact ⟨_, _, .others ledger admitted ran⟩
      | loadElfFile => exact ⟨_, _, .own ledger admitted rfl ran⟩
      | execElfFile => exact ⟨_, _, .own ledger admitted rfl ran⟩
      | fork => exact ⟨_, _, .own ledger admitted rfl ran⟩
      | release => exact ⟨_, _, .own ledger admitted rfl ran⟩
      | store => exact ⟨_, _, .own ledger admitted rfl ran⟩

/-- A call that succeeds loses nothing and makes nothing up, whatever has happened before. -/
theorem Isolated.conserves (isolated : Isolated s spaces) (admitted : Admits s event)
    (own : event.own = true) (ran : Process.step s event = some (.ok, after)) :
    Conserves s after := by
  obtain ⟨answer, after', _, returned, -, -, conserves⟩ := isolated.step admitted
  cases ran.symm.trans returned
  exact conserves ⟨own, rfl⟩

/-- A step of the rest of the kernel changes what there is by what it takes and gives back. -/
theorem Isolated.settles (isolated : Isolated s spaces) :
    System.stock { s with host := next } = settle s.stock s.host.pool next.pool ∧
      System.foreign { s with host := next } = settle s.foreign s.host.live next.live := by
  have taken (f : Nat) (used : f ∈ s.frames) : f ∉ s.host.pool := by
    obtain ⟨pid, image, found, own⟩ := used
    have sound := isolated.sound pid image found
    obtain ⟨p, -, at'⟩ := sound.mem_frames.mp own
    exact (sound.frame_taken at').1
  have live (a : Nat) (used : a ∈ s.areas) : (s.host.areas a).isSome := by
    obtain ⟨pid, image, found, c, mem, rfl⟩ := used
    exact (isolated.sound pid image found).live c mem
  have sameFrames : System.frames { s with host := next } = s.frames := rfl
  have sameAreas : System.areas { s with host := next } = s.areas := rfl
  constructor
  · ext f
    have apart := taken f
    simp only [System.stock, settle, sameFrames, Set.mem_ofPred_eq, Set.mem_union, Set.mem_sdiff,
      SetLike.mem_coe]
    tauto
  · ext a
    have apart := live a
    simp only [System.foreign, settle, Host.live, sameAreas, Set.mem_ofPred_eq, Set.mem_union,
      Set.mem_sdiff]
    tauto

/-- While every call succeeds, what is free or used by a process is what the ledger says. -/
theorem Ledger.balanced (ledger : Ledger host w frames areas)
    (complete : ∀ done ∈ w.history, done.1.own = true → done.2 = .ok) :
    w.system.stock = frames ∧ w.system.foreign = areas := by
  induction ledger with
  | start =>
      constructor
      · ext f
        simp [System.stock, System.frames, System.everyone, boot]
      · ext a
        simp [System.foreign, System.areas, System.everyone, boot, Host.live]
  | @own w after event frames areas ledger admitted own ran inductionHypothesis =>
      obtain ⟨spaces, isolated⟩ := (invariant ledger.reached).isolated
      obtain ⟨answer, s, _, returned, -, -, conserves⟩ := isolated.step admitted
      simp only [exec, returned] at ran
      cases ran
      have last := complete (event, answer) (List.mem_append_right _ List.mem_cons_self) own
      have before := inductionHypothesis fun done mem => complete done (List.mem_append_left _ mem)
      have kept := conserves ⟨own, last⟩
      exact ⟨kept.frames.trans before.1, kept.areas.trans before.2⟩
  | @others w after next frames areas ledger admitted ran inductionHypothesis =>
      obtain ⟨spaces, isolated⟩ := (invariant ledger.reached).isolated
      simp only [exec, step] at ran
      cases ran
      have before := inductionHypothesis fun done mem => complete done (List.mem_append_left _ mem)
      have settled := @Isolated.settles next w.system spaces isolated
      exact ⟨settled.1.trans (by rw [before.1]), settled.2.trans (by rw [before.2])⟩

/-- Nobody has frames or areas when there is no process. -/
theorem nobody (ended : ∀ pid, s.images pid = none) (has : Image → Set Nat) :
    s.everyone has = ∅ := by
  ext x
  simp [System.everyone, ended]

/-- In every state of every run a call that succeeds loses no frame and no area; while every call
has succeeded the ledger of the rest of the kernel says what is free or used by a process, and when
all processes have ended everything that it leaves to them is free again. -/
theorem run_conserves (reached : Reaches exec (fun w => Admits w.system) (boot host) w) :
    (∀ event after, Admits w.system event → event.own = true →
      step w.system event = some (.ok, after) → Conserves w.system after) ∧
    (∃ frames areas, Ledger host w frames areas) ∧
    ∀ frames areas, Ledger host w frames areas →
      (∀ done ∈ w.history, done.1.own = true → done.2 = .ok) →
      w.system.stock = frames ∧ w.system.foreign = areas ∧
        ((∀ pid, w.system.images pid = none) →
          w.system.host.pool = frames ∧ w.system.host.live = areas) := by
  obtain ⟨spaces, isolated⟩ := (invariant reached).isolated
  refine ⟨fun event after => isolated.conserves, exists_ledger reached,
    fun frames areas ledger complete => ?_⟩
  obtain ⟨rfl, rfl⟩ := ledger.balanced complete
  refine ⟨rfl, rfl, fun ended => ⟨?_, ?_⟩⟩
  · ext f
    simp [System.stock, System.frames, nobody ended]
  · ext a
    simp [System.foreign, System.areas, nobody ended, Host.live]

/-- A program is loaded, the rest of the kernel takes a frame, the program replaces itself, and
all other frames are free again when it has ended. -/
theorem run_conserves_exec : ∃ w, Reaches exec (fun w => Admits w.system) (boot idleHost) w ∧
    w.history.map Prod.snd = [.ok, .ok, .ok, .ok] ∧
    (w.system.host.pool : Set Nat) = settle idleHost.pool {1, 2, 3} {1, 2} := by
  let loaded := (boot idleHost).after (.loadElfFile emptyProgram 64 true true)
  let next : Host := { loaded.system.host with pool := {1, 2} }
  let shared := loaded.after (.others next)
  let replaced := shared.after (.execElfFile 0 emptyProgram 64 true true)
  let ended := replaced.after (.release 0)
  have load : Admits (boot idleHost).system (.loadElfFile emptyProgram 64 true true) :=
    fun _ => (by decide : (0 : Nat) < pidEnd)
  have free : loaded.system.host.pool = {1, 2, 3} := by decide +kernel
  have take : Admits loaded.system (.others next) := by
    refine ⟨fun f _ taken => ?_, fun _ _ _ _ _ => rfl, fun _ _ _ => rfl⟩
    rw [free] at taken
    simp only [next, Finset.mem_insert, Finset.mem_singleton, not_or] at taken ⊢
    exact ⟨taken.1, taken.2.1⟩
  have live : (shared.system.images 0).isSome := by decide +kernel
  have replace : Admits shared.system (.execElfFile 0 emptyProgram 64 true true) := live
  have live' : (replaced.system.images 0).isSome := by decide +kernel
  have release : Admits replaced.system (.release 0) := live'
  have first := Ledger.start.own load rfl (exec_after (by decide +kernel))
  have second : Ledger idleHost shared _ _ := first.others take (exec_after rfl)
  have third := second.own replace rfl (exec_after (by decide +kernel))
  have last : Ledger idleHost ended _ _ := third.own release rfl (exec_after (by decide +kernel))
  have reached := last.reached
  have complete : ∀ done ∈ ended.history, done.1.own = true → done.2 = .ok := by decide +kernel
  have gone (pid : Nat) : ended.system.images pid = none := by
    obtain ⟨spaces, isolated⟩ := (invariant reached).isolated
    by_cases first : pid = 0
    · subst first
      have none : (ended.system.images 0).isNone := by decide +kernel
      exact Option.isNone_iff_eq_none.mp none
    · have next : ended.system.next = 1 := by decide +kernel
      exact isolated.fresh pid (by omega)
  obtain ⟨-, -, balanced⟩ := run_conserves reached
  refine ⟨ended, reached, by decide +kernel, ?_⟩
  have pool := ((balanced _ _ last complete).2.2 gone).1
  rw [pool, free]
  simp [next]

end Ledger

end Opal.Process
