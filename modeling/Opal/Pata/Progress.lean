import Opal.Pata.Transfers
import Opal.Disk.Release

/-!
# The active request of a port

Between calls a port is quiet, or it holds the request the queue has in flight and a
command for it is under way.  Every call keeps this.  The one way to stop is a poll for
the first sector of a write that fails: `write_first_sector` then completes the request
and so does its caller.
-/

namespace Opal.Pata

open Disk Library

section Invariant

/-- The poll for the first sector of a write succeeds. -/
def Poll.Answers (poll : Poll) : Prop :=
  ∃ status ∈ waitDrqOrError poll.data, status &&& (ataStatusErr ||| ataStatusDf) = 0

def Steady (polls : Stream' Poll) : Prop := ∀ i, (polls.get i).Answers

/-- The request was transferred: the commands name its sectors in order, and each of
them is moved once, to or from its place in the buffer.  A device reports at most `2 ^ 28`
sectors in the words of its identification that the driver reads. -/
structure Exact (disk : PataDisk) (info : RequestInfo) (events : List Event) : Prop where
  commands : ∀ isWrite registers, .command isWrite registers ∈ events →
    registers.drive = disk.drive ∧ isWrite = decide (info.type = .write) ∧
      1 ≤ registers.sectors ∧ registers.sectors ≤ 256
  indices : sectorIndices events = List.range info.sectors
  tiles : disk.sectors ≤ 2 ^ 28 →
    Tiles info.lba (info.lba + info.sectors) (Pata.commands events)
  moves : disk.sectors ≤ 2 ^ 28 →
    (deviceAfter events).moves = (List.range info.sectors).map fun i => (info.lba + i, i)

/-- What was done for a completed request, exactly what it asks for if `OPAL_OK` is the result in
its slot. -/
structure Outcome.Sound (disks : Nat → PataDisk) (system : System) (outcome : Outcome) : Prop where
  request : ∃ n ∈ outcome.number, system.requests[n]? = some (outcome.disk, outcome.info)
  inside : ∀ i ∈ sectorIndices outcome.events, i < outcome.info.sectors
  exact : ∀ slot, system.number slot = outcome.number →
    (system.queue.buffer slot).result = opalOk →
      Exact (disks outcome.disk) outcome.info outcome.events

structure Sound (disks : Nat → PataDisk) (port : Port) : Prop where
  tracks : ∃ base, Tracks port.queue base
  outcomes : ∀ outcome ∈ port.outcomes, outcome.Sound disks port.queue
  completed : port.outcomes.map Outcome.number = port.queue.completed.map some

/-- The port has nothing to do. -/
structure Quiet (port : Port) : Prop where
  activeReq : port.activeReq = none
  activeDisk : port.activeDisk = none
  phase : port.phase = .idle
  idle : port.queue.Idle
  events : port.events = []

/-- The port works on the request in flight. -/
structure Holds (port : Port) (req disk : Nat) (info : RequestInfo) : Prop where
  activeReq : port.activeReq = some req
  activeDisk : port.activeDisk = some disk
  busy : ¬ port.queue.Idle
  slot : req = port.queue.queue.fpos
  disk : (port.queue.queue.buffer req).disk = disk
  info : (port.queue.queue.buffer req).info = info

/-- The request passes the checks of `start_command`. -/
structure Fits (disk : PataDisk) (info : RequestInfo) : Prop where
  lba : info.lba ≤ 2 ^ 32 - 1
  sectors : info.sectors ≤ 2 ^ 32 - 1
  some : 0 < info.sectors
  range : info.lba + info.sectors ≤ disk.sectors

/-- A command is under way, and `next_sector` sectors of it were moved. -/
structure Under (disk : PataDisk) (info : RequestInfo) (port : Port) : Prop where
  fits : Fits disk info
  some : 0 < port.cmdSectors
  limit : port.cmdSectors ≤ 256
  inside : port.doneSectors + port.cmdSectors ≤ info.sectors
  covers : Covers disk.drive (info.type = .write) info.lba (port.doneSectors + port.cmdSectors)
    (port.doneSectors + port.nextSector) port.events

def Progress (disk : PataDisk) (info : RequestInfo) (port : Port) : Prop :=
  match port.phase with
  | .idle => False
  | .readData => info.type = .read ∧ Under disk info port ∧ port.nextSector < port.cmdSectors
  | .writeData => info.type = .write ∧ Under disk info port ∧ port.nextSector < port.cmdSectors
  | .writeDone => info.type = .write ∧ Under disk info port ∧ port.nextSector = port.cmdSectors
  | .complete => Fits disk info ∧ Covers disk.drive (info.type = .write) info.lba info.sectors
      info.sectors port.events

def Inv (disks : Nat → PataDisk) (port : Port) : Prop :=
  Sound disks port ∧ (Quiet port ∨
    ∃ req disk info, Holds port req disk info ∧ Progress (disks disk) info port)

end Invariant

section Outcomes

variable {disks : Nat → PataDisk} {disk : PataDisk} {info : RequestInfo} {port : Port}
  {events : List Event}

theorem Fits.exact (fits : Fits disk info) (covers : Covers disk.drive (info.type = .write) info.lba
    info.sectors info.sectors events) : Exact disk info events where
  commands := covers.shape
  indices := covers.indices
  tiles := fun small => covers.tiles (fits.range.trans small)
  moves := fun small => covers.moves (fits.range.trans small)

theorem Under.inside_request (under : Under disk info port)
    (upper : port.nextSector ≤ port.cmdSectors) {i : Nat} (used : i ∈ sectorIndices port.events) :
    i < info.sectors := by
  have below := under.covers.index_lt used
  have inside := under.inside
  omega

theorem Progress.inside (progress : Progress disk info port) {i : Nat}
    (used : i ∈ sectorIndices port.events) : i < info.sectors := by
  unfold Progress at progress
  split at progress
  · exact progress.elim
  · exact progress.2.1.inside_request (Nat.le_of_lt progress.2.2) used
  · exact progress.2.1.inside_request (Nat.le_of_lt progress.2.2) used
  · exact progress.2.1.inside_request (Nat.le_of_eq progress.2.2) used
  · exact progress.2.index_lt used

end Outcomes

section Complete

variable {disks : Nat → PataDisk} {port : Port} {req disk : Nat} {info : RequestInfo}

/-- The slots that still hold a completed request keep its result. -/
theorem Outcome.Sound.kept {outcome : Outcome} {system after : System}
    (sound : outcome.Sound disks system)
    (requests : ∀ (n : Nat) (request : Nat × RequestInfo), system.requests[n]? = some request →
      after.requests[n]? = some request)
    (slots : ∀ slot, after.number slot = outcome.number → system.number slot = outcome.number ∧
      (after.queue.buffer slot).result = (system.queue.buffer slot).result) :
    outcome.Sound disks after := by
  obtain ⟨n, number, request⟩ := sound.request
  refine ⟨⟨n, number, requests n _ request⟩, sound.inside, fun slot same ok => ?_⟩
  obtain ⟨before, result⟩ := slots slot same
  exact sound.exact slot before (result.symm.trans ok)

/-- The requests of the outcomes come before the one in flight. -/
theorem Sound.outcome_lt {base : Nat} (sound : Sound disks port) (tracks : Tracks port.queue base)
    {outcome : Outcome} (member : outcome ∈ port.outcomes) :
    ∃ n < base + port.queue.queue.countDone, outcome.number = some n := by
  have number : outcome.number ∈ port.queue.completed.map some :=
    sound.completed ▸ List.mem_map_of_mem member
  obtain ⟨n, completed, same⟩ := List.mem_map.mp number
  rw [tracks.completed, List.mem_range] at completed
  exact ⟨n, completed, same.symm⟩

/-- The request in flight, by its number. -/
theorem Holds.number {base : Nat} (holds : Holds port req disk info)
    (tracks : Tracks port.queue base) : ∃ n ∈ port.queue.number req,
      port.queue.requests[n]? = some (disk, info) := by
  obtain ⟨some, _⟩ := tracks.busy_iff.mp holds.busy
  have total := tracks.submitted
  refine ⟨base + port.queue.queue.countDone, ?_, ?_⟩
  · rw [holds.slot]
    exact tracks.number_fpos some
  · rw [tracks.request _ (Nat.le_add_right _ _) (by omega), ← tracks.fpos, ← holds.slot,
      holds.disk, holds.info]

theorem completeRequest_spec (sound : Sound disks port) (holds : Holds port req disk info)
    {success : Bool} (inside : ∀ i ∈ sectorIndices port.events, i < info.sectors)
    (exact : success = true → Exact (disks disk) info port.events) :
    ∃ after, completeRequest port success = .ok after ∧ Sound disks after ∧ Quiet after ∧
      after.queue.queue.countDoing + 1 = port.queue.queue.countDoing := by
  obtain ⟨base, tracks⟩ := sound.tracks
  obtain ⟨some, _⟩ := tracks.busy_iff.mp holds.busy
  unfold completeRequest
  simp only [holds.activeReq, holds.activeDisk, tracks.popFetched_eq holds.busy]
  refine ⟨_, rfl, ⟨⟨base, tracks.finished holds.busy _⟩, ?_, ?_⟩, ⟨rfl, rfl, rfl, ?_, rfl⟩, ?_⟩
  · intro outcome member
    rcases List.mem_append.mp member with old | new
    · refine (sound.outcomes outcome old).kept (fun _ _ request => request) fun slot same => ?_
      refine ⟨same, (result_finished _ slot).trans (if_neg ?_)⟩
      rintro rfl
      obtain ⟨n, lower, number⟩ := sound.outcome_lt tracks old
      have current := (tracks.number_fpos some).symm.trans (same.trans number)
      exact absurd (Option.some.inj current) (Nat.ne_of_gt lower)
    · obtain rfl := List.mem_singleton.mp new
      refine ⟨?_, ?_, ?_⟩
      · dsimp only
        rw [holds.info]
        exact holds.number tracks
      · dsimp only
        rw [holds.info]
        exact inside
      · -- the slot of the request is the one that its result goes to
        dsimp only
        rw [holds.info]
        intro slot same ok
        have number : port.queue.number slot = .some (base + port.queue.queue.countDone) := by
          rw [← tracks.number_fpos some, ← holds.slot]
          exact same
        have here : slot = port.queue.queue.fpos :=
          (tracks.slot slot _ number).1.trans tracks.fpos.symm
        rw [result_finished, if_pos here] at ok
        cases success with
        | true => exact exact rfl
        | false => exact absurd ok (by decide)
  · have number := tracks.number_fpos some
    simp only [System.finished, List.map_append, List.map_cons, List.map_nil, sound.completed,
      holds.slot, number, Option.toList_some]
  · exact tracks.idle_finished holds.busy _
  · exact Nat.sub_add_cancel some

/-- Completing again is what the assertion is for. -/
theorem Quiet.completeRequest_eq (quiet : Quiet port) (success : Bool) :
    completeRequest port success = .error .noActiveReq := by
  unfold completeRequest
  rw [quiet.activeReq]

end Complete

section Start

variable {disks : Nat → PataDisk} {port after : Port} {req disk tick : Nat} {info : RequestInfo}
  {poll : Poll} {tolerated : Stop → Prop}

/-- The port works on the request, and a command for it is under way. -/
def Active (disks : Nat → PataDisk) (port : Port) (req disk : Nat) (info : RequestInfo) : Prop :=
  Sound disks port ∧ Holds port req disk info ∧ Progress (disks disk) info port

theorem Active.inv (active : Active disks port req disk info) : Inv disks port :=
  ⟨active.1, .inr ⟨req, disk, info, active.2⟩⟩

/-- What `start_command` leaves: a command under way, the port as it was, or the request
completed by `write_first_sector`, after a poll that failed. -/
def Started (disks : Nat → PataDisk) (port : Port) (req disk : Nat) (info : RequestInfo)
    (poll : Poll) (done : Port × Bool) : Prop :=
  if done.2 then Active disks done.1 req disk info
  else done.1 = port ∨ ¬ poll.Answers ∧ Quiet done.1

/-- A write whose first sector cannot be sent is completed here. -/
theorem writeFirstSector_spec (sound : Sound disks port) (holds : Holds port req disk info)
    (kind : info.type = .write) (under : Under (disks disk) info port)
    (first : port.nextSector = 0) {before : Port} :
    Ensures tolerated (Started disks before req disk info poll)
      (writeFirstSector port tick poll) := by
  obtain ⟨after, completed, _, quiet, _⟩ := @completeRequest_spec disks port req disk info
    sound holds false (fun i used => under.inside_request (by omega) used)
    (fun absurd => nomatch absurd)
  unfold writeFirstSector
  split
  · rename_i failed
    rw [completed]
    refine .inr ⟨?_, quiet⟩
    rintro ⟨status, answered, _⟩
    rw [failed] at answered
    cases answered
  · rename_i status answered
    split
    · rename_i refused
      rw [completed]
      refine .inr ⟨?_, quiet⟩
      rintro ⟨status', answered', clear⟩
      rw [answered] at answered'
      cases answered'
      exact refused clear
    · refine ⟨⟨sound.tracks, sound.outcomes, sound.completed⟩,
        ⟨holds.activeReq, holds.activeDisk, holds.busy,
        holds.slot, holds.disk, holds.info⟩, ?_⟩
      have some := under.some
      have covers := under.covers.moved (by omega)
      have next : Under (disks disk) info { port with
          events := port.events ++ [.moved (port.doneSectors + port.nextSector)]
          nextSector := 1
          deadlineTick := tick + ticksFromMs ataTimeoutMs
          phase := if 1 ≥ port.cmdSectors then .writeDone else .writeData } := by
        refine ⟨under.fits, under.some, under.limit, under.inside, ?_⟩
        rw [first] at covers
        rw [first]
        exact covers
      unfold Progress
      by_cases last : 1 ≥ port.cmdSectors
      · simp only [last, if_true]
        simp only [last, if_true] at next
        exact ⟨kind, next, by omega⟩
      · simp only [last, if_false]
        simp only [last, if_false] at next
        exact ⟨kind, next, by omega⟩

theorem rangeValid_iff {disk : PataDisk} {lba sectors : Nat} :
    rangeValid disk lba sectors = true ↔ 0 < sectors ∧ lba + sectors ≤ disk.sectors := by
  unfold rangeValid
  split
  · constructor
    · intro absurd
      cases absurd
    · omega
  · rw [decide_eq_true_iff]
    omega

theorem issueRwCommand_cases {drive isWrite : Bool} {lba sectors : Nat} :
    issueRwCommand port drive isWrite lba sectors poll = none ∨
      issueRwCommand port drive isWrite lba sectors poll = some { port with
        events := port.events ++ [.command isWrite (Registers.of drive lba sectors)] } := by
  unfold issueRwCommand
  split
  · exact .inl rfl
  · split
    · exact .inl rfl
    · split
      · exact .inl rfl
      · exact .inr rfl

/-- The next command of a request of which whole commands are done. -/
theorem startCommand_spec (sound : Sound disks port) (holds : Holds port req disk info)
    (left : 0 < info.sectors → port.doneSectors < info.sectors)
    (covers : Covers (disks disk).drive (info.type = .write) info.lba port.doneSectors
      port.doneSectors port.events) :
    Ensures tolerated (Started disks port req disk info poll)
      (startCommand port tick info (disks disk) poll) := by
  unfold startCommand
  split
  · exact .inl rfl
  · rename_i small
    split
    · exact .inl rfl
    · rename_i valid
      obtain ⟨some, range⟩ := rangeValid_iff.mp (Decidable.not_not.mp valid)
      have more := left some
      rw [if_neg (not_not_intro more)]
      have fits : Fits (disks disk) info := ⟨by omega, by omega, some, range⟩
      have bound := (disks disk).small
      have lba : (info.lba + port.doneSectors) % 2 ^ 32 = info.lba + port.doneSectors :=
        Nat.mod_eq_of_lt (by omega)
      dsimp only
      rw [lba]
      obtain ⟨cmdSectors, size⟩ : ∃ size, size = if info.sectors - port.doneSectors > 256 then 256
        else info.sectors - port.doneSectors := ⟨_, rfl⟩
      have sizes : 0 < cmdSectors ∧ cmdSectors ≤ 256 ∧
          port.doneSectors + cmdSectors ≤ info.sectors := by
        split at size <;> omega
      rw [← size]
      rcases @issueRwCommand_cases port poll (disks disk).drive (info.type = .write)
        (info.lba + port.doneSectors) cmdSectors with failed | issued
      · rw [failed]
        exact .inl rfl
      · rw [issued]
        dsimp only
        have covers' := covers.command sizes.1 sizes.2.1
        split
        · rename_i kind
          exact ⟨⟨sound.tracks, sound.outcomes, sound.completed⟩,
            ⟨holds.activeReq, holds.activeDisk, holds.busy,
            holds.slot, holds.disk, holds.info⟩, kind,
            ⟨fits, sizes.1, sizes.2.1, sizes.2.2, covers'⟩, sizes.1⟩
        · rename_i kind
          refine writeFirstSector_spec ?_ ?_ kind ?_ rfl
          · exact ⟨sound.tracks, sound.outcomes, sound.completed⟩
          · exact ⟨holds.activeReq, holds.activeDisk, holds.busy, holds.slot, holds.disk,
              holds.info⟩
          · exact ⟨fits, sizes.1, sizes.2.1, sizes.2.2, covers'⟩

end Start

section Next

variable {disks : Nat → PataDisk} {port : Port} {req disk tick : Nat} {info : RequestInfo}
  {polls : Stream' Poll}

/-- Fetching the next request makes the port hold it. -/
theorem Quiet.holds_taken {base : Nat} (quiet : Quiet port) (tracks : Tracks port.queue base)
    (some : 0 < port.queue.queue.countDoing) {port' : Port}
    (queue : port'.queue = port.queue.taken)
    (activeReq : port'.activeReq = .some port.queue.queue.fpos)
    (activeDisk : port'.activeDisk =
      .some (port.queue.taken.queue.buffer port.queue.queue.fpos).disk) :
    Holds port' port.queue.queue.fpos (port.queue.taken.queue.buffer port.queue.queue.fpos).disk
      (port.queue.taken.queue.buffer port.queue.queue.fpos).info where
  activeReq := activeReq
  activeDisk := activeDisk
  busy := by
    rw [queue]
    exact tracks.busy_taken quiet.idle some
  slot := by
    rw [queue]
    rfl
  disk := by rw [queue]
  info := by rw [queue]

theorem Steady.tail (steady : Steady polls) : Steady polls.tail := fun i => steady (i + 1)

/-- After `start_command` the port goes on, or the request fails and the port turns to
the next one. -/
theorem Started.resume {done : Port × Bool}
    (started : Started disks port req disk info polls.head done) (sound : Sound disks port)
    (holds : Holds port req disk info)
    (inside : ∀ i ∈ sectorIndices port.events, i < info.sectors) {next : Port → Except Stop Port}
    (resumes : ∀ after, Sound disks after → Quiet after →
      after.queue.queue.countDoing + 1 = port.queue.queue.countDoing →
      Ensures (fun _ => ¬ Steady polls.tail) (Inv disks) (next after)) :
    Ensures (fun _ => ¬ Steady polls) (Inv disks)
      (if done.2 = true then pure done.1 else completeRequest done.1 false >>= next) := by
  unfold Started at started
  split at started
  · rename_i begun
    rw [if_pos begun]
    exact started.inv
  · rename_i failed
    rw [if_neg failed]
    rcases started with unchanged | ⟨refused, quiet⟩
    · obtain ⟨after, completed, sound', quiet, fewer⟩ :=
        @completeRequest_spec disks port req disk info sound holds false inside
          (fun absurd => nomatch absurd)
      rw [unchanged, completed]
      exact (resumes after sound' quiet fewer).tolerate fun _ => mt Steady.tail
    · rw [quiet.completeRequest_eq]
      exact fun steady => refused (steady 0)

/-- Every round of the loop takes a request off the queue, so there are enough rounds. -/
theorem startNextLoop_spec {rounds : Nat} (sound : Sound disks port) (quiet : Quiet port)
    (enough : port.queue.queue.countDoing < rounds) :
    Ensures (fun _ => ¬ Steady polls) (Inv disks) (startNextLoop disks tick rounds port polls) := by
  induction rounds generalizing port polls with
  | zero => exact absurd enough (Nat.not_lt_zero _)
  | succ rounds inductionHypothesis =>
      obtain ⟨base, tracks⟩ := sound.tracks
      unfold startNextLoop
      rw [quiet.activeReq]
      dsimp only
      rw [tracks.fetch_eq quiet.idle]
      by_cases nothing : port.queue.queue.countDoing = 0
      · rw [if_pos nothing]
        exact ⟨⟨⟨base, tracks⟩, sound.outcomes, sound.completed⟩,
          .inl ⟨rfl, quiet.activeDisk, quiet.phase,
          quiet.idle, quiet.events⟩⟩
      · have some := Nat.pos_of_ne_zero nothing
        rw [if_neg nothing]
        simp only [Except.mapError, ok_bind]
        obtain ⟨held, same⟩ : ∃ held : Port, held = { port with
            queue := port.queue.taken
            activeDisk := Option.some (port.queue.taken.queue.buffer port.queue.queue.fpos).disk
            activeReq := Option.some port.queue.queue.fpos
            nextSector := 0
            cmdSectors := 0
            doneSectors := 0 } := ⟨_, rfl⟩
        have holds := @Quiet.holds_taken port base quiet tracks some held (by rw [same])
          (by rw [same]) (by rw [same])
        have sound' : Sound disks held := by
          subst same
          refine ⟨⟨base, tracks.taken quiet.idle some⟩, fun outcome member => ?_, sound.completed⟩
          exact (sound.outcomes outcome member).kept (fun _ _ request => request)
            fun slot same => ⟨same, result_setState ..⟩
        have events : held.events = [] := by
          rw [same]
          exact quiet.events
        have zero : held.doneSectors = 0 := by rw [same]
        have count : held.queue.queue.countDoing = port.queue.queue.countDoing := by
          rw [same]
          rfl
        rw [← same]
        refine (startCommand_spec sound' holds (fun positive => by omega) ?_).bind ?_
        · rw [zero, events]
          exact Covers.nil
        · intro done started
          refine started.resume sound' holds ?_ fun after sound'' quiet'' fewer => ?_
          · rw [events]
            exact fun i used => nomatch used
          · exact inductionHypothesis sound'' quiet'' (by omega)

theorem startNextRequest_spec (sound : Sound disks port) (quiet : Quiet port) :
    Ensures (fun _ => ¬ Steady polls) (Inv disks) (startNextRequest disks port tick polls) :=
  startNextLoop_spec sound quiet (Nat.lt_succ_self _)

theorem completeAndStartNext_spec (sound : Sound disks port) (holds : Holds port req disk info)
    {success : Bool} (inside : ∀ i ∈ sectorIndices port.events, i < info.sectors)
    (exact : success = true → Exact (disks disk) info port.events) :
    Ensures (fun _ => ¬ Steady polls) (Inv disks)
      (completeAndStartNext disks port tick success polls) := by
  obtain ⟨after, completed, sound', quiet, _⟩ := completeRequest_spec sound holds inside exact
  unfold completeAndStartNext
  rw [completed]
  exact startNextRequest_spec sound' quiet

/-- A command of the active request is done, and there is more to transfer. -/
theorem startCommandOrFail_spec (sound : Sound disks port) (holds : Holds port req disk info)
    (left : port.doneSectors < info.sectors)
    (covers : Covers (disks disk).drive (info.type = .write) info.lba port.doneSectors
      port.doneSectors port.events) :
    Ensures (fun _ => ¬ Steady polls) (Inv disks)
      (startCommandOrFail disks port tick info (disks disk) polls) := by
  refine (startCommand_spec sound holds (fun _ => left) covers).bind ?_
  intro done started
  refine started.resume sound holds (fun i used => ?_) fun after sound' quiet _ => ?_
  · exact Nat.lt_trans (covers.index_lt used) left
  · exact startNextRequest_spec sound' quiet

end Next

end Opal.Pata
