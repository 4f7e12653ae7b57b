import Opal.Pata.Progress

/-!
# Runs of a port

The invariant of a port is kept by every call.  A run stops only at a call that started a
write whose first sector the device did not take.
-/

namespace Opal.Pata

open Disk Library

section Interrupt

variable {disks : Nat → PataDisk} {port : Port} {req disk tick : Nat} {info : RequestInfo}
  {polls : Stream' Poll}

theorem Under.nextSector_moved (under : Under (disks disk) info port)
    (more : port.nextSector < port.cmdSectors) :
    (port.moved tick).nextSector = port.nextSector + 1 := by
  have limit := under.limit
  exact Nat.mod_eq_of_lt (by omega)

theorem Under.moved (under : Under (disks disk) info port)
    (more : port.nextSector < port.cmdSectors) : Under (disks disk) info (port.moved tick) where
  fits := under.fits
  some := under.some
  limit := under.limit
  inside := under.inside
  covers := by
    rw [under.nextSector_moved more]
    exact under.covers.moved (Nat.add_lt_add_left more _)

/-- The sectors of a command that is done. -/
theorem Under.advanced (under : Under (disks disk) info port)
    (last : port.nextSector = port.cmdSectors) :
    port.advanced.doneSectors ≤ info.sectors ∧
      Covers (disks disk).drive (info.type = .write) info.lba port.advanced.doneSectors
        port.advanced.doneSectors port.events := by
  have inside := under.inside
  have small := under.fits.sectors
  have sum : port.advanced.doneSectors = port.doneSectors + port.cmdSectors :=
    Nat.mod_eq_of_lt (by omega)
  have covers := under.covers
  rw [last] at covers
  rw [sum]
  exact ⟨inside, covers⟩

theorem Sound.moved (sound : Sound disks port) : Sound disks (port.moved tick) :=
  ⟨sound.tracks, sound.outcomes, sound.completed⟩

theorem Holds.moved (holds : Holds port req disk info) : Holds (port.moved tick) req disk info :=
  ⟨holds.activeReq, holds.activeDisk, holds.busy, holds.slot, holds.disk, holds.info⟩

theorem Sound.advanced (sound : Sound disks port) : Sound disks port.advanced :=
  ⟨sound.tracks, sound.outcomes, sound.completed⟩

theorem Holds.advanced (holds : Holds port req disk info) : Holds port.advanced req disk info :=
  ⟨holds.activeReq, holds.activeDisk, holds.busy, holds.slot, holds.disk, holds.info⟩

/-- The last sector of a read command was moved. -/
theorem advance_read_spec (sound : Sound disks port) (holds : Holds port req disk info)
    (under : Under (disks disk) info port) (last : port.nextSector = port.cmdSectors) :
    Ensures (fun _ => ¬ Steady polls) (Inv disks)
      (if port.advanced.doneSectors ≥ info.sectors then
        completeAndStartNext disks port.advanced tick true polls
      else startCommandOrFail disks port.advanced tick info (disks disk) polls) := by
  obtain ⟨inside, covers⟩ := under.advanced last
  split
  · rename_i all
    have whole : port.advanced.doneSectors = info.sectors := Nat.le_antisymm inside all
    rw [whole] at covers
    exact completeAndStartNext_spec sound.advanced holds.advanced
      (fun i used => covers.index_lt used)
      fun _ => under.fits.exact covers
  · rename_i more
    exact startCommandOrFail_spec sound.advanced holds.advanced (Nat.lt_of_not_le more) covers

/-- In every phase the switch keeps the invariant. -/
theorem handlePhase_spec (sound : Sound disks port) (holds : Holds port req disk info)
    (progress : Progress (disks disk) info port) (status : UInt8) :
    Ensures (fun _ => ¬ Steady polls) (Inv disks)
      (handlePhase disks port tick info (disks disk) status polls) := by
  have fails : Ensures (fun _ => ¬ Steady polls) (Inv disks)
      (completeAndStartNext disks port tick false polls) :=
    completeAndStartNext_spec sound holds (fun i used => progress.inside used)
      (fun absurd => nomatch absurd)
  unfold Progress at progress
  unfold handlePhase
  cases phase : port.phase with
  | idle =>
      rw [phase] at progress
      exact progress.elim
  | readData =>
      rw [phase] at progress
      obtain ⟨kind, under, more⟩ := progress
      have next := @Under.nextSector_moved disks port disk tick info under more
      dsimp only
      split
      · exact fails
      · split
        · rename_i last
          refine advance_read_spec sound.moved holds.moved (under.moved more) ?_
          exact Nat.le_antisymm (next ▸ more) last
        · rename_i less
          refine Active.inv ⟨sound.moved, holds.moved, ?_⟩
          unfold Progress
          rw [show (port.moved tick).phase = .readData from phase]
          exact ⟨kind, under.moved more, Nat.lt_of_not_le less⟩
  | writeData =>
      rw [phase] at progress
      obtain ⟨kind, under, more⟩ := progress
      have next := @Under.nextSector_moved disks port disk tick info under more
      have under' : Under (disks disk) info (port.moved tick) := under.moved more
      dsimp only
      split
      · exact fails
      · split
        · rename_i last
          refine Active.inv ⟨⟨sound.tracks, sound.outcomes, sound.completed⟩,
            ⟨holds.activeReq, holds.activeDisk,
            holds.busy, holds.slot, holds.disk, holds.info⟩, kind, ?_, ?_⟩
          · exact ⟨under'.fits, under'.some, under'.limit, under'.inside, under'.covers⟩
          · exact Nat.le_antisymm (next ▸ more) last
        · rename_i less
          refine Active.inv ⟨sound.moved, holds.moved, ?_⟩
          unfold Progress
          rw [show (port.moved tick).phase = .writeData from phase]
          exact ⟨kind, under', Nat.lt_of_not_le less⟩
  | writeDone =>
      rw [phase] at progress
      obtain ⟨_, under, last⟩ := progress
      obtain ⟨inside, covers⟩ := under.advanced last
      dsimp only
      split
      · rename_i all
        have whole : port.advanced.doneSectors = info.sectors := Nat.le_antisymm inside all
        rw [whole] at covers
        exact Active.inv ⟨⟨sound.tracks, sound.outcomes, sound.completed⟩,
          ⟨holds.activeReq, holds.activeDisk,
          holds.busy, holds.slot, holds.disk, holds.info⟩, under.fits, covers.flush⟩
      · rename_i more
        exact startCommandOrFail_spec sound.advanced holds.advanced (Nat.lt_of_not_le more) covers
  | complete =>
      rw [phase] at progress
      exact completeAndStartNext_spec sound holds
        (fun i used => progress.2.index_lt used) fun _ => progress.1.exact progress.2

/-- An interrupt moves a sector, ends a command, or ends the request. -/
theorem handleIrq_spec (inv : Inv disks port) (status : UInt8) :
    Ensures (fun _ => ¬ Steady polls) (Inv disks) (handleIrq disks port tick status polls) := by
  obtain ⟨sound, quiet | ⟨req, disk, info, holds, progress⟩⟩ := inv
  · unfold handleIrq
    rw [quiet.activeReq]
    exact ⟨sound, .inl quiet⟩
  · unfold handleIrq
    rw [holds.activeReq, holds.activeDisk]
    dsimp only
    rw [holds.info]
    split
    · exact completeAndStartNext_spec sound holds (fun i used => progress.inside used)
        (fun absurd => nomatch absurd)
    · split
      · exact Active.inv ⟨sound, holds, progress⟩
      · exact handlePhase_spec sound holds progress status

end Interrupt

section Tasks

variable {disks : Nat → PataDisk} {port : Port} {req disk : Nat} {info : RequestInfo}

/-- How far the request is does not depend on the rest of the queue. -/
theorem Progress.withQueue {disk : PataDisk} (progress : Progress disk info port)
    (queue : System) : Progress disk info { port with queue := queue } := by
  obtain ⟨after, same⟩ : ∃ after : Port, after = { port with queue := queue } := ⟨_, rfl⟩
  have under : Under disk info port → Under disk info after := by
    subst same
    exact fun under => ⟨under.fits, under.some, under.limit, under.inside, under.covers⟩
  rw [← same]
  have phase : after.phase = port.phase := by rw [same]
  have next : after.nextSector = port.nextSector := by rw [same]
  have cmd : after.cmdSectors = port.cmdSectors := by rw [same]
  have events : after.events = port.events := by rw [same]
  unfold Progress at progress ⊢
  rw [phase, next, cmd, events]
  cases current : port.phase <;> rw [current] at progress
  case idle => exact progress
  case complete => exact progress
  all_goals exact ⟨progress.1, under progress.2.1, progress.2.2⟩

/-- A submission goes to a slot of its own. -/
theorem submit_spec (inv : Inv disks port) (target : Nat) (reqinfo : RequestInfo) :
    Inv disks { port with queue := port.queue.submit target reqinfo } := by
  obtain ⟨sound, activity⟩ := inv
  obtain ⟨base, tracks⟩ := sound.tracks
  have tracks' : Tracks (port.queue.submit target reqinfo) base := tracks.submit
  unfold System.submit at tracks' ⊢
  unfold submitRequest at tracks' ⊢
  by_cases full : diskReqQueueIsFullUnlocked port.queue.queue
  · rw [if_pos full]
    exact ⟨sound, activity⟩
  · rw [if_neg full] at tracks' ⊢
    have total := tracks.submitted
    refine ⟨⟨⟨base, tracks'⟩, fun outcome member => ?_, sound.completed⟩, ?_⟩
    · obtain ⟨n, lower, number⟩ := sound.outcome_lt tracks member
      refine (sound.outcomes outcome member).kept (fun m request present => ?_) fun slot same => ?_
      · exact (List.getElem?_append_left (List.getElem?_eq_some_iff.mp present).1).trans present
      · have apart : slot ≠ port.queue.queue.wpos := by
          rintro rfl
          have new := ((Function.update_self ..).symm.trans (same.trans number)).symm
          have := Option.some.inj new
          omega
        exact ⟨(Function.update_of_ne apart ..).symm.trans same,
          congrArg Request.result (Function.update_of_ne apart ..)⟩
    · rcases activity with quiet | ⟨req, disk, info, holds, progress⟩
      · exact .inl ⟨quiet.activeReq, quiet.activeDisk, quiet.phase, quiet.idle, quiet.events⟩
      · obtain ⟨some, _⟩ := tracks.busy_iff.mp holds.busy
        have apart : req ≠ port.queue.queue.wpos := by
          rw [holds.slot, tracks.fpos]
          exact tracks.wpos_ne (Nat.lt_of_not_le full) (Nat.le_add_right _ _) (by omega)
        refine .inr ⟨req, disk, info, ⟨holds.activeReq, holds.activeDisk, holds.busy, holds.slot,
          ?_, ?_⟩, progress.withQueue _⟩
        · simp only [Function.update_of_ne apart]
          exact holds.disk
        · simp only [Function.update_of_ne apart]
          exact holds.info

/-- A release touches no request that the driver works on. -/
theorem release_spec (inv : Inv disks port) (releasable : port.queue.Releasable req) :
    ∃ queue, port.queue.release req = .ok queue ∧ Inv disks { port with queue := queue } := by
  obtain ⟨sound, activity⟩ := inv
  obtain ⟨base, tracks⟩ := sound.tracks
  obtain ⟨dropped, released, tracks'⟩ := tracks.release releasable
  refine ⟨_, released, ⟨⟨_, tracks'⟩, fun outcome member => ?_, sound.completed⟩, ?_⟩
  · exact (sound.outcomes outcome member).kept (fun _ _ request => request)
      fun slot same => ⟨same, result_setState ..⟩
  rcases activity with quiet | ⟨active, disk, info, holds, progress⟩
  · exact .inl ⟨quiet.activeReq, quiet.activeDisk, quiet.phase, quiet.idle, quiet.events⟩
  · refine .inr ⟨active, disk, info, ⟨holds.activeReq, holds.activeDisk, holds.busy, holds.slot,
      ?_, ?_⟩, progress.withQueue _⟩
    · exact (disk_setState _ _ _ _).trans holds.disk
    · exact (info_setState _ _ _ _).trans holds.info

end Tasks

section Runs

variable {disks : Nat → PataDisk} {port : Port}

/-- Every write command that the call starts is answered for its first sector. -/
def Call.Steady : Call → Prop
  | .submit _ _ => True
  | .release _ => True
  | .onRequest _ polls => Pata.Steady polls
  | .handleIrq _ _ polls => Pata.Steady polls
  | .onTimer _ polls => Pata.Steady polls

theorem step_spec {call : Call} (inv : Inv disks port) (admitted : admits port call) :
    Ensures (fun _ => ¬ call.Steady) (Inv disks) (step disks port call) := by
  cases call with
  | submit target reqinfo => exact submit_spec inv target reqinfo
  | release req =>
      obtain ⟨queue, released, inv'⟩ := release_spec inv admitted
      show Ensures _ _ ((port.queue.release req).mapError Stop.queue >>= _)
      rw [released]
      exact inv'
  | onRequest tick polls =>
      unfold step onRequest
      obtain ⟨sound, quiet | ⟨req, disk, info, holds, progress⟩⟩ := inv
      · rw [quiet.activeReq]
        exact startNextRequest_spec sound quiet
      · rw [holds.activeReq]
        exact Active.inv ⟨sound, holds, progress⟩
  | handleIrq tick status polls => exact handleIrq_spec inv status
  | onTimer tick polls =>
      unfold step pataOnTimer
      obtain ⟨sound, quiet | ⟨req, disk, info, holds, progress⟩⟩ := inv
      · rw [quiet.activeReq]
        exact ⟨sound, .inl quiet⟩
      · rw [holds.activeReq]
        dsimp only
        split
        · exact Active.inv ⟨sound, holds, progress⟩
        · exact completeAndStartNext_spec sound holds (fun i used => progress.inside used)
            (fun absurd => nomatch absurd)

theorem init_inv (buffer : Nat → Request) : Inv disks (Port.init buffer) :=
  ⟨⟨⟨0, Tracks.init buffer reqSlots⟩, fun _ member => absurd member List.not_mem_nil, rfl⟩,
    .inl ⟨rfl, rfl, rfl, rfl, rfl⟩⟩

theorem inv_of_reaches {allowed : Port → Call → Prop} {buffer : Nat → Request}
    (stricter : ∀ port call, allowed port call → admits port call)
    (reached : Reaches (step disks) allowed (Port.init buffer) port) : Inv disks port :=
  reached.invariant (init_inv buffer) fun before call inv permitted =>
    (step_spec inv (stricter before call permitted)).tolerate
      (show ∀ _, _ → True from fun _ _ => trivial)

/-- What holds between the calls on a port that are `allowed`. -/
structure PortSound (disks : Nat → PataDisk) (allowed : Port → Call → Prop) (port : Port) :
    Prop where
  /-- All requests that were fetched have been completed, but for the active one. -/
  once : port.queue.fetched =
    port.queue.completed ++ (port.activeReq.bind port.queue.number).toList
  distinct : port.queue.fetched.Nodup
  phase : port.activeReq ≠ none ↔ port.phase ≠ .idle
  /-- No assertion fires in the next call. -/
  safe : ∀ call, allowed port call → ∃ after, step disks port call = .ok after

theorem Inv.once (inv : Inv disks port) : port.queue.fetched =
    port.queue.completed ++ (port.activeReq.bind port.queue.number).toList := by
  obtain ⟨sound, activity⟩ := inv
  obtain ⟨base, tracks⟩ := sound.tracks
  rcases activity with quiet | ⟨req, disk, info, holds, progress⟩
  · rw [quiet.activeReq, quiet.idle]
    exact (List.append_nil _).symm
  · obtain ⟨some, more⟩ := tracks.busy_iff.mp holds.busy
    rw [more, holds.activeReq, holds.slot, Option.bind_some, tracks.number_fpos some]
    rfl

theorem Inv.phase_iff (inv : Inv disks port) : port.activeReq ≠ none ↔ port.phase ≠ .idle := by
  obtain ⟨_, quiet | ⟨req, disk, info, holds, progress⟩⟩ := inv
  · simp [quiet.activeReq, quiet.phase]
  · have busy : port.phase ≠ .idle := by
      intro idle
      unfold Progress at progress
      rw [idle] at progress
      exact progress
    simp [holds.activeReq, busy]

/-- The steps with which the driver completes every request once. -/
def admitsSteady (port : Port) (call : Call) : Prop := admits port call ∧ call.Steady

/-- While the device takes the first sector of every write command, every request that is
fetched is completed once and no assertion fires. -/
theorem run_completes_once {buffer : Nat → Request}
    (reached : Reaches (step disks) admitsSteady (Port.init buffer) port) :
    PortSound disks admitsSteady port := by
  have inv : Inv disks port := inv_of_reaches (fun _ _ permitted => permitted.1) reached
  obtain ⟨base, tracks⟩ := inv.1.tracks
  refine ⟨inv.once, ?_, inv.phase_iff, ?_⟩
  · rw [tracks.sound.order]
    exact List.nodup_range
  · intro call permitted
    have ensured := step_spec inv permitted.1
    cases returned : step disks port call with
    | ok after => exact ⟨after, rfl⟩
    | error stop => exact absurd permitted.2 (ensured.of_error returned)

def exampleDisks : Nat → PataDisk := fun _ => ⟨false, 1000, by decide⟩

def exampleStart : Port := Port.init fun _ => ⟨⟨0, 0, 0, .read⟩, 0, .released, 0⟩

/-- The device is ready for a command and then reports the status for its first sector. -/
def examplePolls (first : UInt8) : Stream' Poll :=
  Stream'.const ⟨Stream'.const 0x40, Stream'.const 0x40, Stream'.const first⟩

/-- A write of two sectors at sector 5. -/
def exampleSubmit : Call := .submit 0 ⟨5, 2, 0, .write⟩

def exampleSubmitted : Port :=
  { exampleStart with queue := exampleStart.queue.submit 0 ⟨5, 2, 0, .write⟩ }

theorem run_completes_once_two_sectors :
    ∃ port, step exampleDisks exampleSubmitted (.onRequest 0 (examplePolls 0x08)) = .ok port ∧
      PortSound exampleDisks admitsSteady port := by
  have submitted : Reaches (step exampleDisks) admitsSteady exampleStart exampleSubmitted :=
    @Reaches.step _ _ _ _ _ _ _ _ exampleSubmit Reaches.start ⟨trivial, trivial⟩ rfl
  have steady : Steady (examplePolls 0x08) := fun i =>
    show Poll.Answers ⟨Stream'.const 0x40, Stream'.const 0x40, Stream'.const 0x08⟩ from
      ⟨0x08, by decide +kernel, by decide⟩
  have permitted : admitsSteady exampleSubmitted (.onRequest 0 (examplePolls 0x08)) :=
    ⟨trivial, steady⟩
  have runs : (step exampleDisks exampleSubmitted
      (.onRequest 0 (examplePolls 0x08))).isOk = true := by decide +kernel
  cases returned : step exampleDisks exampleSubmitted (.onRequest 0 (examplePolls 0x08)) with
  | error stop =>
      rw [returned] at runs
      cases runs
  | ok port =>
      exact ⟨port, rfl, run_completes_once (submitted.step permitted returned)⟩

/-- The device reports an error for the first sector: `write_first_sector` completes the
request and `start_next_request` completes it again. -/
theorem completes_twice_first_sector :
    ¬ ∀ port, Reaches (step exampleDisks) admits exampleStart port →
      PortSound exampleDisks admits port := by
  intro claim
  have submitted : Reaches (step exampleDisks) admits exampleStart exampleSubmitted :=
    @Reaches.step _ _ _ _ _ _ _ _ exampleSubmit Reaches.start trivial rfl
  obtain ⟨after, returned⟩ := (claim _ submitted).safe (.onRequest 0 (examplePolls 0x01)) trivial
  have stops : (step exampleDisks exampleSubmitted
      (.onRequest 0 (examplePolls 0x01))).isOk = false := by decide +kernel
  rw [returned] at stops
  cases stops

/-- Every request whose slot holds the result `OPAL_OK` once it is completed was transferred
exactly, and no request uses a sector outside of its buffer. -/
theorem run_transfers {buffer : Nat → Request}
    (reached : Reaches (step disks) admits (Port.init buffer) port) :
    port.outcomes.map Outcome.number = port.queue.completed.map some ∧
    (∀ outcome ∈ port.outcomes, outcome.Sound disks port.queue) ∧
    ∀ req ∈ port.activeReq, ∀ i ∈ sectorIndices port.events,
      i < (port.queue.queue.buffer req).info.sectors := by
  have inv : Inv disks port := inv_of_reaches (fun _ _ permitted => permitted) reached
  refine ⟨inv.1.completed, inv.1.outcomes, fun req active i used => ?_⟩
  obtain ⟨_, quiet | ⟨req', disk, info, holds, progress⟩⟩ := inv
  · rw [quiet.activeReq] at active
    cases active
  · rw [holds.activeReq] at active
    cases active
    rw [holds.info]
    exact progress.inside used

/-- The second sector is asked for, the command ends, the flush ends. -/
def exampleCalls : List Call :=
  [exampleSubmit, .onRequest 0 (examplePolls 0x08), .handleIrq 1 0x48 (examplePolls 0x08),
    .handleIrq 2 0x40 (examplePolls 0x08), .handleIrq 3 0x40 (examplePolls 0x08)]

theorem run_transfers_two_sectors : ∃ port,
    runFrom (step exampleDisks) admits exampleStart exampleCalls = some port ∧
    port.outcomes = [⟨some 0, 0, ⟨5, 2, 0, .write⟩,
      [.command true (Registers.of false 5 2), .moved 0, .moved 1, .cacheFlush]⟩] ∧
    (port.queue.queue.buffer 0).result = opalOk ∧
    Exact (exampleDisks 0) ⟨5, 2, 0, .write⟩
      [.command true (Registers.of false 5 2), .moved 0, .moved 1, .cacheFlush] := by
  have runs : (runFrom (step exampleDisks) admits exampleStart exampleCalls).any (fun port =>
      decide (port.outcomes = [⟨some 0, 0, ⟨5, 2, 0, .write⟩,
        [.command true (Registers.of false 5 2), .moved 0, .moved 1, .cacheFlush]⟩] ∧
      port.queue.number 0 = some 0 ∧ (port.queue.queue.buffer 0).result = opalOk)) = true := by
    decide +kernel
  obtain ⟨port, ran, holds⟩ := (Option.any_eq_true _ _).mp runs
  obtain ⟨outcomes, number, ok⟩ := of_decide_eq_true holds
  obtain ⟨-, sound, -⟩ := run_transfers (Reaches.start.of_runFrom ran)
  rw [outcomes] at sound
  exact ⟨port, ran, outcomes, ok, (sound _ List.mem_cons_self).exact 0 number ok⟩

end Runs

end Opal.Pata
