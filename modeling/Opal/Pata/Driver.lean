import Opal.Disk.Queue
import Opal.Basic

/-!
# The PATA driver

One port with the queue its disks share.  Interrupts are off during every call, so a run
is a sequence of calls: the driver's `on_request`, an interrupt, a timer tick, and the
submissions and releases of the tasks.  What the device answers is an input of each call:
the status of an interrupt, and for every command the driver starts the status bytes that
its three polls read.
-/

namespace Opal.Pata

open Disk

section Data

inductive Phase where
  | idle
  | readData
  | writeData
  | writeDone
  | complete
  deriving DecidableEq, Repr

/-- `identify_device` puts the number of sectors together from two 16-bit words. -/
structure PataDisk where
  drive : Bool
  sectors : Nat
  small : sectors < 2 ^ 32
  deriving DecidableEq, Repr

/-- The values that `issue_rw_command` puts into the registers of the device. -/
structure Registers where
  driveHead : UInt8
  sectorCount : UInt8
  lba0 : UInt8
  lba1 : UInt8
  lba2 : UInt8
  deriving DecidableEq, Repr

def Registers.of (drive : Bool) (lba sectors : Nat) : Registers where
  driveHead := 0xe0 ||| (if drive then 0x10 else 0) ||| (UInt8.ofNat (lba / 2 ^ 24) &&& 0x0f)
  sectorCount := if sectors = 256 then 0 else UInt8.ofNat sectors
  lba0 := UInt8.ofNat lba
  lba1 := UInt8.ofNat (lba / 2 ^ 8)
  lba2 := UInt8.ofNat (lba / 2 ^ 16)

/-- What the driver does with the device: a command goes out with the values that the registers
have then. -/
inductive Event where
  | command (isWrite : Bool) (registers : Registers)
  /-- The sector of the request's buffer that goes through the data register. -/
  | moved (sectorIndex : Nat)
  | cacheFlush
  deriving DecidableEq, Repr

/-- A completed request with what was done for it. -/
structure Outcome where
  number : Option Nat
  disk : Nat
  info : RequestInfo
  events : List Event
  deriving DecidableEq, Repr

/-- The state of a port.  No operation reads the events since the active request was
fetched and the outcomes of the requests before it. -/
structure Port where
  queue : System
  activeDisk : Option Nat
  activeReq : Option Nat
  phase : Phase
  nextSector : Nat
  cmdSectors : Nat
  doneSectors : Nat
  deadlineTick : Nat
  events : List Event
  outcomes : List Outcome

/-- The status bytes that the polls for one command read. -/
structure Poll where
  notBusy : Stream' UInt8
  ready : Stream' UInt8
  data : Stream' UInt8

/-- The ways to stop: an assertion, or the loop of `start_next_request` that goes on. -/
inductive Stop where
  | queue (assertion : Assertion)
  | noActiveReq
  | noActiveDisk
  | nothingLeft
  | endless
  deriving DecidableEq, Repr

end Data

section Registers

def ataStatusErr : UInt8 := 0x01
def ataStatusDrq : UInt8 := 0x08
def ataStatusDf : UInt8 := 0x20
def ataStatusDrdy : UInt8 := 0x40
def ataStatusBsy : UInt8 := 0x80

def ataTimeoutMs : Nat := 3000
def ataPollSpin : Nat := 100000
def reqSlots : Nat := 64

def timerHz : Nat := 100

def ticksFromMs (ms : Nat) : Nat := ms * timerHz / 1000

def waitForFlags (flags : UInt8) : Nat → Stream' UInt8 → Option UInt8
  | 0, _ => none
  | spin + 1, reads =>
      if reads.head &&& ataStatusBsy ≠ 0 then waitForFlags flags spin reads.tail
      else if reads.head &&& flags ≠ 0 then some reads.head
      else waitForFlags flags spin reads.tail

def waitNotBusyFor : Nat → Stream' UInt8 → Bool
  | 0, _ => false
  | spin + 1, reads =>
      if reads.head &&& ataStatusBsy = 0 then true else waitNotBusyFor spin reads.tail

def waitNotBusy (reads : Stream' UInt8) : Bool := waitNotBusyFor ataPollSpin reads

def waitDrqOrError (reads : Stream' UInt8) : Option UInt8 :=
  waitForFlags (ataStatusDrq ||| ataStatusErr ||| ataStatusDf) ataPollSpin reads

def waitDrdyOrDrqErr (reads : Stream' UInt8) : Option UInt8 :=
  waitForFlags (ataStatusDrdy ||| ataStatusDrq ||| ataStatusErr ||| ataStatusDf) ataPollSpin reads

end Registers

section Operations

variable (disks : Nat → PataDisk) (port : Port) (tick : Nat)

def rangeValid (disk : PataDisk) (lba sectors : Nat) : Bool :=
  if sectors = 0 ∨ disk.sectors = 0 then false else decide (lba + sectors ≤ disk.sectors)

def issueRwCommand (drive isWrite : Bool) (lba sectors : Nat) (poll : Poll) : Option Port :=
  if ¬ waitNotBusy poll.notBusy then none
  else
    match waitDrdyOrDrqErr poll.ready with
    | none => none
    | some status =>
        if status &&& (ataStatusDrq ||| ataStatusErr ||| ataStatusDf) ≠ 0 then none
        else
          let registers := Registers.of drive lba sectors
          some { port with events := port.events ++ [.command isWrite registers] }

def completeRequest (success : Bool) : Except Stop Port :=
  match port.activeReq, port.activeDisk with
  | none, _ => .error .noActiveReq
  | some _, none => .error .noActiveDisk
  | some req, some disk => do
      let result := if success then opalOk else opalEio
      let queue ← (port.queue.popFetched result).mapError .queue
      pure { port with
        queue := queue
        activeReq := none
        activeDisk := none
        phase := .idle
        nextSector := 0
        cmdSectors := 0
        doneSectors := 0
        deadlineTick := 0
        events := []
        outcomes := port.outcomes ++ [⟨port.queue.number req, disk,
          (port.queue.queue.buffer req).info, port.events⟩] }

def writeFirstSector (poll : Poll) : Except Stop (Port × Bool) :=
  match waitDrqOrError poll.data with
  | none => do
      let port ← completeRequest port false
      pure (port, false)
  | some status =>
      if status &&& (ataStatusErr ||| ataStatusDf) ≠ 0 then do
        let port ← completeRequest port false
        pure (port, false)
      else .ok ({ port with
        events := port.events ++ [.moved (port.doneSectors + port.nextSector)]
        nextSector := 1
        deadlineTick := tick + ticksFromMs ataTimeoutMs
        phase := if 1 ≥ port.cmdSectors then .writeDone else .writeData }, true)

/-- `start_command`; whether the command was started is returned with the port. -/
def startCommand (info : RequestInfo) (disk : PataDisk) (poll : Poll) :
    Except Stop (Port × Bool) :=
  if info.lba > 2 ^ 32 - 1 ∨ info.sectors > 2 ^ 32 - 1 then .ok (port, false)
  else if ¬ rangeValid disk info.lba info.sectors then .ok (port, false)
  else if ¬ port.doneSectors < info.sectors then .error .nothingLeft
  else
    let remaining := info.sectors - port.doneSectors
    let cmdSectors := if remaining > 256 then 256 else remaining
    let cmdLba := (info.lba + port.doneSectors) % 2 ^ 32
    match issueRwCommand port disk.drive (info.type = .write) cmdLba cmdSectors poll with
    | none => .ok (port, false)
    | some port =>
        let port := { port with
          cmdSectors := cmdSectors
          nextSector := 0
          deadlineTick := tick + ticksFromMs ataTimeoutMs }
        match info.type with
        | .read => .ok ({ port with phase := .readData }, true)
        | .write => writeFirstSector port tick poll

/-- The loop of `start_next_request`: every round takes a request off the queue. -/
def startNextLoop : Nat → Port → Stream' Poll → Except Stop Port
  | 0, _, _ => .error .endless
  | rounds + 1, port, polls =>
      match port.activeReq with
      | some _ => .ok port
      | none => do
          let (fetched, queue) ← (port.queue.fetch).mapError .queue
          let port := { port with queue := queue }
          match fetched with
          | none => pure port
          | some req => do
              let request := queue.queue.buffer req
              let port := { port with
                activeDisk := some request.disk
                activeReq := some req
                nextSector := 0
                cmdSectors := 0
                doneSectors := 0 }
              let (port, started) ←
                startCommand port tick request.info (disks request.disk) polls.head
              if started then pure port
              else do
                let port ← completeRequest port false
                startNextLoop rounds port polls.tail

def startNextRequest (polls : Stream' Poll) : Except Stop Port :=
  startNextLoop disks tick (port.queue.queue.countDoing + 1) port polls

def completeAndStartNext (success : Bool) (polls : Stream' Poll) : Except Stop Port := do
  let port ← completeRequest port success
  startNextRequest disks port tick polls

/-- The end of a command: the next one is started, or the request fails. -/
def startCommandOrFail (info : RequestInfo) (disk : PataDisk) (polls : Stream' Poll) :
    Except Stop Port := do
  let (port, started) ← startCommand port tick info disk polls.head
  if started then pure port else completeAndStartNext disks port tick false polls.tail

/-- One more sector of the command goes through the data register. -/
def Port.moved : Port :=
  { port with
    events := port.events ++ [.moved (port.doneSectors + port.nextSector)]
    nextSector := (port.nextSector + 1) % 2 ^ 16
    deadlineTick := tick + ticksFromMs ataTimeoutMs }

/-- The command is done. -/
def Port.advanced : Port :=
  { port with doneSectors := (port.doneSectors + port.cmdSectors) % 2 ^ 32 }

/-- The switch over the phase in `handle_irq`. -/
def handlePhase (info : RequestInfo) (disk : PataDisk) (status : UInt8) (polls : Stream' Poll) :
    Except Stop Port :=
  match port.phase with
  | .readData =>
      if status &&& ataStatusDrq = 0 then completeAndStartNext disks port tick false polls
      else
        let port := port.moved tick
        if port.nextSector ≥ port.cmdSectors then
          let port := port.advanced
          if port.doneSectors ≥ info.sectors then completeAndStartNext disks port tick true polls
          else startCommandOrFail disks port tick info disk polls
        else .ok port
  | .writeData =>
      if status &&& ataStatusDrq = 0 then completeAndStartNext disks port tick false polls
      else
        let port := port.moved tick
        if port.nextSector ≥ port.cmdSectors then .ok { port with phase := .writeDone }
        else .ok port
  | .writeDone =>
      let port := port.advanced
      if port.doneSectors ≥ info.sectors then
        .ok { port with
          events := port.events ++ [.cacheFlush]
          phase := .complete
          deadlineTick := tick + ticksFromMs ataTimeoutMs }
      else startCommandOrFail disks port tick info disk polls
  | .complete => completeAndStartNext disks port tick true polls
  | .idle => .ok port

def handleIrq (status : UInt8) (polls : Stream' Poll) : Except Stop Port :=
  match port.activeReq, port.activeDisk with
  | none, _ => .ok port
  -- `active_disk` is not checked here; it would be followed where a command is started
  | some _, none => .error .noActiveDisk
  | some req, some disk =>
      if status &&& (ataStatusErr ||| ataStatusDf) ≠ 0 then
        completeAndStartNext disks port tick false polls
      else if status &&& ataStatusBsy ≠ 0 then .ok port
      else handlePhase disks port tick (port.queue.queue.buffer req).info (disks disk) status polls

def onRequest (polls : Stream' Poll) : Except Stop Port :=
  match port.activeReq with
  | none => startNextRequest disks port tick polls
  | some _ => .ok port

/-- What `pata_on_timer` does for one port. -/
def pataOnTimer (nowTick : Nat) (polls : Stream' Poll) : Except Stop Port :=
  match port.activeReq with
  | none => .ok port
  | some _ =>
      if nowTick < port.deadlineTick then .ok port
      else completeAndStartNext disks port tick false polls

end Operations

section Runs

/-- The port as `pata_init` leaves it. -/
def Port.init (buffer : Nat → Request) : Port where
  queue := System.init buffer reqSlots
  activeDisk := none
  activeReq := none
  phase := .idle
  nextSector := 0
  cmdSectors := 0
  doneSectors := 0
  deadlineTick := 0
  events := []
  outcomes := []

/-- A call with the tick it runs at and what the device answers to its polls. -/
inductive Call where
  | submit (disk : Nat) (reqinfo : RequestInfo)
  | release (req : Nat)
  | onRequest (tick : Nat) (polls : Stream' Poll)
  | handleIrq (tick : Nat) (status : UInt8) (polls : Stream' Poll)
  | onTimer (tick : Nat) (polls : Stream' Poll)

def step (disks : Nat → PataDisk) (port : Port) : Call → Except Stop Port
  | .submit disk reqinfo => .ok { port with queue := port.queue.submit disk reqinfo }
  | .release req => do
      let queue ← (port.queue.release req).mapError .queue
      pure { port with queue := queue }
  | .onRequest tick polls => onRequest disks port tick polls
  | .handleIrq tick status polls => handleIrq disks port tick status polls
  | .onTimer tick polls => pataOnTimer disks port tick tick polls

/-- Requests are released once, after they were completed. -/
def admits (port : Port) : Call → Prop
  | .release req => port.queue.Releasable req
  | _ => True

instance (port : Port) (call : Call) : Decidable (admits port call) := by
  cases call <;> unfold admits <;> infer_instance

end Runs

end Opal.Pata
