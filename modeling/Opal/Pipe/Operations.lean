import Opal.Library.Outcome
import Opal.Library.Ring

/-!
# Pipes and the tasks that use them

Interrupts are off from the start of a call on a pipe until it returns or blocks in
`event_wait`, so a run is a sequence of such segments: a task starts a call, a task that
was woken goes on with its call, or an end of the pipe is closed.  Both events of a pipe
reset themselves, and every wait is without timeout.
-/

namespace Opal.Pipe

section Data

/-- The two events of a pipe. -/
inductive Side where
  | readable
  | writable
  deriving DecidableEq, Repr

structure Event (Tid : Type) where
  signaled : Bool
  waitList : List Tid

structure Pipefs (Tid : Type) where
  rpos : Nat
  wpos : Nat
  count : Nat
  readers : Nat
  writers : Nat
  event : Side → Event Tid
  buffer : Nat → UInt8

/-- A call in progress, with the local variable of a write. -/
inductive Op where
  | read (size : Nat)
  | write (input : List UInt8) (written : Nat)
  deriving DecidableEq, Repr

/-- What a task is doing; one that is outside of the pipe is `running` too. -/
inductive Activity where
  | running
  | blocked (op : Op)
  | woken (op : Op)
  deriving DecidableEq, Repr

/-- A pipe with its tasks.  No operation reads the bytes accepted and delivered so far and
what calls have returned to their tasks, the last one first. -/
structure System (Tid : Type) where
  pipe : Pipefs Tid
  activity : Tid → Activity
  accepted : List UInt8
  delivered : List UInt8
  returns : List (Tid × Int)

inductive Stop where
  | assertion
  /-- A loop neither blocks nor returns. -/
  | spins
  deriving DecidableEq, Repr

/-- `PIPE_BUFLEN`. -/
def pipeBuflen : Nat := 4000

/-- `OPAL_EIO`. -/
def opalEIO : Int := -1

/-- The conversion of a `uint64_t` to `fs_ssize_t`. -/
def toSsize (n : Nat) : Int := if n < 2 ^ 63 then n else n - 2 ^ 64

/-- The event a call waits for. -/
def Op.side : Op → Side
  | .read _ => .readable
  | .write .. => .writable

end Data

variable {Tid : Type} [DecidableEq Tid]

section Events

def System.setEvent (s : System Tid) (side : Side) (event : Event Tid) : System Tid :=
  { s with pipe := { s.pipe with event := Function.update s.pipe.event side event } }

def System.setActivity (s : System Tid) (tid : Tid) (activity : Activity) : System Tid :=
  { s with activity := Function.update s.activity tid activity }

/-- The effect of `set_ready` on a task that waited here. -/
def Activity.wake : Activity → Activity
  | .blocked op => .woken op
  | other => other

/-- `event_signal` with `wait_list_wake_one`. -/
def eventSignal (s : System Tid) (side : Side) : System Tid :=
  match (s.pipe.event side).waitList with
  | [] => s.setEvent side { signaled := true, waitList := [] }
  | tid :: rest =>
      (s.setEvent side { signaled := false, waitList := rest }).setActivity tid
        (s.activity tid).wake

/-- `event_wait`, and whether it returns at once. -/
def eventWait (s : System Tid) (tid : Tid) (op : Op) : System Tid × Bool :=
  let event := s.pipe.event op.side
  if event.signaled then (s.setEvent op.side { event with signaled := false }, true)
  else
    ((s.setEvent op.side { event with waitList := event.waitList ++ [tid] }).setActivity tid
      (.blocked op), false)

/-- The call of a task returns. -/
def System.finish (s : System Tid) (tid : Tid) (result : Int) : System Tid :=
  { s.setActivity tid .running with returns := (tid, result) :: s.returns }

end Events

section Copies

def readSomeLoop : Nat → Pipefs Tid → List UInt8 → Pipefs Tid × List UInt8
  | 0, pipe, out => (pipe, out)
  | left + 1, pipe, out =>
      let rpos := (pipe.rpos + 1) % 2 ^ 16
      readSomeLoop left { pipe with rpos := if rpos ≥ pipeBuflen then 0 else rpos }
        (out ++ [pipe.buffer pipe.rpos])

/-- `pipe_read_some`, with the bytes it copies. -/
def pipeReadSome (pipe : Pipefs Tid) (size : Nat) : Pipefs Tid × List UInt8 × Nat :=
  let toRead := if size < pipe.count then size % 2 ^ 16 else pipe.count
  let (after, out) := readSomeLoop toRead pipe []
  ({ after with count := (pipe.count + 2 ^ 16 - toRead) % 2 ^ 16 }, out, toRead)

def writeSomeLoop : List UInt8 → Pipefs Tid → Pipefs Tid
  | [], pipe => pipe
  | byte :: rest, pipe =>
      let wpos := (pipe.wpos + 1) % 2 ^ 16
      writeSomeLoop rest
        { pipe with buffer := Function.update pipe.buffer pipe.wpos byte
                    wpos := if wpos ≥ pipeBuflen then 0 else wpos }

def pipeWriteSome (pipe : Pipefs Tid) (input : List UInt8) (size : Nat) : Pipefs Tid × Nat :=
  let space := (pipeBuflen + 2 ^ 16 - pipe.count) % 2 ^ 16
  let toWrite := if size < space then size % 2 ^ 16 else space
  let after := writeSomeLoop (input.take toWrite) pipe
  ({ after with count := (pipe.count + toWrite) % 2 ^ 16 }, toWrite)

end Copies

section Calls

/-- The end of `pipe_file_read`, once the pipe is not empty. -/
def readChunk (s : System Tid) (tid : Tid) (size : Nat) : System Tid :=
  let (pipe, out, n) := pipeReadSome s.pipe size
  let s := eventSignal { s with pipe := pipe, delivered := s.delivered ++ out } .writable
  let s := if s.pipe.count > 0 then eventSignal s .readable else s
  s.finish tid n

/-- The loop of `pipe_file_read`, which goes round at most twice. -/
def pipeFileReadLoop : Nat → System Tid → Tid → Nat → Except Stop (System Tid)
  | 0, _, _, _ => .error .spins
  | fuel + 1, s, tid, size =>
      if s.pipe.count = 0 then
        if s.pipe.writers = 0 then .ok ((eventSignal s .readable).finish tid 0)
        else
          let (s, acquired) := eventWait s tid (.read size)
          if acquired then pipeFileReadLoop fuel s tid size else .ok s
      else .ok (readChunk s tid size)

def pipeFileRead (s : System Tid) (tid : Tid) (size : Nat) : Except Stop (System Tid) :=
  if size = 0 then .ok (s.finish tid 0) else pipeFileReadLoop 2 s tid size

/-- The end of a round of `pipe_file_write`, once the pipe is not full. -/
def writeChunk (s : System Tid) (input : List UInt8) (size : Nat) : System Tid × Nat :=
  let (pipe, n) := pipeWriteSome s.pipe input size
  let s := eventSignal { s with pipe := pipe, accepted := s.accepted ++ input.take n } .readable
  (if s.pipe.count < pipeBuflen then eventSignal s .writable else s, n)

/-- The loops of `pipe_file_write`; together they go round at most three times, with a
last test of the outer condition. -/
def pipeFileWriteLoop : Nat → System Tid → Tid → List UInt8 → Nat → Except Stop (System Tid)
  | 0, _, _, _, _ => .error .spins
  | fuel + 1, s, tid, input, written =>
      if written < input.length then
        if s.pipe.readers = 0 then
          .ok ((eventSignal s .writable).finish tid
            (if written > 0 then toSsize written else opalEIO))
        else if s.pipe.count < pipeBuflen then
          let (s, n) := writeChunk s (input.drop written) (input.length - written)
          pipeFileWriteLoop fuel s tid input ((written + n) % 2 ^ 64)
        else
          let (s, acquired) := eventWait s tid (.write input written)
          if acquired then pipeFileWriteLoop fuel s tid input written else .ok s
      else .ok (s.finish tid (toSsize written))

def pipeFileWrite (s : System Tid) (tid : Tid) (input : List UInt8) :
    Except Stop (System Tid) :=
  if input.length = 0 then .ok (s.finish tid 0) else pipeFileWriteLoop 3 s tid input 0

/-- The parts of `pipe_file_close` for the two modes. -/
def closeReader (s : System Tid) : Except Stop (System Tid) :=
  if s.pipe.readers > 0 then
    .ok (eventSignal { s with pipe := { s.pipe with readers := s.pipe.readers - 1 } } .writable)
  else .error .assertion

def closeWriter (s : System Tid) : Except Stop (System Tid) :=
  if s.pipe.writers > 0 then
    .ok (eventSignal { s with pipe := { s.pipe with writers := s.pipe.writers - 1 } } .readable)
  else .error .assertion

/-- `pipe_file_close` of a file with the given modes. -/
def pipeFileClose (s : System Tid) (read write : Bool) : Except Stop (System Tid) :=
  (if read then closeReader s else .ok s) >>= fun s => if write then closeWriter s else .ok s

end Calls

section Runs

/-- One segment with interrupts off. -/
inductive Call (Tid : Type) where
  | read (tid : Tid) (size : Nat)
  | write (tid : Tid) (input : List UInt8)
  /-- A task that was woken comes back from `event_wait`. -/
  | resume (tid : Tid)
  | close (read write : Bool)
  deriving DecidableEq

def resume (s : System Tid) (tid : Tid) : Op → Except Stop (System Tid)
  | .read size => pipeFileReadLoop 2 s tid size
  | .write input written => pipeFileWriteLoop 3 s tid input written

def exec (s : System Tid) : Call Tid → Except Stop (System Tid)
  | .read tid size => pipeFileRead s tid size
  | .write tid input => pipeFileWrite s tid input
  | .resume tid =>
      match s.activity tid with
      | .woken op => resume (s.setActivity tid .running) tid op
      | _ => .ok s
  | .close read write => pipeFileClose s read write

/-- Only a task that is not blocked makes calls; sizes are 64-bit words. -/
def Admits (s : System Tid) : Call Tid → Prop
  | .read tid size => s.activity tid = .running ∧ size < 2 ^ 64
  | .write tid input => s.activity tid = .running ∧ input.length < 2 ^ 64
  | _ => True

instance (s : System Tid) (call : Call Tid) : Decidable (Admits s call) := by
  cases call <;> (unfold Admits; infer_instance)

/-- A new pipe whose ends have been opened. -/
def opened (readers writers : Nat) : System Tid where
  pipe :=
    { rpos := 0, wpos := 0, count := 0, readers := readers, writers := writers
      event := fun _ => { signaled := false, waitList := [] }, buffer := fun _ => 0 }
  activity := fun _ => .running
  accepted := []
  delivered := []
  returns := []

end Runs

end Opal.Pipe
