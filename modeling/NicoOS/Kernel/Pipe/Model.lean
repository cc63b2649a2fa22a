import NicoOS.Lib.RingQueue
import NicoOS.Lib.Transition
import NicoOS.Kernel.Semaphore

/-!
# Pipes

`kernel/ringbuffer.c` and `kernel/pipe.c`.  Spinlocks disable interrupts only, so
a call runs until it blocks in `sem_wait`; other tasks run in between.
-/

namespace NicoOS
namespace Kernel
namespace Pipe

open Lib

structure Ringbuffer extends RingQueue UInt8 where
  rclosed : Bool
  wclosed : Bool
  emptySem : Turnstile
  fullSem : Turnstile

def ringbufferInit (size : Nat) : Ringbuffer :=
  { buf := fun _ => 0
    size := size
    head := 0
    tail := 0
    rclosed := false
    wclosed := false
    emptySem := Turnstile.init size
    fullSem := Turnstile.init 0 }

def Ringbuffer.isEmpty (rb : Ringbuffer) : Bool := rb.head == rb.tail

/-- How far a call on the ring buffer got: blocked, or returned -1 or a value. -/
inductive Outcome (α : Type) where
  | blocked
  | refused
  | done (a : α)

def putCharResume (ch : UInt8) (killed : Bool) (rb : Ringbuffer) :
    Option (Outcome Unit × Ringbuffer) :=
  if rb.rclosed || killed then
    some (Outcome.refused, rb)
  else
    match rb.fullSem.signal with
    | none => none
    | some sem =>
        some (Outcome.done (), { rb with toRingQueue := rb.toRingQueue.push ch, fullSem := sem })

def putChar (task : Nat) (ch : UInt8) (killed : Bool) (rb : Ringbuffer) :
    Option (Outcome Unit × Ringbuffer) :=
  if rb.rclosed then
    some (Outcome.refused, rb)
  else
    match rb.emptySem.wait task with
    | (false, sem) => some (Outcome.blocked, { rb with emptySem := sem })
    | (true, sem) => putCharResume ch killed { rb with emptySem := sem }

/-- `ringbuffer_read_char` behind its `sem_wait`. -/
def readCharResume (killed : Bool) (rb : Ringbuffer) :
    Option (Outcome UInt8 × Ringbuffer) :=
  if (rb.isEmpty && rb.wclosed) || killed then
    some (Outcome.refused, rb)
  else
    match rb.emptySem.signal with
    | none => none
    | some sem =>
        some (Outcome.done rb.toRingQueue.front,
          { rb with toRingQueue := rb.toRingQueue.pop, emptySem := sem })

def readChar (task : Nat) (killed : Bool) (rb : Ringbuffer) :
    Option (Outcome UInt8 × Ringbuffer) :=
  if rb.isEmpty && rb.wclosed then
    some (Outcome.refused, rb)
  else
    match rb.fullSem.wait task with
    | (false, sem) => some (Outcome.blocked, { rb with fullSem := sem })
    | (true, sem) => readCharResume killed { rb with fullSem := sem }

/-- `ringbuffer_close`, by whether the writing side is meant. -/
def ringbufferClose (writable : Bool) (rb : Ringbuffer) : Option Ringbuffer :=
  if writable then
    match rb.fullSem.signalAll with
    | none => none
    | some sem => some { rb with wclosed := true, fullSem := sem }
  else
    match rb.emptySem.signalAll with
    | none => none
    | some sem => some { rb with rclosed := true, emptySem := sem }

/-!
# Calls in progress
-/

inductive Call where
  | idle
  | reading (n : Nat) (got : List UInt8)
  | writing (rest : List UInt8) (sent : Nat)

/-- A `pipe_read` that returned fewer bytes than asked for, and the state it saw. -/
structure ShortRead where
  task : Nat
  asked : Nat
  got : List UInt8
  accepted : List UInt8
  delivered : List UInt8

/--
`struct pipe` and the calls on it.  `accepted` and `delivered` record the bytes
that passed the two ends so far.
-/
structure State where
  rbuf : Ringbuffer
  freed : Bool
  calls : Nat -> Call
  accepted : List UInt8
  delivered : List UInt8
  shortReads : List ShortRead

def pgSize : Nat := 4096

def pipeAlloc : State :=
  { rbuf := ringbufferInit pgSize
    freed := false
    calls := fun _ => Call.idle
    accepted := []
    delivered := []
    shortReads := [] }

def State.setCall (s : State) (task : Nat) (c : Call) : State :=
  { s with calls := fun t => if t = task then c else s.calls t }

def pipeRead (task : Nat) (n : Int) (s : State) : State :=
  if n ≤ 0 then s else s.setCall task (Call.reading n.toNat [])

def pipeWrite (task : Nat) (src : List UInt8) (n : Int) (s : State) : State :=
  if n ≤ 0 then
    s
  else
    s.setCall task
      (match src.take n.toNat with
      | [] => Call.idle
      | rest => Call.writing rest 0)

/-- One round of the loop of `pipe_read`, from its `sem_wait` on if it was woken. -/
def readRound (task : Nat) (killed : Bool) (n : Nat) (got : List UInt8) (s : State) :
    Option State :=
  let result :=
    if task ∈ s.rbuf.fullSem.released then
      readCharResume killed { s.rbuf with fullSem := s.rbuf.fullSem.resume task }
    else
      readChar task killed s.rbuf
  match result with
  | none => none
  | some (Outcome.blocked, rb) => some { s with rbuf := rb }
  | some (Outcome.refused, rb) =>
      some ({ s with
        rbuf := rb
        shortReads := ⟨task, n, got, s.accepted, s.delivered⟩ :: s.shortReads }.setCall
          task Call.idle)
  | some (Outcome.done ch, rb) =>
      some ({ s with rbuf := rb, delivered := s.delivered ++ [ch] }.setCall task
        (if got.length + 1 < n then Call.reading n (got ++ [ch]) else Call.idle))

def writeRound (task : Nat) (killed : Bool) (ch : UInt8) (rest : List UInt8)
    (sent : Nat) (s : State) : Option State :=
  let result :=
    if task ∈ s.rbuf.emptySem.released then
      putCharResume ch killed { s.rbuf with emptySem := s.rbuf.emptySem.resume task }
    else
      putChar task ch killed s.rbuf
  match result with
  | none => none
  | some (Outcome.blocked, rb) => some { s with rbuf := rb }
  | some (Outcome.refused, rb) => some ({ s with rbuf := rb }.setCall task Call.idle)
  | some (Outcome.done (), rb) =>
      some ({ s with rbuf := rb, accepted := s.accepted ++ [ch] }.setCall task
        (if rest.isEmpty then Call.idle else Call.writing rest (sent + 1)))

def pipeClose (writable : Bool) (s : State) : Option State :=
  match ringbufferClose writable s.rbuf with
  | none => none
  | some rb => some { s with rbuf := rb, freed := rb.rclosed && rb.wclosed }

inductive Action where
  | read (task : Nat) (n : Int)
  | write (task : Nat) (src : List UInt8) (n : Int)
  | run (task : Nat) (killed : Bool)
  | close (writable : Bool)

/-- One action; `none` if it is not possible or an assertion fails. -/
def step (s : State) (a : Action) : Option State :=
  if s.freed then
    none
  else
    match a with
    | Action.read task n =>
        match s.calls task with
        | Call.idle => some (pipeRead task n s)
        | _ => none
    | Action.write task src n =>
        match s.calls task with
        | Call.idle => some (pipeWrite task src n s)
        | _ => none
    | Action.run task killed =>
        match s.calls task with
        | Call.idle => none
        | Call.reading n got =>
            if task ∈ s.rbuf.fullSem.waiting then
              none
            else
              readRound task killed n got s
        | Call.writing [] _ => none
        | Call.writing (ch :: rest) sent =>
            if task ∈ s.rbuf.emptySem.waiting then
              none
            else
              writeRound task killed ch rest sent s
    | Action.close writable => pipeClose writable s

/-- No task is killed, and no byte is accepted behind the close of the write end. -/
def Legal (s : State) : Action -> Prop
  | Action.run task killed => killed = false ∧
      (s.rbuf.wclosed = true -> forall t,
        step s (Action.run task killed) = some t -> t.accepted = s.accepted)
  | _ => True

/-- Whenever a read came back short, every accepted byte had been delivered. -/
def DeliversAll (s : State) : Prop :=
  forall r, r ∈ s.shortReads -> r.delivered = r.accepted

end Pipe
end Kernel
end NicoOS
