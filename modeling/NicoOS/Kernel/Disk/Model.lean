import NicoOS.Lib.CircularList
import NicoOS.Lib.Transition
import NicoOS.Kernel.Semaphore

/-!
# The buffer cache and the disk driver

`kernel/device/ide/bio.c` and `ide.c`, for disks on one channel and any type of
block contents.  A function runs until it blocks or turns interrupts on again,
so each stretch of it is one step of the task that runs it.
-/

namespace NicoOS
namespace Kernel
namespace Disk

open Lib

def nbuf : Nat := 40

/--
`struct buf`; `disk` is `none` for a null pointer, and `unmarked` says that the holder has stored
data since it marked the buffer last.
-/
structure Buf (α : Type) where
  valid : Bool
  dirty : Bool
  disk : Option Nat
  blockNo : UInt32
  refcnt : Nat
  sem : Turnstile
  holder : Option Nat
  unmarked : Bool
  data : α

/-- Where a task is in `buf_read`, `buf_write` or `buf_release`. -/
inductive Call where
  | idle
  | got (disk : Nat) (block : UInt32) (b : Nat)
  | locking (disk : Nat) (block : UInt32) (b : Nat)
  | locked (disk : Nat) (block : UInt32) (b : Nat)
  | reading (disk : Nat) (block : UInt32) (b : Nat)
  | marked (b : Nat)
  | flushing (b : Nat)
  | releasing (b : Nat)

/-- What a `buf_read` returned, and the data stored last in that block. -/
structure Read (α : Type) where
  task : Nat
  disk : Nat
  block : UInt32
  data : α
  stored : α

/--
The cache, the queue `idequeue`, the command that the device works on and the
contents of the disks.  The rest is a record: the data stored last in each block,
the requests issued, started and completed, and what was read.
-/
structure State (α : Type) where
  bufs : Nat -> Buf α
  lru : Links Nat
  queue : List Nat
  service : Option Nat
  chan : Turnstile
  storage : Nat -> UInt32 -> α
  calls : Nat -> Call
  panicked : Bool
  stored : Nat -> UInt32 -> α
  issued : List Nat
  started : List Nat
  completed : List Nat
  reads : List (Read α)

/-- An action that is not possible, or a failed assertion. -/
inductive Stop where
  | disabled
  | assertion

variable {α : Type}

def initialLru : Links Nat :=
  (List.range nbuf).foldl Links.insertHead { next := fun _ => none, prev := fun _ => none }

def bioInit (storage : Nat -> UInt32 -> α) (data : Nat -> α) : State α :=
  { bufs := fun b =>
      { valid := false
        dirty := false
        disk := none
        blockNo := 0
        refcnt := 0
        sem := Turnstile.init 1
        holder := none
        unmarked := false
        data := data b }
    lru := initialLru
    queue := []
    service := none
    chan := Turnstile.init 0
    storage := storage
    calls := fun _ => Call.idle
    panicked := false
    stored := storage
    issued := []
    started := []
    completed := []
    reads := [] }

def State.setBuf (s : State α) (b : Nat) (buf : Buf α) : State α :=
  { s with bufs := Function.update s.bufs b buf }

def State.setCall (s : State α) (t : Nat) (c : Call) : State α :=
  { s with calls := Function.update s.calls t c }

def setBlock (storage : Nat -> UInt32 -> α) (d : Nat) (k : UInt32) (data : α) :
    Nat -> UInt32 -> α :=
  Function.update storage d (Function.update (storage d) k data)

def Buf.isClean (buf : Buf α) : Bool := buf.valid && !buf.dirty

/-!
# The driver
-/

/-- `idestart`: a write hands the data to the device. -/
def idestart (b : Nat) (s : State α) : Except Stop (State α) :=
  match (s.bufs b).disk with
  | none => Except.error Stop.assertion
  | some d =>
      Except.ok { s with
        service := some b
        started := s.started ++ [b]
        storage :=
          if (s.bufs b).dirty then setBlock s.storage d (s.bufs b).blockNo (s.bufs b).data
          else s.storage }

/-- The loop of `iderw`; the flag says whether the call returned. -/
def waitLoop (t b : Nat) : Nat -> State α -> Except Stop (Bool × State α)
  | 0, _ => Except.error Stop.disabled
  | fuel + 1, s =>
      if (s.bufs b).isClean then
        Except.ok (true, s)
      else
        match s.chan.wait t with
        | (true, sem) => waitLoop t b fuel { s with chan := sem }
        | (false, sem) => Except.ok (false, { s with chan := sem })

/-- A pass of `sem_wait` takes a unit of the value, which bounds the rounds of the loop. -/
def waitForRequest (t b : Nat) (s : State α) : Except Stop (Bool × State α) :=
  waitLoop t b (s.chan.val.toNat + 1) s

def enqueue (b : Nat) (s : State α) : Except Stop (State α) :=
  if s.queue = [] then
    idestart b { s with queue := [b], issued := s.issued ++ [b] }
  else
    Except.ok { s with queue := s.queue ++ [b], issued := s.issued ++ [b] }

def iderw (t b : Nat) (s : State α) : Except Stop (Bool × State α) :=
  if (s.bufs b).holder ≠ some t then
    Except.error Stop.assertion
  else if (s.bufs b).isClean then
    Except.error Stop.assertion
  else do
    let s1 <- enqueue b s
    waitForRequest t b s1

def complete (b : Nat) (rest : List Nat) (s : State α) : State α :=
  { s.setBuf b { s.bufs b with
      valid := true
      dirty := false
      data :=
        match (s.bufs b).dirty, (s.bufs b).disk with
        | false, some d => s.storage d (s.bufs b).blockNo
        | _, _ => (s.bufs b).data } with
    queue := rest
    service := none
    completed := s.completed ++ [b] }

/-- `ide_intr_handler`; the device raises one interrupt for the command it works on. -/
def ideIntrHandler (s : State α) : Except Stop (State α) :=
  match s.service, s.queue with
  | none, _ => Except.error Stop.disabled
  | some _, [] => Except.ok { s with service := none }
  | some _, b :: rest =>
      match s.chan.signal with
      | none => Except.error Stop.assertion
      | some sem =>
          let s1 := { complete b rest s with chan := sem }
          match rest with
          | [] => Except.ok s1
          | c :: _ => idestart c s1

/-!
# The cache
-/

def isCached (s : State α) (d : Nat) (k : UInt32) (b : Nat) : Bool :=
  decide ((s.bufs b).disk = some d) && decide ((s.bufs b).blockNo = k)

def isUnused (s : State α) (b : Nat) : Bool :=
  decide ((s.bufs b).refcnt = 0) && !(s.bufs b).dirty

def bufGet (t d : Nat) (k : UInt32) (s : State α) : Except Stop (State α) :=
  match walk s.lru.next (isCached s d k) (nbuf + 1) (s.lru.next none) with
  | some b =>
      Except.ok ((s.setBuf b { s.bufs b with refcnt := (s.bufs b).refcnt + 1 }).setCall t
        (Call.got d k b))
  | none =>
      match walk s.lru.prev (isUnused s) (nbuf + 1) (s.lru.prev none) with
      | some b =>
          Except.ok ((s.setBuf b { s.bufs b with
            refcnt := 1
            valid := false
            dirty := false
            disk := some d
            blockNo := k }).setCall t (Call.got d k b))
      | none => Except.error Stop.assertion

def lockBuf (t d : Nat) (k : UInt32) (b : Nat) (s : State α) : State α :=
  match (s.bufs b).sem.wait t with
  | (true, sem) =>
      (s.setBuf b { s.bufs b with sem := sem, holder := some t }).setCall t (Call.locked d k b)
  | (false, sem) => (s.setBuf b { s.bufs b with sem := sem }).setCall t (Call.locking d k b)

def returnRead (t d : Nat) (k : UInt32) (b : Nat) (s : State α) : State α :=
  { s.setCall t Call.idle with
    reads := s.reads ++ [⟨t, d, k, (s.bufs b).data, s.stored d k⟩] }

def checkValid (t d : Nat) (k : UInt32) (b : Nat) (s : State α) : Except Stop (State α) :=
  if (s.bufs b).valid then
    Except.ok (returnRead t d k b s)
  else do
    let result <- iderw t b s
    if result.1 then
      Except.ok (returnRead t d k b result.2)
    else
      Except.ok (result.2.setCall t (Call.reading d k b))

def storeData (b : Nat) (data : α) (s : State α) : State α :=
  { s.setBuf b { s.bufs b with data := data, unmarked := true } with
    stored :=
      match (s.bufs b).disk with
      | none => s.stored
      | some d => setBlock s.stored d (s.bufs b).blockNo data }

/-- `log_write` and `buf_write` set `BUF_FLAGS_DIRTY`. -/
def markDirty (b : Nat) (s : State α) : State α :=
  s.setBuf b { s.bufs b with dirty := true, unmarked := false }

def bufWrite (t b : Nat) (s : State α) : Except Stop (State α) :=
  if (s.bufs b).holder = some t then
    Except.ok ((markDirty b s).setCall t (Call.marked b))
  else
    Except.error Stop.assertion

def flushBuf (t b : Nat) (s : State α) : Except Stop (State α) := do
  let result <- iderw t b s
  Except.ok (result.2.setCall t (if result.1 then Call.idle else Call.flushing b))

def unlockBuf (t b : Nat) (s : State α) : Except Stop (State α) :=
  match (s.bufs b).sem.signal with
  | none => Except.error Stop.assertion
  | some sem =>
      Except.ok ((s.setBuf b { s.bufs b with sem := sem, holder := none }).setCall t
        (Call.releasing b))

def dropRef (t b : Nat) (s : State α) : State α :=
  { (s.setBuf b { s.bufs b with refcnt := (s.bufs b).refcnt - 1 }).setCall t Call.idle with
    lru := if (s.bufs b).refcnt - 1 = 0 then (s.lru.unlink b).insertHead b else s.lru }

/-!
# Tasks and interrupts
-/

inductive Action (α : Type) where
  | read (t d : Nat) (k : UInt32)
  | store (t b : Nat) (data : α)
  | write (t b : Nat)
  | logWrite (t b : Nat)
  | release (t b : Nat)
  | run (t : Nat)
  | interrupt

/-- A call in progress goes on; one that waits in a queue cannot. -/
def run (t : Nat) (s : State α) : Except Stop (State α) :=
  match s.calls t with
  | Call.idle => Except.error Stop.disabled
  | Call.got d k b => Except.ok (lockBuf t d k b s)
  | Call.locking d k b =>
      if t ∈ (s.bufs b).sem.released then
        Except.ok ((s.setBuf b { s.bufs b with
          sem := (s.bufs b).sem.resume t
          holder := some t }).setCall t (Call.locked d k b))
      else
        Except.error Stop.disabled
  | Call.locked d k b => checkValid t d k b s
  | Call.reading d k b =>
      if t ∈ s.chan.released then do
        let result <- waitForRequest t b { s with chan := s.chan.resume t }
        if result.1 then
          Except.ok (returnRead t d k b result.2)
        else
          Except.ok result.2
      else
        Except.error Stop.disabled
  | Call.marked b => flushBuf t b s
  | Call.flushing b =>
      if t ∈ s.chan.released then do
        let result <- waitForRequest t b { s with chan := s.chan.resume t }
        Except.ok (result.2.setCall t (if result.1 then Call.idle else Call.flushing b))
      else
        Except.error Stop.disabled
  | Call.releasing b => Except.ok (dropRef t b s)

def perform (s : State α) : Action α -> Except Stop (State α)
  | Action.read t d k =>
      match s.calls t with
      | Call.idle => bufGet t d k s
      | _ => Except.error Stop.disabled
  | Action.store t b data =>
      match s.calls t with
      | Call.idle => Except.ok (storeData b data s)
      | _ => Except.error Stop.disabled
  | Action.write t b =>
      match s.calls t with
      | Call.idle => bufWrite t b s
      | _ => Except.error Stop.disabled
  | Action.logWrite t b =>
      match s.calls t with
      | Call.idle => Except.ok (markDirty b s)
      | _ => Except.error Stop.disabled
  | Action.release t b =>
      match s.calls t with
      | Call.idle => unlockBuf t b s
      | _ => Except.error Stop.disabled
  | Action.run t => run t s
  | Action.interrupt => ideIntrHandler s

/-- A failed assertion stops the system in a state that says so. -/
def step (s : State α) (a : Action α) : Option (State α) :=
  if s.panicked then
    none
  else
    match perform s a with
    | Except.ok s' => some s'
    | Except.error Stop.disabled => none
    | Except.error Stop.assertion => some { s with panicked := true }

/--
Only the holder of a buffer stores in it, marks it or releases it, and it has marked what it
stored before it releases the buffer.
-/
def Legal (s : State α) : Action α -> Prop
  | Action.store t b _ => (s.bufs b).holder = some t
  | Action.logWrite t b => (s.bufs b).holder = some t
  | Action.release t b => (s.bufs b).holder = some t ∧ (s.bufs b).unmarked = false
  | _ => True

end Disk
end Kernel
end NicoOS
