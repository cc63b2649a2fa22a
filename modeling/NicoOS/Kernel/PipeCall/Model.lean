import NicoOS.Fs.Syscall.Calls
import NicoOS.Kernel.Kalloc.Model

/-!
# The memory behind `sys_pipe`

`sys_pipe` and `pipe_alloc` over the file table, the object allocator and the page
allocator.  A pipe object lives in the memory of the allocator, and the fields that a call
reads back are stored and read there.
-/

namespace NicoOS
namespace Kernel
namespace PipeCall

open Lib
open Program (op)
open Fs.Syscall (FdType inodePut)

/-!
# Operations
-/

def pipeSize : Nat := 96

/-- Where `rbuf.rclosed`, `rbuf.wclosed` and `buffer` lie in `struct pipe`. -/
def rclosedOffset : Nat := 16

def wclosedOffset : Nat := 17

def bufferOffset : Nat := 92

def kernelBase : Nat := 0x80000000

/-- A record of what the allocators give and get back. -/
inductive Event where
  | kalloc (ptr : Nat)
  | kfree (ptr : Nat)
  | getFreePage (page : Nat)
  | freePage (page : Nat)
  deriving DecidableEq

structure State where
  kernel : Fs.Syscall.State
  heap : Kalloc.State
  trace : List Event

/-- An assertion failed, or the processor trapped. -/
inductive Stop where
  | kernel (stop : Fs.Syscall.Stop)
  | heap
  | trap
  deriving DecidableEq

inductive Op where
  | kernel (o : Fs.Syscall.Op)
  | kalloc
  | kfree (ptr : Nat)
  | getFreePage
  | freePage (page : Nat)
  | setBuffer (pipe buffer : Nat)
  | ringbufferInit (pipe buffer : Nat)
  | ringbufferClose (pipe : Nat) (writable : Bool)
  | buffer (pipe : Nat)

def Op.Answer : Op -> Type
  | Op.kernel o => o.Answer
  | Op.kalloc => Nat
  | Op.getFreePage => Nat
  | Op.ringbufferClose _ _ => Bool
  | Op.buffer _ => Nat
  | _ => Unit

def State.setMem (s : State) (mem : Memory) : State :=
  { s with heap := { s.heap with mem := mem } }

/-- `kalloc(sizeof(struct pipe))` of a task that is not killed. -/
def kalloc (s : State) : Except Stop (Nat × State) :=
  match Kalloc.kalloc pipeSize false s.heap with
  | none => Except.error Stop.heap
  | some (ptr, heap) =>
      if ptr = 0 then
        Except.ok (0, { s with heap := heap })
      else
        Except.ok (ptr, { s with
          heap := { heap with live := (ptr, pipeSize) :: heap.live }
          trace := s.trace ++ [Event.kalloc ptr] })

def kfree (ptr : Nat) (s : State) : Except Stop (Unit × State) :=
  match Kalloc.kfree ptr false s.heap with
  | none => Except.error Stop.heap
  | some heap => Except.ok ((), { s with
      heap := { heap with live := heap.live.filter (fun x => x.1 ≠ ptr) }
      trace := s.trace ++ [Event.kfree ptr] })

def getFreePage (s : State) : Nat × State :=
  match s.heap.pool with
  | [] => (0, s)
  | page :: rest => (page, { s with
      heap := { s.heap with pool := rest, outside := page :: s.heap.outside }
      trace := s.trace ++ [Event.getFreePage page] })

/--
`free_page`.  The assertion of `pfree` is about the physical address, so that `NULL` passes
it; the store of the link then goes to address 0, which no user space maps.
-/
def freePage (page : Nat) (s : State) : Except Stop (Unit × State) :=
  if page = kernelBase then
    Except.error Stop.heap
  else if page = 0 then
    Except.error Stop.trap
  else
    Except.ok ((), { s with
      heap := { s.heap with
        pool := page :: s.heap.pool
        outside := s.heap.outside.erase page }
      trace := s.trace ++ [Event.freePage page] })

/-- `ringbuffer_init`; its last step clears the buffer. -/
def ringbufferInit (pipe buffer : Nat) (s : State) : State :=
  s.setMem (((s.heap.mem.setByte (pipe + rclosedOffset) 0).setByte (pipe + wclosedOffset) 0).fill
    buffer 0 Kalloc.pgSize)

/-- `ringbuffer_close`; the answer says whether both ends are closed. -/
def ringbufferClose (pipe : Nat) (writable : Bool) (s : State) : Bool × State :=
  let mem := s.heap.mem.setByte (pipe + if writable then wclosedOffset else rclosedOffset) 1
  (decide (mem (pipe + rclosedOffset) ≠ 0 ∧ mem (pipe + wclosedOffset) ≠ 0), s.setMem mem)

def performKernel (t : Nat) (o : Fs.Syscall.Op) (s : State) :
    Except Stop (o.Answer × State) :=
  match Fs.Syscall.perform t o s.kernel with
  | Except.error stop => Except.error (Stop.kernel stop)
  | Except.ok (a, kernel) => Except.ok (a, { s with kernel := kernel })

def perform (t : Nat) : (o : Op) -> State -> Except Stop (o.Answer × State)
  | Op.kernel o, s => performKernel t o s
  | Op.kalloc, s => kalloc s
  | Op.kfree ptr, s => kfree ptr s
  | Op.getFreePage, s => Except.ok (getFreePage s)
  | Op.freePage page, s => freePage page s
  | Op.setBuffer pipe buffer, s =>
      Except.ok ((), s.setMem (s.heap.mem.setWord (pipe + bufferOffset) buffer))
  | Op.ringbufferInit pipe buffer, s => Except.ok ((), ringbufferInit pipe buffer s)
  | Op.ringbufferClose pipe writable, s => Except.ok (ringbufferClose pipe writable s)
  | Op.buffer pipe, s => Except.ok (s.heap.mem.word (pipe + bufferOffset), s)

abbrev Code := Program Op Op.Answer

/-- A program of the file system calls, run here. -/
def lift {α : Type} : Fs.Syscall.Code α -> Code α
  | Program.ret a => Program.ret a
  | Program.ask o next => Program.ask (Op.kernel o) (fun a => lift (next a))

/-!
# The call
-/

def pipeClose (pipe : Nat) (writable : Bool) : Code Unit := do
  let closed : Bool <- op (Op.ringbufferClose pipe writable)
  if closed then do
    let buffer : Nat <- op (Op.buffer pipe)
    op (Op.freePage buffer)
    op (Op.kfree pipe)
  else
    pure ()

/-- The part of `file_close` behind the spinlock. -/
def fileRelease : Option Fs.Syscall.File -> Code Unit
  | none => pure ()
  | some file =>
      match file.type with
      | FdType.none => pure ()
      | FdType.inode => do
          op (Op.kernel Fs.Syscall.Op.logBegin)
          lift (inodePut file.inode)
          lift Fs.Syscall.logEndOp
      | FdType.pipe => pipeClose file.pipe file.writable

def fileClose (f : Nat) : Code Unit := do
  let last <- op (Op.kernel (Fs.Syscall.Op.fileDrop f))
  fileRelease last

def closeIfAny (f : Option Nat) : Code Unit :=
  match f with
  | none => pure ()
  | some f => fileClose f

def pipeBad (rfp wfp : Option Nat) (pipe : Nat) : Code (Option (Nat × Nat)) := do
  closeIfAny rfp
  closeIfAny wfp
  if pipe ≠ 0 then do
    op (Op.kfree pipe)
    pure none
  else
    pure none

def pipeMemory (rfp wfp : Nat) : Code (Option (Nat × Nat)) := do
  let pipe : Nat <- op Op.kalloc
  if pipe = 0 then
    pipeBad (some rfp) (some wfp) 0
  else do
    let buffer : Nat <- op Op.getFreePage
    op (Op.setBuffer pipe buffer)
    if buffer = 0 then
      pipeBad (some rfp) (some wfp) pipe
    else do
      op (Op.ringbufferInit pipe buffer)
      op (Op.kernel (Fs.Syscall.Op.openPipe rfp pipe false))
      op (Op.kernel (Fs.Syscall.Op.openPipe wfp pipe true))
      pure (some (rfp, wfp))

def pipeAlloc : Code (Option (Nat × Nat)) := do
  match <- op (Op.kernel Fs.Syscall.Op.fileAlloc) with
  | none => pipeBad none none 0
  | some rfp => do
      match <- op (Op.kernel Fs.Syscall.Op.fileAlloc) with
      | none => pipeBad (some rfp) none 0
      | some wfp => pipeMemory rfp wfp

def sysPipeBad (t rfp wfp : Nat) (rfd : Option Nat) : Code Int := do
  fileClose rfp
  fileClose wfp
  match rfd with
  | none => pure (-1)
  | some fd => do
      op (Op.kernel (Fs.Syscall.Op.setDescriptor t fd none))
      pure (-1)

/-- `sys_pipe`, by whether the pointer of the user is valid. -/
def sysPipe (t : Nat) (fds : Bool) : Code Int := do
  if fds then do
    match <- pipeAlloc with
    | none => pure (-1)
    | some (rfp, wfp) => do
        match <- op (Op.kernel (Fs.Syscall.Op.fdAlloc rfp)) with
        | none => sysPipeBad t rfp wfp none
        | some rfd => do
            match <- op (Op.kernel (Fs.Syscall.Op.fdAlloc wfp)) with
            | none => sysPipeBad t rfp wfp (some rfd)
            | some _ => pure 0
  else
    pure (-1)

end PipeCall
end Kernel
end NicoOS
