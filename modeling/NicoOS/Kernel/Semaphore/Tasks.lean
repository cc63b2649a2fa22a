import NicoOS.Kernel.Sched.Model
import Mathlib.Logic.Function.Basic

/-!
# Tasks at semaphores

`kernel/semaphore.c` with `task_block`, `task_wakeup` and `task_kill`.  These
functions run with interrupts off, so each is one step up to the point where it
gives the CPU away.  Which ready task runs next is left open.
-/

namespace NicoOS
namespace Kernel
namespace SemTasks

open Lib
open Sched (TaskStatus ntask)

/--
`struct semaphore`, with the tasks that were taken from its queue and have not
run yet, and a record of what happened at it: the tasks that joined and left the
queue, the calls that returned, and the tasks between a `sem_wait` that returned
and their `sem_signal`.
-/
structure Sem extends Turnstile where
  holder : Option Nat
  arrived : List Nat
  woken : List Nat
  completed : Nat
  signals : Nat
  inside : List Nat

/--
`current` is `none` while the idle task runs.  `place` is the `sem_wait` that a
task is in, and `linked` the queue that its `sem_wait_node` is in.
-/
structure State where
  sems : Nat -> Sem
  pids : Nat -> Nat
  killed : Nat -> Bool
  status : Nat -> TaskStatus
  place : Nat -> Option Nat
  linked : Nat -> Option Nat
  current : Option Nat
  panicked : Bool

/-- A failed assertion, or a list node that is linked while it is in a list. -/
inductive Failure where
  | assertion
  | relinked

def semInit (initialVal : Int) : Sem :=
  { toTurnstile := Turnstile.init initialVal
    holder := none
    arrived := []
    woken := []
    completed := 0
    signals := 0
    inside := [] }

def start (initialVals : Nat -> Int) (status : Nat -> TaskStatus) (pids : Nat -> Nat) : State :=
  { sems := fun i => semInit (initialVals i)
    pids := pids
    killed := fun _ => false
    status := status
    place := fun _ => none
    linked := fun _ => none
    current := none
    panicked := false }

def State.setSem (s : State) (i : Nat) (sem : Sem) : State :=
  { s with sems := Function.update s.sems i sem }

def State.setStatus (s : State) (t : Nat) (status : TaskStatus) : State :=
  { s with status := Function.update s.status t status }

/-- The current task gives the CPU away in the given state. -/
def State.suspend (s : State) (t : Nat) (status : TaskStatus) : State :=
  { s.setStatus t status with current := none }

def taskWakeup (t : Nat) (s : State) : Except Failure State :=
  if s.status t = TaskStatus.running ∨ s.status t = TaskStatus.ready then
    Except.error Failure.assertion
  else
    Except.ok (s.setStatus t TaskStatus.ready)

def Sem.enter (sem : Sem) (t : Nat) : Sem :=
  { sem with
    holder := some t
    completed := sem.completed + 1
    inside := t :: sem.inside }

def Sem.join (sem : Sem) (t : Nat) (turnstile : Turnstile) : Sem :=
  { sem with
    toTurnstile := turnstile
    arrived := sem.arrived ++ [t] }

/-- The semaphore behind a signal of `caller` that woke up `woken`. -/
def Sem.leave (sem : Sem) (caller woken : Option Nat) (behind : Semaphore) : Sem :=
  { toSemaphore := behind
    released := woken.toList ++ sem.released
    holder := none
    arrived := sem.arrived
    woken := sem.woken ++ woken.toList
    completed := sem.completed
    signals := sem.signals + 1
    inside :=
      match caller with
      | none => sem.inside
      | some t => sem.inside.erase t }

/-- `sem_wait` behind its decrement, up to its `task_block` if the task has to wait. -/
def semWaitWith (result : Bool × Turnstile) (i t : Nat) (s : State) : Except Failure State :=
  match result with
  | (true, sem) => Except.ok (s.setSem i ({ s.sems i with toTurnstile := sem }.enter t))
  | (false, sem) =>
      if s.status t ≠ TaskStatus.running then
        Except.error Failure.assertion
      else if s.linked t ≠ none then
        Except.error Failure.relinked
      else
        Except.ok { (s.setSem i ((s.sems i).join t sem)).suspend t TaskStatus.blocked with
          place := Function.update s.place t (some i)
          linked := Function.update s.linked t (some i) }

def semWait (i t : Nat) (s : State) : Except Failure State :=
  semWaitWith ((s.sems i).toTurnstile.wait t) i t s

def semWait32 (i t : Nat) (s : State) : Except Failure State :=
  semWaitWith ((s.sems i).toTurnstile.wait32 t) i t s

/-- `list_poll` takes the node of a task out of its queue. -/
def State.unlink (s : State) (t : Nat) : State :=
  { s with linked := Function.update s.linked t none }

def semSignalWith (result : Option (Option Nat × Semaphore)) (i : Nat) (s : State) :
    Except Failure State :=
  match result with
  | none => Except.error Failure.assertion
  | some (none, sem) => Except.ok (s.setSem i ((s.sems i).leave s.current none sem))
  | some (some t, sem) =>
      if s.status t = TaskStatus.blocked then
        taskWakeup t ((s.setSem i ((s.sems i).leave s.current (some t) sem)).unlink t)
      else
        Except.error Failure.assertion

def semSignal (i : Nat) (s : State) : Except Failure State :=
  semSignalWith (s.sems i).toSemaphore.signal i s

def semSignal32 (i : Nat) (s : State) : Except Failure State :=
  semSignalWith (s.sems i).toSemaphore.signal32 i s

def semHolding (i : Nat) (s : State) : Bool :=
  match s.current with
  | none => false
  | some t => decide ((s.sems i).holder = some t)

/-- The first task of the task table with the given pid. -/
def findPid (pid : Nat) (s : State) : Option Nat :=
  (List.range ntask).find? (fun t => s.pids t = pid)

def taskKill (pid : Nat) (s : State) : Except Failure (Int × State) :=
  match findPid pid s with
  | none => Except.ok (-1, s)
  | some t =>
      let s1 := { s with killed := Function.update s.killed t true }
      if s.status t = TaskStatus.blocked ∨ s.status t = TaskStatus.waiting then do
        let s2 <- taskWakeup t s1
        Except.ok (0, s2)
      else
        Except.ok (0, s1)

/-- A ready task gets the CPU; one that was blocked in `sem_wait` finishes the call. -/
def dispatch (t : Nat) (s : State) : State :=
  let s1 := { s.setStatus t TaskStatus.running with current := some t }
  match s.place t with
  | none => s1
  | some i =>
      { s1.setSem i ({ s.sems i with toTurnstile := (s.sems i).toTurnstile.resume t }.enter t) with
        place := Function.update s.place t none }

inductive Action where
  | wait (i : Nat)
  | signal (i : Nat)
  | kill (pid : Nat)
  | preempt
  | dispatch (t : Nat)

def perform (s : State) : Action -> Option (Except Failure State)
  | Action.wait i => s.current.map (fun t => semWait i t s)
  | Action.signal i => some (semSignal i s)
  | Action.kill pid => some (do
      let result <- taskKill pid s
      Except.ok result.2)
  | Action.preempt => s.current.map (fun t => Except.ok (s.suspend t TaskStatus.ready))
  | Action.dispatch t =>
      if s.current = none ∧ s.status t = TaskStatus.ready then
        some (Except.ok (dispatch t s))
      else
        none

def perform32 (s : State) : Action -> Option (Except Failure State)
  | Action.wait i => s.current.map (fun t => semWait32 i t s)
  | Action.signal i => some (semSignal32 i s)
  | a => perform s a

/-- A failure stops the system in a state that says so. -/
def stepBy (perform : State -> Action -> Option (Except Failure State)) (s : State) (a : Action) :
    Option State :=
  if s.panicked then
    none
  else
    match perform s a with
    | none => none
    | some (Except.ok t) => some t
    | some (Except.error _) => some { s with panicked := true }

def step : State -> Action -> Option State := stepBy perform

def step32 : State -> Action -> Option State := stepBy perform32

/-!
# What is claimed of the semaphores
-/

/-- What holds at a semaphore whose initial value is `v`. -/
structure Correct (v : Int) (s : State) (i : Nat) : Prop where
  length : (s.sems i).waiting.length = (-(s.sems i).val).toNat
  blocked : forall t, t ∈ (s.sems i).waiting -> s.status t = TaskStatus.blocked
  nodup : (s.sems i).waiting.Nodup
  fifo : (s.sems i).woken ++ (s.sems i).waiting = (s.sems i).arrived
  bounded : ((s.sems i).completed : Int) ≤ v + (s.sems i).signals
  noPanic : s.panicked = false

/-- At most one task is in its critical section, and `sem_holding` tells which. -/
structure Exclusive (s : State) (i : Nat) : Prop where
  atMostOne : (s.sems i).inside.length ≤ 1
  holder : forall t, (s.sems i).holder = some t <-> t ∈ (s.sems i).inside
  holding : forall t, s.current = some t -> (semHolding i s = true <-> t ∈ (s.sems i).inside)

def NoKill (_ : State) : Action -> Prop
  | Action.kill _ => False
  | _ => True

/-- No task is killed that is queued at a semaphore. -/
def SparesWaiters (s : State) : Action -> Prop
  | Action.kill pid => forall t, findPid pid s = some t -> s.linked t = none
  | _ => True

/-- No signal comes to a semaphore whose value is the greatest `int32_t`. -/
def BelowMax (s : State) : Action -> Prop
  | Action.signal i => (s.sems i).val < 2147483647
  | _ => True

/-- The semaphore is signalled only by a task whose `sem_wait` on it returned. -/
def SignalsOwn (i : Nat) (s : State) : Action -> Prop
  | Action.signal j => j = i -> exists t, s.current = some t ∧ t ∈ (s.sems i).inside
  | _ => True

end SemTasks
end Kernel
end NicoOS
