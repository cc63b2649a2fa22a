import NicoOS.Kernel.Sched.Model
import Mathlib.Logic.Function.Basic

/-!
# Exits and waits

`task_exit` and `task_wait` of `kernel/task.c` among all that tasks do.  A scan of
`task_wait` runs with interrupts off.  The child that it finds is freed with
interrupts on, so other tasks may run before that.
-/

namespace NicoOS
namespace Kernel
namespace ExitWait

open Lib
open Sched (TaskStatus Fault ntask)

/-- Where a task is in `task_wait`. -/
inductive WaitCall where
  | idle
  | scanning
  | reaping (child pid : Nat) (status : Int)
  deriving DecidableEq

/-- A call of `task_exit`. -/
structure Exit where
  slot : Nat
  pid : Nat
  status : Int

/-- A return of `task_wait`, with the number of the exit that it is for. -/
structure Reap where
  caller : Nat
  exitNo : Nat
  pid : Nat
  status : Int

/--
The kernel and the calls of `task_wait`, with a record of the exits, of the
children returned for them and of the callers that got -1.  The slot of a zombie
knows the number of its exit.
-/
structure State where
  kernel : Sched.State
  calls : Nat -> WaitCall
  exits : List Exit
  exitNo : Nat -> Nat
  reaps : List Reap
  childless : List Nat

def start (sems : Nat -> Int) : State :=
  { kernel := Sched.boot sems
    calls := fun _ => WaitCall.idle
    exits := []
    exitNo := fun _ => 0
    reaps := []
    childless := [] }

def State.setKernel (s : State) (k : Sched.State) : State :=
  { s with kernel := k }

/-- The system goes on with the new kernel state, or stops. -/
def State.take (s : State) (next : Sched.State -> State) :
    Except Fault Sched.State -> Option State
  | Except.ok k => some (next k)
  | Except.error Fault.assertion => some { s with kernel := { s.kernel with panicked := true } }
  | Except.error Fault.endless => none

def State.setCall (s : State) (t : Nat) (c : WaitCall) : State :=
  { s with calls := Function.update s.calls t c }

/-- What a scan of `task_wait` over the task table ends with. -/
inductive Scan where
  | found (child : Nat)
  | noChildren
  | asleep

def scan (k : Sched.State) : Scan :=
  match (Sched.children k).find? (fun t => (k.tasks t).state = TaskStatus.zombie) with
  | some t => Scan.found t
  | none => if Sched.children k = [] then Scan.noChildren else Scan.asleep

def waitRound (s : State) : Option State :=
  let k := s.kernel
  match scan k with
  | Scan.found t =>
      some (s.setCall k.current
        (WaitCall.reaping t (k.tasks t).pid (k.tasks t).exitStatus))
  | Scan.noChildren =>
      some { s.setCall k.current WaitCall.idle with childless := s.childless ++ [k.current] }
  | Scan.asleep =>
      s.take (s.setCall k.current WaitCall.scanning).setKernel
        (Sched.schedule (k.setState k.current TaskStatus.waiting))

def State.recordReap (s : State) (r : Reap) : State :=
  { s with reaps := s.reaps ++ [r] }

/-- `task_free` of the child that the scan found, and the return of `task_wait`. -/
def finishWait (s : State) : Option State :=
  let k := s.kernel
  match s.calls k.current with
  | WaitCall.reaping t pid status =>
      s.take ((s.setCall k.current WaitCall.idle).recordReap
        ⟨k.current, s.exitNo t, pid, status⟩).setKernel (Sched.taskFree k t)
  | _ => none

def State.recordExit (s : State) (e : Exit) : State :=
  { s with
    exits := s.exits ++ [e]
    exitNo := Function.update s.exitNo e.slot s.exits.length }

def exit (status : Int) (s : State) : Option State :=
  let k := s.kernel
  s.take (s.recordExit ⟨k.current, (k.tasks k.current).pid, status⟩).setKernel
    (Sched.taskExit status k)

/--
`sched` is any other action of the kernel, and `discard` the end of a
`kthread_create` or `proc_fork` that ran out of memory.
-/
inductive Action where
  | sched (a : Sched.Action)
  | discard (t : Nat)
  | exit (status : Int)
  | wait
  | free

/-- The actions of the current task itself, as opposed to interrupts. -/
def isOwn : Sched.Action -> Bool
  | Sched.Action.wakeup _ => false
  | Sched.Action.timer => false
  | Sched.Action.semSignal _ => false
  | _ => true

def perform (s : State) : Action -> Option State
  | Action.sched (Sched.Action.exit _) => none
  | Action.sched Sched.Action.wait => none
  | Action.sched a =>
      if isOwn a && s.calls s.kernel.current != WaitCall.idle then
        none
      else
        s.take s.setKernel (Sched.perform s.kernel a)
  | Action.discard t => s.take s.setKernel (Sched.taskFree s.kernel t)
  | Action.exit status =>
      if s.calls s.kernel.current = WaitCall.idle then exit status s else none
  | Action.wait =>
      match s.calls s.kernel.current with
      | WaitCall.reaping _ _ _ => none
      | _ => waitRound s
  | Action.free => finishWait s

def step (s : State) (a : Action) : Option State :=
  if s.kernel.panicked then none else perform s a

/-- What the callers promise; only ordinary tasks exit or wait. -/
def Legal (s : State) : Action -> Prop
  | Action.sched a => Sched.Legal s.kernel a
  | Action.discard t => (s.kernel.tasks t).state = TaskStatus.allocated ∧
      (s.kernel.tasks t).parent = some s.kernel.current ∧
      t ≠ s.kernel.initProc ∧ t ≠ s.kernel.idleTask
  | Action.exit _ => s.kernel.current ≠ s.kernel.idleTask
  | Action.wait => s.kernel.current ≠ s.kernel.idleTask
  | Action.free => True

/-!
# The protocol
-/

def IsZombie (s : State) (t : Nat) : Prop := (s.kernel.tasks t).state = TaskStatus.zombie

def IsChild (s : State) (t p : Nat) : Prop := (s.kernel.tasks t).parent = some p

/-- What holds in every state. -/
structure Protocol (s : State) : Prop where
  noLostWakeup : forall t p, IsChild s t p -> IsZombie s t ->
    (s.kernel.tasks p).state ≠ TaskStatus.waiting
  exited : forall r, r ∈ s.reaps ->
    exists slot, s.exits[r.exitNo]? = some ⟨slot, r.pid, r.status⟩
  once : (s.reaps.map Reap.exitNo).Nodup

/-- What holds of every step. -/
structure StepProtocol (s : State) (a : Action) (s' : State) : Prop where
  reclaimed : forall t, IsZombie s t -> Not (IsZombie s' t) -> a = Action.free
  freed : a = Action.free -> exists t pid status,
    s.calls s.kernel.current = WaitCall.reaping t pid status ∧
    IsZombie s t ∧ IsChild s t s.kernel.current ∧
    (s.kernel.tasks t).pid = pid ∧ (s.kernel.tasks t).exitStatus = status ∧
    s.exits[s.exitNo t]? = some ⟨t, pid, status⟩ ∧
    s'.reaps = s.reaps ++ [⟨s.kernel.current, s.exitNo t, pid, status⟩] ∧
    (s'.kernel.tasks t).state = TaskStatus.unused ∧
    (forall u, u ≠ t -> IsZombie s u -> IsZombie s' u)
  reapsOnly : a ≠ Action.free -> s'.reaps = s.reaps
  childless : a = Action.wait ->
    (s'.childless = s.childless ++ [s.kernel.current] <->
      forall t, Not (IsChild s t s.kernel.current))
  childlessOnly : a ≠ Action.wait -> s'.childless = s.childless
  adopted : forall status, a = Action.exit status ->
    (forall t, IsChild s t s.kernel.current -> IsChild s' t s.kernel.initProc) ∧
    (forall t, Not (IsChild s' t s.kernel.current)) ∧
    IsZombie s' s.kernel.current ∧
    (s'.kernel.tasks s.kernel.current).exitStatus = status

end ExitWait
end Kernel
end NicoOS
