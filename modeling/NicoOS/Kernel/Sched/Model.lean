import NicoOS.Lib.Transition
import NicoOS.Kernel.Semaphore

/-!
# Tasks and the scheduler

`kernel/task.c`, `kernel/sched/sched.c` and the scheduler of
`kernel/sched/linux0.11`.  These functions run with interrupts off, so each of
them is one step; a task is named by its place in the task table.
-/

namespace NicoOS
namespace Kernel
namespace Sched

open Lib

def ntask : Nat := 128

inductive TaskStatus where
  | unused
  | allocated
  | ready
  | running
  | blocked
  | waiting
  | zombie
  deriving DecidableEq, Repr

/-- The fields of `struct task_struct` that scheduling reads and writes. -/
structure Task where
  pid : Nat
  state : TaskStatus
  timeSlice : UInt32
  priority : UInt32
  parent : Option Nat
  exitStatus : Int

/-- `queue` lists the ready queue in the order of `LIST_FOREACH`. -/
structure State where
  tasks : Nat -> Task
  queue : List Nat
  current : Nat
  idleTask : Nat
  initProc : Nat
  nextPid : Nat
  sems : Nat -> Semaphore
  panicked : Bool

/-- A failed assertion, or a loop that never ends. -/
inductive Fault where
  | assertion
  | endless

def State.setTask (s : State) (t : Nat) (task : Task) : State :=
  { s with tasks := fun u => if u = t then task else s.tasks u }

def State.setState (s : State) (t : Nat) (status : TaskStatus) : State :=
  s.setTask t { s.tasks t with state := status }

def State.setSem (s : State) (i : Nat) (sem : Semaphore) : State :=
  { s with sems := fun j => if j = i then sem else s.sems j }

/-!
# The ready queue
-/

def schedEnqueue (s : State) (t : Nat) : Except Fault State :=
  if t ∈ s.queue ∨ t = s.idleTask then
    Except.error Fault.assertion
  else
    Except.ok { s with queue := t :: s.queue }

/-- The scan of `pick_task` for the largest time slice. -/
def scanMax (tasks : Nat -> Task) : List Nat -> UInt32 -> Option Nat -> Option Nat
  | [], _, next => next
  | t :: rest, maxts, next =>
      if (tasks t).timeSlice > maxts then
        scanMax tasks rest (tasks t).timeSlice (some t)
      else
        scanMax tasks rest maxts next

def refill (s : State) : State :=
  { s with
    tasks := fun t =>
      if t < ntask ∧ (s.tasks t).state ≠ TaskStatus.unused ∧ t ≠ s.idleTask then
        { s.tasks t with
          timeSlice := (s.tasks t).priority + ((s.tasks t).timeSlice >>> 1) }
      else
        s.tasks t }

def pickFrom : Nat -> State -> Except Fault (Nat × State)
  | 0, _ => Except.error Fault.endless
  | fuel + 1, s =>
      match scanMax s.tasks s.queue 0 none with
      | some t => Except.ok (t, { s with queue := s.queue.erase t })
      | none => pickFrom fuel (refill s)

/-- `pick_task`; two rounds decide whether its loop ends. -/
def pickTask (s : State) : Except Fault (Nat × State) :=
  if s.queue = [] then
    Except.ok (s.idleTask, s.setTask s.idleTask
      { s.tasks s.idleTask with timeSlice := (s.tasks s.idleTask).priority })
  else
    pickFrom 2 s

/-- The first half of `schedule`: the previous task leaves the CPU. -/
def putPrev (s : State) : Except Fault State :=
  if s.current = s.idleTask then
    Except.ok (s.setState s.current TaskStatus.blocked)
  else if (s.tasks s.current).state = TaskStatus.running then
    schedEnqueue (s.setState s.current TaskStatus.ready) s.current
  else
    Except.ok s

def schedule (s : State) : Except Fault State := do
  let s <- putPrev s
  let picked <- pickTask s
  Except.ok { picked.2.setState picked.1 TaskStatus.running with current := picked.1 }

def timesliceCheck (s : State) : Except Fault State :=
  let task := s.tasks s.current
  if task.timeSlice ≠ 0 then
    Except.ok (s.setTask s.current { task with timeSlice := task.timeSlice - 1 })
  else
    schedule s

/-!
# Tasks
-/

def taskWakeup (s : State) (t : Nat) : Except Fault State :=
  if (s.tasks t).state = TaskStatus.running ∨ (s.tasks t).state = TaskStatus.ready then
    Except.error Fault.assertion
  else
    schedEnqueue (s.setState t TaskStatus.ready) t

def taskYield (s : State) : Except Fault State :=
  if (s.tasks s.current).state = TaskStatus.running then
    schedule s
  else
    Except.error Fault.assertion

def taskBlock (s : State) : Except Fault State :=
  schedule (s.setState s.current TaskStatus.blocked)

/-- `kthread_create`; a full task table makes it return `NULL`. -/
def kthreadCreate (priority : UInt32) (s : State) : State :=
  match (List.range ntask).find? (fun t => (s.tasks t).state = TaskStatus.unused) with
  | none => s
  | some t =>
      { s.setTask t
          { pid := s.nextPid
            state := TaskStatus.allocated
            timeSlice := priority
            priority := priority
            parent := some s.current
            exitStatus := 0 } with
        nextPid := s.nextPid + 1 }

def taskFree (s : State) (t : Nat) : Except Fault State :=
  if (s.tasks t).state ≠ TaskStatus.zombie ∧ (s.tasks t).state ≠ TaskStatus.allocated then
    Except.error Fault.assertion
  else
    Except.ok (s.setTask t
      { s.tasks t with
        pid := 0
        parent := none
        exitStatus := 0
        state := TaskStatus.unused })

def reparent (task : Nat) : List Nat -> State -> Except Fault State
  | [], s => Except.ok s
  | t :: rest, s =>
      if (s.tasks t).parent = some task then
        let s := s.setTask t { s.tasks t with parent := some s.initProc }
        if (s.tasks t).state = TaskStatus.zombie then
          taskWakeup s s.initProc >>= reparent task rest
        else
          reparent task rest s
      else
        reparent task rest s

/-- The parent is woken up if it waits for a child. -/
def wakeParent (parent : Nat) (s : State) : Except Fault State :=
  if (s.tasks parent).state = TaskStatus.waiting then
    taskWakeup s parent
  else
    Except.ok s

def becomeZombie (task : Nat) (status : Int) (s : State) : State :=
  s.setTask task { s.tasks task with state := TaskStatus.zombie, exitStatus := status }

/-- `task_exit` behind the release of files and directory. -/
def taskExit (status : Int) (s : State) : Except Fault State :=
  match (s.tasks s.current).parent with
  | none => Except.error Fault.assertion
  | some parent =>
      if s.current = s.initProc then
        Except.error Fault.assertion
      else do
        let s1 <- wakeParent parent s
        let s2 <- reparent s.current (List.range ntask) s1
        schedule (becomeZombie s.current status s2)

/-- The children of the current task, in the order of the task table. -/
def children (s : State) : List Nat :=
  (List.range ntask).filter (fun t => (s.tasks t).parent = some s.current)

/-- One round of the loop of `task_wait`, with the child that it reaped. -/
def taskWait (s : State) : Except Fault (Option (Nat × Int) × State) :=
  match (children s).find? (fun t => (s.tasks t).state = TaskStatus.zombie) with
  | some t => do
      let s1 <- taskFree s t
      Except.ok (some ((s.tasks t).pid, (s.tasks t).exitStatus), s1)
  | none =>
      if children s = [] then
        Except.ok (none, s)
      else do
        let s1 <- schedule (s.setState s.current TaskStatus.waiting)
        Except.ok (none, s1)

def semWait (i : Nat) (s : State) : Except Fault State :=
  match (s.sems i).wait s.current with
  | (true, sem) => Except.ok (s.setSem i sem)
  | (false, sem) =>
      if (s.tasks s.current).state = TaskStatus.running then
        taskBlock (s.setSem i sem)
      else
        Except.error Fault.assertion

def semSignal (i : Nat) (s : State) : Except Fault State :=
  match (s.sems i).signal with
  | none => Except.error Fault.assertion
  | some (none, sem) => Except.ok (s.setSem i sem)
  | some (some t, sem) =>
      if (s.tasks t).state = TaskStatus.blocked then
        taskWakeup (s.setSem i sem) t
      else
        Except.error Fault.assertion

/-!
# Histories
-/

inductive Action where
  | wakeup (t : Nat)
  | create (priority : UInt32)
  | yield
  | block
  | timer
  | semWait (i : Nat)
  | semSignal (i : Nat)
  | exit (status : Int)
  | wait

def perform (s : State) : Action -> Except Fault State
  | Action.wakeup t => taskWakeup s t
  | Action.create priority => Except.ok (kthreadCreate priority s)
  | Action.yield => taskYield s
  | Action.block => taskBlock s
  | Action.timer => timesliceCheck s
  | Action.semWait i => semWait i s
  | Action.semSignal i => semSignal i s
  | Action.exit status => taskExit status s
  | Action.wait => do
      let result <- taskWait s
      Except.ok result.2

/-- A failed assertion stops the system in a state that says so. -/
def step (s : State) (a : Action) : Option State :=
  if s.panicked then
    none
  else
    match perform s a with
    | Except.ok t => some t
    | Except.error Fault.assertion => some { s with panicked := true }
    | Except.error Fault.endless => none

def NotWaiting (s : State) (t : Nat) : Prop :=
  forall i, Not (t ∈ (s.sems i).waiting)

/--
What the callers promise: `task_wakeup` is called for a new task or for one that
blocked itself, and only ordinary tasks wait or exit.
-/
def Legal (s : State) : Action -> Prop
  | Action.wakeup t => t ≠ s.idleTask ∧ ((s.tasks t).state = TaskStatus.allocated ∨
      ((s.tasks t).state = TaskStatus.blocked ∧ NotWaiting s t))
  | Action.semWait _ => s.current ≠ s.idleTask
  | Action.exit _ => s.current ≠ s.idleTask ∧ s.current ≠ s.initProc ∧
      (s.tasks s.current).parent ≠ none
  | Action.wait => s.current ≠ s.idleTask
  | _ => True

/-- The integrity of the ready queue. -/
structure QueueSound (s : State) : Prop where
  nodup : s.queue.Nodup
  ready : forall t, t ∈ s.queue <-> (s.tasks t).state = TaskStatus.ready
  running : forall t, (s.tasks t).state = TaskStatus.running <-> t = s.current
  idle : Not (s.idleTask ∈ s.queue)
  noPanic : s.panicked = false

/-- The kernel after `task_init`, with `init` created and not yet started. -/
def boot (sems : Nat -> Int) : State :=
  { tasks := fun t =>
      { pid := if t < 3 then t else 0
        state :=
          if t = 0 then TaskStatus.running
          else if t < 3 then TaskStatus.allocated
          else TaskStatus.unused
        timeSlice := if t < 3 then 10 else 0
        priority := if t < 3 then 10 else 0
        parent := if t = 2 then some 0 else none
        exitStatus := 0 }
    queue := []
    current := 0
    idleTask := 1
    initProc := 2
    nextPid := 3
    sems := fun i => Semaphore.init (sems i)
    panicked := false }

end Sched
end Kernel
end NicoOS
