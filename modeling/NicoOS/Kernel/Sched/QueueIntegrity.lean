import NicoOS.Kernel.Sched.Model
import NicoOS.Lib.Outcome
import Mathlib.Data.List.Nodup

/-!
# Integrity of the ready queue

The invariant relates the states of the tasks to the ready queue and to the
queues of the semaphores.  It depends on the states alone, so time slices,
parents and exit codes drop out.
-/

namespace NicoOS
namespace Kernel
namespace Sched

open Lib

/-- `r` is the running task, or `none` while `schedule` is choosing one. -/
structure Good (status : Nat -> TaskStatus) (queue : List Nat)
    (sems : Nat -> Semaphore) (idle : Nat) (r : Option Nat) : Prop where
  nodup : queue.Nodup
  ready : forall t, t ∈ queue <-> status t = TaskStatus.ready
  running : forall t, status t = TaskStatus.running <-> r = some t
  idleStates : status idle = TaskStatus.allocated ∨ status idle = TaskStatus.blocked ∨
    status idle = TaskStatus.running
  blocked : forall i t, t ∈ (sems i).waiting ->
    status t = TaskStatus.blocked ∧ t ≠ idle
  waitNodup : forall i, (sems i).waiting.Nodup
  waitOnce : forall i j t, t ∈ (sems i).waiting -> t ∈ (sems j).waiting -> i = j
  sound : forall i, (sems i).Sound

def State.status (s : State) : Nat -> TaskStatus := fun t => (s.tasks t).state

def State.IsGood (s : State) (r : Option Nat) : Prop :=
  Good s.status s.queue s.sems s.idleTask r

def setStatus (status : Nat -> TaskStatus) (t : Nat) (b : TaskStatus) :
    Nat -> TaskStatus :=
  fun u => if u = t then b else status u

@[simp] theorem setStatus_self (status : Nat -> TaskStatus) (t : Nat) (b : TaskStatus) :
    setStatus status t b t = b := if_pos rfl

theorem setStatus_of_ne {status : Nat -> TaskStatus} {t u : Nat} {b : TaskStatus}
    (h : u ≠ t) : setStatus status t b u = status u := if_neg h

theorem status_setTask (s : State) (t : Nat) (task : Task) :
    (s.setTask t task).status = setStatus s.status t task.state := by
  funext u
  unfold State.status State.setTask setStatus
  simp only
  split
  · rfl
  · rfl

theorem status_setState (s : State) (t : Nat) (b : TaskStatus) :
    (s.setState t b).status = setStatus s.status t b :=
  status_setTask s t _

section Changes

variable {status : Nat -> TaskStatus} {queue : List Nat} {sems : Nat -> Semaphore}
  {idle : Nat} {r r' : Option Nat} {t : Nat}

/-- The idle task is neither queued nor ever waited for. -/
theorem Good.ne_idle (h : Good status queue sems idle r)
    (ht : status t ≠ TaskStatus.allocated ∧ status t ≠ TaskStatus.blocked ∧
      status t ≠ TaskStatus.running) : t ≠ idle := by
  intro heq
  subst heq
  rcases h.idleStates with heq | heq | heq
  · exact ht.left heq
  · exact ht.right.left heq
  · exact ht.right.right heq

theorem Good.idleNotReady (h : Good status queue sems idle r) :
    status idle ≠ TaskStatus.ready := by
  intro hready
  have hne : idle ≠ idle := by
    apply h.ne_idle
    rw [hready]
    exact ⟨fun hb => (nomatch hb), fun hb => (nomatch hb), fun hb => (nomatch hb)⟩
  exact hne rfl

/-- A task that is not ready takes a state in which it is not ready either. -/
theorem Good.park (h : Good status queue sems idle r) {b : TaskStatus}
    (hold : status t ≠ TaskStatus.ready)
    (hnew : b ≠ TaskStatus.ready ∧ b ≠ TaskStatus.running)
    (hidle : t = idle -> b = TaskStatus.blocked)
    (hwait : forall i, Not (t ∈ (sems i).waiting))
    (hr : forall u, r' = some u <-> r = some u ∧ u ≠ t) :
    Good (setStatus status t b) queue sems idle r' := by
  refine ⟨h.nodup, ?_, ?_, ?_, ?_, h.waitNodup, h.waitOnce, h.sound⟩
  · intro u
    rw [h.ready u]
    cases decEq u t with
    | isTrue heq =>
        subst heq
        rw [setStatus_self]
        exact ⟨fun hready => absurd hready hold, fun hready => absurd hready hnew.left⟩
    | isFalse hne => rw [setStatus_of_ne hne]
  · intro u
    rw [hr u]
    cases decEq u t with
    | isTrue heq =>
        subst heq
        rw [setStatus_self]
        exact ⟨fun hrun => absurd hrun hnew.right, fun hrun => absurd rfl hrun.right⟩
    | isFalse hne =>
        rw [setStatus_of_ne hne, h.running u]
        exact ⟨fun hrun => ⟨hrun, hne⟩, fun hrun => hrun.left⟩
  · cases decEq idle t with
    | isTrue heq =>
        rw [heq, setStatus_self]
        exact Or.inr (Or.inl (hidle heq.symm))
    | isFalse hne =>
        rw [setStatus_of_ne hne]
        exact h.idleStates
  · intro i u hu
    have hne : u ≠ t := by
      intro heq
      subst heq
      exact hwait i hu
    rw [setStatus_of_ne hne]
    exact h.blocked i u hu

theorem Good.enqueue (h : Good status queue sems idle r)
    (hold : status t ≠ TaskStatus.ready) (hidle : t ≠ idle)
    (hwait : forall i, Not (t ∈ (sems i).waiting))
    (hr : forall u, r' = some u <-> r = some u ∧ u ≠ t) :
    Good (setStatus status t TaskStatus.ready) (t :: queue) sems idle r' := by
  refine ⟨?_, ?_, ?_, ?_, ?_, h.waitNodup, h.waitOnce, h.sound⟩
  · refine List.nodup_cons.mpr ⟨?_, h.nodup⟩
    intro hmem
    exact hold ((h.ready t).mp hmem)
  · intro u
    rw [List.mem_cons]
    cases decEq u t with
    | isTrue heq =>
        subst heq
        rw [setStatus_self]
        exact ⟨fun _ => rfl, fun _ => Or.inl rfl⟩
    | isFalse hne =>
        rw [setStatus_of_ne hne, ← h.ready u]
        exact ⟨fun hu => hu.resolve_left hne, fun hu => Or.inr hu⟩
  · intro u
    rw [hr u]
    cases decEq u t with
    | isTrue heq =>
        subst heq
        rw [setStatus_self]
        exact ⟨fun hrun => (nomatch hrun), fun hrun => absurd rfl hrun.right⟩
    | isFalse hne =>
        rw [setStatus_of_ne hne, h.running u]
        exact ⟨fun hrun => ⟨hrun, hne⟩, fun hrun => hrun.left⟩
  · rw [setStatus_of_ne (Ne.symm hidle)]
    exact h.idleStates
  · intro i u hu
    have hne : u ≠ t := by
      intro heq
      subst heq
      exact hwait i hu
    rw [setStatus_of_ne hne]
    exact h.blocked i u hu

/-- A task leaves the ready queue, or the idle task its pause, to run. -/
theorem Good.dispatch (h : Good status queue sems idle none)
    (hwait : forall i, Not (t ∈ (sems i).waiting)) :
    Good (setStatus status t TaskStatus.running) (queue.erase t) sems idle (some t) := by
  refine ⟨h.nodup.erase t, ?_, ?_, ?_, ?_, h.waitNodup, h.waitOnce, h.sound⟩
  · intro u
    rw [h.nodup.mem_erase_iff, h.ready u]
    cases decEq u t with
    | isTrue heq =>
        subst heq
        rw [setStatus_self]
        exact ⟨fun hu => absurd rfl hu.left, fun hu => nomatch hu⟩
    | isFalse hne =>
        rw [setStatus_of_ne hne]
        exact ⟨fun hu => hu.right, fun hu => ⟨hne, hu⟩⟩
  · intro u
    cases decEq u t with
    | isTrue heq =>
        subst heq
        rw [setStatus_self]
        exact ⟨fun _ => rfl, fun _ => rfl⟩
    | isFalse hne =>
        rw [setStatus_of_ne hne, h.running u]
        exact ⟨fun hu => (nomatch hu), fun hu => absurd (Option.some.inj hu).symm hne⟩
  · cases decEq idle t with
    | isTrue heq =>
        rw [heq, setStatus_self]
        exact Or.inr (Or.inr rfl)
    | isFalse hne =>
        rw [setStatus_of_ne hne]
        exact h.idleStates
  · intro i u hu
    have hne : u ≠ t := by
      intro heq
      subst heq
      exact hwait i hu
    rw [setStatus_of_ne hne]
    exact h.blocked i u hu

theorem Good.not_waiting (h : Good status queue sems idle r)
    (hold : status t ≠ TaskStatus.blocked) : forall i, Not (t ∈ (sems i).waiting) := by
  intro i hmem
  exact hold (h.blocked i t hmem).left

def setSemaphore (sems : Nat -> Semaphore) (i : Nat) (sem : Semaphore) :
    Nat -> Semaphore :=
  fun j => if j = i then sem else sems j

/-- A semaphore whose queue loses tasks, or keeps it. -/
theorem Good.shrinkSem (h : Good status queue sems idle r) {i : Nat} {sem : Semaphore}
    (hsound : sem.Sound) (hsub : sem.waiting.Sublist (sems i).waiting) :
    Good status queue (setSemaphore sems i sem) idle r := by
  have hmem : forall j u, u ∈ (setSemaphore sems i sem j).waiting ->
      u ∈ (sems j).waiting := by
    intro j u hu
    unfold setSemaphore at hu
    split at hu
    · rename_i heq
      rw [heq]
      exact hsub.subset hu
    · exact hu
  refine ⟨h.nodup, h.ready, h.running, h.idleStates, ?_, ?_, ?_, ?_⟩
  · intro j u hu
    exact h.blocked j u (hmem j u hu)
  · intro j
    unfold setSemaphore
    split
    · exact (h.waitNodup i).sublist hsub
    · exact h.waitNodup j
  · intro j k u hj hk
    exact h.waitOnce j k u (hmem j u hj) (hmem k u hk)
  · intro j
    unfold setSemaphore
    split
    · exact hsound
    · exact h.sound j

theorem Good.joinSem (h : Good status queue sems idle r) {i : Nat} {sem : Semaphore}
    (hsound : sem.Sound) (hwaiting : sem.waiting = (sems i).waiting ++ [t])
    (hblocked : status t = TaskStatus.blocked) (hidle : t ≠ idle)
    (hnew : forall j, Not (t ∈ (sems j).waiting)) :
    Good status queue (setSemaphore sems i sem) idle r := by
  have hmem : forall j u, u ∈ (setSemaphore sems i sem j).waiting ->
      u ∈ (sems j).waiting ∨ (u = t ∧ j = i) := by
    intro j u hu
    unfold setSemaphore at hu
    split at hu
    · rename_i heq
      rw [hwaiting] at hu
      rcases List.mem_append.mp hu with hold | hlast
      · rw [heq]
        exact Or.inl hold
      · exact Or.inr ⟨List.mem_singleton.mp hlast, heq⟩
    · exact Or.inl hu
  refine ⟨h.nodup, h.ready, h.running, h.idleStates, ?_, ?_, ?_, ?_⟩
  · intro j u hu
    rcases hmem j u hu with hold | ⟨rfl, _⟩
    · exact h.blocked j u hold
    · exact ⟨hblocked, hidle⟩
  · intro j
    unfold setSemaphore
    split
    · rw [hwaiting]
      refine (h.waitNodup i).append (List.nodup_singleton t) ?_
      intro u hu hlast
      rw [List.mem_singleton.mp hlast] at hu
      exact hnew i hu
    · exact h.waitNodup j
  · intro j k u hj hk
    rcases hmem j u hj with hold | ⟨rfl, rfl⟩
    · rcases hmem k u hk with hold' | ⟨rfl, rfl⟩
      · exact h.waitOnce j k u hold hold'
      · exact absurd hold (hnew j)
    · rcases hmem k u hk with hold' | ⟨_, rfl⟩
      · exact absurd hold' (hnew k)
      · rfl
  · intro j
    unfold setSemaphore
    split
    · exact hsound
    · exact h.sound j

end Changes

/-!
# The scheduler

No assertion fails, and what the function leaves behind is as stated; nothing is
said of a loop that does not end.
-/

def Safe {α : Type} (P : α -> Prop) (r : Except Fault α) : Prop :=
  Meets P (fun e => e = Fault.endless) r

theorem Safe.bind {α β : Type} {P : α -> Prop} {Q : β -> Prop} {r : Except Fault α}
    {f : α -> Except Fault β} (h : Safe P r) (hf : forall a, P a -> Safe Q (f a)) :
    Safe Q (r >>= f) :=
  Meets.bind h hf

theorem scanMax_mem {tasks : Nat -> Task} {queue : List Nat} {maxts : UInt32}
    {next : Option Nat} {t : Nat} (h : scanMax tasks queue maxts next = some t) :
    t ∈ queue ∨ next = some t := by
  induction queue generalizing maxts next with
  | nil => exact Or.inr h
  | cons u rest ih =>
      unfold scanMax at h
      split at h
      · rcases ih h with hrest | hu
        · exact Or.inl (List.mem_cons_of_mem u hrest)
        · rw [Option.some.inj hu]
          exact Or.inl List.mem_cons_self
      · rcases ih h with hrest | hnext
        · exact Or.inl (List.mem_cons_of_mem u hrest)
        · exact Or.inr hnext

theorem refill_status (s : State) : (refill s).status = s.status := by
  funext t
  unfold refill State.status
  simp only
  split
  · rfl
  · rfl

/-- `pick_task` takes a task from the queue and changes no state. -/
theorem pickFrom_safe (fuel : Nat) (s : State) :
    Safe (fun x => x.1 ∈ s.queue ∧ x.2.status = s.status ∧
      x.2.queue = s.queue.erase x.1 ∧ x.2.sems = s.sems ∧ x.2.idleTask = s.idleTask ∧
      x.2.panicked = s.panicked) (pickFrom fuel s) := by
  induction fuel generalizing s with
  | zero => exact rfl
  | succ fuel ih =>
      unfold pickFrom
      cases hscan : scanMax s.tasks s.queue 0 none with
      | some t =>
          rcases scanMax_mem hscan with hmem | hnone
          · exact ⟨hmem, rfl, rfl, rfl, rfl, rfl⟩
          · cases hnone
      | none =>
          have hrest := ih (refill s)
          rw [refill_status] at hrest
          exact hrest

theorem pickTask_safe (s : State) :
    Safe (fun x => (x.1 ∈ s.queue ∨ x.1 = s.idleTask) ∧ x.2.status = s.status ∧
      x.2.queue = s.queue.erase x.1 ∧ x.2.sems = s.sems ∧ x.2.idleTask = s.idleTask ∧
      x.2.panicked = s.panicked) (pickTask s) := by
  unfold pickTask
  split
  · rename_i hnil
    refine ⟨Or.inr rfl, ?_, ?_, rfl, rfl, rfl⟩
    · rw [status_setTask]
      funext u
      unfold setStatus
      split
      · rename_i heq
        rw [heq]
        rfl
      · rfl
    · show s.queue = s.queue.erase s.idleTask
      rw [hnil]
      rfl
  · refine Meets.mono (pickFrom_safe 2 s) ?_ (fun e he => he)
    intro x hboth
    rcases hboth with ⟨hmem, hrest⟩
    exact ⟨Or.inl hmem, hrest⟩

theorem scanMax_some (tasks : Nat -> Task) (queue : List Nat) (maxts : UInt32) (t : Nat) :
    scanMax tasks queue maxts (some t) ≠ none := by
  induction queue generalizing maxts t with
  | nil =>
      intro h
      cases h
  | cons u rest ih =>
      unfold scanMax
      split
      · exact ih (tasks u).timeSlice u
      · exact ih maxts t

/-- Time slices of zero that the next refill leaves at zero. -/
def Exhausted (s : State) : Prop :=
  forall t, t ∈ s.queue ->
    (s.tasks t).timeSlice = 0 ∧ ((refill s).tasks t).timeSlice = 0

theorem scanMax_none {tasks : Nat -> Task} {queue : List Nat} {maxts : UInt32}
    {next : Option Nat} (h : scanMax tasks queue maxts next = none) :
    forall t, t ∈ queue -> Not ((tasks t).timeSlice > maxts) := by
  induction queue generalizing maxts next with
  | nil =>
      intro t ht
      cases ht
  | cons u rest ih =>
      unfold scanMax at h
      split at h
      · exact absurd h (scanMax_some tasks rest _ u)
      · rename_i hle
        intro t ht
        rcases List.mem_cons.mp ht with rfl | hrest
        · exact hle
        · exact ih h t hrest

/-- A refill treats equal time slices of a task alike. -/
theorem refill_timeSlice {s : State} {t : Nat}
    (h : ((refill s).tasks t).timeSlice = (s.tasks t).timeSlice) :
    ((refill (refill s)).tasks t).timeSlice = (s.tasks t).timeSlice := by
  have htask : (refill s).tasks t = s.tasks t := by
    unfold refill at h ⊢
    simp only at h ⊢
    split
    · rename_i hcond
      rw [if_pos hcond] at h
      simp only at h
      rw [h]
    · rfl
  calc
    ((refill (refill s)).tasks t).timeSlice = ((refill s).tasks t).timeSlice := by
      unfold refill
      unfold refill at htask
      simp only at htask ⊢
      rw [htask]
      exact congrArg Task.timeSlice htask
    _ = (s.tasks t).timeSlice := h

theorem refill_exhausted {s : State} (h : Exhausted s) : Exhausted (refill s) := by
  intro t ht
  rcases h t ht with ⟨hzero, hnext⟩
  refine ⟨hnext, ?_⟩
  rw [refill_timeSlice (hnext.trans hzero.symm)]
  exact hzero

theorem scanMax_zero {tasks : Nat -> Task} {queue : List Nat}
    (h : forall t, t ∈ queue -> (tasks t).timeSlice = 0) :
    scanMax tasks queue 0 none = none := by
  induction queue with
  | nil => rfl
  | cons t rest ih =>
      have hle : Not ((tasks t).timeSlice > 0) := by
        rw [h t List.mem_cons_self]
        exact UInt32.lt_irrefl 0
      unfold scanMax
      rw [if_neg hle]
      exact ih (fun u hu => h u (List.mem_cons_of_mem t hu))

theorem pickFrom_exhausted (fuel : Nat) {s : State} (h : Exhausted s) :
    pickFrom fuel s = Except.error Fault.endless := by
  induction fuel generalizing s with
  | zero => rfl
  | succ fuel ih =>
      unfold pickFrom
      rw [scanMax_zero (fun t ht => (h t ht).left)]
      exact ih (refill_exhausted h)

/-- If two rounds of `pick_task` do not find a task, no number of rounds does. -/
theorem pickFrom_endless {s : State}
    (h : pickFrom 2 s = Except.error Fault.endless) (fuel : Nat) :
    pickFrom fuel s = Except.error Fault.endless := by
  apply pickFrom_exhausted
  unfold pickFrom at h
  cases hfirst : scanMax s.tasks s.queue 0 none with
  | some t =>
      rw [hfirst] at h
      cases h
  | none =>
      rw [hfirst] at h
      simp only [pickFrom] at h
      cases hsecond : scanMax (refill s).tasks (refill s).queue 0 none with
      | some t =>
          rw [hsecond] at h
          cases h
      | none =>
          intro t ht
          constructor
          · exact UInt32.le_zero_iff.mp (UInt32.not_lt.mp (scanMax_none hfirst t ht))
          · exact UInt32.le_zero_iff.mp (UInt32.not_lt.mp (scanMax_none hsecond t ht))

/-- A task is running, and it is the current one. -/
def Sound (panicked : Bool) (s : State) : Prop :=
  s.IsGood (some s.current) ∧ s.panicked = panicked

/-- What is left of the state after task `t` was woken up. -/
structure Woken (s : State) (t : Nat) (r : Option Nat) (s' : State) : Prop where
  good : s'.IsGood r
  status : s'.status = setStatus s.status t TaskStatus.ready
  current : s'.current = s.current
  initProc : s'.initProc = s.initProc
  idleTask : s'.idleTask = s.idleTask
  panicked : s'.panicked = s.panicked
  parent : forall u, (s'.tasks u).parent = (s.tasks u).parent

/-- Queueing a task that is not ready fails no assertion. -/
theorem enqueue_safe {s : State} {r r' : Option Nat} {t : Nat} (h : s.IsGood r)
    (hold : s.status t ≠ TaskStatus.ready) (hidle : t ≠ s.idleTask)
    (hwait : NotWaiting s t) (hr : forall u, r' = some u <-> r = some u ∧ u ≠ t) :
    exists s', schedEnqueue (s.setState t TaskStatus.ready) t = Except.ok s' ∧
      Woken s t r' s' := by
  have hmem : Not (t ∈ s.queue ∨ t = s.idleTask) := by
    intro hor
    rcases hor with hmem | heq
    · exact hold ((h.ready t).mp hmem)
    · exact hidle heq
  have hstatus := status_setState s t TaskStatus.ready
  refine ⟨{ s.setState t TaskStatus.ready with queue := t :: s.queue }, if_neg hmem, ?_,
    hstatus, rfl, rfl, rfl, rfl, ?_⟩
  · have hgood := Good.enqueue h hold hidle hwait hr
    rw [← hstatus] at hgood
    exact hgood
  · intro u
    unfold State.setState State.setTask
    simp only
    split
    · rename_i heq
      rw [heq]
    · rfl

theorem putPrev_safe {s : State} {r : Option Nat} (h : s.IsGood r)
    (hr : r = none ∨ r = some s.current) (hidle : NotWaiting s s.idleTask) :
    Safe (fun t => t.IsGood none ∧ t.panicked = s.panicked) (putPrev s) := by
  have hnone : forall u, (none : Option Nat) = some u <-> r = some u ∧ u ≠ s.current := by
    intro u
    rcases hr with rfl | rfl
    · exact ⟨fun hu => (nomatch hu), fun hu => (nomatch hu.left)⟩
    · exact ⟨fun hu => (nomatch hu), fun hu => absurd (Option.some.inj hu.left).symm hu.right⟩
  unfold putPrev
  split
  · rename_i heq
    have hgood : Good (setStatus s.status s.current TaskStatus.blocked) s.queue s.sems
        s.idleTask none := by
      refine Good.park h ?_ ⟨fun hb => (nomatch hb), fun hb => (nomatch hb)⟩
        (fun _ => rfl) ?_ hnone
      · rw [heq]
        exact h.idleNotReady
      · rw [heq]
        exact hidle
    rw [← status_setState] at hgood
    exact ⟨hgood, rfl⟩
  · rename_i hne
    split
    · rename_i hrun
      have hnew : s.status s.current ≠ TaskStatus.ready := by
        intro hready
        cases hready.symm.trans hrun
      have hwait : NotWaiting s s.current := by
        apply Good.not_waiting h
        intro hblocked
        cases hblocked.symm.trans hrun
      rcases enqueue_safe h hnew hne hwait hnone with ⟨s', heq, hwoken⟩
      rw [heq]
      exact ⟨hwoken.good, hwoken.panicked⟩
    · rename_i hrun
      rcases hr with rfl | rfl
      · exact ⟨h, rfl⟩
      · exact absurd ((h.running s.current).mpr rfl) hrun

theorem schedule_safe {s : State} {r : Option Nat} (h : s.IsGood r)
    (hr : r = none ∨ r = some s.current) : Safe (Sound s.panicked) (schedule s) := by
  have hidle : NotWaiting s s.idleTask := by
    intro i hmem
    exact (h.blocked i _ hmem).right rfl
  refine (putPrev_safe h hr hidle).bind ?_
  intro s1 hboth
  rcases hboth with ⟨h1, hp1⟩
  refine (pickTask_safe s1).bind ?_
  intro r hall
  rcases r with ⟨next, s2⟩
  rcases hall with ⟨hnext, hstatus, hqueue, hsems, hidle2, hp2⟩
  simp only at hnext hstatus hqueue hsems hidle2 hp2
  have hwait : forall i, Not (next ∈ (s1.sems i).waiting) := by
    rcases hnext with hmem | heq
    · apply Good.not_waiting h1
      rw [(h1.ready next).mp hmem]
      exact fun hb => (nomatch hb)
    · intro i hmem
      exact (h1.blocked i _ hmem).right heq
  have hgood := Good.dispatch h1 hwait
  rw [← hstatus, ← status_setState, ← hqueue, ← hsems, ← hidle2] at hgood
  exact ⟨hgood, hp2.trans hp1⟩

/-!
# The calls of tasks
-/

variable {s : State}

theorem some_iff_of_not_running {r : Option Nat} {t : Nat} (h : s.IsGood r)
    (hrun : s.status t ≠ TaskStatus.running) :
    forall u, r = some u <-> r = some u ∧ u ≠ t := by
  intro u
  refine ⟨fun hu => ⟨hu, ?_⟩, fun hu => hu.left⟩
  intro heq
  subst heq
  exact hrun ((h.running u).mpr hu)

theorem taskWakeup_safe {r : Option Nat} {t : Nat} (h : s.IsGood r)
    (hrun : s.status t ≠ TaskStatus.running) (hold : s.status t ≠ TaskStatus.ready)
    (hidle : t ≠ s.idleTask) (hwait : NotWaiting s t) :
    exists s', taskWakeup s t = Except.ok s' ∧ Woken s t r s' := by
  have hassert : Not ((s.tasks t).state = TaskStatus.running ∨
      (s.tasks t).state = TaskStatus.ready) := by
    intro hor
    rcases hor with heq | heq
    · exact hrun heq
    · exact hold heq
  unfold taskWakeup
  rw [if_neg hassert]
  exact enqueue_safe h hold hidle hwait (some_iff_of_not_running h hrun)

/-- The current task takes a state in which it does not run. -/
theorem suspend_good (h : s.IsGood (some s.current)) {b : TaskStatus}
    (hb : b ≠ TaskStatus.ready ∧ b ≠ TaskStatus.running)
    (hidle : s.current = s.idleTask -> b = TaskStatus.blocked) :
    Good (setStatus s.status s.current b) s.queue s.sems s.idleTask none := by
  have hrun : s.status s.current = TaskStatus.running := (h.running s.current).mpr rfl
  refine Good.park h ?_ hb hidle (Good.not_waiting h ?_) ?_
  · intro hready
    cases hready.symm.trans hrun
  · intro hblocked
    cases hblocked.symm.trans hrun
  · intro u
    exact ⟨fun hu => (nomatch hu),
      fun hu => absurd (Option.some.inj hu.left).symm hu.right⟩

theorem taskYield_safe (h : s.IsGood (some s.current)) :
    Safe (Sound s.panicked) (taskYield s) := by
  have hrun : (s.tasks s.current).state = TaskStatus.running :=
    (h.running s.current).mpr rfl
  unfold taskYield
  rw [if_pos hrun]
  exact schedule_safe h (Or.inr rfl)

theorem taskBlock_safe (h : s.IsGood (some s.current)) :
    Safe (Sound s.panicked) (taskBlock s) := by
  have hgood := suspend_good h (b := TaskStatus.blocked)
    ⟨fun hb => (nomatch hb), fun hb => (nomatch hb)⟩ (fun _ => rfl)
  rw [← status_setState] at hgood
  exact schedule_safe (s := s.setState s.current TaskStatus.blocked) hgood (Or.inl rfl)

theorem setStatus_same (status : Nat -> TaskStatus) (t : Nat) :
    setStatus status t (status t) = status := by
  funext u
  unfold setStatus
  split
  · rename_i heq
    rw [heq]
  · rfl

theorem timesliceCheck_safe (h : s.IsGood (some s.current)) :
    Safe (Sound s.panicked) (timesliceCheck s) := by
  unfold timesliceCheck
  simp only
  split
  · refine ⟨?_, rfl⟩
    unfold State.IsGood
    rw [status_setTask]
    show Good (setStatus s.status s.current (s.status s.current)) _ _ _ _
    rw [setStatus_same]
    exact h
  · exact schedule_safe h (Or.inr rfl)

theorem kthreadCreate_safe (priority : UInt32) (h : s.IsGood (some s.current)) :
    Sound s.panicked (kthreadCreate priority s) := by
  unfold kthreadCreate
  cases hfind : (List.range ntask).find?
      (fun t => (s.tasks t).state = TaskStatus.unused) with
  | none => exact ⟨h, rfl⟩
  | some t =>
      have htest := List.find?_some hfind
      have hunused : s.status t = TaskStatus.unused := of_decide_eq_true htest
      refine ⟨?_, rfl⟩
      have hgood : Good (setStatus s.status t TaskStatus.allocated) s.queue s.sems
          s.idleTask (some s.current) := by
        refine Good.park h ?_ ⟨fun hb => (nomatch hb), fun hb => (nomatch hb)⟩ ?_
          (Good.not_waiting h ?_) (some_iff_of_not_running h ?_)
        · rw [hunused]
          exact fun hb => (nomatch hb)
        · intro heq
          refine absurd heq (Good.ne_idle h ?_)
          rw [hunused]
          exact ⟨fun hb => (nomatch hb), fun hb => (nomatch hb), fun hb => (nomatch hb)⟩
        · rw [hunused]
          exact fun hb => (nomatch hb)
        · rw [hunused]
          exact fun hb => (nomatch hb)
      unfold State.IsGood
      show Good (s.setTask t _).status s.queue s.sems s.idleTask (some s.current)
      rw [status_setTask]
      exact hgood

theorem semWait_safe (i : Nat) (h : s.IsGood (some s.current))
    (hidle : s.current ≠ s.idleTask) : Safe (Sound s.panicked) (semWait i s) := by
  have hsound := Semaphore.wait_sound (h.sound i) s.current
  have hrun : s.status s.current = TaskStatus.running := (h.running s.current).mpr rfl
  unfold semWait
  unfold Semaphore.wait at hsound ⊢
  split
  · rename_i sem heq
    split at heq
    · cases heq
    · rename_i hval
      cases heq
      rw [if_neg hval] at hsound
      exact ⟨Good.shrinkSem h hsound (List.Sublist.refl _), rfl⟩
  · rename_i sem heq
    split at heq
    · rename_i hval
      cases heq
      rw [if_pos hval] at hsound
      change (s.tasks s.current).state = TaskStatus.running at hrun
      rw [if_pos hrun]
      have hwait := Good.not_waiting h (t := s.current) (by
        intro hblocked
        cases hblocked.symm.trans hrun)
      have hgood := suspend_good h (b := TaskStatus.blocked)
        ⟨fun hb => (nomatch hb), fun hb => (nomatch hb)⟩ (fun _ => rfl)
      have hjoin := Good.joinSem hgood (t := s.current) (i := i) hsound rfl
        (setStatus_self _ _ _) hidle hwait
      rw [← status_setState] at hjoin
      unfold taskBlock
      exact schedule_safe (s := (s.setSem i _).setState s.current TaskStatus.blocked)
        hjoin (Or.inl rfl)
    · cases heq

theorem semSignal_safe (i : Nat) (h : s.IsGood (some s.current)) :
    Safe (Sound s.panicked) (semSignal i s) := by
  unfold semSignal
  rcases Semaphore.signal_cases (h.sound i) with
    ⟨t, rest, hval, hwaiting, heq⟩ | ⟨hval, hwaiting, heq⟩
  · have hmem : t ∈ (s.sems i).waiting := by
      rw [hwaiting]
      exact List.mem_cons_self
    rcases h.blocked i t hmem with ⟨hblocked, hidle⟩
    have hsound := Semaphore.signal_sound (h.sound i) heq
    have hsub : rest.Sublist (s.sems i).waiting := by
      rw [hwaiting]
      exact List.sublist_cons_self t rest
    have hgood : (s.setSem i { val := (s.sems i).val + 1, waiting := rest }).IsGood
        (some s.current) := Good.shrinkSem h hsound hsub
    have hnot : NotWaiting (s.setSem i { val := (s.sems i).val + 1, waiting := rest }) t := by
      intro j hj
      unfold State.setSem at hj
      simp only at hj
      split at hj
      · have hnodup := h.waitNodup i
        rw [hwaiting] at hnodup
        exact (List.nodup_cons.mp hnodup).left hj
      · rename_i hne
        exact hne (h.waitOnce j i t hj hmem)
    rw [heq]
    simp only
    rw [if_pos (show (s.tasks t).state = TaskStatus.blocked from hblocked)]
    rcases taskWakeup_safe hgood (t := t)
      (fun hr => by cases hblocked.symm.trans hr)
      (fun hr => by cases hblocked.symm.trans hr) hidle hnot with
      ⟨s', hs', hwoken⟩
    rw [hs']
    refine ⟨?_, hwoken.panicked⟩
    rw [hwoken.current]
    exact hwoken.good
  · have hsound := Semaphore.signal_sound (h.sound i) heq
    rw [heq]
    refine ⟨Good.shrinkSem h hsound ?_, rfl⟩
    rw [hwaiting]

/-!
# Exit and wait
-/

def ZombieChild (s : State) (task t : Nat) : Prop :=
  (s.tasks t).parent = some task ∧ (s.tasks t).state = TaskStatus.zombie

instance (s : State) (task t : Nat) : Decidable (ZombieChild s task t) :=
  inferInstanceAs (Decidable (_ ∧ _))

/-- The zombies that `task_exit` of the current task would hand to `init`. -/
def zombieChildren (s : State) : List Nat :=
  (List.range ntask).filter (fun t => decide (ZombieChild s s.current t))

/--
The exiting task leaves no zombie, or leaves one while `init` waits for a child
and is not woken up as the parent already.
-/
def WakesInitOnce (s : State) : Action -> Prop
  | Action.exit _ => zombieChildren s = [] ∨
      ((zombieChildren s).length = 1 ∧
        (s.tasks s.initProc).state = TaskStatus.waiting ∧
        (s.tasks s.current).parent ≠ some s.initProc)
  | _ => True

/-- The child that `task_exit` visits gets a new parent. -/
def adopt (s : State) (t : Nat) : State :=
  s.setTask t { s.tasks t with parent := some s.initProc }

theorem adopt_status (s : State) (t : Nat) : (adopt s t).status = s.status := by
  unfold adopt
  rw [status_setTask]
  exact setStatus_same s.status t

theorem adopt_not_zombieChild {task t u : Nat} (htask : task ≠ s.initProc)
    (h : Not (ZombieChild s task u) ∨ u = t) : Not (ZombieChild (adopt s t) task u) := by
  intro hboth
  rcases hboth with ⟨hparent, hstate⟩
  unfold adopt State.setTask at hparent hstate
  simp only at hparent hstate
  split at hparent
  · exact htask (Option.some.inj hparent).symm
  · rename_i hne
    rw [if_neg hne] at hstate
    exact (h.resolve_right hne) ⟨hparent, hstate⟩

theorem adopt_zombieChild_iff {task t : Nat} (htask : task ≠ s.initProc)
    (hnot : Not (ZombieChild s task t)) (u : Nat) :
    ZombieChild (adopt s t) task u <-> ZombieChild s task u := by
  constructor
  · intro hz
    cases Classical.em (ZombieChild s task u) with
    | inl h => exact h
    | inr h => exact absurd hz (adopt_not_zombieChild htask (Or.inl h))
  · intro hz
    have hne : u ≠ t := by
      intro heq
      subst heq
      exact hnot hz
    unfold ZombieChild adopt State.setTask
    simp only [if_neg hne]
    exact hz

theorem adopt_isGood {r : Option Nat} (h : s.IsGood r) (t : Nat) : (adopt s t).IsGood r := by
  unfold State.IsGood
  rw [adopt_status]
  exact h

theorem reparent_cons (task t : Nat) (rest : List Nat) (s : State) :
    reparent task (t :: rest) s =
      if (s.tasks t).parent = some task then
        if ((adopt s t).tasks t).state = TaskStatus.zombie then
          taskWakeup (adopt s t) (adopt s t).initProc >>= reparent task rest
        else
          reparent task rest (adopt s t)
      else
        reparent task rest s := rfl

theorem reparent_zombie {task t : Nat} (h : ZombieChild s task t) (rest : List Nat) :
    reparent task (t :: rest) s =
      taskWakeup (adopt s t) (adopt s t).initProc >>= reparent task rest := by
  have hstate : ((adopt s t).tasks t).state = TaskStatus.zombie :=
    (congrFun (adopt_status s t) t).trans h.right
  rw [reparent_cons, if_pos h.left, if_pos hstate]

/-- A round of the loop at any other task wakes up nobody. -/
theorem reparent_other {task t : Nat} (h : Not (ZombieChild s task t)) (rest : List Nat) :
    reparent task (t :: rest) s =
      if (s.tasks t).parent = some task then reparent task rest (adopt s t)
      else reparent task rest s := by
  rw [reparent_cons]
  split
  · rename_i hparent
    have hstate : Not (((adopt s t).tasks t).state = TaskStatus.zombie) := by
      intro hz
      exact h ⟨hparent, (congrFun (adopt_status s t) t).symm.trans hz⟩
    exact if_neg hstate
  · rfl

/-- Without zombies among the visited children only parents change. -/
theorem reparent_quiet {task : Nat} (htask : task ≠ s.initProc) (ts : List Nat)
    (h : forall t, t ∈ ts -> Not (ZombieChild s task t)) :
    exists s', reparent task ts s = Except.ok s' ∧ s'.status = s.status ∧
      s'.queue = s.queue ∧ s'.sems = s.sems ∧ s'.idleTask = s.idleTask ∧
      s'.current = s.current ∧ s'.panicked = s.panicked := by
  induction ts generalizing s with
  | nil => exact ⟨s, rfl, rfl, rfl, rfl, rfl, rfl, rfl⟩
  | cons t rest ih =>
      have hrest : forall u, u ∈ rest -> Not (ZombieChild s task u) :=
        fun u hu => h u (List.mem_cons_of_mem t hu)
      rw [reparent_other (h t List.mem_cons_self)]
      split
      · rcases ih (s := adopt s t) htask
          (fun u hu => adopt_not_zombieChild htask (Or.inl (hrest u hu))) with
          ⟨s', hs', hstatus, hrest'⟩
        rw [adopt_status] at hstatus
        exact ⟨s', hs', hstatus, hrest'⟩
      · exact ih htask hrest

theorem wakeWaiting_safe {r : Option Nat} {t : Nat} (h : s.IsGood r)
    (hwaiting : s.status t = TaskStatus.waiting) :
    exists s', taskWakeup s t = Except.ok s' ∧ Woken s t r s' := by
  refine taskWakeup_safe h ?_ ?_ (Good.ne_idle h ?_) (Good.not_waiting h ?_)
  · rw [hwaiting]
    exact fun hb => (nomatch hb)
  · rw [hwaiting]
    exact fun hb => (nomatch hb)
  · rw [hwaiting]
    exact ⟨fun hb => (nomatch hb), fun hb => (nomatch hb), fun hb => (nomatch hb)⟩
  · rw [hwaiting]
    exact fun hb => (nomatch hb)

/-- What the loop of `task_exit` leaves of the state. -/
def Reparented (s s' : State) (r : Option Nat) : Prop :=
  s'.IsGood r ∧ (forall u, s.status u = TaskStatus.running ->
    s'.status u = TaskStatus.running) ∧ s'.current = s.current ∧ s'.panicked = s.panicked ∧
    s'.idleTask = s.idleTask

theorem reparented_of_quiet {r : Option Nat} {s' : State} (h : s.IsGood r)
    (hquiet : s'.status = s.status ∧ s'.queue = s.queue ∧ s'.sems = s.sems ∧
      s'.idleTask = s.idleTask ∧ s'.current = s.current ∧ s'.panicked = s.panicked) :
    Reparented s s' r := by
  rcases hquiet with ⟨hstatus, hqueue, hsems, hidle, hcur, hpanic⟩
  refine ⟨?_, ?_, hcur, hpanic, hidle⟩
  · unfold State.IsGood
    rw [hstatus, hqueue, hsems, hidle]
    exact h
  · intro u hu
    rw [hstatus]
    exact hu

theorem quiet_of_one {task t : Nat} {rest : List Nat} (hz : ZombieChild s task t)
    (hone : ((t :: rest).filter (fun u => decide (ZombieChild s task u))).length = 1) (u : Nat)
    (hu : u ∈ rest) : Not (ZombieChild s task u) := by
  intro huz
  rw [List.filter_cons, if_pos (decide_eq_true hz), List.length_cons] at hone
  have hmem : u ∈ rest.filter (fun t => decide (ZombieChild s task t)) :=
    List.mem_filter.mpr ⟨hu, decide_eq_true huz⟩
  have hpos := List.length_pos_of_mem hmem
  lia

/-- The rest of the loop once `init_proc` is woken up. -/
theorem reparent_woken {r : Option Nat} {task t : Nat} {rest : List Nat} {s1 : State}
    (htask : task ≠ s.initProc) (hinit : s.status s.initProc = TaskStatus.waiting)
    (hrest : forall u, u ∈ rest -> Not (ZombieChild s task u))
    (hwoken : Woken (adopt s t) (adopt s t).initProc r s1) :
    exists s2, reparent task rest s1 = Except.ok s2 ∧ Reparented s s2 r := by
  have hquiet : forall u, u ∈ rest -> Not (ZombieChild s1 task u) := by
    intro u hu huz
    rcases huz with ⟨hparent, hzu⟩
    rw [hwoken.parent u] at hparent
    refine adopt_not_zombieChild htask (Or.inl (hrest u hu)) ⟨hparent, ?_⟩
    have hzu' : s1.status u = TaskStatus.zombie := hzu
    rw [hwoken.status] at hzu'
    unfold setStatus at hzu'
    split at hzu'
    · cases hzu'
    · exact hzu'
  have htask1 : task ≠ s1.initProc := by
    rw [hwoken.initProc]
    exact htask
  rcases reparent_quiet htask1 rest hquiet with ⟨s2, hs2, hsame⟩
  rcases reparented_of_quiet hwoken.good hsame with ⟨hgood2, hrun2, hcur2, hpanic2, hidle2⟩
  refine ⟨s2, hs2, hgood2, ?_, hcur2.trans hwoken.current, hpanic2.trans hwoken.panicked,
    hidle2.trans hwoken.idleTask⟩
  intro u hu
  apply hrun2
  rw [hwoken.status, adopt_status]
  unfold setStatus
  split
  · rename_i heq
    rw [heq] at hu
    cases hu.symm.trans hinit
  · exact hu

theorem reparent_one {r : Option Nat} {task : Nat} (h : s.IsGood r)
    (htask : task ≠ s.initProc) (hinit : s.status s.initProc = TaskStatus.waiting)
    (ts : List Nat) (hone : (ts.filter (fun t => decide (ZombieChild s task t))).length = 1) :
    exists s', reparent task ts s = Except.ok s' ∧ Reparented s s' r := by
  induction ts generalizing s with
  | nil => cases hone
  | cons t rest ih =>
      have hgood := adopt_isGood h t
      have hwaiting : (adopt s t).status (adopt s t).initProc = TaskStatus.waiting := by
        rw [adopt_status]
        exact hinit
      cases Classical.em (ZombieChild s task t) with
      | inl hz =>
          rcases wakeWaiting_safe hgood hwaiting with ⟨s1, hs1, hwoken⟩
          rw [reparent_zombie hz, hs1]
          exact reparent_woken htask hinit (quiet_of_one hz hone) hwoken
      | inr hz =>
          rw [List.filter_cons, if_neg (fun hd => hz (of_decide_eq_true hd))] at hone
          rw [reparent_other hz]
          split
          · have hone' : (rest.filter
                (fun u => decide (ZombieChild (adopt s t) task u))).length = 1 := by
              rw [← hone]
              congr 2
              funext u
              rw [decide_eq_decide]
              exact adopt_zombieChild_iff htask hz u
            rcases ih hgood htask hwaiting hone' with ⟨s', hs', hgood', hrun, hrest⟩
            rw [adopt_status] at hrun
            exact ⟨s', hs', hgood', hrun, hrest⟩
          · exact ih h htask hinit hone

/-- `task_exit` wakes the parent, which does not disturb the children. -/
theorem wakeParent_safe {r : Option Nat} (h : s.IsGood r) (parent : Nat) :
    exists s', wakeParent parent s = Except.ok s' ∧ Reparented s s' r ∧
      s'.initProc = s.initProc ∧
      (parent ≠ s.initProc -> s'.status s.initProc = s.status s.initProc) ∧
      (forall task t, ZombieChild s' task t <-> ZombieChild s task t) := by
  unfold wakeParent
  split
  · rename_i hwaiting
    rcases wakeWaiting_safe h (t := parent) hwaiting with ⟨s', hs', hwoken⟩
    refine ⟨s', hs', ⟨hwoken.good, ?_, hwoken.current, hwoken.panicked, hwoken.idleTask⟩,
      hwoken.initProc, ?_, ?_⟩
    · intro u hu
      rw [hwoken.status, setStatus_of_ne]
      · exact hu
      · intro heq
        subst heq
        cases hu.symm.trans hwaiting
    · intro hne
      rw [hwoken.status, setStatus_of_ne (Ne.symm hne)]
    · intro task t
      have hstate : (s'.tasks t).state = setStatus s.status parent TaskStatus.ready t :=
        congrFun hwoken.status t
      unfold ZombieChild
      rw [hwoken.parent t, hstate]
      unfold setStatus
      split
      · rename_i heq
        subst heq
        refine ⟨fun hz => (nomatch hz.right), fun hz => ?_⟩
        cases hz.right.symm.trans hwaiting
      · exact Iff.rfl
  · exact ⟨s, rfl, ⟨h, fun _ hu => hu, rfl, rfl, rfl⟩, rfl, fun _ => rfl,
      fun _ _ => Iff.rfl⟩

theorem becomeZombie_safe (status : Int) (h : s.IsGood (some s.current))
    (hidle : s.current ≠ s.idleTask) :
    Safe (Sound s.panicked) (schedule (becomeZombie s.current status s)) := by
  have hgood := suspend_good h (b := TaskStatus.zombie)
    ⟨fun hb => (nomatch hb), fun hb => (nomatch hb)⟩ (fun heq => absurd heq hidle)
  refine schedule_safe (s := becomeZombie s.current status s) (r := none) ?_ (Or.inl rfl)
  unfold State.IsGood becomeZombie
  rw [status_setTask]
  exact hgood

theorem taskExit_safe (status : Int) (h : s.IsGood (some s.current))
    (hlegal : Legal s (Action.exit status)) (honce : WakesInitOnce s (Action.exit status)) :
    Safe (Sound s.panicked) (taskExit status s) := by
  rcases hlegal with ⟨hidle, htask, hparent⟩
  unfold taskExit
  cases hpar : (s.tasks s.current).parent with
  | none => exact absurd hpar hparent
  | some parent =>
      simp only
      rw [if_neg htask]
      rcases wakeParent_safe h parent with
        ⟨s1, hs1, ⟨hgood1, hrun1, hcur1, hpanic1, hidle1⟩, hinit1, hwait1, hzombie1⟩
      have htask1 : s.current ≠ s1.initProc := by
        rw [hinit1]
        exact htask
      have hsame : (fun t => decide (ZombieChild s1 s.current t)) =
          fun t => decide (ZombieChild s s.current t) := by
        funext t
        rw [decide_eq_decide]
        exact hzombie1 s.current t
      have hloop : exists s2, reparent s.current (List.range ntask) s1 = Except.ok s2 ∧
          Reparented s1 s2 (some s.current) := by
        rcases honce with hnone | ⟨hone, hwaiting, hother⟩
        · have hquiet : forall t, t ∈ List.range ntask ->
              Not (ZombieChild s1 s.current t) := by
            intro t ht hz
            have hmem : t ∈ zombieChildren s :=
              List.mem_filter.mpr ⟨ht, decide_eq_true ((hzombie1 s.current t).mp hz)⟩
            rw [hnone] at hmem
            cases hmem
          rcases reparent_quiet htask1 (List.range ntask) hquiet with ⟨s2, hs2, hsame2⟩
          exact ⟨s2, hs2, reparented_of_quiet hgood1 hsame2⟩
        · refine reparent_one hgood1 htask1 ?_ (List.range ntask) ?_
          · rw [hinit1, hwait1 ?_]
            · exact hwaiting
            · intro heq
              subst heq
              exact hother hpar
          · rw [hsame]
            exact hone
      rcases hloop with ⟨s2, hs2, hgood2, _, hcur2, hpanic2, hidle2⟩
      have hcur : s2.current = s.current := hcur2.trans hcur1
      rw [hs1]
      show Safe _ (reparent s.current (List.range ntask) s1 >>= _)
      rw [hs2]
      show Safe _ (schedule (becomeZombie s.current status s2))
      rw [← hpanic1, ← hpanic2, ← hcur]
      rw [← hcur] at hgood2
      refine becomeZombie_safe status hgood2 ?_
      rw [hcur, hidle2, hidle1]
      exact hidle

theorem taskWait_safe (h : s.IsGood (some s.current)) (hidle : s.current ≠ s.idleTask) :
    Safe (Sound s.panicked) (perform s Action.wait) := by
  unfold perform taskWait
  cases hfind : (children s).find? (fun t => (s.tasks t).state = TaskStatus.zombie) with
  | some t =>
      have htest := List.find?_some hfind
      have hzombie : s.status t = TaskStatus.zombie := of_decide_eq_true htest
      have hfree : Not ((s.tasks t).state ≠ TaskStatus.zombie ∧
          (s.tasks t).state ≠ TaskStatus.allocated) := fun hne => hne.left hzombie
      simp only [taskFree, if_neg hfree]
      refine ⟨?_, rfl⟩
      show Good (s.setTask t _).status s.queue s.sems s.idleTask (some s.current)
      rw [status_setTask]
      refine Good.park h ?_ ⟨fun hb => (nomatch hb), fun hb => (nomatch hb)⟩ ?_
        (Good.not_waiting h ?_) (some_iff_of_not_running h ?_)
      · rw [hzombie]
        exact fun hb => (nomatch hb)
      · intro heq
        refine absurd heq (Good.ne_idle h ?_)
        rw [hzombie]
        exact ⟨fun hb => (nomatch hb), fun hb => (nomatch hb), fun hb => (nomatch hb)⟩
      · rw [hzombie]
        exact fun hb => (nomatch hb)
      · rw [hzombie]
        exact fun hb => (nomatch hb)
  | none =>
      simp only
      split
      · exact ⟨h, rfl⟩
      · have hgood := suspend_good h (b := TaskStatus.waiting)
          ⟨fun hb => (nomatch hb), fun hb => (nomatch hb)⟩ (fun heq => absurd heq hidle)
        rw [← status_setState] at hgood
        have hsched := schedule_safe (s := s.setState s.current TaskStatus.waiting) hgood
          (Or.inl rfl)
        refine Safe.bind (P := fun x => Sound s.panicked x.2) (Safe.bind hsched ?_) ?_
        · intro s1 hs1
          exact hs1
        · intro x hx
          exact hx

/-!
# Whole histories
-/

theorem perform_safe (h : s.IsGood (some s.current)) (a : Action) (hlegal : Legal s a)
    (honce : WakesInitOnce s a) : Safe (Sound s.panicked) (perform s a) := by
  cases a with
  | wakeup t =>
      have hready : exists s', taskWakeup s t = Except.ok s' ∧
          Woken s t (some s.current) s' := by
        rcases hlegal with ⟨hidle, hnew | ⟨hblocked, hwait⟩⟩
        · have hnew' : s.status t = TaskStatus.allocated := hnew
          refine taskWakeup_safe h ?_ ?_ hidle (Good.not_waiting h ?_)
          · rw [hnew']
            exact fun hb => (nomatch hb)
          · rw [hnew']
            exact fun hb => (nomatch hb)
          · rw [hnew']
            exact fun hb => (nomatch hb)
        · have hblocked' : s.status t = TaskStatus.blocked := hblocked
          refine taskWakeup_safe h ?_ ?_ hidle hwait
          · rw [hblocked']
            exact fun hb => (nomatch hb)
          · rw [hblocked']
            exact fun hb => (nomatch hb)
      rcases hready with ⟨s', hs', hwoken⟩
      show Safe _ (taskWakeup s t)
      rw [hs']
      refine ⟨?_, hwoken.panicked⟩
      rw [hwoken.current]
      exact hwoken.good
  | create priority => exact kthreadCreate_safe priority h
  | yield => exact taskYield_safe h
  | block => exact taskBlock_safe h
  | timer => exact timesliceCheck_safe h
  | semWait i => exact semWait_safe i h hlegal
  | semSignal i => exact semSignal_safe i h
  | exit status => exact taskExit_safe status h hlegal honce
  | wait => exact taskWait_safe h hlegal

theorem step_sound {t : State} {a : Action} (h : Sound false s) (hlegal : Legal s a)
    (honce : WakesInitOnce s a) (hstep : step s a = some t) : Sound false t := by
  have hsafe := perform_safe h.left a hlegal honce
  unfold step at hstep
  rw [h.right, if_neg Bool.false_ne_true] at hstep
  rw [h.right] at hsafe
  cases hres : perform s a with
  | ok t' =>
      rw [hres] at hstep
      cases hstep
      exact hsafe.of_ok hres
  | error e =>
      rw [hres, hsafe.of_error hres] at hstep
      cases hstep

theorem boot_sound {sems : Nat -> Int} (hsems : forall i, 0 ≤ sems i) :
    Sound false (boot sems) := by
  refine ⟨⟨List.nodup_nil, ?_, ?_, ?_, ?_, ?_, ?_, ?_⟩, rfl⟩
  · intro t
    refine ⟨fun hmem => (nomatch hmem), ?_⟩
    intro hready
    unfold State.status boot at hready
    simp only at hready
    split at hready
    · cases hready
    · split at hready
      · cases hready
      · cases hready
  · intro t
    unfold State.status boot
    simp only
    split
    · rename_i heq
      rw [heq]
      exact ⟨fun _ => rfl, fun _ => rfl⟩
    · rename_i hne
      split
      · exact ⟨fun hb => (nomatch hb), fun hb => absurd (Option.some.inj hb).symm hne⟩
      · exact ⟨fun hb => (nomatch hb), fun hb => absurd (Option.some.inj hb).symm hne⟩
  · exact Or.inl rfl
  · intro i t hmem
    cases hmem
  · intro i
    exact List.nodup_nil
  · intro i j t hmem
    cases hmem
  · intro i
    exact Semaphore.init_sound (hsems i)

/-- The ready queue keeps its integrity while no exit wakes `init` out of turn. -/
theorem readyQueue_sound {sems : Nat -> Int} (hsems : forall i, 0 ≤ sems i) {s : State}
    (h : Reaches step (fun s a => Legal s a ∧ WakesInitOnce s a) (boot sems) s) :
    QueueSound s := by
  have hsound : Sound false s := by
    refine h.invariant (P := Sound false) (boot_sound hsems) ?_
    intro r t a hr hboth hstep
    rcases hboth with ⟨hlegal, honce⟩
    exact step_sound hr hlegal honce hstep
  rcases hsound with ⟨hgood, hpanic⟩
  refine ⟨hgood.nodup, hgood.ready, ?_, ?_, hpanic⟩
  · intro t
    rw [show (s.tasks t).state = TaskStatus.running <-> some s.current = some t from
      hgood.running t]
    exact ⟨fun heq => (Option.some.inj heq).symm, fun heq => congrArg some heq.symm⟩
  · intro hmem
    exact hgood.idleNotReady ((hgood.ready _).mp hmem)

/-- A test for the promises of the callers, without direct wake-ups of blocked tasks. -/
def legalTest (s : State) : Action -> Bool
  | Action.wakeup t =>
      decide (t ≠ s.idleTask ∧ (s.tasks t).state = TaskStatus.allocated)
  | Action.semWait _ => decide (s.current ≠ s.idleTask)
  | Action.exit _ => decide (s.current ≠ s.idleTask ∧ s.current ≠ s.initProc ∧
      (s.tasks s.current).parent ≠ none)
  | Action.wait => decide (s.current ≠ s.idleTask)
  | _ => true

theorem legal_of_legalTest (s : State) (a : Action) (h : legalTest s a = true) :
    Legal s a := by
  cases a with
  | wakeup t =>
      rcases of_decide_eq_true h with ⟨hidle, hnew⟩
      exact ⟨hidle, Or.inl hnew⟩
  | create priority => trivial
  | yield => trivial
  | block => trivial
  | timer => trivial
  | semWait i =>
      have hidle := of_decide_eq_true h
      exact hidle
  | semSignal i => trivial
  | exit status =>
      have hexit := of_decide_eq_true h
      exact hexit
  | wait =>
      have hidle := of_decide_eq_true h
      exact hidle

/-- The exits that wake `init` at most once, among the promises of the callers. -/
def wakesOnceTest (s : State) (a : Action) : Bool :=
  legalTest s a &&
    match a with
    | Action.exit _ => decide (zombieChildren s = [] ∨
        ((zombieChildren s).length = 1 ∧
          (s.tasks s.initProc).state = TaskStatus.waiting ∧
          (s.tasks s.current).parent ≠ some s.initProc))
    | _ => true

theorem wakesOnce_of_test (s : State) (a : Action) (h : wakesOnceTest s a = true) :
    Legal s a ∧ WakesInitOnce s a := by
  rcases Bool.and_eq_true_iff.mp h with ⟨hlegal, honce⟩
  have hlegal := legal_of_legalTest s a hlegal
  cases a with
  | exit status =>
      have hwakes := of_decide_eq_true honce
      exact ⟨hlegal, hwakes⟩
  | _ => exact ⟨hlegal, trivial⟩

/--
Task 3 is a child of `init` and has a child of its own, task 4.  Task 4 exits
while `init` waits.
-/
def childExits : List Action :=
  [Action.wakeup 2, Action.block, Action.create 10, Action.wakeup 3, Action.wait,
    Action.create 10, Action.wakeup 4, Action.timer, Action.yield, Action.exit 0]

theorem readyQueue_sound_childExits :
    exists s, runFrom step (boot (fun _ => 1)) childExits = some s ∧ QueueSound s := by
  have hcheck : runCheck step wakesOnceTest (boot (fun _ => 1)) childExits = true := by decide
  have hsome : (runFrom step (boot (fun _ => 1)) childExits).isSome = true := by decide
  rcases reaches_of_runCheck wakesOnce_of_test hcheck hsome with ⟨s, hrun, hreach⟩
  exact ⟨s, hrun, readyQueue_sound (fun _ => Int.one_nonneg) hreach⟩

/-- Then task 3 exits as well, and leaves the zombie to `init`. -/
def orphanedZombie : List Action := childExits ++ [Action.exit 0]

theorem orphanedZombie_panics :
    runCheck step legalTest (boot (fun _ => 1)) orphanedZombie = true ∧
      (runFrom step (boot (fun _ => 1)) orphanedZombie).map State.panicked = some true :=
  ⟨by decide, by decide⟩

/-- `init` is woken up as the parent and once more for the zombie. -/
theorem readyQueue_not_sound :
    Not (forall sems, (forall i, 0 ≤ sems i) -> forall s,
      Reaches step Legal (boot sems) s -> QueueSound s) := by
  intro hall
  rcases orphanedZombie_panics with ⟨hcheck, hpanics⟩
  cases hrun : runFrom step (boot (fun _ => 1)) orphanedZombie with
  | none =>
      rw [hrun] at hpanics
      cases hpanics
  | some s =>
      rw [hrun] at hpanics
      have hmeets := runMeets_of_runCheck legal_of_legalTest hcheck
      have hsound := hall (fun _ => 1) (fun _ => Int.one_nonneg) s
        (runFrom_reaches hmeets hrun)
      have hpanicked : s.panicked = true := Option.some.inj hpanics
      rw [hsound.noPanic] at hpanicked
      cases hpanicked

end Sched
end Kernel
end NicoOS
