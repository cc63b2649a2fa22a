import NicoOS.Kernel.Sched.ExitWait
import NicoOS.Kernel.Sched.QueueIntegrity
import NicoOS.Lib.Outcome
import Mathlib.Data.List.Nodup

/-!
# The exit and wait protocol

Scheduling and waking up tasks changes neither parents nor exit codes, and it
leaves zombies and free slots alone.
-/

namespace NicoOS
namespace Kernel
namespace ExitWait

open Lib
open Sched (TaskStatus Fault Task ntask)

/-!
# What scheduling leaves
-/

/-- The state of a task before and after it was scheduled or woken up. -/
def Moves (a b : TaskStatus) : Prop :=
  b = a ∨ (a ≠ TaskStatus.zombie ∧ a ≠ TaskStatus.unused ∧
    (b = TaskStatus.ready ∨ b = TaskStatus.running ∨ b = TaskStatus.blocked))

theorem Moves.trans {a b c : TaskStatus} (hab : Moves a b) (hbc : Moves b c) : Moves a c := by
  rcases hab with rfl | ⟨hz, hu, _⟩
  · exact hbc
  · rcases hbc with rfl | ⟨_, _, hc⟩
    · right
      exact ⟨hz, hu, by assumption⟩
    · right
      exact ⟨hz, hu, hc⟩

theorem Moves.zombie_iff {a b : TaskStatus} (h : Moves a b) :
    b = TaskStatus.zombie <-> a = TaskStatus.zombie := by
  rcases h with rfl | ⟨hz, _, rfl | rfl | rfl⟩ <;> simp_all

theorem Moves.unused_iff {a b : TaskStatus} (h : Moves a b) :
    b = TaskStatus.unused <-> a = TaskStatus.unused := by
  rcases h with rfl | ⟨_, hu, rfl | rfl | rfl⟩ <;> simp_all

theorem Moves.of_waiting {a b : TaskStatus} (h : Moves a b) (hb : b = TaskStatus.waiting) :
    a = TaskStatus.waiting := by
  rcases h with rfl | ⟨_, _, rfl | rfl | rfl⟩
  · exact hb
  · cases hb
  · cases hb
  · cases hb

theorem Moves.of_allocated {a b : TaskStatus} (h : Moves a b) (hb : b = TaskStatus.allocated) :
    a = TaskStatus.allocated := by
  rcases h with rfl | ⟨_, _, rfl | rfl | rfl⟩
  · exact hb
  · cases hb
  · cases hb
  · cases hb

/-- The fields that the protocol is about. -/
structure Calm (k k' : Sched.State) : Prop where
  parent : forall t, (k'.tasks t).parent = (k.tasks t).parent
  pid : forall t, (k'.tasks t).pid = (k.tasks t).pid
  exitStatus : forall t, (k'.tasks t).exitStatus = (k.tasks t).exitStatus
  state : forall t, Moves (k.tasks t).state (k'.tasks t).state
  initProc : k'.initProc = k.initProc
  idleTask : k'.idleTask = k.idleTask

theorem Calm.refl (k : Sched.State) : Calm k k :=
  ⟨fun _ => rfl, fun _ => rfl, fun _ => rfl, fun _ => Or.inl rfl, rfl, rfl⟩

theorem Calm.trans {k k' k'' : Sched.State} (h : Calm k k') (h' : Calm k' k'') : Calm k k'' :=
  ⟨fun t => (h'.parent t).trans (h.parent t), fun t => (h'.pid t).trans (h.pid t),
    fun t => (h'.exitStatus t).trans (h.exitStatus t), fun t => (h.state t).trans (h'.state t),
    h'.initProc.trans h.initProc, h'.idleTask.trans h.idleTask⟩

def Neutral (a : TaskStatus) : Prop :=
  a ≠ TaskStatus.zombie ∧ a ≠ TaskStatus.unused ∧ a ≠ TaskStatus.waiting

theorem neutral_blocked : Neutral TaskStatus.blocked := by simp [Neutral]

theorem neutral_running : Neutral TaskStatus.running := by simp [Neutral]

/-- Queued tasks are ready, and the idle task takes no part in the protocol. -/
structure Queued (k : Sched.State) : Prop where
  nodup : k.queue.Nodup
  ready : forall t, t ∈ k.queue -> (k.tasks t).state = TaskStatus.ready
  idleOut : Not (k.idleTask ∈ k.queue)
  idle : Neutral (k.tasks k.idleTask).state

section Kernel

variable {k k' : Sched.State} {t : Nat}

theorem setTask_tasks (k : Sched.State) (t u : Nat) (task : Task) :
    ((k.setTask t task).tasks u) = if u = t then task else k.tasks u := rfl

theorem setState_state (k : Sched.State) (t u : Nat) (b : TaskStatus) :
    ((k.setState t b).tasks u).state = if u = t then b else (k.tasks u).state := by
  show (if u = t then { k.tasks t with state := b } else k.tasks u).state = _
  split
  · rfl
  · rfl

theorem setState_calm (k : Sched.State) {b : TaskStatus} (h : Moves (k.tasks t).state b) :
    Calm k (k.setState t b) := by
  have hfield : forall {α : Type} (f : Task -> α),
      f { k.tasks t with state := b } = f (k.tasks t) ->
      forall u, f ((k.setState t b).tasks u) = f (k.tasks u) := by
    intro α f hf u
    show f (if u = t then { k.tasks t with state := b } else k.tasks u) = f (k.tasks u)
    split
    · rename_i heq
      rw [heq]
      exact hf
    · rfl
  refine ⟨hfield Task.parent rfl, hfield Task.pid rfl, hfield Task.exitStatus rfl, ?_, rfl, rfl⟩
  intro u
  rw [setState_state]
  split
  · rename_i heq
    rw [heq]
    exact h
  · exact Or.inl rfl

/-- What is left of the state after a task was woken up. -/
structure Wakes (k : Sched.State) (t : Nat) (k' : Sched.State) : Prop where
  queued : Queued k'
  calm : Calm k k'
  current : k'.current = k.current
  ready : (k'.tasks t).state = TaskStatus.ready
  others : forall u, u ≠ t -> (k'.tasks u).state = (k.tasks u).state

theorem enqueue_wakes (h : Queued k) (hold : Moves (k.tasks t).state TaskStatus.ready)
    (henq : Sched.schedEnqueue (k.setState t TaskStatus.ready) t = Except.ok k') :
    Wakes k t k' := by
  unfold Sched.schedEnqueue at henq
  split at henq
  · cases henq
  · rename_i hnew
    have hmem : Not (t ∈ k.queue) := fun hmem => hnew (Or.inl hmem)
    have hidle : k.idleTask ≠ t := fun heq => hnew (Or.inr heq.symm)
    cases henq
    have hcalm := setState_calm k hold
    refine ⟨⟨List.nodup_cons.mpr ⟨hmem, h.nodup⟩, ?_, ?_, ?_⟩, ?_, rfl, ?_, ?_⟩
    · intro u hu
      show ((k.setState t TaskStatus.ready).tasks u).state = _
      rw [setState_state]
      split
      · rfl
      · rename_i hne
        exact h.ready u ((List.mem_cons.mp hu).resolve_left hne)
    · intro hcons
      rcases List.mem_cons.mp hcons with heq | hmem'
      · exact hidle heq
      · exact h.idleOut hmem'
    · change Neutral ((k.setState t TaskStatus.ready).tasks k.idleTask).state
      rw [setState_state, if_neg hidle]
      exact h.idle
    · exact ⟨hcalm.parent, hcalm.pid, hcalm.exitStatus, hcalm.state, rfl, rfl⟩
    · show ((k.setState t TaskStatus.ready).tasks t).state = _
      rw [setState_state, if_pos rfl]
    · intro u hu
      show ((k.setState t TaskStatus.ready).tasks u).state = _
      rw [setState_state, if_neg hu]

theorem moves_ready {a : TaskStatus} (hz : a ≠ TaskStatus.zombie) (hu : a ≠ TaskStatus.unused) :
    Moves a TaskStatus.ready :=
  Or.inr ⟨hz, hu, Or.inl rfl⟩

theorem taskWakeup_wakes (h : Queued k) (hz : (k.tasks t).state ≠ TaskStatus.zombie)
    (hu : (k.tasks t).state ≠ TaskStatus.unused)
    (hwake : Sched.taskWakeup k t = Except.ok k') : Wakes k t k' := by
  unfold Sched.taskWakeup at hwake
  split at hwake
  · cases hwake
  · exact enqueue_wakes h (moves_ready hz hu) hwake

theorem putPrev_calm (h : Queued k) (hprev : Sched.putPrev k = Except.ok k') :
    Queued k' ∧ Calm k k' := by
  unfold Sched.putPrev at hprev
  split at hprev
  · rename_i hidle
    cases hprev
    have hmoves : Moves (k.tasks k.current).state TaskStatus.blocked := by
      rw [hidle]
      exact Or.inr ⟨h.idle.left, h.idle.right.left, Or.inr (Or.inr rfl)⟩
    refine ⟨⟨h.nodup, ?_, h.idleOut, ?_⟩, setState_calm k hmoves⟩
    · intro u hu
      rw [setState_state, if_neg ?_]
      · exact h.ready u hu
      · intro heq
        rw [heq, hidle] at hu
        exact h.idleOut hu
    · change Neutral ((k.setState k.current TaskStatus.blocked).tasks k.idleTask).state
      rw [setState_state, if_pos hidle.symm]
      exact neutral_blocked
  · split at hprev
    · rename_i hrun
      have hstate : Moves (k.tasks k.current).state TaskStatus.ready := by
        rw [hrun]
        exact moves_ready (by simp) (by simp)
      have hwakes := enqueue_wakes h hstate hprev
      exact ⟨hwakes.queued, hwakes.calm⟩
    · cases hprev
      exact ⟨h, Calm.refl k⟩

/-- Time slices apart, the tasks are the same. -/
structure Alike (k k' : Sched.State) : Prop where
  calm : Calm k k'
  state : forall u, (k'.tasks u).state = (k.tasks u).state

theorem Alike.trans {k'' : Sched.State} (h : Alike k k') (h' : Alike k' k'') : Alike k k'' :=
  ⟨h.calm.trans h'.calm, fun u => (h'.state u).trans (h.state u)⟩

theorem alike_of_slices (slice : Nat -> UInt32)
    (htasks : forall u, k'.tasks u = { k.tasks u with timeSlice := slice u })
    (hinit : k'.initProc = k.initProc) (hidle : k'.idleTask = k.idleTask) : Alike k k' := by
  have hstate : forall u, (k'.tasks u).state = (k.tasks u).state := by
    intro u
    rw [htasks u]
  refine ⟨⟨?_, ?_, ?_, fun u => Or.inl (hstate u), hinit, hidle⟩, hstate⟩
  · intro u
    rw [htasks u]
  · intro u
    rw [htasks u]
  · intro u
    rw [htasks u]

theorem refill_alike (k : Sched.State) : Alike k (Sched.refill k) := by
  apply alike_of_slices (fun u => ((Sched.refill k).tasks u).timeSlice)
  · intro u
    unfold Sched.refill
    simp only
    split
    · rfl
    · rfl
  · rfl
  · rfl

theorem pickFrom_alike (fuel : Nat) (hpick : Sched.pickFrom fuel k = Except.ok (t, k')) :
    t ∈ k.queue ∧ k'.queue = k.queue.erase t ∧ Alike k k' := by
  induction fuel generalizing k with
  | zero => cases hpick
  | succ fuel ih =>
      unfold Sched.pickFrom at hpick
      cases hscan : Sched.scanMax k.tasks k.queue 0 none with
      | some u =>
          simp only [hscan, Except.ok.injEq, Prod.mk.injEq] at hpick
          rcases hpick with ⟨rfl, rfl⟩
          have hsame := Calm.refl k
          refine ⟨?_, rfl, ⟨⟨hsame.parent, hsame.pid, hsame.exitStatus, hsame.state, rfl, rfl⟩,
            fun _ => rfl⟩⟩
          rcases Sched.scanMax_mem hscan with hmem | hnone
          · exact hmem
          · cases hnone
      | none =>
          simp only [hscan] at hpick
          rcases ih hpick with ⟨hmem, hqueue, halike⟩
          exact ⟨hmem, hqueue, (refill_alike k).trans halike⟩

theorem pickTask_alike (hpick : Sched.pickTask k = Except.ok (t, k')) :
    (t ∈ k.queue ∨ t = k.idleTask) ∧ k'.queue = k.queue.erase t ∧ Alike k k' := by
  unfold Sched.pickTask at hpick
  split at hpick
  · rename_i hnil
    cases hpick
    refine ⟨Or.inr rfl, ?_, ?_⟩
    · show k.queue = k.queue.erase k.idleTask
      rw [hnil]
      rfl
    · apply alike_of_slices (fun u =>
        if u = k.idleTask then (k.tasks k.idleTask).priority else (k.tasks u).timeSlice)
      · intro u
        rw [setTask_tasks]
        split
        · rename_i heq
          rw [heq]
        · rfl
      · rfl
      · rfl
  · rcases pickFrom_alike 2 hpick with ⟨hmem, hqueue, halike⟩
    exact ⟨Or.inl hmem, hqueue, halike⟩

theorem schedule_calm (h : Queued k) (hschedule : Sched.schedule k = Except.ok k') :
    Queued k' ∧ Calm k k' ∧ (k'.tasks k'.current).state = TaskStatus.running := by
  unfold Sched.schedule at hschedule
  rcases bind_ok hschedule with ⟨k1, hprev, hrest⟩
  rcases bind_ok hrest with ⟨⟨t, k2⟩, hpick, hlast⟩
  rcases putPrev_calm h hprev with ⟨hqueued, hcalm⟩
  rcases pickTask_alike hpick with ⟨hmem, hqueue, halike⟩
  cases hlast
  have hidle2 : k2.idleTask = k1.idleTask := halike.calm.idleTask
  have hmoves : Moves (k2.tasks t).state TaskStatus.running := by
    rw [halike.state t]
    rcases hmem with hmem | rfl
    · rw [hqueued.ready t hmem]
      exact Or.inr ⟨by simp, by simp, Or.inr (Or.inl rfl)⟩
    · exact Or.inr ⟨hqueued.idle.left, hqueued.idle.right.left, Or.inr (Or.inl rfl)⟩
  have hlastCalm := setState_calm k2 hmoves
  have hstate : forall u, ((k2.setState t TaskStatus.running).tasks u).state =
      if u = t then TaskStatus.running else (k1.tasks u).state := by
    intro u
    rw [setState_state, halike.state u]
  refine ⟨⟨?_, ?_, ?_, ?_⟩, ?_, ?_⟩
  · show k2.queue.Nodup
    rw [hqueue]
    exact hqueued.nodup.erase t
  · intro u hu
    change u ∈ k2.queue at hu
    rw [hqueue, hqueued.nodup.mem_erase_iff] at hu
    show ((k2.setState t TaskStatus.running).tasks u).state = _
    rw [hstate, if_neg hu.left]
    exact hqueued.ready u hu.right
  · show Not (k2.idleTask ∈ k2.queue)
    rw [hqueue, hidle2]
    exact fun hmem' => hqueued.idleOut (List.mem_of_mem_erase hmem')
  · change Neutral ((k2.setState t TaskStatus.running).tasks k2.idleTask).state
    rw [hstate, hidle2]
    split
    · exact neutral_running
    · exact hqueued.idle
  · have hall := hcalm.trans (halike.calm.trans hlastCalm)
    exact ⟨hall.parent, hall.pid, hall.exitStatus, hall.state, hall.initProc, hall.idleTask⟩
  · show ((k2.setState t TaskStatus.running).tasks t).state = _
    rw [setState_state, if_pos rfl]

/-- The state behind an action in which no task is made, exits or is freed. -/
structure Scheduled (k k' : Sched.State) : Prop where
  queued : Queued k'
  calm : Calm k k'
  running : (k'.tasks k'.current).state = TaskStatus.running

/-- The current task runs as before, and what else changed is calm. -/
theorem Calm.scheduled (hcalm : Calm k k') (hqueued : Queued k')
    (hrun : (k.tasks k.current).state = TaskStatus.running) (hcurrent : k'.current = k.current)
    (hstate : (k'.tasks k.current).state = (k.tasks k.current).state) : Scheduled k k' := by
  refine ⟨hqueued, hcalm, ?_⟩
  rw [hcurrent, hstate]
  exact hrun

/-- The current task takes another state and leaves the CPU. -/
theorem suspend_queued (h : Queued k) (hrun : (k.tasks k.current).state = TaskStatus.running)
    {b : TaskStatus} (hb : k.current = k.idleTask -> Neutral b) :
    Queued (k.setState k.current b) := by
  refine ⟨h.nodup, ?_, h.idleOut, ?_⟩
  · intro u hu
    rw [setState_state, if_neg ?_]
    · exact h.ready u hu
    · intro heq
      rw [heq] at hu
      rw [h.ready _ hu] at hrun
      cases hrun
  · change Neutral ((k.setState k.current b).tasks k.idleTask).state
    rw [setState_state]
    split
    · rename_i heq
      exact hb heq.symm
    · exact h.idle

theorem taskBlock_scheduled (h : Queued k) (hrun : (k.tasks k.current).state = TaskStatus.running)
    (hblock : Sched.taskBlock k = Except.ok k') : Scheduled k k' := by
  have hmoves : Moves (k.tasks k.current).state TaskStatus.blocked := by
    rw [hrun]
    exact Or.inr ⟨by simp, by simp, Or.inr (Or.inr rfl)⟩
  have hqueued := suspend_queued h hrun (fun _ => neutral_blocked)
  rcases schedule_calm hqueued hblock with ⟨hqueued', hcalm, hrun'⟩
  exact ⟨hqueued', (setState_calm k hmoves).trans hcalm, hrun'⟩

theorem setSem_calm (k : Sched.State) (i : Nat) (sem : Semaphore) : Calm k (k.setSem i sem) := by
  have hsame := Calm.refl k
  exact ⟨hsame.parent, hsame.pid, hsame.exitStatus, hsame.state, rfl, rfl⟩

theorem setSem_queued (h : Queued k) (i : Nat) (sem : Semaphore) : Queued (k.setSem i sem) :=
  ⟨h.nodup, h.ready, h.idleOut, h.idle⟩

theorem timesliceCheck_scheduled (h : Queued k)
    (hrun : (k.tasks k.current).state = TaskStatus.running)
    (htimer : Sched.timesliceCheck k = Except.ok k') : Scheduled k k' := by
  unfold Sched.timesliceCheck at htimer
  simp only at htimer
  split at htimer
  · cases htimer
    have halike : Alike k (k.setTask k.current
        { k.tasks k.current with timeSlice := (k.tasks k.current).timeSlice - 1 }) := by
      apply alike_of_slices (fun u =>
        if u = k.current then (k.tasks k.current).timeSlice - 1 else (k.tasks u).timeSlice)
      · intro u
        rw [setTask_tasks]
        split
        · rename_i heq
          rw [heq]
        · rfl
      · rfl
      · rfl
    refine halike.calm.scheduled ⟨h.nodup, ?_, h.idleOut, ?_⟩ hrun rfl (halike.state _)
    · intro u hu
      rw [halike.state u]
      exact h.ready u hu
    · change Neutral ((k.setTask k.current _).tasks k.idleTask).state
      rw [halike.state]
      exact h.idle
  · rcases schedule_calm h htimer with ⟨hqueued, hcalm, hrun'⟩
    exact ⟨hqueued, hcalm, hrun'⟩

theorem taskWakeup_scheduled (h : Queued k)
    (hrun : (k.tasks k.current).state = TaskStatus.running)
    (hz : (k.tasks t).state ≠ TaskStatus.zombie) (hu : (k.tasks t).state ≠ TaskStatus.unused)
    (hwake : Sched.taskWakeup k t = Except.ok k') : Scheduled k k' := by
  have hwakes := taskWakeup_wakes h hz hu hwake
  refine hwakes.calm.scheduled hwakes.queued hrun hwakes.current (hwakes.others _ ?_)
  intro heq
  unfold Sched.taskWakeup at hwake
  rw [← heq, if_pos (Or.inl hrun)] at hwake
  cases hwake

theorem semWait_scheduled {i : Nat} (h : Queued k)
    (hrun : (k.tasks k.current).state = TaskStatus.running)
    (hwait : Sched.semWait i k = Except.ok k') : Scheduled k k' := by
  unfold Sched.semWait at hwait
  split at hwait
  · rename_i sem _
    cases hwait
    exact (setSem_calm k i sem).scheduled (setSem_queued h i sem) hrun rfl rfl
  · rename_i sem _
    rw [if_pos hrun] at hwait
    have hblock := taskBlock_scheduled (setSem_queued h i sem) hrun hwait
    exact ⟨hblock.queued, (setSem_calm k i sem).trans hblock.calm, hblock.running⟩

theorem semSignal_scheduled {i : Nat} (h : Queued k)
    (hrun : (k.tasks k.current).state = TaskStatus.running)
    (hsignal : Sched.semSignal i k = Except.ok k') : Scheduled k k' := by
  unfold Sched.semSignal at hsignal
  split at hsignal
  · cases hsignal
  · rename_i sem _
    cases hsignal
    exact (setSem_calm k i sem).scheduled (setSem_queued h i sem) hrun rfl rfl
  · rename_i t sem _
    split at hsignal
    · rename_i hblocked
      have hwoken : Scheduled (k.setSem i sem) k' := by
        refine taskWakeup_scheduled (setSem_queued h i sem) hrun ?_ ?_ hsignal
        · change (k.tasks t).state ≠ _
          rw [hblocked]
          simp
        · change (k.tasks t).state ≠ _
          rw [hblocked]
          simp
      exact ⟨hwoken.queued, (setSem_calm k i sem).trans hwoken.calm, hwoken.running⟩
    · cases hsignal

/-- Actions in which no task is made, exits or waits for a child. -/
def IsCalmAction : Sched.Action -> Prop
  | Sched.Action.create _ => False
  | Sched.Action.exit _ => False
  | Sched.Action.wait => False
  | _ => True

theorem perform_scheduled {a : Sched.Action} (h : Queued k)
    (hrun : (k.tasks k.current).state = TaskStatus.running) (hlegal : Sched.Legal k a)
    (ha : IsCalmAction a) (hperform : Sched.perform k a = Except.ok k') : Scheduled k k' := by
  cases a with
  | wakeup t =>
      have hstate : (k.tasks t).state ≠ TaskStatus.zombie ∧
          (k.tasks t).state ≠ TaskStatus.unused := by
        rcases hlegal.right with heq | ⟨heq, _⟩
        · rw [heq]
          simp
        · rw [heq]
          simp
      exact taskWakeup_scheduled h hrun hstate.left hstate.right hperform
  | create priority => exact absurd ha (fun hfalse => hfalse)
  | yield =>
      change Sched.taskYield k = _ at hperform
      rw [Sched.taskYield, if_pos hrun] at hperform
      rcases schedule_calm h hperform with ⟨hqueued, hcalm, hrun'⟩
      exact ⟨hqueued, hcalm, hrun'⟩
  | block => exact taskBlock_scheduled h hrun hperform
  | timer => exact timesliceCheck_scheduled h hrun hperform
  | semWait i => exact semWait_scheduled h hrun hperform
  | semSignal i => exact semSignal_scheduled h hrun hperform
  | exit status => exact absurd ha (fun hfalse => hfalse)
  | wait => exact absurd ha (fun hfalse => hfalse)

/-!
# The exit of a task
-/

/-- What the loop of `task_exit` leaves: the children given away belong to `init`. -/
structure Adopted (task : Nat) (ts : List Nat) (k k' : Sched.State) : Prop where
  queued : Queued k'
  parent : forall u, (k'.tasks u).parent =
    if u ∈ ts ∧ (k.tasks u).parent = some task then some k.initProc else (k.tasks u).parent
  pid : forall u, (k'.tasks u).pid = (k.tasks u).pid
  exitStatus : forall u, (k'.tasks u).exitStatus = (k.tasks u).exitStatus
  others : forall u, u ≠ k.initProc -> (k'.tasks u).state = (k.tasks u).state
  init : (k'.tasks k.initProc).state = (k.tasks k.initProc).state ∨
    (k'.tasks k.initProc).state = TaskStatus.ready
  initProc : k'.initProc = k.initProc
  idleTask : k'.idleTask = k.idleTask
  current : k'.current = k.current
  woken : forall u, u ∈ ts -> (k.tasks u).parent = some task ->
    (k.tasks u).state = TaskStatus.zombie -> (k'.tasks k.initProc).state = TaskStatus.ready

theorem Adopted.refl (task : Nat) (h : Queued k) : Adopted task [] k k := by
  refine ⟨h, ?_, fun _ => rfl, fun _ => rfl, fun _ _ => rfl, Or.inl rfl, rfl, rfl, rfl, ?_⟩
  · intro u
    rw [if_neg (fun hmem => List.not_mem_nil hmem.left)]
  · intro u hmem
    exact absurd hmem List.not_mem_nil

theorem Adopted.cons {task : Nat} {ts : List Nat} {k1 : Sched.State}
    (hinit : task ≠ k.initProc) (hzombie : (k.tasks k.initProc).state ≠ TaskStatus.zombie)
    (h : Adopted task [t] k k1) (h' : Adopted task ts k1 k') : Adopted task (t :: ts) k k' := by
  have hinitStays : (k1.tasks k.initProc).state = TaskStatus.ready ->
      (k'.tasks k.initProc).state = TaskStatus.ready := by
    intro hready
    have hlast := h'.init
    rw [h.initProc, hready] at hlast
    rcases hlast with heq | heq
    · exact heq
    · exact heq
  refine ⟨h'.queued, ?_, fun u => (h'.pid u).trans (h.pid u),
    fun u => (h'.exitStatus u).trans (h.exitStatus u), ?_, ?_, h'.initProc.trans h.initProc,
    h'.idleTask.trans h.idleTask, h'.current.trans h.current, ?_⟩
  · intro u
    have hfirst := h.parent u
    rw [h'.parent u, h.initProc]
    cases Decidable.em (u ∈ [t] ∧ (k.tasks u).parent = some task) with
    | inl hone =>
        rw [if_pos hone] at hfirst
        rw [hfirst, if_neg, if_pos]
        · exact ⟨List.mem_cons.mpr (Or.inl (List.mem_singleton.mp hone.left)), hone.right⟩
        · intro hagain
          exact hinit (Option.some.inj hagain.right).symm
    | inr hnone =>
        rw [if_neg hnone] at hfirst
        rw [hfirst]
        have hiff : (u ∈ ts ∧ (k.tasks u).parent = some task) <->
            (u ∈ t :: ts ∧ (k.tasks u).parent = some task) := by
          constructor
          · intro hin
            exact ⟨List.mem_cons_of_mem t hin.left, hin.right⟩
          · intro hin
            rcases List.mem_cons.mp hin.left with heq | hmem
            · exact absurd ⟨List.mem_singleton.mpr heq, hin.right⟩ hnone
            · exact ⟨hmem, hin.right⟩
        simp only [hiff]
  · intro u hu
    have hlast := h'.others u (by rw [h.initProc]; exact hu)
    exact hlast.trans (h.others u hu)
  · rcases h.init with heq | heq
    · have hlast := h'.init
      rw [h.initProc, heq] at hlast
      exact hlast
    · exact Or.inr (hinitStays heq)
  · intro u hmem hparent hz
    have hfirst := h.parent u
    rcases List.mem_cons.mp hmem with heq | hrest
    · exact hinitStays (h.woken u (List.mem_singleton.mpr heq) hparent hz)
    · cases Decidable.em (u ∈ [t]) with
      | inl hone => exact hinitStays (h.woken u hone hparent hz)
      | inr hnone =>
          rw [if_neg (fun hin => hnone hin.left)] at hfirst
          have hstate : (k1.tasks u).state = TaskStatus.zombie := by
            rw [h.others u, hz]
            intro heq
            rw [heq] at hz
            exact hzombie hz
          have hlast := h'.woken u hrest (hfirst.trans hparent) hstate
          rw [h.initProc] at hlast
          exact hlast

def adopt (k : Sched.State) (t : Nat) : Sched.State :=
  k.setTask t { k.tasks t with parent := some k.initProc }

theorem adopt_field {α : Type} (k : Sched.State) (t : Nat) (f : Task -> α)
    (hf : f { k.tasks t with parent := some k.initProc } = f (k.tasks t)) (u : Nat) :
    f ((adopt k t).tasks u) = f (k.tasks u) := by
  unfold adopt
  rw [setTask_tasks]
  split
  · rename_i heq
    rw [heq]
    exact hf
  · rfl

theorem adopt_queued (h : Queued k) (t : Nat) : Queued (adopt k t) := by
  refine ⟨h.nodup, ?_, h.idleOut, ?_⟩
  · intro u hu
    rw [adopt_field k t Task.state rfl]
    exact h.ready u hu
  · change Neutral ((adopt k t).tasks k.idleTask).state
    rw [adopt_field k t Task.state rfl]
    exact h.idle

theorem adopt_parent {task : Nat} (hchild : (k.tasks t).parent = some task) (u : Nat) :
    ((adopt k t).tasks u).parent =
      if u ∈ [t] ∧ (k.tasks u).parent = some task then some k.initProc
      else (k.tasks u).parent := by
  unfold adopt
  rw [setTask_tasks]
  split
  · rename_i heq
    rw [heq, if_pos ⟨List.mem_singleton.mpr rfl, hchild⟩]
  · rename_i hne
    rw [if_neg (fun hin => hne (List.mem_singleton.mp hin.left))]

section Adoption

variable {task : Nat}

/-- A task that is no child of the exiting task is left alone. -/
theorem adopted_none (h : Queued k) (hno : (k.tasks t).parent ≠ some task) :
    Adopted task [t] k k := by
  refine ⟨h, ?_, fun _ => rfl, fun _ => rfl, fun _ _ => rfl, Or.inl rfl, rfl, rfl, rfl, ?_⟩
  · intro u
    rw [if_neg]
    intro hin
    rw [List.mem_singleton.mp hin.left] at hin
    exact hno hin.right
  · intro u hmem hparent
    rw [List.mem_singleton.mp hmem] at hparent
    exact absurd hparent hno

theorem adopted_live (h : Queued k) (hchild : (k.tasks t).parent = some task)
    (hlive : (k.tasks t).state ≠ TaskStatus.zombie) : Adopted task [t] k (adopt k t) := by
  have hstate := adopt_field k t Task.state rfl
  refine ⟨adopt_queued h t, adopt_parent hchild, adopt_field k t Task.pid rfl,
    adopt_field k t Task.exitStatus rfl, fun u _ => hstate u, Or.inl (hstate _), rfl, rfl, rfl,
    ?_⟩
  intro u hmem _ hz
  rw [List.mem_singleton.mp hmem] at hz
  exact absurd hz hlive

theorem adopted_zombie (hchild : (k.tasks t).parent = some task)
    (hwakes : Wakes (adopt k t) k.initProc k') : Adopted task [t] k k' := by
  have hcalm := hwakes.calm
  refine ⟨hwakes.queued, ?_, ?_, ?_, ?_, Or.inr hwakes.ready, hcalm.initProc, hcalm.idleTask,
    hwakes.current, fun _ _ _ _ => hwakes.ready⟩
  · intro u
    rw [hcalm.parent u]
    exact adopt_parent hchild u
  · intro u
    rw [hcalm.pid u]
    exact adopt_field k t Task.pid rfl u
  · intro u
    rw [hcalm.exitStatus u]
    exact adopt_field k t Task.exitStatus rfl u
  · intro u hu
    rw [hwakes.others u hu]
    exact adopt_field k t Task.state rfl u

theorem reparent_cons {rest : List Nat} (h : Queued k)
    (hzombie : (k.tasks k.initProc).state ≠ TaskStatus.zombie)
    (hunused : (k.tasks k.initProc).state ≠ TaskStatus.unused)
    (hloop : Sched.reparent task (t :: rest) k = Except.ok k') :
    exists k1, Adopted task [t] k k1 ∧ Sched.reparent task rest k1 = Except.ok k' := by
  rw [Sched.reparent] at hloop
  cases Decidable.em ((k.tasks t).parent = some task) with
  | inr hno =>
      rw [if_neg hno] at hloop
      exact ⟨k, adopted_none h hno, hloop⟩
  | inl hchild =>
      have hstate := adopt_field k t Task.state rfl
      rw [if_pos hchild] at hloop
      change (if ((adopt k t).tasks t).state = TaskStatus.zombie then
        Sched.taskWakeup (adopt k t) k.initProc >>= Sched.reparent task rest
        else Sched.reparent task rest (adopt k t)) = _ at hloop
      rw [hstate t] at hloop
      cases Decidable.em ((k.tasks t).state = TaskStatus.zombie) with
      | inr hlive =>
          rw [if_neg hlive] at hloop
          exact ⟨adopt k t, adopted_live h hchild hlive, hloop⟩
      | inl hdead =>
          rw [if_pos hdead] at hloop
          rw [← hstate] at hzombie hunused
          rcases bind_ok hloop with ⟨k1, hwake, hrest⟩
          have hwakes := taskWakeup_wakes (adopt_queued h t) hzombie hunused hwake
          exact ⟨k1, adopted_zombie hchild hwakes, hrest⟩

theorem reparent_adopted (ts : List Nat) (h : Queued k) (hinit : task ≠ k.initProc)
    (hzombie : (k.tasks k.initProc).state ≠ TaskStatus.zombie)
    (hunused : (k.tasks k.initProc).state ≠ TaskStatus.unused)
    (hloop : Sched.reparent task ts k = Except.ok k') : Adopted task ts k k' := by
  induction ts generalizing k with
  | nil =>
      cases hloop
      exact Adopted.refl task h
  | cons t rest ih =>
      rcases reparent_cons h hzombie hunused hloop with ⟨k1, hone, hrest⟩
      have hstate : (k1.tasks k1.initProc).state = (k.tasks k.initProc).state ∨
          (k1.tasks k1.initProc).state = TaskStatus.ready := by
        rw [hone.initProc]
        exact hone.init
      refine Adopted.cons hinit hzombie hone (ih hone.queued ?_ ?_ ?_ hrest)
      · rw [hone.initProc]
        exact hinit
      · rcases hstate with heq | heq
        · rw [heq]
          exact hzombie
        · rw [heq]
          simp
      · rcases hstate with heq | heq
        · rw [heq]
          exact hunused
        · rw [heq]
          simp

end Adoption

/--
The state behind the lock of `task_exit`: the task is a zombie, its children belong
to `init`, and neither its parent nor an `init` that got a zombie waits.
-/
structure Exited (c p : Nat) (status : Int) (k k' : Sched.State) : Prop where
  queued : Queued k'
  parent : forall u, u < ntask -> (k'.tasks u).parent =
    if (k.tasks u).parent = some c then some k.initProc else (k.tasks u).parent
  parentOut : forall u, ntask ≤ u -> (k'.tasks u).parent = (k.tasks u).parent
  pid : forall u, (k'.tasks u).pid = (k.tasks u).pid
  exitStatus : forall u, u ≠ c -> (k'.tasks u).exitStatus = (k.tasks u).exitStatus
  code : (k'.tasks c).exitStatus = status
  zombie : (k'.tasks c).state = TaskStatus.zombie
  state : forall u, u ≠ c -> Moves (k.tasks u).state (k'.tasks u).state
  parentAwake : (k'.tasks p).state ≠ TaskStatus.waiting
  initAwake : forall u, u < ntask -> (k.tasks u).parent = some c ->
    (k.tasks u).state = TaskStatus.zombie -> (k'.tasks k.initProc).state ≠ TaskStatus.waiting
  initProc : k'.initProc = k.initProc

structure ParentWoken (p : Nat) (k k' : Sched.State) : Prop where
  queued : Queued k'
  calm : Calm k k'
  current : k'.current = k.current
  awake : (k'.tasks p).state ≠ TaskStatus.waiting
  others : forall u, (k.tasks u).state ≠ TaskStatus.waiting ->
    (k'.tasks u).state = (k.tasks u).state

theorem wakeParent_woken {p : Nat} (h : Queued k)
    (hwake : Sched.wakeParent p k = Except.ok k') : ParentWoken p k k' := by
  unfold Sched.wakeParent at hwake
  split at hwake
  · rename_i hwaiting
    have hwakes := taskWakeup_wakes h (by rw [hwaiting]; simp) (by rw [hwaiting]; simp) hwake
    refine ⟨hwakes.queued, hwakes.calm, hwakes.current, by rw [hwakes.ready]; simp, ?_⟩
    intro u hu
    apply hwakes.others
    intro heq
    rw [heq] at hu
    exact hu hwaiting
  · rename_i hawake
    cases hwake
    exact ⟨h, Calm.refl k, rfl, hawake, fun _ _ => rfl⟩

section BecomeZombie

variable {c u : Nat} (k : Sched.State) (status : Int)

theorem becomeZombie_self : (Sched.becomeZombie c status k).tasks c =
    { k.tasks c with state := TaskStatus.zombie, exitStatus := status } :=
  if_pos rfl

theorem becomeZombie_other (hu : u ≠ c) :
    (Sched.becomeZombie c status k).tasks u = k.tasks u :=
  if_neg hu

theorem becomeZombie_parent (c u : Nat) :
    ((Sched.becomeZombie c status k).tasks u).parent = (k.tasks u).parent := by
  cases Decidable.em (u = c) with
  | inl heq => rw [heq, becomeZombie_self]
  | inr hne => rw [becomeZombie_other k status hne]

theorem becomeZombie_pid (c u : Nat) :
    ((Sched.becomeZombie c status k).tasks u).pid = (k.tasks u).pid := by
  cases Decidable.em (u = c) with
  | inl heq => rw [heq, becomeZombie_self]
  | inr hne => rw [becomeZombie_other k status hne]

end BecomeZombie

/-- Handing the children over wakes `init`, and no other task. -/
theorem Adopted.moves {c : Nat} {k1 k2 : Sched.State} {cs : List Nat} (h : Adopted c cs k1 k2)
    (hzombie : (k1.tasks k1.initProc).state ≠ TaskStatus.zombie)
    (hunused : (k1.tasks k1.initProc).state ≠ TaskStatus.unused) (u : Nat) :
    Moves (k1.tasks u).state (k2.tasks u).state := by
  cases Decidable.em (u = k1.initProc) with
  | inr hne => exact Or.inl (h.others u hne)
  | inl heq =>
      rw [heq]
      rcases h.init with hsame | hready
      · exact Or.inl hsame
      · rw [hready]
        exact moves_ready hzombie hunused

theorem exited_of_steps {c p : Nat} {k1 k2 : Sched.State} (status : Int)
    (hrun : (k.tasks c).state = TaskStatus.running) (hidle : c ≠ k.idleTask)
    (hinit : c ≠ k.initProc) (hpc : p ≠ c)
    (hzombie : (k.tasks k.initProc).state ≠ TaskStatus.zombie)
    (hunused : (k.tasks k.initProc).state ≠ TaskStatus.unused)
    (hwoken : ParentWoken p k k1) (hadopted : Adopted c (List.range ntask) k1 k2) :
    Exited c p status k (Sched.becomeZombie c status k2) := by
  have hcalm := hwoken.calm
  have hinit1 : k1.initProc = k.initProc := hcalm.initProc
  have hrun2 : (k2.tasks c).state = TaskStatus.running := by
    rw [hadopted.others c (by rw [hinit1]; exact hinit), hwoken.others c (by rw [hrun]; simp)]
    exact hrun
  have hother : forall u, u ≠ c -> (Sched.becomeZombie c status k2).tasks u = k2.tasks u :=
    fun u hu => becomeZombie_other k2 status hu
  have hmoves2 : forall u, Moves (k1.tasks u).state (k2.tasks u).state := by
    apply hadopted.moves
    · rw [hinit1]
      exact fun hz => hzombie ((hcalm.state _).zombie_iff.mp hz)
    · rw [hinit1]
      exact fun hu => hunused ((hcalm.state _).unused_iff.mp hu)
  have hparent : forall u, ((Sched.becomeZombie c status k2).tasks u).parent =
      if u ∈ List.range ntask ∧ (k.tasks u).parent = some c then some k.initProc
      else (k.tasks u).parent := by
    intro u
    rw [becomeZombie_parent, hadopted.parent u, hcalm.parent u, hinit1]
  constructor
  · refine ⟨hadopted.queued.nodup, ?_, hadopted.queued.idleOut, ?_⟩
    · intro u hu
      have hready := hadopted.queued.ready u hu
      rw [hother u]
      · exact hready
      · intro heq
        rw [heq, hrun2] at hready
        cases hready
    · change Neutral ((Sched.becomeZombie c status k2).tasks k2.idleTask).state
      rw [hother]
      · exact hadopted.queued.idle
      · rw [hadopted.idleTask, hcalm.idleTask]
        exact Ne.symm hidle
  · intro u hu
    rw [hparent u]
    simp only [List.mem_range, hu, true_and]
  · intro u hu
    rw [hparent u, if_neg]
    intro hin
    exact absurd (List.mem_range.mp hin.left) (Nat.not_lt.mpr hu)
  · intro u
    rw [becomeZombie_pid]
    exact (hadopted.pid u).trans (hcalm.pid u)
  · intro u hu
    rw [hother u hu]
    exact (hadopted.exitStatus u).trans (hcalm.exitStatus u)
  · rw [becomeZombie_self]
  · rw [becomeZombie_self]
  · intro u hu
    rw [hother u hu]
    exact (hcalm.state u).trans (hmoves2 u)
  · rw [hother p hpc]
    exact fun hwait => hwoken.awake ((hmoves2 p).of_waiting hwait)
  · intro u hu hparent hz
    rw [hother _ (Ne.symm hinit), ← hinit1]
    rw [hadopted.woken u (List.mem_range.mpr hu) (by rw [hcalm.parent u]; exact hparent)
      ((hcalm.state u).zombie_iff.mpr hz)]
    simp
  · exact hadopted.initProc.trans hinit1

end Kernel

/-!
# Families

Parents are tasks that live, and none of them waits while a child is a zombie.
-/

structure Family (k : Sched.State) : Prop where
  inTable : forall t p, (k.tasks t).parent = some p -> t < ntask
  notSelf : forall t, (k.tasks t).parent ≠ some t
  alive : forall t p, (k.tasks t).parent = some p ->
    (k.tasks p).state ≠ TaskStatus.zombie ∧ (k.tasks p).state ≠ TaskStatus.unused ∧
    (p = k.initProc ∨ (k.tasks p).state ≠ TaskStatus.allocated)
  init : (k.tasks k.initProc).state ≠ TaskStatus.zombie ∧
    (k.tasks k.initProc).state ≠ TaskStatus.unused
  initRoot : forall q, (k.tasks k.initProc).parent = some q -> (k.tasks q).parent = none
  noLost : forall t p, (k.tasks t).parent = some p -> (k.tasks t).state = TaskStatus.zombie ->
    (k.tasks p).state ≠ TaskStatus.waiting

section Families

variable {k k' : Sched.State} {t : Nat}

theorem Family.calm (h : Family k) (hcalm : Calm k k') : Family k' := by
  constructor
  · intro t p hp
    rw [hcalm.parent t] at hp
    exact h.inTable t p hp
  · intro t
    rw [hcalm.parent t]
    exact h.notSelf t
  · intro t p hp
    rw [hcalm.parent t] at hp
    rcases h.alive t p hp with ⟨hz, hu, ha⟩
    have hmoves := hcalm.state p
    refine ⟨fun hz' => hz (hmoves.zombie_iff.mp hz'), fun hu' => hu (hmoves.unused_iff.mp hu'),
      ?_⟩
    rcases ha with heq | hne
    · exact Or.inl (heq.trans hcalm.initProc.symm)
    · exact Or.inr (fun ha' => hne (hmoves.of_allocated ha'))
  · have hmoves := hcalm.state k.initProc
    rw [hcalm.initProc]
    exact ⟨fun hz => h.init.left (hmoves.zombie_iff.mp hz),
      fun hu => h.init.right (hmoves.unused_iff.mp hu)⟩
  · intro q hq
    rw [hcalm.initProc, hcalm.parent] at hq
    rw [hcalm.parent]
    exact h.initRoot q hq
  · intro t p hp hz hwait
    rw [hcalm.parent t] at hp
    exact h.noLost t p hp ((hcalm.state t).zombie_iff.mp hz) ((hcalm.state p).of_waiting hwait)

/-- A task with no zombie among its children starts to wait. -/
theorem Family.wait (h : Family k)
    (hnone : forall t, (k.tasks t).parent = some k.current ->
      (k.tasks t).state ≠ TaskStatus.zombie) :
    Family (k.setState k.current TaskStatus.waiting) := by
  have hparent : forall u, ((k.setState k.current TaskStatus.waiting).tasks u).parent =
      (k.tasks u).parent := by
    intro u
    show (if u = k.current then { k.tasks k.current with state := TaskStatus.waiting }
      else k.tasks u).parent = _
    split
    · rename_i heq
      rw [heq]
    · rfl
  have hstate := setState_state k k.current
  constructor
  · intro t p hp
    rw [hparent t] at hp
    exact h.inTable t p hp
  · intro t
    rw [hparent t]
    exact h.notSelf t
  · intro t p hp
    rw [hparent t] at hp
    rcases h.alive t p hp with ⟨hz, hu, ha⟩
    rw [hstate]
    split
    · exact ⟨by simp, by simp, Or.inr (by simp)⟩
    · exact ⟨hz, hu, ha⟩
  · change ((k.setState k.current TaskStatus.waiting).tasks k.initProc).state ≠ _ ∧
      ((k.setState k.current TaskStatus.waiting).tasks k.initProc).state ≠ _
    rw [hstate]
    split
    · simp
    · exact h.init
  · intro q hq
    rw [hparent] at hq ⊢
    exact h.initRoot q hq
  · intro t p hp hz
    rw [hparent t] at hp
    rw [hstate] at hz ⊢
    split at hz
    · cases hz
    · split
      · rename_i heq
        rw [heq] at hp
        exact absurd hz (hnone t hp)
      · exact h.noLost t p hp hz

theorem Family.free (h : Family k) (hchild : forall u, (k.tasks u).parent ≠ some t)
    (hinit : t ≠ k.initProc) (hfree : Sched.taskFree k t = Except.ok k') : Family k' := by
  unfold Sched.taskFree at hfree
  split at hfree
  · cases hfree
  · cases hfree
    have hother : forall u, u ≠ t -> (k.setTask t { k.tasks t with
        pid := 0, parent := none, exitStatus := 0, state := TaskStatus.unused }).tasks u =
        k.tasks u := fun u hu => if_neg hu
    have hkid : forall u p, ((k.setTask t { k.tasks t with
        pid := 0, parent := none, exitStatus := 0, state := TaskStatus.unused }).tasks u).parent =
        some p -> u ≠ t ∧ (k.tasks u).parent = some p ∧ p ≠ t := by
      intro u p hp
      rw [setTask_tasks] at hp
      split at hp
      · cases hp
      · rename_i hne
        refine ⟨hne, hp, ?_⟩
        intro heq
        rw [heq] at hp
        exact hchild u hp
    constructor
    · intro u p hp
      exact h.inTable u p (hkid u p hp).right.left
    · intro u hp
      exact h.notSelf u (hkid u u hp).right.left
    · intro u p hp
      rcases hkid u p hp with ⟨_, hold, hne⟩
      rw [hother p hne]
      exact h.alive u p hold
    · change ((k.setTask t _).tasks k.initProc).state ≠ _ ∧
        ((k.setTask t _).tasks k.initProc).state ≠ _
      rw [hother _ (Ne.symm hinit)]
      exact h.init
    · intro q hq
      rcases hkid k.initProc q hq with ⟨_, hold, hne⟩
      rw [hother q hne]
      exact h.initRoot q hold
    · intro u p hp hz
      rcases hkid u p hp with ⟨hu, hold, hne⟩
      rw [hother u hu] at hz
      rw [hother p hne]
      exact h.noLost u p hold hz

def newTask (k : Sched.State) (priority : UInt32) : Task :=
  { pid := k.nextPid
    state := TaskStatus.allocated
    timeSlice := priority
    priority := priority
    parent := some k.current
    exitStatus := 0 }

/-- `kthread_create` fills a free slot, if there is one. -/
theorem kthreadCreate_cases (k : Sched.State) (priority : UInt32) :
    Sched.kthreadCreate priority k = k ∨
      exists t, t < ntask ∧ (k.tasks t).state = TaskStatus.unused ∧
        Sched.kthreadCreate priority k =
          { k.setTask t (newTask k priority) with nextPid := k.nextPid + 1 } := by
  unfold Sched.kthreadCreate
  split
  · exact Or.inl rfl
  · rename_i t hfind
    have hunused := List.find?_some hfind
    exact Or.inr ⟨t, List.mem_range.mp (List.mem_of_find?_eq_some hfind),
      of_decide_eq_true hunused, rfl⟩

theorem Family.create (h : Family k) (hrun : (k.tasks k.current).state = TaskStatus.running)
    (hunused : (k.tasks t).state = TaskStatus.unused) (hmem : t < ntask) {priority : UInt32}
    (htasks : forall u, k'.tasks u = if u = t then newTask k priority else k.tasks u)
    (hinit : k'.initProc = k.initProc) : Family k' := by
  have hcurrent : k.current ≠ t := by
    intro heq
    rw [heq, hunused] at hrun
    cases hrun
  have hinitNe : k.initProc ≠ t := by
    intro heq
    rw [← heq] at hunused
    exact h.init.right hunused
  have hother : forall u, u ≠ t -> k'.tasks u = k.tasks u := by
    intro u hu
    rw [htasks u, if_neg hu]
  have hnew : k'.tasks t = newTask k priority := by
    rw [htasks t, if_pos rfl]
  have hkid : forall u p, (k'.tasks u).parent = some p ->
      (u = t ∧ p = k.current) ∨ (u ≠ t ∧ (k.tasks u).parent = some p ∧ p ≠ t) := by
    intro u p hp
    cases Decidable.em (u = t) with
    | inl heq =>
        rw [heq, hnew] at hp
        exact Or.inl ⟨heq, (Option.some.inj hp).symm⟩
    | inr hne =>
        rw [hother u hne] at hp
        refine Or.inr ⟨hne, hp, ?_⟩
        intro heq
        rw [heq] at hp
        exact (h.alive u t hp).right.left hunused
  constructor
  · intro u p hp
    rcases hkid u p hp with ⟨heq, _⟩ | ⟨_, hold, _⟩
    · rw [heq]
      exact hmem
    · exact h.inTable u p hold
  · intro u hp
    rcases hkid u u hp with ⟨heq, hcur⟩ | ⟨_, hold, _⟩
    · exact hcurrent (hcur.symm.trans heq)
    · exact h.notSelf u hold
  · intro u p hp
    rw [hinit]
    rcases hkid u p hp with ⟨_, heq⟩ | ⟨_, hold, hne⟩
    · rw [heq, hother _ hcurrent, hrun]
      exact ⟨by simp, by simp, Or.inr (by simp)⟩
    · rw [hother p hne]
      exact h.alive u p hold
  · rw [hinit, hother _ hinitNe]
    exact h.init
  · intro q hq
    rw [hinit] at hq
    rcases hkid k.initProc q hq with ⟨heq, _⟩ | ⟨_, hold, hne⟩
    · exact absurd heq hinitNe
    · rw [hother q hne]
      exact h.initRoot q hold
  · intro u p hp hz
    rcases hkid u p hp with ⟨heq, _⟩ | ⟨hu, hold, hne⟩
    · rw [heq, hnew] at hz
      cases hz
    · rw [hother u hu] at hz
      rw [hother p hne]
      exact h.noLost u p hold hz

theorem Family.exit {c p : Nat} {status : Int} (h : Family k) (hinit : c ≠ k.initProc)
    (hparent : (k.tasks c).parent = some p) (hexit : Exited c p status k k') : Family k' := by
  have hkid : forall u q, (k'.tasks u).parent = some q -> u < ntask ∧
      (((k.tasks u).parent = some c ∧ q = k.initProc) ∨
        ((k.tasks u).parent = some q ∧ q ≠ c)) := by
    intro u q hq
    cases Nat.lt_or_ge u ntask with
    | inr hge =>
        rw [hexit.parentOut u hge] at hq
        exact absurd (h.inTable u q hq) (Nat.not_lt.mpr hge)
    | inl hlt =>
        rw [hexit.parent u hlt] at hq
        refine ⟨hlt, ?_⟩
        split at hq
        · rename_i hchild
          exact Or.inl ⟨hchild, (Option.some.inj hq).symm⟩
        · rename_i hno
          refine Or.inr ⟨hq, ?_⟩
          intro heq
          rw [heq] at hq
          exact hno hq
  have hinitMoves := hexit.state k.initProc (Ne.symm hinit)
  have hinitRoot : (k.tasks k.initProc).parent ≠ some c := by
    intro hroot
    have hnone := h.initRoot c hroot
    rw [hparent] at hnone
    cases hnone
  constructor
  · intro u q hq
    exact (hkid u q hq).left
  · intro u hq
    rcases (hkid u u hq).right with ⟨hchild, heq⟩ | ⟨hsame, _⟩
    · rw [heq] at hchild
      exact hinitRoot hchild
    · exact h.notSelf u hsame
  · intro u q hq
    rw [hexit.initProc]
    rcases (hkid u q hq).right with ⟨_, heq⟩ | ⟨hsame, hne⟩
    · rw [heq]
      exact ⟨fun hz => h.init.left (hinitMoves.zombie_iff.mp hz),
        fun hu => h.init.right (hinitMoves.unused_iff.mp hu), Or.inl rfl⟩
    · have hmoves := hexit.state q hne
      rcases h.alive u q hsame with ⟨hz, hu, ha⟩
      refine ⟨fun hz' => hz (hmoves.zombie_iff.mp hz'), fun hu' => hu (hmoves.unused_iff.mp hu'),
        ?_⟩
      rcases ha with heq | hna
      · exact Or.inl heq
      · exact Or.inr (fun ha' => hna (hmoves.of_allocated ha'))
  · rw [hexit.initProc]
    exact ⟨fun hz => h.init.left (hinitMoves.zombie_iff.mp hz),
      fun hu => h.init.right (hinitMoves.unused_iff.mp hu)⟩
  · intro q hq
    rw [hexit.initProc] at hq
    rcases (hkid k.initProc q hq).right with ⟨hchild, _⟩ | ⟨hsame, _⟩
    · exact absurd hchild hinitRoot
    · cases hq' : (k'.tasks q).parent with
      | none => rfl
      | some r =>
          have hnone := h.initRoot q hsame
          rcases (hkid q r hq').right with ⟨hold, _⟩ | ⟨hold, _⟩
          · rw [hnone] at hold
            cases hold
          · rw [hnone] at hold
            cases hold
  · intro u q hq hz
    rcases hkid u q hq with ⟨hlt, hcases⟩
    cases Decidable.em (u = c) with
    | inl heq =>
        rw [heq] at hcases
        rcases hcases with ⟨hself, _⟩ | ⟨hsame, _⟩
        · exact absurd hself (h.notSelf c)
        · rw [hparent] at hsame
          rw [← Option.some.inj hsame]
          exact hexit.parentAwake
    | inr hne =>
        have hold := (hexit.state u hne).zombie_iff.mp hz
        rcases hcases with ⟨hchild, heq⟩ | ⟨hsame, hqc⟩
        · rw [heq]
          exact hexit.initAwake u hlt hchild hold
        · exact fun hwait => h.noLost u q hsame hold ((hexit.state q hqc).of_waiting hwait)

end Families

end ExitWait
end Kernel
end NicoOS
