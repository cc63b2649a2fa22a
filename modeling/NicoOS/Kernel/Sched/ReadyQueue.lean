import Mathlib.Data.List.Perm.Subperm
import NicoOS.Kernel.LinkedList
import NicoOS.Kernel.Sched.QueueIntegrity

/-!
# Ready queues

`struct ready_queue` of the two schedulers, `kernel/sched/linux0.11` and `kernel/sched/rr`, on
the intrusive list.  A failed assertion has no result.
-/

namespace NicoOS
namespace Kernel
namespace Sched

open LinkedList

/-- `struct ready_queue`, with the task table and the idle task. -/
structure ReadyQueue where
  list : Links Nat
  runningTaskCnt : Int32
  tasks : Nat -> Task
  idleTask : Nat

structure Schedular where
  enqueue : Nat -> ReadyQueue -> Option ReadyQueue
  dequeue : Nat -> ReadyQueue -> Option ReadyQueue
  pickTask : ReadyQueue -> Option (Nat × ReadyQueue)
  timesliceCheck : Nat -> ReadyQueue -> Bool × ReadyQueue

namespace ReadyQueue

def setTask (q : ReadyQueue) (t : Nat) (task : Task) : ReadyQueue :=
  { q with tasks := fun u => if u = t then task else q.tasks u }

def setTimeSlice (q : ReadyQueue) (t : Nat) (timeSlice : UInt32) : ReadyQueue :=
  q.setTask t { q.tasks t with timeSlice := timeSlice }

def getRunningTaskCnt (q : ReadyQueue) : UInt32 := q.runningTaskCnt.toUInt32

def pickIdle (q : ReadyQueue) : Nat × ReadyQueue :=
  (q.idleTask, q.setTimeSlice q.idleTask (q.tasks q.idleTask).priority)

/-!
# The scheduler of Linux 0.11
-/

def schedTimesliceCheck (t : Nat) (q : ReadyQueue) : Bool × ReadyQueue :=
  if (q.tasks t).timeSlice ≠ 0 then (false, q.setTimeSlice t ((q.tasks t).timeSlice - 1))
  else (true, q)

def rqEnqueue (t : Nat) (q : ReadyQueue) : Option ReadyQueue :=
  if isUnlinkedNode (Ptr.node t) q.list = true ∧ t ≠ q.idleTask then do
    let list <- listOffer (Ptr.node t) q.list
    some { q with list := list, runningTaskCnt := q.runningTaskCnt + 1 }
  else none

def rqDequeue (t : Nat) (q : ReadyQueue) : Option ReadyQueue :=
  if Not (isUnlinkedNode (Ptr.node t) q.list = true) then do
    let list <- listUnlinked (Ptr.node t) q.list
    some { q with list := list, runningTaskCnt := q.runningTaskCnt - 1 }
  else none

def refillAll (q : ReadyQueue) : ReadyQueue :=
  { q with
    tasks := fun t =>
      if t < ntask ∧ (q.tasks t).state ≠ TaskStatus.unused ∧ t ≠ q.idleTask then
        { q.tasks t with
          timeSlice := (q.tasks t).priority + ((q.tasks t).timeSlice >>> 1) }
      else
        q.tasks t }

def pickRounds : Nat -> ReadyQueue -> Option (Nat × ReadyQueue)
  | 0, _ => none
  | k + 1, q => do
      let items <- listForeach (ntask + 1) q.list
      match scanMax q.tasks items 0 none with
      | some next => do
          let list <- listUnlinked (Ptr.node next) q.list
          some (next, { q with list := list })
      | none => pickRounds k q.refillAll

def pickTask (k : Nat) (q : ReadyQueue) : Option (Nat × ReadyQueue) :=
  if listEmpty q.list then some q.pickIdle else pickRounds k q

/-!
# The round robin scheduler
-/

def rrTimesliceCheck (t : Nat) (q : ReadyQueue) : Bool × ReadyQueue :=
  if (q.tasks t).timeSlice ≠ 0 then (false, q.setTimeSlice t ((q.tasks t).timeSlice - 1))
  else (true, q)

def rrRqEnqueue (t : Nat) (q : ReadyQueue) : Option ReadyQueue :=
  if isUnlinkedNode (Ptr.node t) q.list = true ∧ t ≠ q.idleTask then do
    let list <- listPush (Ptr.node t) q.list
    let q := { q with list := list }
    let q := if (q.tasks t).timeSlice = 0 then q.setTimeSlice t (q.tasks t).priority else q
    some { q with runningTaskCnt := q.runningTaskCnt + 1 }
  else none

def rrRqDequeue (t : Nat) (q : ReadyQueue) : Option ReadyQueue :=
  if Not (isUnlinkedNode (Ptr.node t) q.list = true) then do
    let list <- listUnlinked (Ptr.node t) q.list
    some { q with list := list, runningTaskCnt := q.runningTaskCnt - 1 }
  else none

def rrPickTask (q : ReadyQueue) : Option (Nat × ReadyQueue) :=
  if Not (listEmpty q.list = true) then do
    let (n, list) <- listPoll q.list
    match n with
    | Ptr.node t => some (t, { q with list := list })
    | _ => none
  else some q.pickIdle

def schedInit (tasks : Nat -> Task) (idleTask : Nat) : ReadyQueue :=
  { list := listInit ⟨fun _ => none, fun _ => none⟩
    runningTaskCnt := 0
    tasks := tasks
    idleTask := idleTask }

end ReadyQueue

open ReadyQueue

/-- The scheduler of Linux 0.11; two rounds decide whether the loop of `pick_task` ends. -/
def linux011 : Schedular where
  enqueue := rqEnqueue
  dequeue := rqDequeue
  pickTask := ReadyQueue.pickTask 2
  timesliceCheck := schedTimesliceCheck

def roundRobin : Schedular where
  enqueue := rrRqEnqueue
  dequeue := rrRqDequeue
  pickTask := rrPickTask
  timesliceCheck := rrTimesliceCheck

def Built (sched : Schedular) : Prop := sched = linux011 ∨ sched = roundRobin

instance : @NeZero Nat Zero.ofOfNat0 ntask := ⟨Nat.succ_ne_zero _⟩

/-- Calls on a ready queue; the tasks are entries of the task table. -/
inductive Call where
  | enqueue (t : Fin ntask)
  | dequeue (t : Fin ntask)
  | pick
  deriving DecidableEq, Repr

def Schedular.call (sched : Schedular) (q : ReadyQueue) : Call -> Option (Nat × ReadyQueue)
  | Call.enqueue t => (sched.enqueue t.val q).map (fun q => (t.val, q))
  | Call.dequeue t => (sched.dequeue t.val q).map (fun q => (t.val, q))
  | Call.pick => sched.pickTask q

/-!
# Ready tasks as a sequence
-/

/-- The ready queue links these entries of the task table in this order. -/
structure Queued (q : ReadyQueue) (xs : List Nat) : Prop where
  list : Represents q.list xs
  table : forall t, t ∈ xs -> t < ntask
  idle : q.idleTask ∉ xs

section Operations

variable {q q' : ReadyQueue} {xs ys : List Nat} {t : Nat}

theorem Queued.length_lt (h : Queued q xs) : xs.length < ntask + 1 := by
  have hsub : xs ⊆ List.range ntask := fun t ht => List.mem_range.mpr (h.table t ht)
  have hle := (h.list.nodup.subperm hsub).length_le
  rw [List.length_range] at hle
  lia

theorem queued_init (tasks : Nat -> Task) (idleTask : Nat) :
    Queued (schedInit tasks idleTask) [] where
  list := listInit_represents (fun _ => rfl)
  table t ht := nomatch ht
  idle ht := nomatch ht

theorem Queued.same (h : Queued q xs) (hlist : q'.list = q.list)
    (hidle : q'.idleTask = q.idleTask) :
    Queued q' xs where
  list := hlist ▸ h.list
  table := h.table
  idle := hidle ▸ h.idle

theorem Queued.foreach (h : Queued q xs) : listForeach (ntask + 1) q.list = some xs :=
  listForeach_eq h.list h.length_lt

theorem Queued.remove (h : Queued q (xs ++ t :: ys)) {list : Links Nat}
    (hlist : Represents list (xs ++ ys)) (hq : q'.list = list) (hidle : q'.idleTask = q.idleTask) :
    Queued q' (xs ++ ys) where
  list := hq ▸ hlist
  table u hu := h.table u (by
    rw [List.mem_append] at hu ⊢
    exact hu.imp_right (List.mem_cons_of_mem t))
  idle hin := h.idle (by
    rw [hidle, List.mem_append] at hin
    rw [List.mem_append]
    exact hin.imp_right (List.mem_cons_of_mem t))

theorem Queued.join (h : Queued q (xs ++ ys)) {list : Links Nat} (ht : t < ntask)
    (hne : t ≠ q.idleTask) (hlist : Represents list (xs ++ t :: ys)) (hq : q'.list = list)
    (hidle : q'.idleTask = q.idleTask) : Queued q' (xs ++ t :: ys) where
  list := hq ▸ hlist
  table u hu := by
    rw [List.mem_append, List.mem_cons] at hu
    rcases hu with hxs | heq | hys
    · exact h.table u (List.mem_append_left _ hxs)
    · rw [heq]
      exact ht
    · exact h.table u (List.mem_append_right _ hys)
  idle hin := by
    rw [hidle, List.mem_append, List.mem_cons] at hin
    rcases hin with hxs | heq | hys
    · exact h.idle (List.mem_append_left _ hxs)
    · exact hne heq.symm
    · exact h.idle (List.mem_append_right _ hys)

theorem rqEnqueue_some (h : Queued q xs) (ht : t < ntask) (hout : t ∉ xs) (hne : t ≠ q.idleTask) :
    exists q', rqEnqueue t q = some q' ∧ Queued q' (t :: xs) ∧
      q'.runningTaskCnt = q.runningTaskCnt + 1 ∧ q'.tasks = q.tasks ∧ q'.idleTask = q.idleTask := by
  rcases listOffer_represents h.list hout with ⟨list, hoffer, hlist⟩
  have hfree := (h.list.isUnlinkedNode t).mpr hout
  have hqueue : Queued q ([] ++ xs) := h
  refine ⟨{ q with list := list, runningTaskCnt := q.runningTaskCnt + 1 }, ?_,
    hqueue.join ht hne hlist rfl rfl, rfl, rfl, rfl⟩
  unfold rqEnqueue
  rw [if_pos ⟨hfree, hne⟩, hoffer]
  rfl

/-- The assertions of both enqueue operations fail for such a task. -/
theorem Queued.not_accepted (h : Queued q xs) (hbad : t ∈ xs ∨ t = q.idleTask) :
    Not (isUnlinkedNode (Ptr.node t) q.list = true ∧ t ≠ q.idleTask) := by
  intro hboth
  rcases hboth with ⟨hfree, hne⟩
  rcases hbad with hin | heq
  · exact (h.list.isUnlinkedNode t).mp hfree hin
  · exact hne heq

theorem rqEnqueue_none (h : Queued q xs) (hbad : t ∈ xs ∨ t = q.idleTask) :
    rqEnqueue t q = none :=
  if_neg (h.not_accepted hbad)

/-- A task that was enqueued was not queued, and is the first one now. -/
theorem rqEnqueue_queued (h : Queued q xs) (ht : t < ntask) (hrun : rqEnqueue t q = some q') :
    t ∉ xs ∧ Queued q' (t :: xs) ∧ q'.runningTaskCnt = q.runningTaskCnt + 1 ∧
      q'.tasks = q.tasks := by
  by_cases hbad : t ∈ xs ∨ t = q.idleTask
  · rw [rqEnqueue_none h hbad] at hrun
    cases hrun
  · rw [not_or] at hbad
    rcases rqEnqueue_some h ht hbad.left hbad.right with ⟨q1, hsome, hqueued, hcnt, htasks, -⟩
    cases hsome.symm.trans hrun
    exact ⟨hbad.left, hqueued, hcnt, htasks⟩

theorem rrRqEnqueue_some (h : Queued q xs) (ht : t < ntask) (hout : t ∉ xs)
    (hne : t ≠ q.idleTask) :
    exists q', rrRqEnqueue t q = some q' ∧ Queued q' (xs ++ [t]) ∧
      q'.runningTaskCnt = q.runningTaskCnt + 1 ∧ q'.idleTask = q.idleTask := by
  rcases listPush_represents h.list hout with ⟨list, hpush, hlist⟩
  have hfree := (h.list.isUnlinkedNode t).mpr hout
  have hqueue : Queued q (xs ++ []) := by
    rw [List.append_nil]
    exact h
  unfold rrRqEnqueue
  rw [if_pos ⟨hfree, hne⟩, hpush]
  simp only [Option.bind_eq_bind, Option.bind_some]
  split
  · exact ⟨_, rfl, hqueue.join ht hne hlist rfl rfl, rfl, rfl⟩
  · exact ⟨_, rfl, hqueue.join ht hne hlist rfl rfl, rfl, rfl⟩

theorem rrRqEnqueue_none (h : Queued q xs) (hbad : t ∈ xs ∨ t = q.idleTask) :
    rrRqEnqueue t q = none :=
  if_neg (h.not_accepted hbad)

/-- A task that was enqueued was not queued, and is the last one now. -/
theorem rrRqEnqueue_queued (h : Queued q xs) (ht : t < ntask)
    (hrun : rrRqEnqueue t q = some q') :
    t ∉ xs ∧ Queued q' (xs ++ [t]) ∧ q'.runningTaskCnt = q.runningTaskCnt + 1 := by
  by_cases hbad : t ∈ xs ∨ t = q.idleTask
  · rw [rrRqEnqueue_none h hbad] at hrun
    cases hrun
  · rw [not_or] at hbad
    rcases rrRqEnqueue_some h ht hbad.left hbad.right with ⟨q1, hsome, hqueued, hcnt, -⟩
    cases hsome.symm.trans hrun
    exact ⟨hbad.left, hqueued, hcnt⟩

theorem unlink_erase (h : Queued q xs) (ht : t ∈ xs) :
    exists list, listUnlinked (Ptr.node t) q.list = some list ∧
      forall q' : ReadyQueue, q'.list = list -> q'.idleTask = q.idleTask ->
        Queued q' (xs.erase t) := by
  rcases List.append_of_mem ht with ⟨front, rest, hxs⟩
  have hnodup := h.list.nodup
  rw [hxs] at h hnodup
  have hfront : t ∉ front := fun hin =>
    List.disjoint_of_nodup_append hnodup hin List.mem_cons_self
  rcases listUnlinked_represents h.list with ⟨list, hrun, hlist⟩
  refine ⟨list, hrun, ?_⟩
  intro q' hq hidle
  rw [hxs, List.erase_append_right _ hfront, List.erase_cons_head]
  exact h.remove hlist hq hidle

theorem rqDequeue_some (h : Queued q xs) (ht : t ∈ xs) :
    exists q', rqDequeue t q = some q' ∧ Queued q' (xs.erase t) ∧
      q'.runningTaskCnt = q.runningTaskCnt - 1 ∧ q'.tasks = q.tasks ∧ q'.idleTask = q.idleTask := by
  rcases unlink_erase h ht with ⟨list, hrun, hqueued⟩
  have hlinked : Not (isUnlinkedNode (Ptr.node t) q.list = true) :=
    fun hfree => (h.list.isUnlinkedNode t).mp hfree ht
  refine ⟨{ q with list := list, runningTaskCnt := q.runningTaskCnt - 1 }, ?_,
    hqueued _ rfl rfl, rfl, rfl, rfl⟩
  unfold rqDequeue
  rw [if_pos hlinked, hrun]
  rfl

theorem rqDequeue_none (h : Queued q xs) (ht : t ∉ xs) : rqDequeue t q = none := by
  unfold rqDequeue
  exact if_neg (fun hlinked => hlinked ((h.list.isUnlinkedNode t).mpr ht))

theorem rqDequeue_queued (h : Queued q xs) (hrun : rqDequeue t q = some q') :
    t ∈ xs ∧ Queued q' (xs.erase t) ∧ q'.runningTaskCnt = q.runningTaskCnt - 1 := by
  by_cases hin : t ∈ xs
  · rcases rqDequeue_some h hin with ⟨q1, hsome, hqueued, hcnt, -, -⟩
    cases hsome.symm.trans hrun
    exact ⟨hin, hqueued, hcnt⟩
  · rw [rqDequeue_none h hin] at hrun
    cases hrun

theorem Built.dequeue {sched : Schedular} (h : Built sched) : sched.dequeue = rqDequeue := by
  rcases h with heq | heq
  · rw [heq]
    rfl
  · rw [heq]
    rfl

theorem rrPickTask_some (h : Queued q (xs ++ [t])) :
    exists q', rrPickTask q = some (t, q') ∧ Queued q' xs ∧
      q'.runningTaskCnt = q.runningTaskCnt ∧ q'.idleTask = q.idleTask := by
  rcases listPoll_represents h.list with ⟨list, hpoll, hlist⟩
  have hfull : Not (listEmpty q.list = true) := by
    rw [listEmpty_iff h.list]
    exact List.append_ne_nil_of_right_ne_nil xs (List.cons_ne_nil t [])
  have hqueued : Queued { q with list := list } (xs ++ []) := by
    have hrest : Represents list (xs ++ []) := by
      rw [List.append_nil]
      exact hlist
    exact h.remove hrest rfl rfl
  rw [List.append_nil] at hqueued
  refine ⟨{ q with list := list }, ?_, hqueued, rfl, rfl⟩
  unfold rrPickTask
  rw [if_pos hfull, hpoll]
  rfl

theorem rrPickTask_idle (h : Queued q []) : rrPickTask q = some q.pickIdle := by
  unfold rrPickTask
  exact if_neg (fun hfull => hfull ((listEmpty_iff h.list).mpr rfl))

theorem pickTask_idle (h : Queued q []) (k : Nat) : ReadyQueue.pickTask k q = some q.pickIdle := by
  unfold ReadyQueue.pickTask
  exact if_pos ((listEmpty_iff h.list).mpr rfl)

/-- A round of `pick_task` takes the task that its scan has found. -/
theorem pickRounds_found (h : Queued q xs) (hscan : scanMax q.tasks xs 0 none = some t) :
    exists q', (forall k, pickRounds (k + 1) q = some (t, q')) ∧ Queued q' (xs.erase t) ∧
      q'.runningTaskCnt = q.runningTaskCnt ∧ q'.tasks = q.tasks ∧ q'.idleTask = q.idleTask := by
  have ht : t ∈ xs := by
    rcases scanMax_mem hscan with hin | hnone
    · exact hin
    · cases hnone
  rcases unlink_erase h ht with ⟨list, hrun, hqueued⟩
  refine ⟨{ q with list := list }, ?_, hqueued _ rfl rfl, rfl, rfl, rfl⟩
  intro k
  rw [pickRounds, h.foreach]
  simp [hscan, hrun]

theorem pickRounds_refill (h : Queued q xs) (k : Nat) (hscan : scanMax q.tasks xs 0 none = none) :
    pickRounds (k + 1) q = pickRounds k q.refillAll := by
  rw [pickRounds, h.foreach]
  simp [hscan]

theorem Queued.refillAll (h : Queued q xs) : Queued q.refillAll xs := h.same rfl rfl

theorem Queued.unique (h : Queued q xs) (h' : Queued q ys) : xs = ys :=
  Option.some.inj (h.foreach.symm.trans h'.foreach)

/-- Whatever `pick_task` takes from a queue leaves it. -/
theorem pickRounds_cases (k : Nat) : forall q : ReadyQueue, Queued q xs ->
    pickRounds k q = some (t, q') ->
    t ∈ xs ∧ Queued q' (xs.erase t) ∧ q'.runningTaskCnt = q.runningTaskCnt := by
  induction k with
  | zero => exact fun _ _ hrun => nomatch hrun
  | succ k ih =>
      intro q h hrun
      cases hscan : scanMax q.tasks xs 0 none with
      | some u =>
          rcases pickRounds_found h hscan with ⟨q1, hfound, hqueued, hcnt, -, -⟩
          rw [hfound k] at hrun
          cases hrun
          rcases scanMax_mem hscan with hin | hnone
          · exact ⟨hin, hqueued, hcnt⟩
          · cases hnone
      | none =>
          rw [pickRounds_refill h k hscan] at hrun
          exact ih q.refillAll h.refillAll hrun

end Operations

end Sched
end Kernel
end NicoOS
