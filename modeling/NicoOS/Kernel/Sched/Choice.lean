import NicoOS.Kernel.Sched.ReadyQueue

/-!
# The choice of the next task

`pick_task` of the scheduler of Linux 0.11: which task it takes, when it refills the time
slices, and how large these become.
-/

namespace NicoOS
namespace Kernel
namespace Sched

open LinkedList ReadyQueue Lib

/-- `pick_task` has taken `t` out of the queue `xs`, perhaps behind a refill. -/
structure Picked (q : ReadyQueue) (xs : List Nat) (t : Nat) (q' : ReadyQueue) : Prop where
  member : t ∈ xs
  positive : 0 < (q'.tasks t).timeSlice
  maximal : forall u, u ∈ xs -> (q'.tasks u).timeSlice ≤ (q'.tasks t).timeSlice
  rest : Queued q' (xs.erase t)
  refilled : ((exists u, u ∈ xs ∧ (q.tasks u).timeSlice ≠ 0) ∧ q'.tasks = q.tasks) ∨
    ((forall u, u ∈ xs -> (q.tasks u).timeSlice = 0) ∧ q'.tasks = q.refillAll.tasks)

section Picks

variable {tasks : Nat -> Task} {q : ReadyQueue} {xs : List Nat} {t : Nat}

theorem scanMax_largest (xs : List Nat) : forall (maxts : UInt32) (next : Option Nat),
    scanMax tasks xs maxts next = some t ->
    (t ∈ xs ∧ maxts < (tasks t).timeSlice ∧
        forall u, u ∈ xs -> (tasks u).timeSlice ≤ (tasks t).timeSlice) ∨
      (next = some t ∧ forall u, u ∈ xs -> (tasks u).timeSlice ≤ maxts) := by
  induction xs with
  | nil => exact fun _ _ h => Or.inr ⟨h, fun u hu => nomatch hu⟩
  | cons x xs ih =>
      intro maxts next h
      rw [scanMax] at h
      by_cases hgt : (tasks x).timeSlice > maxts
      · rw [if_pos hgt] at h
        left
        rcases ih _ _ h with ⟨hin, hlarger, hall⟩ | ⟨heq, hall⟩
        · refine ⟨List.mem_cons_of_mem x hin, UInt32.lt_trans hgt hlarger, ?_⟩
          intro u hu
          rcases List.mem_cons.mp hu with hux | hrest
          · rw [hux]
            exact UInt32.le_of_lt hlarger
          · exact hall u hrest
        · cases heq
          refine ⟨List.mem_cons_self, hgt, ?_⟩
          intro u hu
          rcases List.mem_cons.mp hu with hux | hrest
          · rw [hux]
            exact UInt32.le_refl _
          · exact hall u hrest
      · rw [if_neg hgt] at h
        have hle : (tasks x).timeSlice ≤ maxts := UInt32.not_lt.mp hgt
        rcases ih _ _ h with ⟨hin, hlarger, hall⟩ | ⟨heq, hall⟩
        · left
          refine ⟨List.mem_cons_of_mem x hin, hlarger, ?_⟩
          intro u hu
          rcases List.mem_cons.mp hu with hux | hrest
          · rw [hux]
            exact UInt32.le_trans hle (UInt32.le_of_lt hlarger)
          · exact hall u hrest
        · right
          refine ⟨heq, ?_⟩
          intro u hu
          rcases List.mem_cons.mp hu with hux | hrest
          · rw [hux]
            exact hle
          · exact hall u hrest

theorem timeSlice_eq_zero (h : scanMax q.tasks xs 0 none = none) (ht : t ∈ xs) :
    (q.tasks t).timeSlice = 0 :=
  UInt32.le_zero_iff.mp (UInt32.not_lt.mp (scanMax_none h t ht))

theorem picked_of_scan (h : Queued q xs) (hscan : scanMax q.tasks xs 0 none = some t) :
    exists q', (forall k, pickRounds (k + 1) q = some (t, q')) ∧ t ∈ xs ∧
      0 < (q'.tasks t).timeSlice ∧
      (forall u, u ∈ xs -> (q'.tasks u).timeSlice ≤ (q'.tasks t).timeSlice) ∧
      Queued q' (xs.erase t) ∧ q'.tasks = q.tasks := by
  rcases scanMax_largest xs 0 none hscan with ⟨hin, hpos, hall⟩ | ⟨hnone, -⟩
  · rcases pickRounds_found h hscan with ⟨q', hrun, hqueued, -, htasks, -⟩
    rw [<- htasks] at hpos hall
    exact ⟨q', hrun, hin, hpos, hall, hqueued, htasks⟩
  · cases hnone

theorem refillAll_pos (h : Queued q xs) (ht : t ∈ xs)
    (hready : (q.tasks t).state = TaskStatus.ready) (hpriority : 1 ≤ (q.tasks t).priority)
    (hzero : (q.tasks t).timeSlice = 0) : 0 < (q.refillAll.tasks t).timeSlice := by
  have hidle : t ≠ q.idleTask := by
    intro heq
    subst heq
    exact h.idle ht
  have hstate : (q.tasks t).state ≠ TaskStatus.unused := by
    rw [hready]
    exact fun heq => nomatch heq
  have hslice : (q.refillAll.tasks t).timeSlice = (q.tasks t).priority := by
    unfold refillAll
    dsimp only
    rw [if_pos ⟨h.table t ht, hstate, hidle⟩, hzero]
    simp
  rw [hslice]
  exact hpriority

theorem pickTask_picks (h : Queued q xs) (hne : xs ≠ [])
    (hready : forall t, t ∈ xs ->
      (q.tasks t).state = TaskStatus.ready ∧ 1 ≤ (q.tasks t).priority) :
    exists t q', Picked q xs t q' ∧
      forall k, 2 ≤ k -> ReadyQueue.pickTask k q = some (t, q') := by
  have hfull : Not (listEmpty q.list = true) := fun hempty => hne ((listEmpty_iff h.list).mp hempty)
  have hpick : forall k, ReadyQueue.pickTask k q = pickRounds k q := fun k => if_neg hfull
  cases hscan : scanMax q.tasks xs 0 none with
  | some t =>
      rcases picked_of_scan h hscan with ⟨q', hrun, hin, hpos, hall, hqueued, htasks⟩
      have hslice : (q.tasks t).timeSlice ≠ 0 := by
        rw [htasks] at hpos
        exact UInt32.pos_iff_ne_zero.mp hpos
      refine ⟨t, q', ⟨hin, hpos, hall, hqueued, Or.inl ⟨⟨t, hin, hslice⟩, htasks⟩⟩, ?_⟩
      intro k hk
      rw [hpick]
      cases k with
      | zero => lia
      | succ k => exact hrun k
  | none =>
      have hzero : forall u, u ∈ xs -> (q.tasks u).timeSlice = 0 :=
        fun u hu => timeSlice_eq_zero hscan hu
      cases hagain : scanMax q.refillAll.tasks xs 0 none with
      | none =>
          rcases List.exists_mem_of_ne_nil xs hne with ⟨u, hu⟩
          rcases hready u hu with ⟨hstate, hpriority⟩
          have hpos := refillAll_pos h hu hstate hpriority (hzero u hu)
          rw [timeSlice_eq_zero hagain hu] at hpos
          exact absurd hpos (UInt32.lt_irrefl 0)
      | some t =>
          rcases picked_of_scan h.refillAll hagain with
            ⟨q', hrun, hin, hpos, hall, hqueued, htasks⟩
          refine ⟨t, q', ⟨hin, hpos, hall, hqueued, Or.inr ⟨hzero, htasks⟩⟩, ?_⟩
          intro k hk
          rw [hpick]
          cases k with
          | zero => lia
          | succ k =>
              rw [pickRounds_refill h k hscan]
              cases k with
              | zero => lia
              | succ k => exact hrun k

end Picks

/-!
# Time slices
-/

/-- What changes time slices, or the queue, or makes a task. -/
inductive Move where
  | enqueue (t : Nat)
  | dequeue (t : Nat)
  | pick
  | tick (t : Nat)
  | refill
  | create (t : Nat) (priority : UInt32)
  | setState (t : Nat) (state : TaskStatus)

/-- The slice and the priority of a new task are set in `init_task_struct`. -/
def move (q : ReadyQueue) : Move -> Option ReadyQueue
  | Move.enqueue t => rqEnqueue t q
  | Move.dequeue t => rqDequeue t q
  | Move.pick => (ReadyQueue.pickTask 2 q).map Prod.snd
  | Move.tick t => some (schedTimesliceCheck t q).2
  | Move.refill => some q.refillAll
  | Move.create t priority =>
      some (q.setTask t { q.tasks t with timeSlice := priority, priority := priority })
  | Move.setState t state => some (q.setTask t { q.tasks t with state := state })

/-- The time slice is below twice the priority, unless both are 0. -/
def Moderate (task : Task) : Prop :=
  task.timeSlice.toNat < 2 * task.priority.toNat ∨ task.timeSlice = task.priority

section Slices

variable {q q' : ReadyQueue} {task : Task}

theorem Moderate.bound (h : Moderate task) (hpriority : 1 ≤ task.priority) :
    task.timeSlice.toNat < 2 * task.priority.toNat := by
  rcases h with hlt | heq
  · exact hlt
  · have hone : 1 ≤ task.priority.toNat := hpriority
    rw [heq]
    lia

theorem Moderate.refill (h : Moderate task) :
    Moderate { task with timeSlice := task.priority + (task.timeSlice >>> 1) } := by
  have hhalf : (task.timeSlice >>> 1).toNat = task.timeSlice.toNat / 2 := by
    rw [UInt32.toNat_shiftRight]
    simp [Nat.shiftRight_eq_div_pow]
  have hsum : (task.priority + (task.timeSlice >>> 1)).toNat ≤
      task.priority.toNat + task.timeSlice.toNat / 2 := by
    rw [UInt32.toNat_add, hhalf]
    exact Nat.mod_le _ _
  by_cases hzero : task.priority = 0
  · right
    have hslice : task.timeSlice = 0 := by
      rcases h with hlt | heq
      · rw [hzero] at hlt
        exact absurd hlt (Nat.not_lt_zero _)
      · rw [heq, hzero]
    simp [hslice]
  · left
    have hpos : 0 < task.priority.toNat := UInt32.pos_iff_ne_zero.mpr hzero
    have hbound := h.bound hpos
    dsimp only
    lia

theorem Moderate.tick (h : Moderate task) (hslice : task.timeSlice ≠ 0) :
    Moderate { task with timeSlice := task.timeSlice - 1 } := by
  have hpos : 1 ≤ task.timeSlice := UInt32.pos_iff_ne_zero.mpr hslice
  have hone : 1 ≤ task.timeSlice.toNat := hpos
  have hsub : (task.timeSlice - 1).toNat = task.timeSlice.toNat - 1 :=
    UInt32.toNat_sub_of_le _ _ hpos
  left
  dsimp only
  rcases h with hlt | heq
  · lia
  · rw [heq] at hsub hone ⊢
    lia

def Moderation (q : ReadyQueue) : Prop := forall t, Moderate (q.tasks t)

theorem Moderation.setTask (h : Moderation q) (t : Nat) (htask : Moderate task) :
    Moderation (q.setTask t task) := by
  intro u
  unfold ReadyQueue.setTask
  dsimp only
  split
  · exact htask
  · exact h u

theorem Moderation.refillAll (h : Moderation q) : Moderation q.refillAll := by
  intro t
  unfold ReadyQueue.refillAll
  dsimp only
  split
  · exact (h t).refill
  · exact h t

theorem pickRounds_moderation (k : Nat) : forall (q q' : ReadyQueue) (t : Nat), Moderation q ->
    pickRounds k q = some (t, q') -> Moderation q' := by
  induction k with
  | zero => exact fun _ _ _ _ h => nomatch h
  | succ k ih =>
      intro q q' t h hrun
      rw [pickRounds] at hrun
      cases hitems : listForeach (ntask + 1) q.list with
      | none =>
          rw [hitems] at hrun
          cases hrun
      | some items =>
          rw [hitems] at hrun
          cases hscan : scanMax q.tasks items 0 none with
          | none =>
              simp only [Option.bind_eq_bind, Option.bind_some, hscan] at hrun
              exact ih _ q' t h.refillAll hrun
          | some next =>
              simp only [Option.bind_eq_bind, Option.bind_some, hscan] at hrun
              cases hlist : listUnlinked (Ptr.node next) q.list with
              | none =>
                  rw [hlist] at hrun
                  cases hrun
              | some list =>
                  rw [hlist] at hrun
                  cases hrun
                  exact h

theorem pickIdle_moderation (h : Moderation q) : Moderation q.pickIdle.2 :=
  h.setTask q.idleTask (Or.inr rfl)

theorem tasks_of_linked {c : Prop} [Decidable c] {r : Option (LinkedList.Links Nat)}
    {g : LinkedList.Links Nat -> ReadyQueue}
    (h : (if c then r.bind (fun list => some (g list)) else none) = some q')
    (hg : forall list, (g list).tasks = q.tasks) : q'.tasks = q.tasks := by
  split at h
  · rcases Option.bind_eq_some_iff.mp h with ⟨list, -, hq⟩
    cases hq
    exact hg list
  · cases h

theorem rqEnqueue_tasks {t : Nat} (h : rqEnqueue t q = some q') : q'.tasks = q.tasks :=
  tasks_of_linked h (fun _ => rfl)

theorem rqDequeue_tasks {t : Nat} (h : rqDequeue t q = some q') : q'.tasks = q.tasks :=
  tasks_of_linked h (fun _ => rfl)

theorem pickTask_moderation {t : Nat} (h : Moderation q)
    (hpick : ReadyQueue.pickTask 2 q = some (t, q')) : Moderation q' := by
  unfold ReadyQueue.pickTask at hpick
  split at hpick
  · cases hpick
    exact pickIdle_moderation h
  · exact pickRounds_moderation 2 q q' t h hpick

theorem schedTimesliceCheck_moderation (t : Nat) (h : Moderation q) :
    Moderation (schedTimesliceCheck t q).2 := by
  unfold schedTimesliceCheck
  split
  · rename_i hslice
    exact h.setTask t ((h t).tick hslice)
  · exact h

theorem move_moderation (m : Move) (h : Moderation q) (hmove : move q m = some q') :
    Moderation q' := by
  cases m with
  | enqueue t =>
      unfold Moderation
      rw [rqEnqueue_tasks hmove]
      exact h
  | dequeue t =>
      unfold Moderation
      rw [rqDequeue_tasks hmove]
      exact h
  | pick =>
      rcases Option.map_eq_some_iff.mp hmove with ⟨⟨t, q1⟩, hpick, hq⟩
      cases hq
      exact pickTask_moderation h hpick
  | tick t =>
      cases hmove
      exact schedTimesliceCheck_moderation t h
  | refill =>
      cases hmove
      exact h.refillAll
  | create t priority =>
      cases hmove
      exact h.setTask t (Or.inr rfl)
  | setState t state =>
      cases hmove
      exact h.setTask t (h t)

theorem moves_moderation (moves : List Move) : forall q q' : ReadyQueue, Moderation q ->
    runFrom move q moves = some q' -> Moderation q' := by
  induction moves with
  | nil =>
      intro q q' h hrun
      cases hrun
      exact h
  | cons m rest ih =>
      intro q q' h hrun
      rw [runFrom] at hrun
      cases hmove : move q m with
      | none =>
          rw [hmove] at hrun
          cases hrun
      | some q1 =>
          rw [hmove] at hrun
          exact ih q1 q' (move_moderation m h hmove) hrun

end Slices

/-!
# The sequence of ready tasks
-/

/-- The ready queue and the state in which it is a sequence. -/
structure Refines (q : ReadyQueue) (s : State) : Prop where
  queued : Queued q s.queue
  tasks : q.tasks = s.tasks
  idle : q.idleTask = s.idleTask

section Refinement

variable {q : ReadyQueue} {s : State} {t : Nat}

theorem Refines.refillAll (h : Refines q s) : Refines q.refillAll (refill s) where
  queued := h.queued.refillAll
  tasks := by
    unfold ReadyQueue.refillAll refill
    rw [h.tasks, h.idle]
  idle := h.idle

theorem rqEnqueue_refines (h : Refines q s) (ht : t < ntask) :
    match schedEnqueue s t with
    | Except.ok s' => exists q', rqEnqueue t q = some q' ∧ Refines q' s'
    | Except.error _ => rqEnqueue t q = none := by
  unfold schedEnqueue
  rw [<- h.idle]
  by_cases hbad : t ∈ s.queue ∨ t = q.idleTask
  · rw [if_pos hbad]
    exact rqEnqueue_none h.queued hbad
  · rw [if_neg hbad]
    rw [not_or] at hbad
    rcases rqEnqueue_some h.queued ht hbad.left hbad.right with
      ⟨q', hrun, hqueued, -, htasks, hidle⟩
    exact ⟨q', hrun, hqueued, htasks.trans h.tasks, hidle⟩

theorem pickRounds_refines (k : Nat) : forall (q : ReadyQueue) (s : State), Refines q s ->
    match pickFrom k s with
    | Except.ok (t, s') => exists q', pickRounds k q = some (t, q') ∧ Refines q' s'
    | Except.error _ => pickRounds k q = none := by
  induction k with
  | zero => exact fun _ _ _ => rfl
  | succ k ih =>
      intro q s h
      rw [pickFrom]
      cases hscan : scanMax s.tasks s.queue 0 none with
      | some t =>
          rw [<- h.tasks] at hscan
          rcases pickRounds_found h.queued hscan with ⟨q', hrun, hqueued, -, htasks, hidle⟩
          exact ⟨q', hrun k, hqueued, htasks.trans h.tasks, hidle.trans h.idle⟩
      | none =>
          rw [<- h.tasks] at hscan
          rw [pickRounds_refill h.queued k hscan]
          exact ih _ _ h.refillAll

theorem pickTask_refines (h : Refines q s) :
    match pickTask s with
    | Except.ok (t, s') => exists q', linux011.pickTask q = some (t, q') ∧ Refines q' s'
    | Except.error _ => linux011.pickTask q = none := by
  have hpick : linux011.pickTask q = ReadyQueue.pickTask 2 q := rfl
  unfold pickTask
  rw [hpick]
  by_cases hempty : s.queue = []
  · rw [if_pos hempty]
    have hqueued := h.queued
    rw [hempty] at hqueued
    refine ⟨q.pickIdle.2, ?_, ?_, ?_, h.idle⟩
    · rw [<- h.idle]
      exact pickTask_idle hqueued 2
    · exact h.queued.same rfl rfl
    · unfold pickIdle setTimeSlice ReadyQueue.setTask State.setTask
      rw [h.tasks, h.idle]
  · rw [if_neg hempty]
    have hfull : Not (listEmpty q.list = true) :=
      fun hlist => hempty ((listEmpty_iff h.queued.list).mp hlist)
    have hrounds : ReadyQueue.pickTask 2 q = pickRounds 2 q := if_neg hfull
    rw [hrounds]
    exact pickRounds_refines 2 q s h

end Refinement

/--
`pick_task` ends with a ready task of the largest time slice, behind a refill only if no slice
was left; and from slices equal to the priorities none ever reaches twice its priority.
-/
theorem linux011_choice :
    (forall (q : ReadyQueue) (xs : List Nat), Queued q xs -> xs ≠ [] ->
      (forall t, t ∈ xs -> (q.tasks t).state = TaskStatus.ready ∧ 1 ≤ (q.tasks t).priority) ->
      exists t q', Picked q xs t q' ∧
        forall k, 2 ≤ k -> ReadyQueue.pickTask k q = some (t, q')) ∧
    (forall (q q' : ReadyQueue) (moves : List Move),
      (forall t, (q.tasks t).timeSlice = (q.tasks t).priority) ->
      runFrom move q moves = some q' ->
      forall t, 1 ≤ (q'.tasks t).priority ->
        (q'.tasks t).timeSlice.toNat < 2 * (q'.tasks t).priority.toNat) := by
  constructor
  · exact fun q xs h hne hready => pickTask_picks h hne hready
  · intro q q' moves hstart hrun t hpriority
    exact (moves_moderation moves q q' (fun u => Or.inr (hstart u)) hrun t).bound hpriority

def evenTasks (timeSlice : UInt32) : Nat -> Task := fun _ =>
  { pid := 1
    state := TaskStatus.ready
    timeSlice := timeSlice
    priority := 10
    parent := none
    exitStatus := 0 }

/-- A task that gets slices again and again, with a tick in between. -/
def refills : List Move :=
  [Move.enqueue 3, Move.refill, Move.refill, Move.tick 3, Move.refill]

/-- Two tasks that have used up their slices, and one that gets slices again and again. -/
theorem linux011_choice_even :
    (exists q t q', rqEnqueue 3 (schedInit (evenTasks 0) 1) >>= rqEnqueue 4 = some q ∧
      Picked q [4, 3] t q' ∧ ReadyQueue.pickTask 2 q = some (t, q')) ∧
    exists q', runFrom move (schedInit (evenTasks 10) 1) refills = some q' ∧
      (q'.tasks 3).timeSlice = 18 ∧
        (q'.tasks 3).timeSlice.toNat < 2 * (q'.tasks 3).priority.toNat := by
  constructor
  · rcases rqEnqueue_some (queued_init (evenTasks 0) 1) (show 3 < ntask by decide)
      List.not_mem_nil (show 3 ≠ 1 by decide) with ⟨q1, hrun1, hqueued1, -, htasks1, hidle1⟩
    have hne : 4 ≠ q1.idleTask := by
      rw [hidle1]
      decide
    rcases rqEnqueue_some hqueued1 (show 4 < ntask by decide) (by decide) hne with
      ⟨q, hrun, hqueued, -, htasks, -⟩
    have hready : forall t, t ∈ [4, 3] ->
        (q.tasks t).state = TaskStatus.ready ∧ 1 ≤ (q.tasks t).priority := by
      intro t _
      rw [htasks, htasks1]
      exact ⟨rfl, show (1 : UInt32) ≤ 10 by decide⟩
    rcases linux011_choice.left q [4, 3] hqueued (List.cons_ne_nil 4 [3]) hready with
      ⟨t, q', hpicked, hpick⟩
    refine ⟨q, t, q', ?_, hpicked, hpick 2 (Nat.le_refl 2)⟩
    rw [hrun1]
    exact hrun
  · have hrun : (runFrom move (schedInit (evenTasks 10) 1) refills).map
        (fun q => ((q.tasks 3).timeSlice, (q.tasks 3).priority)) = some (18, 10) := by
      decide +kernel
    rcases Option.map_eq_some_iff.mp hrun with ⟨q', hsome, hfields⟩
    rcases Prod.mk.inj hfields with ⟨hslice, hpriority⟩
    have hone : 1 ≤ (q'.tasks 3).priority := by
      rw [hpriority]
      decide
    exact ⟨q', hsome, hslice,
      linux011_choice.right (schedInit (evenTasks 10) 1) q' refills (fun _ => rfl) hsome 3 hone⟩

end Sched
end Kernel
end NicoOS
