import NicoOS.Lib.Arrivals
import NicoOS.Kernel.Sched.Choice

/-!
# The order of the round robin scheduler

`rr_rq_enqueue` puts a task before the tail of the list, and `rr_pick_task` takes the task
before the tail.
-/

namespace NicoOS
namespace Kernel
namespace Sched

open LinkedList ReadyQueue Lib
open Lib.Event (waiting Valid FirstInFirstOut Fair)

def Call.event (c : Call) (t : Nat) : Event Nat :=
  match c with
  | Call.enqueue _ => Event.enqueued t
  | Call.dequeue _ => Event.dequeued t
  | Call.pick => Event.picked t

/-- What happens in a run, up to a call that does not return. -/
def history (sched : Schedular) : List Call -> ReadyQueue -> List (Event Nat)
  | [], _ => []
  | c :: rest, q =>
      match sched.call q c with
      | none => []
      | some (t, q') => c.event t :: history sched rest q'

/-- Every pick finds at most one task. -/
def OneAtATime (events : List (Event Nat)) : Prop :=
  forall before t, before ++ [Event.picked t] <+: events -> (waiting before).length ≤ 1

section Calls

variable {q q' : ReadyQueue} {xs : List Nat} {t : Nat} {c : Call}

/-- What a call that returns says about the queue before it. -/
def Allowed (xs : List Nat) (idleTask t : Nat) : Call -> Prop
  | Call.enqueue _ => t ∉ xs
  | Call.dequeue _ => t ∈ xs
  | Call.pick => (xs = [] ∧ t = idleTask) ∨ exists front, xs = front ++ [t]

/-- The list holds the tasks in the order of their arrival. -/
theorem roundRobin_call (h : Queued q xs) (hrun : roundRobin.call q c = some (t, q')) :
    Queued q' (Event.apply xs (c.event t)) ∧ Allowed xs q.idleTask t c := by
  cases c with
  | enqueue u =>
      rcases Option.map_eq_some_iff.mp hrun with ⟨q1, hq, heq⟩
      cases heq
      have henqueue : rrRqEnqueue u.val q = some q' := hq
      rcases rrRqEnqueue_queued h u.isLt henqueue with ⟨hout, hqueued, -⟩
      exact ⟨hqueued, hout⟩
  | dequeue u =>
      rcases Option.map_eq_some_iff.mp hrun with ⟨q1, hq, heq⟩
      cases heq
      have hdequeue : rqDequeue u.val q = some q' := hq
      rcases rqDequeue_queued h hdequeue with ⟨hin, hqueued, -⟩
      exact ⟨hqueued, hin⟩
  | pick =>
      have hpick : rrPickTask q = some (t, q') := hrun
      rcases List.eq_nil_or_concat xs with hnil | ⟨front, u, hxs⟩
      · rw [hnil] at h ⊢
        cases (rrPickTask_idle h).symm.trans hpick
        exact ⟨h.same rfl rfl, Or.inl ⟨rfl, rfl⟩⟩
      · rw [List.concat_eq_append] at hxs
        rw [hxs] at h ⊢
        rcases rrPickTask_some h with ⟨q1, hsome, hqueued, -, -⟩
        cases hsome.symm.trans hpick
        have hout : t ∉ front := fun hin =>
          List.disjoint_of_nodup_append h.list.nodup hin (List.mem_singleton.mpr rfl)
        refine ⟨?_, Or.inr ⟨front, rfl⟩⟩
        show Queued q' ((front ++ [t]).erase t)
        rw [List.erase_append_right _ hout, List.erase_cons_head, List.append_nil]
        exact hqueued

/-- Every event of a run comes from a call on the tasks that wait. -/
theorem history_split (calls : List Call) : forall (q : ReadyQueue) (xs : List Nat), Queued q xs ->
    forall before e rest, history roundRobin calls q = before ++ e :: rest ->
      exists idle c t, e = c.event t ∧ Allowed (before.foldl Event.apply xs) idle t c := by
  induction calls with
  | nil =>
      intro q xs _ before e rest hsplit
      cases before with
      | nil => cases hsplit
      | cons d before => cases hsplit
  | cons c calls ih =>
      intro q xs h before e rest hsplit
      rw [history] at hsplit
      rcases hrun : roundRobin.call q c with - | ⟨t, q'⟩
      · rw [hrun] at hsplit
        cases before with
        | nil => cases hsplit
        | cons d before => cases hsplit
      · rw [hrun] at hsplit
        rcases roundRobin_call h hrun with ⟨hqueued, hallowed⟩
        cases before with
        | nil =>
            rcases List.cons.inj hsplit with ⟨hevent, -⟩
            exact ⟨q.idleTask, c, t, hevent.symm, hallowed⟩
        | cons d before =>
            rcases List.cons.inj hsplit with ⟨hevent, hlater⟩
            rw [List.foldl_cons, <- hevent]
            exact ih q' _ hqueued before e rest hlater

end Calls

section Runs

variable {calls : List Call} {tasks : Nat -> Task} {idleTask : Nat}

theorem history_allowed {before : List (Event Nat)} {e : Event Nat}
    (h : before ++ [e] <+: history roundRobin calls (schedInit tasks idleTask)) :
    exists idle c t, e = c.event t ∧ Allowed (waiting before) idle t c := by
  rcases h with ⟨rest, hsplit⟩
  rw [List.append_assoc] at hsplit
  exact history_split calls _ [] (queued_init tasks idleTask) before e rest hsplit.symm

theorem history_valid (calls : List Call) (tasks : Nat -> Task) (idleTask : Nat) :
    Valid (history roundRobin calls (schedInit tasks idleTask)) := by
  intro before x h
  rcases history_allowed h with ⟨idle, c, t, he, hallowed⟩
  cases c with
  | enqueue u =>
      cases he
      exact hallowed
  | dequeue u => cases he
  | pick => cases he

theorem history_picked {before : List (Event Nat)} {t : Nat}
    (h : before ++ [Event.picked t] <+: history roundRobin calls (schedInit tasks idleTask)) :
    waiting before = [] ∨ exists front, waiting before = front ++ [t] := by
  rcases history_allowed h with ⟨idle, c, u, he, hallowed⟩
  cases c with
  | enqueue v => cases he
  | dequeue v => cases he
  | pick =>
      cases he
      exact hallowed.imp_left And.left

/--
In a run of the round robin scheduler tasks are picked in the order in which they were
enqueued, none before those that it has found in the queue, if and only if no pick finds more
than one task.
-/
theorem roundRobin_fifo_iff (calls : List Call) (tasks : Nat -> Task) (idleTask : Nat) :
    (FirstInFirstOut (history roundRobin calls (schedInit tasks idleTask)) ∧
        Fair (history roundRobin calls (schedInit tasks idleTask))) <->
      OneAtATime (history roundRobin calls (schedInit tasks idleTask)) := by
  have hvalid := history_valid calls tasks idleTask
  constructor
  · intro hboth before t h
    rcases hboth with ⟨horder, -⟩
    rcases history_picked h with hnil | ⟨front, hfront⟩
    · rw [hnil]
      exact Nat.zero_le 1
    · have hne : waiting before ≠ [] := by
        rw [hfront]
        exact List.append_ne_nil_of_right_ne_nil front (List.cons_ne_nil t [])
      have hhead := horder before t h hne
      have hnodup := hvalid.nodup before ((List.prefix_append before _).trans h)
      rw [hfront] at hhead hnodup ⊢
      cases front with
      | nil => exact Nat.le_refl 1
      | cons u front =>
          cases hhead
          exact absurd (List.mem_append_right front List.mem_cons_self)
            (List.nodup_cons.mp hnodup).left
  · intro hone
    have horder : FirstInFirstOut (history roundRobin calls (schedInit tasks idleTask)) := by
      intro before t h hne
      rcases history_picked h with hnil | ⟨front, hfront⟩
      · exact absurd hnil hne
      · have hlen := hone before t h
        rw [hfront, List.length_append, List.length_singleton] at hlen
        have hnil : front = [] := List.length_eq_zero_iff.mp (by lia)
        rw [hfront, hnil]
        rfl
    exact ⟨horder, hvalid.fair horder⟩

/-- Of two tasks the one that came last is picked, and so is one that yields. -/
theorem roundRobin_lifo :
    history roundRobin [Call.enqueue 3, Call.enqueue 4, Call.pick, Call.enqueue 4, Call.pick]
        (schedInit (evenTasks 10) 1) =
      [Event.enqueued 3, Event.enqueued 4, Event.picked 4, Event.enqueued 4, Event.picked 4] ∧
    Not (FirstInFirstOut (history roundRobin [Call.enqueue 3, Call.enqueue 4, Call.pick,
      Call.enqueue 4, Call.pick] (schedInit (evenTasks 10) 1)) ∧
      Fair (history roundRobin [Call.enqueue 3, Call.enqueue 4, Call.pick,
        Call.enqueue 4, Call.pick] (schedInit (evenTasks 10) 1))) := by
  have hrun : history roundRobin
      [Call.enqueue 3, Call.enqueue 4, Call.pick, Call.enqueue 4, Call.pick]
        (schedInit (evenTasks 10) 1) =
      [Event.enqueued 3, Event.enqueued 4, Event.picked 4, Event.enqueued 4, Event.picked 4] := rfl
  refine ⟨hrun, ?_⟩
  intro hboth
  rcases hboth with ⟨horder, -⟩
  rw [hrun] at horder
  have hhead := horder [Event.enqueued 3, Event.enqueued 4] 4
    ⟨[Event.enqueued 4, Event.picked 4], rfl⟩ (List.cons_ne_nil 3 [4])
  cases hhead

end Runs

end Sched
end Kernel
end NicoOS
