import NicoOS.Kernel.Sched.Choice

/-!
# The counter of ready tasks

`running_task_cnt` is kept beside the list by `enqueue` and `dequeue` of both schedulers, but
not by `pick_task`.
-/

namespace NicoOS
namespace Kernel
namespace Sched

open LinkedList ReadyQueue

def Exact (q : ReadyQueue) : Prop :=
  exists xs, Queued q xs ∧ q.runningTaskCnt.toInt = xs.length

/-- The counter is exact before and behind every call. -/
def AlwaysExact (sched : Schedular) : List Call -> ReadyQueue -> Prop
  | [], q => Exact q
  | c :: rest, q => Exact q ∧
      forall t q', sched.call q c = some (t, q') -> AlwaysExact sched rest q'

/-- Every pick that returns has found the ready queue empty. -/
def NeverTakes (sched : Schedular) : List Call -> ReadyQueue -> Prop
  | [], _ => True
  | c :: rest, q => forall t q', sched.call q c = some (t, q') ->
      (c = Call.pick -> listEmpty q.list = true) ∧ NeverTakes sched rest q'

section Counts

variable {sched : Schedular} {q q' : ReadyQueue} {xs ys : List Nat} {t : Nat} {c : Call}

/-- What a call does to the length of the queue and to the counter. -/
def Counted (c : Call) (q : ReadyQueue) (xs : List Nat) (q' : ReadyQueue) (ys : List Nat) : Prop :=
  match c with
  | Call.enqueue _ =>
      ys.length = xs.length + 1 ∧ q'.runningTaskCnt = q.runningTaskCnt + 1
  | Call.dequeue _ =>
      ys.length + 1 = xs.length ∧ q'.runningTaskCnt = q.runningTaskCnt - 1
  | Call.pick => q'.runningTaskCnt = q.runningTaskCnt ∧
      ((xs = [] ∧ ys = []) ∨ (xs ≠ [] ∧ ys.length + 1 = xs.length))

theorem enqueue_counted (hbuilt : Built sched) (h : Queued q xs) (u : Fin ntask)
    (hrun : sched.enqueue u.val q = some q') :
    exists ys, Queued q' ys ∧ Counted (Call.enqueue u) q xs q' ys := by
  rcases hbuilt with heq | heq
  · rw [heq] at hrun
    rcases rqEnqueue_queued h u.isLt hrun with ⟨-, hqueued, hcnt, -⟩
    exact ⟨u.val :: xs, hqueued, rfl, hcnt⟩
  · rw [heq] at hrun
    rcases rrRqEnqueue_queued h u.isLt hrun with ⟨-, hqueued, hcnt⟩
    exact ⟨xs ++ [u.val], hqueued, List.length_append, hcnt⟩

theorem length_erase_add_one (ht : t ∈ xs) : (xs.erase t).length + 1 = xs.length := by
  rw [List.length_erase_of_mem ht]
  have hpos := List.length_pos_of_mem ht
  lia

theorem dequeue_counted (hbuilt : Built sched) (h : Queued q xs) (u : Fin ntask)
    (hrun : sched.dequeue u.val q = some q') :
    exists ys, Queued q' ys ∧ Counted (Call.dequeue u) q xs q' ys := by
  rw [hbuilt.dequeue] at hrun
  rcases rqDequeue_queued h hrun with ⟨hin, hqueued, hcnt⟩
  exact ⟨xs.erase u.val, hqueued, length_erase_add_one hin, hcnt⟩

theorem pickTask_counted (hbuilt : Built sched) (h : Queued q xs)
    (hrun : sched.pickTask q = some (t, q')) :
    exists ys, Queued q' ys ∧ Counted Call.pick q xs q' ys := by
  by_cases hempty : xs = []
  · rw [hempty] at h
    have hidle : sched.pickTask q = some q.pickIdle := by
      rcases hbuilt with heq | heq
      · rw [heq]
        exact pickTask_idle h 2
      · rw [heq]
        exact rrPickTask_idle h
    cases hidle.symm.trans hrun
    exact ⟨[], h.same rfl rfl, rfl, Or.inl ⟨hempty, rfl⟩⟩
  · rcases hbuilt with heq | heq
    · have hfull : Not (listEmpty q.list = true) :=
        fun hlist => hempty ((listEmpty_iff h.list).mp hlist)
      have hpick : sched.pickTask q = pickRounds 2 q := by
        rw [heq]
        exact if_neg hfull
      rw [hpick] at hrun
      rcases pickRounds_cases 2 q h hrun with ⟨hin, hqueued, hcnt⟩
      exact ⟨xs.erase t, hqueued, hcnt, Or.inr ⟨hempty, length_erase_add_one hin⟩⟩
    · rcases List.eq_nil_or_concat xs with hnil | ⟨front, u, hxs⟩
      · exact absurd hnil hempty
      · rw [List.concat_eq_append] at hxs
        rw [hxs] at h
        rw [heq] at hrun
        rcases rrPickTask_some h with ⟨q1, hsome, hqueued, hcnt, -⟩
        cases hsome.symm.trans hrun
        refine ⟨front, hqueued, hcnt, Or.inr ⟨hempty, ?_⟩⟩
        rw [hxs, List.length_append]
        rfl

theorem call_counted (hbuilt : Built sched) (h : Queued q xs)
    (hrun : sched.call q c = some (t, q')) : exists ys, Queued q' ys ∧ Counted c q xs q' ys := by
  cases c with
  | enqueue u =>
      rcases Option.map_eq_some_iff.mp hrun with ⟨q1, hq, heq⟩
      cases heq
      exact enqueue_counted hbuilt h u hq
  | dequeue u =>
      rcases Option.map_eq_some_iff.mp hrun with ⟨q1, hq, heq⟩
      cases heq
      exact dequeue_counted hbuilt h u hq
  | pick => exact pickTask_counted hbuilt h hrun

/-!
# Runs
-/

/-- The counter of a queue cannot overflow while it is exact. -/
theorem exact_iff (h : Queued q xs) : Exact q <-> q.runningTaskCnt = Int32.ofNat xs.length := by
  have hlen := h.length_lt
  have hsmall : xs.length < 2 ^ 31 := Nat.lt_trans hlen (by decide)
  have hint : (Int32.ofNat xs.length).toInt = xs.length := Int32.toInt_ofNat_of_lt hsmall
  constructor
  · intro hex
    rcases hex with ⟨ys, hys, hcnt⟩
    rw [h.unique hys] at hint ⊢
    exact Int32.toInt_inj.mp (hcnt.trans hint.symm)
  · intro hcnt
    refine ⟨xs, h, ?_⟩
    rw [hcnt]
    exact hint

/-- A call keeps the counter exact if and only if it is no pick from a queue with tasks. -/
theorem Counted.exact_iff (hcounted : Counted c q xs q' ys) (h : Queued q xs) (h' : Queued q' ys)
    (hexact : Exact q) : Exact q' <-> (c = Call.pick -> listEmpty q.list = true) := by
  rw [Sched.exact_iff h] at hexact
  rw [Sched.exact_iff h', listEmpty_iff h.list]
  cases c with
  | enqueue u =>
      rcases hcounted with ⟨hlen, hcnt⟩
      constructor
      · exact fun _ hpick => nomatch hpick
      · intro _
        rw [hcnt, hexact, hlen, Int32.ofNat_add]
        rfl
  | dequeue u =>
      rcases hcounted with ⟨hlen, hcnt⟩
      constructor
      · exact fun _ hpick => nomatch hpick
      · intro _
        rw [hcnt, hexact, <- hlen, Int32.ofNat_add]
        exact Int32.add_sub_cancel _ _
  | pick =>
      rcases hcounted with ⟨hcnt, ⟨hxs, hys⟩ | ⟨hne, hlen⟩⟩
      · rw [hcnt, hexact, hxs, hys]
        exact ⟨fun _ _ => rfl, fun _ => rfl⟩
      · constructor
        · intro hsame
          rw [hcnt, hexact] at hsame
          have hxs := h.length_lt
          have hys := h'.length_lt
          have hsmall : xs.length < 2 ^ 31 := Nat.lt_trans hxs (by decide)
          have hsmall' : ys.length < 2 ^ 31 := Nat.lt_trans hys (by decide)
          have hint := congrArg Int32.toInt hsame
          rw [Int32.toInt_ofNat_of_lt hsmall, Int32.toInt_ofNat_of_lt hsmall'] at hint
          lia
        · exact fun hempty => absurd (hempty rfl) hne

theorem alwaysExact_iff (hbuilt : Built sched) (calls : List Call) : forall (q : ReadyQueue)
    (xs : List Nat), Queued q xs -> Exact q ->
    (AlwaysExact sched calls q <-> NeverTakes sched calls q) := by
  induction calls with
  | nil => exact fun q xs _ hexact => ⟨fun _ => trivial, fun _ => hexact⟩
  | cons c rest ih =>
      intro q xs h hexact
      have hstart : forall (rest : List Call) (q : ReadyQueue),
          AlwaysExact sched rest q -> Exact q := by
        intro rest q halways
        cases rest with
        | nil => exact halways
        | cons c rest => exact halways.left
      constructor
      · intro halways t q' hrun
        rcases call_counted hbuilt h hrun with ⟨ys, hqueued, hcounted⟩
        have hrest := halways.right t q' hrun
        have hexact' := hstart rest q' hrest
        exact ⟨(hcounted.exact_iff h hqueued hexact).mp hexact',
          (ih q' ys hqueued hexact').mp hrest⟩
      · intro hnever
        refine ⟨hexact, ?_⟩
        intro t q' hrun
        rcases call_counted hbuilt h hrun with ⟨ys, hqueued, hcounted⟩
        rcases hnever t q' hrun with ⟨hempty, hrest⟩
        have hexact' := (hcounted.exact_iff h hqueued hexact).mpr hempty
        exact (ih q' ys hqueued hexact').mpr hrest

theorem exact_init (tasks : Nat -> Task) (idleTask : Nat) : Exact (schedInit tasks idleTask) :=
  ⟨[], queued_init tasks idleTask, rfl⟩

/--
In the runs of both schedulers `running_task_cnt` is the number of ready tasks in every state
if and only if no pick takes a ready task.
-/
theorem runningTaskCnt_exact_iff (sched : Schedular) (hbuilt : Built sched)
    (tasks : Nat -> Task) (idleTask : Nat) (calls : List Call) :
    AlwaysExact sched calls (schedInit tasks idleTask) <->
      NeverTakes sched calls (schedInit tasks idleTask) :=
  alwaysExact_iff hbuilt calls _ [] (queued_init tasks idleTask) (exact_init tasks idleTask)

theorem runningTaskCnt_exact_enqueue_dequeue :
    AlwaysExact linux011 [Call.enqueue 3, Call.dequeue 3, Call.pick]
      (schedInit (evenTasks 10) 1) := by
  apply (runningTaskCnt_exact_iff linux011 (Or.inl rfl) (evenTasks 10) 1 _).mpr
  intro t q1 hrun1
  rcases call_counted (Or.inl rfl) (queued_init _ _) hrun1 with ⟨xs, hqueued1, hlen1, -⟩
  refine ⟨(fun hpick => nomatch hpick), ?_⟩
  intro u q2 hrun2
  rcases call_counted (Or.inl rfl) hqueued1 hrun2 with ⟨ys, hqueued2, hlen2, -⟩
  refine ⟨(fun hpick => nomatch hpick), ?_⟩
  intro v q3 _
  refine ⟨fun _ => ?_, trivial⟩
  rw [listEmpty_iff hqueued2.list, <- List.length_eq_zero_iff]
  rw [List.length_nil] at hlen1
  lia

/-- A ready task is picked, and the counter is not set back. -/
theorem not_alwaysExact {n : Nat} {u : Fin ntask} (hn : n ≠ 0)
    (hrun : (sched.call q (Call.enqueue u)).bind (fun r => (sched.call r.2 Call.pick).map
      (fun r => (r.2.runningTaskCnt, listForeach (ntask + 1) r.2.list))) =
        some (Int32.ofNat n, some [])) (hsmall : n < 0x80000000) :
    Not (AlwaysExact sched [Call.enqueue u, Call.pick] q) := by
  intro halways
  rcases Option.bind_eq_some_iff.mp hrun with ⟨⟨t, q1⟩, hrun1, hrest⟩
  rcases Option.map_eq_some_iff.mp hrest with ⟨⟨v, q2⟩, hrun2, hvalues⟩
  rcases (halways.right t q1 hrun1).right v q2 hrun2 with ⟨xs, hqueued, hcnt⟩
  have hitems : listForeach (ntask + 1) q2.list = some [] := congrArg Prod.snd hvalues
  have hvalue : q2.runningTaskCnt = Int32.ofNat n := congrArg Prod.fst hvalues
  rw [hqueued.foreach] at hitems
  cases hitems
  rw [hvalue, Int32.toInt_ofNat_of_lt hsmall, List.length_nil] at hcnt
  exact hn (Int.ofNat_inj.mp hcnt)

/-- With both schedulers the counter stays 1 when the only ready task is picked. -/
theorem runningTaskCnt_drifts :
    Not (AlwaysExact linux011 [Call.enqueue 3, Call.pick] (schedInit (evenTasks 10) 1)) ∧
      Not (AlwaysExact roundRobin [Call.enqueue 3, Call.pick] (schedInit (evenTasks 10) 1)) :=
  ⟨not_alwaysExact Nat.one_ne_zero rfl (by decide),
    not_alwaysExact Nat.one_ne_zero rfl (by decide)⟩

end Counts

end Sched
end Kernel
end NicoOS
