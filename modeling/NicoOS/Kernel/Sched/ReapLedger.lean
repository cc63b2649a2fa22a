import NicoOS.Kernel.Sched.Reaping

/-!
# Each exit is returned at most once

A zombie carries the number of its exit until `task_wait` of its parent returns
it; the numbers that were returned belong to no zombie any more.
-/

namespace NicoOS
namespace Kernel
namespace ExitWait

open Lib
open Sched (TaskStatus Fault Task ntask)

structure Ledger (s : State) : Prop where
  reaping : forall t z pid status, s.calls t = WaitCall.reaping z pid status ->
    IsZombie s z ∧ IsChild s z t ∧ (s.kernel.tasks z).pid = pid ∧
    (s.kernel.tasks z).exitStatus = status
  recorded : forall t, IsZombie s t ->
    s.exits[s.exitNo t]? = some ⟨t, (s.kernel.tasks t).pid, (s.kernel.tasks t).exitStatus⟩ ∧
    Not (s.exitNo t ∈ s.reaps.map Reap.exitNo)
  exited : forall r, r ∈ s.reaps ->
    exists slot, s.exits[r.exitNo]? = some ⟨slot, r.pid, r.status⟩
  once : (s.reaps.map Reap.exitNo).Nodup

/-- The zombies of a state are those of another one. -/
structure SameZombies (k k' : Sched.State) : Prop where
  zombie : forall t, (k'.tasks t).state = TaskStatus.zombie <->
    (k.tasks t).state = TaskStatus.zombie
  parent : forall t, (k.tasks t).state = TaskStatus.zombie ->
    (k'.tasks t).parent = (k.tasks t).parent
  pid : forall t, (k.tasks t).state = TaskStatus.zombie -> (k'.tasks t).pid = (k.tasks t).pid
  exitStatus : forall t, (k.tasks t).state = TaskStatus.zombie ->
    (k'.tasks t).exitStatus = (k.tasks t).exitStatus

section Ledgers

variable {s : State} {k k' : Sched.State} {t : Nat}

theorem Calm.sameZombies (h : Calm k k') : SameZombies k k' :=
  ⟨fun t => (h.state t).zombie_iff, fun t _ => h.parent t, fun t _ => h.pid t,
    fun t _ => h.exitStatus t⟩

theorem sameZombies_of_other (hold : (k.tasks t).state ≠ TaskStatus.zombie)
    (hnew : (k'.tasks t).state ≠ TaskStatus.zombie)
    (hother : forall u, u ≠ t -> k'.tasks u = k.tasks u) : SameZombies k k' := by
  have hne : forall u, (k.tasks u).state = TaskStatus.zombie -> u ≠ t := by
    intro u hz heq
    rw [heq] at hz
    exact hold hz
  constructor
  · intro u
    cases Decidable.em (u = t) with
    | inl heq =>
        rw [heq]
        exact ⟨fun hz => absurd hz hnew, fun hz => absurd hz hold⟩
    | inr hu => rw [hother u hu]
  · intro u hz
    rw [hother u (hne u hz)]
  · intro u hz
    rw [hother u (hne u hz)]
  · intro u hz
    rw [hother u (hne u hz)]

theorem SameZombies.trans {k'' : Sched.State} (h : SameZombies k k') (h' : SameZombies k' k'') :
    SameZombies k k'' := by
  constructor
  · exact fun t => (h'.zombie t).trans (h.zombie t)
  · exact fun t hz => (h'.parent t ((h.zombie t).mpr hz)).trans (h.parent t hz)
  · exact fun t hz => (h'.pid t ((h.zombie t).mpr hz)).trans (h.pid t hz)
  · exact fun t hz => (h'.exitStatus t ((h.zombie t).mpr hz)).trans (h.exitStatus t hz)

theorem Ledger.setKernel (h : Ledger s) (hsame : SameZombies s.kernel k) :
    Ledger (s.setKernel k) := by
  constructor
  · intro u z pid status hcall
    rcases h.reaping u z pid status hcall with ⟨hz, hchild, hpid, hstatus⟩
    exact ⟨(hsame.zombie z).mpr hz, (hsame.parent z hz).trans hchild,
      (hsame.pid z hz).trans hpid, (hsame.exitStatus z hz).trans hstatus⟩
  · intro u hz
    have hold : IsZombie s u := (hsame.zombie u).mp hz
    rcases h.recorded u hold with ⟨hexit, hfresh⟩
    refine ⟨?_, hfresh⟩
    change s.exits[s.exitNo u]? = some ⟨u, (k.tasks u).pid, (k.tasks u).exitStatus⟩
    rw [hsame.pid u hold, hsame.exitStatus u hold]
    exact hexit
  · exact h.exited
  · exact h.once

/-- A call moves on; if it reaps, it holds a zombie of its own. -/
theorem Ledger.setCall (h : Ledger s) {c : WaitCall}
    (hc : forall z pid status, c = WaitCall.reaping z pid status ->
      IsZombie s z ∧ IsChild s z t ∧ (s.kernel.tasks z).pid = pid ∧
      (s.kernel.tasks z).exitStatus = status) : Ledger (s.setCall t c) := by
  constructor
  · intro u z pid status hcall
    change Function.update s.calls t c u = _ at hcall
    rw [Function.update_apply] at hcall
    split at hcall
    · rename_i heq
      rw [heq]
      exact hc z pid status hcall
    · exact h.reaping u z pid status hcall
  · exact h.recorded
  · exact h.exited
  · exact h.once

/-- The numbers of the exits that were returned are in use. -/
theorem Ledger.reaped_lt (h : Ledger s) {n : Nat} (hn : n ∈ s.reaps.map Reap.exitNo) :
    n < s.exits.length := by
  rcases List.mem_map.mp hn with ⟨r, hr, rfl⟩
  rcases h.exited r hr with ⟨slot, hexit⟩
  exact (List.getElem?_eq_some_iff.mp hexit).choose

theorem Ledger.exit {c p : Nat} {status : Int} (h : Ledger s) (hfamily : Family s.kernel)
    (hrun : (s.kernel.tasks c).state = TaskStatus.running) (hcall : s.calls c = WaitCall.idle)
    (hexit : Exited c p status s.kernel k) :
    Ledger ((s.recordExit ⟨c, (s.kernel.tasks c).pid, status⟩).setKernel k) := by
  have hne : forall u, IsZombie s u -> u ≠ c := by
    intro u hz heq
    rw [IsZombie, heq, hrun] at hz
    cases hz
  have hkeep : forall u, u ≠ c -> ((k.tasks u).state = TaskStatus.zombie <-> IsZombie s u) :=
    fun u hu => (hexit.state u hu).zombie_iff
  constructor
  · intro u z pid st hreap
    change s.calls u = _ at hreap
    rcases h.reaping u z pid st hreap with ⟨hz, hchild, hpid, hst⟩
    have huc : u ≠ c := by
      intro heq
      rw [heq, hcall] at hreap
      cases hreap
    have hzc := hne z hz
    refine ⟨(hkeep z hzc).mpr hz, ?_, (hexit.pid z).trans hpid,
      (hexit.exitStatus z hzc).trans hst⟩
    have htable := hfamily.inTable z u hchild
    change (k.tasks z).parent = some u
    rw [hexit.parent z htable, if_neg]
    · exact hchild
    · intro hc
      rw [IsChild, hc] at hchild
      exact huc (Option.some.inj hchild).symm
  · intro u hz
    change (k.tasks u).state = _ at hz
    change (s.exits ++ [⟨c, (s.kernel.tasks c).pid, status⟩])[Function.update s.exitNo c
      s.exits.length u]? = some ⟨u, (k.tasks u).pid, (k.tasks u).exitStatus⟩ ∧
      Not (Function.update s.exitNo c s.exits.length u ∈ s.reaps.map Reap.exitNo)
    rw [Function.update_apply]
    cases Decidable.em (u = c) with
    | inl heq =>
        rw [if_pos heq, heq, hexit.pid c, hexit.code]
        refine ⟨List.getElem?_concat_length, ?_⟩
        intro hn
        exact Nat.lt_irrefl _ (h.reaped_lt hn)
    | inr huc =>
        rw [if_neg huc, hexit.pid u, hexit.exitStatus u huc]
        rcases h.recorded u ((hkeep u huc).mp hz) with ⟨hrec, hfresh⟩
        have hlt : s.exitNo u < s.exits.length := (List.getElem?_eq_some_iff.mp hrec).choose
        rw [List.getElem?_append_left hlt]
        exact ⟨hrec, hfresh⟩
  · intro r hr
    rcases h.exited r hr with ⟨slot, hrec⟩
    have hlt : r.exitNo < s.exits.length := (List.getElem?_eq_some_iff.mp hrec).choose
    refine ⟨slot, ?_⟩
    change (s.exits ++ [_])[r.exitNo]? = _
    rw [List.getElem?_append_left hlt]
    exact hrec
  · exact h.once

/-- The parent returns a zombie, whose slot is freed. -/
theorem Ledger.reap {c z pid : Nat} {status : Int} (h : Ledger s)
    (hcall : s.calls c = WaitCall.reaping z pid status)
    (hfreed : (k.tasks z).state ≠ TaskStatus.zombie)
    (hother : forall u, u ≠ z -> k.tasks u = s.kernel.tasks u) :
    Ledger (((s.setCall c WaitCall.idle).recordReap ⟨c, s.exitNo z, pid, status⟩).setKernel k) := by
  rcases h.reaping c z pid status hcall with ⟨hz, hchild, hpid, hstatus⟩
  rcases h.recorded z hz with ⟨hrec, hfresh⟩
  have hne : forall u, (k.tasks u).state = TaskStatus.zombie -> u ≠ z := by
    intro u hu heq
    rw [heq] at hu
    exact hfreed hu
  constructor
  · intro u y q st hreap
    change Function.update s.calls c WaitCall.idle u = _ at hreap
    rw [Function.update_apply] at hreap
    split at hreap
    · cases hreap
    · rename_i huc
      rcases h.reaping u y q st hreap with ⟨hy, hychild, hq, hst⟩
      have hyz : y ≠ z := by
        intro heq
        rw [IsChild, heq, hchild] at hychild
        exact huc (Option.some.inj hychild).symm
      refine ⟨?_, ?_, ?_, ?_⟩
      · change (k.tasks y).state = _
        rw [hother y hyz]
        exact hy
      · change (k.tasks y).parent = _
        rw [hother y hyz]
        exact hychild
      · change (k.tasks y).pid = _
        rw [hother y hyz]
        exact hq
      · change (k.tasks y).exitStatus = _
        rw [hother y hyz]
        exact hst
  · intro u hu
    change (k.tasks u).state = _ at hu
    have huz := hne u hu
    have hold : IsZombie s u := by
      rw [hother u huz] at hu
      exact hu
    rcases h.recorded u hold with ⟨hurec, hufresh⟩
    refine ⟨?_, ?_⟩
    · change s.exits[s.exitNo u]? = some ⟨u, (k.tasks u).pid, (k.tasks u).exitStatus⟩
      rw [hother u huz]
      exact hurec
    · change Not (s.exitNo u ∈ (s.reaps ++ [_]).map Reap.exitNo)
      rw [List.map_append, List.mem_append]
      intro hor
      rcases hor with hmem | hmem
      · exact hufresh hmem
      · have heq : s.exitNo u = s.exitNo z := List.mem_singleton.mp hmem
        rw [heq, hrec] at hurec
        exact huz (congrArg Exit.slot (Option.some.inj hurec)).symm
  · intro r hr
    rcases List.mem_append.mp hr with hold | hlast
    · exact h.exited r hold
    · rw [List.mem_singleton.mp hlast]
      refine ⟨z, ?_⟩
      change s.exits[s.exitNo z]? = some ⟨z, pid, status⟩
      rw [hrec, hpid, hstatus]
  · change ((s.reaps ++ [_]).map Reap.exitNo).Nodup
    rw [List.map_append]
    refine h.once.append (List.nodup_singleton _) ?_
    intro n hn hlast
    rw [List.mem_singleton.mp hlast] at hn
    exact hfresh hn

end Ledgers

/-!
# Scans
-/

section Scans

variable {k : Sched.State} {t : Nat}

theorem mem_children_iff (hfamily : Family k) :
    t ∈ Sched.children k <-> (k.tasks t).parent = some k.current := by
  unfold Sched.children
  rw [List.mem_filter, List.mem_range, decide_eq_true_eq]
  exact ⟨fun h => h.right, fun h => ⟨hfamily.inTable t _ h, h⟩⟩

theorem scan_found (hfamily : Family k) (h : scan k = Scan.found t) :
    (k.tasks t).parent = some k.current ∧ (k.tasks t).state = TaskStatus.zombie := by
  unfold scan at h
  split at h
  · rename_i u hfind
    cases h
    have hzombie := List.find?_some hfind
    exact ⟨(mem_children_iff hfamily).mp (List.mem_of_find?_eq_some hfind),
      of_decide_eq_true hzombie⟩
  · split at h
    · cases h
    · cases h

theorem scan_noChildren (hfamily : Family k) (h : scan k = Scan.noChildren) :
    forall u, (k.tasks u).parent ≠ some k.current := by
  unfold scan at h
  split at h
  · cases h
  · split at h
    · rename_i hnil
      intro u hu
      have hmem := (mem_children_iff hfamily).mpr hu
      rw [hnil] at hmem
      exact List.not_mem_nil hmem
    · cases h

theorem scan_asleep (hfamily : Family k) (h : scan k = Scan.asleep) :
    (exists u, (k.tasks u).parent = some k.current) ∧
      forall u, (k.tasks u).parent = some k.current -> (k.tasks u).state ≠ TaskStatus.zombie := by
  unfold scan at h
  split at h
  · cases h
  · rename_i hfind
    split at h
    · cases h
    · rename_i hsome
      constructor
      · rcases List.exists_mem_of_ne_nil _ hsome with ⟨u, hu⟩
        exact ⟨u, (mem_children_iff hfamily).mp hu⟩
      · intro u hu hz
        have hnone := List.find?_eq_none.mp hfind u ((mem_children_iff hfamily).mpr hu)
        exact hnone (decide_eq_true hz)

end Scans

/-!
# Steps
-/

structure Inv (s : State) : Prop where
  queued : Queued s.kernel
  running : (s.kernel.tasks s.kernel.current).state = TaskStatus.running
  family : Family s.kernel
  ledger : Ledger s

section Steps

variable {s s' : State} {a : Action}

/-- A step that fails an assertion changes nothing that the invariant is about. -/
theorem Inv.panic (h : Inv s) :
    Inv { s with kernel := { s.kernel with panicked := true } } :=
  ⟨⟨h.queued.nodup, h.queued.ready, h.queued.idleOut, h.queued.idle⟩, h.running,
    ⟨h.family.inTable, h.family.notSelf, h.family.alive, h.family.init, h.family.initRoot,
      h.family.noLost⟩,
    ⟨h.ledger.reaping, h.ledger.recorded, h.ledger.exited, h.ledger.once⟩⟩

/-- The system went on with a kernel state, or an assertion failed. -/
theorem take_cases {next : Sched.State -> State} {r : Except Fault Sched.State}
    (h : s.take next r = some s') :
    (exists k, r = Except.ok k ∧ s' = next k) ∨
      s' = { s with kernel := { s.kernel with panicked := true } } := by
  match r, h with
  | Except.ok k, h =>
      cases h
      exact Or.inl ⟨k, rfl, rfl⟩
  | Except.error Fault.assertion, h =>
      cases h
      exact Or.inr rfl
  | Except.error Fault.endless, h => cases h

/-- What a step gives: the invariant, and the protocol unless an assertion failed. -/
def Keeps (s : State) (a : Action) (s' : State) : Prop :=
  Inv s' ∧ (s'.kernel.panicked = false -> StepProtocol s a s')

theorem keeps_panic (h : Inv s)
    (hs' : s' = { s with kernel := { s.kernel with panicked := true } }) : Keeps s a s' := by
  subst hs'
  refine ⟨h.panic, ?_⟩
  intro hno
  cases hno

/-- A step that leaves the zombies and the records alone. -/
theorem stepProtocol_of_same (hsame : SameZombies s.kernel s'.kernel)
    (hreaps : s'.reaps = s.reaps) (hchildless : s'.childless = s.childless)
    (hfree : a ≠ Action.free) (hwait : a ≠ Action.wait)
    (hexit : forall status, a ≠ Action.exit status) : StepProtocol s a s' := by
  constructor
  · intro t hz hno
    exact absurd ((hsame.zombie t).mpr hz) hno
  · exact fun heq => absurd heq hfree
  · exact fun _ => hreaps
  · exact fun heq => absurd heq hwait
  · exact fun _ => hchildless
  · exact fun status heq => absurd heq (hexit status)

theorem create_keeps (h : Inv s) (priority : UInt32) :
    Keeps s (Action.sched (Sched.Action.create priority))
      (s.setKernel (Sched.kthreadCreate priority s.kernel)) := by
  rcases kthreadCreate_cases s.kernel priority with heq | ⟨t, hmem, hunused, heq⟩
  · rw [heq]
    refine ⟨h, fun _ => stepProtocol_of_same (Calm.refl s.kernel).sameZombies rfl rfl ?_ ?_ ?_⟩
    · exact fun hfalse => Action.noConfusion hfalse
    · exact fun hfalse => Action.noConfusion hfalse
    · exact fun _ hfalse => Action.noConfusion hfalse
  · rw [heq]
    have hcurrent : s.kernel.current ≠ t := by
      intro hcur
      have hrun := h.running
      rw [hcur, hunused] at hrun
      cases hrun
    have htasks : forall u, u ≠ t -> ({ s.kernel.setTask t (newTask s.kernel priority) with
        nextPid := s.kernel.nextPid + 1 } : Sched.State).tasks u = s.kernel.tasks u :=
      fun u hu => if_neg hu
    have hnew : ({ s.kernel.setTask t (newTask s.kernel priority) with
        nextPid := s.kernel.nextPid + 1 } : Sched.State).tasks t = newTask s.kernel priority :=
      if_pos rfl
    have hsame := sameZombies_of_other (k := s.kernel) (by rw [hunused]; simp)
      (by rw [hnew]; simp [newTask]) htasks
    refine ⟨⟨⟨h.queued.nodup, ?_, h.queued.idleOut, ?_⟩, ?_, ?_, h.ledger.setKernel hsame⟩,
      fun _ => stepProtocol_of_same hsame rfl rfl ?_ ?_ ?_⟩
    · intro u hu
      have hready := h.queued.ready u hu
      change (({ s.kernel.setTask t (newTask s.kernel priority) with
        nextPid := s.kernel.nextPid + 1 } : Sched.State).tasks u).state = _
      rw [htasks u]
      · exact hready
      · intro hut
        rw [hut, hunused] at hready
        cases hready
    · change Neutral (({ s.kernel.setTask t (newTask s.kernel priority) with
        nextPid := s.kernel.nextPid + 1 } : Sched.State).tasks s.kernel.idleTask).state
      rw [htasks]
      · exact h.queued.idle
      · intro hidle
        have hneutral := h.queued.idle
        rw [hidle, hunused] at hneutral
        exact hneutral.right.left rfl
    · change (({ s.kernel.setTask t (newTask s.kernel priority) with
        nextPid := s.kernel.nextPid + 1 } : Sched.State).tasks s.kernel.current).state = _
      rw [htasks _ hcurrent]
      exact h.running
    · exact h.family.create h.running hunused hmem (fun u => rfl) rfl
    · exact fun hfalse => Action.noConfusion hfalse
    · exact fun hfalse => Action.noConfusion hfalse
    · exact fun _ hfalse => Action.noConfusion hfalse

/-- The actions of the scheduler, of semaphores and of `task_wakeup`. -/
theorem calm_keeps {b : Sched.Action} (h : Inv s) (hlegal : Sched.Legal s.kernel b)
    (hb : IsCalmAction b)
    (htake : s.take s.setKernel (Sched.perform s.kernel b) = some s') :
    Keeps s (Action.sched b) s' := by
  rcases take_cases htake with ⟨k, hok, rfl⟩ | hpanic
  · have hscheduled := perform_scheduled h.queued h.running hlegal hb hok
    have hsame := hscheduled.calm.sameZombies
    refine ⟨⟨hscheduled.queued, hscheduled.running, h.family.calm hscheduled.calm,
      h.ledger.setKernel hsame⟩, fun _ => stepProtocol_of_same hsame rfl rfl ?_ ?_ ?_⟩
    · exact fun hfalse => Action.noConfusion hfalse
    · exact fun hfalse => Action.noConfusion hfalse
    · exact fun _ hfalse => Action.noConfusion hfalse
  · exact keeps_panic h hpanic

theorem sched_keeps {b : Sched.Action} (h : Inv s) (hlegal : Sched.Legal s.kernel b)
    (hperform : perform s (Action.sched b) = some s') : Keeps s (Action.sched b) s' := by
  have hguard : forall (c : Bool) (r : Option State),
      (if c then none else r) = some s' -> r = some s' := by
    intro c r hr
    cases c with
    | true => cases hr
    | false => exact hr
  cases b with
  | create priority =>
      have htake := hguard _ _ hperform
      cases htake
      exact create_keeps h priority
  | exit status => cases hperform
  | wait => cases hperform
  | wakeup t => exact calm_keeps h hlegal trivial hperform
  | yield => exact calm_keeps h hlegal trivial (hguard _ _ hperform)
  | block => exact calm_keeps h hlegal trivial (hguard _ _ hperform)
  | timer => exact calm_keeps h hlegal trivial hperform
  | semWait i => exact calm_keeps h hlegal trivial (hguard _ _ hperform)
  | semSignal i => exact calm_keeps h hlegal trivial hperform

/-- What `task_free` leaves. -/
structure Freed (t : Nat) (k k' : Sched.State) : Prop where
  unused : (k'.tasks t).state = TaskStatus.unused
  others : forall u, u ≠ t -> k'.tasks u = k.tasks u
  queue : k'.queue = k.queue
  current : k'.current = k.current
  idleTask : k'.idleTask = k.idleTask

theorem taskFree_freed {k k' : Sched.State} {t : Nat} (h : Sched.taskFree k t = Except.ok k') :
    Freed t k k' := by
  unfold Sched.taskFree at h
  split at h
  · cases h
  · cases h
    refine ⟨?_, fun u hu => if_neg hu, rfl, rfl, rfl⟩
    rw [setTask_tasks, if_pos rfl]

theorem Freed.queued {k k' : Sched.State} {t : Nat} (hfreed : Freed t k k') (h : Queued k)
    (hready : (k.tasks t).state ≠ TaskStatus.ready) (hidle : k.idleTask ≠ t) : Queued k' := by
  refine ⟨?_, ?_, ?_, ?_⟩
  · rw [hfreed.queue]
    exact h.nodup
  · intro u hu
    rw [hfreed.queue] at hu
    have hold := h.ready u hu
    rw [hfreed.others u]
    · exact hold
    · intro heq
      rw [heq] at hold
      exact hready hold
  · rw [hfreed.queue, hfreed.idleTask]
    exact h.idleOut
  · rw [hfreed.idleTask, hfreed.others _ hidle]
    exact h.idle

theorem discard_keeps {t : Nat} (h : Inv s) (hlegal : Legal s (Action.discard t))
    (hperform : perform s (Action.discard t) = some s') : Keeps s (Action.discard t) s' := by
  rcases hlegal with ⟨hallocated, _, hinit, hidle⟩
  rcases take_cases hperform with ⟨k, hok, rfl⟩ | hpanic
  · have hfreed := taskFree_freed hok
    have hsame := sameZombies_of_other (k := s.kernel) (by rw [hallocated]; simp)
      (by rw [hfreed.unused]; simp) hfreed.others
    have hchildless : forall u, (s.kernel.tasks u).parent ≠ some t := by
      intro u hu
      rcases (h.family.alive u t hu).right.right with heq | hne
      · exact hinit heq
      · exact hne hallocated
    have hcurrent : s.kernel.current ≠ t := by
      intro heq
      have hrun := h.running
      rw [heq, hallocated] at hrun
      cases hrun
    refine ⟨⟨hfreed.queued h.queued (by rw [hallocated]; simp) (Ne.symm hidle), ?_,
      h.family.free hchildless hinit hok, h.ledger.setKernel hsame⟩,
      fun _ => stepProtocol_of_same hsame rfl rfl ?_ ?_ ?_⟩
    · change (k.tasks k.current).state = _
      rw [hfreed.current, hfreed.others _ hcurrent]
      exact h.running
    · exact fun hfalse => Action.noConfusion hfalse
    · exact fun hfalse => Action.noConfusion hfalse
    · exact fun _ hfalse => Action.noConfusion hfalse
  · exact keeps_panic h hpanic

theorem ne_append_singleton {α : Type} (xs : List α) (x : α) : xs ≠ xs ++ [x] := by
  intro hsame
  have hlen := congrArg List.length hsame
  rw [List.length_append, List.length_singleton] at hlen
  exact absurd hlen (Nat.ne_of_lt (Nat.lt_succ_self _))

theorem found_keeps {t : Nat} (h : Inv s) (hscan : scan s.kernel = Scan.found t) :
    Keeps s Action.wait (s.setCall s.kernel.current
      (WaitCall.reaping t (s.kernel.tasks t).pid (s.kernel.tasks t).exitStatus)) := by
  rcases scan_found h.family hscan with ⟨hchild, hzombie⟩
  refine ⟨⟨h.queued, h.running, h.family, h.ledger.setCall ?_⟩, fun _ => ⟨?_, ?_, ?_, ?_, ?_, ?_⟩⟩
  · intro z pid status heq
    cases heq
    exact ⟨hzombie, hchild, rfl, rfl⟩
  · intro u hz hno
    exact absurd hz hno
  · exact fun hfalse => Action.noConfusion hfalse
  · exact fun _ => rfl
  · intro _
    constructor
    · intro hsame
      exact absurd hsame (ne_append_singleton _ _)
    · intro hnone
      exact absurd hchild (hnone t)
  · exact fun hne => absurd rfl hne
  · exact fun _ hfalse => Action.noConfusion hfalse

theorem childless_keeps (h : Inv s) (hscan : scan s.kernel = Scan.noChildren) :
    Keeps s Action.wait { s.setCall s.kernel.current WaitCall.idle with
      childless := s.childless ++ [s.kernel.current] } := by
  have hledger := h.ledger.setCall (t := s.kernel.current) (c := WaitCall.idle)
    (fun _ _ _ heq => WaitCall.noConfusion heq)
  refine ⟨⟨h.queued, h.running, h.family,
    ⟨hledger.reaping, hledger.recorded, hledger.exited, hledger.once⟩⟩,
    fun _ => ⟨?_, ?_, ?_, ?_, ?_, ?_⟩⟩
  · intro u hz hno
    exact absurd hz hno
  · exact fun hfalse => Action.noConfusion hfalse
  · exact fun _ => rfl
  · exact fun _ => ⟨fun _ => scan_noChildren h.family hscan, fun _ => rfl⟩
  · exact fun hne => absurd rfl hne
  · exact fun _ hfalse => Action.noConfusion hfalse

theorem asleep_keeps (h : Inv s) (hidle : s.kernel.current ≠ s.kernel.idleTask)
    (hscan : scan s.kernel = Scan.asleep)
    (htake : s.take (s.setCall s.kernel.current WaitCall.scanning).setKernel
      (Sched.schedule (s.kernel.setState s.kernel.current TaskStatus.waiting)) = some s') :
    Keeps s Action.wait s' := by
  rcases scan_asleep h.family hscan with ⟨⟨child, hchild⟩, hlive⟩
  rcases take_cases htake with ⟨k, hok, rfl⟩ | hpanic
  · have hqueued := suspend_queued h.queued h.running (b := TaskStatus.waiting)
      (fun heq => absurd heq hidle)
    have hother : forall u, u ≠ s.kernel.current ->
        (s.kernel.setState s.kernel.current TaskStatus.waiting).tasks u = s.kernel.tasks u :=
      fun u hu => if_neg hu
    have hwaiting : SameZombies s.kernel
        (s.kernel.setState s.kernel.current TaskStatus.waiting) := by
      apply sameZombies_of_other (t := s.kernel.current) _ _ hother
      · rw [h.running]
        simp
      · rw [setState_state, if_pos rfl]
        simp
    rcases schedule_calm hqueued hok with ⟨hqueued', hcalm, hrun⟩
    have hsame := hwaiting.trans hcalm.sameZombies
    have hledger := (h.ledger.setCall (t := s.kernel.current) (c := WaitCall.scanning)
      (fun _ _ _ heq => WaitCall.noConfusion heq)).setKernel hsame
    refine ⟨⟨hqueued', hrun, (h.family.wait hlive).calm hcalm, hledger⟩,
      fun _ => ⟨?_, ?_, ?_, ?_, ?_, ?_⟩⟩
    · intro u hz hno
      exact absurd ((hsame.zombie u).mpr hz) hno
    · exact fun hfalse => Action.noConfusion hfalse
    · exact fun _ => rfl
    · intro _
      constructor
      · intro heq
        exact absurd heq (ne_append_singleton _ _)
      · intro hnone
        exact absurd hchild (hnone child)
    · exact fun hne => absurd rfl hne
    · exact fun _ hfalse => Action.noConfusion hfalse
  · exact keeps_panic h hpanic

theorem wait_keeps (h : Inv s) (hidle : s.kernel.current ≠ s.kernel.idleTask)
    (hround : waitRound s = some s') : Keeps s Action.wait s' := by
  unfold waitRound at hround
  simp only at hround
  split at hround
  · rename_i t hscan
    cases hround
    exact found_keeps h hscan
  · rename_i hscan
    cases hround
    exact childless_keeps h hscan
  · rename_i hscan
    exact asleep_keeps h hidle hscan hround

theorem free_keeps (h : Inv s) (hfinish : finishWait s = some s') :
    Keeps s Action.free s' := by
  unfold finishWait at hfinish
  simp only at hfinish
  split at hfinish
  · rename_i t pid status hcall
    rcases h.ledger.reaping _ _ _ _ hcall with ⟨hzombie, hchild, hpid, hstatus⟩
    rcases h.ledger.recorded t hzombie with ⟨hrec, _⟩
    rcases take_cases hfinish with ⟨k, hok, rfl⟩ | hpanic
    · have hfreed := taskFree_freed hok
      have hstate : (s.kernel.tasks t).state = TaskStatus.zombie := hzombie
      have hcurrent : s.kernel.current ≠ t := by
        intro heq
        have hrun := h.running
        rw [heq, hstate] at hrun
        cases hrun
      have hidle : s.kernel.idleTask ≠ t := by
        intro heq
        have hneutral := h.queued.idle
        rw [heq] at hneutral
        exact hneutral.left hstate
      have hinit : t ≠ s.kernel.initProc := by
        intro heq
        rw [heq] at hstate
        exact h.family.init.left hstate
      have hchildless : forall u, (s.kernel.tasks u).parent ≠ some t := by
        intro u hu
        exact (h.family.alive u t hu).left hstate
      refine ⟨⟨hfreed.queued h.queued (by rw [hstate]; simp) hidle, ?_,
        h.family.free hchildless hinit hok,
        h.ledger.reap hcall (by rw [hfreed.unused]; simp) hfreed.others⟩,
        fun _ => ⟨?_, ?_, ?_, ?_, ?_, ?_⟩⟩
      · change (k.tasks k.current).state = _
        rw [hfreed.current, hfreed.others _ hcurrent]
        exact h.running
      · exact fun _ _ _ => rfl
      · intro _
        refine ⟨t, pid, status, hcall, hzombie, hchild, hpid, hstatus, ?_, rfl, hfreed.unused, ?_⟩
        · rw [hrec, hpid, hstatus]
        · intro u hu hz
          change (k.tasks u).state = _
          rw [hfreed.others u hu]
          exact hz
      · exact fun hne => absurd rfl hne
      · exact fun hfalse => Action.noConfusion hfalse
      · exact fun _ => rfl
      · exact fun _ hfalse => Action.noConfusion hfalse
    · exact keeps_panic h hpanic
  · cases hfinish

theorem taskExit_exited {k k' : Sched.State} {status : Int} (hqueued : Queued k)
    (hfamily : Family k) (hrun : (k.tasks k.current).state = TaskStatus.running)
    (hidle : k.current ≠ k.idleTask) (hexit : Sched.taskExit status k = Except.ok k') :
    exists p k3, (k.tasks k.current).parent = some p ∧ k.current ≠ k.initProc ∧
      Exited k.current p status k k3 ∧ Queued k' ∧ Calm k3 k' ∧
      (k'.tasks k'.current).state = TaskStatus.running := by
  unfold Sched.taskExit at hexit
  split at hexit
  · cases hexit
  · rename_i p hparent
    split at hexit
    · cases hexit
    · rename_i hinit
      rcases bind_ok hexit with ⟨k1, hwake, hrest⟩
      rcases bind_ok hrest with ⟨k2, hloop, hschedule⟩
      have hwoken := wakeParent_woken hqueued hwake
      have hinit1 : k1.initProc = k.initProc := hwoken.calm.initProc
      have hinitMoves := hwoken.calm.state k.initProc
      have hadopted : Adopted k.current (List.range ntask) k1 k2 := by
        apply reparent_adopted _ hwoken.queued _ _ _ hloop
        · rw [hinit1]
          exact hinit
        · rw [hinit1]
          exact fun hz => hfamily.init.left (hinitMoves.zombie_iff.mp hz)
        · rw [hinit1]
          exact fun hu => hfamily.init.right (hinitMoves.unused_iff.mp hu)
      have hpc : p ≠ k.current := by
        intro heq
        rw [heq] at hparent
        exact hfamily.notSelf _ hparent
      have hexited := exited_of_steps status hrun hidle hinit hpc hfamily.init.left
        hfamily.init.right hwoken hadopted
      rcases schedule_calm hexited.queued hschedule with ⟨hqueued', hcalm, hrun'⟩
      exact ⟨p, _, hparent, hinit, hexited, hqueued', hcalm, hrun'⟩

theorem Exited.childless {c p : Nat} {status : Int} {k k' : Sched.State} (hfamily : Family k)
    (hinit : c ≠ k.initProc) (h : Exited c p status k k') (u : Nat) :
    (k'.tasks u).parent ≠ some c := by
  intro hu
  cases Nat.lt_or_ge u ntask with
  | inr hge =>
      rw [h.parentOut u hge] at hu
      exact absurd (hfamily.inTable u _ hu) (Nat.not_lt.mpr hge)
  | inl hlt =>
      rw [h.parent u hlt] at hu
      split at hu
      · exact hinit (Option.some.inj hu).symm
      · rename_i hno
        exact hno hu

theorem exit_keeps {status : Int} (h : Inv s) (hidle : s.kernel.current ≠ s.kernel.idleTask)
    (hcall : s.calls s.kernel.current = WaitCall.idle) (hexit : exit status s = some s') :
    Keeps s (Action.exit status) s' := by
  unfold exit at hexit
  simp only at hexit
  rcases take_cases hexit with ⟨k, hok, rfl⟩ | hpanic
  · rcases taskExit_exited h.queued h.family h.running hidle hok with
      ⟨p, k3, hparent, hinit, hexited, hqueued, hcalm, hrun⟩
    have hledger := (h.ledger.exit h.family h.running hcall hexited).setKernel hcalm.sameZombies
    refine ⟨⟨hqueued, hrun, (h.family.exit hinit hparent hexited).calm hcalm, hledger⟩,
      fun _ => ⟨?_, ?_, ?_, ?_, ?_, ?_⟩⟩
    · intro u hz hno
      have huc : u ≠ s.kernel.current := by
        intro heq
        rw [IsZombie, heq, h.running] at hz
        cases hz
      exact absurd ((hcalm.state u).zombie_iff.mpr ((hexited.state u huc).zombie_iff.mpr hz)) hno
    · exact fun hfalse => Action.noConfusion hfalse
    · exact fun _ => rfl
    · exact fun hfalse => Action.noConfusion hfalse
    · exact fun _ => rfl
    · intro status' heq
      cases heq
      refine ⟨?_, ?_, (hcalm.state _).zombie_iff.mpr hexited.zombie, ?_⟩
      · intro u hu
        have hold : (s.kernel.tasks u).parent = some s.kernel.current := hu
        change (k.tasks u).parent = _
        rw [hcalm.parent u, hexited.parent u (h.family.inTable u _ hold), if_pos hold]
      · intro u hu
        change (k.tasks u).parent = _ at hu
        rw [hcalm.parent u] at hu
        exact hexited.childless h.family hinit u hu
      · change (k.tasks s.kernel.current).exitStatus = status
        rw [hcalm.exitStatus]
        exact hexited.code
  · exact keeps_panic h hpanic

theorem step_keeps (h : Inv s) (hlegal : Legal s a) (hstep : step s a = some s') :
    Keeps s a s' := by
  unfold step at hstep
  split at hstep
  · cases hstep
  · cases a with
    | sched b => exact sched_keeps h hlegal hstep
    | discard t => exact discard_keeps h hlegal hstep
    | exit status =>
        rw [perform] at hstep
        split at hstep
        · rename_i hcall
          exact exit_keeps h hlegal hcall hstep
        · cases hstep
    | wait =>
        rw [perform] at hstep
        split at hstep
        · cases hstep
        · exact wait_keeps h hlegal hstep
    | free => exact free_keeps h hstep

end Steps

/-!
# Every interleaving
-/

theorem boot_family (sems : Nat -> Int) : Family (Sched.boot sems) := by
  have hparent : forall t p, ((Sched.boot sems).tasks t).parent = some p -> t = 2 ∧ p = 0 := by
    intro t p hp
    change (if t = 2 then some 0 else none) = some p at hp
    split at hp
    · rename_i heq
      exact ⟨heq, (Option.some.inj hp).symm⟩
    · cases hp
  constructor
  · intro t p hp
    rw [(hparent t p hp).left]
    exact Nat.lt_of_lt_of_le (by decide) (Nat.le_refl ntask)
  · intro t hp
    rcases hparent t t hp with ⟨htwo, hzero⟩
    rw [htwo] at hzero
    cases hzero
  · intro t p hp
    rw [(hparent t p hp).right]
    exact ⟨by simp [Sched.boot], by simp [Sched.boot], Or.inr (by simp [Sched.boot])⟩
  · exact ⟨by simp [Sched.boot], by simp [Sched.boot]⟩
  · intro q hq
    rw [(hparent _ q hq).right]
    rfl
  · intro t p hp hz
    rw [(hparent t p hp).left] at hz
    cases hz

theorem start_inv (sems : Nat -> Int) : Inv (start sems) := by
  constructor
  · refine ⟨List.nodup_nil, ?_, List.not_mem_nil, ?_⟩
    · intro t ht
      exact absurd ht List.not_mem_nil
    · exact ⟨by simp [start, Sched.boot], by simp [start, Sched.boot],
        by simp [start, Sched.boot]⟩
  · rfl
  · exact boot_family sems
  · constructor
    · exact fun t z pid status hcall => WaitCall.noConfusion hcall
    · intro t hz
      exfalso
      change (if t = 0 then TaskStatus.running else if t < 3 then TaskStatus.allocated
        else TaskStatus.unused) = TaskStatus.zombie at hz
      split at hz
      · cases hz
      · split at hz
        · cases hz
        · cases hz
    · exact fun r hr => absurd hr List.not_mem_nil
    · exact List.nodup_nil

def legalTest (s : State) : Action -> Bool
  | Action.sched a => Sched.legalTest s.kernel a
  | Action.discard t => decide ((s.kernel.tasks t).state = TaskStatus.allocated) &&
      decide ((s.kernel.tasks t).parent = some s.kernel.current) &&
      decide (t ≠ s.kernel.initProc) && decide (t ≠ s.kernel.idleTask)
  | Action.exit _ => decide (s.kernel.current ≠ s.kernel.idleTask)
  | Action.wait => decide (s.kernel.current ≠ s.kernel.idleTask)
  | Action.free => true

theorem legal_of_test (s : State) (a : Action) (h : legalTest s a = true) : Legal s a := by
  cases a with
  | sched a => exact Sched.legal_of_legalTest s.kernel a h
  | discard t =>
      simp only [legalTest, Bool.and_eq_true, decide_eq_true_eq] at h
      exact ⟨h.left.left.left, h.left.left.right, h.left.right, h.right⟩
  | exit status =>
      have hidle := of_decide_eq_true h
      exact hidle
  | wait =>
      have hidle := of_decide_eq_true h
      exact hidle
  | free => exact trivial

/-- `init` makes a child, waits for it, and returns it after it exited with 7. -/
def reapedChild : List Action :=
  [Action.sched (Sched.Action.wakeup 2), Action.sched Sched.Action.block,
    Action.sched (Sched.Action.create 10), Action.sched (Sched.Action.wakeup 3), Action.wait,
    Action.exit 7, Action.wait, Action.free]

end ExitWait
end Kernel
end NicoOS
