import NicoOS.Kernel.Semaphore.Tasks
import Mathlib.Data.List.Nodup
import Mathlib.Data.List.Perm.Subperm

/-!
# Order and mutual exclusion at semaphores

Each unit of a semaphore is in its value, handed to a task that was woken up, or
used by a `sem_wait` that returned.
-/

namespace NicoOS
namespace Kernel
namespace SemTasks

open Lib
open Sched (TaskStatus ntask)

/-!
# One semaphore
-/

/-- The part of the invariant that one semaphore keeps by itself. -/
structure Accounted (v : Int) (sem : Sem) : Prop where
  sound : sem.toSemaphore.Sound
  waitNodup : sem.waiting.Nodup
  releasedNodup : sem.released.Nodup
  fifo : sem.woken ++ sem.waiting = sem.arrived
  units : v + sem.signals = sem.completed + sem.toTurnstile.units

/-- A call that returned belongs to a task that is still inside or to a signal. -/
structure Owned (sem : Sem) : Prop where
  returned : sem.completed = sem.signals + sem.inside.length
  holder : sem.holder = sem.inside.head?

section OneSemaphore

variable {v : Int} {sem : Sem} {t : Nat}

theorem semInit_accounted (h : 0 ≤ v) : Accounted v (semInit v) := by
  refine ⟨Semaphore.init_sound h, List.nodup_nil, List.nodup_nil, rfl, ?_⟩
  show v + 0 = 0 + ((v.toNat + 0 : Nat) : Int)
  lia

theorem semInit_owned (v : Int) : Owned (semInit v) := ⟨rfl, rfl⟩

theorem Accounted.pass (h : Accounted v sem) (hval : 1 ≤ sem.val) (t : Nat) :
    Accounted v ({ sem with
      toSemaphore := { sem.toSemaphore with val := sem.val - 1 } }.enter t) := by
  have hsound : sem.waiting.length = (-sem.val).toNat := h.sound
  have hunits := h.units
  refine ⟨?_, h.waitNodup, h.releasedNodup, h.fifo, ?_⟩
  · show sem.waiting.length = (-(sem.val - 1)).toNat
    lia
  · show v + sem.signals = (sem.completed + 1 : Nat) +
      (((sem.val - 1).toNat + sem.released.length : Nat) : Int)
    unfold Turnstile.units at hunits
    lia

theorem Accounted.join (h : Accounted v sem) (hval : sem.val ≤ 0) (ht : Not (t ∈ sem.waiting)) :
    Accounted v (sem.join t { sem.toTurnstile with
      toSemaphore := { val := sem.val - 1, waiting := sem.waiting ++ [t] } }) := by
  have hsound : sem.waiting.length = (-sem.val).toNat := h.sound
  have hunits := h.units
  refine ⟨?_, ?_, h.releasedNodup, ?_, ?_⟩
  · show (sem.waiting ++ [t]).length = (-(sem.val - 1)).toNat
    rw [List.length_append, hsound]
    show _ + 1 = _
    lia
  · refine h.waitNodup.append (List.nodup_singleton t) ?_
    intro u hu hlast
    rw [List.mem_singleton.mp hlast] at hu
    exact ht hu
  · show sem.woken ++ (sem.waiting ++ [t]) = sem.arrived ++ [t]
    rw [← List.append_assoc, h.fifo]
  · show v + sem.signals = sem.completed +
      (((sem.val - 1).toNat + sem.released.length : Nat) : Int)
    unfold Turnstile.units at hunits
    lia

/-- A task that was woken up enters with the unit handed to it. -/
theorem Accounted.resume (h : Accounted v sem) (ht : t ∈ sem.released) :
    Accounted v ({ sem with toTurnstile := sem.toTurnstile.resume t }.enter t) := by
  have hunits := h.units
  have hresume := Turnstile.resume_units ht
  refine ⟨h.sound, h.waitNodup, h.releasedNodup.erase t, h.fifo, ?_⟩
  show v + sem.signals = (sem.completed + 1 : Nat) + ((sem.toTurnstile.resume t).units : Int)
  lia

/-- A signal wakes up the task that waited longest, or adds to the value. -/
theorem Accounted.leave (h : Accounted v sem) {woken : Option Nat} {behind : Semaphore}
    (hsignal : sem.toSemaphore.signal = some (woken, behind))
    (hnew : forall u, u ∈ sem.waiting -> Not (u ∈ sem.released)) (caller : Option Nat) :
    Accounted v (sem.leave caller woken behind) := by
  have hunits := h.units
  have hsound := Semaphore.signal_sound h.sound hsignal
  have hfifo := h.fifo
  have hwaitNodup := h.waitNodup
  unfold Turnstile.units at hunits
  rcases Semaphore.signal_cases h.sound with ⟨u, rest, hval, hwait, heq⟩ | ⟨hval, hwait, heq⟩
  · rw [heq] at hsignal
    cases hsignal
    rw [hwait] at hfifo hwaitNodup
    refine ⟨hsound, hwaitNodup.of_cons, ?_, ?_, ?_⟩
    · refine List.nodup_cons.mpr ⟨hnew u ?_, h.releasedNodup⟩
      rw [hwait]
      exact List.mem_cons_self
    · show (sem.woken ++ [u]) ++ rest = sem.arrived
      rw [← hfifo, List.append_assoc]
      rfl
    · show v + (sem.signals + 1 : Nat) = sem.completed +
        (((sem.val + 1).toNat + (sem.released.length + 1) : Nat) : Int)
      lia
  · rw [heq] at hsignal
    cases hsignal
    rw [hwait] at hfifo
    refine ⟨hsound, List.nodup_nil, h.releasedNodup, ?_, ?_⟩
    · show (sem.woken ++ []) ++ [] = sem.arrived
      rw [List.append_nil]
      exact hfifo
    · show v + (sem.signals + 1 : Nat) = sem.completed +
        (((sem.val + 1).toNat + sem.released.length : Nat) : Int)
      lia

/-- With one unit there is no task inside while there is a unit at hand. -/
theorem Accounted.alone (h : Accounted 1 sem) (howned : Owned sem) :
    sem.inside.length + sem.toTurnstile.units = 1 := by
  have hunits := h.units
  have hreturned := howned.returned
  lia

theorem Owned.enter (howned : Owned sem) (turnstile : Turnstile) (t : Nat) :
    Owned ({ sem with toTurnstile := turnstile }.enter t) := by
  have hreturned := howned.returned
  constructor
  · show sem.completed + 1 = sem.signals + (sem.inside.length + 1)
    lia
  · rfl

theorem Owned.leave (h : Accounted 1 sem) (howned : Owned sem) (ht : t ∈ sem.inside)
    (woken : Option Nat) (behind : Semaphore) :
    Owned (sem.leave (some t) woken behind) := by
  have hreturned := howned.returned
  have halone := h.alone howned
  have hlen := List.length_erase_of_mem ht
  have hpos := List.length_pos_of_mem ht
  have hempty : sem.inside.erase t = [] := by
    apply List.eq_nil_of_length_eq_zero
    lia
  constructor
  · show sem.completed = sem.signals + 1 + (sem.inside.erase t).length
    lia
  · show none = (sem.inside.erase t).head?
    rw [hempty]
    rfl

end OneSemaphore

/-!
# The tasks

A task in `sem_wait` is queued while it is blocked and has a unit once it is
ready.
-/

structure Placed (status : Nat -> TaskStatus) (place linked : Nat -> Option Nat)
    (current : Option Nat) (waiting released : Nat -> List Nat) : Prop where
  runs : forall t, status t = TaskStatus.running <-> current = some t
  placed : forall t, place t ≠ none -> status t = TaskStatus.blocked ∨ status t = TaskStatus.ready
  waits : forall i t, t ∈ waiting i <-> place t = some i ∧ status t = TaskStatus.blocked
  granted : forall i t, t ∈ released i <-> place t = some i ∧ status t = TaskStatus.ready
  queued : forall i t, linked t = some i <-> t ∈ waiting i

section Tasks

variable {status : Nat -> TaskStatus} {place linked : Nat -> Option Nat} {current : Option Nat}
  {waiting released : Nat -> List Nat} {i t : Nat} {rest : List Nat}

attribute [local grind =] Function.update_apply

theorem Placed.outside (h : Placed status place linked current waiting released)
    (ht : current = some t) : place t = none := by
  have hruns := h.runs t
  have hplaced := h.placed t
  grind

theorem Placed.not_linked (h : Placed status place linked current waiting released)
    (ht : place t = none) : linked t = none := by
  cases hlink : linked t with
  | none => rfl
  | some i =>
      have hplace := ((h.waits i t).mp ((h.queued i t).mp hlink)).left
      rw [ht] at hplace
      cases hplace

theorem Placed.suspend (h : Placed status place linked current waiting released)
    (ht : current = some t) :
    Placed (Function.update status t TaskStatus.ready) place linked none waiting released := by
  have hout := h.outside ht
  rcases h with ⟨hruns, hplaced, hwaits, hgranted, hqueued⟩
  constructor <;> grind

theorem Placed.block (h : Placed status place linked current waiting released)
    (ht : current = some t) :
    Placed (Function.update status t TaskStatus.blocked) (Function.update place t (some i))
      (Function.update linked t (some i)) none
      (Function.update waiting i (waiting i ++ [t])) released := by
  have hout := h.outside ht
  have hfree := h.not_linked hout
  rcases h with ⟨hruns, hplaced, hwaits, hgranted, hqueued⟩
  constructor <;> grind

theorem Placed.wake (h : Placed status place linked current waiting released)
    (hqueue : waiting i = t :: rest) (hnodup : (t :: rest).Nodup) :
    Placed (Function.update status t TaskStatus.ready) place (Function.update linked t none)
      current (Function.update waiting i rest)
      (Function.update released i (t :: released i)) := by
  have hrest := (List.nodup_cons.mp hnodup).left
  have hfirst : t ∈ waiting i := by
    rw [hqueue]
    exact List.mem_cons_self
  have hin := (h.waits i t).mp hfirst
  rcases h with ⟨hruns, hplaced, hwaits, hgranted, hqueued⟩
  constructor <;> grind

theorem Placed.rouse (h : Placed status place linked current waiting released)
    (hout : place t = none) (hidle : status t ≠ TaskStatus.running) :
    Placed (Function.update status t TaskStatus.ready) place linked current waiting released := by
  rcases h with ⟨hruns, hplaced, hwaits, hgranted, hqueued⟩
  constructor <;> grind

theorem Placed.dispatch (h : Placed status place linked none waiting released)
    (hout : place t = none) :
    Placed (Function.update status t TaskStatus.running) place linked (some t) waiting
      released := by
  rcases h with ⟨hruns, hplaced, hwaits, hgranted, hqueued⟩
  constructor <;> grind

theorem Placed.resume (h : Placed status place linked none waiting released)
    (hin : place t = some i) (hready : status t = TaskStatus.ready)
    (hnodup : (released i).Nodup) :
    Placed (Function.update status t TaskStatus.running) (Function.update place t none) linked
      (some t) waiting (Function.update released i ((released i).erase t)) := by
  have herase : forall u, u ∈ (released i).erase t <-> u ≠ t ∧ u ∈ released i :=
    fun u => hnodup.mem_erase_iff
  rcases h with ⟨hruns, hplaced, hwaits, hgranted, hqueued⟩
  constructor <;> grind

end Tasks

/-!
# Steps
-/

structure Sound (v : Nat -> Int) (s : State) : Prop where
  placed : Placed s.status s.place s.linked s.current (fun i => (s.sems i).waiting)
    (fun i => (s.sems i).released)
  accounted : forall i, Accounted (v i) (s.sems i)
  noPanic : s.panicked = false

/-- A component of the semaphores behind the change of one of them. -/
theorem component_update {α : Type} (f : Sem -> α) (sems : Nat -> Sem) (i : Nat) (sem : Sem) :
    (fun j => f (Function.update sems i sem j)) =
      Function.update (fun j => f (sems j)) i (f sem) := by
  funext j
  rw [Function.update_apply, Function.update_apply]
  exact apply_ite f _ _ _

/-- One semaphore changes: its two lists decide where the tasks are. -/
theorem Placed.update {status : Nat -> TaskStatus} {place linked : Nat -> Option Nat}
    {current : Option Nat} {sems : Nat -> Sem} {i : Nat} {sem : Sem}
    (h : Placed status place linked current
      (Function.update (fun j => (sems j).waiting) i sem.waiting)
      (Function.update (fun j => (sems j).released) i sem.released)) :
    Placed status place linked current (fun j => (Function.update sems i sem j).waiting)
      (fun j => (Function.update sems i sem j).released) := by
  rw [component_update (fun sem => sem.waiting), component_update (fun sem => sem.released)]
  exact h

theorem update_component (f : Sem -> List Nat) (sems : Nat -> Sem) (i : Nat) :
    Function.update (fun j => f (sems j)) i (f (sems i)) = fun j => f (sems j) :=
  Function.update_eq_self i _

section Steps

variable {v : Nat -> Int} {s : State} {t : Nat}

theorem start_sound (hv : forall i, 0 ≤ v i) {status : Nat -> TaskStatus} {pids : Nat -> Nat}
    (hstatus : forall t, status t ≠ TaskStatus.running) : Sound v (start v status pids) := by
  constructor
  · constructor
    · intro t
      constructor
      · exact fun h => absurd h (hstatus t)
      · exact fun h => by cases h
    · intro t h
      exact absurd rfl h
    · intro i t
      constructor
      · exact fun h => by cases h
      · exact fun h => by cases h.left
    · intro i t
      constructor
      · exact fun h => by cases h
      · exact fun h => by cases h.left
    · intro i t
      constructor
      · exact fun h => by cases h
      · exact fun h => by cases h
  · exact fun i => semInit_accounted (hv i)
  · rfl

theorem accounted_update (h : Sound v s) {i : Nat} {sem : Sem} (hsem : Accounted (v i) sem) :
    forall j, Accounted (v j) (Function.update s.sems i sem j) := by
  intro j
  rw [Function.update_apply]
  split
  · rename_i heq
    rw [heq]
    exact hsem
  · exact h.accounted j

theorem semWait_sound (h : Sound v s) (i : Nat) (ht : s.current = some t) :
    exists s', semWait i t s = Except.ok s' ∧ Sound v s' := by
  have hrun := (h.placed.runs t).mpr ht
  have hout := h.placed.outside ht
  have hfree := h.placed.not_linked hout
  unfold semWait semWaitWith
  rcases Turnstile.wait_cases (s.sems i).toTurnstile t with ⟨hval, hwait⟩ | ⟨hval, hwait⟩
  · rw [hwait]
    refine ⟨_, rfl, Placed.update ?_, accounted_update h ((h.accounted i).pass hval t), h.noPanic⟩
    have hplaced := h.placed
    rw [← update_component (fun sem => sem.waiting) s.sems i,
      ← update_component (fun sem => sem.released) s.sems i] at hplaced
    exact hplaced
  · rw [hwait]
    have hnew : Not (t ∈ (s.sems i).waiting) := by
      intro hmem
      rw [(h.placed.queued i t).mpr hmem] at hfree
      cases hfree
    simp only [hrun, hfree, ne_eq, not_true_eq_false, if_false]
    refine ⟨_, rfl, Placed.update ?_, accounted_update h ((h.accounted i).join hval hnew),
      h.noPanic⟩
    have hblock := h.placed.block (i := i) ht
    rw [← update_component (fun sem => sem.released) s.sems i] at hblock
    exact hblock

theorem semSignal_sound (h : Sound v s) (i : Nat) :
    exists s', semSignal i s = Except.ok s' ∧ Sound v s' := by
  have hdisjoint : forall u, u ∈ (s.sems i).waiting -> Not (u ∈ (s.sems i).released) := by
    intro u hwait hgrant
    have hblocked := ((h.placed.waits i u).mp hwait).right
    rw [((h.placed.granted i u).mp hgrant).right] at hblocked
    cases hblocked
  unfold semSignal semSignalWith
  rcases Semaphore.signal_cases (h.accounted i).sound with
    ⟨u, rest, hval, hwait, heq⟩ | ⟨hval, hwait, heq⟩
  · have hleave := (h.accounted i).leave heq hdisjoint s.current
    have hfirst : u ∈ (s.sems i).waiting := by
      rw [hwait]
      exact List.mem_cons_self
    have hblocked := ((h.placed.waits i u).mp hfirst).right
    have hnodup := (h.accounted i).waitNodup
    rw [hwait] at hnodup
    rw [heq]
    simp only [hblocked, if_true]
    unfold taskWakeup
    rw [if_neg (by
      show Not (s.status u = TaskStatus.running ∨ s.status u = TaskStatus.ready)
      rw [hblocked]
      simp)]
    exact ⟨_, rfl, Placed.update (h.placed.wake hwait hnodup), accounted_update h hleave,
      h.noPanic⟩
  · have hleave := (h.accounted i).leave heq hdisjoint s.current
    rw [heq]
    refine ⟨_, rfl, Placed.update ?_, accounted_update h hleave, h.noPanic⟩
    have hplaced := h.placed
    rw [← update_component (fun sem => sem.waiting) s.sems i,
      ← update_component (fun sem => sem.released) s.sems i, hwait] at hplaced
    exact hplaced

theorem taskKill_sound (h : Sound v s) {pid : Nat}
    (hspare : forall t, findPid pid s = some t -> s.linked t = none) :
    exists r s', taskKill pid s = Except.ok (r, s') ∧ Sound v s' ∧ s'.sems = s.sems := by
  unfold taskKill
  cases hfind : findPid pid s with
  | none => exact ⟨_, _, rfl, h, rfl⟩
  | some t =>
      simp only
      cases Decidable.em (s.status t = TaskStatus.blocked ∨ s.status t = TaskStatus.waiting) with
      | inr hno =>
          rw [if_neg hno]
          exact ⟨_, _, rfl, ⟨h.placed, h.accounted, h.noPanic⟩, rfl⟩
      | inl hyes =>
          have hasleep : Not (s.status t = TaskStatus.running ∨
              s.status t = TaskStatus.ready) := by
            rcases hyes with heq | heq <;> rw [heq] <;> simp
          have hout : s.place t = none := by
            cases hplace : s.place t with
            | none => rfl
            | some i =>
                have hstatus := h.placed.placed t (by rw [hplace]; exact Option.some_ne_none i)
                rcases hstatus with hb | hr
                · have hlinked :=
                    (h.placed.queued i t).mpr ((h.placed.waits i t).mpr ⟨hplace, hb⟩)
                  rw [hspare t hfind] at hlinked
                  cases hlinked
                · exact absurd (Or.inr hr) hasleep
          have hrouse := h.placed.rouse hout (fun hrun => hasleep (Or.inl hrun))
          rw [if_pos hyes]
          unfold taskWakeup
          rw [if_neg hasleep]
          exact ⟨_, _, rfl, ⟨hrouse, h.accounted, h.noPanic⟩, rfl⟩

theorem dispatch_sound (h : Sound v s) (hcurrent : s.current = none)
    (hready : s.status t = TaskStatus.ready) : Sound v (dispatch t s) := by
  have hplaced := h.placed
  rw [hcurrent] at hplaced
  unfold dispatch
  cases hplace : s.place t with
  | none => exact ⟨hplaced.dispatch hplace, h.accounted, h.noPanic⟩
  | some i =>
      have hgrant := (hplaced.granted i t).mpr ⟨hplace, hready⟩
      have hresume := hplaced.resume hplace hready (h.accounted i).releasedNodup
      rw [← update_component (fun sem => sem.waiting) s.sems i] at hresume
      exact ⟨Placed.update hresume, accounted_update h ((h.accounted i).resume hgrant), h.noPanic⟩

/-- No assertion fails, and every step keeps the invariant. -/
theorem step_sound {s' : State} {a : Action} (h : Sound v s) (ha : SparesWaiters s a)
    (hstep : step s a = some s') : Sound v s' ∧ perform s a = some (Except.ok s') := by
  unfold step stepBy at hstep
  rw [h.noPanic] at hstep
  cases a with
  | wait i =>
      cases hcurrent : s.current with
      | none =>
          simp only [perform, hcurrent] at hstep
          cases hstep
      | some t =>
          rcases semWait_sound h i hcurrent with ⟨s1, hwait, hsound⟩
          simp only [perform, hcurrent, Option.map_some, hwait] at hstep ⊢
          cases hstep
          exact ⟨hsound, rfl⟩
  | signal i =>
      rcases semSignal_sound h i with ⟨s1, hsignal, hsound⟩
      simp only [perform, hsignal] at hstep ⊢
      cases hstep
      exact ⟨hsound, rfl⟩
  | kill pid =>
      rcases taskKill_sound h ha with ⟨r, s1, hkill, hsound, _⟩
      have hbind : perform s (Action.kill pid) = some (Except.ok s1) := by
        rw [perform, hkill]
        rfl
      rw [hbind] at hstep ⊢
      cases hstep
      exact ⟨hsound, rfl⟩
  | preempt =>
      cases hcurrent : s.current with
      | none =>
          simp only [perform, hcurrent] at hstep
          cases hstep
      | some t =>
          simp only [perform, hcurrent, Option.map_some] at hstep ⊢
          cases hstep
          exact ⟨⟨h.placed.suspend hcurrent, h.accounted, h.noPanic⟩, rfl⟩
  | dispatch t =>
      cases Decidable.em (s.current = none ∧ s.status t = TaskStatus.ready) with
      | inr hno =>
          simp only [perform, if_neg hno] at hstep
          cases hstep
      | inl hyes =>
          simp only [perform, if_pos hyes] at hstep ⊢
          cases hstep
          exact ⟨dispatch_sound h hyes.left hyes.right, rfl⟩

theorem sound_of_reaches (hv : forall i, 0 ≤ v i) {status : Nat -> TaskStatus}
    {pids : Nat -> Nat} (hstatus : forall t, status t ≠ TaskStatus.running)
    {ok : State -> Action -> Prop} (hok : forall s a, ok s a -> SparesWaiters s a)
    (h : Reaches step ok (start v status pids) s) : Sound v s :=
  h.invariant (start_sound hv hstatus)
    (fun r _ a hr ha hstep => (step_sound hr (hok r a ha) hstep).left)

/-!
# Results at one semaphore
-/

theorem Sound.correct (h : Sound v s) (i : Nat) : Correct (v i) s i := by
  have hunits := (h.accounted i).units
  refine ⟨(h.accounted i).sound, ?_, (h.accounted i).waitNodup, (h.accounted i).fifo, ?_,
    h.noPanic⟩
  · exact fun t ht => ((h.placed.waits i t).mp ht).right
  · lia

theorem Sound.exclusive (h : Sound v s) {i : Nat} (hone : v i = 1)
    (howned : Owned (s.sems i)) : Exclusive s i := by
  have haccounted := h.accounted i
  rw [hone] at haccounted
  have halone := haccounted.alone howned
  have hholder : forall t, (s.sems i).holder = some t <-> t ∈ (s.sems i).inside := by
    intro t
    rw [howned.holder]
    cases hinside : (s.sems i).inside with
    | nil => simp
    | cons u rest =>
        rw [hinside, List.length_cons] at halone
        have hrest : rest = [] := List.eq_nil_of_length_eq_zero (by lia)
        rw [hrest, List.head?_cons, List.mem_singleton]
        exact ⟨fun heq => (Option.some.inj heq).symm, fun heq => by rw [heq]⟩
  refine ⟨by lia, hholder, ?_⟩
  intro t ht
  unfold semHolding
  rw [ht, ← hholder t]
  exact decide_eq_true_iff

theorem owned_update {i j : Nat} {sem : Sem} (h : Owned (s.sems i)) (hsem : j = i -> Owned sem) :
    Owned (Function.update s.sems j sem i) := by
  rw [Function.update_apply]
  split
  · rename_i heq
    exact hsem heq.symm
  · exact h

theorem semWait_owned {s' : State} {i j : Nat} (h : Owned (s.sems i))
    (hwait : semWait j t s = Except.ok s') : Owned (s'.sems i) := by
  unfold semWait semWaitWith at hwait
  split at hwait
  · rename_i sem _
    cases hwait
    refine owned_update h ?_
    intro heq
    subst heq
    exact h.enter sem t
  · split at hwait
    · cases hwait
    · split at hwait
      · cases hwait
      · cases hwait
        refine owned_update h ?_
        intro heq
        subst heq
        exact ⟨h.returned, h.holder⟩

theorem semSignal_owned {s' : State} {i j : Nat} (hone : Accounted 1 (s.sems i))
    (h : Owned (s.sems i))
    (hown : j = i -> exists t, s.current = some t ∧ t ∈ (s.sems i).inside)
    (hsignal : semSignal j s = Except.ok s') : Owned (s'.sems i) := by
  have hleave : forall woken behind, j = i ->
      Owned ((s.sems j).leave s.current woken behind) := by
    intro woken behind heq
    rcases hown heq with ⟨t, hcurrent, ht⟩
    subst heq
    rw [hcurrent]
    exact Owned.leave hone h ht woken behind
  unfold semSignal semSignalWith at hsignal
  split at hsignal
  · cases hsignal
  · cases hsignal
    exact owned_update h (hleave _ _)
  · split at hsignal
    · unfold taskWakeup at hsignal
      split at hsignal
      · cases hsignal
      · cases hsignal
        exact owned_update h (hleave _ _)
    · cases hsignal

theorem dispatch_owned {i : Nat} (h : Owned (s.sems i)) : Owned ((dispatch t s).sems i) := by
  unfold dispatch
  cases s.place t with
  | none => exact h
  | some j =>
      refine owned_update h ?_
      intro heq
      subst heq
      exact h.enter _ t

/-- A step under which the semaphore is signalled by the task inside. -/
theorem step_owned {s' : State} {a : Action} {i : Nat} (h : Sound v s) (hone : v i = 1)
    (ha : SparesWaiters s a) (hown : SignalsOwn i s a) (howned : Owned (s.sems i))
    (hstep : step s a = some s') : Owned (s'.sems i) := by
  have hperform := (step_sound h ha hstep).right
  cases a with
  | wait j =>
      cases hcurrent : s.current with
      | none =>
          simp only [perform, hcurrent] at hperform
          cases hperform
      | some t =>
          simp only [perform, hcurrent, Option.map_some, Option.some.injEq] at hperform
          exact semWait_owned howned hperform
  | signal j =>
      have haccounted := h.accounted i
      rw [hone] at haccounted
      exact semSignal_owned haccounted howned hown (Option.some.inj hperform)
  | kill pid =>
      rcases taskKill_sound h ha with ⟨r, s1, hkill, _, hsems⟩
      rw [perform, hkill] at hperform
      cases hperform
      rw [hsems]
      exact howned
  | preempt =>
      cases hcurrent : s.current with
      | none =>
          simp only [perform, hcurrent] at hperform
          cases hperform
      | some t =>
          simp only [perform, hcurrent, Option.map_some] at hperform
          cases hperform
          exact howned
  | dispatch t =>
      rw [perform] at hperform
      split at hperform
      · cases hperform
        exact dispatch_owned howned
      · cases hperform

/-!
# Values that an `int32_t` keeps
-/

/-- There are at most 2^31 tasks, and no value is above the greatest `int32_t`. -/
structure Narrow (status : Nat -> TaskStatus) (sems : Nat -> Sem) : Prop where
  few : forall t, 2147483648 ≤ t -> status t = TaskStatus.unused
  below : forall i, (sems i).val ≤ 2147483647

theorem Narrow.setSem {status : Nat -> TaskStatus} {sems : Nat -> Sem} {i : Nat} {sem : Sem}
    (h : Narrow status sems) (hsem : sem.val ≤ 2147483647) :
    Narrow status (Function.update sems i sem) := by
  constructor
  · exact h.few
  · intro j
    rw [Function.update_apply]
    split
    · exact hsem
    · exact h.below j

theorem Narrow.setStatus {status : Nat -> TaskStatus} {sems : Nat -> Sem} {t : Nat}
    (h : Narrow status sems) (ht : status t ≠ TaskStatus.unused) (new : TaskStatus) :
    Narrow (Function.update status t new) sems := by
  constructor
  · intro u hu
    have hne : u ≠ t := by
      intro heq
      rw [← heq] at ht
      exact ht (h.few u hu)
    rw [Function.update_of_ne hne]
    exact h.few u hu
  · exact h.below

theorem Narrow.length_le {status : Nat -> TaskStatus} {sems : Nat -> Sem} {ts : List Nat}
    (h : Narrow status sems) (hnodup : ts.Nodup)
    (hts : forall t, t ∈ ts -> status t ≠ TaskStatus.unused) : ts.length ≤ 2147483648 := by
  have hsub : ts ⊆ List.range 2147483648 := by
    intro t ht
    cases Nat.lt_or_ge t 2147483648 with
    | inl hlt => exact List.mem_range.mpr hlt
    | inr hge => exact absurd (h.few t hge) (hts t ht)
  have hlen := (hnodup.subperm hsub).length_le
  rwa [List.length_range] at hlen

theorem Sound.waiting_used (h : Sound v s) (i : Nat) {u : Nat}
    (hu : u ∈ (s.sems i).waiting) : s.status u ≠ TaskStatus.unused := by
  rw [((h.placed.waits i u).mp hu).right]
  simp

theorem Sound.low (h : Sound v s) (hn : Narrow s.status s.sems) (i : Nat) :
    -2147483648 ≤ (s.sems i).val := by
  have hsound : (s.sems i).waiting.length = (-(s.sems i).val).toNat := (h.accounted i).sound
  have hlen := hn.length_le (h.accounted i).waitNodup (fun u hu => h.waiting_used i hu)
  lia

/-- The current task is not in the queue, so there is room for it. -/
theorem Sound.low_current (h : Sound v s) (hn : Narrow s.status s.sems) (i : Nat)
    (ht : s.current = some t) : -2147483648 < (s.sems i).val := by
  have hsound : (s.sems i).waiting.length = (-(s.sems i).val).toNat := (h.accounted i).sound
  have hrun := (h.placed.runs t).mpr ht
  have hnew : Not (t ∈ (s.sems i).waiting) := by
    intro hmem
    have hblocked := ((h.placed.waits i t).mp hmem).right
    rw [hrun] at hblocked
    cases hblocked
  have hlen := hn.length_le (List.nodup_cons.mpr ⟨hnew, (h.accounted i).waitNodup⟩) (by
    intro u hu
    rcases List.mem_cons.mp hu with heq | hmem
    · rw [heq, hrun]
      simp
    · exact h.waiting_used i hmem)
  rw [List.length_cons] at hlen
  lia

theorem perform32_eq (h : Sound v s) (hn : Narrow s.status s.sems) {a : Action}
    (ha : BelowMax s a) : perform32 s a = perform s a := by
  cases a with
  | wait i =>
      cases hcurrent : s.current with
      | none => simp only [perform32, perform, hcurrent, Option.map_none]
      | some t =>
          have hlow := h.low_current hn i hcurrent
          have hhigh := hn.below i
          have heq := Semaphore.wait32_eq hlow (by lia) t
          simp only [perform32, perform, hcurrent, Option.map_some, semWait32, semWait,
            Turnstile.wait32, Turnstile.wait, heq]
  | signal i =>
      have heq := Semaphore.signal32_eq (h.low hn i) ha
      simp only [perform32, perform, semSignal32, semSignal, heq]
  | _ => rfl

theorem signal_max_fails (h : Sound v s) {i : Nat} (hmax : (s.sems i).val = 2147483647) :
    step32 s (Action.signal i) = some { s with panicked := true } := by
  have hsound : (s.sems i).waiting.length = (-(s.sems i).val).toNat := (h.accounted i).sound
  have hempty : (s.sems i).waiting = [] := List.eq_nil_of_length_eq_zero (by lia)
  have hnone := Semaphore.signal32_max hmax hempty
  simp only [step32, stepBy, h.noPanic, perform32, semSignal32, semSignalWith, hnone]
  rfl

theorem semWait_narrow {s' : State} {i : Nat} (hn : Narrow s.status s.sems)
    (hrun : s.status t = TaskStatus.running) (hwait : semWait i t s = Except.ok s') :
    Narrow s'.status s'.sems := by
  have hbelow := hn.below i
  have hused : s.status t ≠ TaskStatus.unused := by
    rw [hrun]
    simp
  unfold semWait semWaitWith at hwait
  rcases Turnstile.wait_cases (s.sems i).toTurnstile t with ⟨_, heq⟩ | ⟨_, heq⟩
  · rw [heq] at hwait
    cases hwait
    apply hn.setSem
    show (s.sems i).val - 1 ≤ 2147483647
    lia
  · rw [heq] at hwait
    simp only [hrun, ne_eq, not_true_eq_false, if_false] at hwait
    split at hwait
    · cases hwait
    · cases hwait
      apply (hn.setStatus hused TaskStatus.blocked).setSem
      show (s.sems i).val - 1 ≤ 2147483647
      lia

theorem semSignal_narrow {s' : State} {i : Nat} (h : Sound v s) (hn : Narrow s.status s.sems)
    (hbelow : (s.sems i).val < 2147483647) (hsignal : semSignal i s = Except.ok s') :
    Narrow s'.status s'.sems := by
  unfold semSignal semSignalWith at hsignal
  rcases Semaphore.signal_cases (h.accounted i).sound with
    ⟨u, rest, hval, hwait, heq⟩ | ⟨hval, hwait, heq⟩
  · have hused : s.status u ≠ TaskStatus.unused := by
      apply h.waiting_used i
      rw [hwait]
      exact List.mem_cons_self
    rw [heq] at hsignal
    simp only at hsignal
    split at hsignal
    · unfold taskWakeup at hsignal
      split at hsignal
      · cases hsignal
      · cases hsignal
        apply (hn.setStatus hused TaskStatus.ready).setSem
        show (s.sems i).val + 1 ≤ 2147483647
        lia
    · cases hsignal
  · rw [heq] at hsignal
    cases hsignal
    apply hn.setSem
    show (s.sems i).val + 1 ≤ 2147483647
    lia

theorem dispatch_narrow (hn : Narrow s.status s.sems) (hready : s.status t = TaskStatus.ready) :
    Narrow (dispatch t s).status (dispatch t s).sems := by
  have hused : s.status t ≠ TaskStatus.unused := by
    rw [hready]
    simp
  unfold dispatch
  cases s.place t with
  | none => exact hn.setStatus hused TaskStatus.running
  | some i => exact (hn.setStatus hused TaskStatus.running).setSem (hn.below i)

theorem perform_narrow {s' : State} {a : Action} (h : Sound v s) (hn : Narrow s.status s.sems)
    (hkill : NoKill s a) (ha : BelowMax s a) (hperform : perform s a = some (Except.ok s')) :
    Narrow s'.status s'.sems := by
  cases a with
  | wait i =>
      cases hcurrent : s.current with
      | none =>
          simp only [perform, hcurrent] at hperform
          cases hperform
      | some t =>
          simp only [perform, hcurrent, Option.map_some, Option.some.injEq] at hperform
          exact semWait_narrow hn ((h.placed.runs t).mpr hcurrent) hperform
  | signal i => exact semSignal_narrow h hn ha (Option.some.inj hperform)
  | kill pid => exact absurd hkill (fun hfalse => hfalse)
  | preempt =>
      cases hcurrent : s.current with
      | none =>
          simp only [perform, hcurrent] at hperform
          cases hperform
      | some t =>
          have hrun := (h.placed.runs t).mpr hcurrent
          simp only [perform, hcurrent, Option.map_some] at hperform
          cases hperform
          exact hn.setStatus (by rw [hrun]; simp) TaskStatus.ready
  | dispatch t =>
      rw [perform] at hperform
      split at hperform
      · rename_i hyes
        cases hperform
        exact dispatch_narrow hn hyes.right
      · cases hperform

theorem spares_of_noKill {s : State} {a : Action} (ha : NoKill s a) : SparesWaiters s a := by
  cases a with
  | kill pid => exact absurd ha (fun hfalse => hfalse)
  | _ => exact trivial

/-- A step on `int32_t`s that stays in their range is one on integers. -/
theorem step32_eq (h : Sound v s) (hn : Narrow s.status s.sems) {a : Action}
    (ha : BelowMax s a) : step32 s a = step s a := by
  unfold step32 step stepBy
  rw [perform32_eq h hn ha]

theorem step32_sound {s' : State} {a : Action} (h : Sound v s) (hn : Narrow s.status s.sems)
    (hkill : NoKill s a) (ha : BelowMax s a) (hstep : step32 s a = some s') :
    Sound v s' ∧ Narrow s'.status s'.sems := by
  rw [step32_eq h hn ha] at hstep
  rcases step_sound h (spares_of_noKill hkill) hstep with ⟨hsound, hperform⟩
  exact ⟨hsound, perform_narrow h hn hkill ha hperform⟩

theorem start_narrow (hv : forall i, v i ≤ 2147483647) {status : Nat -> TaskStatus}
    (hfew : forall t, 2147483648 ≤ t -> status t = TaskStatus.unused) (pids : Nat -> Nat) :
    Narrow (start v status pids).status (start v status pids).sems :=
  ⟨hfew, hv⟩

/--
One unit is never more than one, so an `int32_t` only leaves its range at another
semaphore, and the failed assertion changes nothing else.
-/
theorem step32_exclusive {s' : State} {a : Action} {i : Nat} (hone : v i = 1) (hkill : NoKill s a)
    (hown : SignalsOwn i s a)
    (h : Sound v s ∧ Narrow s.status s.sems ∧ Owned (s.sems i) ∨
      s.panicked = true ∧ Exclusive s i)
    (hstep : step32 s a = some s') :
    Sound v s' ∧ Narrow s'.status s'.sems ∧ Owned (s'.sems i) ∨
      s'.panicked = true ∧ Exclusive s' i := by
  rcases h with ⟨hsound, hn, howned⟩ | ⟨hpanic, _⟩
  · cases Classical.em (BelowMax s a) with
    | inl hbelow =>
        left
        rcases step32_sound hsound hn hkill hbelow hstep with ⟨hsound', hn'⟩
        rw [step32_eq hsound hn hbelow] at hstep
        exact ⟨hsound', hn',
          step_owned hsound hone (spares_of_noKill hkill) hown howned hstep⟩
    | inr habove =>
        right
        cases a with
        | signal j =>
            have hmax : (s.sems j).val = 2147483647 :=
              Int.le_antisymm (hn.below j) (Int.not_lt.mp habove)
            rw [signal_max_fails hsound hmax] at hstep
            cases hstep
            rcases hsound.exclusive hone howned with ⟨hmost, hholder, hholding⟩
            exact ⟨rfl, hmost, hholder, hholding⟩
        | _ => exact absurd trivial habove
  · unfold step32 stepBy at hstep
    rw [if_pos hpanic] at hstep
    cases hstep

theorem exclusive_of_reaches (hv : forall i, 0 ≤ v i) {status : Nat -> TaskStatus}
    {pids : Nat -> Nat} (hstatus : forall t, status t ≠ TaskStatus.running) {i : Nat}
    (hone : v i = 1) {ok : State -> Action -> Prop}
    (hok : forall s a, ok s a -> SparesWaiters s a ∧ SignalsOwn i s a)
    (h : Reaches step ok (start v status pids) s) : Exclusive s i := by
  have hboth : Sound v s ∧ Owned (s.sems i) := by
    apply h.invariant (P := fun s => Sound v s ∧ Owned (s.sems i))
    · exact ⟨start_sound hv hstatus, semInit_owned (v i)⟩
    · intro r s' a hr ha hstep
      rcases hok r a ha with ⟨hspare, hown⟩
      exact ⟨(step_sound hr.left hspare hstep).left,
        step_owned hr.left hone hspare hown hr.right hstep⟩
  exact hboth.left.exclusive hone hboth.right

end Steps

/-!
# Every interleaving
-/

section Runs

variable {v : Nat -> Int} {status : Nat -> TaskStatus}

/--
The semaphores under any interleaving of `sem_wait` and `sem_signal`: as long as
no value leaves the range of an `int32_t`, the queue has as many tasks as the value
says, all of them blocked and distinct, they leave it in the order in which they
joined it, and no more calls return than there are units; with one unit, and
signals by tasks inside only, one task at most is inside and it is the holder.
-/
theorem semaphores_correct (hv : forall i, 0 ≤ v i ∧ v i ≤ 2147483647)
    (hstatus : forall t, status t ≠ TaskStatus.running)
    (hfew : forall t, 2147483648 ≤ t -> status t = TaskStatus.unused) (pids : Nat -> Nat) :
    (forall s, Reaches step32 (fun s a => NoKill s a ∧ BelowMax s a) (start v status pids) s ->
      forall i, Correct (v i) s i) ∧
      (forall i, v i = 1 -> forall s,
        Reaches step32 (fun s a => NoKill s a ∧ SignalsOwn i s a) (start v status pids) s ->
        Exclusive s i) := by
  have hsound : Sound v (start v status pids) := start_sound (fun i => (hv i).left) hstatus
  have hnarrow := start_narrow (fun i => (hv i).right) hfew pids
  constructor
  · intro s hs i
    have hboth : Sound v s ∧ Narrow s.status s.sems := by
      apply hs.invariant (P := fun s => Sound v s ∧ Narrow s.status s.sems)
      · exact ⟨hsound, hnarrow⟩
      · intro r s' a hr ha hstep
        exact step32_sound hr.left hr.right ha.left ha.right hstep
    exact hboth.left.correct i
  · intro i hone s hs
    have hrun : Sound v s ∧ Narrow s.status s.sems ∧ Owned (s.sems i) ∨
        s.panicked = true ∧ Exclusive s i := by
      apply hs.invariant (P := fun s => Sound v s ∧ Narrow s.status s.sems ∧ Owned (s.sems i) ∨
        s.panicked = true ∧ Exclusive s i)
      · exact Or.inl ⟨hsound, hnarrow, semInit_owned (v i)⟩
      · intro r s' a hr ha hstep
        exact step32_exclusive hone ha.left ha.right hr hstep
    rcases hrun with ⟨hs, _, howned⟩ | ⟨_, hexclusive⟩
    · exact hs.exclusive hone howned
    · exact hexclusive

/-- The same with kills, as long as no killed task is queued at a semaphore. -/
theorem semaphores_survive_kills (hv : forall i, 0 ≤ v i)
    (hstatus : forall t, status t ≠ TaskStatus.running) (pids : Nat -> Nat) :
    (forall s, Reaches step SparesWaiters (start v status pids) s ->
      forall i, Correct (v i) s i) ∧
      (forall i, v i = 1 -> forall s,
        Reaches step (fun s a => SparesWaiters s a ∧ SignalsOwn i s a) (start v status pids) s ->
        Exclusive s i) := by
  constructor
  · intro s hs i
    exact (sound_of_reaches hv hstatus (fun _ _ ha => ha) hs).correct i
  · intro i hone s hs
    exact exclusive_of_reaches hv hstatus hone (fun _ _ ha => ha) hs

end Runs

/-!
# Runs of two tasks
-/

def oneUnit : State := start (fun _ => 1) (fun _ => TaskStatus.ready) (fun t => t + 1)

theorem ready_not_running (t : Nat) : (fun _ => TaskStatus.ready) t ≠ TaskStatus.running :=
  fun h => by cases h

/-- Task 1 waits for the semaphore of task 0 and gets it. -/
def handOver : List Action :=
  [Action.dispatch 0, Action.wait 0, Action.preempt, Action.dispatch 1, Action.wait 0,
    Action.dispatch 0, Action.signal 0, Action.preempt, Action.dispatch 1]

def ownTest (s : State) : Action -> Bool
  | Action.signal j => decide (j ≠ 0) ||
      match s.current with
      | none => false
      | some t => decide (t ∈ (s.sems 0).inside)
  | _ => true

theorem signalsOwn_of_ownTest (s : State) (a : Action) (h : ownTest s a = true) :
    SignalsOwn 0 s a := by
  cases a with
  | signal j =>
      intro hj
      rw [ownTest, hj] at h
      cases hcurrent : s.current with
      | none =>
          rw [hcurrent] at h
          cases h
      | some t =>
          rw [hcurrent] at h
          exact ⟨t, rfl, of_decide_eq_true h⟩
  | _ => exact trivial

def killTest (_ : State) : Action -> Bool
  | Action.kill _ => false
  | _ => true

theorem noKill_of_killTest (s : State) (a : Action) (h : killTest s a = true) : NoKill s a := by
  cases a with
  | kill pid => cases h
  | _ => exact trivial

def noKillTest (s : State) (a : Action) : Bool := ownTest s a && killTest s a

theorem noKill_of_noKillTest (s : State) (a : Action) (h : noKillTest s a = true) :
    NoKill s a ∧ SignalsOwn 0 s a := by
  rcases Bool.and_eq_true_iff.mp h with ⟨hown, hkill⟩
  exact ⟨noKill_of_killTest s a hkill, signalsOwn_of_ownTest s a hown⟩

/-- Two ready tasks and a semaphore with the given value. -/
def twoTasks (initialVal : Int) : State :=
  start (fun _ => initialVal)
    (fun t => if t < 2 then TaskStatus.ready else TaskStatus.unused) (fun t => t + 1)

def belowTest (s : State) (a : Action) : Bool :=
  noKillTest s a &&
    match a with
    | Action.signal i => decide ((s.sems i).val < 2147483647)
    | _ => true

theorem below_of_belowTest (s : State) (a : Action) (h : belowTest s a = true) :
    (NoKill s a ∧ SignalsOwn 0 s a) ∧ BelowMax s a := by
  rcases Bool.and_eq_true_iff.mp h with ⟨hown, hbelow⟩
  constructor
  · exact noKill_of_noKillTest s a hown
  · cases a with
    | signal i =>
        show (s.sems i).val < 2147483647
        exact of_decide_eq_true hbelow
    | _ => exact trivial

theorem semaphores_correct_handOver :
    exists s, runFrom step32 (twoTasks 1) handOver = some s ∧ Correct 1 s 0 ∧ Exclusive s 0 := by
  have hcheck : runCheck step32 belowTest (twoTasks 1) handOver = true := by decide
  have hsome : (runFrom step32 (twoTasks 1) handOver).isSome = true := by decide
  rcases reaches_of_runCheck below_of_belowTest hcheck hsome with ⟨s, hrun, hreach⟩
  have hall := @semaphores_correct (fun _ => 1)
    (fun t => if t < 2 then TaskStatus.ready else TaskStatus.unused)
    (fun _ => by decide) (fun t => by split <;> simp) (fun t ht => if_neg (by lia))
    (fun t => t + 1)
  exact ⟨s, hrun, hall.left s (hreach.mono (fun _ _ h => ⟨h.left.left, h.right⟩)) 0,
    hall.right 0 rfl s (hreach.mono (fun _ _ h => h.left))⟩

/-- A signal at the greatest value makes it negative, and no task waits there. -/
theorem semaphore_overflows :
    exists s, Reaches step32 NoKill (twoTasks 2147483647) s ∧
      runFrom step32 (twoTasks 2147483647) [Action.dispatch 0, Action.signal 0] = some s ∧
      Not (Correct 2147483647 s 0) := by
  have hcheck : runCheck step32 killTest (twoTasks 2147483647)
      [Action.dispatch 0, Action.signal 0] = true := by decide
  have hpanics : (runFrom step32 (twoTasks 2147483647)
      [Action.dispatch 0, Action.signal 0]).map State.panicked = some true := by decide
  rcases Option.map_eq_some_iff.mp hpanics with ⟨s, hrun, hpanic⟩
  have hreach := runFrom_reaches (runMeets_of_runCheck noKill_of_killTest hcheck) hrun
  exact ⟨s, hreach, hrun, fun hcorrect => by cases hpanic.symm.trans hcorrect.noPanic⟩

def spareTest (s : State) (a : Action) : Bool :=
  ownTest s a &&
    match a with
    | Action.kill pid =>
        match findPid pid s with
        | none => true
        | some t => decide (s.linked t = none)
    | _ => true

theorem spares_of_spareTest (s : State) (a : Action) (h : spareTest s a = true) :
    SparesWaiters s a ∧ SignalsOwn 0 s a := by
  rcases Bool.and_eq_true_iff.mp h with ⟨hown, hkill⟩
  constructor
  · cases a with
    | kill pid =>
        intro t ht
        simp only [ht] at hkill
        exact of_decide_eq_true hkill
    | _ => exact trivial
  · exact signalsOwn_of_ownTest s a hown

/-- The task inside is killed while task 1 waits. -/
def killedHolder : List Action :=
  [Action.dispatch 0, Action.wait 0, Action.preempt, Action.dispatch 1, Action.wait 0,
    Action.kill 1, Action.dispatch 0, Action.signal 0]

theorem semaphores_survive_kills_holder :
    exists s, runFrom step oneUnit killedHolder = some s ∧ Correct 1 s 0 ∧ Exclusive s 0 := by
  have hcheck : runCheck step spareTest oneUnit killedHolder = true := by decide
  have hsome : (runFrom step oneUnit killedHolder).isSome = true := by decide
  rcases reaches_of_runCheck spares_of_spareTest hcheck hsome with ⟨s, hrun, hreach⟩
  have hall := semaphores_survive_kills (v := fun _ => 1)
    (fun _ => Int.one_nonneg) ready_not_running (fun t => t + 1)
  exact ⟨s, hrun, hall.left s (hreach.mono (fun _ _ h => h.left)) 0, hall.right 0 rfl s hreach⟩

/-- Task 1 is killed while it waits for the semaphore of task 0. -/
def killedWaiter : List Action :=
  [Action.dispatch 0, Action.wait 0, Action.preempt, Action.dispatch 1, Action.wait 0,
    Action.kill 2]

/-- A run that evaluates to a state with a property reaches such a state. -/
theorem reaches_with (as : List Action) (test : State -> Bool)
    (hcheck : runCheck step ownTest oneUnit as = true)
    (hrun : (runFrom step oneUnit as).map test = some true) :
    exists s, Reaches step (SignalsOwn 0) oneUnit s ∧ test s = true := by
  rcases Option.map_eq_some_iff.mp hrun with ⟨s, hs, htest⟩
  exact ⟨s, runFrom_reaches (runMeets_of_runCheck signalsOwn_of_ownTest hcheck) hs, htest⟩

/--
The killed task is ready and still queued, it enters while task 0 is inside, and
the next signal finds it at the front of the queue.
-/
theorem kill_breaks_semaphore :
    (exists s, Reaches step (SignalsOwn 0) oneUnit s ∧
        (decide (1 ∈ (s.sems 0).waiting) && decide (s.status 1 = TaskStatus.ready)) = true) ∧
      (exists s, Reaches step (SignalsOwn 0) oneUnit s ∧
        (decide (0 ∈ (s.sems 0).inside) && decide (1 ∈ (s.sems 0).inside)) = true) ∧
      (exists s, Reaches step (SignalsOwn 0) oneUnit s ∧ s.panicked = true) := by
  constructor
  · exact reaches_with killedWaiter _ (by decide) (by decide)
  constructor
  · exact reaches_with (killedWaiter ++ [Action.dispatch 1]) _ (by decide) (by decide)
  · exact reaches_with (killedWaiter ++ [Action.dispatch 1, Action.signal 0])
      State.panicked (by decide) (by decide)

end SemTasks
end Kernel
end NicoOS
