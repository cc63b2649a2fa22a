import Mathlib.Tactic.Common

/-!
# Counting semaphores

`kernel/semaphore.c`.  A task that finds no unit waits in a queue, and a signal
hands its unit to the task at the front of the queue.
-/

namespace NicoOS
namespace Kernel

/--
`struct semaphore`.  `wait` and `signal` count with integers, and `wait32` and
`signal32` with the `int32_t` of the source.
-/
structure Semaphore where
  val : Int
  waiting : List Nat

namespace Semaphore

def init (initialVal : Int) : Semaphore :=
  { val := initialVal, waiting := [] }

/-- `sem_wait` up to `task_block`; the flag says whether the task passed. -/
def wait (sem : Semaphore) (task : Nat) : Bool × Semaphore :=
  if sem.val - 1 < 0 then
    (false, { val := sem.val - 1, waiting := sem.waiting ++ [task] })
  else
    (true, { sem with val := sem.val - 1 })

/-- `sem_signal` and the task it wakes up; `none` is its failed assertion. -/
def signal (sem : Semaphore) : Option (Option Nat × Semaphore) :=
  if sem.val + 1 ≤ 0 then
    match sem.waiting with
    | [] => none
    | task :: rest => some (some task, { val := sem.val + 1, waiting := rest })
  else
    some (none, { sem with val := sem.val + 1 })

def signalAllFrom : List Nat -> Int -> Option (List Nat × Semaphore)
  | [], val =>
      if val + 1 ≤ 0 then
        none
      else
        some ([], { val := val + 1, waiting := [] })
  | task :: rest, val =>
      if val + 1 ≤ 0 then
        match signalAllFrom rest (val + 1) with
        | none => none
        | some (woken, sem) => some (task :: woken, sem)
      else
        some ([], { val := val + 1, waiting := task :: rest })

def signalAll (sem : Semaphore) : Option (List Nat × Semaphore) :=
  signalAllFrom sem.waiting sem.val

/-!
# The value is an `int32_t`
-/

/-- The value that an `int32_t` keeps of a result. -/
def int32 (n : Int) : Int := n.bmod 4294967296

def wait32 (sem : Semaphore) (task : Nat) : Bool × Semaphore :=
  if int32 (sem.val - 1) < 0 then
    (false, { val := int32 (sem.val - 1), waiting := sem.waiting ++ [task] })
  else
    (true, { sem with val := int32 (sem.val - 1) })

def signal32 (sem : Semaphore) : Option (Option Nat × Semaphore) :=
  if int32 (sem.val + 1) ≤ 0 then
    match sem.waiting with
    | [] => none
    | task :: rest => some (some task, { val := int32 (sem.val + 1), waiting := rest })
  else
    some (none, { sem with val := int32 (sem.val + 1) })

theorem int32_of_range {n : Int} (hlow : -2147483648 ≤ n) (hhigh : n < 2147483648) :
    int32 n = n :=
  Int.bmod_eq_of_le (by lia) (by lia)

theorem wait32_eq {sem : Semaphore} (hlow : -2147483648 < sem.val)
    (hhigh : sem.val < 2147483648) (task : Nat) : sem.wait32 task = sem.wait task := by
  have hval : int32 (sem.val - 1) = sem.val - 1 := int32_of_range (by lia) (by lia)
  unfold wait32 wait
  rw [hval]

theorem signal32_eq {sem : Semaphore} (hlow : -2147483648 ≤ sem.val)
    (hhigh : sem.val < 2147483647) : sem.signal32 = sem.signal := by
  have hval : int32 (sem.val + 1) = sem.val + 1 := int32_of_range (by lia) (by lia)
  unfold signal32 signal
  rw [hval]

/-- Past the greatest value an assertion fails, as no task waits there. -/
theorem signal32_max {sem : Semaphore} (hval : sem.val = 2147483647)
    (hwait : sem.waiting = []) : sem.signal32 = none := by
  have hwrap : int32 (sem.val + 1) ≤ 0 := by
    rw [hval]
    decide
  unfold signal32
  rw [if_pos hwrap, hwait]

/-!
# The value counts the waiting tasks
-/

def Sound (sem : Semaphore) : Prop := sem.waiting.length = (-sem.val).toNat

theorem init_sound {n : Int} (h : 0 ≤ n) : (init n).Sound := by
  show 0 = (-n).toNat
  lia

theorem wait_sound {sem : Semaphore} (h : sem.Sound) (task : Nat) :
    (sem.wait task).2.Sound := by
  unfold Sound at h
  unfold wait
  split
  · show (sem.waiting ++ [task]).length = (-(sem.val - 1)).toNat
    rw [List.length_append, h]
    show _ + 1 = _
    lia
  · show sem.waiting.length = (-(sem.val - 1)).toNat
    lia

/-- A signal finds a waiting task whenever the value says that there is one. -/
theorem signal_cases {sem : Semaphore} (h : sem.Sound) :
    (exists task rest, sem.val < 0 ∧ sem.waiting = task :: rest ∧
        sem.signal = some (some task, { val := sem.val + 1, waiting := rest })) ∨
      (0 ≤ sem.val ∧ sem.waiting = [] ∧
        sem.signal = some (none, { val := sem.val + 1, waiting := [] })) := by
  unfold Sound at h
  unfold signal
  cases hwait : sem.waiting with
  | nil =>
      rw [hwait, List.length_nil] at h
      right
      rw [if_neg (by lia)]
      exact ⟨by lia, rfl, rfl⟩
  | cons task rest =>
      rw [hwait, List.length_cons] at h
      left
      rw [if_pos (by lia)]
      exact ⟨task, rest, by lia, rfl, rfl⟩

theorem signal_sound {sem sem' : Semaphore} {woken : Option Nat} (h : sem.Sound)
    (hsignal : sem.signal = some (woken, sem')) : sem'.Sound := by
  rcases signal_cases h with ⟨task, rest, hval, hwait, heq⟩ | ⟨hval, hwait, heq⟩
  · rw [heq] at hsignal
    cases hsignal
    unfold Sound at h
    rw [hwait, List.length_cons] at h
    show rest.length = (-(sem.val + 1)).toNat
    lia
  · rw [heq] at hsignal
    cases hsignal
    show 0 = (-(sem.val + 1)).toNat
    lia

theorem signalAllFrom_spec (waiting : List Nat) (val : Int)
    (h : waiting.length = (-val).toNat) :
    signalAllFrom waiting val =
      some (waiting, { val := val + waiting.length + 1, waiting := [] }) := by
  induction waiting generalizing val with
  | nil =>
      rw [List.length_nil] at h
      unfold signalAllFrom
      rw [if_neg (by lia), List.length_nil, Int.natCast_zero, Int.add_zero]
  | cons task rest ih =>
      rw [List.length_cons] at h
      have hval : val + 1 + (rest.length : Int) = val + ((rest.length + 1 : Nat) : Int) := by
        lia
      unfold signalAllFrom
      rw [if_pos (by lia), ih (val + 1) (by lia), List.length_cons, hval]

theorem signalAll_spec {sem : Semaphore} (h : sem.Sound) :
    exists val, 0 < val ∧
      sem.signalAll = some (sem.waiting, { val := val, waiting := [] }) := by
  refine ⟨sem.val + sem.waiting.length + 1, ?_, signalAllFrom_spec _ _ h⟩
  unfold Sound at h
  lia

end Semaphore

/-!
# Units

The units at hand are those of the value and those handed to tasks that were
taken from the queue and have not left `sem_wait` yet.
-/

structure Turnstile extends Semaphore where
  released : List Nat

namespace Turnstile

def init (initialVal : Int) : Turnstile :=
  { toSemaphore := Semaphore.init initialVal, released := [] }

def wait (sem : Turnstile) (task : Nat) : Bool × Turnstile :=
  let result := sem.toSemaphore.wait task
  (result.1, { sem with toSemaphore := result.2 })

def wait32 (sem : Turnstile) (task : Nat) : Bool × Turnstile :=
  let result := sem.toSemaphore.wait32 task
  (result.1, { sem with toSemaphore := result.2 })

def resume (sem : Turnstile) (task : Nat) : Turnstile :=
  { sem with released := sem.released.erase task }

def signal (sem : Turnstile) : Option Turnstile :=
  match sem.toSemaphore.signal with
  | none => none
  | some (woken, sem') =>
      some { toSemaphore := sem', released := woken.toList ++ sem.released }

def signalAll (sem : Turnstile) : Option Turnstile :=
  match sem.toSemaphore.signalAll with
  | none => none
  | some (woken, sem') => some { toSemaphore := sem', released := woken ++ sem.released }

def units (sem : Turnstile) : Nat := sem.val.toNat + sem.released.length

theorem wait_sound {sem : Turnstile} (h : sem.Sound) (task : Nat) :
    (sem.wait task).2.Sound := Semaphore.wait_sound h task

/-- A wait passes with a unit of the value, or joins the queue. -/
theorem wait_cases (sem : Turnstile) (t : Nat) :
    (1 ≤ sem.val ∧ sem.wait t =
        (true, { sem with toSemaphore := { sem.toSemaphore with val := sem.val - 1 } })) ∨
      (sem.val ≤ 0 ∧ sem.wait t =
        (false, { sem with
          toSemaphore := { val := sem.val - 1, waiting := sem.waiting ++ [t] } })) := by
  unfold wait Semaphore.wait
  cases Int.lt_or_le sem.val 1 with
  | inl hlow =>
      right
      rw [if_pos (by lia)]
      exact ⟨by lia, rfl⟩
  | inr hhigh =>
      left
      rw [if_neg (by lia)]
      exact ⟨hhigh, rfl⟩

theorem wait_units_pass {sem : Turnstile} {task : Nat}
    (h : (sem.wait task).1 = true) : (sem.wait task).2.units + 1 = sem.units := by
  unfold wait Semaphore.wait at h ⊢
  split at h
  · cases h
  · rename_i hval
    rw [if_neg hval]
    show (sem.val - 1).toNat + sem.released.length + 1 = sem.val.toNat + _
    lia

theorem wait_units_block {sem : Turnstile} {task : Nat}
    (h : (sem.wait task).1 = false) : (sem.wait task).2.units = sem.units := by
  unfold wait Semaphore.wait at h ⊢
  split at h
  · rename_i hval
    rw [if_pos hval]
    show (sem.val - 1).toNat + sem.released.length = sem.val.toNat + _
    lia
  · cases h

theorem resume_units {sem : Turnstile} {task : Nat} (h : task ∈ sem.released) :
    (sem.resume task).units + 1 = sem.units := by
  have hlen := List.length_erase_of_mem h
  have hpos := List.length_pos_of_mem h
  show sem.val.toNat + (sem.released.erase task).length + 1 = sem.val.toNat + _
  lia

/-- A signal that does not fail its assertion adds one unit. -/
theorem signal_units {sem sem' : Turnstile} (h : sem.signal = some sem') :
    sem'.units = sem.units + 1 := by
  unfold signal Semaphore.signal at h
  cases Int.lt_or_le sem.val 0 with
  | inl hneg =>
      rw [if_pos (by lia)] at h
      cases hwait : sem.waiting with
      | nil =>
          rw [hwait] at h
          cases h
      | cons task rest =>
          rw [hwait] at h
          cases h
          show (sem.val + 1).toNat + (sem.released.length + 1) = sem.val.toNat + _ + 1
          lia
  | inr hpos =>
      rw [if_neg (by lia)] at h
      cases h
      show (sem.val + 1).toNat + sem.released.length = sem.val.toNat + _ + 1
      lia

theorem wait_pass {sem sem' : Turnstile} {task : Nat} (h : sem.wait task = (true, sem')) :
    sem'.waiting = sem.waiting ∧ sem'.released = sem.released ∧
      sem'.units + 1 = sem.units := by
  have hunits := wait_units_pass (congrArg Prod.fst h)
  rw [h] at hunits
  rcases wait_cases sem task with ⟨_, heq⟩ | ⟨_, heq⟩
  · rw [heq] at h
    cases h
    exact ⟨rfl, rfl, hunits⟩
  · rw [heq] at h
    cases h

theorem wait_block {sem sem' : Turnstile} {task : Nat} (h : sem.wait task = (false, sem')) :
    sem'.waiting = sem.waiting ++ [task] ∧ sem'.released = sem.released ∧
      sem'.units = sem.units := by
  have hunits := wait_units_block (congrArg Prod.fst h)
  rw [h] at hunits
  rcases wait_cases sem task with ⟨_, heq⟩ | ⟨_, heq⟩
  · rw [heq] at h
    cases h
  · rw [heq] at h
    cases h
    exact ⟨rfl, rfl, hunits⟩

/-- A signal moves a task from the queue to the woken ones. -/
theorem signal_perm {sem sem' : Turnstile} (hsound : sem.Sound) (h : sem.signal = some sem') :
    (sem'.waiting ++ sem'.released).Perm (sem.waiting ++ sem.released) := by
  unfold signal at h
  rcases Semaphore.signal_cases hsound with ⟨task, rest, _, hwait, heq⟩ | ⟨_, hwait, heq⟩
  · rw [heq] at h
    cases h
    rw [hwait]
    exact List.perm_middle
  · rw [heq] at h
    cases h
    rw [hwait]
    exact List.Perm.refl _

/-- A signal adds one unit and never fails its assertion. -/
theorem signal_spec {sem : Turnstile} (h : sem.Sound) :
    exists sem', sem.signal = some sem' ∧ sem'.Sound ∧ sem'.units = sem.units + 1 := by
  unfold signal
  rcases Semaphore.signal_cases h with ⟨task, rest, hval, hwait, heq⟩ | ⟨hval, hwait, heq⟩
  · refine ⟨_, by rw [heq], Semaphore.signal_sound h heq, ?_⟩
    show (sem.val + 1).toNat + (sem.released.length + 1) = sem.val.toNat + _ + 1
    lia
  · refine ⟨_, by rw [heq], Semaphore.signal_sound h heq, ?_⟩
    show (sem.val + 1).toNat + sem.released.length = sem.val.toNat + _ + 1
    lia

/-- A signal releases the task that has waited longest. -/
theorem signal_waiting {sem : Turnstile} (h : sem.Sound) {task : Nat} {rest : List Nat}
    (hwait : sem.waiting = task :: rest) :
    sem.signal = some ⟨⟨sem.val + 1, rest⟩, task :: sem.released⟩ := by
  unfold signal
  rcases Semaphore.signal_cases h with ⟨task', rest', -, hwait', heq⟩ | ⟨-, hnone, -⟩
  · cases hwait.symm.trans hwait'
    rewrite [heq]
    rfl
  · cases hwait.symm.trans hnone

theorem signalAll_spec {sem : Turnstile} (h : sem.Sound) :
    exists sem', sem.signalAll = some sem' ∧ sem'.Sound := by
  rcases Semaphore.signalAll_spec h with ⟨val, hval, heq⟩
  unfold signalAll
  refine ⟨_, by rw [heq], ?_⟩
  show 0 = (-val).toNat
  lia

end Turnstile
end Kernel
end NicoOS
