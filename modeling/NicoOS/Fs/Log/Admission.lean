import NicoOS.Fs.Log.Header
import NicoOS.Kernel.Semaphore
import NicoOS.Lib.Transition

/-!
# Admission to the log

`log_begin_op`, `log_write` and `log_end_op` of `fs/log.c`, with tasks switched
wherever `sem_wait` or a disk transfer of `commit` may block.  Every running
operation keeps room for the blocks it may still log.
-/

namespace NicoOS
namespace Fs
namespace Log

open Lib Kernel

/-- The fields of `struct log` that admission works with. -/
structure DiskLog where
  waitSem : Turnstile
  outstanding : Nat
  committing : Bool
  lh : LogHeader

/-- A task between `log_begin_op` and `log_end_op`, and the blocks it has logged. -/
structure Op where
  task : Nat
  logged : List UInt32

/--
The log and the tasks in its functions.  `committer` is the task in `commit` and
whether it has cleared the count.  `since` records the blocks logged since the
last commit; the last three fields record whether a store left the array, a
block was logged during a commit, or the assertion of `log_end_op` failed.
-/
structure State where
  log : DiskLog
  beginning : List Nat
  running : List Op
  committer : Option (Nat × Bool)
  since : List UInt32
  overrun : Bool
  lateWrite : Bool
  endFailed : Bool

def logInit : State :=
  { log :=
      { waitSem := Turnstile.init 0
        outstanding := 0
        committing := false
        lh := { n := 0, blocks := fun _ => 0 } }
    beginning := []
    running := []
    committer := none
    since := []
    overrun := false
    lateWrite := false
    endFailed := false }

def Idle (s : State) (task : Nat) : Prop :=
  Not (task ∈ s.beginning) ∧ Not (task ∈ s.log.waitSem.waiting) ∧
    Not (task ∈ s.log.waitSem.released) ∧ Not (task ∈ s.running.map Op.task) ∧
    s.committer.map Prod.fst ≠ some task

instance (s : State) (task : Nat) : Decidable (Idle s task) :=
  inferInstanceAs (Decidable (_ ∧ _ ∧ _ ∧ _ ∧ _))

def mustWait (log : DiskLog) : Bool :=
  log.committing ||
    decide (log.lh.n + (log.outstanding + 1) * maxOpenBlocks > logSize)

def logBeginOp (task : Nat) (s : State) : State :=
  let s := { s with beginning := s.beginning.erase task }
  if mustWait s.log then
    let result := s.log.waitSem.wait task
    { s with
      log := { s.log with waitSem := result.2 }
      beginning := if result.1 then task :: s.beginning else s.beginning }
  else
    { s with
      log := { s.log with outstanding := s.log.outstanding + 1 }
      running := { task := task, logged := [] } :: s.running }

/-- The running operation of a task, and the other ones. -/
def takeOp (task : Nat) : List Op -> Option (Op × List Op)
  | [] => none
  | op :: rest =>
      if op.task = task then
        some (op, rest)
      else
        match takeOp task rest with
        | none => none
        | some (found, others) => some (found, op :: others)

def logWrite (task : Nat) (b : UInt32) (s : State) : Option State :=
  match takeOp task s.running with
  | none => none
  | some (op, others) =>
      some { s with
        log := { s.log with lh := s.log.lh.record b }
        running := { op with logged := op.logged.insert b } :: others
        since := b :: s.since
        overrun := s.overrun || decide (Not (s.log.lh.place b < logSize))
        lateWrite := s.lateWrite || s.log.committing }

def logEndOp (task : Nat) (s : State) : Option State :=
  match takeOp task s.running with
  | none => none
  | some (_, others) =>
      let log := { s.log with outstanding := s.log.outstanding - 1 }
      let s :=
        { s with
          log := log
          running := others
          endFailed := s.endFailed || s.log.committing }
      if log.outstanding = 0 then
        some { s with
          log := { log with committing := true }
          committer := some (task, false) }
      else if log.waitSem.waiting ≠ [] then
        match log.waitSem.signal with
        | none => none
        | some sem => some { s with log := { log with waitSem := sem } }
      else
        some s

/-- The part of `commit` that forgets the blocks. -/
def commitClear (s : State) : Option State :=
  match s.committer with
  | some (task, false) =>
      some { s with
        log := { s.log with lh := { s.log.lh with n := 0 } }
        committer := some (task, true)
        since := [] }
  | _ => none

def commitDone (s : State) : Option State :=
  match s.committer with
  | some (_, true) =>
      match s.log.waitSem.signal with
      | none => none
      | some sem =>
          some { s with
            log := { s.log with committing := false, waitSem := sem }
            committer := none }
  | _ => none

inductive Action where
  | enter (task : Nat)
  | test (task : Nat)
  | resume (task : Nat)
  | write (task : Nat) (b : UInt32)
  | finish (task : Nat)
  | clear
  | done

def step (s : State) : Action -> Option State
  | Action.enter task =>
      if Idle s task then some { s with beginning := task :: s.beginning } else none
  | Action.test task =>
      if task ∈ s.beginning then some (logBeginOp task s) else none
  | Action.resume task =>
      if task ∈ s.log.waitSem.released then
        some { s with
          log := { s.log with waitSem := s.log.waitSem.resume task }
          beginning := task :: s.beginning }
      else
        none
  | Action.write task b => logWrite task b s
  | Action.finish task => logEndOp task s
  | Action.clear => commitClear s
  | Action.done => commitDone s

/-- An operation logs at most `MAX_OPEN_BLOCKS` distinct blocks. -/
def WithinLimit (s : State) : Action -> Prop
  | Action.write task b => forall op, op ∈ s.running -> op.task = task ->
      (op.logged.insert b).length ≤ maxOpenBlocks
  | _ => True

/-- What admission guarantees. -/
structure Admitted (s : State) : Prop where
  bounded : s.log.lh.n ≤ logSize
  inArray : s.overrun = false
  nodup : s.log.lh.entries.Nodup
  complete : forall b, b ∈ s.since -> b ∈ s.log.lh.entries
  quiet : s.log.committing = true -> s.log.outstanding = 0
  endHolds : s.endFailed = false
  noLateWrite : s.lateWrite = false

/-!
# Reservations
-/

def Op.reserve (op : Op) : Nat := maxOpenBlocks - op.logged.length

def reserved : List Op -> Nat
  | [] => 0
  | op :: rest => op.reserve + reserved rest

structure Inv (s : State) : Prop where
  reserve : s.log.lh.n + reserved s.running ≤ logSize
  limit : forall op, op ∈ s.running -> op.logged.length ≤ maxOpenBlocks
  logged : forall op, op ∈ s.running -> forall b, b ∈ op.logged -> b ∈ s.log.lh.entries
  count : s.log.outstanding = s.running.length
  quiet : s.log.committing = true -> s.running = []
  commits : s.committer.isSome = true -> s.log.committing = true
  nodup : s.log.lh.entries.Nodup
  complete : forall b, b ∈ s.since -> b ∈ s.log.lh.entries
  sem : s.log.waitSem.Sound
  inArray : s.overrun = false
  endHolds : s.endFailed = false
  noLateWrite : s.lateWrite = false

theorem takeOp_some {task : Nat} {ops : List Op} {op : Op} {others : List Op}
    (h : takeOp task ops = some (op, others)) :
    op.task = task ∧ op ∈ ops ∧ (forall x, x ∈ others -> x ∈ ops) ∧
      reserved ops = op.reserve + reserved others ∧ ops.length = others.length + 1 := by
  induction ops generalizing op others with
  | nil => cases h
  | cons first rest ih =>
      unfold takeOp at h
      split at h
      · rename_i htask
        cases h
        refine ⟨htask, List.mem_cons_self, ?_, ?_, rfl⟩
        · intro x hx
          exact List.mem_cons_of_mem _ hx
        · exact rfl
      · split at h
        · cases h
        · rename_i found others' hrest
          cases h
          rcases ih hrest with ⟨htask, hmem, hsub, hsum, hlen⟩
          refine ⟨htask, List.mem_cons_of_mem first hmem, ?_, ?_, ?_⟩
          · intro x hx
            rcases List.mem_cons.mp hx with rfl | htail
            · exact List.mem_cons_self
            · exact List.mem_cons_of_mem first (hsub x htail)
          · have hleft : reserved (first :: rest) = first.reserve + reserved rest :=
              rfl
            have hright : reserved (first :: others') = first.reserve + reserved others' :=
              rfl
            lia
          · rw [List.length_cons, List.length_cons, hlen]

theorem reserved_le (ops : List Op) : reserved ops ≤ ops.length * maxOpenBlocks := by
  induction ops with
  | nil => exact Nat.le_refl 0
  | cons op rest ih =>
      have hsum : reserved (op :: rest) = op.reserve + reserved rest := rfl
      have hop : op.reserve ≤ maxOpenBlocks := Nat.sub_le _ _
      rw [hsum, List.length_cons, Nat.succ_mul]
      lia

theorem logInit_inv : Inv logInit := by
  refine ⟨Nat.zero_le logSize, ?_, ?_, rfl, fun _ => rfl, ?_, List.nodup_nil, ?_,
    Semaphore.init_sound (Int.le_refl 0), rfl, rfl, rfl⟩
  · intro op hop
    cases hop
  · intro op hop
    cases hop
  · intro hcommits
    cases hcommits
  · intro b hb
    cases hb

variable {s : State}

theorem Inv.logBeginOp (h : Inv s) (task : Nat) : Inv (logBeginOp task s) := by
  unfold Log.logBeginOp
  simp only
  cases hwait : mustWait s.log with
  | true =>
      exact ⟨h.reserve, h.limit, h.logged, h.count, h.quiet, h.commits, h.nodup,
        h.complete, Turnstile.wait_sound h.sem task, h.inArray, h.endHolds, h.noLateWrite⟩
  | false =>
      rcases Bool.or_eq_false_iff.mp hwait with ⟨hcommitting, hroom⟩
      have hroom' := of_decide_eq_false hroom
      have hle := reserved_le s.running
      have hsum : reserved ({ task := task, logged := [] } :: s.running) =
          maxOpenBlocks + reserved s.running := rfl
      have hcount := h.count
      refine ⟨?_, ?_, ?_, ?_, ?_, h.commits, h.nodup, h.complete, h.sem, h.inArray,
        h.endHolds, h.noLateWrite⟩
      · show s.log.lh.n + reserved ({ task := task, logged := [] } :: s.running) ≤ logSize
        rw [hsum]
        rw [hcount, Nat.add_mul, Nat.one_mul] at hroom'
        lia
      · intro op hop
        rcases List.mem_cons.mp hop with rfl | hold
        · exact Nat.zero_le _
        · exact h.limit op hold
      · intro op hop
        rcases List.mem_cons.mp hop with rfl | hold
        · intro b hb
          cases hb
        · exact h.logged op hold
      · show s.log.outstanding + 1 = s.running.length + 1
        rw [hcount]
      · intro hc
        have hc' : s.log.committing = true := hc
        rw [hcommitting] at hc'
        cases hc'

/-- The header keeps its blocks and gains at most the new one. -/
theorem record_entries (lh : LogHeader) (b x : UInt32) :
    x ∈ (lh.record b).entries <-> x ∈ lh.entries ∨ x = b := by
  cases Classical.em (b ∈ lh.entries) with
  | inl hmem =>
      rw [(LogHeader.record_of_mem hmem).right]
      refine ⟨Or.inl, ?_⟩
      intro hor
      rcases hor with hx | rfl
      · exact hx
      · exact hmem
  | inr hnew =>
      rw [(LogHeader.record_of_not_mem hnew).right.right, List.mem_append,
        List.mem_singleton]

/-- A block either is new and uses a reserved place, or it is absorbed. -/
theorem record_reserve {lh : LogHeader} {b : UInt32} {op : Op} {others : List Op}
    (hroom : lh.n + (op.reserve + reserved others) ≤ logSize)
    (hlogged : forall x, x ∈ op.logged -> x ∈ lh.entries)
    (hlimit : (op.logged.insert b).length ≤ maxOpenBlocks) :
    (lh.record b).n + (({ op with logged := op.logged.insert b } : Op).reserve +
        reserved others) ≤ logSize ∧ lh.place b < logSize := by
  have hreserve : op.reserve = maxOpenBlocks - op.logged.length := rfl
  have hreserve' : ({ op with logged := op.logged.insert b } : Op).reserve =
      maxOpenBlocks - (op.logged.insert b).length := rfl
  cases Classical.em (b ∈ lh.entries) with
  | inl hmem =>
      rcases LogHeader.record_of_mem hmem with ⟨hplace, hsame⟩
      have hgrow : op.logged.length ≤ (op.logged.insert b).length :=
        List.length_le_length_insert
      rw [hsame]
      exact ⟨by lia, by lia⟩
  | inr hnew =>
      rcases LogHeader.record_of_not_mem hnew with ⟨hplace, hn, _⟩
      have hlen : (op.logged.insert b).length = op.logged.length + 1 :=
        List.length_insert_of_not_mem (fun hb => hnew (hlogged b hb))
      rw [hn]
      exact ⟨by lia, by lia⟩

theorem Inv.logWrite {t : State} (h : Inv s) {task : Nat} {b : UInt32}
    (hlimit : WithinLimit s (Action.write task b))
    (hstep : logWrite task b s = some t) : Inv t := by
  unfold Log.logWrite at hstep
  split at hstep
  · cases hstep
  · rename_i op others htake
    cases hstep
    rcases takeOp_some htake with ⟨htask, hop, hothers, hsum, hlen⟩
    have hroom := h.reserve
    rw [hsum] at hroom
    rcases record_reserve hroom (h.logged op hop) (hlimit op hop htask) with
      ⟨hreserve, hplace⟩
    have hopen : s.log.committing = false := by
      cases hcommitting : s.log.committing with
      | false => rfl
      | true =>
          rw [h.quiet hcommitting] at hop
          cases hop
    have hkeep : forall x, x ∈ s.log.lh.entries -> x ∈ (s.log.lh.record b).entries :=
      fun x hx => (record_entries s.log.lh b x).mpr (Or.inl hx)
    have hnew : b ∈ (s.log.lh.record b).entries :=
      (record_entries s.log.lh b b).mpr (Or.inr rfl)
    constructor
    · have hcons : reserved ({ op with logged := op.logged.insert b } :: others) =
          ({ op with logged := op.logged.insert b } : Op).reserve + reserved others :=
        rfl
      show (s.log.lh.record b).n + reserved _ ≤ logSize
      rw [hcons]
      exact hreserve
    · intro x hx
      rcases List.mem_cons.mp hx with rfl | hold
      · exact hlimit op hop htask
      · exact h.limit x (hothers x hold)
    · intro x hx c hc
      rcases List.mem_cons.mp hx with rfl | hold
      · rcases List.mem_insert_iff.mp hc with rfl | hc'
        · exact hnew
        · exact hkeep c (h.logged op hop c hc')
      · exact hkeep c (h.logged x (hothers x hold) c hc)
    · exact h.count.trans hlen
    · intro hcommitting
      have hc : s.log.committing = true := hcommitting
      rw [hopen] at hc
      cases hc
    · exact h.commits
    · show (s.log.lh.record b).entries.Nodup
      cases Classical.em (b ∈ s.log.lh.entries) with
      | inl hmem =>
          rw [(LogHeader.record_of_mem hmem).right]
          exact h.nodup
      | inr hfresh =>
          rw [(LogHeader.record_of_not_mem hfresh).right.right]
          refine h.nodup.append (List.nodup_singleton b) ?_
          intro x hx hlast
          rw [List.mem_singleton.mp hlast] at hx
          exact hfresh hx
    · intro c hc
      rcases List.mem_cons.mp hc with rfl | hold
      · exact hnew
      · exact hkeep c (h.complete c hold)
    · exact h.sem
    · show (s.overrun || decide (Not (s.log.lh.place b < logSize))) = false
      rw [h.inArray, decide_eq_false (not_not_intro hplace)]
      rfl
    · exact h.endHolds
    · show (s.lateWrite || s.log.committing) = false
      rw [h.noLateWrite, hopen]
      rfl

theorem Inv.logEndOp {t : State} (h : Inv s) {task : Nat}
    (hstep : logEndOp task s = some t) : Inv t := by
  unfold Log.logEndOp at hstep
  split at hstep
  · cases hstep
  · rename_i op others htake
    rcases takeOp_some htake with ⟨_, hop, hothers, hsum, hlen⟩
    have hopen : s.log.committing = false := by
      cases hcommitting : s.log.committing with
      | false => rfl
      | true =>
          rw [h.quiet hcommitting] at hop
          cases hop
    have hroom : s.log.lh.n + reserved others ≤ logSize := by
      have hroom := h.reserve
      lia
    have hcount : s.log.outstanding - 1 = others.length := by
      rw [h.count, hlen]
      rfl
    have hend : (s.endFailed || s.log.committing) = false := by
      rw [h.endHolds, hopen]
      rfl
    have hlimit : forall x, x ∈ others -> x.logged.length ≤ maxOpenBlocks :=
      fun x hx => h.limit x (hothers x hx)
    have hlogged : forall x, x ∈ others -> forall b, b ∈ x.logged ->
        b ∈ s.log.lh.entries := fun x hx => h.logged x (hothers x hx)
    have hclosed : s.log.committing = true -> others = [] := by
      intro hc
      rw [hopen] at hc
      cases hc
    simp only at hstep
    split at hstep
    · rename_i hlast
      cases hstep
      refine ⟨hroom, hlimit, hlogged, hcount, ?_, fun _ => rfl, h.nodup, h.complete, h.sem,
        h.inArray, hend, h.noLateWrite⟩
      intro _
      apply List.length_eq_zero_iff.mp
      rw [← hcount]
      exact hlast
    · split at hstep
      · rcases Turnstile.signal_spec h.sem with ⟨sem, hsem, hsound, _⟩
        rw [hsem] at hstep
        cases hstep
        exact ⟨hroom, hlimit, hlogged, hcount, hclosed, h.commits, h.nodup, h.complete,
          hsound, h.inArray, hend, h.noLateWrite⟩
      · cases hstep
        exact ⟨hroom, hlimit, hlogged, hcount, hclosed, h.commits, h.nodup, h.complete,
          h.sem, h.inArray, hend, h.noLateWrite⟩

theorem Inv.commitClear {t : State} (h : Inv s) (hstep : commitClear s = some t) :
    Inv t := by
  unfold Log.commitClear at hstep
  split at hstep
  · rename_i task hcommitter
    cases hstep
    have hcommitting : s.log.committing = true := by
      apply h.commits
      rw [hcommitter]
      rfl
    have hnone := h.quiet hcommitting
    refine ⟨?_, h.limit, ?_, h.count, h.quiet, fun _ => hcommitting, List.nodup_nil, ?_,
      h.sem, h.inArray, h.endHolds, h.noLateWrite⟩
    · show 0 + reserved s.running ≤ logSize
      rw [hnone]
      exact Nat.zero_le logSize
    · intro op hop
      change op ∈ s.running at hop
      rw [hnone] at hop
      cases hop
    · intro b hb
      cases hb
  · cases hstep

theorem Inv.commitDone {t : State} (h : Inv s) (hstep : commitDone s = some t) :
    Inv t := by
  unfold Log.commitDone at hstep
  split at hstep
  · rcases Turnstile.signal_spec h.sem with ⟨sem, hsem, hsound, _⟩
    rw [hsem] at hstep
    cases hstep
    refine ⟨h.reserve, h.limit, h.logged, h.count, ?_, ?_, h.nodup, h.complete, hsound,
      h.inArray, h.endHolds, h.noLateWrite⟩
    · intro hc
      cases hc
    · intro hc
      cases hc
  · cases hstep

theorem Inv.step {t : State} {a : Action} (h : Inv s) (hlimit : WithinLimit s a)
    (hstep : step s a = some t) : Inv t := by
  cases a with
  | enter task =>
      simp only [Log.step] at hstep
      split at hstep
      · cases hstep
        exact ⟨h.reserve, h.limit, h.logged, h.count, h.quiet, h.commits, h.nodup,
          h.complete, h.sem, h.inArray, h.endHolds, h.noLateWrite⟩
      · cases hstep
  | test task =>
      simp only [Log.step] at hstep
      split at hstep
      · cases hstep
        exact h.logBeginOp task
      · cases hstep
  | resume task =>
      simp only [Log.step] at hstep
      split at hstep
      · cases hstep
        exact ⟨h.reserve, h.limit, h.logged, h.count, h.quiet, h.commits, h.nodup,
          h.complete, h.sem, h.inArray, h.endHolds, h.noLateWrite⟩
      · cases hstep
  | write task b => exact h.logWrite hlimit hstep
  | finish task => exact h.logEndOp hstep
  | clear => exact h.commitClear hstep
  | done => exact h.commitDone hstep

/-- The log never overflows and no block is logged behind the back of a commit. -/
theorem log_admission {s : State} (h : Reaches step WithinLimit logInit s) :
    Admitted s := by
  have hinv : Inv s :=
    h.invariant logInit_inv (fun r t a hr hlimit hstep => hr.step hlimit hstep)
  refine ⟨?_, hinv.inArray, hinv.nodup, hinv.complete, ?_, hinv.endHolds, hinv.noLateWrite⟩
  · have hroom := hinv.reserve
    lia
  · intro hcommitting
    rw [hinv.count, hinv.quiet hcommitting]
    rfl

/-- Two tasks share the log, and the last one to end commits. -/
def sharedRun : List Action :=
  [Action.enter 1, Action.test 1, Action.enter 2, Action.test 2, Action.write 1 7,
    Action.write 2 7, Action.write 2 9, Action.finish 1, Action.finish 2, Action.clear]

def withinLimitTest (s : State) : Action -> Bool
  | Action.write task b => s.running.all (fun op =>
      decide (op.task = task -> (op.logged.insert b).length ≤ maxOpenBlocks))
  | _ => true

theorem withinLimit_of_test (s : State) (a : Action) (h : withinLimitTest s a = true) :
    WithinLimit s a := by
  cases a with
  | write task b =>
      intro op hop htask
      have hall := List.all_eq_true.mp h op hop
      exact of_decide_eq_true hall htask
  | _ => trivial

theorem log_admission_sharedRun :
    exists s, runFrom step logInit sharedRun = some s ∧ Admitted s := by
  rcases reaches_of_runCheck withinLimit_of_test
    (show runCheck step withinLimitTest logInit sharedRun = true by decide)
    (show (runFrom step logInit sharedRun).isSome = true by decide) with ⟨s, hrun, hreach⟩
  exact ⟨s, hrun, log_admission hreach⟩

end Log
end Fs
end NicoOS
