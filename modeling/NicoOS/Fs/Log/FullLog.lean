import NicoOS.Fs.Log.Admission

/-!
# `log_write` and the full log

The assertions at the start of `log_write`, which come before the search for the
block.  Admission keeps a place for every block that an operation may still log, so
the call fails only where all places are taken and the block has one of them.
-/

namespace NicoOS
namespace Fs
namespace Log

open Lib Kernel

/-- Where `log_write` does not return, or is not called at all. -/
inductive WriteStop where
  | notRunning
  | assertion
  deriving DecidableEq

def logWriteCall (task : Nat) (b : UInt32) (s : State) : Except WriteStop State :=
  if s.log.lh.n < logSize then
    if s.log.outstanding ≥ 1 then
      match logWrite task b s with
      | none => Except.error WriteStop.notRunning
      | some t => Except.ok t
    else
      Except.error WriteStop.assertion
  else
    Except.error WriteStop.assertion

def assertedStep (s : State) : Action -> Option State
  | Action.write task b => (logWriteCall task b s).toOption
  | a => step s a

/-- A running operation has logged the block, or the operation may still log it. -/
def MayLog (s : State) (op : Op) (b : UInt32) : Prop :=
  (exists other, other ∈ s.running ∧ b ∈ other.logged) ∨
    (op.logged.insert b).length ≤ maxOpenBlocks

variable {s t : State}

theorem logWriteCall_ok {task : Nat} {b : UInt32} (h : logWriteCall task b s = Except.ok t) :
    logWrite task b s = some t := by
  unfold logWriteCall at h
  split at h
  · split at h
    · cases hwrite : logWrite task b s with
      | none =>
          rw [hwrite] at h
          cases h
      | some r =>
          rw [hwrite] at h
          cases h
          rfl
    · cases h
  · cases h

theorem step_of_assertedStep {a : Action} (h : assertedStep s a = some t) : step s a = some t := by
  cases a with
  | write task b =>
      have hwrite : (logWriteCall task b s).toOption = some t := h
      cases hcall : logWriteCall task b s with
      | error e =>
          rw [hcall] at hwrite
          cases hwrite
      | ok r =>
          rw [hcall] at hwrite
          cases hwrite
          exact logWriteCall_ok hcall
  | enter task => exact h
  | test task => exact h
  | resume task => exact h
  | finish task => exact h
  | clear => exact h
  | done => exact h

theorem assertedStep_inv (h : Reaches assertedStep WithinLimit logInit s) : Inv s :=
  h.invariant logInit_inv
    (fun _ _ _ hr hlimit hstep => hr.step hlimit (step_of_assertedStep hstep))

theorem takeOp_of_mem {op : Op} {ops : List Op} (h : op ∈ ops) :
    exists found others, takeOp op.task ops = some (found, others) := by
  induction ops with
  | nil => cases h
  | cons first rest ih =>
      unfold takeOp
      by_cases htask : first.task = op.task
      · exact ⟨first, rest, if_pos htask⟩
      · rw [if_neg htask]
        have hrest : op ∈ rest := by
          rcases List.mem_cons.mp h with rfl | hrest
          · exact absurd rfl htask
          · exact hrest
        rcases ih hrest with ⟨found, others, htake⟩
        rw [htake]
        exact ⟨found, first :: others, rfl⟩

theorem reserve_le {op : Op} {ops : List Op} (h : op ∈ ops) : op.reserve ≤ reserved ops := by
  induction ops with
  | nil => cases h
  | cons first rest ih =>
      have hsum : reserved (first :: rest) = first.reserve + reserved rest := rfl
      rcases List.mem_cons.mp h with rfl | hrest
      · lia
      · have htail := ih hrest
        lia

/-- A block without a place finds one that its operation has reserved. -/
theorem Inv.room_of_new (h : Inv s) {op : Op} {b : UInt32} (hop : op ∈ s.running)
    (hmay : MayLog s op b) (hnew : Not (b ∈ s.log.lh.entries)) : s.log.lh.n < logSize := by
  rcases hmay with ⟨other, hother, hlogged⟩ | hlimit
  · exact absurd (h.logged other hother b hlogged) hnew
  · have hlen : (op.logged.insert b).length = op.logged.length + 1 :=
      List.length_insert_of_not_mem (fun hb => hnew (h.logged op hop b hb))
    have hreserve : op.reserve = maxOpenBlocks - op.logged.length := rfl
    have hle := reserve_le hop
    have hroom := h.reserve
    lia

/-- With room in the header the call of a running operation returns. -/
theorem Inv.logWriteCall (h : Inv s) {op : Op} (hop : op ∈ s.running) (b : UInt32)
    (hroom : s.log.lh.n < logSize) :
    exists t, Log.logWriteCall op.task b s = Except.ok t ∧ t.log.lh = s.log.lh.record b := by
  have hout : s.log.outstanding ≥ 1 := by
    rw [h.count]
    exact List.length_pos_of_mem hop
  rcases takeOp_of_mem hop with ⟨found, others, htake⟩
  unfold Log.logWriteCall
  rw [if_pos hroom, if_pos hout]
  unfold Log.logWrite
  rw [htake]
  exact ⟨_, rfl, rfl⟩

/--
The call returns, and leaves the header alone where it has the block, unless the
header has the block and is full.
-/
theorem log_write_returns_iff (h : Reaches assertedStep WithinLimit logInit s) {op : Op}
    (hop : op ∈ s.running) {b : UInt32} (hmay : MayLog s op b) :
    (exists t, logWriteCall op.task b s = Except.ok t ∧
        (b ∈ s.log.lh.entries -> t.log.lh = s.log.lh)) <->
      Not (b ∈ s.log.lh.entries ∧ s.log.lh.n = logSize) := by
  have hinv := assertedStep_inv h
  constructor
  · intro hex hboth
    rcases hex with ⟨t, hcall, -⟩
    rcases hboth with ⟨-, hfull⟩
    have hstop : logWriteCall op.task b s = Except.error WriteStop.assertion := by
      unfold logWriteCall
      rw [if_neg]
      rw [hfull]
      exact Nat.lt_irrefl logSize
    rw [hstop] at hcall
    cases hcall
  · intro hnot
    have hroom : s.log.lh.n < logSize := by
      by_cases hmem : b ∈ s.log.lh.entries
      · have hbound := hinv.reserve
        have hne : s.log.lh.n ≠ logSize := fun hfull => hnot ⟨hmem, hfull⟩
        lia
      · exact hinv.room_of_new hop hmay hmem
    rcases hinv.logWriteCall hop b hroom with ⟨t, hcall, hlh⟩
    refine ⟨t, hcall, ?_⟩
    intro hmem
    rw [hlh, (LogHeader.record_of_mem hmem).right]

def shortRun : List Action := [Action.enter 1, Action.test 1, Action.write 1 7]

theorem log_write_returns_iff_shortRun :
    exists s op, runFrom assertedStep logInit shortRun = some s ∧ op ∈ s.running ∧
      ((exists t, logWriteCall op.task 7 s = Except.ok t ∧
          ((7 : UInt32) ∈ s.log.lh.entries -> t.log.lh = s.log.lh)) <->
        Not ((7 : UInt32) ∈ s.log.lh.entries ∧ s.log.lh.n = logSize)) := by
  rcases reaches_of_runCheck withinLimit_of_test
    (show runCheck assertedStep withinLimitTest logInit shortRun = true by decide)
    (show (runFrom assertedStep logInit shortRun).isSome = true by decide) with ⟨s, hrun, hreach⟩
  have hops : (runFrom assertedStep logInit shortRun).map State.running =
      some [{ task := 1, logged := [7] }] := rfl
  rw [hrun] at hops
  have hrunning : s.running = [{ task := 1, logged := [7] }] := Option.some.inj hops
  have hop : ({ task := 1, logged := [7] } : Op) ∈ s.running := by
    rw [hrunning]
    exact List.mem_singleton_self _
  exact ⟨s, _, hrun, hop,
    log_write_returns_iff hreach hop (Or.inl ⟨_, hop, List.mem_singleton_self 7⟩)⟩

/-!
# Three operations that log ten blocks each
-/

def tenWrites (task : Nat) : List Action :=
  (List.range maxOpenBlocks).map (fun k => Action.write task (UInt32.ofNat (10 * task + k)))

def fullRun : List Action :=
  [Action.enter 1, Action.test 1, Action.enter 2, Action.test 2, Action.enter 3, Action.test 3] ++
    (tenWrites 1 ++ (tenWrites 2 ++ tenWrites 3))

theorem fullRun_reaches :
    exists s, runFrom assertedStep logInit fullRun = some s ∧
      Reaches assertedStep WithinLimit logInit s :=
  reaches_of_runCheck withinLimit_of_test
    (show runCheck assertedStep withinLimitTest logInit fullRun = true by decide +kernel)
    (show (runFrom assertedStep logInit fullRun).isSome = true by decide +kernel)

def fullState (s : State) : Bool :=
  decide (s.log.lh.n = logSize) && decide ((10 : UInt32) ∈ s.log.lh.entries) &&
    s.running.any (fun op => decide (op.task = 1) && decide ((10 : UInt32) ∈ op.logged))

theorem fullRun_full {s : State} (h : runFrom assertedStep logInit fullRun = some s) :
    fullState s = true := by
  have hall : (runFrom assertedStep logInit fullRun).all fullState = true := by decide +kernel
  rw [h] at hall
  exact hall

/-- Task 1 logs its first block once more. -/
theorem log_write_fails_when_full :
    exists s op, Reaches assertedStep WithinLimit logInit s ∧ op ∈ s.running ∧
      (10 : UInt32) ∈ op.logged ∧
      logWriteCall op.task 10 s = Except.error WriteStop.assertion := by
  rcases fullRun_reaches with ⟨s, hrun, hreach⟩
  have hfull := fullRun_full hrun
  unfold fullState at hfull
  rw [Bool.and_eq_true, Bool.and_eq_true] at hfull
  rcases hfull with ⟨⟨hn, -⟩, hany⟩
  rcases List.any_eq_true.mp hany with ⟨op, hop, hboth⟩
  refine ⟨s, op, hreach, hop, of_decide_eq_true (Bool.and_eq_true_iff.mp hboth).right, ?_⟩
  unfold logWriteCall
  rw [if_neg]
  rw [of_decide_eq_true hn]
  exact Nat.lt_irrefl logSize

end Log
end Fs
end NicoOS
