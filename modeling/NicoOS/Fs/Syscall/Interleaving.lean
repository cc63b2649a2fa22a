import NicoOS.Fs.Syscall.Nested
import NicoOS.Fs.Syscall.OpenRuns
import NicoOS.Lib.Transition
import Mathlib.Algebra.Order.BigOperators.Group.Finset
import Mathlib.Algebra.BigOperators.Group.Finset.Piecewise

/-!
# Calls of many tasks

Tasks run their calls at the same time, one operation after another in any order.
Where the log is written, the task is in a log operation of its own.
-/

namespace NicoOS
namespace Fs
namespace Syscall

open Lib
open Program (op)
open Inode (InodeType)

/-!
# The system
-/

/-- A call and the rest of its program. -/
structure Running where
  call : Call
  rest : Code Int

/-- The shared state, the log operations that each task is in, and the calls that run. -/
structure System where
  state : State
  depth : Nat -> Nat
  running : Nat -> Option Running

inductive Move where
  | start (t : Nat) (call : Call)
  | op (t : Nat)
  | finish (t : Nat)

/-- A task begins a call, does its next operation or returns from the call. -/
def move (ntasks : Nat) (y : System) : Move -> Option System
  | Move.start t call =>
      if (y.running t).isNone ∧ t < ntasks ∧ (y.state.tasks t).state = TaskState.ready then
        some { y with running := Function.update y.running t (some ⟨call, call.code⟩) }
      else
        none
  | Move.op t =>
      match y.running t with
      | some ⟨call, Program.ask o next⟩ =>
          match perform t o y.state with
          | Except.ok (a, s) =>
              some
                { state := s
                  depth := Function.update y.depth t (o.depthAfter (y.depth t))
                  running := Function.update y.running t (some ⟨call, next a⟩) }
          | Except.error _ => none
      | _ => none
  | Move.finish t =>
      match y.running t with
      | some ⟨_, Program.ret _⟩ => some { y with running := Function.update y.running t none }
      | _ => none

/-- The kernel with its first process and no call. -/
def bootSystem (disk : Tree) : System :=
  { state := boot disk, depth := fun _ => 0, running := fun _ => none }

/-- An `inode_put` of a call without a log operation, so of a `sys_stat`, finds an inode
without links behind its last reference. -/
def StatFrees (y : System) : Move -> Prop
  | Move.op t => exists call i o next,
      y.running t = some ⟨call, Program.ask (Op.putStart i o) next⟩ ∧ call.outside = true ∧
        (y.state.icache i).valid = true ∧ (y.state.icache i).diskInode.nlink = 0 ∧
          (y.state.icache i).ref = 1
  | _ => False

/-- A read of a call without a log operation, so of a `sys_read` or in the lookup of a
`sys_stat`, comes to a hole. -/
def ReadsHole (y : System) : Move -> Prop
  | Move.op t => exists call i blocks next,
      y.running t = some ⟨call, Program.ask (Op.bmap i blocks) next⟩ ∧ call.outside = true ∧
        meetsHole i blocks y.state = true
  | _ => False

/-- No file has a hole. -/
def Tree.Solid (tr : Tree) : Prop := forall inum, tr.holes inum = []

/-- A task whose next operation writes to the log is in a log operation of its own, and no
commit is in progress. -/
def LogWritesCovered (y : System) : Prop :=
  forall t call o next, y.running t = some ⟨call, Program.ask o next⟩ -> o.logs = true ->
    1 ≤ y.depth t ∧ 1 ≤ y.state.outstanding ∧ y.state.committing = false

/-!
# The log's counters
-/

theorem writeDirent_log {i k : Nat} {e : Dirent} {stored : Bool} {s s' : State}
    (h : writeDirent i k e s = Except.ok (stored, s')) :
    s'.outstanding = s.outstanding ∧ s'.committing = s.committing := by
  rcases writeDirent_ok h with ⟨-, hs, -⟩ | ⟨-, ⟨-, hs⟩ | ⟨-, hs⟩⟩
  · rw [hs]
    exact And.intro rfl rfl
  · rw [hs]
    exact And.intro rfl rfl
  · rw [hs]
    exact And.intro rfl rfl

/-- Only the operations of the log change its counters. -/
theorem perform_log {t : Nat} {o : Op} {s s' : State} {a : o.Answer}
    (hbegin : o ≠ Op.logBegin) (hend : o ≠ Op.logEnd) (hcommit : o ≠ Op.commitEnd)
    (h : perform t o s = Except.ok (a, s')) :
    s'.outstanding = s.outstanding ∧ s'.committing = s.committing := by
  cases o with
  | assert holds stop =>
      cases holds with
      | true =>
          cases h
          exact And.intro rfl rfl
      | false => cases h
  | logBegin => exact absurd rfl hbegin
  | logEnd => exact absurd rfl hend
  | commitEnd => exact absurd rfl hcommit
  | iget inum =>
      rcases iget_ok h with ⟨-, -, hs⟩ | ⟨-, -, hs⟩
      · rw [hs]
        exact And.intro rfl rfl
      · rw [hs]
        exact And.intro rfl rfl
  | inodeLock i =>
      rcases inodeLock_ok (done_ok h) with ⟨-, -, ⟨-, hs⟩ | ⟨-, -, hs⟩⟩
      · rw [hs]
        exact And.intro rfl rfl
      · rw [hs]
        exact And.intro rfl rfl
  | inodeUnlock i =>
      rw [inodeUnlock_ok (done_ok h)]
      exact And.intro rfl rfl
  | inodeUpdate i =>
      rw [inodeUpdate_ok (done_ok h)]
      exact And.intro rfl rfl
  | putStart i o =>
      rw [(putStart_ok h).right.right]
      cases o with
      | none => exact And.intro rfl rfl
      | some o => exact And.intro rfl rfl
  | itruncate i =>
      rw [itruncate_ok (done_ok h)]
      exact And.intro rfl rfl
  | clearType i =>
      rw [clearType_ok (done_ok h)]
      exact And.intro rfl rfl
  | inodeAlloc typ =>
      rw [(inodeAlloc_ok h).right.right.right]
      exact And.intro rfl rfl
  | balloc =>
      rw [(logWrite_ok (done_ok h)).right]
      exact And.intro rfl rfl
  | dirFind i name =>
      rw [(dirFind_ok h).right.right.right]
      exact And.intro rfl rfl
  | dirAdd i e => exact writeDirent_log (dirAdd_ok h)
  | dirUnlink i k =>
      rcases dirUnlink_ok h with ⟨e, -, -, -, hs⟩
      rw [hs]
      exact And.intro rfl rfl
  | dirIsempty i =>
      rw [(dirIsempty_ok h).right]
      exact And.intro rfl rfl
  | inodeWrite i =>
      rw [(logWrite_ok (done_ok h)).right]
      exact And.intro rfl rfl
  | fileAlloc =>
      have hr : fileAlloc s = (a, s') := Except.ok.inj h
      unfold fileAlloc at hr
      split at hr
      · cases hr
        exact And.intro rfl rfl
      · cases hr
        exact And.intro rfl rfl
  | fileDrop f =>
      have hr : fileDrop f s = Except.ok (a, s') := h
      unfold fileDrop at hr
      simp only at hr
      split at hr
      · split at hr
        · cases hr
          exact And.intro rfl rfl
        · cases hr
          exact And.intro rfl rfl
      · cases hr
  | fileDup f =>
      have hr := done_ok h
      unfold fileDup at hr
      simp only at hr
      split at hr
      · cases hr
        exact And.intro rfl rfl
      · cases hr
  | fdAlloc f =>
      have hr : fdAlloc t f s = (a, s') := Except.ok.inj h
      unfold fdAlloc at hr
      split at hr
      · cases hr
        exact And.intro rfl rfl
      · cases hr
        exact And.intro rfl rfl
  | taskAlloc child =>
      have hr := done_ok h
      unfold taskAlloc at hr
      split at hr
      · cases hr
        exact And.intro rfl rfl
      · cases hr
  | _ =>
      cases h
      exact And.intro rfl rfl

/-- The answers of the operations are those that the depth allows. -/
theorem may_of_perform {t : Nat} {o : Op} {s s' : State} {a : o.Answer} {d : Nat}
    (h : perform t o s = Except.ok (a, s'))
    (hput : forall i f, o = Op.putStart i f -> d = 0 ->
      Not ((s.icache i).valid = true ∧ (s.icache i).diskInode.nlink = 0 ∧
        (s.icache i).ref = 1))
    (hread : forall i blocks, o = Op.bmap i blocks -> d = 0 -> Not (meetsHole i blocks s = true)) :
    Op.may o a d := by
  cases o with
  | assert holds stop =>
      cases holds with
      | true => rfl
      | false => cases h
  | putStart i f =>
      intro hfrees
      have hanswer := (putStart_ok h).right.left
      have hdecided : (a : Bool) = true := hfrees
      rw [hanswer] at hdecided
      apply Nat.pos_of_ne_zero
      intro hzero
      exact hput i f rfl hzero (of_decide_eq_true hdecided)
  | bmap i blocks =>
      intro hhole
      cases h
      apply Nat.pos_of_ne_zero
      intro hzero
      exact hread i blocks rfl hzero hhole
  | _ => trivial

/-!
# Every run
-/

/-- The depths of the tasks make up the number of operations of the log. -/
structure Bracketed (ntasks : Nat) (y : System) : Prop where
  few : forall t, ntasks ≤ t -> y.running t = none
  idle : forall t, y.running t = none -> y.depth t = 0
  runs : forall t r, y.running t = some r ->
    (nesting r.call.outside).Runs r.rest (y.depth t) 0
  sum : y.state.outstanding = Finset.sum (Finset.range ntasks) y.depth
  committing : y.state.committing = true -> y.state.outstanding = 0

section Steps

variable {ntasks : Nat} {y z : System}

theorem sum_update (f : Nat -> Nat) {t : Nat} (ht : t < ntasks) (d : Nat) :
    Finset.sum (Finset.range ntasks) (Function.update f t d) + f t =
      Finset.sum (Finset.range ntasks) f + d := by
  have hmem : t ∈ Finset.range ntasks := Finset.mem_range.mpr ht
  rw [Finset.sum_update_of_mem hmem, ← Finset.sum_erase_add _ f hmem, Finset.erase_eq]
  lia

theorem Bracketed.depth_le (h : Bracketed ntasks y) (t : Nat) :
    y.depth t ≤ y.state.outstanding := by
  cases Nat.lt_or_ge t ntasks with
  | inl hlt =>
      rw [h.sum]
      exact Finset.single_le_sum (fun _ _ => Nat.zero_le _) (Finset.mem_range.mpr hlt)
  | inr hge =>
      rw [h.idle t (h.few t hge)]
      exact Nat.zero_le _

theorem Bracketed.covered (h : Bracketed ntasks y) : LogWritesCovered y := by
  intro t call o next hrun hlogs
  have hneed := (h.runs t _ hrun).left
  have hdepth : 0 < y.depth t := by
    cases o with
    | logEnd => exact hneed
    | putStart i f => cases hlogs
    | bmap i blocks => cases hlogs
    | _ => exact hneed hlogs
  have hle := h.depth_le t
  refine ⟨hdepth, Nat.lt_of_lt_of_le hdepth hle, ?_⟩
  cases hc : y.state.committing with
  | false => rfl
  | true =>
      have hzero := h.committing hc
      lia

theorem Bracketed.update (h : Bracketed ntasks y) {t : Nat} (ht : t < ntasks) {s : State} {d : Nat}
    {r : Option Running} (hidle : r = none -> d = 0)
    (hruns : forall q, r = some q -> (nesting q.call.outside).Runs q.rest d 0)
    (hsum : s.outstanding = Finset.sum (Finset.range ntasks) (Function.update y.depth t d))
    (hcommitting : s.committing = true -> s.outstanding = 0) :
    Bracketed ntasks
      { state := s
        depth := Function.update y.depth t d
        running := Function.update y.running t r } where
  few := by
    intro u hu
    show Function.update y.running t r u = none
    have hne : u ≠ t := by lia
    rw [Function.update_of_ne hne]
    exact h.few u hu
  idle := by
    intro u
    show Function.update y.running t r u = none -> Function.update y.depth t d u = 0
    cases Classical.em (u = t) with
    | inl heq =>
        rw [heq, Function.update_self, Function.update_self]
        exact hidle
    | inr hne =>
        rw [Function.update_of_ne hne, Function.update_of_ne hne]
        exact h.idle u
  runs := by
    intro u q
    show Function.update y.running t r u = some q ->
      (nesting q.call.outside).Runs q.rest (Function.update y.depth t d u) 0
    cases Classical.em (u = t) with
    | inl heq =>
        rw [heq, Function.update_self, Function.update_self]
        exact hruns q
    | inr hne =>
        rw [Function.update_of_ne hne, Function.update_of_ne hne]
        exact h.runs u q
  sum := hsum
  committing := hcommitting

theorem Bracketed.atRest (h : Bracketed ntasks y) {t : Nat} (ht : t < ntasks)
    (hzero : y.depth t = 0) {r : Option Running}
    (hruns : forall q, r = some q -> (nesting q.call.outside).Runs q.rest 0 0) :
    Bracketed ntasks { y with running := Function.update y.running t r } := by
  have hsame : Function.update y.depth t 0 = y.depth := by
    rw [← hzero, Function.update_eq_self]
  have hupdate := h.update ht (s := y.state) (d := 0) (r := r) (fun _ => rfl) hruns
    (by rw [hsame]; exact h.sum) h.committing
  rw [hsame] at hupdate
  exact hupdate

theorem Bracketed.start (h : Bracketed ntasks y) {t : Nat} {call : Call}
    (hstep : move ntasks y (Move.start t call) = some z) : Bracketed ntasks z := by
  unfold move at hstep
  simp only at hstep
  split at hstep
  · rename_i hfree
    cases hstep
    have hidle := h.idle t (Option.isNone_iff_eq_none.mp hfree.left)
    apply h.atRest hfree.right.left hidle
    intro q hq
    cases hq
    exact keeps_call (C := fun _ => True) call (fun hout => hout) 0 trivial
  · cases hstep

theorem Bracketed.few_of_running (h : Bracketed ntasks y) {t : Nat} {r : Running}
    (hrun : y.running t = some r) : t < ntasks := by
  cases Nat.lt_or_ge t ntasks with
  | inl hlt => exact hlt
  | inr hge =>
      rw [h.few t hge] at hrun
      cases hrun

theorem Bracketed.finish (h : Bracketed ntasks y) {t : Nat}
    (hstep : move ntasks y (Move.finish t) = some z) : Bracketed ntasks z := by
  unfold move at hstep
  simp only at hstep
  split at hstep
  · rename_i call a hrun
    cases hstep
    have hzero : y.depth t = 0 := h.runs t _ hrun
    apply h.atRest (h.few_of_running hrun) hzero
    intro q hq
    cases hq
  · cases hstep

/-- What an operation of task `t` does to the counters of the log. -/
theorem Bracketed.counters (h : Bracketed ntasks y) {t : Nat} (ht : t < ntasks) {o : Op}
    {a : o.Answer} {s : State} (hneed : o = Op.logEnd -> 0 < y.depth t)
    (hrun : perform t o y.state = Except.ok (a, s)) :
    s.outstanding = Finset.sum (Finset.range ntasks)
        (Function.update y.depth t (o.depthAfter (y.depth t))) ∧
      (s.committing = true -> s.outstanding = 0) := by
  have hsum := sum_update y.depth ht (o.depthAfter (y.depth t))
  have hold := h.sum
  cases Classical.em (o = Op.logBegin) with
  | inl heq =>
      subst heq
      rcases logBegin_ok (done_ok hrun) with ⟨hfree, hs⟩
      have hout : s.outstanding = y.state.outstanding + 1 := by
        rw [hs]
        rfl
      have hdepth : Op.logBegin.depthAfter (y.depth t) = y.depth t + 1 := rfl
      refine And.intro (by lia) ?_
      intro hc
      rw [hs] at hc
      have hc' : y.state.committing = true := hc
      rw [hfree] at hc'
      cases hc'
  | inr hbegin =>
      cases Classical.em (o = Op.logEnd) with
      | inl heq =>
          subst heq
          have hpos := hneed rfl
          have hle := h.depth_le t
          rcases logEnd_ok hrun with ⟨_, hlast, hs⟩
          have hout : s.outstanding = y.state.outstanding - 1 := by
            rw [hs]
            rfl
          have hdepth : Op.logEnd.depthAfter (y.depth t) = y.depth t - 1 := rfl
          refine And.intro (by lia) ?_
          intro hc
          rw [hs] at hc
          have hc' : (a : Bool) = true := hc
          rw [hlast] at hc'
          rw [hout]
          exact of_decide_eq_true hc'
      | inr hend =>
          have hdepth : o.depthAfter (y.depth t) = y.depth t := by
            cases o with
            | logBegin => exact absurd rfl hbegin
            | logEnd => exact absurd rfl hend
            | _ => rfl
          cases Classical.em (o = Op.commitEnd) with
          | inl heq =>
              subst heq
              have hs : s = commitEnd y.state := by
                cases hrun
                rfl
              have hout : s.outstanding = y.state.outstanding := by
                rw [hs]
                rfl
              refine And.intro (by lia) ?_
              intro hc
              rw [hs] at hc
              cases hc
          | inr hcommit =>
              rcases perform_log hbegin hend hcommit hrun with ⟨hout, hcommitting⟩
              refine And.intro (by lia) ?_
              rw [hout, hcommitting]
              exact h.committing

theorem Bracketed.op (h : Bracketed ntasks y) {t : Nat} (hok : Not (StatFrees y (Move.op t)))
    (hread : Not (ReadsHole y (Move.op t)))
    (hstep : move ntasks y (Move.op t) = some z) : Bracketed ntasks z := by
  unfold move at hstep
  simp only at hstep
  split at hstep
  · rename_i call o next hrun
    split at hstep
    · rename_i a s hperform
      cases hstep
      have hruns := h.runs t _ hrun
      have ht := h.few_of_running hrun
      have hmay : Op.may o a (y.depth t) := by
        apply may_of_perform hperform
        · intro i f hput hzero hfrees
          subst hput
          have hneed : call.outside = true ∨ 0 < y.depth t := hruns.left
          rcases hneed with hout | hpos
          · exact hok ⟨call, i, f, next, hrun, hout, hfrees⟩
          · lia
        · intro i blocks hbmap hzero hhole
          subst hbmap
          have hneed : call.outside = true ∨ 0 < y.depth t := hruns.left
          rcases hneed with hout | hpos
          · exact hread ⟨call, i, blocks, next, hrun, hout, hhole⟩
          · lia
      have hcounters := h.counters ht (fun heq => by
        subst heq
        exact hruns.left) hperform
      have hrest : forall q, some (Running.mk call (next a)) = some q ->
          (nesting q.call.outside).Runs q.rest (o.depthAfter (y.depth t)) 0 := by
        intro q hq
        cases hq
        exact hruns.right a hmay
      exact h.update ht (fun hnone => by cases hnone) hrest hcounters.left hcounters.right
    · cases hstep
  · cases hstep

end Steps

theorem bracketed_boot (ntasks : Nat) (disk : Tree) : Bracketed ntasks (bootSystem disk) where
  few := fun _ _ => rfl
  idle := fun _ _ => rfl
  runs := fun _ _ hr => (nomatch hr)
  sum := by
    show 0 = Finset.sum (Finset.range ntasks) (fun _ => 0)
    rw [Finset.sum_const_zero]
  committing := fun hc => (nomatch hc)

theorem bracketed_of_reaches {ntasks : Nat} {disk : Tree} {y : System}
    (h : Reaches (move ntasks) (fun y a => Not (StatFrees y a) ∧ Not (ReadsHole y a))
      (bootSystem disk) y) : Bracketed ntasks y := by
  apply h.invariant (P := Bracketed ntasks) (bracketed_boot ntasks disk)
  intro s t a hs hok hstep
  cases a with
  | start u call => exact hs.start hstep
  | op u => exact hs.op hok.left hok.right hstep
  | finish u => exact hs.finish hstep

/-!
# Holes
-/

theorem solid_clear {s : State} (h : s.tree.Solid) (inum : Nat) : (s.clear inum).tree.Solid := by
  intro j
  show Function.update s.holes inum [] j = []
  by_cases hj : j = inum
  · rw [hj, Function.update_self]
  · rw [Function.update_of_ne hj]
    exact h j

theorem perform_solid {t : Nat} {o : Op} {s s' : State} {a : o.Answer} (h : s.tree.Solid)
    (hrun : perform t o s = Except.ok (a, s')) : s'.tree.Solid := by
  by_cases hbeside : o.beside = true
  · rw [(perform_beside hbeside hrun).right]
    exact h
  · cases o with
    | iget inum =>
        rcases iget_ok hrun with ⟨-, -, hs⟩ | ⟨-, -, hs⟩
        · rw [hs]
          exact h
        · rw [hs]
          exact h
    | inodeDup i =>
        cases hrun
        exact h
    | inodeLock i =>
        rcases inodeLock_ok (done_ok hrun) with ⟨-, -, ⟨-, hs⟩ | ⟨-, -, hs⟩⟩
        · rw [hs]
          exact h
        · rw [hs]
          exact h
    | inodeUnlock i =>
        rw [inodeUnlock_ok (done_ok hrun)]
        exact h
    | setNlink i nlink =>
        cases hrun
        exact h
    | inodeUpdate i =>
        rw [inodeUpdate_ok (done_ok hrun)]
        exact h
    | putStart i o =>
        rw [(putStart_ok hrun).right.right, release_tree]
        exact h
    | itruncate i =>
        rw [itruncate_ok (done_ok hrun)]
        exact solid_clear h _
    | clearType i =>
        rw [clearType_ok (done_ok hrun)]
        exact h
    | putEnd i =>
        cases hrun
        exact h
    | inodeAlloc typ =>
        rw [(inodeAlloc_ok hrun).right.right.right]
        exact solid_clear h _
    | dirAdd i e =>
        rcases writeDirent_ok (dirAdd_ok hrun) with ⟨-, hs, -⟩ | ⟨-, ⟨-, hs⟩ | ⟨-, hs⟩⟩
        · rw [hs]
          exact h
        · rw [hs]
          exact h
        · rw [hs]
          exact h
    | dirUnlink i k =>
        rcases dirUnlink_ok hrun with ⟨e, -, -, -, hs⟩
        rw [hs]
        exact h
    | _ => exact absurd rfl hbeside

theorem move_solid {ntasks : Nat} {y z : System} {a : Move} (h : y.state.tree.Solid)
    (hstep : move ntasks y a = some z) : z.state.tree.Solid := by
  cases a with
  | start t call =>
      unfold move at hstep
      simp only at hstep
      split at hstep
      · cases hstep
        exact h
      · cases hstep
  | op t =>
      unfold move at hstep
      simp only at hstep
      split at hstep
      · split at hstep
        · rename_i hperform
          cases hstep
          exact perform_solid h hperform
        · cases hstep
      · cases hstep
  | finish t =>
      unfold move at hstep
      simp only at hstep
      split at hstep
      · cases hstep
        exact h
      · cases hstep

theorem not_readsHole {y : System} (h : y.state.tree.Solid) (a : Move) : Not (ReadsHole y a) := by
  intro hreads
  cases a with
  | start t call => exact hreads
  | finish t => exact hreads
  | op t =>
      rcases hreads with ⟨call, i, blocks, next, -, -, hhole⟩
      rw [meetsHole_of_nil (h _)] at hhole
      cases hhole

theorem reaches_of_solid {ntasks : Nat} {disk : Tree} {y : System} (hsolid : disk.Solid)
    (h : Reaches (move ntasks) (fun y a => Not (StatFrees y a)) (bootSystem disk) y) :
    Reaches (move ntasks) (fun y a => Not (StatFrees y a) ∧ Not (ReadsHole y a))
      (bootSystem disk) y ∧ y.state.tree.Solid := by
  induction h with
  | refl => exact ⟨Reaches.refl, hsolid⟩
  | next _ hok hstep ih =>
      exact ⟨ih.left.next ⟨hok, not_readsHole ih.right _⟩ hstep, move_solid ih.right hstep⟩

/--
In every interleaving in which no `inode_put` of a `sys_stat` frees an inode and no read of a
`sys_read` or `sys_stat` comes to a hole, the log is only written by a task inside its own log
operation.  From a disk without holes no read ever comes to one.
-/
theorem log_writes_covered (ntasks : Nat) (disk : Tree) :
    (forall y, Reaches (move ntasks) (fun y a => Not (StatFrees y a) ∧ Not (ReadsHole y a))
      (bootSystem disk) y -> LogWritesCovered y) ∧
    (disk.Solid -> forall y,
      Reaches (move ntasks) (fun y a => Not (StatFrees y a)) (bootSystem disk) y ->
        LogWritesCovered y) :=
  ⟨fun _ h => (bracketed_of_reaches h).covered,
    fun hsolid _ h => (bracketed_of_reaches (reaches_of_solid hsolid h).left).covered⟩

def statFreesTest (y : System) : Move -> Bool
  | Move.op t =>
      match y.running t with
      | some ⟨call, Program.ask (Op.putStart i _) _⟩ =>
          call.outside && decide ((y.state.icache i).valid = true ∧
            (y.state.icache i).diskInode.nlink = 0 ∧ (y.state.icache i).ref = 1)
      | _ => false
  | _ => false

def readsHoleTest (y : System) : Move -> Bool
  | Move.op t =>
      match y.running t with
      | some ⟨call, Program.ask (Op.bmap i blocks) _⟩ =>
          call.outside && meetsHole i blocks y.state
      | _ => false
  | _ => false

theorem statFrees_test {y : System} {a : Move} (h : (!statFreesTest y a) = true) :
    Not (StatFrees y a) := by
  intro hfrees
  cases a with
  | start t call => exact hfrees
  | finish t => exact hfrees
  | op t =>
      rcases hfrees with ⟨call, i, o, next, hrun, hout, hfrees⟩
      have htest : statFreesTest y (Move.op t) = true := by
        simp [statFreesTest, hrun, hout, hfrees]
      rw [htest] at h
      cases h

theorem readsHole_test {y : System} {a : Move} (h : (!readsHoleTest y a) = true) :
    Not (ReadsHole y a) := by
  intro hreads
  cases a with
  | start t call => exact hreads
  | finish t => exact hreads
  | op t =>
      rcases hreads with ⟨call, i, blocks, next, hrun, hout, hhole⟩
      have htest : readsHoleTest y (Move.op t) = true := by
        simp [readsHoleTest, hrun, hout, hhole]
      rw [htest] at h
      cases h

def pathF : Option Name := some [47, 102]

def wholeCall (t : Nat) (call : Call) (n : Nat) : List Move :=
  Move.start t call :: (List.replicate n (Move.op t) ++ [Move.finish t])

/-- A file is made and closed, the task forks, and looks the file up in `sys_stat`. -/
def statRun : List Move :=
  wholeCall initTask (Call.openFile pathF (oCreat ||| oRdwr)) 28 ++
    (wholeCall initTask (Call.close 0) 9 ++
      (wholeCall initTask (Call.fork (some 3) true) 21 ++
        (Move.start initTask (Call.stat pathF true) :: List.replicate 10 (Move.op initTask))))

/-- Then the child removes the file, and `sys_stat` goes on. -/
def unlinkRun : List Move :=
  statRun ++ (wholeCall 3 (Call.unlink pathF) 24 ++ List.replicate 3 (Move.op initTask))

/-- A disk with a file whose first block has no address. -/
def holedDisk : Tree :=
  { ninodes := 4
    dinodes := fun x =>
      if x = rootInum then { type := InodeType.directory, nlink := 2 }
      else if x = 2 then { type := InodeType.file, nlink := 1 }
      else { type := InodeType.none, nlink := 0 }
    data := fun x =>
      if x = rootInum then
        [⟨rootInum, dotName⟩, ⟨rootInum, dotdotName⟩, ⟨2, [102]⟩]
      else
        []
    holes := fun x => if x = 2 then [0] else [] }

/-- The file is opened, and read by `proc_execv`. -/
def execRun : List Move :=
  wholeCall initTask (Call.openFile pathF 0) 19 ++
    wholeCall initTask
      (Call.execv [47, 102]
        { vm := true, blocks := [0], header := true, loaded := true, stack := true }) 20

def readRun : List Move :=
  wholeCall initTask (Call.openFile pathF 0) 19 ++
    (Move.start initTask (Call.read 0 [0] 100) :: List.replicate 4 (Move.op initTask))

theorem log_writes_covered_statRun :
    (exists y, runFrom (move 4) (bootSystem rootDisk) statRun = some y ∧ LogWritesCovered y) ∧
    (exists y, runFrom (move 4) (bootSystem holedDisk) execRun = some y ∧
      LogWritesCovered y) := by
  constructor
  · have hcheck : runCheck (move 4) (fun y a => !statFreesTest y a) (bootSystem rootDisk)
        statRun = true := by
      decide +kernel
    have hrun : (runFrom (move 4) (bootSystem rootDisk) statRun).isSome = true := by
      decide +kernel
    have hreached : exists y, runFrom (move 4) (bootSystem rootDisk) statRun = some y ∧
        Reaches (move 4) (fun y a => Not (StatFrees y a)) (bootSystem rootDisk) y :=
      reaches_of_runCheck (fun _ _ htest => statFrees_test htest) hcheck hrun
    rcases hreached with ⟨y, hy, hreach⟩
    exact ⟨y, hy, (log_writes_covered 4 rootDisk).right (fun _ => rfl) y hreach⟩
  · have hcheck : runCheck (move 4) (fun y a => !statFreesTest y a && !readsHoleTest y a)
        (bootSystem holedDisk) execRun = true := by
      decide +kernel
    have hrun : (runFrom (move 4) (bootSystem holedDisk) execRun).isSome = true := by
      decide +kernel
    have hreached : exists y, runFrom (move 4) (bootSystem holedDisk) execRun = some y ∧
        Reaches (move 4) (fun y a => Not (StatFrees y a) ∧ Not (ReadsHole y a))
          (bootSystem holedDisk) y := by
      apply reaches_of_runCheck _ hcheck hrun
      intro y a htest
      rcases Bool.and_eq_true_iff.mp htest with ⟨hstat, hread⟩
      exact ⟨statFrees_test hstat, readsHole_test hread⟩
    rcases hreached with ⟨y, hy, hreach⟩
    exact ⟨y, hy, (log_writes_covered 4 holedDisk).left y hreach⟩

/-- Whether the next operation of a task writes to the log outside a log operation. -/
def outsideTest (y : System) (t : Nat) : Bool :=
  match y.running t with
  | some ⟨_, Program.ask o _⟩ => o.logs && decide (y.depth t = 0)
  | _ => false

theorem not_covered_of_test {y : System} {t : Nat} (h : outsideTest y t = true) :
    Not (LogWritesCovered y) := by
  intro hcovered
  unfold outsideTest at h
  split at h
  · rename_i call o next hnext
    rcases Bool.and_eq_true_iff.mp h with ⟨hlogs, hzero⟩
    have hdepth := (hcovered t call o next hnext hlogs).left
    have hzero' := of_decide_eq_true hzero
    lia
  · cases h

/-- `sys_stat` frees the file that the child removed, and `sys_read` takes a block for a hole;
both write to the log outside any log operation. -/
theorem log_written_outside :
    (exists y, runFrom (move 4) (bootSystem rootDisk) unlinkRun = some y ∧
      Not (LogWritesCovered y)) ∧
    (exists y, runFrom (move 4) (bootSystem holedDisk) readRun = some y ∧
      Not (LogWritesCovered y)) := by
  have hfails : forall disk moves,
      ((runFrom (move 4) (bootSystem disk) moves).map (fun y => outsideTest y initTask)) =
        some true ->
      exists y, runFrom (move 4) (bootSystem disk) moves = some y ∧ Not (LogWritesCovered y) := by
    intro disk moves htest
    rcases Option.map_eq_some_iff.mp htest with ⟨y, hy, houtside⟩
    exact ⟨y, hy, not_covered_of_test houtside⟩
  exact ⟨hfails rootDisk unlinkRun (by decide +kernel),
    hfails holedDisk readRun (by decide +kernel)⟩

end Syscall
end Fs
end NicoOS
