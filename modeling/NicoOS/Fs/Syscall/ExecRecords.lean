import NicoOS.Fs.Syscall.InodeRefs
import NicoOS.Fs.Syscall.Interleaving
import NicoOS.Fs.Syscall.OpenRuns

/-!
# The records behind `proc_execv`

Whatever way `proc_execv` takes, every inode is referenced as often as before, the log
has as many operations outstanding, and files, descriptors and directories are the same.
-/

namespace NicoOS
namespace Fs
namespace Syscall

open Lib
open Program (op Ends)
open Inode (InodeType)

/-- What has changed since `s0`: `n` log operations are outstanding and `extra` references held. -/
structure Since (s0 : State) (n : Nat) (extra : Nat -> Int) (s : State) : Prop where
  ref : forall i, ((s.icache i).ref : Int) = (s0.icache i).ref + extra i
  cwd : forall u, (s.tasks u).cwd = (s0.tasks u).cwd
  outstanding : s.outstanding = s0.outstanding + n

/-- A program takes and gives up references, and leaves the log's count. -/
def Takes {α : Type} (t : Nat) (s0 : State) (n : Nat) (extra : Nat -> Int) (p : Code α)
    (extra' : α -> Nat -> Int) : Prop :=
  forall s, Since s0 n extra s -> Ends (perform t) p s (fun a s' => Since s0 n (extra' a) s')

/-- The operations that change neither references nor the log's counters. -/
def Op.inert : Op -> Bool
  | Op.logBegin => false
  | Op.logEnd => false
  | Op.commitEnd => false
  | o => o.steady

section Takes

variable {α β : Type} {t n : Nat} {s0 : State} {extra : Nat -> Int}

theorem Since.refl (s : State) : Since s 0 0 s where
  ref i := (add_zero _).symm
  cwd _ := rfl
  outstanding := rfl

theorem Since.same {s s' : State} (h : Since s0 n extra s) (same : SameRefs s s')
    (hlog : s'.outstanding = s.outstanding) : Since s0 n extra s' where
  ref i := by
    rw [same.ref i]
    exact h.ref i
  cwd u := (same.cwd u).trans (h.cwd u)
  outstanding := hlog.trans h.outstanding

theorem perform_inert {o : Op} (ho : o.inert = true) {s s' : State} {a : o.Answer}
    (hrun : perform t o s = Except.ok (a, s')) :
    SameRefs s s' ∧ s'.outstanding = s.outstanding := by
  have hsteady : o.steady = true := by
    cases o
    case logBegin => cases ho
    case logEnd => cases ho
    case commitEnd => cases ho
    all_goals exact ho
  refine ⟨perform_steady hsteady hrun, ?_⟩
  have hlog : o ≠ Op.logBegin ∧ o ≠ Op.logEnd ∧ o ≠ Op.commitEnd := by
    refine ⟨?_, ?_, ?_⟩
    all_goals
      intro e
      rw [e] at ho
      cases ho
  exact (perform_log hlog.left hlog.right.left hlog.right.right hrun).left

theorem takes_pure {a : α} {extra' : α -> Nat -> Int} (h : extra' a = extra) :
    Takes t s0 n extra (pure a) extra' := by
  intro s hs
  apply Program.ends_pure
  rw [h]
  exact hs

theorem takes_bind {p : Code α} {f : α -> Code β} {middle : α -> Nat -> Int}
    {extra' : β -> Nat -> Int} (hp : Takes t s0 n extra p middle)
    (hf : forall a, Takes t s0 n (middle a) (f a) extra') :
    Takes t s0 n extra (p >>= f) extra' := by
  intro s hs
  exact Program.ends_bind (hp s hs) (fun a s' _ hs' => hf a s' hs')

theorem takes_ite {c : Prop} [Decidable c] {p q : Code α} {extra' : α -> Nat -> Int}
    (hp : Takes t s0 n extra p extra') (hq : Takes t s0 n extra q extra') :
    Takes t s0 n extra (if c then p else q) extra' := by
  intro s hs
  exact Program.ends_ite (fun _ => hp s hs) (fun _ => hq s hs)

/-- An inert operation and the rest of the program behind it. -/
theorem takes_op {o : Op} (ho : o.inert = true) {f : o.Answer -> Code β}
    {extra' : β -> Nat -> Int} (hf : forall a, Takes t s0 n extra (f a) extra') :
    Takes t s0 n extra (op o >>= f) extra' := by
  intro s hs
  apply Program.ends_op
  intro a s' hrun
  rcases perform_inert ho hrun with ⟨same, hlog⟩
  exact hf a s' (hs.same same hlog)

theorem Since.setInode {s : State} {extra' : Nat -> Int} (h : Since s0 n extra s) {i : Nat}
    {ip : CachedInode} (hextra : forall j, extra' j - extra j =
      if j = i then (ip.ref : Int) - (s.icache i).ref else 0) :
    Since s0 n extra' (s.setInode i ip) where
  ref j := by
    have hj := hextra j
    have hold := h.ref j
    show ((Function.update s.icache i ip j).ref : Int) = _
    by_cases hji : j = i
    · rw [if_pos hji] at hj
      rw [hji] at hj hold ⊢
      rw [Function.update_self]
      lia
    · rw [if_neg hji] at hj
      rw [Function.update_of_ne hji]
      lia
  cwd := h.cwd
  outstanding := h.outstanding

theorem Since.take {s : State} (h : Since s0 n extra s) {i : Nat} {ip : CachedInode}
    (href : ip.ref = (s.icache i).ref + 1) :
    Since s0 n (extra + credit (some i)) (s.setInode i ip) := by
  apply h.setInode
  intro j
  rw [Pi.add_apply, credit_some, href]
  split
  · lia
  · lia

/-!
# References
-/

theorem takes_iget (inum : Nat) :
    Takes t s0 n extra (op (Op.iget inum)) (fun i : Nat => extra + credit (some i)) := by
  intro s hs
  apply Program.ends_last
  intro (i : Nat) s' hget
  rcases iget_ok hget with ⟨-, -, heq⟩ | ⟨hzero, -, heq⟩
  · rw [heq]
    apply hs.take
    rfl
  · rw [heq]
    apply hs.take
    rw [hzero]

theorem takes_inodeDup (i : Nat) :
    Takes t s0 n extra (op (Op.inodeDup i)) (fun _ => extra + credit (some i)) := by
  intro s hs
  apply Program.ends_last
  intro a s' hdup
  cases hdup
  apply hs.take
  rfl

theorem takes_putEnd (i : Nat) {s : State} (hs : Since s0 n extra s)
    (href : 1 ≤ (s.icache i).ref) :
    Ends (perform t) (op (Op.putEnd i)) s
      (fun _ s' => Since s0 n (extra - credit (some i)) s') := by
  apply Program.ends_last
  intro a s' hput
  cases hput
  apply hs.setInode
  intro j
  rw [Pi.sub_apply, credit_some]
  split
  · show extra j - 1 - extra j = (((s.icache i).ref - 1 : Nat) : Int) - (s.icache i).ref
    lia
  · lia

theorem takes_inodePut (i : Nat) :
    Takes t s0 n extra (inodePut i) (fun _ => extra - credit (some i)) := by
  intro s hs
  apply Program.ends_op
  intro (frees : Bool) s1 hstart
  have href := (putStart_ok hstart).left
  rcases perform_inert (o := Op.putStart i none) rfl hstart with ⟨hfirst, hlog1⟩
  have hs1 := hs.same hfirst hlog1
  have href1 : 1 ≤ (s1.icache i).ref := by
    rw [hfirst.ref i]
    exact href
  apply Program.ends_ite
  · intro _
    apply Program.ends_op
    intro _ s2 htruncate
    rcases perform_inert (o := Op.itruncate i) rfl htruncate with ⟨hsecond, hlog2⟩
    apply Program.ends_op
    intro _ s3 hclear
    rcases perform_inert (o := Op.clearType i) rfl hclear with ⟨hthird, hlog3⟩
    apply takes_putEnd i ((hs1.same hsecond hlog2).same hthird hlog3)
    rw [hthird.ref i, hsecond.ref i]
    exact href1
  · exact fun _ => takes_putEnd i hs1 href1

theorem takes_inodeUnlockput (i : Nat) :
    Takes t s0 n extra (inodeUnlockput i) (fun _ => extra - credit (some i)) :=
  takes_op rfl (fun _ => takes_inodePut i)

theorem takes_unlockputHeld (i : Nat) :
    Takes t s0 n (extra + credit (some i)) (inodeUnlockput i) (fun _ => extra) := by
  intro s hs
  have hend := takes_inodeUnlockput (t := t) i s hs
  rw [add_sub_cancel_right] at hend
  exact hend

theorem takes_inodeRead (i : Nat) (blocks : List Dirent -> List Nat) :
    Takes t s0 n extra (inodeRead i blocks) (fun _ => extra) := by
  intro s hs
  apply Program.ends_mono (inodeRead_ends t i blocks s)
  intro _ s' hsame
  rw [hsame]
  exact hs

theorem takes_dirLookup (dir : Nat) (name : Name) :
    Takes t s0 n extra (dirLookup dir name)
      (fun found => extra + credit (found.map Prod.snd)) := by
  apply takes_op rfl
  intro found
  apply takes_bind (takes_inodeRead dir _)
  intro _
  cases found with
  | none =>
      apply takes_pure
      rw [Option.map_none, credit_zero, add_zero]
  | some entry =>
      apply takes_bind (takes_iget entry.2)
      intro ip
      exact takes_pure rfl

/-- The lookup gives up the directory that it leaves. -/
theorem takes_leave {p : Code Unit} {i : Nat} {γ : Type} {a : γ} {extra' : γ -> Nat -> Int}
    (hp : Takes t s0 n (extra + credit (some i)) p
      (fun _ => extra + credit (some i) - credit (some i))) (ha : extra' a = extra) :
    Takes t s0 n (extra + credit (some i)) (p >>= fun _ => (pure a : Code γ)) extra' := by
  apply takes_bind hp
  intro _
  apply takes_pure
  rw [ha, add_sub_cancel_right]

theorem takes_pathLookupFrom (nameiparent : Bool) (fuel parent : Nat) (path name : Name) :
    path.length < fuel ->
    Takes t s0 n (extra + credit (some parent))
      (pathLookupFrom nameiparent fuel parent path name)
      (fun found => extra + credit (found.map Prod.fst)) := by
  have hgone : extra + credit (Option.map Prod.fst (none : Option (Nat × Name))) = extra := by
    rw [Option.map_none, credit_zero, add_zero]
  induction fuel generalizing parent path name with
  | zero => exact fun hfuel => absurd hfuel (Nat.not_lt_zero _)
  | succ fuel ih =>
      intro hfuel
      rw [pathLookupFrom]
      cases helem : pathSkipelem path with
      | none =>
          apply takes_ite
          · exact takes_leave (takes_inodePut parent) hgone
          · exact takes_pure rfl
      | some elem =>
          have hshort : (skipSlashes elem.2).length < path.length := length_pathSkipelem helem
          apply takes_op (o := Op.assert _ _) rfl
          intro _
          apply takes_op rfl
          intro _
          apply takes_op rfl
          intro ip
          apply takes_ite
          · exact takes_leave (takes_inodeUnlockput parent) hgone
          · apply takes_ite
            · exact takes_op rfl (fun _ => takes_pure rfl)
            · apply takes_bind (takes_dirLookup parent _)
              intro found
              cases found with
              | none =>
                  rw [Option.map_none, credit_zero, add_zero]
                  exact takes_leave (takes_inodeUnlockput parent) hgone
              | some entry =>
                  apply takes_bind (takes_inodeUnlockput parent)
                  intro _
                  have hnext : extra + credit (some parent) +
                      credit (Option.map Prod.snd (some entry)) - credit (some parent) =
                      extra + credit (some entry.2) := by
                    rw [Option.map_some, add_right_comm, add_sub_cancel_right]
                  rw [hnext]
                  exact ih entry.2 _ _ (by lia)

theorem takes_startAtCwd :
    Takes t s0 n extra startAtCwd (fun i => extra + credit (some i)) := by
  apply takes_op rfl
  intro found
  cases found with
  | none =>
      intro s hs
      apply Program.ends_op
      intro a s' hfails
      cases hfails
  | some i =>
      apply takes_bind (takes_inodeDup i)
      intro _
      exact takes_pure rfl

/-- A lookup holds the inode that it has found, and nothing else. -/
theorem takes_pathLookup (path : Name) :
    Takes t s0 n extra (pathLookup path) (fun found => extra + credit found) := by
  have hstart : Takes t s0 n extra (pathStart path) (fun i => extra + credit (some i)) := by
    cases path with
    | nil => exact takes_startAtCwd
    | cons c rest => exact takes_ite (takes_iget rootInum) takes_startAtCwd
  have hall : Takes t s0 n extra (pathLookup0 false path)
      (fun found => extra + credit (found.map Prod.fst)) := by
    apply takes_bind hstart
    intro parent
    exact takes_pathLookupFrom false _ parent path [] (Nat.lt_succ_self _)
  apply takes_bind hall
  intro found
  cases found with
  | none => exact takes_pure rfl
  | some entry => exact takes_pure rfl

/-!
# The log
-/

/-- `log_end_op` closes the operation that `log_begin_op` has opened. -/
theorem ends_logEndOp {s : State} (hs : Since s0 1 extra s) :
    Ends (perform t) logEndOp s (fun _ s' => Since s0 0 extra s') := by
  have houtstanding := hs.outstanding
  apply Program.ends_op
  intro (last : Bool) s1 hend
  have hs1 : Since s0 0 extra s1 := by
    have same := perform_steady (o := Op.logEnd) rfl hend
    constructor
    · intro i
      rw [same.ref i]
      exact hs.ref i
    · exact fun u => (same.cwd u).trans (hs.cwd u)
    · rw [(logEnd_ok hend).right.right]
      show s.outstanding - 1 = s0.outstanding
      lia
  apply Program.ends_ite
  · intro _
    apply Program.ends_last
    intro a s2 hcommit
    have same := perform_steady (o := Op.commitEnd) rfl hcommit
    cases hcommit
    exact hs1.same same rfl
  · intro _
    exact Program.ends_pure hs1

theorem ends_logEnd {s : State} (hs : Since s0 1 extra s) (p : Code Int)
    (hp : forall s', Since s0 0 extra s' ->
      Ends (perform t) p s' (fun _ s'' => Since s0 0 extra s'')) :
    Ends (perform t) (logEndOp >>= fun _ => p) s (fun _ s' => Since s0 0 extra s') :=
  Program.ends_bind (ends_logEndOp hs) (fun _ s' _ hs' => hp s' hs')

/-- `proc_execv` keeps the references and closes its log operation. -/
theorem procExecv_since (path : Name) (result : ExecResult) (s : State) :
    Ends (perform t) (procExecv path result) s (fun _ s' => Since s 0 0 s') := by
  have hreturn : forall (r : Int) s', Since s 0 0 s' ->
      Ends (perform t) (pure r : Code Int) s' (fun _ s'' => Since s 0 0 s'') :=
    fun r s' hs' => Program.ends_pure hs'
  apply Program.ends_ite
  · intro _
    apply Program.ends_op
    intro _ s1 hbegin
    have hs1 : Since s 1 0 s1 := by
      have same := perform_steady (o := Op.logBegin) rfl hbegin
      constructor
      · intro i
        rw [same.ref i]
        exact (add_zero _).symm
      · exact same.cwd
      · rw [(logBegin_ok (done_ok hbegin)).right]
        rfl
    apply Program.ends_bind (takes_pathLookup path s1 hs1)
    intro found s2 _ hs2
    cases found with
    | none =>
        dsimp only at hs2
        rw [credit_zero, add_zero] at hs2
        exact ends_logEnd hs2 _ (hreturn _)
    | some ip =>
        apply Program.ends_op
        intro _ s3 hlock
        rcases perform_inert (o := Op.inodeLock ip) rfl hlock with ⟨hsame3, hlog3⟩
        have hs3 := hs2.same hsame3 hlog3
        apply Program.ends_op
        intro inode s4 hread
        rcases perform_inert (o := Op.inode ip) rfl hread with ⟨hsame4, hlog4⟩
        have hs4 := hs3.same hsame4 hlog4
        have hput := takes_unlockputHeld (t := t) ip s4 hs4
        apply Program.ends_ite
        · intro _
          apply ends_inodeRead
          apply Program.ends_bind hput
          intro _ s5 _ hs5
          apply ends_logEnd hs5
          intro s6 hs6
          exact Program.ends_ite (fun _ => hreturn _ s6 hs6) (fun _ => hreturn _ s6 hs6)
        · intro _
          apply Program.ends_bind hput
          intro _ s5 _ hs5
          exact ends_logEnd hs5 _ (hreturn _)
  · exact fun _ => hreturn _ s (Since.refl s)

end Takes

/-- What a call leaves of references, files, directories and the log. -/
structure SameRecords (s s' : State) : Prop where
  ref : forall i, (s'.icache i).ref = (s.icache i).ref
  outstanding : s'.outstanding = s.outstanding
  files : s'.files = s.files
  ofiles : forall u, (s'.tasks u).ofiles = (s.tasks u).ofiles
  cwd : forall u, (s'.tasks u).cwd = (s.tasks u).cwd

theorem procExecv_records {t : Nat} {path : Name} {result : ExecResult} {r : Int}
    {s s' : State}
    (hrun : Program.exec (perform t) (procExecv path result) s = Except.ok (r, s')) :
    SameRecords s s' := by
  have hsince := (procExecv_since path result s).run r s' hrun
  have htable := (plain_ends (plain_procExecv path result) s).run r s' hrun
  constructor
  · intro i
    have hi := hsince.ref i
    rw [Pi.zero_apply, add_zero] at hi
    exact Int.ofNat.inj hi
  · exact hsince.outstanding
  · exact htable.files
  · exact htable.ofiles
  · exact hsince.cwd

end Syscall
end Fs
end NicoOS
