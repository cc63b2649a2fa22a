import NicoOS.Fs.Syscall.OpenFiles

/-!
# Open files over runs of calls

What every call makes of the file table, and the table after any run of calls.
-/

namespace NicoOS
namespace Fs
namespace Syscall

open Lib
open Program (op Ends)
open Inode (InodeType)

/-!
# Calls that leave the table alone
-/

theorem plain_fail {p : Code Unit} (hp : Plain p) (r : Int) :
    Plain (p >>= fun _ => (pure r : Code Int)) :=
  Program.only_bind hp (fun _ => Program.only_pure r)

theorem plain_end (r : Int) : Plain (logEndOp >>= fun _ => (pure r : Code Int)) :=
  plain_fail plain_logEndOp r

theorem plain_putEnd (ip : Nat) (r : Int) :
    Plain (inodePut ip >>= fun _ => logEndOp >>= fun _ => (pure r : Code Int)) :=
  Program.only_bind (plain_inodePut ip) (fun _ => plain_end r)

theorem plain_unlockputEnd (ip : Nat) (r : Int) :
    Plain (inodeUnlockput ip >>= fun _ => logEndOp >>= fun _ => (pure r : Code Int)) :=
  Program.only_bind (plain_inodeUnlockput ip) (fun _ => plain_end r)

theorem plain_sysMkdir (path : Option Name) : Plain (sysMkdir path) := by
  cases path with
  | none => exact Program.only_pure _
  | some path =>
      apply Program.only_bind (plain_op (o := Op.logBegin) rfl)
      intro _
      apply Program.only_bind (plain_createFile path _)
      intro found
      cases found with
      | none => exact plain_end _
      | some ip => exact plain_putEnd ip _

theorem plain_noFile : Plain (assert false Stop.noFile >>= fun _ => (pure (-1) : Code Int)) :=
  plain_fail (plain_assert _ _) _

theorem plain_sysRead (fd : Int) (blocks : List Nat) (answer : Int) :
    Plain (sysRead fd blocks answer) := by
  apply Program.only_bind (plain_op rfl)
  intro found
  cases found with
  | none => exact Program.only_pure _
  | some f =>
      apply Program.only_bind (plain_op rfl)
      intro (file : File)
      apply Program.only_ite _ (Program.only_pure _)
      cases file.type with
      | none => exact plain_noFile
      | pipe => exact Program.only_pure _
      | inode =>
          apply Program.only_bind (plain_op rfl)
          intro _
          apply Program.only_bind (plain_inodeRead file.inode _)
          intro _
          exact plain_fail (plain_op rfl) _

theorem plain_writeChunks (ip : Nat) (chunks : List Bool) : Plain (writeChunks ip chunks) := by
  induction chunks with
  | nil => exact Program.only_pure _
  | cons accepted rest ih =>
      apply Program.only_bind (plain_op rfl)
      intro _
      apply Program.only_bind (plain_op rfl)
      intro _
      apply Program.only_ite
      · apply Program.only_bind (plain_op rfl)
        intro _
        apply Program.only_bind (plain_op rfl)
        intro _
        exact Program.only_bind plain_logEndOp (fun _ => ih)
      · apply Program.only_bind (plain_op rfl)
        intro _
        exact plain_end _

theorem plain_sysWrite (fd : Int) (chunks : List Bool) (answer : Int) :
    Plain (sysWrite fd chunks answer) := by
  apply Program.only_bind (plain_op rfl)
  intro found
  cases found with
  | none => exact Program.only_pure _
  | some f =>
      apply Program.only_bind (plain_op rfl)
      intro (file : File)
      apply Program.only_ite _ (Program.only_pure _)
      cases file.type with
      | none => exact plain_noFile
      | pipe => exact Program.only_pure _
      | inode => exact plain_writeChunks file.inode chunks

theorem plain_sysStat (path : Option Name) (buffer : Bool) : Plain (sysStat path buffer) := by
  cases path with
  | none => exact Program.only_pure _
  | some path =>
      apply Program.only_ite _ (Program.only_pure _)
      apply Program.only_bind (plain_pathLookup path)
      intro found
      cases found with
      | none => exact Program.only_pure _
      | some ip =>
          apply Program.only_bind (plain_op rfl)
          intro _
          exact plain_fail (plain_inodeUnlockput ip) _

theorem plain_sysChdir (path : Option Name) : Plain (sysChdir path) := by
  cases path with
  | none => exact Program.only_pure _
  | some path =>
      apply Program.only_bind (plain_op rfl)
      intro _
      apply Program.only_bind (plain_pathLookup path)
      intro found
      cases found with
      | none => exact plain_end _
      | some ip =>
          apply Program.only_bind (plain_op rfl)
          intro _
          apply Program.only_bind (plain_op rfl)
          intro inode
          apply Program.only_ite (plain_unlockputEnd ip _)
          apply Program.only_bind (plain_op rfl)
          intro cwd
          cases cwd with
          | none => exact plain_fail (plain_assert _ _) _
          | some prev =>
              apply Program.only_bind (plain_op rfl)
              intro t
              apply Program.only_bind (plain_op rfl)
              intro _
              apply Program.only_bind (plain_op rfl)
              intro _
              exact Program.only_bind (plain_inodeUnlockput ip) (fun _ => plain_putEnd prev _)

theorem plain_procExecv (path : Name) (result : ExecResult) :
    Plain (procExecv path result) := by
  apply Program.only_ite _ (Program.only_pure _)
  apply Program.only_bind (plain_op rfl)
  intro _
  apply Program.only_bind (plain_pathLookup path)
  intro found
  cases found with
  | none => exact plain_end _
  | some ip =>
      apply Program.only_bind (plain_op rfl)
      intro _
      apply Program.only_bind (plain_op rfl)
      intro inode
      apply Program.only_ite _ (plain_unlockputEnd ip _)
      apply Program.only_bind (plain_inodeRead ip _)
      intro _
      apply Program.only_bind (plain_inodeUnlockput ip)
      intro _
      apply Program.only_bind plain_logEndOp
      intro _
      exact Program.only_ite (Program.only_pure _) (Program.only_pure _)

/-!
# Calls that change the table
-/

section Calls

variable {t : Nat} {s : State} {extra : Nat -> Int}

theorem Table.plain_ends {α : Type} {p : Code α} (h : Table s extra none) (hp : Plain p) :
    Ends (perform t) p s (fun _ s' => Table s' extra none) :=
  Program.ends_mono (Syscall.plain_ends hp s) (fun _ _ same => h.sameTable same)

/-- `file_close` of a file that a local variable holds, and a plain rest. -/
theorem closeRest_ends {α : Type} {f : Nat} {rest : Unit -> Code α}
    (h : Table s (fun g => extra g + credit (some f) g) none) (hrest : forall u, Plain (rest u)) :
    Ends (perform t) (fileClose f >>= rest) s (fun _ s' => Table s' extra none) := by
  apply Program.ends_bind (fileClose_ends h f)
  intro u s1 _ hclosed
  apply Table.plain_ends _ (hrest u)
  exact hclosed.left.recredit (fun g => by lia)

theorem openFile_ends (h : Table s (fun _ => 0) none)
    (hstate : (s.tasks t).state ≠ TaskState.unused) (ip : Nat) (omode : UInt32) :
    Ends (perform t) (openFile ip omode) s (fun _ s' => Table s' (fun _ => 0) none) := by
  apply fileAlloc_ends h
  · exact h.plain_ends (plain_putEnd ip _)
  · intro f s1 _ h1 htasks hlive htype _
    apply fdAlloc_ends h1
    · rw [htasks]
      exact hstate
    · exact closeRest_ends h1 (fun _ => plain_putEnd ip _)
    · intro fd s2 _ h2 hfiles _ _
      apply plain_bind plain_logEndOp
      intro _ s3 hs3
      apply Program.ends_op
      intro _ s4 hopen
      cases hopen
      apply Program.ends_pure
      have h3 : Table s3 (fun _ => 0) none :=
        (h2.sameTable hs3).recredit (fun g => by lia)
      apply h3.openInode
      · rw [hs3.files, hfiles]
        exact hlive
      · rw [hs3.files, hfiles]
        exact htype

theorem sysOpen_ends (h : Table s (fun _ => 0) none)
    (hstate : (s.tasks t).state ≠ TaskState.unused) (path : Option Name) (omode : UInt32) :
    Ends (perform t) (sysOpen path omode) s (fun _ s' => Table s' (fun _ => 0) none) := by
  cases path with
  | none => exact Program.ends_pure h
  | some path =>
      apply plain_op_bind Op.logBegin rfl
      intro _ s1 hs1
      have hpath : Plain (openPath path omode) :=
        Program.only_ite (plain_createFile path _) (plain_openExisting path omode)
      apply plain_bind hpath
      intro found s2 hs2
      have h2 := (h.sameTable hs1).sameTable hs2
      cases found with
      | none => exact h2.plain_ends (plain_end _)
      | some ip =>
          apply openFile_ends h2
          rw [hs2.state, hs1.state]
          exact hstate

theorem sysClose_ends (h : Table s (fun _ => 0) none)
    (hstate : (s.tasks t).state ≠ TaskState.unused) (fd : Int) :
    Ends (perform t) (sysClose fd) s (fun _ s' => Table s' (fun _ => 0) none) := by
  apply Program.ends_op
  intro found s1 hfetch
  cases hfetch
  cases hfd : fetchFile t fd s with
  | none => exact Program.ends_pure h
  | some f =>
      rcases fetchFile_some hfd with ⟨hin, hslot⟩
      apply Program.ends_op
      intro self s2 hself
      cases hself
      apply Program.ends_op
      intro _ s3 hset
      cases hset
      have h3 : Table (setDescriptor t fd.toNat none s) (fun g => 0 + credit (some f) g) none := by
        apply h.setDescriptor hin hstate
        intro g
        rw [hslot, credit_none]
        lia
      exact closeRest_ends h3 (fun _ => Program.only_pure _)

theorem sysDup_ends (h : Table s (fun _ => 0) none)
    (hstate : (s.tasks t).state ≠ TaskState.unused) (fd : Int) :
    Ends (perform t) (sysDup fd) s (fun _ s' => Table s' (fun _ => 0) none) := by
  apply Program.ends_op
  intro found s1 hfetch
  cases hfetch
  cases fetchFile t fd s with
  | none => exact Program.ends_pure h
  | some f =>
      apply fdAlloc_ends h hstate
      · exact Program.ends_pure h
      · intro k s2 _ h2 _ _ _
        apply Program.ends_op
        intro _ s3 hdup
        apply Program.ends_pure
        exact h2.fileDup (fileDup_ok (done_ok hdup)) (fun g => by lia)

/-!
# Pipes
-/

theorem closeIfAny_ends (f : Option Nat) {rest : Unit -> Code (Option (Nat × Nat))}
    (h : Table s (fun g => extra g + credit f g) none)
    {Q : Option (Nat × Nat) -> State -> Prop}
    (hrest : forall s', Table s' extra none -> Ends (perform t) (rest ()) s' Q) :
    Ends (perform t) (closeIfAny f >>= rest) s Q := by
  cases f with
  | none =>
      apply hrest
      exact h.recredit (fun g => by rw [credit_none]; lia)
  | some f =>
      apply Program.ends_bind (fileClose_ends h f)
      intro u s1 _ hclosed
      apply hrest
      exact hclosed.left.recredit (fun g => by lia)

theorem pipeBad_ends (rfp wfp : Option Nat)
    (h : Table s (fun g => credit wfp g + credit rfp g) none) :
    Ends (perform t) (pipeBad rfp wfp) s (fun r s' =>
      r = none ∧ Table s' (fun _ => 0) none) := by
  apply closeIfAny_ends rfp h
  intro s1 h1
  have h1' : Table s1 (fun g => 0 + credit wfp g) none := h1.recredit (fun g => by lia)
  apply closeIfAny_ends wfp h1'
  intro s2 h2
  exact Program.ends_pure ⟨rfl, h2⟩

/-- Two new ends of a pipe that no descriptor points at, or nothing. -/
def PipePost (s : State) (r : Option (Nat × Nat)) (s' : State) : Prop :=
  match r with
  | none => Table s' (fun _ => 0) none
  | some (rfp, wfp) =>
      Table s' (fun g => credit (some rfp) g + credit (some wfp) g) none ∧ s'.tasks = s.tasks

theorem pipeAlloc_ends (h : Table s (fun _ => 0) none) (memory : PipeMemory) :
    Ends (perform t) (pipeAlloc memory) s (PipePost s) := by
  have hbad : forall rfp wfp s', Table s' (fun g => credit wfp g + credit rfp g) none ->
      Ends (perform t) (pipeBad rfp wfp) s' (PipePost s) := by
    intro rfp wfp s' h'
    apply Program.ends_mono (pipeBad_ends rfp wfp h')
    intro r s'' hboth
    rcases hboth with ⟨hr, hs⟩
    rw [hr]
    exact hs
  apply fileAlloc_ends h
  · apply hbad none none
    exact h.recredit (fun g => by rw [credit_none]; lia)
  · intro rfp s1 _ h1 htasks1 hlive1 htype1 _
    apply fileAlloc_ends h1
    · apply hbad (some rfp) none
      exact h1.recredit (fun g => by rw [credit_none])
    · intro wfp s2 hfree h2 htasks2 hlive2 htype2 hother
      have hne : rfp ≠ wfp := by
        intro heq
        rw [heq, hfree] at hlive1
        exact Nat.lt_irrefl 0 hlive1
      apply Program.ends_ite
      · intro _
        apply Program.ends_op
        intro p s3 hnew
        cases hnew
        have h3 : Table (newPipe s2).2
            (fun g => 0 + credit (some rfp) g + credit (some wfp) g) none :=
          h2.sameTable (SameTable.of_tasks rfl rfl rfl rfl rfl)
        have hrfp : s2.files rfp = s1.files rfp := hother rfp hne
        apply Program.ends_op
        intro _ s4 hread
        cases hread
        have h4 : Table (openPipe rfp s2.npipes false (newPipe s2).2)
            (fun g => 0 + credit (some rfp) g + credit (some wfp) g) none := by
          apply h3.openPipe
          · show 0 < (s2.files rfp).refs
            rw [hrfp]
            exact hlive1
          · show (s2.files rfp).type = FdType.none
            rw [hrfp]
            exact htype1
        have hwfp : (openPipe rfp s2.npipes false (newPipe s2).2).files wfp = s2.files wfp :=
          setFile_other (fun e => hne e.symm) _
        apply Program.ends_op
        intro _ s5 hwrite
        cases hwrite
        apply Program.ends_pure
        constructor
        · have h5 : Table (openPipe wfp s2.npipes true
              (openPipe rfp s2.npipes false (newPipe s2).2))
              (fun g => 0 + credit (some rfp) g + credit (some wfp) g) none := by
            apply h4.openPipe
            · rw [hwfp]
              exact hlive2
            · rw [hwfp]
              exact htype2
          exact h5.recredit (fun g => by lia)
        · exact htasks2.trans htasks1
      · intro _
        apply hbad (some rfp) (some wfp)
        exact h2.recredit (fun g => by lia)

theorem sysPipeBad_ends (rfp wfp : Nat) (rfd : Option Nat)
    (hin : forall fd, rfd = some fd -> fd < nofile ∧ (s.tasks t).ofiles fd = some rfp)
    (hstate : (s.tasks t).state ≠ TaskState.unused)
    (h : Table s (fun g => credit (some wfp) g +
      if rfd = none then credit (some rfp) g else 0) none) :
    Ends (perform t) (sysPipeBad rfp wfp rfd) s (fun _ s' => Table s' (fun _ => 0) none) := by
  apply Program.ends_bind (fileClose_ends h rfp)
  intro _ s1 _ h1
  apply Program.ends_bind (fileClose_ends h1.left wfp)
  intro _ s2 _ h2
  have hslots := h1.right.trans h2.right
  cases rfd with
  | none =>
      apply Program.ends_pure
      apply h2.left.recredit
      intro g
      rw [if_pos rfl]
      lia
  | some fd =>
      rcases hin fd rfl with ⟨hfd, hslot⟩
      apply Program.ends_op
      intro self s3 hself
      cases hself
      apply Program.ends_op
      intro _ s4 hset
      cases hset
      apply Program.ends_pure
      apply h2.left.setDescriptor hfd
      · rw [hslots.state]
        exact hstate
      · intro g
        have hnone : Not (some fd = (none : Option Nat)) := fun e => by cases e
        rw [hslots.ofiles, hslot, credit_none, if_neg hnone]
        lia

theorem sysPipe_ends (h : Table s (fun _ => 0) none)
    (hstate : (s.tasks t).state ≠ TaskState.unused) (ok : Bool) (memory : PipeMemory) :
    Ends (perform t) (sysPipe ok memory) s (fun _ s' => Table s' (fun _ => 0) none) := by
  apply Program.ends_ite
  · intro _
    apply Program.ends_bind (pipeAlloc_ends h memory)
    intro found s1 _ h1
    cases found with
    | none => exact Program.ends_pure h1
    | some ends =>
        rcases h1 with ⟨h1, htasks⟩
        have hstate1 : (s1.tasks t).state ≠ TaskState.unused := by
          rw [htasks]
          exact hstate
        apply fdAlloc_ends h1 hstate1
        · apply sysPipeBad_ends ends.1 ends.2 none _ hstate1
          · exact h1.recredit (fun g => by rw [if_pos rfl]; lia)
          · exact fun fd hfd => by cases hfd
        · intro rfd s2 hrfd h2 _ hstate2 hslot
          have hstate2' : (s2.tasks t).state ≠ TaskState.unused := by
            rw [hstate2]
            exact hstate1
          apply fdAlloc_ends h2 hstate2'
          · apply sysPipeBad_ends ends.1 ends.2 (some rfd) _ hstate2'
            · apply h2.recredit
              intro g
              rw [if_neg (fun e => by cases e)]
              lia
            · intro fd hfd
              cases hfd
              exact ⟨hrfd, hslot⟩
          · intro wfd s3 _ h3 _ _ _
            apply Program.ends_pure
            exact h3.recredit (fun g => by lia)
  · intro _
    exact Program.ends_pure h

/-!
# Fork and exit
-/

/-- Descriptors of the child that are still empty get a file each. -/
theorem copyFiles_ends {child : Nat} (fds : List Nat) {s : State}
    (h : Table s (fun _ => 0) none) (hne : child ≠ t)
    (hstate : (s.tasks child).state ≠ TaskState.unused) (hnodup : fds.Nodup)
    (hin : forall fd, fd ∈ fds -> fd < nofile)
    (hempty : forall fd, fd ∈ fds -> (s.tasks child).ofiles fd = none) :
    Ends (perform t) (copyFiles child fds) s (fun _ s' => Table s' (fun _ => 0) none ∧
      (s'.tasks child).state = (s.tasks child).state) := by
  induction fds generalizing s with
  | nil => exact Program.ends_pure ⟨h, rfl⟩
  | cons fd rest ih =>
      rcases List.nodup_cons.mp hnodup with ⟨hnew, hrest⟩
      apply Program.ends_op
      intro found s1 hfetch
      cases hfetch
      cases fetchFile t fd s with
      | none =>
          exact ih h hstate hrest (fun k hk => hin k (List.mem_cons_of_mem fd hk))
            (fun k hk => hempty k (List.mem_cons_of_mem fd hk))
      | some f =>
          apply Program.ends_op
          intro _ s2 hdup
          have hok := fileDup_ok (done_ok hdup)
          have h2 : Table s2 (fun g => 0 + credit (some f) g) none :=
            h.fileDup hok (fun g => rfl)
          have htasks : s2.tasks = s.tasks := by
            rw [hok.right]
            rfl
          apply Program.ends_op
          intro _ s3 hset
          cases hset
          have hself : (setDescriptor child fd (some f) s2).tasks child =
              { s2.tasks child with
                ofiles := Function.update (s2.tasks child).ofiles fd (some f) } := by
            rw [setDescriptor, setTask_self]
          have hsame : ((setDescriptor child fd (some f) s2).tasks child).state =
              (s.tasks child).state := by
            rw [hself, htasks]
          have h3 : Table (setDescriptor child fd (some f) s2) (fun _ => 0) none := by
            apply h2.setDescriptor (hin fd List.mem_cons_self)
            · rw [htasks]
              exact hstate
            · intro g
              rw [htasks, hempty fd List.mem_cons_self, credit_none]
              lia
          apply Program.ends_mono (ih h3 _ hrest
            (fun k hk => hin k (List.mem_cons_of_mem fd hk)) _)
          · exact fun _ _ hpost => ⟨hpost.left, hpost.right.trans hsame⟩
          · rw [hsame]
            exact hstate
          · intro k hk
            have hkfd : k ≠ fd := fun e => hnew (e ▸ hk)
            rw [hself]
            refine (Function.update_of_ne hkfd _ _).trans ?_
            rw [htasks]
            exact hempty k (List.mem_cons_of_mem fd hk)

theorem procFork_ends (h : Table s (fun _ => 0) none)
    (hstate : (s.tasks t).state ≠ TaskState.unused) (child : Option Nat) (copied : Bool) :
    Ends (perform t) (procFork child copied) s (fun _ s' => Table s' (fun _ => 0) none) := by
  cases child with
  | none => exact Program.ends_pure h
  | some child =>
      apply Program.ends_op
      intro _ s1 halloc
      rcases taskAlloc_ok (done_ok halloc) with ⟨hunused, hs1⟩
      have hne : child ≠ t := by
        intro e
        rw [e] at hunused
        exact hstate hunused
      have hself : s1.tasks child = ⟨TaskState.allocated, none, fun _ => none, 0⟩ := by
        rw [hs1, setTask_self]
      have hnostate : (s1.tasks child).state ≠ TaskState.unused := by
        rw [hself]
        exact fun e => by cases e
      have h1 : Table s1 (fun _ => 0) none := by
        rw [hs1]
        apply h.setTask
        · exact (funext (fun fd => h.unused child fd hunused)).symm
        · exact fun e => by cases e
      apply Program.ends_ite
      · intro _
        apply Program.ends_bind (copyFiles_ends (List.range nofile) h1 hne hnostate
          List.nodup_range (fun fd hfd => List.mem_range.mp hfd) (fun fd _ => by rw [hself]))
        intro _ s2 _ h2
        apply plain_op_bind Op.cwd rfl
        intro cwd s3 hs3
        cases cwd with
        | none =>
            apply Table.plain_ends (h2.left.sameTable hs3)
            exact plain_fail (plain_assert _ _) _
        | some i =>
            apply plain_op_bind (Op.inodeDup i) rfl
            intro _ s4 hs4
            apply plain_op_bind (Op.setCwd child (some i)) rfl
            intro _ s5 hs5
            apply Program.ends_op
            intro _ s6 hset
            cases hset
            apply Program.ends_pure
            apply (((h2.left.sameTable hs3).sameTable hs4).sameTable hs5).setTask
            · rfl
            · exact fun e => by cases e
      · intro _
        apply Program.ends_op
        intro _ s2 hset
        cases hset
        apply Program.ends_pure
        apply h1.setTask
        · rfl
        · intro _ fd
          rw [hself]

/-- The descriptors of a task are closed one after another. -/
theorem closeFiles_ends (fds : List Nat) {s : State} (h : Table s (fun _ => 0) none)
    (hstate : (s.tasks t).state ≠ TaskState.unused) (hin : forall fd, fd ∈ fds -> fd < nofile) :
    Ends (perform t) (closeFiles fds) s (fun _ s' => Table s' (fun _ => 0) none ∧
      (forall fd, fd ∈ fds ∨ (s.tasks t).ofiles fd = none -> (s'.tasks t).ofiles fd = none)) := by
  induction fds generalizing s with
  | nil =>
      apply Program.ends_pure
      refine ⟨h, ?_⟩
      intro fd hor
      rcases hor with hfd | hfd
      · cases hfd
      · exact hfd
  | cons fd rest ih =>
      apply Program.ends_op
      intro found s1 hfetch
      cases hfetch
      have hlater : forall k, k ∈ rest -> k < nofile :=
        fun k hk => hin k (List.mem_cons_of_mem fd hk)
      have hbound := hin fd List.mem_cons_self
      cases hfd : fetchFile t fd s with
      | none =>
          have hnone : (s.tasks t).ofiles fd = none := by
            unfold fetchFile at hfd
            rw [if_neg (by lia)] at hfd
            exact hfd
          apply Program.ends_mono (ih h hstate hlater)
          intro _ s' hboth
          rcases hboth with ⟨h', hclosed⟩
          refine ⟨h', ?_⟩
          intro k hor
          rcases hor with hk | hk
          · rcases List.mem_cons.mp hk with hk | hk
            · rw [hk]
              exact hclosed fd (Or.inr hnone)
            · exact hclosed k (Or.inl hk)
          · exact hclosed k (Or.inr hk)
      | some f =>
          rcases fetchFile_some hfd with ⟨-, hslot⟩
          apply Program.ends_bind (fileClose_ends h f)
          intro _ s2 _ hboth
          rcases hboth with ⟨h2, hslots⟩
          apply Program.ends_op
          intro self s3 hself
          cases hself
          apply Program.ends_op
          intro _ s4 hset
          cases hset
          have hstate2 : (s2.tasks t).state ≠ TaskState.unused := by
            rw [hslots.state]
            exact hstate
          have htask : (setDescriptor t fd none s2).tasks t =
              { s2.tasks t with ofiles := Function.update (s2.tasks t).ofiles fd none } := by
            rw [setDescriptor, setTask_self]
          have h4 : Table (setDescriptor t fd none s2) (fun _ => 0) none := by
            apply h2.setDescriptor hbound hstate2
            intro g
            have hslot' : (s.tasks t).ofiles fd = some f := hslot
            rw [hslots.ofiles, hslot', credit_none]
            lia
          have hnone : forall k, (k = fd ∨ (s.tasks t).ofiles k = none) ->
              ((setDescriptor t fd none s2).tasks t).ofiles k = none := by
            intro k hk
            rw [htask]
            by_cases hkfd : k = fd
            · rw [hkfd]
              exact Function.update_self _ _ _
            · refine (Function.update_of_ne hkfd _ _).trans ?_
              rw [hslots.ofiles]
              exact hk.resolve_left hkfd
          apply Program.ends_mono (ih h4 _ hlater)
          · intro _ s' hboth
            rcases hboth with ⟨h', hclosed⟩
            refine ⟨h', ?_⟩
            intro k hor
            rcases hor with hk | hk
            · rcases List.mem_cons.mp hk with hk | hk
              · exact hclosed k (Or.inr (hnone k (Or.inl hk)))
              · exact hclosed k (Or.inl hk)
            · exact hclosed k (Or.inr (hnone k (Or.inr hk)))
          · rw [htask]
            exact hstate2

theorem taskExit_ends (h : Table s (fun _ => 0) none)
    (hstate : (s.tasks t).state ≠ TaskState.unused) :
    Ends (perform t) taskExit s (fun _ s' => Table s' (fun _ => 0) none) := by
  apply Program.ends_bind (closeFiles_ends (List.range nofile) h hstate
    (fun fd hfd => List.mem_range.mp hfd))
  intro _ s1 _ hboth
  rcases hboth with ⟨h1, hclosed⟩
  have hnone : forall fd, (s1.tasks t).ofiles fd = none := by
    intro fd
    by_cases hfd : fd < nofile
    · exact hclosed fd (Or.inl (List.mem_range.mpr hfd))
    · exact h1.bounded t fd (by lia)
  apply Program.ends_op
  intro self s2 hself
  cases hself
  apply plain_op_bind Op.cwd rfl
  intro cwd s3 hs3
  have hend : forall s', SameTable s1 s' ->
      Table (setState t TaskState.unused s') (fun _ => 0) none := by
    intro s' hs'
    apply (h1.sameTable hs').setTask
    · rfl
    · intro _ fd
      rw [hs'.ofiles]
      exact hnone fd
  cases cwd with
  | none =>
      apply Program.ends_op
      intro _ s4 hset
      cases hset
      exact Program.ends_pure (hend s3 hs3)
  | some i =>
      apply plain_op_bind Op.logBegin rfl
      intro _ s4 hs4
      apply plain_bind (plain_inodePut i)
      intro _ s5 hs5
      apply plain_bind plain_logEndOp
      intro _ s6 hs6
      apply plain_op_bind (Op.setCwd t none) rfl
      intro _ s7 hs7
      apply Program.ends_op
      intro _ s8 hset
      cases hset
      apply Program.ends_pure
      exact hend s7 ((((hs3.trans hs4).trans hs5).trans hs6).trans hs7)

/-!
# Runs
-/

theorem call_ends (h : Table s (fun _ => 0) none)
    (hstate : (s.tasks t).state ≠ TaskState.unused) (call : Call) :
    Ends (perform t) call.code s (fun _ s' => Table s' (fun _ => 0) none) := by
  cases call with
  | openFile path omode => exact sysOpen_ends h hstate path omode
  | close fd => exact sysClose_ends h hstate fd
  | dup fd => exact sysDup_ends h hstate fd
  | mkdir path => exact h.plain_ends (plain_sysMkdir path)
  | unlink path => exact h.plain_ends (plain_sysUnlink path)
  | read fd blocks answer => exact h.plain_ends (plain_sysRead fd blocks answer)
  | write fd chunks answer => exact h.plain_ends (plain_sysWrite fd chunks answer)
  | stat path ok => exact h.plain_ends (plain_sysStat path ok)
  | chdir path => exact h.plain_ends (plain_sysChdir path)
  | pipe ok memory => exact sysPipe_ends h hstate ok memory
  | execv path result => exact h.plain_ends (plain_procExecv path result)
  | fork child copied => exact procFork_ends h hstate child copied
  | exit => exact taskExit_ends h hstate

end Calls

theorem step_some {s s' : State} {a : Nat × Call} (h : step s a = some s') :
    (s.tasks a.1).state = TaskState.ready ∧
      exists r, Program.exec (perform a.1) a.2.code s = Except.ok (r, s') := by
  unfold step at h
  split at h
  · rename_i hready
    refine ⟨hready, ?_⟩
    split at h
    · rename_i r hr
      cases h
      exact ⟨r.1, hr⟩
    · cases h
  · cases h

theorem Table.step {s s' : State} {a : Nat × Call} (h : Table s (fun _ => 0) none)
    (hstep : Syscall.step s a = some s') : Table s' (fun _ => 0) none := by
  rcases step_some hstep with ⟨hready, r, hrun⟩
  apply (call_ends h _ a.2).run r s' hrun
  rw [hready]
  exact fun e => by cases e

theorem table_boot (disk : Tree) : Table (boot disk) (fun _ => 0) none where
  balanced := by
    apply Balanced.of_encard
    intro f
    apply Set.encard_eq_zero.mpr
    ext x
    constructor
    · intro hx
      have hnone : (none : Option Nat) = some f := hx
      cases hnone
    · exact fun hx => by cases hx
  idle _ _ := rfl
  unused _ _ _ := rfl
  bounded _ _ _ := rfl
  ledger :=
    { bound := fun f hf => absurd hf (Nat.lt_irrefl 0)
      boundAttached := fun o ho => by cases ho
      alone := fun f g hf => absurd hf (Nat.lt_irrefl 0)
      unique := fun o p ho => by cases ho
      opened := fun f hf => absurd hf (Nat.lt_irrefl 0)
      unopened := fun f hf => absurd hf (Nat.lt_irrefl 0)
      nodup := List.nodup_nil
      letGo := fun o => by
        constructor
        · intro hor
          rcases hor with ho | ho
          · cases ho
          · cases ho
        · intro hboth
          rcases hboth with ⟨ho, -⟩
          cases ho
      pendingNew := fun o ho => by cases ho }

/-!
# The last close

What `file_close` runs, by the references and the type of the file.
-/

theorem exec_fileClose_shared (t : Nat) {s : State} {f : Nat} (hmore : 1 < (s.files f).refs) :
    Program.exec (perform t) (fileClose f) s =
      Except.ok ((), s.setFile f { s.files f with refs := (s.files f).refs - 1 }) := by
  have hdrop : perform t (Op.fileDrop f) s =
      Except.ok (none, s.setFile f { s.files f with refs := (s.files f).refs - 1 }) := by
    show fileDrop f s = _
    unfold fileDrop
    rw [if_pos (Nat.le_of_lt hmore), if_pos (Nat.sub_pos_of_lt hmore)]
  exact Program.exec_op_ok hdrop

/-- The entry of a file that nothing refers to any more. -/
def State.dropFile (s : State) (f : Nat) : State :=
  s.setFile f { s.files f with refs := 0, type := FdType.none }

theorem perform_fileDrop_last (t : Nat) {s : State} {f : Nat} (hlast : (s.files f).refs = 1) :
    perform t (Op.fileDrop f) s = Except.ok (some (s.files f), s.dropFile f) := by
  show fileDrop f s = _
  unfold fileDrop State.dropFile
  dsimp only
  rw [hlast]
  rfl

theorem exec_fileClose_inode (t : Nat) {s : State} {f : Nat} (hlast : (s.files f).refs = 1)
    (htype : (s.files f).type = FdType.inode) :
    Program.exec (perform t) (fileClose f) s =
      Program.exec (perform t) (do
        op Op.logBegin
        inodePut (s.files f).inode (some (s.files f).opening)
        logEndOp) (s.dropFile f) := by
  have hopening : (s.files f).opening = ⟨(s.files f).id, FdType.inode, (s.files f).inode⟩ := by
    rw [File.opening, File.object, htype]
  rw [hopening]
  refine (Program.exec_op_ok (perform_fileDrop_last t hlast)).trans ?_
  simp only [htype]

theorem exec_fileClose_pipe (t : Nat) {s : State} {f : Nat} (hlast : (s.files f).refs = 1)
    (htype : (s.files f).type = FdType.pipe) :
    Program.exec (perform t) (fileClose f) s =
      Except.ok ((), pipeClose (s.files f).pipe (s.files f).writable (s.files f).opening
        (s.dropFile f)) := by
  have hopening : (s.files f).opening = ⟨(s.files f).id, FdType.pipe, (s.files f).pipe⟩ := by
    rw [File.opening, File.object, htype]
  rw [hopening]
  refine (Program.exec_op_ok (perform_fileDrop_last t hlast)).trans ?_
  simp only [htype]
  rfl

/--
After every run of calls the file table is counted by the descriptors, and only the close of
the last reference runs `inode_put` or `pipe_close`, which put the opening on the record.
-/
theorem open_files_counted (disk : Tree) {s : State}
    (h : Reaches step (fun _ _ => True) (boot disk) s) :
    (forall f, { x : Nat × Nat | (s.tasks x.1).ofiles x.2 = some f }.encard =
      (s.files f).refs) ∧
    (forall f, (s.files f).refs = 0 -> (s.files f).type = FdType.none) ∧
    (forall t fd f, (s.tasks t).ofiles fd = some f -> (s.files f).refs ≠ 0) ∧
    (forall f, 0 < (s.files f).refs -> (s.files f).type ≠ FdType.none ->
      (s.files f).opening ∈ s.attached) ∧
    s.released.Nodup ∧
    (forall o, o ∈ s.released <->
      o ∈ s.attached ∧ forall f, 0 < (s.files f).refs -> (s.files f).id ≠ o.id) ∧
    (forall t f, 1 < (s.files f).refs -> Program.exec (perform t) (fileClose f) s =
      Except.ok ((), s.setFile f { s.files f with refs := (s.files f).refs - 1 })) ∧
    (forall t f, (s.files f).refs = 1 -> (s.files f).type = FdType.inode ->
      Program.exec (perform t) (fileClose f) s = Program.exec (perform t) (do
        op Op.logBegin
        inodePut (s.files f).inode (some (s.files f).opening)
        logEndOp) (s.dropFile f)) ∧
    (forall t f, (s.files f).refs = 1 -> (s.files f).type = FdType.pipe ->
      Program.exec (perform t) (fileClose f) s = Except.ok ((),
        pipeClose (s.files f).pipe (s.files f).writable (s.files f).opening (s.dropFile f))) := by
  have htable : Table s (fun _ => 0) none :=
    h.invariant (P := fun r => Table r (fun _ => 0) none) (table_boot disk)
      (fun _ _ _ hr _ hstep => hr.step hstep)
  refine ⟨fun f => htable.balanced.encard_eq rfl, htable.idle, ?_, htable.ledger.opened,
    htable.ledger.nodup, ?_, fun t _ hmore => exec_fileClose_shared t hmore,
    fun t _ hlast htype => exec_fileClose_inode t hlast htype,
    fun t _ hlast htype => exec_fileClose_pipe t hlast htype⟩
  · intro t fd f hslot hzero
    have hle := htable.balanced.slot_le (x := (t, fd)) hslot
    rw [hzero] at hle
    lia
  · intro o
    rw [<- htable.ledger.letGo o]
    constructor
    · exact Or.inl
    · intro hor
      rcases hor with ho | ho
      · exact ho
      · cases ho

def rootDisk : Tree :=
  { ninodes := 4
    dinodes := fun x =>
      if x = rootInum then { type := InodeType.directory, nlink := 2 }
      else { type := InodeType.none, nlink := 0 }
    data := fun x => if x = rootInum then [⟨rootInum, dotName⟩, ⟨rootInum, dotdotName⟩] else [] }

/-- A new file and a pipe are opened, the task forks, and both close some descriptors. -/
def openRun : List (Nat × Call) :=
  [(initTask, Call.openFile (some [47, 102]) (oCreat ||| oRdwr)), (initTask, Call.dup 0),
    (initTask, Call.pipe true { object := true, page := true }), (initTask, Call.close 0),
    (initTask, Call.fork (some 3) true), (3, Call.exit), (initTask, Call.close 1),
    (initTask, Call.close 2)]

/-- The file and the read end of the pipe have lost their last descriptor. -/
theorem open_files_counted_openRun :
    exists s, runFrom step (boot rootDisk) openRun = some s ∧
      (forall f, { x : Nat × Nat | (s.tasks x.1).ofiles x.2 = some f }.encard =
        (s.files f).refs) ∧
      s.released = [⟨0, FdType.inode, 1⟩, ⟨1, FdType.pipe, 0⟩] ∧
      (forall o, o ∈ s.released <->
        o ∈ s.attached ∧ forall f, 0 < (s.files f).refs -> (s.files f).id ≠ o.id) := by
  have hcheck : runCheck step (fun _ _ => true) (boot rootDisk) openRun = true := by
    decide +kernel
  have hrun : (runFrom step (boot rootDisk) openRun).isSome = true := by decide +kernel
  have hreleased : (runFrom step (boot rootDisk) openRun).map State.released =
      some [⟨0, FdType.inode, 1⟩, ⟨1, FdType.pipe, 0⟩] := by
    decide +kernel
  have hreached : exists s, runFrom step (boot rootDisk) openRun = some s ∧
      Reaches step (fun _ _ => True) (boot rootDisk) s :=
    reaches_of_runCheck (fun _ _ _ => trivial) hcheck hrun
  rcases hreached with ⟨s, hs, hreach⟩
  rw [hs] at hreleased
  have hcounted := open_files_counted rootDisk hreach
  exact ⟨s, hs, hcounted.left, Option.some.inj hreleased,
    hcounted.right.right.right.right.right.left⟩

end Syscall
end Fs
end NicoOS
