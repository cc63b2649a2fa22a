import NicoOS.Fs.Syscall.ForestLookup
import NicoOS.Fs.Syscall.InodeRefs

/-!
# Calls that keep the forest

Everything but a new entry and a removed one leaves the forest of directories as it is.
-/

namespace NicoOS
namespace Fs
namespace Syscall

open Lib
open Program (op Ends ends_op ends_pure ends_last ends_bind ends_mono ends_ite)
open Inode (InodeType nicache)

def Gentle (t : Nat) {α : Type} (p : Code α) : Prop :=
  forall home rank u, Orderly home rank u ->
    Ends (perform t) p u (fun _ v => Orderly home rank v)

section Gentle

variable {t : Nat} {α β : Type}

theorem gentle_pure (a : α) : Gentle t (pure a : Code α) :=
  fun _ _ _ h => ends_pure h

theorem gentle_bind {p : Code α} {f : α -> Code β} (hp : Gentle t p)
    (hf : forall a, Gentle t (f a)) : Gentle t (p >>= f) :=
  fun home rank u h => ends_bind (hp home rank u h) (fun a v _ hv => hf a home rank v hv)

theorem gentle_ite {c : Prop} [Decidable c] {p q : Code α} (hp : Gentle t p)
    (hq : Gentle t q) : Gentle t (if c then p else q) :=
  fun home rank u h => ends_ite (fun _ => hp home rank u h) (fun _ => hq home rank u h)

theorem gentle_op {o : Op} (ho : o.beside = true) : Gentle t (op o : Code o.Answer) := by
  intro home rank u h
  apply ends_last
  intro a v hrun
  rcases perform_beside ho hrun with ⟨hicache, htree⟩
  exact h.same hicache htree

theorem gentle_inodeLock (i : Nat) : Gentle t (op (Op.inodeLock i) : Code Unit) :=
  fun _ _ _ h => ends_last (fun _ _ hrun => (h.lock (done_ok hrun)).right.right.left)

theorem gentle_inodeUnlock (i : Nat) : Gentle t (op (Op.inodeUnlock i) : Code Unit) :=
  fun _ _ _ h => ends_last (fun _ _ hrun => (h.unlock (done_ok hrun)).left)

theorem gentle_inodePut (i : Nat) {o : Option Opening} : Gentle t (inodePut i o) :=
  fun _ _ _ h => ends_mono (h.put t i) (fun _ _ hend => hend.left)

theorem gentle_inodeRead (i : Nat) (blocks : List Dirent -> List Nat) :
    Gentle t (inodeRead i blocks) := by
  apply gentle_bind (gentle_op rfl)
  intro (hole : Bool)
  exact gentle_ite (gentle_op rfl) (gentle_pure ())

theorem gentle_inodeUnlockput (i : Nat) : Gentle t (inodeUnlockput i) :=
  gentle_bind (gentle_inodeUnlock i) (fun _ => gentle_inodePut i)

theorem gentle_logEndOp : Gentle t logEndOp := by
  apply gentle_bind (gentle_op rfl)
  intro (last : Bool)
  exact gentle_ite (gentle_op rfl) (gentle_pure ())

theorem gentle_end (r : Int) : Gentle t (logEndOp >>= fun _ => (pure r : Code Int)) :=
  gentle_bind gentle_logEndOp (fun _ => gentle_pure r)

theorem gentle_putEnd (i : Nat) (r : Int) :
    Gentle t (inodePut i >>= fun _ => logEndOp >>= fun _ => (pure r : Code Int)) :=
  gentle_bind (gentle_inodePut i) (fun _ => gentle_end r)

theorem gentle_unlockputEnd (i : Nat) (r : Int) :
    Gentle t (inodeUnlockput i >>= fun _ => logEndOp >>= fun _ => (pure r : Code Int)) :=
  gentle_bind (gentle_inodeUnlockput i) (fun _ => gentle_end r)

theorem gentle_fails (stop : Stop) (a : α) :
    Gentle t (assert false stop >>= fun _ => (pure a : Code α)) :=
  gentle_bind (gentle_op rfl) (fun _ => gentle_pure a)

/-!
# Files
-/

theorem gentle_fileClose (f : Nat) : Gentle t (fileClose f) := by
  apply gentle_bind (gentle_op rfl)
  intro found
  cases found with
  | none => exact gentle_pure ()
  | some file =>
      dsimp only
      cases file.type with
      | none => exact gentle_pure ()
      | inode =>
          apply gentle_bind (gentle_op rfl)
          intro _
          exact gentle_bind (gentle_inodePut file.inode) (fun _ => gentle_logEndOp)
      | pipe => exact gentle_op rfl

theorem gentle_openFile (ip : Nat) (omode : UInt32) : Gentle t (openFile ip omode) := by
  apply gentle_bind (gentle_op rfl)
  intro found
  cases found with
  | none => exact gentle_putEnd ip (-1)
  | some file =>
      apply gentle_bind (gentle_op rfl)
      intro fd
      cases fd with
      | none => exact gentle_bind (gentle_fileClose file) (fun _ => gentle_putEnd ip (-1))
      | some fd =>
          apply gentle_bind gentle_logEndOp
          intro _
          exact gentle_bind (gentle_op rfl) (fun _ => gentle_pure _)

theorem gentle_sysClose (fd : Int) : Gentle t (sysClose fd) := by
  apply gentle_bind (gentle_op rfl)
  intro found
  cases found with
  | none => exact gentle_pure _
  | some f =>
      apply gentle_bind (gentle_op rfl)
      intro self
      apply gentle_bind (gentle_op rfl)
      intro _
      exact gentle_bind (gentle_fileClose f) (fun _ => gentle_pure _)

theorem gentle_sysDup (fd : Int) : Gentle t (sysDup fd) := by
  apply gentle_bind (gentle_op rfl)
  intro found
  cases found with
  | none => exact gentle_pure _
  | some f =>
      apply gentle_bind (gentle_op rfl)
      intro fd
      cases fd with
      | none => exact gentle_pure _
      | some fd => exact gentle_bind (gentle_op rfl) (fun _ => gentle_pure _)

theorem gentle_sysRead (fd : Int) (blocks : List Nat) (answer : Int) :
    Gentle t (sysRead fd blocks answer) := by
  apply gentle_bind (gentle_op rfl)
  intro found
  cases found with
  | none => exact gentle_pure _
  | some f =>
      apply gentle_bind (gentle_op rfl)
      intro (file : File)
      apply gentle_ite _ (gentle_pure _)
      cases file.type with
      | none => exact gentle_fails _ _
      | inode =>
          apply gentle_bind (gentle_inodeLock file.inode)
          intro _
          apply gentle_bind (gentle_inodeRead file.inode _)
          intro _
          exact gentle_bind (gentle_inodeUnlock file.inode) (fun _ => gentle_pure _)
      | pipe => exact gentle_pure _

theorem gentle_writeChunks (ip : Nat) (chunks : List Bool) : Gentle t (writeChunks ip chunks) := by
  induction chunks with
  | nil => exact gentle_pure _
  | cons accepted rest ih =>
      apply gentle_bind (gentle_op rfl)
      intro _
      apply gentle_bind (gentle_inodeLock ip)
      intro _
      apply gentle_ite
      · apply gentle_bind (gentle_op rfl)
        intro _
        apply gentle_bind (gentle_inodeUnlock ip)
        intro _
        exact gentle_bind gentle_logEndOp (fun _ => ih)
      · apply gentle_bind (gentle_inodeUnlock ip)
        intro _
        exact gentle_end (-1)

theorem gentle_sysWrite (fd : Int) (chunks : List Bool) (answer : Int) :
    Gentle t (sysWrite fd chunks answer) := by
  apply gentle_bind (gentle_op rfl)
  intro found
  cases found with
  | none => exact gentle_pure _
  | some f =>
      apply gentle_bind (gentle_op rfl)
      intro (file : File)
      apply gentle_ite _ (gentle_pure _)
      cases file.type with
      | none => exact gentle_fails _ _
      | inode => exact gentle_writeChunks file.inode chunks
      | pipe => exact gentle_pure _

/-!
# Pipes
-/

theorem gentle_closeIfAny (f : Option Nat) : Gentle t (closeIfAny f) := by
  cases f with
  | none => exact gentle_pure ()
  | some f => exact gentle_fileClose f

theorem gentle_pipeBad (rfp wfp : Option Nat) : Gentle t (pipeBad rfp wfp) :=
  gentle_bind (gentle_closeIfAny rfp)
    (fun _ => gentle_bind (gentle_closeIfAny wfp) (fun _ => gentle_pure _))

theorem gentle_pipeAlloc (memory : PipeMemory) : Gentle t (pipeAlloc memory) := by
  apply gentle_bind (gentle_op rfl)
  intro rfp
  cases rfp with
  | none => exact gentle_pipeBad none none
  | some rfp =>
      apply gentle_bind (gentle_op rfl)
      intro wfp
      cases wfp with
      | none => exact gentle_pipeBad (some rfp) none
      | some wfp =>
          apply gentle_ite
          · apply gentle_bind (gentle_op rfl)
            intro p
            apply gentle_bind (gentle_op rfl)
            intro _
            exact gentle_bind (gentle_op rfl) (fun _ => gentle_pure _)
          · exact gentle_pipeBad (some rfp) (some wfp)

theorem gentle_sysPipeBad (rfp wfp : Nat) (rfd : Option Nat) :
    Gentle t (sysPipeBad rfp wfp rfd) := by
  apply gentle_bind (gentle_fileClose rfp)
  intro _
  apply gentle_bind (gentle_fileClose wfp)
  intro _
  cases rfd with
  | none => exact gentle_pure _
  | some fd =>
      apply gentle_bind (gentle_op rfl)
      intro self
      exact gentle_bind (gentle_op rfl) (fun _ => gentle_pure _)

theorem gentle_sysPipe (buffer : Bool) (memory : PipeMemory) :
    Gentle t (sysPipe buffer memory) := by
  apply gentle_ite _ (gentle_pure _)
  apply gentle_bind (gentle_pipeAlloc memory)
  intro files
  cases files with
  | none => exact gentle_pure _
  | some files =>
      apply gentle_bind (gentle_op rfl)
      intro rfd
      cases rfd with
      | none => exact gentle_sysPipeBad files.1 files.2 none
      | some rfd =>
          apply gentle_bind (gentle_op rfl)
          intro wfd
          cases wfd with
          | none => exact gentle_sysPipeBad files.1 files.2 (some rfd)
          | some wfd => exact gentle_pure _

/-!
# Tasks
-/

theorem gentle_closeFiles (fds : List Nat) : Gentle t (closeFiles fds) := by
  induction fds with
  | nil => exact gentle_pure ()
  | cons fd rest ih =>
      apply gentle_bind (gentle_op rfl)
      intro found
      cases found with
      | none => exact ih
      | some f =>
          apply gentle_bind (gentle_fileClose f)
          intro _
          apply gentle_bind (gentle_op rfl)
          intro self
          exact gentle_bind (gentle_op rfl) (fun _ => ih)

theorem gentle_taskExit : Gentle t taskExit := by
  apply gentle_bind (gentle_closeFiles _)
  intro _
  apply gentle_bind (gentle_op rfl)
  intro self
  apply gentle_bind (gentle_op rfl)
  intro cwd
  cases cwd with
  | none => exact gentle_bind (gentle_op rfl) (fun _ => gentle_pure _)
  | some cwd =>
      apply gentle_bind (gentle_op rfl)
      intro _
      apply gentle_bind (gentle_inodePut cwd)
      intro _
      apply gentle_bind gentle_logEndOp
      intro _
      apply gentle_bind (gentle_op rfl)
      intro _
      exact gentle_bind (gentle_op rfl) (fun _ => gentle_pure _)

theorem gentle_copyFiles (child : Nat) (fds : List Nat) : Gentle t (copyFiles child fds) := by
  induction fds with
  | nil => exact gentle_pure ()
  | cons fd rest ih =>
      apply gentle_bind (gentle_op rfl)
      intro found
      cases found with
      | none => exact ih
      | some f =>
          apply gentle_bind (gentle_op rfl)
          intro _
          exact gentle_bind (gentle_op rfl) (fun _ => ih)

/-!
# Ends of calls
-/

theorem gentle_createBad (ip dir : Nat) : Gentle t (createBad ip dir) :=
  gentle_bind (gentle_inodeUnlockput ip)
    (fun _ => gentle_bind (gentle_inodeUnlockput dir) (fun _ => gentle_pure _))

theorem gentle_createExisting (dir ip : Nat) (typ : InodeType) :
    Gentle t (createExisting dir ip typ) := by
  apply gentle_bind (gentle_inodeLock ip)
  intro _
  apply gentle_bind (gentle_op rfl)
  intro (inode : CachedInode)
  apply gentle_ite _ (gentle_createBad ip dir)
  apply gentle_bind (gentle_inodeUnlock ip)
  intro _
  exact gentle_bind (gentle_inodeUnlockput dir) (fun _ => gentle_pure _)

theorem gentle_unlinkBad (ip parent : Nat) : Gentle t (unlinkBad ip parent) :=
  gentle_bind (gentle_inodeUnlockput ip) (fun _ => gentle_unlockputEnd parent (-1))

end Gentle

/-!
# Calls that look a path up
-/

section Lookups

variable {home : Nat -> Option Nat} {rank : Nat -> Nat} {t : Nat} {s : State}

theorem logBegin_begins {v : State} {a : Unit} (h : Orderly home rank s) (hcwd : Grounded t s)
    (hrun : perform t Op.logBegin s = Except.ok (a, v)) :
    Orderly home rank v ∧ Grounded t v ∧ v.tree = s.tree ∧
      forall path, startOf t v path = startOf t s path := by
  rcases perform_beside (o := Op.logBegin) rfl hrun with ⟨hicache, htree⟩
  have htask : (v.tasks t).cwd = (s.tasks t).cwd := by
    rw [(logBegin_ok (done_ok hrun)).right, setTask_self]
  refine ⟨h.same hicache htree, ?_, htree, ?_⟩
  · intro i hi
    rw [hicache]
    exact hcwd i (htask.symm.trans hi)
  · intro path
    unfold startOf
    rw [htask, hicache]

theorem orderly_openExisting (h : Orderly home rank s) (hcwd : Grounded t s) (path : Name)
    (omode : UInt32) :
    Ends (perform t) (openExisting path omode) s (fun _ v => Orderly home rank v) := by
  apply ends_bind (h.pathLookup hcwd path).ends
  intro found v _ hv
  cases found with
  | none => exact ends_pure hv
  | some ip =>
      have hrest : Gentle t (op (Op.inodeLock ip) >>= fun _ => op (Op.inode ip) >>=
          fun inode : CachedInode =>
            if inode.diskInode.type = InodeType.directory ∧ omode ≠ 0 then
              inodeUnlockput ip >>= fun _ => pure none
            else op (Op.inodeUnlock ip) >>= fun _ => pure (some ip)) := by
        apply gentle_bind (gentle_inodeLock ip)
        intro _
        apply gentle_bind (gentle_op rfl)
        intro (inode : CachedInode)
        apply gentle_ite
        · exact gentle_bind (gentle_inodeUnlockput ip) (fun _ => gentle_pure _)
        · exact gentle_bind (gentle_inodeUnlock ip) (fun _ => gentle_pure _)
      exact hrest home rank v hv

theorem orderly_sysStat (h : Orderly home rank s) (hcwd : Grounded t s) (path : Option Name)
    (buffer : Bool) :
    Ends (perform t) (sysStat path buffer) s (fun _ v => Orderly home rank v) := by
  cases path with
  | none => exact ends_pure h
  | some path =>
      apply ends_ite
      · intro _
        apply ends_bind (h.pathLookup hcwd path).ends
        intro found v _ hv
        cases found with
        | none => exact ends_pure hv
        | some ip =>
            have hrest : Gentle t (op (Op.inodeLock ip) >>= fun _ => inodeUnlockput ip >>=
                fun _ => (pure 0 : Code Int)) :=
              gentle_bind (gentle_inodeLock ip)
                (fun _ => gentle_bind (gentle_inodeUnlockput ip) (fun _ => gentle_pure _))
            exact hrest home rank v hv
      · exact fun _ => ends_pure h

theorem orderly_procExecv (h : Orderly home rank s) (hcwd : Grounded t s) (path : Name)
    (result : ExecResult) :
    Ends (perform t) (procExecv path result) s (fun _ v => Orderly home rank v) := by
  apply ends_ite
  · intro _
    apply ends_op
    intro _ s1 hbegin
    rcases logBegin_begins h hcwd hbegin with ⟨h1, hcwd1, -⟩
    apply ends_bind (h1.pathLookup hcwd1 path).ends
    intro found v _ hv
    cases found with
    | none => exact gentle_end (-1) home rank v hv
    | some ip =>
        apply ends_bind (gentle_inodeLock ip home rank v hv)
        intro _ w _ hw
        apply ends_op
        intro (inode : CachedInode) x hinode
        cases hinode
        apply ends_ite
        · intro _
          have hrest : Gentle t (inodeUnlockput ip >>= fun _ => logEndOp >>= fun _ =>
              if result.header ∧ result.loaded ∧ result.stack then (pure 0 : Code Int)
              else pure (-1)) :=
            gentle_bind (gentle_inodeUnlockput ip) (fun _ => gentle_bind gentle_logEndOp
              (fun _ => gentle_ite (gentle_pure _) (gentle_pure _)))
          exact ends_inodeRead (hrest home rank _ hw)
        · exact fun _ => gentle_unlockputEnd ip (-1) home rank _ hw
  · exact fun _ => ends_pure h

theorem orderly_sysChdir (h : Orderly home rank s) (hcwd : Grounded t s) (path : Option Name) :
    Ends (perform t) (sysChdir path) s (fun _ v => Orderly home rank v) := by
  cases path with
  | none => exact ends_pure h
  | some path =>
      apply ends_op
      intro _ s1 hbegin
      rcases logBegin_begins h hcwd hbegin with ⟨h1, hcwd1, -⟩
      apply ends_bind (h1.pathLookup hcwd1 path).ends
      intro found v _ hv
      cases found with
      | none => exact gentle_end (-1) home rank v hv
      | some ip =>
          apply ends_op
          intro _ w hlock
          rcases hv.lock (done_ok hlock) with ⟨href, -, hw, heq⟩
          have hplace : 0 < (w.icache ip).ref := by
            rw [heq, setInode_self]
            exact href
          apply ends_op
          intro (inode : CachedInode) x hinode
          cases hinode
          apply ends_ite
          · exact fun _ => gentle_unlockputEnd ip (-1) home rank _ hw
          · intro _
            apply ends_op
            intro (cwd : Option Nat) x hrun
            cases hrun
            cases (w.tasks t).cwd with
            | none => exact gentle_fails _ _ home rank _ hw
            | some prev =>
                apply ends_op
                intro (self : Nat) x hself
                cases hself
                apply ends_op
                intro _ x hdup
                cases hdup
                have hrest : Gentle t (op (Op.setCwd t (some ip)) >>= fun _ =>
                    inodeUnlockput ip >>= fun _ => inodePut prev >>= fun _ => logEndOp >>=
                      fun _ => (pure 0 : Code Int)) := by
                  apply gentle_bind (gentle_op rfl)
                  intro _
                  exact gentle_bind (gentle_inodeUnlockput ip) (fun _ => gentle_putEnd prev 0)
                exact hrest home rank _ (hw.dup hplace)

/-- The references of the task's directory while a child is made. -/
theorem orderly_procFork (h : Orderly home rank s) (hcwd : Grounded t s)
    (hstate : (s.tasks t).state ≠ TaskState.unused) (child : Option Nat) (copied : Bool) :
    Ends (perform t) (procFork child copied) s (fun _ v => Orderly home rank v) := by
  cases child with
  | none => exact ends_pure h
  | some child =>
      apply ends_op
      intro _ s1 halloc
      rcases taskAlloc_ok (done_ok halloc) with ⟨hunused, hs1⟩
      have hne : t ≠ child := by
        intro heq
        rw [heq] at hstate
        exact hstate hunused
      have h1 : Orderly home rank s1 := by
        rcases perform_beside (o := Op.taskAlloc child) rfl halloc with ⟨hicache, htree⟩
        exact h.same hicache htree
      have hcwd1 : Grounded t s1 := by
        intro i hi
        rw [hs1, setTask_other hne] at hi
        rw [hs1]
        exact hcwd i hi
      apply ends_ite
      · intro _
        apply ends_bind (gentle_copyFiles child _ home rank s1 h1)
        intro _ s2 hcopy h2
        have hsame := (steady_ends (steady_copyFiles child (List.range nofile)) s1).run _ s2 hcopy
        apply ends_op
        intro (cwd : Option Nat) x hrun
        cases hrun
        cases hi : (s2.tasks t).cwd with
        | none => exact gentle_fails _ _ home rank _ h2
        | some i =>
            have href : 0 < (s2.icache i).ref := by
              rw [hsame.ref i]
              apply hcwd1 i
              rw [← hsame.cwd t]
              exact hi
            apply ends_op
            intro _ x hdup
            cases hdup
            have hrest : Gentle t (op (Op.setCwd child (some i)) >>= fun _ =>
                op (Op.setState child TaskState.ready) >>= fun _ =>
                  (pure (child : Int) : Code Int)) :=
              gentle_bind (gentle_op rfl)
                (fun _ => gentle_bind (gentle_op rfl) (fun _ => gentle_pure _))
            exact hrest home rank _ (h2.dup href)
      · intro _
        have hrest : Gentle t (op (Op.setState child TaskState.unused) >>= fun _ =>
            (pure (-1) : Code Int)) :=
          gentle_bind (gentle_op rfl) (fun _ => gentle_pure _)
        exact hrest home rank s1 h1

end Lookups

end Syscall
end Fs
end NicoOS
