import NicoOS.Fs.Syscall.Calls
import NicoOS.Lib.Nesting

/-!
# Log operations in the calls

Which operations write to the log, and that every call asks for them between its
own `log_begin_op` and `log_end_op`.
-/

namespace NicoOS
namespace Fs
namespace Syscall

open Lib
open Program (op)
open Inode (InodeType)

def Op.logs : Op -> Bool
  | Op.inodeUpdate _ | Op.itruncate _ | Op.clearType _ | Op.inodeAlloc _ | Op.balloc
  | Op.dirAdd _ _ | Op.dirUnlink _ _ | Op.inodeWrite _ => true
  | _ => false

/-- The calls that put inodes or read them outside log operations. -/
def Call.outside : Call -> Bool
  | Call.read _ _ _ => true
  | Call.stat _ _ => true
  | _ => false

/-- The operations that neither write to the log nor begin or end anything, nor decide
whether the log is written. -/
def Op.quiet : Op -> Bool
  | Op.logBegin | Op.logEnd | Op.putStart _ _ | Op.inodeUpdate _ | Op.itruncate _
  | Op.clearType _ | Op.inodeAlloc _ | Op.bmap _ _ | Op.balloc | Op.dirAdd _ _
  | Op.dirUnlink _ _ | Op.inodeWrite _ => false
  | _ => true

/-- The number of log operations that a task is in behind an operation. -/
def Op.depthAfter : Op -> Nat -> Nat
  | Op.logBegin, d => d + 1
  | Op.logEnd, d => d - 1
  | _, d => d

/--
Writing to the log, and ending a log operation, need one; so do `inode_put` and
`inode_read`, unless they may run `outside`.
-/
def Op.need (outside : Bool) : Op -> Nat -> Prop
  | Op.logEnd, d => 0 < d
  | Op.putStart _ _, d => outside = true ∨ 0 < d
  | Op.bmap _ _, d => outside = true ∨ 0 < d
  | o, d => o.logs = true -> 0 < d

/-- An assertion that fails has no answer, and outside a log operation `inode_put` is not
to free an inode and `inode_read` is not to meet a hole. -/
def Op.may : (o : Op) -> o.Answer -> Nat -> Prop
  | Op.assert holds _, _, _ => holds = true
  | Op.putStart _ _, frees, d => (frees : Bool) = true -> 0 < d
  | Op.bmap _ _, hole, d => (hole : Bool) = true -> 0 < d
  | _, _, _ => True

def nesting (outside : Bool) : Nesting Op Op.Answer :=
  { need := Op.need outside, may := Op.may, after := Op.depthAfter }

variable {outside : Bool} {C : Nat -> Prop}

abbrev Keeps {α : Type} (outside : Bool) (C : Nat -> Prop) (p : Code α) : Prop :=
  (nesting outside).Within C p

abbrev Closes {α : Type} (outside : Bool) (p : Code α) : Prop := (nesting outside).Closes p

/-- At these depths `inode_put` and `inode_read` may run. -/
def Puts (outside : Bool) (C : Nat -> Prop) : Prop := forall d, C d -> outside = true ∨ 0 < d

def Writes (C : Nat -> Prop) : Prop := forall d, C d -> 0 < d

theorem Writes.puts (h : Writes C) : Puts outside C := fun d hd => Or.inr (h d hd)

theorem writes_open : Writes Nesting.Open := fun _ hd => hd

theorem puts_open : Puts outside Nesting.Open := writes_open.puts

theorem depthAfter_eq {o : Op} (d : Nat) (h : o.quiet = true ∨ o.logs = true) :
    o.depthAfter d = d := by
  cases o with
  | logBegin => exact h.elim (fun hf => (nomatch hf)) (fun hf => (nomatch hf))
  | logEnd => exact h.elim (fun hf => (nomatch hf)) (fun hf => (nomatch hf))
  | _ => rfl

theorem quiet_not_logs {o : Op} (h : o.quiet = true) : o.logs = false := by
  cases o <;> first | rfl | cases h

theorem keeps_op {o : Op} (h : o.quiet = true) : Keeps outside C (op o) := by
  intro d _
  have hneed : (nesting outside).need o d := by
    cases o with
    | logEnd => cases h
    | putStart i o => cases h
    | bmap i blocks => cases h
    | _ =>
        intro hlogs
        rw [quiet_not_logs h] at hlogs
        cases hlogs
  have hruns := Nesting.runs_op hneed
  have hafter : (nesting outside).after o d = d := depthAfter_eq d (Or.inl h)
  rw [hafter] at hruns
  exact hruns

theorem keeps_log {o : Op} (hC : Writes C) (h : o.logs = true) : Keeps outside C (op o) := by
  intro d hd
  have hneed : (nesting outside).need o d := by
    cases o with
    | logEnd => cases h
    | putStart i o => cases h
    | bmap i blocks => cases h
    | _ => exact fun _ => hC d hd
  have hruns := Nesting.runs_op hneed
  have hafter : (nesting outside).after o d = d := depthAfter_eq d (Or.inr h)
  rw [hafter] at hruns
  exact hruns

theorem keeps_begin {α : Type} {f : Unit -> Code α} (h : forall a, Closes outside (f a)) :
    Keeps outside C (op Op.logBegin >>= f) :=
  Nesting.within_open (fun d => Nesting.runs_op (n := nesting outside) (o := Op.logBegin) (d := d)
    (fun hlogs => (nomatch hlogs))) h

theorem closes_logEndOp : Closes outside logEndOp := by
  intro d
  have hend : (nesting outside).Runs (op Op.logEnd : Code Bool) (d + 1) d :=
    Nesting.runs_op (n := nesting outside) (o := Op.logEnd) (d := d + 1) (Nat.succ_pos d)
  apply Nesting.runs_bind hend
  intro (last : Bool)
  exact Nesting.within_ite (C := fun _ => True) (keeps_op rfl) (Nesting.within_pure ()) d trivial

theorem closes_end (r : Int) : Closes outside (logEndOp >>= fun _ => (pure r : Code Int)) :=
  Nesting.closes_then closes_logEndOp (fun _ => Nesting.within_pure r)

theorem closes_after {p : Code Unit} (hp : Keeps outside Nesting.Open p) (r : Int) :
    Closes outside (p >>= fun _ => logEndOp >>= fun _ => (pure r : Code Int)) :=
  Nesting.closes_bind hp (fun _ => closes_end r)

theorem keeps_assert (holds : Bool) (stop : Stop) : Keeps outside C (assert holds stop) :=
  keeps_op rfl

theorem closes_abort {α : Type} (stop : Stop) (f : Unit -> Code α) :
    Closes outside (assert false stop >>= f) :=
  fun _ => And.intro (fun hlogs => (nomatch hlogs)) (fun _ hmay => (nomatch hmay))

theorem keeps_return {α : Type} {p : Code Unit} (hp : Keeps outside C p) (r : α) :
    Keeps outside C (p >>= fun _ => (pure r : Code α)) :=
  Nesting.within_bind hp (fun _ => Nesting.within_pure r)

/-!
# Inodes and directories
-/

theorem keeps_inodePut (hC : Puts outside C) (i : Nat) {o : Option Opening} :
    Keeps outside C (inodePut i o) := by
  intro d hd
  refine And.intro (hC d hd) ?_
  intro (frees : Bool) hmay
  cases frees with
  | false => exact keeps_op (C := C) rfl d hd
  | true =>
      have hopen : 0 < d := hmay rfl
      have hfree : Keeps outside Nesting.Open (op (Op.itruncate i) >>= fun _ =>
          op (Op.clearType i) >>= fun _ => (op (Op.putEnd i) : Code Unit)) := by
        apply Nesting.within_bind (keeps_log writes_open rfl)
        intro _
        apply Nesting.within_bind (keeps_log writes_open rfl)
        intro _
        exact keeps_op rfl
      exact hfree d hopen

theorem keeps_inodeUnlockput (hC : Puts outside C) (i : Nat) : Keeps outside C (inodeUnlockput i) :=
  Nesting.within_bind (keeps_op rfl) (fun _ => keeps_inodePut hC i)

/-- `inode_read` takes a block only where that is allowed. -/
theorem keeps_inodeRead (hC : Puts outside C) (i : Nat) (blocks : List Dirent -> List Nat) :
    Keeps outside C (inodeRead i blocks) := by
  intro d hd
  refine And.intro (hC d hd) ?_
  intro (hole : Bool) hmay
  cases hole with
  | false => exact Nesting.within_pure (C := C) () d hd
  | true => exact keeps_log (o := Op.balloc) writes_open rfl d (hmay rfl)

theorem keeps_dirLookup (hC : Puts outside C) (dir : Nat) (name : Name) :
    Keeps outside C (dirLookup dir name) := by
  apply Nesting.within_bind (keeps_op rfl)
  intro found
  apply Nesting.within_bind (keeps_inodeRead hC dir _)
  intro _
  cases found with
  | none => exact Nesting.within_pure none
  | some entry => exact Nesting.within_bind (keeps_op rfl) (fun ip => Nesting.within_pure _)

theorem keeps_dirLink (hC : Writes C) (dir : Nat) (e : Dirent) :
    Keeps outside C (dirLink dir e) := by
  apply Nesting.within_bind (keeps_dirLookup hC.puts dir e.name)
  intro found
  cases found with
  | none => exact keeps_log hC rfl
  | some entry => exact (keeps_return (keeps_inodePut hC.puts entry.2) false)

theorem keeps_dirMake (hC : Writes C) (parent dir : Nat) :
    Keeps outside C (dirMake parent dir) := by
  apply Nesting.within_bind (keeps_op rfl)
  intro ip
  apply Nesting.within_bind (keeps_dirLink hC dir _)
  intro (dot : Bool)
  apply Nesting.within_ite _ (Nesting.within_pure ())
  apply Nesting.within_bind (keeps_op rfl)
  intro pp
  apply Nesting.within_bind (keeps_dirLink hC dir _)
  intro (dotdot : Bool)
  apply Nesting.within_ite _ (Nesting.within_pure ())
  exact Nesting.within_bind (keeps_op rfl) (fun _ => keeps_log hC rfl)

theorem keeps_pathLookupFrom (hC : Puts outside C) (nameiparent : Bool) (fuel parent : Nat)
    (path name : Name) :
    Keeps outside C (pathLookupFrom nameiparent fuel parent path name) := by
  induction fuel generalizing parent path name with
  | zero => exact Nesting.within_pure none
  | succ fuel ih =>
      rw [pathLookupFrom]
      cases pathSkipelem path with
      | none =>
          apply Nesting.within_ite
          · exact keeps_return (keeps_inodePut hC parent) none
          · exact Nesting.within_pure _
      | some elem =>
          apply Nesting.within_bind (keeps_assert _ _)
          intro _
          apply Nesting.within_bind (keeps_op rfl)
          intro _
          apply Nesting.within_bind (keeps_op rfl)
          intro ip
          apply Nesting.within_ite
          · exact keeps_return (keeps_inodeUnlockput hC parent) none
          · apply Nesting.within_ite
            · exact keeps_return (keeps_op rfl) _
            · apply Nesting.within_bind (keeps_dirLookup hC parent _)
              intro found
              cases found with
              | none => exact keeps_return (keeps_inodeUnlockput hC parent) none
              | some entry =>
                  exact Nesting.within_bind (keeps_inodeUnlockput hC parent)
                    (fun _ => ih entry.2 _ _)

theorem keeps_startAtCwd : Keeps outside C startAtCwd := by
  apply Nesting.within_bind (keeps_op rfl)
  intro cwd
  cases cwd with
  | none => exact keeps_return (keeps_assert false _) 0
  | some i => exact keeps_return (keeps_op rfl) i

theorem keeps_pathStart (path : Name) : Keeps outside C (pathStart path) := by
  cases path with
  | nil => exact keeps_startAtCwd
  | cons c rest => exact Nesting.within_ite (keeps_op rfl) keeps_startAtCwd

theorem keeps_pathLookup0 (hC : Puts outside C) (nameiparent : Bool) (path : Name) :
    Keeps outside C (pathLookup0 nameiparent path) :=
  Nesting.within_bind (keeps_pathStart path)
    (fun parent => keeps_pathLookupFrom hC nameiparent _ parent path [])

theorem keeps_pathLookup (hC : Puts outside C) (path : Name) :
    Keeps outside C (pathLookup path) := by
  apply Nesting.within_bind (keeps_pathLookup0 hC false path)
  intro found
  cases found with
  | none => exact Nesting.within_pure none
  | some entry => exact Nesting.within_pure _

/-!
# Creating and opening files
-/

theorem keeps_createBad (hC : Puts outside C) (ip dir : Nat) :
    Keeps outside C (createBad ip dir) := by
  apply Nesting.within_bind (keeps_inodeUnlockput hC ip)
  intro _
  exact keeps_return (keeps_inodeUnlockput hC dir) none

theorem keeps_createExisting (hC : Puts outside C) (dir ip : Nat) (typ : InodeType) :
    Keeps outside C (createExisting dir ip typ) := by
  apply Nesting.within_bind (keeps_op rfl)
  intro _
  apply Nesting.within_bind (keeps_op rfl)
  intro inode
  apply Nesting.within_ite _ (keeps_createBad hC ip dir)
  apply Nesting.within_bind (keeps_op rfl)
  intro _
  exact keeps_return (keeps_inodeUnlockput hC dir) _

theorem keeps_createEntries (hC : Writes C) (dir ip : Nat) (typ : InodeType) :
    Keeps outside C (createEntries dir ip typ) :=
  Nesting.within_ite (keeps_dirMake hC dir ip) (Nesting.within_pure ())

theorem keeps_createNew (hC : Writes C) (dir : Nat) (name : Name) (typ : InodeType) :
    Keeps outside C (createNew dir name typ) := by
  apply Nesting.within_bind (keeps_log hC rfl)
  intro inum
  apply Nesting.within_bind (keeps_op rfl)
  intro ip
  apply Nesting.within_bind (keeps_op rfl)
  intro _
  apply Nesting.within_bind (keeps_op rfl)
  intro _
  apply Nesting.within_bind (keeps_log hC rfl)
  intro _
  apply Nesting.within_bind (keeps_dirLink hC dir _)
  intro (linked : Bool)
  apply Nesting.within_ite
  · apply Nesting.within_bind (keeps_createEntries hC dir ip typ)
    intro _
    apply Nesting.within_bind (keeps_op rfl)
    intro _
    exact (keeps_return (keeps_inodeUnlockput hC.puts dir) _)
  · exact Nesting.within_bind (keeps_op rfl) (fun _ => (keeps_createBad hC.puts ip dir))

theorem keeps_createFile (hC : Writes C) (path : Name) (typ : InodeType) :
    Keeps outside C (createFile path typ) := by
  apply Nesting.within_bind (keeps_pathLookup0 hC.puts true path)
  intro found
  cases found with
  | none => exact Nesting.within_pure none
  | some entry =>
      apply Nesting.within_ite
      · apply Nesting.within_bind (keeps_op rfl)
        intro _
        apply Nesting.within_bind (keeps_op rfl)
        intro parent
        apply Nesting.within_bind (keeps_assert _ _)
        intro _
        apply Nesting.within_bind (keeps_dirLookup hC.puts entry.1 entry.2)
        intro old
        cases old with
        | none => exact keeps_createNew hC entry.1 entry.2 typ
        | some old => exact (keeps_createExisting hC.puts entry.1 old.2 typ)
      · exact (keeps_return (keeps_inodePut hC.puts entry.1) none)

theorem keeps_openExisting (hC : Puts outside C) (path : Name) (omode : UInt32) :
    Keeps outside C (openExisting path omode) := by
  apply Nesting.within_bind (keeps_pathLookup hC path)
  intro found
  cases found with
  | none => exact Nesting.within_pure none
  | some ip =>
      apply Nesting.within_bind (keeps_op rfl)
      intro _
      apply Nesting.within_bind (keeps_op rfl)
      intro inode
      apply Nesting.within_ite
      · exact keeps_return (keeps_inodeUnlockput hC ip) none
      · exact keeps_return (keeps_op rfl) _

theorem keeps_fileClose (f : Nat) : Keeps outside C (fileClose f) := by
  apply Nesting.within_bind (keeps_op rfl)
  intro found
  cases found with
  | none => exact Nesting.within_pure ()
  | some file =>
      rcases file with ⟨typ, refs, writable, readable, inode, pipe, id⟩
      cases typ with
      | none => exact Nesting.within_pure ()
      | pipe => exact keeps_op rfl
      | inode =>
          apply keeps_begin
          intro _
          exact Nesting.closes_bind (keeps_inodePut puts_open inode) (fun _ => closes_logEndOp)

theorem closes_openFile (ip : Nat) (omode : UInt32) : Closes outside (openFile ip omode) := by
  apply Nesting.closes_bind (keeps_op rfl)
  intro found
  cases found with
  | none => exact closes_after (keeps_inodePut puts_open ip) _
  | some file =>
      apply Nesting.closes_bind (keeps_op rfl)
      intro fd
      cases fd with
      | none =>
          apply Nesting.closes_bind (keeps_fileClose file)
          intro _
          exact closes_after (keeps_inodePut puts_open ip) _
      | some fd =>
          apply Nesting.closes_then closes_logEndOp
          intro _
          exact keeps_return (keeps_op rfl) _

/-!
# Calls
-/

theorem keeps_sysOpen (path : Option Name) (omode : UInt32) :
    Keeps outside C (sysOpen path omode) := by
  cases path with
  | none => exact Nesting.within_pure _
  | some path =>
      apply keeps_begin
      intro _
      apply Nesting.closes_bind (Nesting.within_ite (keeps_createFile writes_open path _)
        (keeps_openExisting puts_open path omode))
      intro found
      cases found with
      | none => exact closes_end _
      | some ip => exact closes_openFile ip omode

theorem keeps_sysClose (fd : Int) : Keeps outside C (sysClose fd) := by
  apply Nesting.within_bind (keeps_op rfl)
  intro found
  cases found with
  | none => exact Nesting.within_pure _
  | some f =>
      apply Nesting.within_bind (keeps_op rfl)
      intro t
      apply Nesting.within_bind (keeps_op rfl)
      intro _
      exact keeps_return (keeps_fileClose f) _

theorem keeps_sysDup (fd : Int) : Keeps outside C (sysDup fd) := by
  apply Nesting.within_bind (keeps_op rfl)
  intro found
  cases found with
  | none => exact Nesting.within_pure _
  | some f =>
      apply Nesting.within_bind (keeps_op rfl)
      intro new
      cases new with
      | none => exact Nesting.within_pure _
      | some fd => exact keeps_return (keeps_op rfl) _

theorem keeps_sysMkdir (path : Option Name) : Keeps outside C (sysMkdir path) := by
  cases path with
  | none => exact Nesting.within_pure _
  | some path =>
      apply keeps_begin
      intro _
      apply Nesting.closes_bind (keeps_createFile writes_open path _)
      intro found
      cases found with
      | none => exact closes_end _
      | some ip => exact closes_after (keeps_inodePut puts_open ip) _

theorem closes_unlinkBad (ip parent : Nat) : Closes outside (unlinkBad ip parent) :=
  Nesting.closes_bind (keeps_inodeUnlockput puts_open ip)
    (fun _ => closes_after (keeps_inodeUnlockput puts_open parent) _)

theorem keeps_dropDotdot (hC : Writes C) (parent : Nat) (isDir : Bool) :
    Keeps outside C (dropDotdot parent isDir) := by
  apply Nesting.within_ite _ (Nesting.within_pure ())
  apply Nesting.within_bind (keeps_op rfl)
  intro pp
  exact Nesting.within_bind (keeps_op rfl) (fun _ => keeps_log hC rfl)

theorem keeps_unlinkAllowed (hC : Puts outside C) (ip : Nat) (isDir : Bool) :
    Keeps outside C (unlinkAllowed ip isDir) := by
  apply Nesting.within_ite _ (Nesting.within_pure true)
  apply Nesting.within_bind (keeps_op rfl)
  intro (empty : Bool)
  exact keeps_return (keeps_inodeRead hC ip _) empty

theorem closes_unlinkEntry (parent ip k : Nat) : Closes outside (unlinkEntry parent ip k) := by
  apply Nesting.closes_bind (keeps_op rfl)
  intro _
  apply Nesting.closes_bind (keeps_op rfl)
  intro inode
  apply Nesting.closes_bind (keeps_assert _ _)
  intro _
  apply Nesting.closes_bind (keeps_unlinkAllowed puts_open ip _)
  intro (empty : Bool)
  apply Nesting.closes_ite _ (closes_unlinkBad ip parent)
  apply Nesting.closes_bind (keeps_log writes_open rfl)
  intro (unlinked : Bool)
  apply Nesting.closes_ite _ (closes_unlinkBad ip parent)
  apply Nesting.closes_bind (keeps_dropDotdot writes_open parent _)
  intro _
  apply Nesting.closes_bind (keeps_op rfl)
  intro _
  apply Nesting.closes_bind (keeps_log writes_open rfl)
  intro _
  exact Nesting.closes_bind (keeps_inodeUnlockput puts_open ip)
    (fun _ => closes_after (keeps_inodeUnlockput puts_open parent) 0)

theorem keeps_sysUnlink (path : Option Name) : Keeps outside C (sysUnlink path) := by
  cases path with
  | none => exact Nesting.within_pure _
  | some path =>
      apply keeps_begin
      intro _
      apply Nesting.closes_bind (keeps_pathLookup0 puts_open true path)
      intro found
      cases found with
      | none => exact closes_end _
      | some entry =>
          apply Nesting.closes_ite (closes_end _)
          apply Nesting.closes_bind (keeps_op rfl)
          intro _
          apply Nesting.closes_bind (keeps_dirLookup puts_open entry.1 entry.2)
          intro old
          cases old with
          | none => exact closes_after (keeps_inodeUnlockput puts_open entry.1) _
          | some old => exact closes_unlinkEntry entry.1 old.2 old.1

theorem keeps_sysRead (hC : Puts outside C) (fd : Int) (blocks : List Nat) (answer : Int) :
    Keeps outside C (sysRead fd blocks answer) := by
  apply Nesting.within_bind (keeps_op rfl)
  intro found
  cases found with
  | none => exact Nesting.within_pure _
  | some f =>
      apply Nesting.within_bind (keeps_op rfl)
      intro (file : File)
      apply Nesting.within_ite _ (Nesting.within_pure _)
      cases file.type with
      | none => exact keeps_return (keeps_assert _ _) _
      | pipe => exact Nesting.within_pure _
      | inode =>
          apply Nesting.within_bind (keeps_op rfl)
          intro _
          apply Nesting.within_bind (keeps_inodeRead hC file.inode _)
          intro _
          exact keeps_return (keeps_op rfl) _

theorem keeps_writeChunks (ip : Nat) (chunks : List Bool) :
    Keeps outside (fun _ => True) (writeChunks ip chunks) := by
  induction chunks with
  | nil => exact Nesting.within_pure _
  | cons accepted rest ih =>
      apply keeps_begin
      intro _
      apply Nesting.closes_bind (keeps_op rfl)
      intro _
      apply Nesting.closes_ite
      · apply Nesting.closes_bind (keeps_log writes_open rfl)
        intro _
        apply Nesting.closes_bind (keeps_op rfl)
        intro _
        exact Nesting.closes_then closes_logEndOp (fun _ => ih)
      · exact closes_after (keeps_op rfl) _

theorem keeps_sysWrite (fd : Int) (chunks : List Bool) (answer : Int) :
    Keeps outside C (sysWrite fd chunks answer) := by
  apply Nesting.within_bind (keeps_op rfl)
  intro found
  cases found with
  | none => exact Nesting.within_pure _
  | some f =>
      apply Nesting.within_bind (keeps_op rfl)
      intro (file : File)
      apply Nesting.within_ite _ (Nesting.within_pure _)
      cases file.type with
      | none => exact keeps_return (keeps_assert _ _) _
      | pipe => exact Nesting.within_pure _
      | inode => exact (keeps_writeChunks file.inode chunks).any

theorem keeps_sysStat (hC : Puts outside C) (path : Option Name) (buffer : Bool) :
    Keeps outside C (sysStat path buffer) := by
  cases path with
  | none => exact Nesting.within_pure _
  | some path =>
      apply Nesting.within_ite _ (Nesting.within_pure _)
      apply Nesting.within_bind (keeps_pathLookup hC path)
      intro found
      cases found with
      | none => exact Nesting.within_pure _
      | some ip =>
          apply Nesting.within_bind (keeps_op rfl)
          intro _
          exact keeps_return (keeps_inodeUnlockput hC ip) _

theorem keeps_sysPipe (buffer : Bool) (memory : PipeMemory) :
    Keeps outside C (sysPipe buffer memory) := by
  have hbad : forall rfp wfp, Keeps outside C (pipeBad rfp wfp) := by
    intro rfp wfp
    have hclose : forall f, Keeps outside C (closeIfAny f) := by
      intro f
      cases f with
      | none => exact Nesting.within_pure ()
      | some f => exact keeps_fileClose f
    apply Nesting.within_bind (hclose rfp)
    intro _
    exact keeps_return (hclose wfp) none
  have halloc : Keeps outside C (pipeAlloc memory) := by
    apply Nesting.within_bind (keeps_op rfl)
    intro rfp
    cases rfp with
    | none => exact hbad none none
    | some rfp =>
        apply Nesting.within_bind (keeps_op rfl)
        intro wfp
        cases wfp with
        | none => exact hbad _ none
        | some wfp =>
            apply Nesting.within_ite _ (hbad _ _)
            apply Nesting.within_bind (keeps_op rfl)
            intro p
            apply Nesting.within_bind (keeps_op rfl)
            intro _
            exact keeps_return (keeps_op rfl) _
  have hsysBad : forall rfp wfp rfd, Keeps outside C (sysPipeBad rfp wfp rfd) := by
    intro rfp wfp rfd
    apply Nesting.within_bind (keeps_fileClose rfp)
    intro _
    apply Nesting.within_bind (keeps_fileClose wfp)
    intro _
    cases rfd with
    | none => exact Nesting.within_pure _
    | some fd =>
        apply Nesting.within_bind (keeps_op rfl)
        intro t
        exact keeps_return (keeps_op rfl) _
  apply Nesting.within_ite _ (Nesting.within_pure _)
  apply Nesting.within_bind halloc
  intro found
  cases found with
  | none => exact Nesting.within_pure _
  | some files =>
      apply Nesting.within_bind (keeps_op rfl)
      intro rfd
      cases rfd with
      | none => exact hsysBad _ _ none
      | some rfd =>
          apply Nesting.within_bind (keeps_op rfl)
          intro wfd
          cases wfd with
          | none => exact hsysBad _ _ _
          | some wfd => exact Nesting.within_pure _

theorem keeps_sysChdir (path : Option Name) : Keeps outside C (sysChdir path) := by
  cases path with
  | none => exact Nesting.within_pure _
  | some path =>
      apply keeps_begin
      intro _
      apply Nesting.closes_bind (keeps_pathLookup puts_open path)
      intro found
      cases found with
      | none => exact closes_end _
      | some ip =>
          apply Nesting.closes_bind (keeps_op rfl)
          intro _
          apply Nesting.closes_bind (keeps_op rfl)
          intro inode
          apply Nesting.closes_ite (closes_after (keeps_inodeUnlockput puts_open ip) _)
          apply Nesting.closes_bind (keeps_op rfl)
          intro cwd
          cases cwd with
          | none => exact closes_abort _ _
          | some prev =>
              apply Nesting.closes_bind (keeps_op rfl)
              intro t
              apply Nesting.closes_bind (keeps_op rfl)
              intro _
              apply Nesting.closes_bind (keeps_op rfl)
              intro _
              exact Nesting.closes_bind (keeps_inodeUnlockput puts_open ip)
                (fun _ => closes_after (keeps_inodePut puts_open prev) _)

theorem keeps_procExecv (path : Name) (result : ExecResult) :
    Keeps outside C (procExecv path result) := by
  apply Nesting.within_ite _ (Nesting.within_pure _)
  apply keeps_begin
  intro _
  apply Nesting.closes_bind (keeps_pathLookup puts_open path)
  intro found
  cases found with
  | none => exact closes_end _
  | some ip =>
      apply Nesting.closes_bind (keeps_op rfl)
      intro _
      apply Nesting.closes_bind (keeps_op rfl)
      intro inode
      apply Nesting.closes_ite _ (closes_after (keeps_inodeUnlockput puts_open ip) _)
      apply Nesting.closes_bind (keeps_inodeRead puts_open ip _)
      intro _
      apply Nesting.closes_bind (keeps_inodeUnlockput puts_open ip)
      intro _
      apply Nesting.closes_then closes_logEndOp
      intro _
      exact Nesting.within_ite (Nesting.within_pure _) (Nesting.within_pure _)

theorem keeps_copyFiles (child : Nat) (fds : List Nat) : Keeps outside C (copyFiles child fds) := by
  induction fds with
  | nil => exact Nesting.within_pure ()
  | cons fd rest ih =>
      apply Nesting.within_bind (keeps_op rfl)
      intro found
      cases found with
      | none => exact ih
      | some f =>
          apply Nesting.within_bind (keeps_op rfl)
          intro _
          exact Nesting.within_bind (keeps_op rfl) (fun _ => ih)

theorem keeps_procFork (child : Option Nat) (copied : Bool) :
    Keeps outside C (procFork child copied) := by
  cases child with
  | none => exact Nesting.within_pure _
  | some child =>
      apply Nesting.within_bind (keeps_op rfl)
      intro _
      apply Nesting.within_ite _ (keeps_return (keeps_op rfl) _)
      apply Nesting.within_bind (keeps_copyFiles child _)
      intro _
      apply Nesting.within_bind (keeps_op rfl)
      intro cwd
      cases cwd with
      | none => exact keeps_return (keeps_assert _ _) _
      | some cwd =>
          apply Nesting.within_bind (keeps_op rfl)
          intro _
          apply Nesting.within_bind (keeps_op rfl)
          intro _
          exact keeps_return (keeps_op rfl) _

theorem keeps_closeFiles (fds : List Nat) : Keeps outside C (closeFiles fds) := by
  induction fds with
  | nil => exact Nesting.within_pure ()
  | cons fd rest ih =>
      apply Nesting.within_bind (keeps_op rfl)
      intro found
      cases found with
      | none => exact ih
      | some f =>
          apply Nesting.within_bind (keeps_fileClose f)
          intro _
          apply Nesting.within_bind (keeps_op rfl)
          intro t
          exact Nesting.within_bind (keeps_op rfl) (fun _ => ih)

theorem keeps_taskExit : Keeps outside C taskExit := by
  apply Nesting.within_bind (keeps_closeFiles _)
  intro _
  apply Nesting.within_bind (keeps_op rfl)
  intro t
  apply Nesting.within_bind (keeps_op rfl)
  intro cwd
  cases cwd with
  | none => exact keeps_return (keeps_op rfl) _
  | some cwd =>
      apply keeps_begin
      intro _
      apply Nesting.closes_bind (keeps_inodePut puts_open cwd)
      intro _
      apply Nesting.closes_then closes_logEndOp
      intro _
      apply Nesting.within_bind (keeps_op rfl)
      intro _
      exact keeps_return (keeps_op rfl) _

/-- Every call keeps the depth and writes to the log inside a log operation; all but
`sys_read` and `sys_stat` also put and read inodes inside one only. -/
theorem keeps_call (call : Call) (hC : call.outside = true -> outside = true) :
    Keeps outside C call.code := by
  cases call with
  | openFile path omode => exact keeps_sysOpen path omode
  | close fd => exact keeps_sysClose fd
  | dup fd => exact keeps_sysDup fd
  | mkdir path => exact keeps_sysMkdir path
  | unlink path => exact keeps_sysUnlink path
  | read fd blocks answer => exact keeps_sysRead (fun _ _ => Or.inl (hC rfl)) fd blocks answer
  | write fd chunks answer => exact keeps_sysWrite fd chunks answer
  | stat path buffer => exact keeps_sysStat (fun _ _ => Or.inl (hC rfl)) path buffer
  | chdir path => exact keeps_sysChdir path
  | pipe buffer memory => exact keeps_sysPipe buffer memory
  | execv path result => exact keeps_procExecv path result
  | fork child copied => exact keeps_procFork child copied
  | exit => exact keeps_taskExit

end Syscall
end Fs
end NicoOS
