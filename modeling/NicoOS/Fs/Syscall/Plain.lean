import NicoOS.Fs.Syscall.Effects
import NicoOS.Fs.Syscall.Paths

/-!
# Programs that leave files and descriptors alone

Path lookups, `create_file` and the puts of inodes do not touch the file table, the
descriptors of a task or its state.
-/

namespace NicoOS
namespace Fs
namespace Syscall

open Lib
open Program (op Ends Only Yields)
open Inode (InodeType)

/-!
# Operations
-/

structure SameTable (s s' : State) : Prop where
  files : s'.files = s.files
  state : forall t, (s'.tasks t).state = (s.tasks t).state
  ofiles : forall t, (s'.tasks t).ofiles = (s.tasks t).ofiles
  openings : s'.openings = s.openings
  attached : s'.attached = s.attached
  released : s'.released = s.released

def Op.plain : Op -> Bool
  | Op.fileAlloc => false
  | Op.fileDrop _ => false
  | Op.putStart _ (some _) => false
  | Op.pipeClose _ _ _ => false
  | Op.fileDup _ => false
  | Op.openInode _ _ _ _ => false
  | Op.openPipe _ _ _ => false
  | Op.fdAlloc _ => false
  | Op.setDescriptor _ _ _ => false
  | Op.taskAlloc _ => false
  | Op.setState _ _ => false
  | _ => true

namespace SameTable

theorem refl (s : State) : SameTable s s :=
  ⟨rfl, fun _ => rfl, fun _ => rfl, rfl, rfl, rfl⟩

theorem trans {r s t : State} (hrs : SameTable r s) (hst : SameTable s t) : SameTable r t where
  files := hst.files.trans hrs.files
  state u := (hst.state u).trans (hrs.state u)
  ofiles u := (hst.ofiles u).trans (hrs.ofiles u)
  openings := hst.openings.trans hrs.openings
  attached := hst.attached.trans hrs.attached
  released := hst.released.trans hrs.released

theorem of_tasks {s s' : State} (htasks : s'.tasks = s.tasks) (hfiles : s'.files = s.files)
    (hopenings : s'.openings = s.openings) (hattached : s'.attached = s.attached)
    (hreleased : s'.released = s.released) : SameTable s s' where
  files := hfiles
  state t := by rw [htasks]
  ofiles t := by rw [htasks]
  openings := hopenings
  attached := hattached
  released := hreleased

theorem setInode (s : State) (i : Nat) (ip : CachedInode) : SameTable s (s.setInode i ip) :=
  of_tasks rfl rfl rfl rfl rfl

theorem setDinode (s : State) (inum : Nat) (d : Dinode) : SameTable s (s.setDinode inum d) :=
  of_tasks rfl rfl rfl rfl rfl

theorem setData (s : State) (inum : Nat) (entries : List Dirent) :
    SameTable s (s.setData inum entries) :=
  of_tasks rfl rfl rfl rfl rfl

theorem clear (s : State) (inum : Nat) : SameTable s (s.clear inum) :=
  of_tasks rfl rfl rfl rfl rfl

theorem setLog (s : State) (outstanding : Nat) (committing : Bool) :
    SameTable s (s.setLog outstanding committing) :=
  of_tasks rfl rfl rfl rfl rfl

theorem setTask {s : State} {t : Nat} {task : Task} (hstate : task.state = (s.tasks t).state)
    (hofiles : task.ofiles = (s.tasks t).ofiles) : SameTable s (s.setTask t task) where
  files := rfl
  state u := by
    by_cases h : u = t
    · rw [setTask_tasks, if_pos h, hstate, h]
    · rw [setTask_other h]
  ofiles u := by
    by_cases h : u = t
    · rw [setTask_tasks, if_pos h, hofiles, h]
    · rw [setTask_other h]
  openings := rfl
  attached := rfl
  released := rfl

end SameTable

theorem writeDirent_sameTable {i k : Nat} {e : Dirent} {stored : Bool} {s s' : State}
    (h : writeDirent i k e s = Except.ok (stored, s')) : SameTable s s' := by
  rcases writeDirent_ok h with ⟨-, hs, -⟩ | ⟨-, ⟨-, hs⟩ | ⟨-, hs⟩⟩
  · rw [hs]
    exact SameTable.refl s
  · rw [hs]
    exact SameTable.setData s _ _
  · rw [hs]
    exact SameTable.setData s _ _

theorem perform_sameTable {t : Nat} {o : Op} {s s' : State} {a : o.Answer}
    (hplain : o.plain = true) (h : perform t o s = Except.ok (a, s')) : SameTable s s' := by
  cases o with
  | assert holds stop =>
      cases holds with
      | true =>
          cases h
          exact SameTable.refl s
      | false => cases h
  | logBegin =>
      rw [(logBegin_ok (done_ok h)).right]
      apply SameTable.trans (SameTable.setLog s _ _)
      apply SameTable.setTask
      · rfl
      · rfl
  | logEnd =>
      rw [(logEnd_ok h).right.right]
      apply SameTable.trans (SameTable.setLog s _ _)
      apply SameTable.setTask
      · rfl
      · rfl
  | commitEnd =>
      cases h
      exact SameTable.setLog s _ _
  | iget inum =>
      rcases iget_ok h with ⟨-, -, hs⟩ | ⟨-, -, hs⟩
      · rw [hs]
        exact SameTable.setInode s _ _
      · rw [hs]
        exact SameTable.setInode s _ _
  | inodeDup i =>
      cases h
      exact SameTable.setInode s _ _
  | inodeLock i =>
      rcases inodeLock_ok (done_ok h) with ⟨-, -, ⟨-, hs⟩ | ⟨-, -, hs⟩⟩
      · rw [hs]
        exact SameTable.setInode s _ _
      · rw [hs]
        exact SameTable.setInode s _ _
  | inodeUnlock i =>
      rw [inodeUnlock_ok (done_ok h)]
      exact SameTable.setInode s _ _
  | inode i =>
      cases h
      exact SameTable.refl s
  | setNlink i nlink =>
      cases h
      exact SameTable.setInode s _ _
  | inodeUpdate i =>
      rw [inodeUpdate_ok (done_ok h)]
      exact SameTable.setDinode s _ _
  | putStart i o =>
      cases o with
      | none =>
          rw [(putStart_ok h).right.right]
          exact SameTable.setInode s _ _
      | some o => cases hplain
  | itruncate i =>
      rw [itruncate_ok (done_ok h)]
      exact (SameTable.setDinode s _ _).trans (SameTable.clear _ _)
  | clearType i =>
      rw [clearType_ok (done_ok h)]
      exact (SameTable.setInode s _ _).trans (SameTable.setDinode _ _ _)
  | putEnd i =>
      cases h
      exact SameTable.setInode s _ _
  | inodeAlloc typ =>
      rw [(inodeAlloc_ok h).right.right.right]
      exact (SameTable.setDinode s _ _).trans (SameTable.clear _ _)
  | bmap i blocks =>
      cases h
      exact SameTable.refl s
  | balloc =>
      rw [(logWrite_ok (done_ok h)).right]
      exact SameTable.refl s
  | dirFind i name =>
      rw [(dirFind_ok h).right.right.right]
      exact SameTable.refl s
  | dirAdd i e => exact writeDirent_sameTable (dirAdd_ok h)
  | dirUnlink i k =>
      rcases dirUnlink_ok h with ⟨e, -, -, -, hs⟩
      rw [hs]
      exact SameTable.setData s _ _
  | dirIsempty i =>
      rw [(dirIsempty_ok h).right]
      exact SameTable.refl s
  | inodeWrite i =>
      rw [(logWrite_ok (done_ok h)).right]
      exact SameTable.refl s
  | file f =>
      cases h
      exact SameTable.refl s
  | newPipe =>
      cases h
      exact SameTable.of_tasks rfl rfl rfl rfl rfl
  | pipeClose p writable o => cases hplain
  | fetchFile fd =>
      cases h
      exact SameTable.refl s
  | cwd =>
      cases h
      exact SameTable.refl s
  | setCwd u cwd =>
      cases h
      apply SameTable.setTask
      · rfl
      · rfl
  | self =>
      cases h
      exact SameTable.refl s
  | fileAlloc => cases hplain
  | fileDrop f => cases hplain
  | fileDup f => cases hplain
  | openInode f i readable writable => cases hplain
  | openPipe f p writable => cases hplain
  | fdAlloc f => cases hplain
  | setDescriptor u fd f => cases hplain
  | taskAlloc child => cases hplain
  | setState u state => cases hplain

/-!
# Programs
-/

abbrev Plain {α : Type} (p : Code α) : Prop := Only (fun o => o.plain = true) p

theorem plain_ends {α : Type} {t : Nat} {p : Code α} (h : Plain p) (s : State) :
    Ends (perform t) p s (fun _ s' => SameTable s s') :=
  Program.only_exec SameTable.refl (fun _ _ _ => SameTable.trans)
    (fun _ _ _ _ hop hrun => perform_sameTable hop hrun) h s

theorem plain_op {o : Op} (h : o.plain = true) : Plain (op o) := Program.only_op h

/-!
# The names that are looked up

Every name that a program takes to `dir_lookup` or into a buffer meets `N`.
-/

def Op.Named (N : Name -> Prop) (o : Op) : Prop :=
  o.plain = true ∧
    match o with
    | Op.dirFind _ name => N name
    | Op.assert holds stop => stop = Stop.overrun ->
        exists name, N name ∧ holds = decide (name.length < direntNameLength)
    | _ => True

abbrev Named (N : Name -> Prop) {α : Type} (p : Code α) : Prop := Only (Op.Named N) p

theorem plain_of_named {α : Type} {N : Name -> Prop} {p : Code α} (h : Named N p) : Plain p :=
  Program.only_mono (fun _ ho => ho.left) h

/-- The name that a lookup of the parent stores is a component of the path. -/
theorem yields_walk (parent : Nat) (names : List Name) (name : Name) :
    Yields (fun found => forall entry, found = some entry -> entry.2 ∈ names)
      (walk true parent names name) := by
  induction names generalizing parent name with
  | nil =>
      apply Program.yields_bind (Program.yields_any _)
      intro _ _ entry hentry
      cases hentry
  | cons first rest ih =>
      have hnone : Yields (fun found => forall entry, found = some entry ->
          entry.2 ∈ first :: rest) (inodeUnlockput parent >>= fun _ =>
            (pure none : Code (Option (Nat × Name)))) := by
        apply Program.yields_bind (Program.yields_any _)
        intro _ _ entry hentry
        cases hentry
      apply Program.yields_bind (Program.yields_any _)
      intro _ _
      apply Program.yields_bind (Program.yields_any _)
      intro _ _
      apply Program.yields_bind (Program.yields_any _)
      intro ip _
      apply Program.yields_ite hnone
      apply Program.yields_ite
      · apply Program.yields_bind (Program.yields_any _)
        intro _ _ entry hentry
        cases hentry
        exact List.mem_cons_self
      · apply Program.yields_bind (Program.yields_any _)
        intro found _
        cases found with
        | none => exact hnone
        | some entry =>
            apply Program.yields_bind (Program.yields_any _)
            intro _ _
            refine Program.yields_mono ?_ (ih entry.2 first)
            intro found' hfound entry' hentry
            exact List.mem_cons_of_mem first (hfound entry' hentry)

theorem yields_pathLookupParent (path : Name) :
    Yields (fun found => forall entry, found = some entry -> entry.2 ∈ components path)
      (pathLookupParent path) := by
  unfold pathLookupParent
  rw [pathLookup0_eq]
  exact Program.yields_bind (Program.yields_any _)
    (fun parent _ => yields_walk parent (components path) [])

section Named

variable {N : Name -> Prop}

theorem named_op {o : Op} (h : Op.Named N o) : Named N (op o) := Program.only_op h

theorem named_fail {p : Code Unit} (hp : Named N p) (r : Int) :
    Named N (p >>= fun _ => (pure r : Code Int)) :=
  Program.only_bind hp (fun _ => Program.only_pure r)

theorem named_logEndOp : Named N logEndOp := by
  apply Program.only_bind (named_op ⟨rfl, trivial⟩)
  intro (last : Bool)
  exact Program.only_ite (named_op ⟨rfl, trivial⟩) (Program.only_pure ())

theorem named_inodePut (i : Nat) : Named N (inodePut i) := by
  apply Program.only_bind (named_op ⟨rfl, trivial⟩)
  intro (frees : Bool)
  apply Program.only_ite
  · apply Program.only_bind (named_op ⟨rfl, trivial⟩)
    intro _
    apply Program.only_bind (named_op ⟨rfl, trivial⟩)
    intro _
    exact named_op ⟨rfl, trivial⟩
  · exact named_op ⟨rfl, trivial⟩

theorem named_inodeUnlockput (i : Nat) : Named N (inodeUnlockput i) :=
  Program.only_bind (named_op ⟨rfl, trivial⟩) (fun _ => named_inodePut i)

theorem named_end (r : Int) : Named N (logEndOp >>= fun _ => (pure r : Code Int)) :=
  named_fail named_logEndOp r

theorem named_unlockputEnd (ip : Nat) (r : Int) :
    Named N (inodeUnlockput ip >>= fun _ => logEndOp >>= fun _ => (pure r : Code Int)) :=
  Program.only_bind (named_inodeUnlockput ip) (fun _ => named_end r)

theorem named_inodeRead (i : Nat) (blocks : List Dirent -> List Nat) :
    Named N (inodeRead i blocks) := by
  apply Program.only_bind (named_op ⟨rfl, trivial⟩)
  intro (hole : Bool)
  exact Program.only_ite (named_op ⟨rfl, trivial⟩) (Program.only_pure ())

theorem named_dirLookup (dir : Nat) {name : Name} (hname : N name) :
    Named N (dirLookup dir name) := by
  apply Program.only_bind (named_op ⟨rfl, hname⟩)
  intro found
  apply Program.only_bind (named_inodeRead dir _)
  intro _
  cases found with
  | none => exact Program.only_pure none
  | some entry =>
      exact Program.only_bind (named_op ⟨rfl, trivial⟩) (fun ip => Program.only_pure _)

theorem named_dirLink (dir : Nat) {e : Dirent} (hname : N e.name) :
    Named N (dirLink dir e) := by
  apply Program.only_bind (named_dirLookup dir hname)
  intro found
  cases found with
  | none => exact named_op ⟨rfl, trivial⟩
  | some entry => exact Program.only_bind (named_inodePut entry.2) (fun _ => Program.only_pure _)

theorem named_dirMake (parent dir : Nat) (hdot : N dotName) (hdotdot : N dotdotName) :
    Named N (dirMake parent dir) := by
  apply Program.only_bind (named_op ⟨rfl, trivial⟩)
  intro ip
  apply Program.only_bind (named_dirLink dir hdot)
  intro (dot : Bool)
  apply Program.only_ite _ (Program.only_pure ())
  apply Program.only_bind (named_op ⟨rfl, trivial⟩)
  intro pp
  apply Program.only_bind (named_dirLink dir hdotdot)
  intro (dotdot : Bool)
  apply Program.only_ite _ (Program.only_pure ())
  exact Program.only_bind (named_op ⟨rfl, trivial⟩) (fun _ => named_op ⟨rfl, trivial⟩)

theorem named_walk (nameiparent : Bool) (parent : Nat) (names : List Name) (name : Name)
    (hnames : forall name, name ∈ names -> N name) :
    Named N (walk nameiparent parent names name) := by
  induction names generalizing parent name with
  | nil =>
      apply Program.only_ite
      · exact Program.only_bind (named_inodePut parent) (fun _ => Program.only_pure none)
      · exact Program.only_pure _
  | cons first rest ih =>
      have hfirst := hnames first List.mem_cons_self
      have hnone := Program.only_bind (named_inodeUnlockput (N := N) parent)
        (fun _ => Program.only_pure (none : Option (Nat × Name)))
      apply Program.only_bind (named_op ⟨rfl, fun _ => ⟨first, hfirst, rfl⟩⟩)
      intro _
      apply Program.only_bind (named_op ⟨rfl, trivial⟩)
      intro _
      apply Program.only_bind (named_op ⟨rfl, trivial⟩)
      intro ip
      apply Program.only_ite hnone
      apply Program.only_ite
      · exact Program.only_bind (named_op ⟨rfl, trivial⟩) (fun _ => Program.only_pure _)
      · apply Program.only_bind (named_dirLookup parent hfirst)
        intro found
        cases found with
        | none => exact hnone
        | some entry =>
            apply Program.only_bind (named_inodeUnlockput parent)
            intro _
            exact ih entry.2 first (fun name hmem => hnames name (List.mem_cons_of_mem first hmem))

theorem named_startAtCwd : Named N startAtCwd := by
  apply Program.only_bind (named_op ⟨rfl, trivial⟩)
  intro cwd
  cases cwd with
  | none =>
      refine Program.only_bind (named_op ⟨rfl, ?_⟩) (fun _ => Program.only_pure 0)
      intro hstop
      cases hstop
  | some i => exact Program.only_bind (named_op ⟨rfl, trivial⟩) (fun _ => Program.only_pure i)

theorem named_pathStart (path : Name) : Named N (pathStart path) := by
  cases path with
  | nil => exact named_startAtCwd
  | cons c rest => exact Program.only_ite (named_op ⟨rfl, trivial⟩) named_startAtCwd

theorem named_pathLookup0 (nameiparent : Bool) {path : Name}
    (hnames : forall name, name ∈ components path -> N name) :
    Named N (pathLookup0 nameiparent path) := by
  rw [pathLookup0_eq]
  exact Program.only_bind (named_pathStart path)
    (fun parent => named_walk nameiparent parent _ [] hnames)

theorem named_pathLookup {path : Name}
    (hnames : forall name, name ∈ components path -> N name) : Named N (pathLookup path) := by
  apply Program.only_bind (named_pathLookup0 false hnames)
  intro found
  cases found with
  | none => exact Program.only_pure none
  | some entry => exact Program.only_pure _

theorem named_createBad (ip dir : Nat) : Named N (createBad ip dir) := by
  apply Program.only_bind (named_inodeUnlockput ip)
  intro _
  exact Program.only_bind (named_inodeUnlockput dir) (fun _ => Program.only_pure none)

theorem named_createExisting (dir ip : Nat) (typ : InodeType) :
    Named N (createExisting dir ip typ) := by
  apply Program.only_bind (named_op ⟨rfl, trivial⟩)
  intro _
  apply Program.only_bind (named_op ⟨rfl, trivial⟩)
  intro inode
  apply Program.only_ite _ (named_createBad ip dir)
  apply Program.only_bind (named_op ⟨rfl, trivial⟩)
  intro _
  exact Program.only_bind (named_inodeUnlockput dir) (fun _ => Program.only_pure _)

theorem named_createNew (dir : Nat) {name : Name} (typ : InodeType) (hname : N name)
    (hdot : N dotName) (hdotdot : N dotdotName) : Named N (createNew dir name typ) := by
  apply Program.only_bind (named_op ⟨rfl, trivial⟩)
  intro inum
  apply Program.only_bind (named_op ⟨rfl, trivial⟩)
  intro ip
  apply Program.only_bind (named_op ⟨rfl, trivial⟩)
  intro _
  apply Program.only_bind (named_op ⟨rfl, trivial⟩)
  intro _
  apply Program.only_bind (named_op ⟨rfl, trivial⟩)
  intro _
  apply Program.only_bind (named_dirLink dir (e := { inum := inum, name := name }) hname)
  intro (linked : Bool)
  apply Program.only_ite
  · apply Program.only_bind
      (Program.only_ite (named_dirMake dir ip hdot hdotdot) (Program.only_pure ()))
    intro _
    apply Program.only_bind (named_op ⟨rfl, trivial⟩)
    intro _
    exact Program.only_bind (named_inodeUnlockput dir) (fun _ => Program.only_pure _)
  · exact Program.only_bind (named_op ⟨rfl, trivial⟩) (fun _ => named_createBad ip dir)

/-- `create_file` looks up the components of its path, and `.` and `..` of what it makes. -/
theorem named_createFile {path : Name} (typ : InodeType)
    (hnames : forall name, name ∈ components path -> N name) (hdot : N dotName)
    (hdotdot : N dotdotName) : Named N (createFile path typ) := by
  apply Program.only_bind_of_yields (named_pathLookup0 true hnames)
    (yields_pathLookupParent path)
  intro found hfound
  cases found with
  | none => exact Program.only_pure none
  | some entry =>
      have hname := hnames entry.2 (hfound entry rfl)
      apply Program.only_ite
      · apply Program.only_bind (named_op ⟨rfl, trivial⟩)
        intro _
        apply Program.only_bind (named_op ⟨rfl, trivial⟩)
        intro parent
        apply Program.only_bind (named_op ⟨rfl, fun hstop => Stop.noConfusion hstop⟩)
        intro _
        apply Program.only_bind (named_dirLookup entry.1 hname)
        intro old
        cases old with
        | none => exact named_createNew entry.1 typ hname hdot hdotdot
        | some old => exact named_createExisting entry.1 old.2 typ
      · exact Program.only_bind (named_inodePut entry.1) (fun _ => Program.only_pure none)

theorem named_unlinkBad (ip parent : Nat) : Named N (unlinkBad ip parent) :=
  Program.only_bind (named_inodeUnlockput ip) (fun _ => named_unlockputEnd parent _)

theorem named_dropDotdot (parent : Nat) (isDir : Bool) : Named N (dropDotdot parent isDir) := by
  apply Program.only_ite _ (Program.only_pure ())
  apply Program.only_bind (named_op ⟨rfl, trivial⟩)
  intro pp
  exact Program.only_bind (named_op ⟨rfl, trivial⟩) (fun _ => named_op ⟨rfl, trivial⟩)

theorem named_unlinkAllowed (ip : Nat) (isDir : Bool) : Named N (unlinkAllowed ip isDir) := by
  apply Program.only_ite _ (Program.only_pure true)
  apply Program.only_bind (named_op ⟨rfl, trivial⟩)
  intro empty
  exact Program.only_bind (named_inodeRead ip _) (fun _ => Program.only_pure empty)

theorem named_unlinkEntry (parent ip k : Nat) : Named N (unlinkEntry parent ip k) := by
  apply Program.only_bind (named_op ⟨rfl, trivial⟩)
  intro _
  apply Program.only_bind (named_op ⟨rfl, trivial⟩)
  intro inode
  apply Program.only_bind (named_op ⟨rfl, fun hstop => Stop.noConfusion hstop⟩)
  intro _
  apply Program.only_bind (named_unlinkAllowed ip _)
  intro (empty : Bool)
  apply Program.only_ite _ (named_unlinkBad ip parent)
  apply Program.only_bind (named_op ⟨rfl, trivial⟩)
  intro (unlinked : Bool)
  apply Program.only_ite _ (named_unlinkBad ip parent)
  apply Program.only_bind (named_dropDotdot parent _)
  intro _
  apply Program.only_bind (named_op ⟨rfl, trivial⟩)
  intro _
  apply Program.only_bind (named_op ⟨rfl, trivial⟩)
  intro _
  exact Program.only_bind (named_inodeUnlockput ip) (fun _ => named_unlockputEnd parent 0)

theorem named_sysUnlink {path : Name}
    (hnames : forall name, name ∈ components path -> N name) :
    Named N (sysUnlink (some path)) := by
  apply Program.only_bind (named_op ⟨rfl, trivial⟩)
  intro _
  apply Program.only_bind_of_yields (named_pathLookup0 true hnames)
    (yields_pathLookupParent path)
  intro found hfound
  cases found with
  | none => exact named_end _
  | some entry =>
      have hname := hnames entry.2 (hfound entry rfl)
      apply Program.only_ite (named_end _)
      apply Program.only_bind (named_op ⟨rfl, trivial⟩)
      intro _
      apply Program.only_bind (named_dirLookup entry.1 hname)
      intro old
      cases old with
      | none => exact named_unlockputEnd entry.1 _
      | some old => exact named_unlinkEntry entry.1 old.2 old.1

end Named

/-!
# Plain programs
-/

theorem plain_assert (holds : Bool) (stop : Stop) : Plain (assert holds stop) :=
  plain_op rfl

theorem plain_logEndOp : Plain logEndOp := plain_of_named (N := fun _ => True) named_logEndOp

theorem plain_inodePut (i : Nat) : Plain (inodePut i) :=
  plain_of_named (N := fun _ => True) (named_inodePut i)

theorem plain_putRest (i : Nat) (frees : Bool) :
    Plain (if frees then do
        op (Op.itruncate i)
        op (Op.clearType i)
        op (Op.putEnd i)
      else
        op (Op.putEnd i) : Code Unit) := by
  apply Program.only_ite _ (plain_op rfl)
  apply Program.only_bind (plain_op rfl)
  intro _
  exact Program.only_bind (plain_op rfl) (fun _ => plain_op rfl)

theorem plain_inodeUnlockput (i : Nat) : Plain (inodeUnlockput i) :=
  plain_of_named (N := fun _ => True) (named_inodeUnlockput i)

theorem plain_inodeRead (i : Nat) (blocks : List Dirent -> List Nat) :
    Plain (inodeRead i blocks) :=
  plain_of_named (N := fun _ => True) (named_inodeRead i blocks)

theorem plain_pathLookup (path : Name) : Plain (pathLookup path) :=
  plain_of_named (N := fun _ => True) (named_pathLookup (fun _ _ => trivial))

theorem plain_createFile (path : Name) (typ : InodeType) : Plain (createFile path typ) :=
  plain_of_named (N := fun _ => True)
    (named_createFile typ (fun _ _ => trivial) trivial trivial)

theorem plain_sysUnlink (path : Option Name) : Plain (sysUnlink path) := by
  cases path with
  | none => exact Program.only_pure _
  | some path =>
      exact plain_of_named (N := fun _ => True) (named_sysUnlink (fun _ _ => trivial))

theorem plain_openExisting (path : Name) (omode : UInt32) :
    Plain (openExisting path omode) := by
  apply Program.only_bind (plain_pathLookup path)
  intro found
  cases found with
  | none => exact Program.only_pure none
  | some ip =>
      apply Program.only_bind (plain_op rfl)
      intro _
      apply Program.only_bind (plain_op rfl)
      intro inode
      apply Program.only_ite
      · exact Program.only_bind (plain_inodeUnlockput ip) (fun _ => Program.only_pure none)
      · exact Program.only_bind (plain_op rfl) (fun _ => Program.only_pure _)

end Syscall
end Fs
end NicoOS
