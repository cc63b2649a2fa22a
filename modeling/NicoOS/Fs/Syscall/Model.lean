import NicoOS.Fs.Inode.Model
import NicoOS.Lib.Program

/-!
# The operations of file system calls

The state that the calls of all tasks share, and the stretches of `fs/dir.c`,
`fs/inode.c`, `fs/file.c`, `fs/log.c` and `syscall/sysfs.c` that run without
blocking.  A directory is the list of its entries; other contents are left out, and of
sizes and addresses only the holes are kept: the blocks below the size of an inode that
have no address.
-/

namespace NicoOS
namespace Fs
namespace Syscall

open Lib
open Inode (InodeType nicache)

/-!
# State
-/

abbrev Name := List UInt8

def direntNameLength : Nat := 60

def direntSize : Nat := 4 + direntNameLength

/-- The entries that `MAX_DATA_BLOCKS` have room for. -/
def maxDirents : Nat := maxDataBlocks * blockSize / direntSize

def nfiles : Nat := 50

def nofile : Nat := 16

def dotName : Name := [46]

def dotdotName : Name := [46, 46]

/-- `struct dirent`; an entry with number 0 is not in use. -/
structure Dirent where
  inum : Nat
  name : Name
  deriving DecidableEq

structure Dinode where
  type : InodeType
  nlink : Nat
  deriving DecidableEq

/-- `struct inode`; `locked` says that its semaphore is taken. -/
structure CachedInode where
  inum : Nat
  ref : Nat
  locked : Bool
  valid : Bool
  diskInode : Dinode

inductive FdType where
  | none
  | inode
  | pipe
  deriving DecidableEq

/-- `struct file`; `id` tells the openings of one entry of the table apart. -/
structure File where
  type : FdType
  refs : Nat
  writable : Bool
  readable : Bool
  inode : Nat
  pipe : Nat
  id : Nat

/-- The ends of a pipe that were closed. -/
structure Pipe where
  readClosed : Bool
  writeClosed : Bool

/-- A task that ended counts as unused. -/
inductive TaskState where
  | unused
  | allocated
  | ready
  deriving DecidableEq

/-- The part of `struct task_struct` for files; `depth` counts the log operations it is in. -/
structure Task where
  state : TaskState
  cwd : Option Nat
  ofiles : Nat -> Option Nat
  depth : Nat

/-- An opening of a file and what it stands for. -/
structure Opening where
  id : Nat
  type : FdType
  object : Nat
  deriving DecidableEq

/--
Inodes on the disk, entries of directories, the caches and tables of the kernel and
the log's counters.  The last three fields are a record: the number of openings, the
openings that got an inode or a pipe, and those for which it was put or closed.
-/
structure State where
  ninodes : Nat
  dinodes : Nat -> Dinode
  data : Nat -> List Dirent
  holes : Nat -> List Nat
  icache : Nat -> CachedInode
  files : Nat -> File
  pipes : Nat -> Pipe
  npipes : Nat
  tasks : Nat -> Task
  outstanding : Nat
  committing : Bool
  openings : Nat
  attached : List Opening
  released : List Opening

/-- Where an operation does not return: it waits, or an assertion fails. -/
inductive Stop where
  | waits
  | noRef
  | noType
  | noSlot
  | noInodes
  | notHeld
  | notDirectory
  | notLinked
  | noOperation
  | commits
  | noFile
  | overrun
  deriving DecidableEq

namespace State

def setInode (s : State) (i : Nat) (ip : CachedInode) : State :=
  { s with icache := Function.update s.icache i ip }

def setDinode (s : State) (inum : Nat) (d : Dinode) : State :=
  { s with dinodes := Function.update s.dinodes inum d }

def setData (s : State) (inum : Nat) (entries : List Dirent) : State :=
  { s with data := Function.update s.data inum entries }

def clear (s : State) (inum : Nat) : State :=
  { s with
    data := Function.update s.data inum []
    holes := Function.update s.holes inum [] }

def setFile (s : State) (f : Nat) (file : File) : State :=
  { s with files := Function.update s.files f file }

def setTask (s : State) (t : Nat) (task : Task) : State :=
  { s with tasks := Function.update s.tasks t task }

def setLog (s : State) (outstanding : Nat) (committing : Bool) : State :=
  { s with outstanding := outstanding, committing := committing }

end State

/-!
# The log
-/

/-- `log_begin_op`; where it waits for room it is not run. -/
def logBegin (t : Nat) (s : State) : Except Stop State :=
  if s.committing then
    Except.error Stop.waits
  else
    Except.ok ((s.setLog (s.outstanding + 1) s.committing).setTask t
      { s.tasks t with depth := (s.tasks t).depth + 1 })

/-- `log_end_op` up to the commit; the answer says whether there is one. -/
def logEnd (t : Nat) (s : State) : Except Stop (Bool × State) :=
  if s.committing then
    Except.error Stop.commits
  else
    let last := decide (s.outstanding - 1 = 0)
    Except.ok (last, (s.setLog (s.outstanding - 1) last).setTask t
      { s.tasks t with depth := (s.tasks t).depth - 1 })

def commitEnd (s : State) : State := s.setLog s.outstanding false

def logWrite (s : State) : Except Stop State :=
  if s.outstanding ≥ 1 then Except.ok s else Except.error Stop.noOperation

/-!
# Inodes
-/

/-- The loop of `iget`: the place of the inode, or the first empty place. -/
def findInode (icache : Nat -> CachedInode) (inum : Nat) :
    Nat -> Nat -> Option Nat -> Nat ⊕ Option Nat
  | 0, _, empty => Sum.inr empty
  | k + 1, i, empty =>
      if (icache i).ref > 0 ∧ (icache i).inum = inum then
        Sum.inl i
      else
        findInode icache inum k (i + 1)
          (if empty = none ∧ (icache i).ref = 0 then some i else empty)

def iget (inum : Nat) (s : State) : Except Stop (Nat × State) :=
  match findInode s.icache inum nicache 0 none with
  | Sum.inl i =>
      let ip := s.icache i
      Except.ok (i, s.setInode i { ip with ref := ip.ref + 1 })
  | Sum.inr (some i) =>
      let ip := s.icache i
      Except.ok (i, s.setInode i { ip with inum := inum, ref := 1, valid := false })
  | Sum.inr none => Except.error Stop.noSlot

def inodeDup (i : Nat) (s : State) : State :=
  let ip := s.icache i
  s.setInode i { ip with ref := ip.ref + 1 }

def inodeLock (i : Nat) (s : State) : Except Stop State :=
  let ip := s.icache i
  if ip.ref ≥ 1 then
    if ip.locked then
      Except.error Stop.waits
    else if ip.valid then
      Except.ok (s.setInode i { ip with locked := true })
    else if (s.dinodes ip.inum).type ≠ InodeType.none then
      Except.ok (s.setInode i
        { ip with locked := true, valid := true, diskInode := s.dinodes ip.inum })
    else
      Except.error Stop.noType
  else
    Except.error Stop.noRef

def inodeUnlock (i : Nat) (s : State) : Except Stop State :=
  let ip := s.icache i
  if ip.locked ∧ ip.ref ≥ 1 then
    Except.ok (s.setInode i { ip with locked := false })
  else
    Except.error Stop.notHeld

def inodeUpdate (i : Nat) (s : State) : Except Stop State := do
  let s <- logWrite s
  Except.ok (s.setDinode (s.icache i).inum (s.icache i).diskInode)

/-- The record of a call of `inode_put` or `pipe_close` for a file. -/
def release (o : Option Opening) (s : State) : State :=
  match o with
  | none => s
  | some o => { s with released := s.released ++ [o] }

/-- `inode_put`, for a file where one is given, takes the lock and decides whether it
frees the inode. -/
def putStart (i : Nat) (o : Option Opening) (s : State) : Except Stop (Bool × State) :=
  let ip := s.icache i
  if ip.ref ≥ 1 then
    if ip.locked then
      Except.error Stop.waits
    else
      Except.ok (decide (ip.valid = true ∧ ip.diskInode.nlink = 0 ∧ ip.ref = 1),
        release o (s.setInode i { ip with locked := true }))
  else
    Except.error Stop.noRef

def itruncate (i : Nat) (s : State) : Except Stop State := do
  let s <- inodeUpdate i s
  Except.ok (s.clear (s.icache i).inum)

def clearType (i : Nat) (s : State) : Except Stop State := do
  let ip := s.icache i
  let s <- inodeUpdate i
    (s.setInode i { ip with diskInode := { ip.diskInode with type := InodeType.none } })
  let ip := s.icache i
  Except.ok (s.setInode i { ip with valid := false })

def putEnd (i : Nat) (s : State) : State :=
  let ip := s.icache i
  s.setInode i { ip with locked := false, ref := ip.ref - 1 }

/-- The loop of `inode_alloc`: the first free inode from `inum` on. -/
def findFree (dinodes : Nat -> Dinode) (ninodes : Nat) : Nat -> Nat -> Option Nat
  | 0, _ => none
  | fuel + 1, inum =>
      if inum < ninodes then
        if (dinodes inum).type = InodeType.none then some inum
        else findFree dinodes ninodes fuel (inum + 1)
      else
        none

def inodeAlloc (typ : InodeType) (s : State) : Except Stop (Nat × State) :=
  match findFree s.dinodes s.ninodes s.ninodes 1 with
  | none => Except.error Stop.noInodes
  | some inum => do
      let s <- logWrite s
      Except.ok (inum, (s.setDinode inum { type := typ, nlink := 0 }).clear inum)

/--
`inode_read` comes to a block for which `bmap` calls `balloc`.  The new address is kept in
the cached inode or in the log; here the block stays a hole.
-/
def meetsHole (i : Nat) (blocks : List Dirent -> List Nat) (s : State) : Bool :=
  let inum := (s.icache i).inum
  (blocks (s.data inum)).any (fun b => decide (b ∈ s.holes inum))

/-!
# Directories
-/

def heldDirectory (i : Nat) (s : State) : Except Stop Unit :=
  if (s.icache i).diskInode.type = InodeType.directory then
    if (s.icache i).locked then Except.ok () else Except.error Stop.notHeld
  else
    Except.error Stop.notDirectory

/-- The loop of `dir_lookup` over the entries from offset `k` on. -/
def findEntry (name : Name) : Nat -> List Dirent -> Option (Nat × Nat)
  | _, [] => none
  | k, e :: rest =>
      if e.inum ≠ 0 ∧ e.name = name then some (k, e.inum) else findEntry name (k + 1) rest

def direntBlock (k : Nat) : Nat := k * direntSize / blockSize

/-- The blocks that `dir_lookup` reads, up to the entry it finds. -/
def lookupBlocks (found : Option (Nat × Nat)) (entries : List Dirent) : List Nat :=
  match found with
  | none => (List.range entries.length).map direntBlock
  | some (k, _) => (List.range (k + 1)).map direntBlock

/-- The blocks that `dir_isempty` reads, up to an entry in use. -/
def emptyBlocks (entries : List Dirent) : List Nat :=
  let unused := (entries.drop 2).takeWhile (fun e => decide (e.inum = 0))
  ((List.range (min entries.length (unused.length + 3))).drop 2).map direntBlock

/-- `dir_lookup` up to its call of `iget`; the blocks that it reads are those of
`lookupBlocks`. -/
def dirFind (i : Nat) (name : Name) (s : State) : Except Stop (Option (Nat × Nat) × State) := do
  heldDirectory i s
  if name.length ≤ direntNameLength then
    Except.ok (findEntry name 0 (s.data (s.icache i).inum), s)
  else
    Except.error Stop.overrun

/-- The loop of `dir_link` that looks for an empty entry from offset `k` on. -/
def freeEntry : Nat -> List Dirent -> Nat
  | k, [] => k
  | k, e :: rest => if e.inum = 0 then k else freeEntry (k + 1) rest

/-- The store of `inode_write` at entry `k`; the answer says whether there was room. -/
def writeDirent (i k : Nat) (e : Dirent) (s : State) : Except Stop (Bool × State) :=
  let inum := (s.icache i).inum
  if k < (s.data inum).length then do
    let s <- logWrite s
    Except.ok (true, s.setData inum ((s.data inum).set k e))
  else if k = (s.data inum).length ∧ k < maxDirents then do
    let s <- logWrite s
    Except.ok (true, s.setData inum (s.data inum ++ [e]))
  else
    Except.ok (false, s)

/-- The rest of `dir_link`, behind a `dir_lookup` that has read every block. -/
def dirAdd (i : Nat) (e : Dirent) (s : State) : Except Stop (Bool × State) := do
  heldDirectory i s
  writeDirent i (freeEntry 0 (s.data (s.icache i).inum)) e s

/-- `dir_unlink`, behind a `dir_lookup` that has read the block of entry `k`. -/
def dirUnlink (i k : Nat) (s : State) : Except Stop (Bool × State) := do
  heldDirectory i s
  match (s.data (s.icache i).inum)[k]? with
  | none => Except.error Stop.notLinked
  | some e =>
      if e.inum ≠ 0 then writeDirent i k { inum := 0, name := [] } s
      else Except.error Stop.notLinked

/-- `dir_isempty`: no entry behind the first two is in use; the blocks that it reads are
those of `emptyBlocks`. -/
def dirIsempty (i : Nat) (s : State) : Except Stop (Bool × State) := do
  heldDirectory i s
  Except.ok (((s.data (s.icache i).inum).drop 2).all (fun e => decide (e.inum = 0)), s)

/-!
# Files
-/

def fileAlloc (s : State) : Option Nat × State :=
  match (List.range nfiles).find? (fun f => decide ((s.files f).refs = 0)) with
  | none => (none, s)
  | some f =>
      (some f, { s.setFile f { s.files f with refs := 1, id := s.openings } with
        openings := s.openings + 1 })

/-- `file_close` up to the release of what the file stands for. -/
def fileDrop (f : Nat) (s : State) : Except Stop (Option File × State) :=
  let file := s.files f
  if file.refs ≥ 1 then
    if file.refs - 1 > 0 then
      Except.ok (none, s.setFile f { file with refs := file.refs - 1 })
    else
      Except.ok (some file, s.setFile f { file with refs := file.refs - 1, type := FdType.none })
  else
    Except.error Stop.noFile

def fileDup (f : Nat) (s : State) : Except Stop State :=
  let file := s.files f
  if file.refs ≥ 1 then
    Except.ok (s.setFile f { file with refs := file.refs + 1 })
  else
    Except.error Stop.noFile

def openInode (f i : Nat) (readable writable : Bool) (s : State) : State :=
  { s.setFile f { s.files f with
      type := FdType.inode
      inode := i
      readable := readable
      writable := writable } with
    attached := s.attached ++ [⟨(s.files f).id, FdType.inode, i⟩] }

def openPipe (f p : Nat) (writable : Bool) (s : State) : State :=
  { s.setFile f { s.files f with
      type := FdType.pipe
      pipe := p
      readable := !writable
      writable := writable } with
    attached := s.attached ++ [⟨(s.files f).id, FdType.pipe, p⟩] }

def newPipe (s : State) : Nat × State :=
  (s.npipes, { s with
    npipes := s.npipes + 1
    pipes := Function.update s.pipes s.npipes { readClosed := false, writeClosed := false } })

def pipeClose (p : Nat) (writable : Bool) (o : Opening) (s : State) : State :=
  release (some o) { s with
    pipes := Function.update s.pipes p
      (if writable then { s.pipes p with writeClosed := true }
       else { s.pipes p with readClosed := true }) }

def fdAlloc (t f : Nat) (s : State) : Option Nat × State :=
  match (List.range nofile).find? (fun fd => decide ((s.tasks t).ofiles fd = none)) with
  | none => (none, s)
  | some fd =>
      (some fd, s.setTask t { s.tasks t with
        ofiles := Function.update (s.tasks t).ofiles fd (some f) })

def fetchFile (t : Nat) (fd : Int) (s : State) : Option Nat :=
  if fd < 0 ∨ fd ≥ nofile then none else (s.tasks t).ofiles fd.toNat

def setDescriptor (t fd : Nat) (f : Option Nat) (s : State) : State :=
  s.setTask t { s.tasks t with ofiles := Function.update (s.tasks t).ofiles fd f }

def setCwd (t : Nat) (cwd : Option Nat) (s : State) : State :=
  s.setTask t { s.tasks t with cwd := cwd }

/-- `kthread_create` takes an unused task and clears it. -/
def taskAlloc (child : Nat) (s : State) : Except Stop State :=
  if (s.tasks child).state = TaskState.unused then
    Except.ok (s.setTask child
      { state := TaskState.allocated, cwd := none, ofiles := fun _ => none, depth := 0 })
  else
    Except.error Stop.waits

def setState (t : Nat) (state : TaskState) (s : State) : State :=
  s.setTask t { s.tasks t with state := state }

/-!
# Operations
-/

inductive Op where
  | assert (holds : Bool) (stop : Stop)
  | logBegin
  | logEnd
  | commitEnd
  | iget (inum : Nat)
  | inodeDup (i : Nat)
  | inodeLock (i : Nat)
  | inodeUnlock (i : Nat)
  | inode (i : Nat)
  | setNlink (i : Nat) (nlink : Nat)
  | inodeUpdate (i : Nat)
  | putStart (i : Nat) (o : Option Opening)
  | itruncate (i : Nat)
  | clearType (i : Nat)
  | putEnd (i : Nat)
  | inodeAlloc (typ : InodeType)
  | bmap (i : Nat) (blocks : List Dirent -> List Nat)
  | balloc
  | dirFind (i : Nat) (name : Name)
  | dirAdd (i : Nat) (e : Dirent)
  | dirUnlink (i k : Nat)
  | dirIsempty (i : Nat)
  | inodeWrite (i : Nat)
  | fileAlloc
  | fileDrop (f : Nat)
  | fileDup (f : Nat)
  | file (f : Nat)
  | openInode (f i : Nat) (readable writable : Bool)
  | openPipe (f p : Nat) (writable : Bool)
  | newPipe
  | pipeClose (p : Nat) (writable : Bool) (o : Opening)
  | fdAlloc (f : Nat)
  | fetchFile (fd : Int)
  | setDescriptor (t fd : Nat) (f : Option Nat)
  | cwd
  | setCwd (t : Nat) (cwd : Option Nat)
  | taskAlloc (child : Nat)
  | setState (t : Nat) (state : TaskState)
  | self

def Op.Answer : Op -> Type
  | Op.logEnd => Bool
  | Op.iget _ => Nat
  | Op.inode _ => CachedInode
  | Op.putStart _ _ => Bool
  | Op.inodeAlloc _ => Nat
  | Op.bmap _ _ => Bool
  | Op.dirFind _ _ => Option (Nat × Nat)
  | Op.dirAdd _ _ => Bool
  | Op.dirUnlink _ _ => Bool
  | Op.dirIsempty _ => Bool
  | Op.fileAlloc => Option Nat
  | Op.fileDrop _ => Option File
  | Op.file _ => File
  | Op.newPipe => Nat
  | Op.fdAlloc _ => Option Nat
  | Op.fetchFile _ => Option Nat
  | Op.cwd => Option Nat
  | Op.self => Nat
  | _ => Unit

def done (r : Except Stop State) : Except Stop (Unit × State) := do
  let s <- r
  Except.ok ((), s)

def perform (t : Nat) : (o : Op) -> State -> Except Stop (o.Answer × State)
  | Op.assert holds stop, s => if holds then Except.ok ((), s) else Except.error stop
  | Op.logBegin, s => done (logBegin t s)
  | Op.logEnd, s => logEnd t s
  | Op.commitEnd, s => Except.ok ((), commitEnd s)
  | Op.iget inum, s => iget inum s
  | Op.inodeDup i, s => Except.ok ((), inodeDup i s)
  | Op.inodeLock i, s => done (inodeLock i s)
  | Op.inodeUnlock i, s => done (inodeUnlock i s)
  | Op.inode i, s => Except.ok (s.icache i, s)
  | Op.setNlink i nlink, s =>
      let ip := s.icache i
      Except.ok ((), s.setInode i { ip with diskInode := { ip.diskInode with nlink := nlink } })
  | Op.inodeUpdate i, s => done (inodeUpdate i s)
  | Op.putStart i o, s => putStart i o s
  | Op.itruncate i, s => done (itruncate i s)
  | Op.clearType i, s => done (clearType i s)
  | Op.putEnd i, s => Except.ok ((), putEnd i s)
  | Op.inodeAlloc typ, s => inodeAlloc typ s
  | Op.bmap i blocks, s => Except.ok (meetsHole i blocks s, s)
  | Op.balloc, s => done (logWrite s)
  | Op.dirFind i name, s => dirFind i name s
  | Op.dirAdd i e, s => dirAdd i e s
  | Op.dirUnlink i k, s => dirUnlink i k s
  | Op.dirIsempty i, s => dirIsempty i s
  | Op.inodeWrite _, s => done (logWrite s)
  | Op.fileAlloc, s => Except.ok (fileAlloc s)
  | Op.fileDrop f, s => fileDrop f s
  | Op.fileDup f, s => done (fileDup f s)
  | Op.file f, s => Except.ok (s.files f, s)
  | Op.openInode f i readable writable, s => Except.ok ((), openInode f i readable writable s)
  | Op.openPipe f p writable, s => Except.ok ((), openPipe f p writable s)
  | Op.newPipe, s => Except.ok (newPipe s)
  | Op.pipeClose p writable o, s => Except.ok ((), pipeClose p writable o s)
  | Op.fdAlloc f, s => Except.ok (fdAlloc t f s)
  | Op.fetchFile fd, s => Except.ok (fetchFile t fd s, s)
  | Op.setDescriptor u fd f, s => Except.ok ((), setDescriptor u fd f s)
  | Op.cwd, s => Except.ok ((s.tasks t).cwd, s)
  | Op.setCwd u cwd, s => Except.ok ((), setCwd u cwd s)
  | Op.taskAlloc child, s => done (taskAlloc child s)
  | Op.setState u state, s => Except.ok ((), setState u state s)
  | Op.self, s => Except.ok (t, s)

abbrev Code := Program Op Op.Answer

end Syscall
end Fs
end NicoOS
