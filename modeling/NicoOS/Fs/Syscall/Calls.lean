import NicoOS.Fs.Syscall.Model

/-!
# File system calls

The calls of `fs/pathname.c`, `fs/dir.c`, `syscall/sysfs.c`, `kernel/proc.c` and
`kernel/task.c` as programs over the operations.  What comes from the user, from
the memory allocator and from file contents is an argument of the call.
-/

namespace NicoOS
namespace Fs
namespace Syscall

open Lib
open Program (op)
open Inode (InodeType)

def assert (holds : Bool) (stop : Stop) : Code Unit := op (Op.assert holds stop)

/-!
# Names
-/

def slash : UInt8 := 47

def skipSlashes : Name -> Name
  | [] => []
  | c :: rest => if c = slash then skipSlashes rest else c :: rest

/-- The characters up to the next slash, and the path behind them. -/
def takeElem : Name -> Name × Name
  | [] => ([], [])
  | c :: rest =>
      if c = slash then ([], c :: rest)
      else ((c :: (takeElem rest).1), (takeElem rest).2)

def pathSkipelem (path : Name) : Option (Name × Name) :=
  match skipSlashes path with
  | [] => none
  | c :: rest => some (takeElem (c :: rest))

def validChar (c : UInt8) : Bool :=
  decide (31 < c.toInt8) && decide (c ≠ slash) && decide (c ≠ 0x7F)

def pathValidName (name : Name) : Bool :=
  match name with
  | [] => false
  | c :: rest =>
      decide ((c :: rest).length ≤ direntNameLength) &&
        decide (c ≠ 43 ∧ c ≠ 45 ∧ c ≠ 46) && (c :: rest).all validChar

/-!
# Inodes and directories
-/

def logEndOp : Code Unit := do
  let last : Bool <- op Op.logEnd
  if last then op Op.commitEnd else pure ()

/-- `inode_put`; the opening is that of the file for which `file_close` calls it. -/
def inodePut (i : Nat) (o : Option Opening := none) : Code Unit := do
  let frees : Bool <- op (Op.putStart i o)
  if frees then do
    op (Op.itruncate i)
    op (Op.clearType i)
    op (Op.putEnd i)
  else
    op (Op.putEnd i)

def inodeUnlockput (i : Nat) : Code Unit := do
  op (Op.inodeUnlock i)
  inodePut i

/-- `inode_read`, as far as it writes to the log. -/
def inodeRead (i : Nat) (blocks : List Dirent -> List Nat) : Code Unit := do
  let hole : Bool <- op (Op.bmap i blocks)
  if hole then op Op.balloc else pure ()

/-- `dir_lookup`: the offset of the entry and the place of its inode. -/
def dirLookup (dir : Nat) (name : Name) : Code (Option (Nat × Nat)) := do
  let found : Option (Nat × Nat) <- op (Op.dirFind dir name)
  inodeRead dir (lookupBlocks found)
  match found with
  | none => pure none
  | some (offset, inum) => do
      let ip <- op (Op.iget inum)
      pure (some (offset, ip))

def dirLink (dir : Nat) (e : Dirent) : Code Bool := do
  match <- dirLookup dir e.name with
  | some (_, ip) => do
      inodePut ip
      pure false
  | none => op (Op.dirAdd dir e)

def dirMake (parent dir : Nat) : Code Unit := do
  let ip <- op (Op.inode dir)
  let dot <- dirLink dir { inum := ip.inum, name := dotName }
  if dot then do
    let pp <- op (Op.inode parent)
    let dotdot <- dirLink dir { inum := pp.inum, name := dotdotName }
    if dotdot then do
      op (Op.setNlink parent (pp.diskInode.nlink + 1))
      op (Op.inodeUpdate parent)
    else
      pure ()
  else
    pure ()

def pathLookupFrom (nameiparent : Bool) : Nat -> Nat -> Name -> Name -> Code (Option (Nat × Name))
  | 0, _, _, _ => pure none
  | fuel + 1, parent, path, name =>
      match pathSkipelem path with
      | none =>
          if nameiparent then do
            inodePut parent
            pure none
          else
            pure (some (parent, name))
      | some (name, path) => do
          assert (decide (name.length < direntNameLength)) Stop.overrun
          op (Op.inodeLock parent)
          let ip <- op (Op.inode parent)
          if ip.diskInode.type ≠ InodeType.directory then do
            inodeUnlockput parent
            pure none
          else if skipSlashes path = [] ∧ nameiparent then do
            op (Op.inodeUnlock parent)
            pure (some (parent, name))
          else do
            match <- dirLookup parent name with
            | none => do
                inodeUnlockput parent
                pure none
            | some (_, next) => do
                inodeUnlockput parent
                pathLookupFrom nameiparent fuel next (skipSlashes path) name

/-- `path_lookup0` starts at the directory of the task. -/
def startAtCwd : Code Nat := do
  match <- op Op.cwd with
  | none => do
      assert false Stop.noRef
      pure 0
  | some cwd => do
      op (Op.inodeDup cwd)
      pure cwd

def pathStart (path : Name) : Code Nat :=
  match path with
  | c :: _ => if c = slash then op (Op.iget rootInum) else startAtCwd
  | [] => startAtCwd

def pathLookup0 (nameiparent : Bool) (path : Name) : Code (Option (Nat × Name)) := do
  let parent <- pathStart path
  pathLookupFrom nameiparent (path.length + 1) parent path []

def pathLookup (path : Name) : Code (Option Nat) := do
  match <- pathLookup0 false path with
  | none => pure none
  | some (ip, _) => pure (some ip)

def pathLookupParent (path : Name) : Code (Option (Nat × Name)) := pathLookup0 true path

/-!
# Files
-/

def fileClose (f : Nat) : Code Unit := do
  match <- op (Op.fileDrop f) with
  | none => pure ()
  | some file =>
      match file.type with
      | FdType.none => pure ()
      | FdType.inode => do
          op Op.logBegin
          inodePut file.inode (some ⟨file.id, FdType.inode, file.inode⟩)
          logEndOp
      | FdType.pipe =>
          op (Op.pipeClose file.pipe file.writable ⟨file.id, FdType.pipe, file.pipe⟩)

def createBad (ip dir : Nat) : Code (Option Nat) := do
  inodeUnlockput ip
  inodeUnlockput dir
  pure none

def createExisting (dir ip : Nat) (typ : InodeType) : Code (Option Nat) := do
  op (Op.inodeLock ip)
  let inode <- op (Op.inode ip)
  if inode.diskInode.type = typ ∧ typ = InodeType.file then do
    op (Op.inodeUnlock ip)
    inodeUnlockput dir
    pure (some ip)
  else
    createBad ip dir

def createEntries (dir ip : Nat) (typ : InodeType) : Code Unit :=
  if typ = InodeType.directory then dirMake dir ip else pure ()

def createNew (dir : Nat) (name : Name) (typ : InodeType) : Code (Option Nat) := do
  let inum <- op (Op.inodeAlloc typ)
  let ip <- op (Op.iget inum)
  op (Op.inodeLock ip)
  op (Op.setNlink ip 1)
  op (Op.inodeUpdate ip)
  let linked <- dirLink dir { inum := inum, name := name }
  if linked then do
    createEntries dir ip typ
    op (Op.inodeUnlock ip)
    inodeUnlockput dir
    pure (some ip)
  else do
    op (Op.setNlink ip 0)
    createBad ip dir

def createFile (path : Name) (typ : InodeType) : Code (Option Nat) := do
  match <- pathLookupParent path with
  | none => pure none
  | some (dir, name) =>
      if pathValidName name then do
        op (Op.inodeLock dir)
        let parent <- op (Op.inode dir)
        assert (decide (parent.diskInode.type = InodeType.directory)) Stop.notDirectory
        match <- dirLookup dir name with
        | some (_, ip) => createExisting dir ip typ
        | none => createNew dir name typ
      else do
        inodePut dir
        pure none

/-!
# Calls
-/

def oWronly : UInt32 := 1

def oRdwr : UInt32 := 2

def oCreat : UInt32 := 64

def readableMode (omode : UInt32) : Bool := decide (omode &&& oWronly = 0)

def writableMode (omode : UInt32) : Bool :=
  decide (omode &&& oWronly ≠ 0) || decide (omode &&& oRdwr ≠ 0)

def openExisting (path : Name) (omode : UInt32) : Code (Option Nat) := do
  match <- pathLookup path with
  | none => pure none
  | some ip => do
      op (Op.inodeLock ip)
      let inode <- op (Op.inode ip)
      if inode.diskInode.type = InodeType.directory ∧ omode ≠ 0 then do
        inodeUnlockput ip
        pure none
      else do
        op (Op.inodeUnlock ip)
        pure (some ip)

def openPath (path : Name) (omode : UInt32) : Code (Option Nat) :=
  if omode &&& oCreat ≠ 0 then createFile path InodeType.file else openExisting path omode

def openFile (ip : Nat) (omode : UInt32) : Code Int := do
  match <- op Op.fileAlloc with
  | none => do
      inodePut ip
      logEndOp
      pure (-1)
  | some file => do
      match <- op (Op.fdAlloc file) with
      | none => do
          fileClose file
          inodePut ip
          logEndOp
          pure (-1)
      | some fd => do
          logEndOp
          op (Op.openInode file ip (readableMode omode) (writableMode omode))
          pure (fd : Int)

/-- `sys_open`; a path is `none` where the pointer is bad. -/
def sysOpen (path : Option Name) (omode : UInt32) : Code Int := do
  match path with
  | none => pure (-1)
  | some path => do
      op Op.logBegin
      match <- openPath path omode with
      | none => do
          logEndOp
          pure (-1)
      | some ip => openFile ip omode

def sysClose (fd : Int) : Code Int := do
  match <- op (Op.fetchFile fd) with
  | none => pure (-1)
  | some f => do
      let t <- op Op.self
      op (Op.setDescriptor t fd.toNat none)
      fileClose f
      pure 0

def sysDup (fd : Int) : Code Int := do
  match <- op (Op.fetchFile fd) with
  | none => pure (-1)
  | some f => do
      match <- op (Op.fdAlloc f) with
      | none => pure (-1)
      | some _ => do
          op (Op.fileDup f)
          pure 0

def sysMkdir (path : Option Name) : Code Int := do
  match path with
  | none => pure (-1)
  | some path => do
      op Op.logBegin
      match <- createFile path InodeType.directory with
      | none => do
          logEndOp
          pure (-1)
      | some ip => do
          inodePut ip
          logEndOp
          pure 0

/-- The end of `sys_unlink` where it fails with both inodes. -/
def unlinkBad (ip parent : Nat) : Code Int := do
  inodeUnlockput ip
  inodeUnlockput parent
  logEndOp
  pure (-1)

/-- Whether the entry of an inode may be removed. -/
def unlinkAllowed (ip : Nat) (isDir : Bool) : Code Bool :=
  if isDir then do
    let empty : Bool <- op (Op.dirIsempty ip)
    inodeRead ip emptyBlocks
    pure empty
  else
    pure true

/-- The `..` of a removed directory no longer counts. -/
def dropDotdot (parent : Nat) (isDir : Bool) : Code Unit :=
  if isDir then do
    let pp <- op (Op.inode parent)
    op (Op.setNlink parent (pp.diskInode.nlink - 1))
    op (Op.inodeUpdate parent)
  else
    pure ()

/-- `sys_unlink` with the entry found at offset `k`. -/
def unlinkEntry (parent ip k : Nat) : Code Int := do
  op (Op.inodeLock ip)
  let inode <- op (Op.inode ip)
  assert (decide (inode.diskInode.nlink ≥ 1)) Stop.notLinked
  let isDir := decide (inode.diskInode.type = InodeType.directory)
  let empty <- unlinkAllowed ip isDir
  if empty then do
    let unlinked : Bool <- op (Op.dirUnlink parent k)
    if unlinked then do
      dropDotdot parent isDir
      op (Op.setNlink ip (inode.diskInode.nlink - 1))
      op (Op.inodeUpdate ip)
      inodeUnlockput ip
      inodeUnlockput parent
      logEndOp
      pure 0
    else
      unlinkBad ip parent
  else
    unlinkBad ip parent

def sysUnlink (path : Option Name) : Code Int := do
  match path with
  | none => pure (-1)
  | some path => do
      op Op.logBegin
      match <- pathLookupParent path with
      | none => do
          logEndOp
          pure (-1)
      | some (parent, name) =>
          if name = dotName ∨ name = dotdotName then do
            logEndOp
            pure (-1)
          else do
            op (Op.inodeLock parent)
            match <- dirLookup parent name with
            | none => do
                inodeUnlockput parent
                logEndOp
                pure (-1)
            | some (k, ip) => unlinkEntry parent ip k

/-- `sys_read` and `file_read`, of these blocks of a file; the answer is that of the file or
the pipe. -/
def sysRead (fd : Int) (blocks : List Nat) (answer : Int) : Code Int := do
  match <- op (Op.fetchFile fd) with
  | none => pure (-1)
  | some f => do
      let file <- op (Op.file f)
      if file.readable then
        match file.type with
        | FdType.inode => do
            op (Op.inodeLock file.inode)
            inodeRead file.inode (fun _ => blocks)
            op (Op.inodeUnlock file.inode)
            pure answer
        | FdType.pipe => pure answer
        | FdType.none => do
            assert false Stop.noFile
            pure (-1)
      else
        pure (-1)

/-- The loop of `file_write`; each round says whether `inode_write` accepts its chunk. -/
def writeChunks (ip : Nat) : List Bool -> Code Int
  | [] => pure 0
  | accepted :: rest => do
      op Op.logBegin
      op (Op.inodeLock ip)
      if accepted then do
        op (Op.inodeWrite ip)
        op (Op.inodeUnlock ip)
        logEndOp
        writeChunks ip rest
      else do
        op (Op.inodeUnlock ip)
        logEndOp
        pure (-1)

def sysWrite (fd : Int) (chunks : List Bool) (answer : Int) : Code Int := do
  match <- op (Op.fetchFile fd) with
  | none => pure (-1)
  | some f => do
      let file <- op (Op.file f)
      if file.writable then
        match file.type with
        | FdType.inode => writeChunks file.inode chunks
        | FdType.pipe => pure answer
        | FdType.none => do
            assert false Stop.noFile
            pure (-1)
      else
        pure (-1)

/-- `sys_stat`; there is no log operation around its `inode_put`. -/
def sysStat (path : Option Name) (buffer : Bool) : Code Int := do
  match path with
  | none => pure (-1)
  | some path =>
      if buffer then do
        match <- pathLookup path with
        | none => pure (-1)
        | some ip => do
            op (Op.inodeLock ip)
            inodeUnlockput ip
            pure 0
      else
        pure (-1)

def sysChdir (path : Option Name) : Code Int := do
  match path with
  | none => pure (-1)
  | some path => do
      op Op.logBegin
      match <- pathLookup path with
      | none => do
          logEndOp
          pure (-1)
      | some ip => do
          op (Op.inodeLock ip)
          let inode <- op (Op.inode ip)
          if inode.diskInode.type ≠ InodeType.directory then do
            inodeUnlockput ip
            logEndOp
            pure (-1)
          else do
            match <- op Op.cwd with
            | none => do
                assert false Stop.noRef
                pure (-1)
            | some prev => do
                let t <- op Op.self
                op (Op.inodeDup ip)
                op (Op.setCwd t (some ip))
                inodeUnlockput ip
                inodePut prev
                logEndOp
                pure 0

/-- What `pipe_alloc` gets from the memory allocator. -/
structure PipeMemory where
  object : Bool
  page : Bool

def closeIfAny (f : Option Nat) : Code Unit :=
  match f with
  | none => pure ()
  | some f => fileClose f

def pipeBad (rfp wfp : Option Nat) : Code (Option (Nat × Nat)) := do
  closeIfAny rfp
  closeIfAny wfp
  pure none

def pipeAlloc (memory : PipeMemory) : Code (Option (Nat × Nat)) := do
  match <- op Op.fileAlloc with
  | none => pipeBad none none
  | some rfp => do
      match <- op Op.fileAlloc with
      | none => pipeBad (some rfp) none
      | some wfp =>
          if memory.object && memory.page then do
            let p <- op Op.newPipe
            op (Op.openPipe rfp p false)
            op (Op.openPipe wfp p true)
            pure (some (rfp, wfp))
          else
            pipeBad (some rfp) (some wfp)

def sysPipeBad (rfp wfp : Nat) (rfd : Option Nat) : Code Int := do
  fileClose rfp
  fileClose wfp
  match rfd with
  | none => pure (-1)
  | some fd => do
      let t <- op Op.self
      op (Op.setDescriptor t fd none)
      pure (-1)

def sysPipe (buffer : Bool) (memory : PipeMemory) : Code Int := do
  if buffer then do
    match <- pipeAlloc memory with
    | none => pure (-1)
    | some (rfp, wfp) => do
        match <- op (Op.fdAlloc rfp) with
        | none => sysPipeBad rfp wfp none
        | some rfd => do
            match <- op (Op.fdAlloc wfp) with
            | none => sysPipeBad rfp wfp (some rfd)
            | some _ => pure 0
  else
    pure (-1)

/-- What `proc_execv` gets from the memory allocator and from the file, and the blocks of
the file that it reads. -/
structure ExecResult where
  vm : Bool
  blocks : List Nat
  header : Bool
  loaded : Bool
  stack : Bool

/-- `proc_execv`, as far as inodes and the log are concerned. -/
def procExecv (path : Name) (result : ExecResult) : Code Int := do
  if result.vm then do
    op Op.logBegin
    match <- pathLookup path with
    | none => do
        logEndOp
        pure (-1)
    | some ip => do
        op (Op.inodeLock ip)
        let inode <- op (Op.inode ip)
        if inode.diskInode.type = InodeType.file then do
          inodeRead ip (fun _ => result.blocks)
          inodeUnlockput ip
          logEndOp
          if result.header ∧ result.loaded ∧ result.stack then pure 0 else pure (-1)
        else do
          inodeUnlockput ip
          logEndOp
          pure (-1)
  else
    pure (-1)

def copyFiles (child : Nat) : List Nat -> Code Unit
  | [] => pure ()
  | fd :: rest => do
      match <- op (Op.fetchFile fd) with
      | none => copyFiles child rest
      | some f => do
          op (Op.fileDup f)
          op (Op.setDescriptor child fd (some f))
          copyFiles child rest

/-- `proc_fork`; `child` is the task that `kthread_create` finds. -/
def procFork (child : Option Nat) (copied : Bool) : Code Int := do
  match child with
  | none => pure (-1)
  | some child => do
      op (Op.taskAlloc child)
      if copied then do
        copyFiles child (List.range nofile)
        match <- op Op.cwd with
        | none => do
            assert false Stop.noRef
            pure (-1)
        | some cwd => do
            op (Op.inodeDup cwd)
            op (Op.setCwd child (some cwd))
            op (Op.setState child TaskState.ready)
            pure (child : Int)
      else do
        op (Op.setState child TaskState.unused)
        pure (-1)

def closeFiles : List Nat -> Code Unit
  | [] => pure ()
  | fd :: rest => do
      match <- op (Op.fetchFile fd) with
      | none => closeFiles rest
      | some f => do
          fileClose f
          let t <- op Op.self
          op (Op.setDescriptor t fd none)
          closeFiles rest

def taskExit : Code Int := do
  closeFiles (List.range nofile)
  let t <- op Op.self
  match <- op Op.cwd with
  | none => do
      op (Op.setState t TaskState.unused)
      pure 0
  | some cwd => do
      op Op.logBegin
      inodePut cwd
      logEndOp
      op (Op.setCwd t none)
      op (Op.setState t TaskState.unused)
      pure 0

/-!
# Runs of calls
-/

inductive Call where
  | openFile (path : Option Name) (omode : UInt32)
  | close (fd : Int)
  | dup (fd : Int)
  | mkdir (path : Option Name)
  | unlink (path : Option Name)
  | read (fd : Int) (blocks : List Nat) (answer : Int)
  | write (fd : Int) (chunks : List Bool) (answer : Int)
  | stat (path : Option Name) (buffer : Bool)
  | chdir (path : Option Name)
  | pipe (buffer : Bool) (memory : PipeMemory)
  | execv (path : Name) (result : ExecResult)
  | fork (child : Option Nat) (copied : Bool)
  | exit

def Call.code : Call -> Code Int
  | Call.openFile path omode => sysOpen path omode
  | Call.close fd => sysClose fd
  | Call.dup fd => sysDup fd
  | Call.mkdir path => sysMkdir path
  | Call.unlink path => sysUnlink path
  | Call.read fd blocks answer => sysRead fd blocks answer
  | Call.write fd chunks answer => sysWrite fd chunks answer
  | Call.stat path buffer => sysStat path buffer
  | Call.chdir path => sysChdir path
  | Call.pipe buffer memory => sysPipe buffer memory
  | Call.execv path result => procExecv path result
  | Call.fork child copied => procFork child copied
  | Call.exit => taskExit

/-- The file system on the disk. -/
structure Tree where
  ninodes : Nat
  dinodes : Nat -> Dinode
  data : Nat -> List Dirent
  holes : Nat -> List Nat := fun _ => []

def State.tree (s : State) : Tree :=
  { ninodes := s.ninodes, dinodes := s.dinodes, data := s.data, holes := s.holes }

/-- The place of the task that `create_initproc` makes; two tasks are there before it. -/
def initTask : Nat := 2

def bootTask (t : Nat) : Task :=
  { state := if t < initTask then TaskState.allocated
      else if t = initTask then TaskState.ready else TaskState.unused
    cwd := if t = initTask then some 0 else none
    ofiles := fun _ => none
    depth := 0 }

/-- `inodes_init`, and the `iget` of the root for `create_initproc`. -/
def bootInode (i : Nat) : CachedInode :=
  { inum := if i = 0 then rootInum else 0
    ref := if i = 0 then 1 else 0
    locked := false
    valid := false
    diskInode := { type := InodeType.none, nlink := 0 } }

/-- The kernel with its first process and nothing open. -/
def boot (disk : Tree) : State :=
  { ninodes := disk.ninodes
    dinodes := disk.dinodes
    data := disk.data
    holes := disk.holes
    icache := bootInode
    files := fun _ =>
      { type := FdType.none, refs := 0, writable := false, readable := false
        inode := 0, pipe := 0, id := 0 }
    pipes := fun _ => { readClosed := false, writeClosed := false }
    npipes := 0
    tasks := bootTask
    outstanding := 0
    committing := false
    openings := 0
    attached := []
    released := [] }

def step (s : State) (a : Nat × Call) : Option State :=
  if (s.tasks a.1).state = TaskState.ready then
    match Program.exec (perform a.1) a.2.code s with
    | Except.ok r => some r.2
    | Except.error _ => none
  else
    none

end Syscall
end Fs
end NicoOS
