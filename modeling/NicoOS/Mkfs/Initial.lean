import NicoOS.Fs.Syscall.Paths
import NicoOS.Mkfs.Building

/-!
# The initial files

`create_initial_files` of `mkfs/mkfs.c` makes the directories below the root, the console and
the programs in `/bin`.  The list of the files that it leads to is known beforehand.
-/

namespace NicoOS
namespace Mkfs

open Lib
open Fs
open Fs.Inode (InodeType Sound)
open Fs.Dir (dot dotdot)
open Fs.Syscall (slash)

def nameptrFrom (path : List UInt8) : Nat -> Nat
  | 0 => 0
  | k + 1 => if path[k + 1]? = some slash then k + 1 else nameptrFrom path k

def nameptr (path : List UInt8) : List UInt8 :=
  let k := nameptrFrom path path.length
  if path[k]? = some slash then path.drop (k + 1) else path.drop k

/-- A program: its path on the host, and the file there. -/
structure Binfile where
  path : List UInt8
  file : HostFile

/-- `struct mkfs_flags`, without the image. -/
structure Flags where
  initshFile : Option HostFile
  binfiles : List Binfile

def binName : List UInt8 := [98, 105, 110]

def devName : List UInt8 := [100, 101, 118]

def etcName : List UInt8 := [101, 116, 99]

def homeName : List UInt8 := [104, 111, 109, 101]

def consoleName : List UInt8 := [99, 111, 110, 115, 111, 108, 101]

def initshName : List UInt8 := [105, 110, 105, 116, 46, 115, 104]

def createRootFile (stack : Memory) (d : Disk) : Except Stop (UInt32 × Disk) := do
  let (inum, d) <- createFile 0 0 InodeType.directory 0 [slash] stack d
  if inum ≠ UInt32.ofNat rootInum then
    Except.error Stop.exit
  else
    Except.ok (inum, d)

/-- The step of `create_initial_files` for `/etc/init.sh`. -/
def createInitsh (etcdir : UInt32) (stack : Memory) : Option HostFile -> Disk -> Except Stop Disk
  | none, d => Except.ok d
  | some file, d => do
      let (_, d) <- writeToFsfile etcdir file initshName stack d
      Except.ok d

/-- The loop of `create_initial_files`; `stack k` is what call number `k` finds on the stack. -/
def createBinfiles (bindir : UInt32) (stack : Nat -> Memory) :
    Nat -> List Binfile -> Disk -> Except Stop Disk
  | _, [], d => Except.ok d
  | k, b :: rest, d => do
      let (_, d) <- writeToFsfile bindir b.file (nameptr b.path) (stack k) d
      createBinfiles bindir stack (k + 1) rest d

def createInitialFiles (flags : Flags) (stack : Nat -> Memory) (d : Disk) : Except Stop Disk := do
  let (root, d) <- createRootFile (stack 0) d
  let (bindir, d) <- createFile 0 0 InodeType.directory root binName (stack 1) d
  let (devdir, d) <- createFile 0 0 InodeType.directory root devName (stack 2) d
  let (etcdir, d) <- createFile 0 0 InodeType.directory root etcName (stack 3) d
  let (_, d) <- createFile 0 0 InodeType.directory root homeName (stack 4) d
  let (_, d) <- createFile 1 0 InodeType.device devdir consoleName (stack 5) d
  let d <- createInitsh etcdir (stack 6) flags.initshFile d
  createBinfiles bindir stack 7 flags.binfiles d

/-!
# The name of a program
-/

section Names

variable {path : List UInt8}

/-- Behind the byte that the loop finds there is no slash up to where it started. -/
theorem nameptrFrom_behind (k : Nat) {j : Nat} (h : nameptrFrom path k < j) (hj : j ≤ k) :
    path[j]? ≠ some slash := by
  induction k with
  | zero => exact absurd (Nat.lt_of_lt_of_le h hj) (Nat.not_lt_zero _)
  | succ k ih =>
      unfold nameptrFrom at h
      split at h
      · exact absurd hj (Nat.not_le_of_lt h)
      · rename_i hne
        cases Nat.eq_or_lt_of_le hj with
        | inl heq =>
            rw [heq]
            exact hne
        | inr hlt => exact ih h (Nat.le_of_lt_succ hlt)

theorem slash_not_mem_nameptr (path : List UInt8) : Not (slash ∈ nameptr path) := by
  intro hmem
  rcases List.mem_iff_getElem?.mp hmem with ⟨j, hj⟩
  have hbehind : forall m, nameptrFrom path path.length < m -> path[m]? ≠ some slash := by
    intro m hm heq
    have hlt : m < path.length := (List.getElem?_eq_some_iff.mp heq).choose
    exact nameptrFrom_behind path.length hm (Nat.le_of_lt hlt) heq
  unfold nameptr at hj
  dsimp only at hj
  split at hj
  · rw [List.getElem?_drop] at hj
    exact hbehind _ (by lia) hj
  · rename_i hne
    rw [List.getElem?_drop] at hj
    cases j with
    | zero => exact hne hj
    | succ j => exact hbehind _ (by lia) hj

end Names

/-!
# The list of the initial files
-/

/-- The directory number `k` below the directory number `p`. -/
def directoryNode (nlink : UInt32) (k p : Nat) (entries : Entries) : Node where
  nlink := nlink
  content := Content.directory ((dot, inumOf k) :: (dotdot, inumOf p) :: entries)

def fileNode (bytes : List UInt8) : Node where
  nlink := 1
  content := Content.file bytes

def deviceNode : Node where
  nlink := 1
  content := Content.device

/-- The entries of the programs, of which the first one is file number `k`. -/
def entriesFrom : Nat -> List Binfile -> Entries
  | _, [] => []
  | k, b :: rest => (nameptr b.path, inumOf k) :: entriesFrom (k + 1) rest

def rootEntries : Entries :=
  [(binName, inumOf 1), (devName, inumOf 2), (etcName, inumOf 3), (homeName, inumOf 4)]

def etcEntries : Option HostFile -> Entries
  | none => []
  | some _ => [(initshName, inumOf 6)]

def initshNodes : Option HostFile -> List Node
  | none => []
  | some file => [fileNode file.bytes]

def systemFiles (binEntries : Entries) (file : Option HostFile) : List Node :=
  [directoryNode 6 0 0 rootEntries, directoryNode 1 1 0 binEntries,
    directoryNode 1 2 0 [(consoleName, inumOf 5)], directoryNode 1 3 0 (etcEntries file),
    directoryNode 1 4 0 [], deviceNode] ++ initshNodes file

def Flags.first (flags : Flags) : Nat := (systemFiles [] flags.initshFile).length

def Flags.binEntries (flags : Flags) : Entries := entriesFrom flags.first flags.binfiles

def imageFiles (flags : Flags) : List Node :=
  systemFiles flags.binEntries flags.initshFile ++
    flags.binfiles.map (fun b => fileNode b.file.bytes)

def rootList : List Node := created InodeType.directory none [slash] []

def withDirectory (name : List UInt8) (nodes : List Node) : List Node :=
  created InodeType.directory (some 0) name nodes

def consoleList : List Node :=
  created InodeType.device (some 2) consoleName
    (withDirectory homeName (withDirectory etcName (withDirectory devName
      (withDirectory binName rootList))))

def withInitsh : Option HostFile -> List Node -> List Node
  | none, nodes => nodes
  | some file, nodes => written 3 file.bytes initshName nodes

def withBinfiles : List Binfile -> List Node -> List Node
  | [], nodes => nodes
  | b :: rest, nodes => withBinfiles rest (written 1 b.file.bytes (nameptr b.path) nodes)

def Node.enterAll (entries : Entries) (n : Node) : Node :=
  entries.foldl (fun n e => n.enter e.1 e.2) n

section Lists

variable {nodes : List Node} {p : Nat}

theorem modify_append (f : Node -> Node) (h : p < nodes.length) (more : List Node) :
    (nodes ++ more).modify p f = nodes.modify p f ++ more := by
  induction nodes generalizing p with
  | nil => cases h
  | cons n rest ih =>
      cases p with
      | zero => rfl
      | succ p => exact congrArg (List.cons n) (ih (Nat.lt_of_succ_lt_succ h))

theorem modify_concat (f : Node -> Node) (nodes : List Node) (n : Node) :
    (nodes ++ [n]).modify nodes.length f = nodes ++ [f n] := by
  induction nodes with
  | nil => rfl
  | cons m rest ih => exact congrArg (List.cons m) ih

theorem written_eq (h : p < nodes.length) (bytes name : List UInt8) :
    written p bytes name nodes =
      nodes.modify p (Node.enter name (inumOf nodes.length)) ++ [fileNode bytes] := by
  have hkind : InodeType.file ≠ InodeType.directory := InodeType.noConfusion
  have hlen := List.length_modify (Node.enter name (inumOf nodes.length)) nodes p
  have hlast := modify_concat (Node.extend bytes)
    (nodes.modify p (Node.enter name (inumOf nodes.length)))
    { nlink := 1, content := Content.empty InodeType.file }
  rw [hlen] at hlast
  unfold written
  rw [created_of_ne hkind, entered, modify_append _ h, hlast]
  rfl

theorem length_written (h : p < nodes.length) (bytes name : List UInt8) :
    (written p bytes name nodes).length = nodes.length + 1 := by
  rw [written_eq h, List.length_append, List.length_modify]
  rfl

theorem withBinfiles_eq (files : List Binfile) (h : 1 < nodes.length) :
    withBinfiles files nodes =
      nodes.modify 1 (Node.enterAll (entriesFrom nodes.length files)) ++
        files.map (fun b => fileNode b.file.bytes) := by
  induction files generalizing nodes with
  | nil =>
      rw [List.map_nil, List.append_nil]
      exact (List.modify_id 1 nodes).symm
  | cons b rest ih =>
      have hlen := length_written h b.file.bytes (nameptr b.path)
      have hmore :
          1 < (nodes.modify 1 (Node.enter (nameptr b.path) (inumOf nodes.length))).length := by
        rw [List.length_modify]
        exact h
      rw [withBinfiles, ih (by lia), hlen, written_eq h, modify_append _ hmore,
        List.modify_modify_eq, List.append_assoc]
      rfl

theorem enterAll_directory (nlink : UInt32) (old entries : Entries) :
    Node.enterAll entries { nlink := nlink, content := Content.directory old } =
      { nlink := nlink, content := Content.directory (old ++ entries) } := by
  induction entries generalizing old with
  | nil =>
      rw [List.append_nil]
      rfl
  | cons e rest ih =>
      have hstep := ih (old ++ [e])
      rw [List.append_assoc] at hstep
      exact hstep

theorem withInitsh_eq (file : Option HostFile) :
    withInitsh file consoleList = systemFiles [] file := by
  cases file with
  | none => rfl
  | some file =>
      rw [withInitsh, written_eq (show 3 < consoleList.length by decide)]
      rfl

theorem modify_systemFiles (entries : Entries) (file : Option HostFile) :
    (systemFiles [] file).modify 1 (Node.enterAll entries) = systemFiles entries file := by
  have hdir : Node.enterAll entries (directoryNode 1 1 0 []) = directoryNode 1 1 0 entries :=
    enterAll_directory 1 _ entries
  unfold systemFiles
  simp only [List.cons_append, List.modify_succ_cons, List.modify_zero_cons, hdir]

theorem length_systemFiles (entries : Entries) (file : Option HostFile) :
    (systemFiles entries file).length = 6 + (initshNodes file).length :=
  List.length_append

theorem imageFiles_eq (flags : Flags) :
    withBinfiles flags.binfiles (withInitsh flags.initshFile consoleList) = imageFiles flags := by
  have hlen := length_systemFiles [] flags.initshFile
  rw [withInitsh_eq, withBinfiles_eq _ (by lia), modify_systemFiles]
  rfl

end Lists

/-!
# The run
-/

/-- The image has this superblock and holds these files. -/
structure Built (sb : Superblock) (nodes : List Node) (d : Disk) : Prop where
  sb : d.sb = sb
  holds : Holds d nodes

/-- The files of the host can be read, and the names of the programs get into records. -/
structure Flags.Proper (flags : Flags) : Prop where
  initsh : forall file, flags.initshFile = some file -> file.loaded = true
  loaded : forall b, b ∈ flags.binfiles -> b.file.loaded = true
  names : forall b, b ∈ flags.binfiles -> EntryName (nameptr b.path)

section Run

variable {sb : Superblock} {nodes : List Node} {d : Disk} {p : Nat}

theorem newImage_built {sectorCnt : Int32} (h : superblockInit sectorCnt = some sb) :
    Built sb [] (newImage sb) where
  sb := rfl
  holds := by
    have hc := superblockInit_computed h
    have himage := newImage_image h
    constructor
    · exact himage
    · exact sound_relog (Inode.emptyVolume_sound himage.formatted) rfl rfl
    · show 0 < sb.ninodes.toNat
      rw [hc.ninodes]
      decide
    · intro k n hk
      rw [List.getElem?_nil] at hk
      cases hk
    · exact fun j _ _ => iread_newImage_type sb j
    · exact free_newImage sb

theorem createFile_built (h : Built sb nodes d) {p : Option Nat}
    (hp : forall k, p = some k -> DirAt nodes k) {name : List UInt8} (hname : EntryName name)
    (major minor : Int32) {typ : InodeType} (htyp : typ ≠ InodeType.none) (stack : Memory)
    (hroom : Room sb (created typ p name nodes)) :
    exists d', createFile major minor typ (pinumOf p) name stack d =
        Except.ok (inumOf nodes.length, d') ∧ Built sb (created typ p name nodes) d' := by
  rw [← h.sb] at hroom
  rcases createFile_holds h.holds hp hname major minor htyp stack hroom with ⟨d', hrun, hsb, hd⟩
  exact ⟨d', hrun, hsb.trans h.sb, hd⟩

theorem createDirectory_built (h : Built sb nodes d) (hroot : DirAt nodes 0)
    {name : List UInt8} (hname : EntryName name) (stack : Memory)
    (hroom : Room sb (withDirectory name nodes)) :
    exists d', createFile 0 0 InodeType.directory (inumOf 0) name stack d =
        Except.ok (inumOf nodes.length, d') ∧ Built sb (withDirectory name nodes) d' := by
  apply createFile_built h (p := some 0) _ hname 0 0 InodeType.noConfusion stack hroom
  intro k hk
  rw [← Option.some.inj hk]
  exact hroot

theorem writeToFsfile_built (h : Built sb nodes d) (hp : DirAt nodes p) {name : List UInt8}
    (hname : EntryName name) {file : HostFile} (hloaded : file.loaded = true) (stack : Memory)
    (hroom : Room sb (written p file.bytes name nodes)) :
    exists d', writeToFsfile (inumOf p) file name stack d =
        Except.ok (inumOf nodes.length, d') ∧ Built sb (written p file.bytes name nodes) d' := by
  have hsmall : file.length ≤ maxFileSize := by
    have hmem : fileNode file.bytes ∈ written p file.bytes name nodes := by
      rw [written_eq hp.lt]
      exact List.mem_append_right _ List.mem_cons_self
    have hbound : file.bytes.length ≤ maxFileSize := hroom.small _ hmem
    unfold HostFile.bytes at hbound
    rw [Inode.length_sourceBytes] at hbound
    exact hbound
  rw [← h.sb] at hroom
  rcases writeToFsfile_holds h.holds hp hname hloaded stack hsmall hroom with ⟨d', hrun, hsb, hd⟩
  exact ⟨d', hrun, hsb.trans h.sb, hd⟩

theorem below_withBinfiles (files : List Binfile) (nodes : List Node) :
    Below nodes (withBinfiles files nodes) := by
  induction files generalizing nodes with
  | nil => exact below_refl nodes
  | cons b rest ih => exact (below_written 1 _ _ nodes).trans (ih _)

theorem below_withInitsh (file : Option HostFile) (nodes : List Node) :
    Below nodes (withInitsh file nodes) := by
  cases file with
  | none => exact below_refl nodes
  | some file => exact below_written 3 _ _ nodes

theorem DirAt.written {k : Nat} (h : DirAt nodes k) (hp : p < nodes.length)
    (bytes name : List UInt8) : DirAt (written p bytes name nodes) k := by
  rw [written_eq hp]
  exact (h.modify p (Node.typ_enter name _)).append _

theorem createBinfiles_built (files : List Binfile) (h : Built sb nodes d) (hdir : DirAt nodes 1)
    (hloaded : forall b, b ∈ files -> b.file.loaded = true)
    (hnames : forall b, b ∈ files -> EntryName (nameptr b.path)) (stack : Nat -> Memory) (k : Nat)
    (hroom : Room sb (withBinfiles files nodes)) :
    exists d', createBinfiles (inumOf 1) stack k files d = Except.ok d' ∧
      Built sb (withBinfiles files nodes) d' := by
  induction files generalizing d nodes k with
  | nil => exact ⟨d, rfl, h⟩
  | cons b rest ih =>
      have hstep : Room sb (written 1 b.file.bytes (nameptr b.path) nodes) :=
        hroom.below (below_withBinfiles rest _)
      rcases writeToFsfile_built h hdir (hnames b List.mem_cons_self)
        (hloaded b List.mem_cons_self) (stack k) hstep with ⟨d1, hrun, h1⟩
      rcases ih h1 (hdir.written hdir.lt _ _) (fun c hc => hloaded c (List.mem_cons_of_mem b hc))
        (fun c hc => hnames c (List.mem_cons_of_mem b hc)) (k + 1) hroom with ⟨d2, hrest, h2⟩
      refine ⟨d2, ?_, h2⟩
      rw [createBinfiles, hrun, ok_bind]
      exact hrest

theorem createInitsh_built {file : Option HostFile} (h : Built sb nodes d) (hdir : DirAt nodes 3)
    (hloaded : forall f, file = some f -> f.loaded = true) (stack : Memory)
    (hroom : Room sb (withInitsh file nodes)) :
    exists d', createInitsh (inumOf 3) stack file d = Except.ok d' ∧
      Built sb (withInitsh file nodes) d' := by
  cases file with
  | none => exact ⟨d, rfl, h⟩
  | some f =>
      have hname : EntryName initshName := ⟨by decide, by decide⟩
      rcases writeToFsfile_built h hdir hname (hloaded f rfl) stack hroom with ⟨d1, hrun, h1⟩
      refine ⟨d1, ?_, h1⟩
      rw [createInitsh, hrun, ok_bind]

theorem createRootFile_built {sectorCnt : Int32} (h : superblockInit sectorCnt = some sb)
    (stack : Memory) (hroom : Room sb rootList) :
    exists d', createRootFile stack (newImage sb) = Except.ok (inumOf 0, d') ∧
      Built sb rootList d' := by
  have hname : EntryName [slash] := ⟨by decide, by decide⟩
  rcases createFile_built (newImage_built h) (p := none) (fun k hk => by cases hk) hname 0 0
    InodeType.noConfusion stack hroom with ⟨d', hrun, hd⟩
  have hstart : createFile 0 0 InodeType.directory 0 [slash] stack (newImage sb) =
      Except.ok (inumOf 0, d') := hrun
  refine ⟨d', ?_, hd⟩
  unfold createRootFile
  rw [hstart, ok_bind]
  exact if_neg (not_not_intro rfl)

/-- On a new image with the room, `create_initial_files` makes the files of the list. -/
theorem createInitialFiles_built {sectorCnt : Int32} (h : superblockInit sectorCnt = some sb)
    {flags : Flags} (hflags : flags.Proper) (stack : Nat -> Memory)
    (hroom : Room sb (imageFiles flags)) :
    exists d, createInitialFiles flags stack (newImage sb) = Except.ok d ∧
      Built sb (imageFiles flags) d := by
  have hbin : EntryName binName := ⟨by decide, by decide⟩
  have hdev : EntryName devName := ⟨by decide, by decide⟩
  have hetc : EntryName etcName := ⟨by decide, by decide⟩
  have hhome : EntryName homeName := ⟨by decide, by decide⟩
  have hdevname : EntryName consoleName := ⟨by decide, by decide⟩
  rw [← imageFiles_eq] at hroom ⊢
  -- The room for the whole list is room for every list on the way.
  have hroom6 := hroom.below (below_withBinfiles _ _)
  have hroom5 : Room sb consoleList := hroom6.below (below_withInitsh _ _)
  have hroom4 := hroom5.below (below_created _ _ _ _)
  have hroom3 := hroom4.below (below_created _ _ _ _)
  have hroom2 := hroom3.below (below_created _ _ _ _)
  have hroom1 := hroom2.below (below_created _ _ _ _)
  have hroom0 := hroom1.below (below_created _ _ _ _)
  rcases createRootFile_built h (stack 0) hroom0 with ⟨d0, hrun0, h0⟩
  rcases createDirectory_built h0 ⟨_, rfl, rfl⟩ hbin (stack 1) hroom1 with ⟨d1, hrun1, h1⟩
  rcases createDirectory_built h1 ⟨_, rfl, rfl⟩ hdev (stack 2) hroom2 with ⟨d2, hrun2, h2⟩
  rcases createDirectory_built h2 ⟨_, rfl, rfl⟩ hetc (stack 3) hroom3 with ⟨d3, hrun3, h3⟩
  rcases createDirectory_built h3 ⟨_, rfl, rfl⟩ hhome (stack 4) hroom4 with ⟨d4, hrun4, h4⟩
  have hdevice : forall k, some 2 = some k -> DirAt (withDirectory homeName (withDirectory etcName
      (withDirectory devName (withDirectory binName rootList)))) k := by
    intro k hk
    rw [← Option.some.inj hk]
    exact ⟨_, rfl, rfl⟩
  rcases createFile_built h4 (p := some 2) hdevice hdevname 1 0 InodeType.noConfusion (stack 5)
    hroom5 with ⟨d5, hrun5, h5⟩
  rcases createInitsh_built h5 ⟨_, rfl, rfl⟩ hflags.initsh (stack 6) hroom6 with ⟨d6, hrun6, h6⟩
  have hbindir : DirAt (withInitsh flags.initshFile consoleList) 1 := by
    rw [withInitsh_eq]
    cases flags.initshFile with
    | none => exact ⟨_, rfl, rfl⟩
    | some file => exact ⟨_, rfl, rfl⟩
  rcases createBinfiles_built flags.binfiles h6 hbindir hflags.loaded hflags.names stack 7 hroom
    with ⟨d7, hrun7, h7⟩
  refine ⟨d7, ?_, h7⟩
  unfold createInitialFiles
  rw [hrun0, ok_bind]
  dsimp only
  rw [hrun1, ok_bind]
  dsimp only
  rw [hrun2, ok_bind]
  dsimp only
  rw [hrun3, ok_bind]
  dsimp only
  rw [hrun4, ok_bind]
  dsimp only
  have hlen1 : rootList.length = 1 := rfl
  have hlen2 : (withDirectory binName rootList).length = 2 := rfl
  have hlen3 : (withDirectory devName (withDirectory binName rootList)).length = 3 := rfl
  have hconsole : createFile 1 0 InodeType.device (inumOf 2) consoleName (stack 5) d4 =
      Except.ok (inumOf 5, d5) := hrun5
  rw [hlen1, hlen2, hlen3, hconsole, ok_bind]
  dsimp only
  rw [hrun6, ok_bind]
  exact hrun7

end Run

end Mkfs
end NicoOS
