import NicoOS.Fs.Dir.PathLookup
import NicoOS.Mkfs.Initial

/-!
# The image read back by the kernel

`mkfs` and the kernel have their own copies of the inode layout, the block mapping and the
directory format.  What the kernel finds on the image of `create_initial_files` is what the list
of its files says.
-/

namespace NicoOS
namespace Mkfs

open Lib
open Fs
open Fs.Inode (State InodeType Dinode Filled BlocksOwned dinodeAt contents)
open Fs.Dir (nameMap slotAt slots dot dotdot)
open Fs.Syscall (Name slash components)

/-- The kernel runs on this image, and nobody has used its inode cache yet. -/
structure Mounted (d : Disk) (s : State) : Prop where
  sb : s.vol.sb = d.sb
  blk : s.vol.blk = d.blk
  idle : Dir.Idle s

def mount (d : Disk) : State :=
  Inode.inodesInit
    { sb := d.sb, blk := d.blk, lh := { n := 0, blocks := fun _ => 0 }, outstanding := 0 }

theorem mounted_mount (d : Disk) : Mounted d (mount d) where
  sb := rfl
  blk := rfl
  idle := fun _ => And.intro rfl rfl

section Mounted

variable {d : Disk} {s : State}

theorem Mounted.dinodeAt_eq (h : Mounted d s) (inum : UInt32) :
    dinodeAt s.vol inum = iread d inum := by
  unfold dinodeAt iread
  rw [h.sb, h.blk]

/-- Neither the file contents nor the bitmap depend on the size in the superblock or on the log. -/
theorem Mounted.contents_eq (h : Mounted d s) (i : Dinode) :
    contents s.vol i = contents d.volume i := by
  rcases s with ⟨⟨sb, blk, lh, outstanding⟩, icache⟩
  cases (show blk = d.blk from h.blk)
  rfl

theorem Mounted.filled (h : Mounted d s) {i : Dinode} (hf : Filled d.volume i) :
    Filled s.vol i := by
  rcases s with ⟨⟨sb, blk, lh, outstanding⟩, icache⟩
  cases (show blk = d.blk from h.blk)
  exact ⟨hf.mapped, hf.bounded⟩

theorem Mounted.blocksOwned (h : Mounted d s) (ho : BlocksOwned d.volume) :
    BlocksOwned s.vol := by
  rcases s with ⟨⟨sb, blk, lh, outstanding⟩, icache⟩
  cases (show blk = d.blk from h.blk)
  cases (show sb = d.sb from h.sb)
  exact ⟨ho.bit_iff, ho.marked⟩

end Mounted

/-!
# Lookups in lists of entries
-/

section Lists

variable {c name : List UInt8} {entries : Entries} {inum : UInt32}

theorem Lists.slots_eq (h : Lists c entries) : slots c = entries.length := by
  unfold slots
  rw [h.length]
  exact Nat.mul_div_cancel_left _ (by decide)

theorem Lists.mem_of_nameMap (h : Lists c entries) (hmap : nameMap c name = some inum) :
    (name, inum) ∈ entries := by
  unfold nameMap SlotMap.binding at hmap
  rcases Option.map_eq_some_iff.mp hmap with ⟨p, hp, heq⟩
  rcases p with ⟨k, b⟩
  cases heq
  have hslot := (SlotMap.find_some hp).right.right
  rw [h.slot] at hslot
  exact List.mem_of_getElem? hslot

/-- Where the names are distinct every entry is found. -/
theorem Lists.nameMap_eq (h : Lists c entries) (hdistinct : (entries.map Prod.fst).Nodup)
    (hmem : (name, inum) ∈ entries) : nameMap c name = some inum := by
  have hd : SlotMap.Distinct (slotAt c) (slots c) := by
    intro j k l a b hj hk hslotj hslotk
    rw [h.slots_eq] at hj
    rw [h.slot] at hslotj hslotk
    have hlen : j < (entries.map Prod.fst).length := by
      rw [List.length_map]
      exact hj
    apply (List.getElem?_inj hlen hdistinct).mp
    rw [List.getElem?_map, List.getElem?_map, hslotj, hslotk]
    rfl
  rcases List.mem_iff_getElem?.mp hmem with ⟨k, hk⟩
  apply (SlotMap.binding_eq_some_iff hd).mpr
  refine ⟨k, ?_, ?_⟩
  · rw [h.slots_eq]
    exact (List.getElem?_eq_some_iff.mp hk).choose
  · rw [h.slot]
    exact hk

end Lists

theorem Content.eq_directory {c : Content} (h : c.typ.code = InodeType.directory.code) :
    exists entries, c = Content.directory entries := by
  cases c with
  | file bytes =>
      have hne : InodeType.file.code ≠ InodeType.directory.code := by decide
      exact absurd h hne
  | directory entries => exact ⟨entries, rfl⟩
  | device =>
      have hne : InodeType.device.code ≠ InodeType.directory.code := by decide
      exact absurd h hne

def Listed (nodes : List Node) (inum : UInt32) : Prop :=
  exists k, k < nodes.length ∧ inum = inumOf k

/-- Every file has links, and the directories name files of the list. -/
structure Closed (nodes : List Node) : Prop where
  linked : forall n, n ∈ nodes -> n.nlink ≠ 0
  entries : forall n es, n ∈ nodes -> n.content = Content.directory es ->
    forall e, e ∈ es -> Listed nodes e.2

section Holds

variable {d : Disk} {s : State} {nodes : List Node} {k : Nat} {n : Node} {entries : Entries}

theorem Holds.seen (h : Holds d nodes) (hm : Mounted d s) (hk : nodes[k]? = some n) :
    (dinodeAt s.vol (inumOf k)).type = n.content.typ.code ∧
      (dinodeAt s.vol (inumOf k)).nlink = n.nlink ∧
        Filled s.vol (dinodeAt s.vol (inumOf k)) ∧
          n.content.Shows (contents s.vol (dinodeAt s.vol (inumOf k))) := by
  rcases h.node k n hk with ⟨c, hc, hshows⟩
  rw [hm.dinodeAt_eq, hm.contents_eq, hc.bytes]
  exact ⟨hc.type, hc.nlink, hm.filled (h.sound.filled _ hc.live), hshows⟩

theorem Holds.lists (h : Holds d nodes) (hm : Mounted d s) (hk : nodes[k]? = some n)
    (hdir : n.content = Content.directory entries) :
    (dinodeAt s.vol (inumOf k)).type = InodeType.directory.code ∧
      Lists (contents s.vol (dinodeAt s.vol (inumOf k))) entries := by
  rcases h.seen hm hk with ⟨htype, -, -, hshows⟩
  rw [hdir] at htype hshows
  exact And.intro htype hshows

theorem Holds.tidy (h : Holds d nodes) (hc : Closed nodes) (hm : Mounted d s) :
    Dir.Tidy s.vol (Listed nodes) := by
  have hnode : forall k, k < nodes.length -> exists n, nodes[k]? = some n ∧ n ∈ nodes := by
    intro k hk
    exact ⟨nodes[k], List.getElem?_eq_getElem hk, List.getElem_mem hk⟩
  constructor
  · intro j hex
    rcases hex with ⟨k, hk, rfl⟩
    rcases hnode k hk with ⟨n, hn, -⟩
    rw [(h.seen hm hn).left]
    exact InodeType.code_ne_none n.content.typ_ne_none
  · intro j hex
    rcases hex with ⟨k, hk, rfl⟩
    rcases hnode k hk with ⟨n, hn, hmem⟩
    rw [(h.seen hm hn).right.left]
    exact hc.linked n hmem
  · intro j hex
    rcases hex with ⟨k, hk, rfl⟩
    rcases hnode k hk with ⟨n, hn, -⟩
    exact (h.seen hm hn).right.right.left
  · intro j hex htype
    rcases hex with ⟨k, hk, rfl⟩
    rcases hnode k hk with ⟨n, hn, -⟩
    rw [(h.seen hm hn).left] at htype
    rcases Content.eq_directory htype with ⟨entries, hdir⟩
    have hlists := (h.lists hm hn hdir).right
    have hsize := hlists.length
    rw [Inode.length_contents] at hsize
    rw [hsize]
    exact Nat.mul_mod_right _ _
  · intro j name next hex htype hmap
    rcases hex with ⟨k, hk, rfl⟩
    rcases hnode k hk with ⟨n, hn, hmem⟩
    rw [(h.seen hm hn).left] at htype
    rcases Content.eq_directory htype with ⟨entries, hdir⟩
    exact hc.entries n entries hmem hdir _ ((h.lists hm hn hdir).right.mem_of_nameMap hmap)

theorem Holds.resolve_entry (h : Holds d nodes) (hm : Mounted d s) (hk : nodes[k]? = some n)
    (hdir : n.content = Content.directory entries)
    (hdistinct : (entries.map Prod.fst).Nodup) {name : Name} {inum : UInt32}
    (hmem : (name, inum) ∈ entries) (rest : List Name) :
    Dir.resolve s.vol (inumOf k) (name :: rest) = Dir.resolve s.vol inum rest := by
  rcases h.lists hm hk hdir with ⟨htype, hlists⟩
  rw [Dir.resolve, if_pos htype, hlists.nameMap_eq hdistinct hmem]

end Holds

/-!
# Files
-/

/-- `path_lookup` finds a file, and `inode_read` over its size gives these bytes. -/
def ReadsFile (s : State) (path : Name) (bytes : List UInt8) : Prop :=
  forall cwd junk answer, exists i t u w,
    Dir.pathLookup cwd path junk s = Except.ok (some i, t) ∧
      Inode.inodeLock i t = Except.ok u ∧
        (u.icache i).diskInode.type = InodeType.file.code ∧
          (u.icache i).diskInode.size.toNat = bytes.length ∧
            Inode.inodeRead i answer 0 (u.icache i).diskInode.size u =
              Except.ok ((u.icache i).diskInode.size.toInt32, bytes, w)

section Files

variable {d : Disk} {s : State} {nodes : List Node} {k : Nat} {n : Node}

/-- A file of the list, at a path that its directories name. -/
theorem Holds.readsFile (h : Holds d nodes) (hc : Closed nodes) (hm : Mounted d s) {path : Name}
    (hnames : forall c, c ∈ components path -> Dir.Fits c) (hk : nodes[k]? = some n)
    {bytes : List UInt8} (hfile : n.content = Content.file bytes)
    (hresolve : Dir.resolve s.vol (inumOf 0) (components path) = some (inumOf k)) :
    ReadsFile s (slash :: path) bytes := by
  intro cwd junk answer
  have hlt := lt_of_getElem? hk
  have hroot : Listed nodes (UInt32.ofNat rootInum) := ⟨0, Nat.zero_lt_of_lt hlt, rfl⟩
  have htidy := h.tidy hc hm
  rcases Dir.pathLookup_resolves hm.idle htidy hroot cwd path hnames junk with
    ⟨found, t, hlookup, htvol, hanswer⟩
  have hstart : UInt32.ofNat rootInum = inumOf 0 := rfl
  rw [hstart, hresolve] at hanswer
  rcases hanswer with ⟨i, hfound, hquiet⟩
  rcases h.seen hm hk with ⟨htype, -, hfilled, hshows⟩
  rw [hfile] at htype hshows
  rw [← htvol] at htype hfilled hshows
  have htyped : (dinodeAt t.vol (inumOf k)).type ≠ InodeType.none.code := by
    rw [htype]
    exact InodeType.code_ne_none InodeType.noConfusion
  rcases hquiet.lock htyped with ⟨u, hlock, huvol, hgrasp, -, -⟩
  rw [← huvol] at htype hfilled hshows
  rw [← hgrasp.loaded] at htype hfilled hshows
  have hbytes : contents u.vol (u.icache i).diskInode = bytes := hshows
  have hsize : (u.icache i).diskInode.size.toNat = bytes.length := by
    rw [← hbytes]
    exact (Inode.length_contents _ _).symm
  have hdevice : (u.icache i).diskInode.type ≠ InodeType.device.code := by
    rw [htype]
    show InodeType.file.code ≠ InodeType.device.code
    decide
  have hrange : Not (Inode.RangeRefused (u.icache i).diskInode.size.toNat (0 : UInt32).toNat
      (u.icache i).diskInode.size.toNat) := by
    have hword := (u.icache i).diskInode.size.toNat_lt
    have hzero : (0 : UInt32).toNat = 0 := rfl
    unfold Inode.RangeRefused
    lia
  rw [hfound] at hlookup
  refine ⟨i, t, u, u.setInode i (u.icache i), hlookup, hlock, htype, hsize, ?_⟩
  have hclip : min (u.icache i).diskInode.size.toNat
      ((u.icache i).diskInode.size.toNat - (0 : UInt32).toNat) =
        (u.icache i).diskInode.size.toNat := Nat.min_self _
  have hall : ((contents u.vol (u.icache i).diskInode).drop (0 : UInt32).toNat).take
      (u.icache i).diskInode.size.toNat = bytes := by
    rw [hbytes, hsize]
    exact List.take_length
  unfold Inode.inodeRead
  dsimp only
  rw [if_neg hdevice, Inode.readFile_eq hfilled, if_neg hrange, hclip, hall, UInt32.ofNat_toNat]
  rfl

end Files

/-!
# Programs and directories of the image
-/

/-- The directory `p` names `j`, or `j` is the root and its own parent. -/
def ParentOf (v : Volume) (p j : UInt32) : Prop :=
  (j = UInt32.ofNat rootInum ∧ p = j) ∨
    exists name, name ≠ dot ∧ name ≠ dotdot ∧
      (dinodeAt v p).type = InodeType.directory.code ∧
        nameMap (contents v (dinodeAt v p)) name = some j

/-- The first records of a directory name itself and its parent. -/
def DotsFirst (v : Volume) : Prop :=
  forall j, j < v.sb.ninodes -> (dinodeAt v j).type = InodeType.directory.code ->
    exists p, ParentOf v p j ∧ slotAt (contents v (dinodeAt v j)) 0 = some (dot, j) ∧
      slotAt (contents v (dinodeAt v j)) 1 = some (dotdot, p)

/-- The names of the programs are distinct, and not those of the first two entries. -/
structure Flags.Named (flags : Flags) : Prop where
  nonempty : forall b, b ∈ flags.binfiles -> nameptr b.path ≠ []
  no_dot : forall b, b ∈ flags.binfiles -> nameptr b.path ≠ dot
  no_dotdot : forall b, b ∈ flags.binfiles -> nameptr b.path ≠ dotdot
  distinct : (flags.binfiles.map (fun b => nameptr b.path)).Nodup

section Image

variable {flags : Flags} {files : List Binfile} {k i : Nat} {b : Binfile} {n : Node}
  {entries : Entries}

theorem names_entriesFrom (k : Nat) (files : List Binfile) :
    (entriesFrom k files).map Prod.fst = files.map (fun b => nameptr b.path) := by
  induction files generalizing k with
  | nil => rfl
  | cons b rest ih => exact congrArg (List.cons (nameptr b.path)) (ih (k + 1))

theorem getElem?_entriesFrom (k : Nat) (h : files[i]? = some b) :
    (entriesFrom k files)[i]? = some (nameptr b.path, inumOf (k + i)) := by
  induction files generalizing k i with
  | nil => cases h
  | cons c rest ih =>
      cases i with
      | zero =>
          have hc : c = b := Option.some.inj h
          rw [hc]
          rfl
      | succ i =>
          have hnext : k + (i + 1) = k + 1 + i := by lia
          rw [hnext]
          exact ih (k + 1) h

theorem mem_entriesFrom {k : Nat} {e : List UInt8 × UInt32} (h : e ∈ entriesFrom k files) :
    exists i, i < files.length ∧ e.2 = inumOf (k + i) := by
  induction files generalizing k with
  | nil => cases h
  | cons c rest ih =>
      cases List.mem_cons.mp h with
      | inl heq =>
          rw [heq]
          exact ⟨0, Nat.succ_pos _, rfl⟩
      | inr hrest =>
          rcases ih hrest with ⟨i, hi, heq⟩
          refine ⟨i + 1, Nat.succ_lt_succ hi, ?_⟩
          rw [heq]
          congr 1
          lia

theorem first_eq (flags : Flags) : flags.first = 6 + (initshNodes flags.initshFile).length :=
  length_systemFiles [] flags.initshFile

theorem length_imageFiles (flags : Flags) :
    (imageFiles flags).length = flags.first + flags.binfiles.length := by
  rw [first_eq, ← length_systemFiles flags.binEntries, imageFiles, List.length_append,
    List.length_map]

theorem imageFiles_program (hb : flags.binfiles[i]? = some b) :
    (imageFiles flags)[flags.first + i]? = some (fileNode b.file.bytes) := by
  have hlen := length_systemFiles flags.binEntries flags.initshFile
  rw [← first_eq] at hlen
  rw [imageFiles, List.getElem?_append_right (by lia), hlen, Nat.add_sub_cancel_left,
    List.getElem?_map, hb]
  rfl

/-- A directory number `k`, with what is behind its first two entries. -/
structure Placed (flags : Flags) (k : Nat) (more : Entries) : Prop where
  named : k = 0 ∨
    exists name, name ≠ dot ∧ name ≠ dotdot ∧ (name, inumOf k) ∈ rootEntries
  listed : forall e, e ∈ more -> Listed (imageFiles flags) e.2

theorem listed_of_lt (flags : Flags) {j : Nat} (h : j < flags.first) :
    Listed (imageFiles flags) (inumOf j) := by
  refine ⟨j, ?_, rfl⟩
  rw [length_imageFiles]
  exact Nat.lt_add_right _ h

theorem listed_rootEntries (flags : Flags) {e : List UInt8 × UInt32} (h : e ∈ rootEntries) :
    Listed (imageFiles flags) e.2 := by
  have hfirst := first_eq flags
  have hlisted : forall j, j < 5 -> Listed (imageFiles flags) (inumOf j) :=
    fun j hj => listed_of_lt flags (by lia)
  unfold rootEntries at h
  simp only [List.mem_cons, List.not_mem_nil, or_false] at h
  rcases h with rfl | rfl | rfl | rfl
  · exact hlisted 1 (by decide)
  · exact hlisted 2 (by decide)
  · exact hlisted 3 (by decide)
  · exact hlisted 4 (by decide)

theorem listed_binEntries {e : List UInt8 × UInt32} (h : e ∈ flags.binEntries) :
    Listed (imageFiles flags) e.2 := by
  rcases mem_entriesFrom h with ⟨i, hi, heq⟩
  refine ⟨flags.first + i, ?_, heq⟩
  rw [length_imageFiles]
  lia

theorem listed_etcEntries {e : List UInt8 × UInt32} (h : e ∈ etcEntries flags.initshFile) :
    Listed (imageFiles flags) e.2 := by
  have hfirst := first_eq flags
  cases hfile : flags.initshFile with
  | none =>
      rw [hfile] at h
      cases h
  | some file =>
      rw [hfile] at h hfirst
      rw [List.mem_singleton.mp h]
      exact listed_of_lt flags (by rw [hfirst]; exact Nat.lt_succ_self 6)

theorem directoryNode_entries {nlink : UInt32} {p : Nat} {more : Entries}
    (h : (directoryNode nlink k p more).content = Content.directory entries) :
    entries = (dot, inumOf k) :: (dotdot, inumOf p) :: more :=
  (Content.directory.inj h).symm

/-- The directories of the image are the root and those below it. -/
theorem imageFiles_directory (hk : (imageFiles flags)[k]? = some n)
    (hdir : n.content = Content.directory entries) :
    exists more, entries = (dot, inumOf k) :: (dotdot, inumOf 0) :: more ∧
      Placed flags k more := by
  have hconsole : forall e, e ∈ [(consoleName, inumOf 5)] -> Listed (imageFiles flags) e.2 := by
    intro e he
    have hfirst := first_eq flags
    rw [List.mem_singleton.mp he]
    exact listed_of_lt flags (by lia)
  rcases k with _ | _ | _ | _ | _ | _ | k
  · cases hk
    exact ⟨_, directoryNode_entries hdir, Or.inl rfl, fun _ he => listed_rootEntries flags he⟩
  · cases hk
    exact ⟨_, directoryNode_entries hdir, Or.inr ⟨binName, by decide, by decide, by decide⟩,
      fun _ he => listed_binEntries he⟩
  · cases hk
    exact ⟨_, directoryNode_entries hdir, Or.inr ⟨devName, by decide, by decide, by decide⟩,
      hconsole⟩
  · cases hk
    exact ⟨_, directoryNode_entries hdir, Or.inr ⟨etcName, by decide, by decide, by decide⟩,
      fun _ he => listed_etcEntries he⟩
  · cases hk
    exact ⟨_, directoryNode_entries hdir, Or.inr ⟨homeName, by decide, by decide, by decide⟩,
      fun _ he => absurd he List.not_mem_nil⟩
  · cases hk
    cases hdir
  · -- Behind the console there are files only.
    have hfile : exists bytes, n = fileNode bytes := by
      have htail : (initshNodes flags.initshFile ++
          flags.binfiles.map (fun b => fileNode b.file.bytes))[k]? = some n := hk
      cases List.mem_append.mp (List.mem_of_getElem? htail) with
      | inl hinit =>
          cases hfile : flags.initshFile with
          | none =>
              rw [hfile] at hinit
              cases hinit
          | some file =>
              rw [hfile] at hinit
              exact ⟨file.bytes, List.mem_singleton.mp hinit⟩
      | inr hmem =>
          rcases List.mem_map.mp hmem with ⟨b, -, heq⟩
          exact ⟨b.file.bytes, heq.symm⟩
    rcases hfile with ⟨bytes, rfl⟩
    cases hdir

theorem imageFiles_linked (hn : n ∈ imageFiles flags) : n.nlink ≠ 0 := by
  have hsix : (6 : UInt32) ≠ 0 := by decide
  have hone : (1 : UInt32) ≠ 0 := by decide
  unfold imageFiles systemFiles at hn
  simp only [List.cons_append, List.nil_append, List.mem_cons, List.mem_append, List.mem_map] at hn
  rcases hn with rfl | rfl | rfl | rfl | rfl | rfl | hinit | ⟨b, -, rfl⟩
  · exact hsix
  · exact hone
  · exact hone
  · exact hone
  · exact hone
  · exact hone
  · cases hfile : flags.initshFile with
    | none =>
        rw [hfile] at hinit
        cases hinit
    | some file =>
        rw [hfile] at hinit
        rw [List.mem_singleton.mp hinit]
        exact hone
  · exact hone

theorem imageFiles_closed (flags : Flags) : Closed (imageFiles flags) where
  linked := fun _ hn => imageFiles_linked hn
  entries := by
    intro n es hn hdir e he
    have hfirst := first_eq flags
    rcases List.mem_iff_getElem?.mp hn with ⟨k, hk⟩
    rcases imageFiles_directory hk hdir with ⟨more, rfl, hplaced⟩
    cases List.mem_cons.mp he with
    | inl heq =>
        rw [heq]
        exact ⟨k, lt_of_getElem? hk, rfl⟩
    | inr hrest =>
        cases List.mem_cons.mp hrest with
        | inl heq =>
            rw [heq]
            exact listed_of_lt flags (by lia)
        | inr hmore => exact hplaced.listed e hmore

def binPath (b : Binfile) : Name := binName ++ slash :: nameptr b.path

theorem components_binPath (hne : nameptr b.path ≠ []) :
    components (binPath b) = [binName, nameptr b.path] := by
  have hbin : components binName = [binName] := Syscall.components_single (by decide) (by decide)
  unfold binPath
  rw [Syscall.components_append_slash, hbin,
    Syscall.components_single hne (slash_not_mem_nameptr b.path)]
  rfl

end Image

section ReadBack

variable {d : Disk} {s : State} {flags : Flags} {b : Binfile}

theorem image_root (flags : Flags) :
    (imageFiles flags)[0]? = some (directoryNode 6 0 0 rootEntries) := rfl

theorem image_bin (flags : Flags) :
    (imageFiles flags)[1]? = some (directoryNode 1 1 0 flags.binEntries) := rfl

theorem distinct_root : (((dot, inumOf 0) :: (dotdot, inumOf 0) :: rootEntries).map
    Prod.fst).Nodup := by
  decide

theorem distinct_bin (hflags : flags.Named) :
    (((dot, inumOf 1) :: (dotdot, inumOf 0) :: flags.binEntries).map Prod.fst).Nodup := by
  have hnames : flags.binEntries.map Prod.fst = flags.binfiles.map (fun b => nameptr b.path) :=
    names_entriesFrom _ _
  rw [List.map_cons, List.map_cons, hnames, List.nodup_cons, List.nodup_cons]
  refine ⟨?_, ?_, hflags.distinct⟩
  · intro hmem
    cases List.mem_cons.mp hmem with
    | inl heq => exact absurd heq (by decide)
    | inr hrest =>
        rcases List.mem_map.mp hrest with ⟨b, hb, heq⟩
        exact hflags.no_dot b hb heq
  · intro hmem
    rcases List.mem_map.mp hmem with ⟨b, hb, heq⟩
    exact hflags.no_dotdot b hb heq

theorem Holds.reads_program (h : Holds d (imageFiles flags)) (hflags : flags.Named)
    (hnames : forall b, b ∈ flags.binfiles -> EntryName (nameptr b.path)) (hm : Mounted d s)
    (hb : b ∈ flags.binfiles) : ReadsFile s (slash :: binPath b) b.file.bytes := by
  rcases List.mem_iff_getElem?.mp hb with ⟨i, hi⟩
  have hcomponents := components_binPath (hflags.nonempty b hb)
  have hname := hnames b hb
  apply h.readsFile (imageFiles_closed flags) hm _ (imageFiles_program hi) rfl
  · have hentry : (nameptr b.path, inumOf (flags.first + i)) ∈ flags.binEntries :=
      List.mem_of_getElem? (getElem?_entriesFrom flags.first hi)
    have hbin : (binName, inumOf 1) ∈ rootEntries := List.mem_cons_self
    rw [hcomponents,
      h.resolve_entry hm (image_root flags) rfl distinct_root
        (List.mem_cons_of_mem _ (List.mem_cons_of_mem _ hbin)),
      h.resolve_entry hm (image_bin flags) rfl (distinct_bin hflags)
        (List.mem_cons_of_mem _ (List.mem_cons_of_mem _ hentry)), Dir.resolve]
  · intro c hc
    rw [hcomponents] at hc
    cases List.mem_cons.mp hc with
    | inl heq =>
        rw [heq]
        exact ⟨by decide, by decide⟩
    | inr hrest =>
        rw [List.mem_singleton.mp hrest]
        exact ⟨hname.nonzero, Nat.le_of_lt hname.short⟩

/-- The directories name themselves and their parents first. -/
theorem Holds.dotsFirst (h : Holds d (imageFiles flags)) (hm : Mounted d s) :
    DotsFirst s.vol := by
  intro j hj htype
  have hlisted : Listed (imageFiles flags) j := by
    by_contra hnot
    have hnone := h.free j (by rw [← hm.sb]; exact hj)
      (fun k hk heq => hnot ⟨k, hk, heq⟩)
    have hinUse : InodeType.directory.code ≠ InodeType.none.code := by decide
    rw [← hm.dinodeAt_eq, htype] at hnone
    exact hinUse hnone
  rcases hlisted with ⟨k, hk, rfl⟩
  have hnode := List.getElem?_eq_getElem hk
  rw [(h.seen hm hnode).left] at htype
  rcases Content.eq_directory htype with ⟨entries, hdir⟩
  have hlists := (h.lists hm hnode hdir).right
  rcases imageFiles_directory hnode hdir with ⟨more, rfl, hplaced⟩
  refine ⟨inumOf 0, ?_, hlists.slot 0, hlists.slot 1⟩
  rcases hplaced.named with rfl | ⟨name, hdot, hdotdot, hname⟩
  · exact Or.inl ⟨rfl, rfl⟩
  · have hroot := h.lists hm (image_root flags) rfl
    exact Or.inr ⟨name, hdot, hdotdot, hroot.left, hroot.right.nameMap_eq distinct_root
      (List.mem_cons_of_mem _ (List.mem_cons_of_mem _ hname))⟩

/--
Where the files have room, the kernel reads from the image of `create_initial_files` what the
host's files hold, its directories start with `.` and `..`, and the bitmap marks the blocks
of its inodes.
-/
theorem createInitialFiles_readsBack {sectorCnt : Int32} {sb : Superblock}
    (h : superblockInit sectorCnt = some sb) {flags : Flags} (hproper : flags.Proper)
    (hnamed : flags.Named) (hroom : Room sb (imageFiles flags)) (stack : Nat -> Memory) :
    exists d, createInitialFiles flags stack (newImage sb) = Except.ok d ∧
      forall s, Mounted d s ->
        (forall b, b ∈ flags.binfiles -> ReadsFile s (slash :: binPath b) b.file.bytes) ∧
          DotsFirst s.vol ∧ BlocksOwned s.vol := by
  rcases createInitialFiles_built h hproper stack hroom with ⟨d, hrun, hbuilt⟩
  refine ⟨d, hrun, ?_⟩
  intro s hm
  refine ⟨?_, hbuilt.holds.dotsFirst hm, hm.blocksOwned hbuilt.holds.sound.blocksOwned⟩
  exact fun b hb => hbuilt.holds.reads_program hnamed hproper.names hm hb

/--
Two programs, from the paths `out/ls` and `out/sh` of the host; the second one needs the
indirect block.
-/
def binFlags : Flags where
  initshFile := none
  binfiles :=
    [{ path := [111, 117, 116, 47, 108, 115], file := zeroFile 3 },
      { path := [111, 117, 116, 47, 115, 104], file := zeroFile 8000 }]

theorem binFlags_files {b : Binfile} (hb : b ∈ binFlags.binfiles) :
    b.file.loaded = true ∧ (nameptr b.path = [108, 115] ∨ nameptr b.path = [115, 104]) := by
  cases List.mem_cons.mp hb with
  | inl hls =>
      rw [hls]
      exact ⟨by decide, Or.inl (by decide)⟩
  | inr hrest =>
      rw [List.mem_singleton.mp hrest]
      exact ⟨by decide, Or.inr (by decide)⟩

theorem binFlags_names {P : List UInt8 -> Prop} (hls : P [108, 115]) (hsh : P [115, 104])
    {b : Binfile} (hb : b ∈ binFlags.binfiles) : P (nameptr b.path) := by
  cases (binFlags_files hb).right with
  | inl h =>
      rw [h]
      exact hls
  | inr h =>
      rw [h]
      exact hsh

theorem bin_image : exists sb, superblockInit 163840 = some sb ∧ binFlags.Proper ∧
    binFlags.Named ∧ Room sb (imageFiles binFlags) := by
  have hfields : (superblockInit 163840).map (fun sb => (sb.ninodes.toNat, sb.bmapBytes.toNat)) =
      some (16384, 20178) := by decide
  rcases Option.map_eq_some_iff.mp hfields with ⟨sb, h, hsizes⟩
  rcases Prod.mk.inj hsizes with ⟨hninodes, hbmapBytes⟩
  refine ⟨sb, h, ?_, ?_, ?_⟩
  · constructor
    · intro file hfile
      cases hfile
    · exact fun b hb => (binFlags_files hb).left
    · exact fun b hb =>
        binFlags_names (P := EntryName) ⟨by decide, by decide⟩ ⟨by decide, by decide⟩ hb
  · constructor
    · exact fun b hb => binFlags_names (P := fun name => name ≠ []) (by decide) (by decide) hb
    · exact fun b hb => binFlags_names (P := fun name => name ≠ dot) (by decide) (by decide) hb
    · exact fun b hb => binFlags_names (P := fun name => name ≠ dotdot) (by decide) (by decide) hb
    · decide
  · constructor
    · rw [hninodes]
      decide +kernel
    · decide +kernel
    · have hcost : cost (imageFiles binFlags) ≤ 100 := by decide +kernel
      lia

/-- The programs are read back from `/bin/ls` and `/bin/sh` of the 80 MB image. -/
theorem createInitialFiles_readsBack_bin : exists sb d, superblockInit 163840 = some sb ∧
    createInitialFiles binFlags (fun _ _ => 0) (newImage sb) = Except.ok d ∧
      ReadsFile (mount d) [47, 98, 105, 110, 47, 108, 115] (zeroFile 3).bytes ∧
        ReadsFile (mount d) [47, 98, 105, 110, 47, 115, 104] (zeroFile 8000).bytes ∧
          DotsFirst (mount d).vol ∧ BlocksOwned (mount d).vol := by
  rcases bin_image with ⟨sb, h, hproper, hnamed, hroom⟩
  rcases createInitialFiles_readsBack h hproper hnamed hroom (fun _ _ => 0) with
    ⟨d, hrun, hread⟩
  rcases hread (mount d) (mounted_mount d) with ⟨hprograms, hdots, howned⟩
  have hls := hprograms _ List.mem_cons_self
  have hsh := hprograms _ (List.mem_cons_of_mem _ List.mem_cons_self)
  exact ⟨sb, d, h, hrun, hls, hsh, hdots, howned⟩

end ReadBack

end Mkfs
end NicoOS
