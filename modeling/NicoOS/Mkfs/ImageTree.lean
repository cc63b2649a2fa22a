import NicoOS.Fs.Syscall.ForestRuns
import NicoOS.Mkfs.ReadBack

/-!
# The image as a tree

The system calls see an image as a tree of directories.  On the image of `mkfs` it is a forest,
since every function of `mkfs/fs.c` enters one new file in a directory of the list.
-/

namespace NicoOS
namespace Mkfs

open Lib
open Fs
open Fs.Inode (InodeType contents)
open Fs.Dir (dot dotdot)
open Fs.Syscall (Tree Forest InTree boot UsesRemoved dotName dotdotName)

def typeOf (code : UInt32) : InodeType :=
  if code = InodeType.file.code then InodeType.file
  else if code = InodeType.directory.code then InodeType.directory
  else if code = InodeType.device.code then InodeType.device
  else InodeType.none

def recordOf (e : Dir.Dirent) : Syscall.Dirent where
  inum := e.inum.toNat
  name := Dir.label e.name

def recordsOf (c : List UInt8) : List Syscall.Dirent :=
  (List.range (Dir.slots c)).map (fun k => recordOf (Dir.recordAt c k))

/-- The blocks below the size of an inode that have no address. -/
def holesOf (v : Volume) (i : Inode.Dinode) : List Nat :=
  (List.range (roundUp i.size.toNat blockSize)).filter (fun bn => Inode.blockOf v i bn = 0)

def treeOf (d : Disk) : Tree where
  ninodes := d.sb.ninodes.toNat
  dinodes j :=
    if j < d.sb.ninodes.toNat then
      { type := typeOf (iread d (UInt32.ofNat j)).type
        nlink := (iread d (UInt32.ofNat j)).nlink.toNat }
    else
      { type := InodeType.none, nlink := 0 }
  data j :=
    if j < d.sb.ninodes.toNat ∧
        typeOf (iread d (UInt32.ofNat j)).type = InodeType.directory then
      recordsOf (contents d.volume (iread d (UInt32.ofNat j)))
    else
      []
  holes j :=
    if j < d.sb.ninodes.toNat ∧ typeOf (iread d (UInt32.ofNat j)).type ≠ InodeType.none then
      holesOf d.volume (iread d (UInt32.ofNat j))
    else
      []

/-!
# The tree of a list
-/

def Node.dinode (n : Node) : Syscall.Dinode where
  type := n.content.typ
  nlink := n.nlink.toNat

def entryOf (e : List UInt8 × UInt32) : Syscall.Dirent where
  inum := e.2.toNat
  name := e.1

def Content.records : Content -> List Syscall.Dirent
  | Content.directory entries => entries.map entryOf
  | _ => []

def nodeAt (nodes : List Node) : Nat -> Option Node
  | 0 => none
  | k + 1 => nodes[k]?

def dinodeIn (nlink : Nat) : Option Node -> Syscall.Dinode
  | none => { type := InodeType.none, nlink := nlink }
  | some n => n.dinode

def recordsIn : Option Node -> List Syscall.Dirent
  | none => []
  | some n => n.content.records

/-- The tree of a list of files among `N` inodes, with these link counts in the free ones. -/
def listTree (N : Nat) (old : Nat -> Nat) (nodes : List Node) : Tree where
  ninodes := N
  dinodes j := dinodeIn (old j) (nodeAt nodes j)
  data j := recordsIn (nodeAt nodes j)

section Image

variable {d : Disk} {nodes : List Node} {c : List UInt8} {entries : Entries} {j : Nat} {n : Node}

theorem typeOf_code (typ : InodeType) : typeOf typ.code = typ := by
  cases typ with
  | _ => rfl

theorem Lists.records (h : Lists c entries) : recordsOf c = entries.map entryOf := by
  apply List.ext_getElem?
  intro k
  unfold recordsOf
  rw [List.getElem?_map, List.getElem?_map, h.slots_eq]
  cases Nat.lt_or_ge k entries.length with
  | inr hge =>
      rw [List.getElem?_eq_none hge, List.getElem?_eq_none (by rw [List.length_range]; exact hge)]
      rfl
  | inl hlt =>
      have hslot := h.slot k
      rw [List.getElem?_eq_getElem hlt] at hslot
      unfold Dir.slotAt Dir.Dirent.slot at hslot
      rw [List.getElem?_range hlt, List.getElem?_eq_getElem hlt]
      split at hslot
      · cases hslot
      · have hentry := Option.some.inj hslot
        show some (recordOf (Dir.recordAt c k)) = some (entryOf entries[k])
        rw [← hentry]
        rfl

theorem holesOf_filled {v : Volume} {i : Inode.Dinode} (h : Inode.Filled v i) :
    holesOf v i = [] := by
  unfold holesOf
  rw [List.filter_eq_nil_iff]
  intro bn hbn
  have hlt := List.mem_range.mp hbn
  have hbelow : bn * blockSize < i.size.toNat := by
    unfold roundUp blockSize at hlt
    unfold blockSize
    lia
  exact fun hzero => h.mapped bn hbelow (of_decide_eq_true hzero)

theorem Holds.nodeAt_cases (h : Holds d nodes) (hj : j < d.sb.ninodes.toNat) :
    (nodeAt nodes j = none ∧ (iread d (UInt32.ofNat j)).type = InodeType.none.code) ∨
      exists n b, nodeAt nodes j = some n ∧
        Reads d (UInt32.ofNat j) n.content.typ n.nlink b ∧ n.content.Shows b := by
  have hsize := d.sb.ninodes.toNat_lt
  have hnat : (UInt32.ofNat j).toNat = j := UInt32.toNat_ofNat_of_lt' (by lia)
  cases hnode : nodeAt nodes j with
  | none =>
      refine Or.inl ⟨rfl, ?_⟩
      apply h.free
      · apply UInt32.lt_iff_toNat_lt.mpr
        rw [hnat]
        exact hj
      · intro k hk heq
        have hkeq := congrArg UInt32.toNat heq
        rw [hnat, h.toNat (Nat.le_of_lt hk)] at hkeq
        rw [hkeq, nodeAt, List.getElem?_eq_getElem hk] at hnode
        cases hnode
  | some n =>
      cases j with
      | zero => cases hnode
      | succ k =>
          rcases h.node k n hnode with ⟨b, hreads, hshows⟩
          exact Or.inr ⟨n, b, rfl, hreads, hshows⟩

theorem Holds.holes_eq (h : Holds d nodes) : (treeOf d).holes = fun _ => [] := by
  funext j
  show (if _ then _ else _) = _
  by_cases hlt : j < d.sb.ninodes.toNat
  · rcases h.nodeAt_cases hlt with ⟨-, hfree⟩ | ⟨n, b, -, hreads, -⟩
    · rw [hfree, if_neg]
      rw [typeOf_code]
      exact fun hboth => hboth.right rfl
    · have hfilled : Inode.Filled d.volume (iread d (UInt32.ofNat j)) :=
        h.sound.filled _ hreads.live
      rw [holesOf_filled hfilled, ite_self]
  · exact if_neg (fun hboth => hlt hboth.left)

theorem nodeAt_eq_none (h : nodes.length < j) : nodeAt nodes j = none := by
  cases j with
  | zero => rfl
  | succ k => exact List.getElem?_eq_none (Nat.le_of_lt_succ h)

theorem Content.Shows.records {c : Content} {b : List UInt8} (h : c.Shows b) :
    (if c.typ = InodeType.directory then recordsOf b else []) = c.records := by
  cases c with
  | directory entries => exact (if_pos rfl).trans (Lists.records h)
  | _ => rfl

/-- The link counts of an image, those of free inodes included. -/
def nlinksOf (d : Disk) (j : Nat) : Nat := ((treeOf d).dinodes j).nlink

theorem Holds.treeOf_eq (h : Holds d nodes) :
    treeOf d = listTree d.sb.ninodes.toNat (nlinksOf d) nodes := by
  have hinode : forall j, (treeOf d).dinodes j = dinodeIn (nlinksOf d j) (nodeAt nodes j) ∧
      (treeOf d).data j = recordsIn (nodeAt nodes j) := by
    intro j
    unfold nlinksOf treeOf
    dsimp only
    cases Nat.lt_or_ge j d.sb.ninodes.toNat with
    | inr hge =>
        have hin := h.inside
        have hnot : Not (j < d.sb.ninodes.toNat) := Nat.not_lt_of_le hge
        rw [if_neg hnot, if_neg (fun hboth => hnot hboth.left), nodeAt_eq_none (by lia)]
        exact ⟨rfl, rfl⟩
    | inl hlt =>
        rw [if_pos hlt]
        rcases h.nodeAt_cases hlt with ⟨hnone, hfree⟩ | ⟨n, b, hnode, hreads, hshows⟩
        · have hnot : Not (j < d.sb.ninodes.toNat ∧
              typeOf InodeType.none.code = InodeType.directory) := by
            rw [typeOf_code]
            exact fun hboth => InodeType.noConfusion hboth.right
          rw [hfree, if_neg hnot, hnone, typeOf_code]
          exact ⟨rfl, rfl⟩
        · rw [hnode, hreads.type, typeOf_code, hreads.nlink, hreads.bytes]
          refine ⟨rfl, ?_⟩
          rw [recordsIn, ← hshows.records]
          simp only [hlt, true_and]
  have hdinodes : (treeOf d).dinodes = fun j => dinodeIn (nlinksOf d j) (nodeAt nodes j) :=
    funext (fun j => (hinode j).left)
  have hdata : (treeOf d).data = fun j => recordsIn (nodeAt nodes j) :=
    funext (fun j => (hinode j).right)
  have htree : treeOf d = Tree.mk d.sb.ninodes.toNat (treeOf d).dinodes (treeOf d).data
      (treeOf d).holes := rfl
  rw [htree, hdinodes, hdata, h.holes_eq]
  rfl

end Image

/-!
# The forest of a list
-/

def newNode (typ : InodeType) (c p : Nat) : Node :=
  if typ = InodeType.directory then directoryNode 1 c p []
  else { nlink := 1, content := Content.empty typ }

def Node.grow (typ : InodeType) (name : List UInt8) (inum : UInt32) (n : Node) : Node :=
  if typ = InodeType.directory then (n.enter name inum).link else n.enter name inum

section Lists

variable {N p j : Nat} {old : Nat -> Nat} {nodes : List Node} {typ : InodeType}
  {name : List UInt8} {f : Node -> Node} {m n : Node}

/-- A file below a directory of the list changes that directory and is the last one. -/
theorem created_eq (typ : InodeType) (h : p < nodes.length) (name : List UInt8) :
    created typ (some p) name nodes =
      nodes.modify p (Node.grow typ name (inumOf nodes.length)) ++
        [newNode typ nodes.length p] := by
  cases Classical.em (typ = InodeType.directory) with
  | inr hne =>
      have hgrow : Node.grow typ name (inumOf nodes.length) =
          Node.enter name (inumOf nodes.length) := funext (fun _ => if_neg hne)
      rw [created_of_ne hne, entered, modify_append _ h, hgrow, newNode, if_neg hne]
  | inl heq =>
      subst heq
      have hgrow : Node.grow InodeType.directory name (inumOf nodes.length) =
          Node.link ∘ Node.enter name (inumOf nodes.length) := funext (fun _ => if_pos rfl)
      have hlen := List.length_modify (Node.enter name (inumOf nodes.length)) nodes p
      have hmodify : p < (nodes.modify p (Node.enter name (inumOf nodes.length))).length := by
        rw [hlen]
        exact h
      have hlast := modify_concat (Node.enter [46] (inumOf nodes.length))
        (nodes.modify p (Node.enter name (inumOf nodes.length)))
        { nlink := 1, content := Content.empty InodeType.directory }
      have hlast' := modify_concat (Node.enter [46, 46] (inumOf p))
        (nodes.modify p (Node.enter name (inumOf nodes.length)))
        (Node.enter [46] (inumOf nodes.length)
          { nlink := 1, content := Content.empty InodeType.directory })
      rw [hlen] at hlast hlast'
      rw [created_directory, entered, Option.getD_some, made, modify_append _ h, hlast, hlast',
        modify_append _ hmodify, List.modify_modify_eq, hgrow]
      rfl

theorem nodeAt_modify (h : nodes[p]? = some n) (f : Node -> Node) (m : Node) (j : Nat) :
    nodeAt (nodes.modify p f ++ [m]) j =
      if j = nodes.length + 1 then some m else if j = p + 1 then some (f n)
        else nodeAt nodes j := by
  have hp := lt_of_getElem? h
  cases j with
  | zero => rfl
  | succ k =>
      unfold nodeAt
      dsimp only
      rcases Nat.lt_trichotomy k nodes.length with hlt | heq | hgt
      · rw [if_neg (by lia), List.getElem?_append_left (by rw [List.length_modify]; exact hlt)]
        cases Classical.em (k = p) with
        | inl heq =>
            rw [if_pos (by lia), heq, List.getElem?_modify_eq, h]
            rfl
        | inr hne =>
            rw [if_neg (by lia), List.getElem?_modify_ne _ _ (fun heq => hne heq.symm)]
      · rw [if_pos (by lia), heq, ← List.length_modify f nodes p]
        exact List.getElem?_concat_length
      · rw [if_neg (by lia), if_neg (by lia), List.getElem?_eq_none (by simp; lia),
          List.getElem?_eq_none (by lia)]

theorem listTree_extend (k : Nat) (bytes : List UInt8) :
    listTree N old (nodes.modify k (Node.extend bytes)) = listTree N old nodes := by
  have hnode : forall j, dinodeIn (old j) (nodeAt (nodes.modify k (Node.extend bytes)) j) =
      dinodeIn (old j) (nodeAt nodes j) ∧
        recordsIn (nodeAt (nodes.modify k (Node.extend bytes)) j) = recordsIn (nodeAt nodes j) := by
    intro j
    cases j with
    | zero => exact ⟨rfl, rfl⟩
    | succ i =>
        unfold nodeAt
        dsimp only
        cases Classical.em (k = i) with
        | inr hne =>
            rw [List.getElem?_modify_ne _ _ hne]
            exact ⟨rfl, rfl⟩
        | inl heq =>
            rw [heq, List.getElem?_modify_eq]
            cases nodes[i]? with
            | none => exact ⟨rfl, rfl⟩
            | some n =>
                rcases n with ⟨nlink, content⟩
                cases content with
                | _ => exact ⟨rfl, rfl⟩
  have hdinodes := funext (fun j => (hnode j).left)
  have hdata := funext (fun j => (hnode j).right)
  unfold listTree
  rw [hdinodes, hdata]

end Lists

/-- The tree of the list is a forest, and every file of the list is in it. -/
def Planted (N : Nat) (old : Nat -> Nat) (nodes : List Node) : Prop :=
  exists home rank, Forest (listTree N old nodes) home rank ∧
    forall k, k < nodes.length -> InTree home (k + 1)

section Planted

variable {N p k : Nat} {old : Nat -> Nat} {nodes : List Node} {typ : InodeType}
  {name : List UInt8} {n : Node}

theorem listTree_dinode (hk : nodes[k]? = some n) :
    (listTree N old nodes).dinodes (k + 1) = n.dinode := by
  show dinodeIn (old (k + 1)) nodes[k]? = n.dinode
  rw [hk]
  rfl

theorem listTree_data (hk : nodes[k]? = some n) :
    (listTree N old nodes).data (k + 1) = n.content.records := by
  show recordsIn nodes[k]? = n.content.records
  rw [hk]
  rfl

theorem planted_root (old : Nat -> Nat) (hN : 1 < N) : Planted N old rootList := by
  have hroot : rootList = [directoryNode 2 0 0 []] := rfl
  have htyped : forall j, ((listTree N old rootList).dinodes j).type ≠ InodeType.none ->
      j = 1 := by
    intro j hj
    cases j with
    | zero => exact absurd rfl hj
    | succ k =>
        cases k with
        | zero => rfl
        | succ k => exact absurd rfl hj
  have hentry : forall d l e, (listTree N old rootList).Entry d l e -> l < 2 := by
    intro d l e he
    have hd := htyped d (by rw [he.left]; exact InodeType.noConfusion)
    rw [hd] at he
    exact (List.getElem?_eq_some_iff.mp he.right.left).choose
  have hchildren : forall j, Fs.Syscall.childSet (listTree N old rootList) (fun _ => none) j = ∅ :=
    fun j => Set.eq_empty_of_forall_notMem (fun c hc => by cases hc.left)
  refine ⟨fun _ => none, fun _ => 0, ?_, ?_⟩
  · constructor
    · rfl
    · rfl
    · intro j hj
      rw [htyped j hj]
      exact ⟨Nat.one_pos, hN⟩
    · intro d hd
      have hone := htyped d (by rw [hd]; exact InodeType.noConfusion)
      rw [hone]
      refine ⟨1, ?_⟩
      constructor
      · rfl
      · rfl
      · rfl
      · exact Or.inl rfl
      · intro q hq
        cases hq
      · exact fun _ => rfl
    · intro d l e he hl
      have hlt := hentry d l e he
      lia
    · intro j d hj
      cases hj
    · intro j d hj
      cases hj
    · intro j d hj
      cases hj
    · intro d l m e f he hf hl
      have hlt := hentry d l e he
      lia
    · intro j d hj
      cases hj
    · intro j hj hne
      exact absurd (htyped j hj) hne
    · rw [hchildren, Set.ncard_empty]
      exact Nat.le_succ 1
  · intro k hk
    rw [hroot] at hk
    exact Or.inl (congrArg Nat.succ (Nat.lt_one_iff.mp hk))

/-- A new file below a directory of the list is one below a directory of the tree. -/
theorem created_grown {nlink : UInt32} {entries : Entries}
    (hn : nodes[p]? = some { nlink := nlink, content := Content.directory entries })
    (hsize : nodes.length + 1 < 0x100000000) (htyp : typ ≠ InodeType.none)
    (hlink : typ = InodeType.directory -> (nlink + 1).toNat = nlink.toNat + 1) :
    Fs.Syscall.Grown (listTree N old nodes) (listTree N old (created typ (some p) name nodes))
      (p + 1) (nodes.length + 1) entries.length name typ := by
  have hlt := lt_of_getElem? hn
  have hnat : (inumOf nodes.length).toNat = nodes.length + 1 := inumOf_toNat hsize
  have hpnat : (inumOf p).toNat = p + 1 := inumOf_toNat (by lia)
  have hnode := nodeAt_modify hn (Node.grow typ name (inumOf nodes.length))
    (newNode typ nodes.length p)
  rw [← created_eq typ hlt name] at hnode
  have hpinode : (listTree N old nodes).dinodes (p + 1) =
      { type := InodeType.directory, nlink := nlink.toNat } := listTree_dinode hn
  have hpdata : (listTree N old nodes).data (p + 1) = entries.map entryOf := listTree_data hn
  have hne : p + 1 ≠ nodes.length + 1 := by lia
  have hdinodes : forall j, (listTree N old (created typ (some p) name nodes)).dinodes j =
      dinodeIn (old j) (nodeAt (created typ (some p) name nodes) j) := fun _ => rfl
  have hdata : forall j, (listTree N old (created typ (some p) name nodes)).data j =
      recordsIn (nodeAt (created typ (some p) name nodes) j) := fun _ => rfl
  have hparent := hnode (p + 1)
  rw [if_neg hne, if_pos rfl] at hparent
  have hchild := hnode (nodes.length + 1)
  rw [if_pos rfl] at hchild
  have hlen : (entries.map entryOf).length = entries.length := List.length_map entryOf
  have hrecords : (listTree N old (created typ (some p) name nodes)).data (p + 1) =
      entries.map entryOf ++ [{ inum := nodes.length + 1, name := name }] := by
    rw [hdata, hparent, ← hnat]
    unfold Node.grow
    split
    · exact List.map_append
    · exact List.map_append
  constructor
  · rfl
  · rw [hdinodes, hchild]
    unfold newNode
    split
    · rename_i heq
      rw [heq]
      rfl
    · show Node.dinode { nlink := 1, content := Content.empty typ } = _
      unfold Node.dinode
      rw [Content.typ_empty htyp]
      rfl
  · rw [hdinodes, hparent, hpinode]
    unfold Node.grow
    split
    · rename_i heq
      show Syscall.Dinode.mk InodeType.directory (nlink + 1).toNat = _
      rw [hlink heq]
    · rfl
  · intro j hjn hjp
    rw [hdinodes, hnode, if_neg hjn, if_neg hjp]
    rfl
  · intro heq
    rw [hdata, hchild, newNode, if_pos heq]
    show [entryOf _, entryOf _] = Fs.Syscall.firstEntries _ _
    unfold entryOf Fs.Syscall.firstEntries
    rw [hnat, hpnat]
    rfl
  · rw [hrecords, ← hlen]
    exact List.getElem?_concat_length
  · intro l hl
    rw [hrecords, hpdata]
    rcases Nat.lt_trichotomy l entries.length with hlt | heq | hgt
    · exact List.getElem?_append_left (by rw [hlen]; exact hlt)
    · exact absurd heq hl
    · rw [List.getElem?_eq_none (by simp; lia), List.getElem?_eq_none (by rw [hlen]; lia)]
  · intro j hjn hjp
    rw [hdata, hnode, if_neg hjn, if_neg hjp]
    rfl

theorem planted_created (h : Planted N old nodes) (hp : DirAt nodes p)
    (hN : nodes.length + 1 < N) (hsize : N ≤ 0x100000000) (htyp : typ ≠ InodeType.none)
    (hdot : name ≠ dotName) (hdotdot : name ≠ dotdotName)
    (hlink : typ = InodeType.directory -> forall n, nodes[p]? = some n ->
      (n.nlink + 1).toNat = n.nlink.toNat + 1) :
    Planted N old (created typ (some p) name nodes) := by
  rcases h with ⟨home, rank, hforest, htree⟩
  rcases hp with ⟨n, hn, hdir⟩
  have hlt := lt_of_getElem? hn
  rcases n with ⟨nlink, content⟩
  cases content with
  | file bytes => cases hdir
  | device => cases hdir
  | directory entries =>
      have hgrown : Fs.Syscall.Grown (listTree N old nodes)
          (listTree N old (created typ (some p) name nodes)) (p + 1) (nodes.length + 1)
            entries.length name typ :=
        created_grown hn (by lia) htyp (fun heq => hlink heq _ hn)
      have hpdir : ((listTree N old nodes).dinodes (p + 1)).type = InodeType.directory := by
        rw [listTree_dinode hn]
        rfl
      have hpdata : (listTree N old nodes).data (p + 1) = entries.map entryOf :=
        listTree_data hn
      have hlen : (entries.map entryOf).length = entries.length := List.length_map entryOf
      have htwo : 2 ≤ entries.length := by
        rcases hforest.dots (p + 1) hpdir with ⟨q, hdots⟩
        have hsecond := hdots.parent
        rw [hpdata] at hsecond
        have hinside := (List.getElem?_eq_some_iff.mp hsecond).choose
        rw [hlen] at hinside
        exact hinside
      have hnone : ((listTree N old nodes).dinodes (nodes.length + 1)).type = InodeType.none := by
        show (dinodeIn (old (nodes.length + 1)) (nodeAt nodes (nodes.length + 1))).type = _
        rw [nodeAt_eq_none (Nat.lt_succ_self _)]
        rfl
      refine ⟨_, _, hforest.grown hgrown htwo ?_ hdot hdotdot hpdir (htree p hlt) hnone
        ⟨Nat.succ_pos _, hN⟩ htyp, ?_⟩
      · intro f hf
        rw [hpdata, List.getElem?_eq_none (Nat.le_of_eq hlen)] at hf
        cases hf
      · intro k hk
        rw [created_eq typ hlt, List.length_append, List.length_modify,
          List.length_singleton] at hk
        cases Classical.em (k = nodes.length) with
        | inl heq =>
            refine Or.inr ?_
            rw [heq, Function.update_self]
            exact Option.some_ne_none _
        | inr hkne =>
            exact Fs.Syscall.inTree_update_of_ne (htree k (by lia)) (by lia)

theorem planted_written (h : Planted N old nodes) (hp : DirAt nodes p)
    (hN : nodes.length + 1 < N) (hsize : N ≤ 0x100000000) (bytes : List UInt8)
    (hdot : name ≠ dotName) (hdotdot : name ≠ dotdotName) :
    Planted N old (written p bytes name nodes) := by
  have hfile : InodeType.file ≠ InodeType.none := InodeType.noConfusion
  rcases planted_created h hp hN hsize hfile hdot hdotdot (fun heq => InodeType.noConfusion heq)
    with ⟨home, rank, hforest, htree⟩
  refine ⟨home, rank, ?_, ?_⟩
  · rw [written, listTree_extend]
    exact hforest
  · intro k hk
    rw [written, List.length_modify] at hk
    exact htree k hk

theorem planted_console (old : Nat -> Nat) (hN : 6 < N) (hsize : N ≤ 0x100000000) :
    Planted N old consoleList := by
  have hone : forall (nlink : UInt32) {nodes : List Node} {c : Content},
      nodes[0]? = some { nlink := nlink, content := c } -> nlink < 100 ->
        forall n, nodes[0]? = some n -> (n.nlink + 1).toNat = n.nlink.toNat + 1 := by
    intro nlink nodes c hnode hsmall n hn
    rw [hnode] at hn
    rw [← Option.some.inj hn]
    have hlt := UInt32.lt_iff_toNat_lt.mp hsmall
    rw [UInt32.toNat_add]
    exact Nat.mod_eq_of_lt (by lia)
  have hkind : InodeType.directory ≠ InodeType.none := InodeType.noConfusion
  have h0 := planted_root old (show 1 < N by lia)
  have h1 : Planted N old (withDirectory binName rootList) :=
    planted_created h0 ⟨_, rfl, rfl⟩ (show 2 < N by lia) hsize hkind (by decide) (by decide)
      (fun _ => hone 2 rfl (by decide))
  have h2 : Planted N old (withDirectory devName (withDirectory binName rootList)) :=
    planted_created h1 ⟨_, rfl, rfl⟩ (show 3 < N by lia) hsize hkind (by decide) (by decide)
      (fun _ => hone 3 rfl (by decide))
  have h3 : Planted N old (withDirectory etcName (withDirectory devName
      (withDirectory binName rootList))) :=
    planted_created h2 ⟨_, rfl, rfl⟩ (show 4 < N by lia) hsize hkind (by decide) (by decide)
      (fun _ => hone 4 rfl (by decide))
  have h4 : Planted N old (withDirectory homeName (withDirectory etcName (withDirectory devName
      (withDirectory binName rootList)))) :=
    planted_created h3 ⟨_, rfl, rfl⟩ (show 5 < N by lia) hsize hkind (by decide) (by decide)
      (fun _ => hone 5 rfl (by decide))
  exact planted_created h4 ⟨_, rfl, rfl⟩ (show 6 < N by lia) hsize InodeType.noConfusion
    (by decide) (by decide) (fun heq => InodeType.noConfusion heq)

theorem planted_withBinfiles (files : List Binfile) (h : Planted N old nodes)
    (hdir : DirAt nodes 1) (hN : nodes.length + files.length < N) (hsize : N ≤ 0x100000000)
    (hdot : forall b, b ∈ files -> nameptr b.path ≠ dotName)
    (hdotdot : forall b, b ∈ files -> nameptr b.path ≠ dotdotName) :
    Planted N old (withBinfiles files nodes) := by
  induction files generalizing nodes with
  | nil => exact h
  | cons b rest ih =>
      have hlen := length_written hdir.lt b.file.bytes (nameptr b.path)
      rw [List.length_cons] at hN
      apply ih
      · exact planted_written h hdir (by lia) hsize _ (hdot b List.mem_cons_self)
          (hdotdot b List.mem_cons_self)
      · exact hdir.written hdir.lt _ _
      · lia
      · exact fun c hc => hdot c (List.mem_cons_of_mem b hc)
      · exact fun c hc => hdotdot c (List.mem_cons_of_mem b hc)

theorem planted_imageFiles {flags : Flags} (hnamed : flags.Named) (old : Nat -> Nat)
    (hN : (imageFiles flags).length < N) (hsize : N ≤ 0x100000000) :
    Planted N old (imageFiles flags) := by
  have hfirst := first_eq flags
  have hlen := length_imageFiles flags
  have hsystem : (withInitsh flags.initshFile consoleList).length = flags.first := by
    rw [withInitsh_eq]
    exact (length_systemFiles [] flags.initshFile).trans hfirst.symm
  have hbindir : DirAt (withInitsh flags.initshFile consoleList) 1 := by
    rw [withInitsh_eq]
    cases flags.initshFile with
    | none => exact ⟨_, rfl, rfl⟩
    | some file => exact ⟨_, rfl, rfl⟩
  have hinitsh : Planted N old (withInitsh flags.initshFile consoleList) := by
    cases hfile : flags.initshFile with
    | none => exact planted_console old (by lia) hsize
    | some file =>
        rw [hfile] at hfirst
        have hseven : flags.first = 7 := hfirst
        exact planted_written (planted_console old (by lia) hsize) ⟨_, rfl, rfl⟩
          (show 7 < N by lia) hsize _ (by decide) (by decide)
  rw [← imageFiles_eq]
  exact planted_withBinfiles _ hinitsh hbindir (by lia) hsize hnamed.no_dot hnamed.no_dotdot

end Planted

/-!
# Runs on an image
-/

section Runs

variable {sectorCnt : Int32} {sb : Superblock} {flags : Flags}

theorem createInitialFiles_forest (h : superblockInit sectorCnt = some sb)
    (hproper : flags.Proper) (hnamed : flags.Named) (hroom : Room sb (imageFiles flags))
    (stack : Nat -> Memory) :
    exists d, createInitialFiles flags stack (newImage sb) = Except.ok d ∧
      exists home rank, Forest (treeOf d) home rank := by
  rcases createInitialFiles_built h hproper stack hroom with ⟨d, hrun, hbuilt⟩
  refine ⟨d, hrun, ?_⟩
  have hsize := d.sb.ninodes.toNat_lt
  rcases planted_imageFiles hnamed (nlinksOf d) hbuilt.holds.inside (Nat.le_of_lt hsize) with
    ⟨home, rank, hforest, -⟩
  rw [hbuilt.holds.treeOf_eq]
  exact ⟨home, rank, hforest⟩

/-- The numbers of links in the inodes of the image with the two programs. -/
def binLinks : Nat -> Nat :=
  match superblockInit 163840 with
  | none => fun _ => 0
  | some sb =>
      match createInitialFiles binFlags (fun _ _ => 0) (newImage sb) with
      | Except.error _ => fun _ => 0
      | Except.ok d => nlinksOf d

/-- A child works in `/bin` and makes a directory with a file there. -/
def binRun : List (Nat × Fs.Syscall.Call) :=
  [(Fs.Syscall.initTask, Fs.Syscall.Call.fork (some 3) true),
    (3, Fs.Syscall.Call.chdir (some [47, 98, 105, 110])),
    (3, Fs.Syscall.Call.mkdir (some [100])),
    (3, Fs.Syscall.Call.openFile (some [100, 47, 102]) Fs.Syscall.oCreat),
    (3, Fs.Syscall.Call.exit)]

theorem binRun_runs :
    runCheck Syscall.step Fs.Syscall.presentTest
        (boot (listTree 16384 binLinks (imageFiles binFlags))) binRun = true ∧
      (runFrom Syscall.step (boot (listTree 16384 binLinks (imageFiles binFlags))) binRun).isSome =
        true := by
  constructor
  · decide +kernel
  · decide +kernel

/-- The run of calls on the image with the two programs. -/
theorem binRun_reaches : exists sb d s, superblockInit 163840 = some sb ∧
    createInitialFiles binFlags (fun _ _ => 0) (newImage sb) = Except.ok d ∧
      runFrom Syscall.step (boot (treeOf d)) binRun = some s ∧
        Reaches Syscall.step (fun r a => Not (UsesRemoved r a)) (boot (treeOf d)) s := by
  rcases bin_image with ⟨sb, h, hproper, hnamed, hroom⟩
  rcases createInitialFiles_built h hproper (fun _ _ => 0) hroom with ⟨d, hrun, hbuilt⟩
  have hninodes : d.sb.ninodes.toNat = 16384 := by
    have hfield : (superblockInit 163840).map (fun sb => sb.ninodes.toNat) = some 16384 := by
      decide
    rw [h] at hfield
    rw [hbuilt.sb]
    exact Option.some.inj hfield
  have hlinks : nlinksOf d = binLinks := by
    unfold binLinks
    rw [h]
    dsimp only
    rw [hrun]
  have htree : treeOf d = listTree 16384 binLinks (imageFiles binFlags) := by
    rw [hbuilt.holds.treeOf_eq, hninodes, hlinks]
  rcases reaches_of_runCheck Fs.Syscall.not_usesRemoved binRun_runs.left binRun_runs.right with
    ⟨s, hcalls, hreach⟩
  rw [<- htree] at hcalls hreach
  exact ⟨sb, d, s, h, hrun, hcalls, hreach⟩

/--
On the image of `create_initial_files`, in every run of calls of which none makes a file in a
removed directory or removes a directory that a removed one names as its parent, link counts
are numbers of entries and what has links is reached from the root.
-/
theorem image_runs_linkCounts (h : superblockInit sectorCnt = some sb)
    (hproper : flags.Proper) (hnamed : flags.Named) (hroom : Room sb (imageFiles flags))
    (stack : Nat -> Memory) :
    exists d, createInitialFiles flags stack (newImage sb) = Except.ok d ∧
      forall s, Reaches Syscall.step (fun r a => Not (UsesRemoved r a)) (boot (treeOf d)) s ->
        s.tree.LinkCounts := by
  rcases createInitialFiles_forest h hproper hnamed hroom stack with
    ⟨d, hrun, home, rank, hforest⟩
  refine ⟨d, hrun, ?_⟩
  intro s hreach
  rcases (Fs.Syscall.Ordered.reaches hforest hreach).forest with ⟨home', rank', horderly⟩
  exact horderly.forest.linkCounts

theorem image_runs_linkCounts_bin : exists sb d s, superblockInit 163840 = some sb ∧
    createInitialFiles binFlags (fun _ _ => 0) (newImage sb) = Except.ok d ∧
      runFrom Syscall.step (boot (treeOf d)) binRun = some s ∧ s.tree.LinkCounts := by
  rcases binRun_reaches with ⟨sb, d, s, h, hrun, hcalls, hreach⟩
  rcases bin_image with ⟨sb', h', hproper, hnamed, hroom⟩
  have hsb : sb' = sb := Option.some.inj (h'.symm.trans h)
  rw [hsb] at hroom
  rcases image_runs_linkCounts h hproper hnamed hroom (fun _ _ => 0) with ⟨d', hrun', hruns⟩
  have hd : d' = d := Except.ok.inj (hrun'.symm.trans hrun)
  rw [hd] at hruns
  exact ⟨sb, d, s, h, hrun, hcalls, hruns s hreach⟩

/--
In the same runs every entry names an inode in use, every `..` a directory, and no lookup of a
task locks a freed inode.
-/
theorem image_runs_noDangling (h : superblockInit sectorCnt = some sb)
    (hproper : flags.Proper) (hnamed : flags.Named) (hroom : Room sb (imageFiles flags))
    (stack : Nat -> Memory) :
    exists d, createInitialFiles flags stack (newImage sb) = Except.ok d ∧
      forall s, Reaches Syscall.step (fun r a => Not (UsesRemoved r a)) (boot (treeOf d)) s ->
        s.tree.NoDangling ∧ Fs.Syscall.LooksUpUsed s := by
  rcases createInitialFiles_forest h hproper hnamed hroom stack with
    ⟨d, hrun, home, rank, hforest⟩
  refine ⟨d, hrun, ?_⟩
  intro s hreach
  have hordered := Fs.Syscall.Ordered.reaches hforest hreach
  rcases hordered.forest with ⟨home', rank', horderly⟩
  exact ⟨horderly.forest.noDangling, hordered.looksUpUsed⟩

theorem image_runs_noDangling_bin : exists sb d s, superblockInit 163840 = some sb ∧
    createInitialFiles binFlags (fun _ _ => 0) (newImage sb) = Except.ok d ∧
      runFrom Syscall.step (boot (treeOf d)) binRun = some s ∧
        s.tree.NoDangling ∧ Fs.Syscall.LooksUpUsed s := by
  rcases binRun_reaches with ⟨sb, d, s, h, hrun, hcalls, hreach⟩
  rcases bin_image with ⟨sb', h', hproper, hnamed, hroom⟩
  have hsb : sb' = sb := Option.some.inj (h'.symm.trans h)
  rw [hsb] at hroom
  rcases image_runs_noDangling h hproper hnamed hroom (fun _ _ => 0) with ⟨d', hrun', hruns⟩
  have hd : d' = d := Except.ok.inj (hrun'.symm.trans hrun)
  rw [hd] at hruns
  exact ⟨sb, d, s, h, hrun, hcalls, hruns s hreach⟩

end Runs

end Mkfs
end NicoOS
