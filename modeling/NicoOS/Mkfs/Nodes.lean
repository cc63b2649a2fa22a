import NicoOS.Fs.Dir.Names
import NicoOS.Mkfs.Complete
import NicoOS.Mkfs.Contents

/-!
# The image as a list of files

For its users `mkfs` makes files one after another and never removes one, so an image is a list:
inode `k + 1` is the file number `k`.  Where the image has the room, every function of
`mkfs/fs.c` is an operation on this list.
-/

namespace NicoOS
namespace Mkfs

open Lib
open Fs
open Fs.Inode (Dinode InodeType Sound Stepped sourceBytes)
open Fs.Dir (slotAt readDirent)

/-!
# Directories as lists of entries
-/

abbrev Entries := List (List UInt8 × UInt32)

/-- The records of a directory are these entries. -/
structure Lists (c : List UInt8) (entries : Entries) : Prop where
  length : c.length = direntSize * entries.length
  slot : forall k, slotAt c k = entries[k]?

/-- A name that gets into a record and ends at its first NUL. -/
structure EntryName (name : List UInt8) : Prop where
  short : name.length < direntNameLength
  nonzero : Not (0 ∈ name)

section Lists

variable {c name : List UInt8} {entries : Entries}

theorem lists_nil : Lists [] [] where
  length := rfl
  slot := by
    intro k
    unfold slotAt Dir.recordAt
    rw [List.drop_nil, List.take_nil, List.getElem?_nil]
    decide

theorem strcpy_inside (dst : Memory) (src : List UInt8) (k : Nat) {i : Nat}
    (h : i < src.length) : Dir.strcpy dst k src (k + i) = src[i] := by
  induction src generalizing dst k i with
  | nil => exact absurd h (Nat.not_lt_zero i)
  | cons a rest ih =>
      cases i with
      | zero => exact Dir.strcpy_first dst k a rest
      | succ i =>
          have hstep : k + (i + 1) = k + 1 + i := by lia
          rw [Dir.strcpy, hstep, ih _ _ (Nat.lt_of_succ_lt_succ h)]
          rfl

theorem strcpy_behind (dst : Memory) (src : List UInt8) {k i : Nat} (h : k + src.length < i) :
    Dir.strcpy dst k src i = dst i := by
  induction src generalizing dst k with
  | nil => exact Function.update_of_ne (Nat.ne_of_gt h) ..
  | cons a rest ih =>
      rw [List.length_cons] at h
      rw [Dir.strcpy, ih _ (by lia)]
      exact Function.update_of_ne (by lia) ..

/-- The record of `dir_link` is the one of the kernel. -/
theorem dirent_eq (inum : UInt32) (name : List UInt8) (stack : Memory) :
    dirent inum name stack =
      Dir.Dirent.bytes { inum := inum, name := Dir.strcpy (fun k => stack (4 + k)) 0 name } := by
  funext k
  unfold dirent Dir.Dirent.bytes
  dsimp only
  split
  · rfl
  · rename_i hk
    have hback : 4 + (k - 4) = k := by lia
    split
    · rename_i hlt
      have hinside := strcpy_inside (fun j => stack (4 + j)) name 0 hlt
      rw [Nat.zero_add] at hinside
      exact hinside.symm
    · split
      · rename_i heq
        have hend := Dir.strcpy_end (fun j => stack (4 + j)) 0 name
        rw [Nat.zero_add] at hend
        rw [heq]
        exact hend.symm
      · rw [strcpy_behind _ _ (by lia), hback]

theorem slot_dirent (hname : EntryName name) {inum : UInt32} (hinum : inum ≠ 0) (stack : Memory) :
    (readDirent (sourceBytes (dirent inum name stack) direntSize)).slot = some (name, inum) := by
  have hlabel : Dir.label (Dir.strcpy (fun k => stack (4 + k)) 0 name) = name :=
    Dir.labelFrom_strcpy _ 0 hname.nonzero (Nat.le_of_lt hname.short)
  rw [dirent_eq, show direntSize = Dir.direntSize from rfl, Dir.slot_readDirent_bytes]
  unfold Dir.Dirent.slot
  rw [if_neg hinum]
  dsimp only
  rw [hlabel]

theorem Lists.append (h : Lists c entries) (hname : EntryName name) {inum : UInt32}
    (hinum : inum ≠ 0) (stack : Memory) :
    Lists (c ++ sourceBytes (dirent inum name stack) direntSize) (entries ++ [(name, inum)]) where
  length := by
    rw [List.length_append, Inode.length_sourceBytes, h.length, List.length_append]
    exact (Nat.mul_succ _ _).symm
  slot := by
    intro k
    have hlen := h.length
    have hsize : direntSize = 64 := rfl
    have hrecord := slot_dirent hname hinum stack
    have hdata := Inode.length_sourceBytes (dirent inum name stack) direntSize
    unfold slotAt Dir.recordAt
    rcases Nat.lt_trichotomy k entries.length with hlt | heq | hgt
    · have hslot := h.slot k
      unfold slotAt Dir.recordAt at hslot
      have hdirent : Dir.direntSize = 64 := rfl
      rw [List.getElem?_append_left hlt, ← hslot,
        List.drop_append_of_le_length (by lia), List.take_append_of_le_length (by simp; lia)]
    · have hoffset : Dir.direntSize * k = c.length := by rw [heq, hlen]; rfl
      have hfull : (sourceBytes (dirent inum name stack) direntSize).length ≤ Dir.direntSize :=
        Nat.le_of_eq hdata
      rw [hoffset, List.drop_left, List.take_of_length_le hfull, hrecord, heq,
        List.getElem?_concat_length]
    · have hdirent : Dir.direntSize = 64 := rfl
      rw [List.getElem?_eq_none (by simp; lia), List.drop_eq_nil_of_le (by simp; lia),
        List.take_nil]
      decide

end Lists

/-!
# Files of the list
-/

inductive Content where
  | file (bytes : List UInt8)
  | directory (entries : Entries)
  | device

namespace Content

def typ : Content -> InodeType
  | file _ => InodeType.file
  | directory _ => InodeType.directory
  | device => InodeType.device

def empty : InodeType -> Content
  | InodeType.directory => directory []
  | InodeType.device => device
  | _ => file []

def length : Content -> Nat
  | file bytes => bytes.length
  | directory entries => direntSize * entries.length
  | device => 0

def Shows : Content -> List UInt8 -> Prop
  | file bytes, c => c = bytes
  | directory entries, c => Lists c entries
  | device, c => c = []

def enter (name : List UInt8) (inum : UInt32) : Content -> Content
  | directory entries => directory (entries ++ [(name, inum)])
  | c => c

/-- Bytes behind the others of a file. -/
def extend (bytes : List UInt8) : Content -> Content
  | file old => file (old ++ bytes)
  | c => c

theorem typ_ne_none (c : Content) : c.typ ≠ InodeType.none := by
  cases c with
  | _ => exact InodeType.noConfusion

@[simp] theorem typ_empty {typ : InodeType} (h : typ ≠ InodeType.none) :
    (empty typ).typ = typ := by
  cases typ with
  | none => exact absurd rfl h
  | _ => rfl

@[simp] theorem length_empty (typ : InodeType) : (empty typ).length = 0 := by
  cases typ with
  | _ => rfl

theorem shows_empty (typ : InodeType) : (empty typ).Shows [] := by
  cases typ with
  | directory => exact lists_nil
  | _ => rfl

@[simp] theorem typ_enter (name : List UInt8) (inum : UInt32) (c : Content) :
    (c.enter name inum).typ = c.typ := by
  cases c with
  | _ => rfl

@[simp] theorem typ_extend (bytes : List UInt8) (c : Content) :
    (c.extend bytes).typ = c.typ := by
  cases c with
  | _ => rfl

theorem length_enter (name : List UInt8) (inum : UInt32) {c : Content}
    (h : c.typ = InodeType.directory) : (c.enter name inum).length = c.length + direntSize := by
  cases c with
  | directory entries =>
      show direntSize * (entries ++ [(name, inum)]).length = _
      rw [List.length_append]
      exact Nat.mul_succ _ _
  | _ => cases h

theorem length_extend (bytes : List UInt8) {c : Content} (h : c.typ = InodeType.file) :
    (c.extend bytes).length = c.length + bytes.length := by
  cases c with
  | file old => exact List.length_append
  | _ => cases h

theorem length_le_enter (name : List UInt8) (inum : UInt32) (c : Content) :
    c.length ≤ (c.enter name inum).length := by
  cases c with
  | directory entries =>
      rw [length_enter name inum rfl]
      exact Nat.le_add_right _ _
  | _ => exact Nat.le_refl _

theorem length_le_extend (bytes : List UInt8) (c : Content) :
    c.length ≤ (c.extend bytes).length := by
  cases c with
  | file old =>
      rw [length_extend bytes rfl]
      exact Nat.le_add_right _ _
  | _ => exact Nat.le_refl _

theorem Shows.length {c : Content} {bytes : List UInt8} (h : c.Shows bytes) :
    bytes.length = c.length := by
  cases c with
  | file old =>
      have hbytes : bytes = old := h
      rw [hbytes]
      rfl
  | directory entries => exact Lists.length h
  | device =>
      have hbytes : bytes = [] := h
      rw [hbytes]
      rfl

theorem Shows.enter {c : Content} {bytes name : List UInt8} (h : c.Shows bytes)
    (htyp : c.typ = InodeType.directory) (hname : EntryName name) {inum : UInt32}
    (hinum : inum ≠ 0) (stack : Memory) :
    (c.enter name inum).Shows (bytes ++ sourceBytes (dirent inum name stack) direntSize) := by
  cases c with
  | directory entries => exact Lists.append h hname hinum stack
  | _ => cases htyp

theorem Shows.extend {c : Content} {bytes : List UInt8} (h : c.Shows bytes)
    (htyp : c.typ = InodeType.file) (more : List UInt8) :
    (c.extend more).Shows (bytes ++ more) := by
  cases c with
  | file old => exact congrArg (fun b => b ++ more) h
  | _ => cases htyp

end Content

/-- A file of the image. -/
structure Node where
  nlink : UInt32
  content : Content

namespace Node

def enter (name : List UInt8) (inum : UInt32) (n : Node) : Node :=
  { n with content := n.content.enter name inum }

def extend (bytes : List UInt8) (n : Node) : Node :=
  { n with content := n.content.extend bytes }

def link (n : Node) : Node := { n with nlink := n.nlink + 1 }

def cost (n : Node) : Nat := growCost 0 (blocksOf n.content.length)

end Node

def cost (nodes : List Node) : Nat := (nodes.map Node.cost).sum

def inumOf (k : Nat) : UInt32 := UInt32.ofNat (k + 1)

/-- The image has the inodes and the blocks for the files, and none of them is too long. -/
structure Room (sb : Superblock) (nodes : List Node) : Prop where
  inodes : nodes.length < sb.ninodes.toNat
  small : forall n, n ∈ nodes -> n.content.length ≤ maxFileSize
  blocks : cost nodes ≤ 8 * sb.bmapBytes.toNat

/-- The files of the image are those of the list. -/
structure Holds (d : Disk) (nodes : List Node) : Prop where
  image : Image d
  sound : Sound d.volume
  inside : nodes.length < d.sb.ninodes.toNat
  node : forall k n, nodes[k]? = some n ->
    exists c, Reads d (inumOf k) n.content.typ n.nlink c ∧ n.content.Shows c
  free : forall j, j < d.sb.ninodes -> (forall k, k < nodes.length -> j ≠ inumOf k) ->
    (iread d j).type = InodeType.none.code
  paid : d.free + cost nodes = 8 * d.sb.bmapBytes.toNat

section Lists

variable {nodes : List Node} {k : Nat} {n : Node}

theorem cost_append (nodes more : List Node) : cost (nodes ++ more) = cost nodes + cost more := by
  unfold cost
  rw [List.map_append, List.sum_append]

theorem cost_modify (f : Node -> Node) (h : nodes[k]? = some n) :
    cost (nodes.modify k f) + n.cost = cost nodes + (f n).cost := by
  induction nodes generalizing k with
  | nil => cases h
  | cons m rest ih =>
      cases k with
      | zero =>
          have hm : m = n := Option.some.inj h
          rw [hm]
          show (f n).cost + cost rest + n.cost = n.cost + cost rest + (f n).cost
          lia
      | succ k =>
          have hrest := ih (k := k) h
          show m.cost + cost (rest.modify k f) + n.cost = m.cost + cost rest + (f n).cost
          lia

theorem inumOf_toNat (h : k + 1 < 0x100000000) : (inumOf k).toNat = k + 1 :=
  UInt32.toNat_ofNat_of_lt' h

end Lists

section Holds

variable {d d' : Disk} {nodes : List Node} {k j : Nat} {n : Node}

theorem Holds.lt_size (h : Holds d nodes) (hk : k ≤ nodes.length) : k + 1 < 0x100000000 := by
  have hin := h.inside
  have hlt := d.sb.ninodes.toNat_lt
  lia

theorem Holds.toNat (h : Holds d nodes) (hk : k ≤ nodes.length) : (inumOf k).toNat = k + 1 :=
  inumOf_toNat (h.lt_size hk)

theorem Holds.inumOf_inj (h : Holds d nodes) (hk : k ≤ nodes.length) (hj : j ≤ nodes.length)
    (heq : inumOf k = inumOf j) : k = j := by
  have hnat := congrArg UInt32.toNat heq
  rw [h.toNat hk, h.toNat hj] at hnat
  lia

theorem Holds.inumOf_ne_zero (h : Holds d nodes) (hk : k ≤ nodes.length) : inumOf k ≠ 0 := by
  intro heq
  have hnat := congrArg UInt32.toNat heq
  rw [h.toNat hk] at hnat
  cases hnat

theorem lt_of_getElem? (h : nodes[k]? = some n) : k < nodes.length :=
  (List.getElem?_eq_some_iff.mp h).choose

/-- The file number `k` was changed, with the blocks that its length needs. -/
theorem Holds.modify (h : Holds d nodes) (hk : nodes[k]? = some n) (f : Node -> Node)
    (himage : Image d') (hsb : d'.sb = d.sb) (hstep : Stepped d.volume (inumOf k) d'.volume)
    (hreads : exists c, Reads d' (inumOf k) (f n).content.typ (f n).nlink c ∧
      (f n).content.Shows c)
    (hpaid : d'.free + (f n).cost = d.free + n.cost) : Holds d' (nodes.modify k f) where
  image := himage
  sound := hstep.sound
  inside := by
    rw [List.length_modify, hsb]
    exact h.inside
  node := by
    intro j m hj
    have hlt := lt_of_getElem? hk
    cases Classical.em (k = j) with
    | inl heq =>
        rw [← heq, List.getElem?_modify_eq, hk] at hj
        rw [← heq, ← Option.some.inj hj]
        exact hreads
    | inr hne =>
        rw [List.getElem?_modify_ne _ _ hne] at hj
        rcases h.node j m hj with ⟨c, hc, hshows⟩
        refine ⟨c, hc.stepped hstep ?_, hshows⟩
        have hjlt := lt_of_getElem? hj
        exact fun heq => hne (h.inumOf_inj (Nat.le_of_lt hjlt) (Nat.le_of_lt hlt) heq).symm
  free := by
    intro j hj hnone
    rw [List.length_modify] at hnone
    rw [hsb] at hj
    have hread : iread d' j = iread d j := hstep.table j hj (hnone k (lt_of_getElem? hk))
    rw [hread]
    exact h.free j hj hnone
  paid := by
    have hcost := cost_modify f hk
    have hold := h.paid
    rw [hsb]
    lia

/-- The first free inode is the one behind those of the files. -/
theorem Holds.firstFree (h : Holds d nodes) (hroom : nodes.length + 1 < d.sb.ninodes.toNat)
    {inum : UInt32} (hfirst : FirstFree d inum) : inum = inumOf nodes.length := by
  have hnext := h.toNat (Nat.le_refl nodes.length)
  have htyped : forall k, k < nodes.length -> inum ≠ inumOf k := by
    intro k hk heq
    rcases h.node k nodes[k] (List.getElem?_eq_getElem hk) with ⟨c, hc, -⟩
    have hnone := hfirst.free
    rw [heq, hc.type] at hnone
    exact InodeType.code_ne_none hc.inUse hnone
  have hone : 1 ≤ inum.toNat := UInt32.le_iff_toNat_le.mp hfirst.one_le
  have hge : nodes.length + 1 ≤ inum.toNat := by
    cases Nat.lt_or_ge inum.toNat (nodes.length + 1) with
    | inr hge => exact hge
    | inl hlt =>
        have hk : inum.toNat - 1 < nodes.length := by lia
        apply absurd _ (htyped (inum.toNat - 1) hk)
        apply UInt32.toNat_inj.mp
        rw [h.toNat (Nat.le_of_lt hk)]
        lia
  apply UInt32.toNat_inj.mp
  rw [hnext]
  cases Nat.eq_or_lt_of_le hge with
  | inl heq => exact heq.symm
  | inr hgt =>
      have hbefore := hfirst.first (inumOf nodes.length) (UInt32.le_iff_toNat_le.mpr (by
        rw [hnext]
        exact Nat.le_add_left _ _)) (UInt32.lt_iff_toNat_lt.mpr (by lia))
      apply absurd _ hbefore
      apply h.free _ (UInt32.lt_iff_toNat_lt.mpr (by lia))
      intro k hk heq
      have hkeq := h.inumOf_inj (Nat.le_refl _) (Nat.le_of_lt hk) heq
      lia

end Holds

end Mkfs
end NicoOS
