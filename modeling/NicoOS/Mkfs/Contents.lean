import NicoOS.Fs.Inode.FileSystem
import NicoOS.Mkfs.Image

/-!
# Contents of the files of an image

What `bmap` and the loop of `iappend` of `mkfs` do to the bytes of a file: the image stays
sound for the kernel, and the bytes of the file get longer by those that are appended.
-/

namespace NicoOS
namespace Mkfs

open Lib
open Fs
open Fs.Inode (Dinode InodeType Slot slotOf blockOf Table Held Moved Mapped Spliced Sound Stepped
  Live byteAt contents roundLength toNat_roundLength splice sourceBytes)

/-!
# Volumes that differ in the log
-/

section Relog

variable {v w x : Volume} {T : Table} {inum : UInt32} {i j : Dinode} {offset len : Nat}
  {src : Memory}

theorem moved_relog (h : Moved v T inum i w j) (hsb : x.sb = w.sb) (hblk : x.blk = w.blk) :
    Moved v T inum i x j := by
  cases w
  cases x
  cases hsb
  cases hblk
  exact ⟨h.sb, h.owned, h.fields, h.others, h.inodes⟩

theorem mapped_relog (h : Mapped v T inum i w j) (hsb : x.sb = w.sb) (hblk : x.blk = w.blk) :
    Mapped v T inum i x j where
  toMoved := moved_relog h.toMoved hsb hblk
  own := by
    cases w
    cases x
    cases hsb
    cases hblk
    exact h.own

theorem spliced_relog (h : Spliced v i w j offset len src) (hsb : x.sb = w.sb)
    (hblk : x.blk = w.blk) : Spliced v i x j offset len src := by
  cases w
  cases x
  cases hsb
  cases hblk
  exact ⟨h.kept, h.outside, h.inside⟩

theorem sound_relog (h : Sound v) (hsb : w.sb = v.sb) (hblk : w.blk = v.blk) : Sound w := by
  cases v
  cases w
  cases hsb
  cases hblk
  exact ⟨h.laidOut, h.owned, fun j hj => ⟨(h.filled j hj).mapped, (h.filled j hj).bounded⟩⟩

theorem stepped_relog (h : Stepped v inum w) (hsb : x.sb = w.sb) (hblk : x.blk = w.blk) :
    Stepped v inum x where
  sb := hsb.trans h.sb
  sound := sound_relog h.sound hsb hblk
  table := by
    cases w
    cases x
    cases hsb
    cases hblk
    exact h.table
  others := by
    cases w
    cases x
    cases hsb
    cases hblk
    exact h.others

end Relog

/-!
# Blocks
-/

section Map

variable {d : Disk} {T : Table} {inum : UInt32} {i : Dinode}

/-- What `bmap` leaves: the address of the block, and every byte of the file. -/
def Maps (d : Disk) (T : Table) (inum : UInt32) (i : Dinode) (bn : Nat)
    (r : UInt32 × Dinode × Disk) : Prop :=
  Mapped d.volume T inum i r.2.2.volume r.2.1 ∧ r.1 = blockOf r.2.2.volume r.2.1 bn ∧ r.1 ≠ 0

theorem bmapDirect_maps (h : Held d.volume T inum i) {bn : Nat} (hbn : bn < ndirectDataBlocks) :
    Meets (Maps d T inum i bn) (fun _ => True) (bmapDirect bn i d) := by
  have hslot : slotOf bn = Slot.addr bn := if_pos hbn
  unfold bmapDirect
  split
  · rename_i hempty
    apply Meets.bind ((balloc_meets h.laidOut).mono (fun _ hr => hr) (fun _ _ => True.intro))
    intro r hr
    rcases hr with ⟨k, hk, hfree, hr⟩
    rw [hr]
    have hmapped := h.assignAddr (Nat.lt_succ_of_lt hbn) hempty hk hfree
    have hslots := h.slotAddr_assignAddr (Nat.lt_succ_of_lt hbn) hempty hk hfree
    refine ⟨mapped_relog hmapped rfl rfl, ?_, h.laidOut.dataBlock_ne_zero hk⟩
    have haddr := hslots (Slot.addr bn)
    rw [if_pos rfl, ← hslot] at haddr
    exact haddr.symm
  · rename_i hne
    refine ⟨Mapped.refl h.owned, ?_, hne⟩
    rw [blockOf_direct _ _ hbn]

theorem bmapIndirect_maps (h : Held d.volume T inum i) :
    Meets (fun r => Mapped d.volume T inum i r.2.volume r.1 ∧ r.1.indirect ≠ 0)
      (fun _ => True) (bmapIndirect i d) := by
  unfold bmapIndirect
  split
  · rename_i hempty
    apply Meets.bind ((balloc_meets h.laidOut).mono (fun _ hr => hr) (fun _ _ => True.intro))
    intro r hr
    rcases hr with ⟨k, hk, hfree, hr⟩
    rw [hr]
    have hmapped := h.assignAddr (Nat.lt_succ_self ndirectDataBlocks) hempty hk hfree
    refine And.intro (mapped_relog hmapped rfl rfl) ?_
    show (i.setAddr ndirectDataBlocks (d.volume.sb.dataBlock k)).indirect ≠ 0
    rw [Inode.indirect_setAddr_self]
    exact h.laidOut.dataBlock_ne_zero hk
  · rename_i hne
    exact And.intro (Mapped.refl h.owned) hne

theorem bmapEntry_maps (h : Held d.volume T inum i) {bn : Nat} (hge : ndirectDataBlocks ≤ bn)
    (hind : i.indirect ≠ 0) :
    Meets (fun r => bn < maxDataBlocks ∧ Maps d T inum i bn r) (fun _ => True)
      (bmapEntry (bn - ndirectDataBlocks) i d) := by
  have hmax : maxDataBlocks = ndirectDataBlocks + nindirectDataBlocks := rfl
  unfold bmapEntry
  dsimp only
  split
  · rename_i hlt
    refine Meets.mono (P := fun r => Maps d T inum i bn r) ?_ (fun r hr => And.intro (by lia) hr)
      (fun _ he => he)
    split
    · rename_i hempty
      apply Meets.bind ((balloc_meets h.laidOut).mono (fun _ hr => hr) (fun _ _ => True.intro))
      intro r hr
      rcases hr with ⟨k, hk, hfree, hr⟩
      rw [hr]
      have hmapped := h.assignEntry hlt hind hempty hk hfree
      have hslots := slotAddr_takeEntry (v := d.volume) (k := k) hge (by lia) hind
      have hblk := (h.indirect_inUse hind).blk_take h.laidOut hk hfree
      refine ⟨mapped_relog hmapped rfl ?_, ((hslots (slotOf bn)).trans (if_pos rfl)).symm,
        h.laidOut.dataBlock_ne_zero hk⟩
      unfold Inode.entered Inode.setEntry
      rw [hblk]
      rfl
    · rename_i hne
      refine ⟨Mapped.refl h.owned, ?_, hne⟩
      rw [blockOf_entry _ hge hind]
      rfl
  · exact True.intro

theorem bmap_maps (h : Held d.volume T inum i) (bn : UInt32) :
    Meets (fun r => bn.toNat < maxDataBlocks ∧ Maps d T inum i bn.toNat r) (fun _ => True)
      (bmap bn i d) := by
  have hmax : ndirectDataBlocks ≤ maxDataBlocks := Nat.le_add_right _ _
  unfold bmap
  split
  · rename_i hdirect
    apply (bmapDirect_maps h hdirect).mono
    · exact fun r hr => And.intro (Nat.lt_of_lt_of_le hdirect hmax) hr
    · exact fun _ he => he
  · rename_i hdirect
    have hge := Nat.le_of_not_lt hdirect
    apply Meets.bind (bmapIndirect_maps h)
    intro r hr
    rcases r with ⟨i', d'⟩
    rcases hr with ⟨hmapped, hind⟩
    dsimp only at hmapped hind ⊢
    rw [toNat_behind rfl hge]
    apply (bmapEntry_maps (h.moved hmapped.toMoved) hge hind).mono
    · intro r hr
      rcases hr with ⟨hlt, hnext, haddr⟩
      exact ⟨hlt, hmapped.trans hnext, haddr⟩
    · exact fun _ he => he

end Map

/-!
# Appending
-/

section Append

variable {d : Disk} {T : Table} {inum : UInt32} {i : Dinode}

/-- The bytes of a range of the file were stored; nothing else of any file has changed. -/
def Puts (d : Disk) (T : Table) (inum : UInt32) (i : Dinode) (offset len : Nat) (src : Memory)
    (r : Dinode × Disk) : Prop :=
  Moved d.volume T inum i r.2.volume r.1 ∧ Spliced d.volume i r.2.volume r.1 offset len src

theorem appendRound_puts (h : Held d.volume T inum i) (src : Memory) {m offset : UInt32}
    (hm : m.toNat ≤ blockSize - offset.toNat % blockSize) :
    Meets (fun r => offset.toNat / blockSize < maxDataBlocks ∧
        Puts d T inum i offset.toNat m.toNat src r) (fun _ => True)
      (appendRound src m offset i d) := by
  have hconst : (UInt32.ofNat blockSize).toNat = blockSize := rfl
  have hbn : (offset / UInt32.ofNat blockSize).toNat = offset.toNat / blockSize := by
    rw [UInt32.toNat_div, hconst]
  have hat : (offset % UInt32.ofNat blockSize).toNat = offset.toNat % blockSize := by
    rw [UInt32.toNat_mod, hconst]
  have hmap := bmap_maps h (offset / UInt32.ofNat blockSize)
  rw [hbn] at hmap
  unfold appendRound
  apply Meets.bind hmap
  intro r hr
  rcases r with ⟨addr, i', d'⟩
  rcases hr with ⟨hlt, hmapped, haddr, hne⟩
  dsimp only at hmapped haddr hne ⊢
  rw [haddr] at hne ⊢
  have hheld := h.moved hmapped.toMoved
  have hstored := hheld.storeData hne
    ((d'.blk (blockOf d'.volume i' (offset.toNat / blockSize))).copyIn
      (offset.toNat % blockSize) m.toNat src)
  have hspliced := hheld.spliced_round hne hm src
  rw [hat]
  refine ⟨hlt, hmapped.toMoved.trans (moved_relog hstored rfl rfl), ?_⟩
  exact Spliced.of_mapped hmapped (spliced_relog hspliced rfl rfl)

/-- What the loop leaves: the end of the file, and the bytes up to it. -/
def AppendPuts (d : Disk) (T : Table) (inum : UInt32) (i : Dinode) (offset len : Nat)
    (src : Memory) (r : UInt32 × Dinode × Disk) : Prop :=
  r.1.toNat = offset + len ∧ offset + len ≤ maxFileSize ∧ Puts d T inum i offset len src r.2

theorem appendFrom_puts (h : Held d.volume T inum i) (fuel : Nat) (sz total offset : UInt32)
    (src : Memory) (hoff : offset.toNat ≤ maxFileSize) (hle : total.toNat ≤ sz.toNat)
    (hfuel : sz.toNat - total.toNat ≤ fuel) :
    Meets (AppendPuts d T inum i offset.toNat (sz.toNat - total.toNat) src) (fun _ => True)
      (appendFrom sz fuel src total offset i d) := by
  have hsize : blockSize = 512 := rfl
  have hmax : maxFileSize = maxDataBlocks * 512 := rfl
  have hblocks : maxDataBlocks = 139 := rfl
  have hend : sz.toNat - total.toNat = 0 ->
      AppendPuts d T inum i offset.toNat (sz.toNat - total.toNat) src (offset, i, d) := by
    intro hzero
    rw [hzero]
    exact ⟨rfl, hoff, Moved.refl h.owned, Spliced.refl d.volume i _ src⟩
  induction fuel generalizing d i total offset src with
  | zero => exact hend (by lia)
  | succ fuel ih =>
      unfold appendFrom
      split
      · rename_i hlt
        have hlt' : total.toNat < sz.toNat := hlt
        have hmlen := toNat_roundLength offset hle
        dsimp only
        generalize roundLength sz total offset = m at hmlen ⊢
        apply Meets.bind (appendRound_puts h src (by lia))
        intro r hr
        rcases r with ⟨i', d'⟩
        rcases hr with ⟨hroom, hmoved, hspliced⟩
        dsimp only at hmoved hspliced ⊢
        have htotal : (total + m).toNat = total.toNat + m.toNat := by
          rw [UInt32.toNat_add]
          have hsz := sz.toNat_lt
          lia
        have hoffset : (offset + m).toNat = offset.toNat + m.toNat := by
          rw [UInt32.toNat_add]
          lia
        have hrest : sz.toNat - (total + m).toNat = sz.toNat - total.toNat - m.toNat := by lia
        have hlen : m.toNat + (sz.toNat - total.toNat - m.toNat) = sz.toNat - total.toNat := by
          lia
        have hheld := h.moved hmoved
        have hnext := ih hheld (total + m) (offset + m) (fun k => src (m.toNat + k)) (by lia)
          (by lia) (by lia) (by
            intro hzero
            rw [hzero]
            exact ⟨rfl, by lia, Moved.refl hheld.owned, Spliced.refl d'.volume i' _ _⟩)
        rw [hoffset, hrest] at hnext
        apply hnext.mono
        · intro r hr
          rcases hr with ⟨hfinish, hsmall, hmoved', hspliced'⟩
          have hjoin := hspliced.trans hspliced'
          rw [hlen] at hjoin
          exact ⟨by lia, by lia, hmoved.trans hmoved', hjoin⟩
        · exact fun _ he => he
      · rename_i hge
        have hge' : Not (total.toNat < sz.toNat) := hge
        exact hend (by lia)

end Append

/-!
# Files
-/

/-- The inode has the type and so many links, and the kernel reads these bytes from it. -/
structure Reads (d : Disk) (inum : UInt32) (typ : InodeType) (nlink : UInt32)
    (c : List UInt8) : Prop where
  inside : inum < d.sb.ninodes
  inUse : typ ≠ InodeType.none
  type : (iread d inum).type = typ.code
  nlink : (iread d inum).nlink = nlink
  bytes : contents d.volume (iread d inum) = c

section Reads

variable {d d' : Disk} {inum j nlink : UInt32} {typ : InodeType} {c : List UInt8}

theorem InodeType.code_ne_none (h : typ ≠ InodeType.none) : typ.code ≠ InodeType.none.code := by
  cases typ with
  | none => exact absurd rfl h
  | _ => decide

theorem Reads.live (h : Reads d inum typ nlink c) :
    Live d.volume (Inode.dinodeAt d.volume) inum := by
  constructor
  · exact h.inside
  · show (iread d inum).type ≠ InodeType.none.code
    rw [h.type]
    exact InodeType.code_ne_none h.inUse

theorem Reads.size (h : Reads d inum typ nlink c) : (iread d inum).size.toNat = c.length := by
  rw [← h.bytes]
  exact (Inode.length_contents _ _).symm

theorem Reads.stepped (h : Reads d j typ nlink c) (hs : Stepped d.volume inum d'.volume)
    (hne : j ≠ inum) : Reads d' j typ nlink c := by
  have hread : iread d' j = iread d j := hs.table j h.inside hne
  have hsb : d'.volume.sb.ninodes = d.volume.sb.ninodes := by rw [hs.sb]
  have hninodes : d'.sb.ninodes = d.sb.ninodes := hsb
  constructor
  · rw [hninodes]
    exact h.inside
  · exact h.inUse
  · rw [hread]
    exact h.type
  · rw [hread]
    exact h.nlink
  · rw [hread, ← h.bytes]
    exact hs.others j h.live hne

theorem stepped_trans {v w x : Volume} (h1 : Stepped v inum w) (h2 : Stepped w inum x) :
    Stepped v inum x where
  sb := h2.sb.trans h1.sb
  sound := h2.sound
  table := by
    intro j hj hne
    rw [h2.table j (by rw [h1.sb]; exact hj) hne]
    exact h1.table j hj hne
  others := by
    intro j hj hne
    have hread := h1.table j hj.left hne
    have hlive : Live w (Inode.dinodeAt w) j := by
      constructor
      · rw [h1.sb]
        exact hj.left
      · rw [hread]
        exact hj.right
    have hothers := h2.others j hlive hne
    rw [hread] at hothers
    exact hothers.trans (h1.others j hj hne)

/-- The inode that `ialloc` takes. -/
structure FirstFree (d : Disk) (inum : UInt32) : Prop where
  one_le : 1 ≤ inum
  inside : inum < d.sb.ninodes
  free : (iread d inum).type = InodeType.none.code
  first : forall j : UInt32, 1 ≤ j -> j < inum -> (iread d j).type ≠ InodeType.none.code

theorem splice_length (c data : List UInt8) : splice c data c.length = c ++ data := by
  unfold splice
  rw [List.take_length, List.drop_eq_nil_of_le (Nat.le_add_right _ _), List.append_nil]

theorem iappend_reads (hs : Sound d.volume) (h : Reads d inum typ nlink c) (src : Memory)
    (sz : UInt32) :
    Meets (fun d' => Stepped d.volume inum d'.volume ∧
        Reads d' inum typ nlink (c ++ sourceBytes src sz.toNat)) (fun _ => True)
      (iappend inum src sz d) := by
  have hzero : (0 : UInt32).toNat = 0 := rfl
  have hfilled : Inode.Filled d.volume (iread d inum) := hs.filled inum h.live
  have hheld : Held d.volume (Inode.dinodeAt d.volume) inum (iread d inum) := hs.held h.live
  have hrun := appendFrom_puts hheld sz.toNat sz 0 (iread d inum).size src hfilled.bounded
    (Nat.zero_le _) (Nat.sub_le _ _)
  rw [hzero, Nat.sub_zero] at hrun
  unfold iappend
  apply Meets.bind hrun
  intro r hr
  rcases r with ⟨offset, i, w⟩
  rcases hr with ⟨hend, hsmall, hmoved, hspliced⟩
  dsimp only at hend hmoved hspliced ⊢
  have hsize : ({ i with size := offset } : Dinode).size.toNat =
      max (iread d inum).size.toNat ((iread d inum).size.toNat + sz.toNat) := by
    show offset.toNat = _
    lia
  have hgrown := hspliced.filled (f := { i with size := offset }) hfilled (Nat.le_refl _) rfl
    hsize hsmall
  have hdone := Inode.updated_stepped hs hmoved (hheld.moved hmoved)
    (f := { i with size := offset }) rfl rfl hgrown
  have hcontents := hspliced.contents_eq (f := { i with size := offset }) hfilled (Nat.le_refl _)
    rfl hsize
  have hread := iread_iwrite_self { i with size := offset } inum w
  have hninodes : w.volume.sb.ninodes = d.volume.sb.ninodes := by rw [hmoved.sb]
  constructor
  · exact stepped_relog hdone.left rfl rfl
  · constructor
    · show inum < w.volume.sb.ninodes
      rw [hninodes]
      exact h.inside
    · exact h.inUse
    · rw [hread]
      exact hmoved.type_eq.trans h.type
    · rw [hread, ← h.nlink]
      show i.nlink = _
      rw [hmoved.fields]
    · rw [hread]
      have hlen := Inode.length_contents d.volume (iread d inum)
      have hbytes := hdone.right.trans hcontents
      rw [← hlen, splice_length] at hbytes
      rw [← h.bytes]
      exact hbytes

/-- A field other than the type, the size and the addresses is stored. -/
theorem iwrite_reads (hs : Sound d.volume) (h : Reads d inum typ nlink c) {i : Dinode}
    (haddrs : i.addrs = (iread d inum).addrs) (hsize : i.size = (iread d inum).size)
    (htype : i.type = (iread d inum).type) :
    Stepped d.volume inum (iwrite i inum d).volume ∧
      Reads (iwrite i inum d) inum typ i.nlink c := by
  have hheld := hs.held h.live
  have hfilled := hs.filled inum h.live
  have hslots := slotAddr_congr_addrs (v := d.volume) haddrs
  have hsame : Inode.Filled d.volume i := by
    constructor
    · intro bn hbn
      rw [hsize] at hbn
      have hne := hfilled.mapped bn hbn
      rw [blockOf] at hne ⊢
      rw [hslots]
      exact hne
    · rw [hsize]
      exact hfilled.bounded
  have hdone := Inode.updated_stepped hs (Moved.refl hheld.owned) hheld haddrs htype hsame
  have hread := iread_iwrite_self i inum d
  constructor
  · exact stepped_relog hdone.left rfl rfl
  · constructor
    · exact h.inside
    · exact h.inUse
    · rw [hread, htype]
      exact h.type
    · rw [hread]
    · rw [hread, ← h.bytes]
      refine hdone.right.trans ?_
      unfold Inode.contents byteAt blockOf
      rw [hsize]
      simp only [hslots]

/-- `create_file` takes the first free inode for an empty file. -/
theorem createInode_reads (hs : Sound d.volume) (major minor : Int32)
    (htyp : typ ≠ InodeType.none) :
    Meets (fun r => FirstFree d r.1 ∧ Stepped d.volume r.1 r.2.volume ∧ Reads r.2 r.1 typ 1 [])
      (fun _ => True) (createInode major minor typ d) := by
  have hlow : forall j : UInt32, 1 ≤ j -> j < 1 -> (iread d j).type ≠ InodeType.none.code :=
    fun j hj1 hj2 => absurd hj2 (UInt32.not_lt.mpr hj1)
  unfold createInode ialloc
  apply Meets.bind ((iallocFrom_meets typ _ (UInt32.le_refl 1) (Nat.le_add_left _ _) hlow).mono
    (fun _ hr => hr) (fun _ _ => True.intro))
  intro r hr
  rcases r with ⟨inum, d'⟩
  rcases hr with ⟨hone, hin, hnone, hd', hfirst⟩
  dsimp only at hone hin hnone hd' hfirst ⊢
  have hfresh : Stepped d.volume inum (iwrite (Dinode.fresh typ) inum d).volume :=
    stepped_relog (hs.fresh_stepped hin hnone typ) rfl rfl
  have hread := iread_iwrite_self (Dinode.fresh typ) inum d
  have hreads : Reads (iwrite (Dinode.fresh typ) inum d) inum typ 0 [] := by
    constructor
    · exact hin
    · exact htyp
    · rw [hread]
      rfl
    · rw [hread]
      rfl
    · rw [hread]
      rfl
  rw [hd']
  have hdone := iwrite_reads hfresh.sound hreads (i :=
    { iread (iwrite (Dinode.fresh typ) inum d) inum with
      nlink := 1, major := major, minor := minor, size := 0 }) rfl (by rw [hread]; rfl) rfl
  exact ⟨⟨hone, hin, hnone, hfirst⟩, stepped_trans hfresh hdone.left, hdone.right⟩

end Reads

end Mkfs
end NicoOS
