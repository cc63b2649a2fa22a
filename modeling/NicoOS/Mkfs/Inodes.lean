import NicoOS.Mkfs.Growth

/-!
# Inodes of `mkfs`

An inode is written without touching the other inodes or the blocks of any file.  A file
whose blocks are those below its size stays one when bytes are appended to it.
-/

namespace NicoOS
namespace Mkfs

open Lib
open Fs
open Fs.Log (Block)
open Fs.Inode (Dinode InodeType InUse Slot)

/-- Only inodes were stored to. -/
structure TableOnly (d d' : Disk) : Prop where
  sb : d'.sb = d.sb
  blk : forall b, Not (d.volume.sb.inodeRegion.Mem b.toNat) -> d'.blk b = d.blk b

section TableOnly

variable {d d' d'' : Disk} {i : Dinode} {m : Nat}

theorem TableOnly.trans (h1 : TableOnly d d') (h2 : TableOnly d' d'') : TableOnly d d'' where
  sb := h2.sb.trans h1.sb
  blk := by
    intro b hb
    rw [h2.blk b (by rw [volume_sb_of_sb h1.sb]; exact hb)]
    exact h1.blk b hb

theorem TableOnly.bmap (h : TableOnly d d') (hl : Formatted d) {b : UInt32}
    (hb : d.volume.sb.bmapRegion.Mem b.toNat) : d'.volume.blk b = d.volume.blk b :=
  h.blk b (fun hmem => hl.inode_apart_bmap.not_mem hmem hb)

theorem TableOnly.inUse (h : TableOnly d d') (hl : Formatted d) (a : UInt32) :
    InUse d'.volume a <-> InUse d.volume a :=
  Inode.inUse_congr hl (volume_sb_of_sb h.sb) (fun _ hb => h.bmap hl hb) a

theorem TableOnly.freeBits (h : TableOnly d d') (hl : Formatted d) :
    d'.volume.freeBits = d.volume.freeBits :=
  Volume.freeBits_congr hl.numbered (volume_sb_of_sb h.sb) (fun _ hb => h.bmap hl hb)

theorem TableOnly.used (h : TableOnly d d') (hl : Formatted d) {a : UInt32}
    (ha : InUse d.volume a) : d'.volume.blk a = d.volume.blk a :=
  h.blk a (fun hmem => hl.inode_apart_data.not_mem hmem (ha.mem_data hl))

theorem TableOnly.slotAddr (h : TableOnly d d') (hl : Formatted d) (hg : Grown d.volume i m)
    (s : Slot) : Inode.slotAddr d'.volume i s = Inode.slotAddr d.volume i s :=
  Inode.slotAddr_congr i (fun hind => h.used hl (hg.indirect_inUse hind)) s

theorem TableOnly.whole (h : TableOnly d d') (hl : Formatted d) (hw : Whole d.volume i m) :
    Whole d'.volume i m :=
  hw.congr (h.slotAddr hl hw.toGrown) (fun a ha => (h.inUse hl a).mpr ha)

/-- The inode of a file is written with the addresses it has. -/
theorem TableOnly.widens (h : TableOnly d d') (hl : Formatted d) (hg : Grown d.volume i m)
    {j : Dinode} (haddrs : j.addrs = i.addrs) : Widens d.volume i d'.volume j where
  use := fun a ha => (h.inUse hl a).mpr ha
  confined := fun _ hb _ => h.used hl hb
  owns := fun s _ => ⟨s, (slotAddr_congr_addrs haddrs s).trans (h.slotAddr hl hg s)⟩

theorem tableOnly_iwrite (hl : Formatted d) (i : Dinode) {inum : UInt32}
    (hin : inum < d.sb.ninodes) : TableOnly d (iwrite i inum d) where
  sb := rfl
  blk := fun _ hb => Inode.updated_blk hl i hin hb

theorem iread_iwrite_self (i : Dinode) (inum : UInt32) (d : Disk) :
    iread (iwrite i inum d) inum = i :=
  Inode.dinodeAt_updated_self d.volume inum i

theorem iread_iwrite_of_ne (hl : Formatted d) (i : Dinode) {inum j : UInt32}
    (hin : inum < d.sb.ninodes) (hj : j < d.sb.ninodes) (hne : j ≠ inum) :
    iread (iwrite i inum d) j = iread d j :=
  Inode.dinodeAt_updated_of_ne hl i hin hj hne

/-- Growing a file does not change the inodes of the image. -/
theorem Spent.iread {c n : Nat} {i' : Dinode} (h : Spent d i c d' i' n) (hl : Formatted d)
    {j : UInt32} (hj : j < d.sb.ninodes) : iread d' j = iread d j :=
  Inode.dinodeAt_congr hl (volume_sb_of_sb h.sb) h.inodes hj

end TableOnly

/-!
# New inodes
-/

def FreeInode (d : Disk) : Prop :=
  exists inum : UInt32, 1 ≤ inum ∧ inum < d.sb.ninodes ∧
    (iread d inum).type = InodeType.none.code

/-- A free inode became an empty file. -/
structure Created (d : Disk) (typ : InodeType) (inum : UInt32) (d' : Disk) : Prop
    extends TableOnly d d' where
  inside : inum < d.sb.ninodes
  free : (iread d inum).type = InodeType.none.code
  type : (iread d' inum).type = typ.code
  size : (iread d' inum).size = 0
  addrs : forall j, (iread d' inum).addr j = 0
  others : forall j, j < d.sb.ninodes -> j ≠ inum -> iread d' j = iread d j

section Create

variable {d : Disk}

theorem not_freeInode {inum : UInt32} (hge : Not (inum < d.sb.ninodes))
    (hlow : forall j : UInt32, 1 ≤ j -> j < inum -> (iread d j).type ≠ InodeType.none.code) :
    Not (FreeInode d) := by
  intro hfree
  rcases hfree with ⟨j, hj1, hj2, hnone⟩
  exact hlow j hj1 (UInt32.lt_of_lt_of_le hj2 (UInt32.not_lt.mp hge)) hnone

theorem iallocFrom_meets (typ : InodeType) (fuel : Nat) {inum : UInt32}
    (hone : 1 ≤ inum) (hfuel : d.sb.ninodes.toNat ≤ inum.toNat + fuel)
    (hlow : forall j : UInt32, 1 ≤ j -> j < inum -> (iread d j).type ≠ InodeType.none.code) :
    Meets (fun r => 1 ≤ r.1 ∧ r.1 < d.sb.ninodes ∧ (iread d r.1).type = InodeType.none.code ∧
        r.2 = iwrite (Dinode.fresh typ) r.1 d ∧
        forall j : UInt32, 1 ≤ j -> j < r.1 -> (iread d j).type ≠ InodeType.none.code)
      (fun e => e = Stop.exit ∧ Not (FreeInode d)) (iallocFrom typ d fuel inum) := by
  induction fuel generalizing inum with
  | zero =>
      have hge : Not (inum < d.sb.ninodes) := by
        intro hlt
        have hlt' : inum.toNat < d.sb.ninodes.toNat := hlt
        lia
      exact And.intro rfl (not_freeInode hge hlow)
  | succ fuel ih =>
      unfold iallocFrom
      split
      · rename_i hlt
        split
        · rename_i hnone
          exact ⟨hone, hlt, hnone, rfl, hlow⟩
        · rename_i htyped
          have hlt' : inum.toNat < d.sb.ninodes.toNat := hlt
          have hconst : (1 : UInt32).toNat = 1 := rfl
          have hnext : (inum + 1).toNat = inum.toNat + 1 := by
            have hbound := d.sb.ninodes.toNat_lt
            rw [UInt32.toNat_add, hconst]
            lia
          apply ih
          · apply UInt32.le_iff_toNat_le.mpr
            rw [hnext]
            exact Nat.le_add_left _ _
          · lia
          · intro j hj1 hj2
            cases Classical.em (j = inum) with
            | inl heq =>
                rw [heq]
                exact htyped
            | inr hne =>
                apply hlow j hj1
                have hnat : j.toNat < (inum + 1).toNat := hj2
                have hne' : j.toNat ≠ inum.toNat := fun heq => hne (UInt32.toNat_inj.mp heq)
                exact UInt32.lt_iff_toNat_lt.mpr (by lia)
      · rename_i hge
        exact And.intro rfl (not_freeInode hge hlow)

theorem createInode_meets (hl : Formatted d) (major minor : Int32) (typ : InodeType) :
    Meets (fun r => 1 ≤ r.1 ∧ Created d typ r.1 r.2)
      (fun e => e = Stop.exit ∧ Not (FreeInode d)) (createInode major minor typ d) := by
  have hlow : forall j : UInt32, 1 ≤ j -> j < 1 -> (iread d j).type ≠ InodeType.none.code :=
    fun j hj1 hj2 => absurd hj2 (UInt32.not_lt.mpr hj1)
  unfold createInode ialloc
  apply Meets.bind (iallocFrom_meets typ _ (UInt32.le_refl 1) (Nat.le_add_left _ _) hlow)
  intro r hr
  rcases r with ⟨inum, d'⟩
  rcases hr with ⟨hone, hin, hnone, hd', -⟩
  dsimp only at hone hin hnone hd'
  rw [hd']
  dsimp only
  rw [iread_iwrite_self]
  have hfirst := tableOnly_iwrite hl (Dinode.fresh typ) hin
  have hself := iread_iwrite_self { Dinode.fresh typ with
    nlink := 1, major := major, minor := minor, size := 0 } inum
    (iwrite (Dinode.fresh typ) inum d)
  constructor
  · exact hone
  · constructor
    · exact hfirst.trans (tableOnly_iwrite (hl.congr hfirst.sb) _ hin)
    · exact hin
    · exact hnone
    · rw [hself]
      rfl
    · rw [hself]
    · intro j
      rw [hself]
      unfold Dinode.addr
      split
      · rfl
      · rfl
    · intro j hj hne
      rw [iread_iwrite_of_ne (hl.congr hfirst.sb) _ hin hj hne]
      exact iread_iwrite_of_ne hl _ hin hj hne

end Create

/-!
# Appending
-/

/-- A file whose blocks are those below its size, which the kernel could have written. -/
structure Stored (d : Disk) (inum : UInt32) : Prop where
  inside : inum < d.sb.ninodes
  small : (iread d inum).size.toNat ≤ maxFileSize
  whole : Whole d.volume (iread d inum) (blocksOf (iread d inum).size.toNat)

/-- A directory that `mkfs` made. -/
structure Directory (d : Disk) (inum : UInt32) : Prop extends Stored d inum where
  typed : (iread d inum).type ≠ InodeType.none.code

def Disk.free (d : Disk) : Nat := d.volume.freeBits.card

/-- The file ends at `finish`, and no other inode changed. -/
structure Appended (d : Disk) (inum : UInt32) (finish : Nat) (d' : Disk) : Prop where
  sb : d'.sb = d.sb
  stored : Stored d' inum
  size : (iread d' inum).size.toNat = finish
  type : (iread d' inum).type = (iread d inum).type
  paid : d'.free + growCost (blocksOf (iread d inum).size.toNat) (blocksOf finish) = d.free
  others : forall j, j < d.sb.ninodes -> j ≠ inum -> iread d' j = iread d j
  widens : Widens d.volume (iread d inum) d'.volume (iread d' inum)

section Append

variable {d d' : Disk} {inum : UInt32}

theorem stored_of_empty (hin : inum < d.sb.ninodes) (hsize : (iread d inum).size = 0)
    (haddrs : forall j, (iread d inum).addr j = 0) : Stored d inum where
  inside := hin
  small := by
    rw [hsize]
    exact Nat.zero_le _
  whole := by
    rw [hsize]
    exact whole_of_empty _ haddrs

theorem Created.present {typ : InodeType} (h : Created d typ inum d') :
    inum < d'.sb.ninodes := by
  rw [h.sb]
  exact h.inside

theorem Created.stored {typ : InodeType} (h : Created d typ inum d') : Stored d' inum :=
  stored_of_empty h.present h.size h.addrs

theorem Created.free_eq {typ : InodeType} (h : Created d typ inum d') (hl : Formatted d) :
    d'.free = d.free :=
  congrArg Finset.card (h.freeBits hl)

theorem Stored.tableOnly (h : Stored d inum) (hl : Formatted d) (ht : TableOnly d d')
    (hread : iread d' inum = iread d inum) : Stored d' inum where
  inside := by
    rw [ht.sb]
    exact h.inside
  small := by
    rw [hread]
    exact h.small
  whole := by
    rw [hread]
    exact ht.whole hl h.whole

/-- Another number of links does not change the blocks of a file. -/
theorem Stored.update (h : Stored d inum) (hl : Formatted d) {i : Dinode}
    (haddrs : i.addrs = (iread d inum).addrs) (hsize : i.size = (iread d inum).size) :
    Stored (iwrite i inum d) inum where
  inside := h.inside
  small := by
    rw [iread_iwrite_self, hsize]
    exact h.small
  whole := by
    rw [iread_iwrite_self, hsize]
    exact ((tableOnly_iwrite hl i h.inside).whole hl h.whole).congr
      (slotAddr_congr_addrs haddrs) (fun _ ha => ha)

theorem iappend_meets (hl : Formatted d) (h : Stored d inum) (src : Memory) (sz : UInt32)
    {finish : Nat} (hfinish : finish = (iread d inum).size.toNat + sz.toNat) :
    Meets (fun d' => finish ≤ maxFileSize ∧ Appended d inum finish d')
      (AppendStops d (blocksOf (iread d inum).size.toNat) finish) (iappend inum src sz d) := by
  have hzero : (0 : UInt32).toNat = 0 := rfl
  unfold iappend
  apply Meets.bind (appendFrom_meets hl sz.toNat sz 0 (iread d inum).size src h.whole h.small
    (Nat.zero_le _) (Nat.sub_le _ _) (by rw [hzero, Nat.sub_zero]; exact hfinish))
  intro r hr
  rcases r with ⟨offset, i, w⟩
  rcases hr with ⟨hend, hsmall, hgrew⟩
  dsimp only at hend hgrew
  have hin : inum < w.sb.ninodes := by
    rw [hgrew.sb]
    exact h.inside
  have hlw := hl.congr hgrew.sb
  have htable := tableOnly_iwrite hlw { i with size := offset } hin
  have hself := iread_iwrite_self { i with size := offset } inum w
  have hwhole := htable.whole hlw hgrew.whole
  constructor
  · exact hsmall
  · constructor
    · exact hgrew.sb
    · constructor
      · exact hin
      · rw [hself]
        exact Nat.le_trans (Nat.le_of_eq hend) hsmall
      · rw [hself, hend]
        exact hwhole.congr (slotAddr_congr_addrs rfl) (fun _ ha => ha)
    · rw [hself]
      exact hend
    · rw [hself]
      exact hgrew.type
    · unfold Disk.free
      rw [htable.freeBits hlw]
      exact hgrew.paid
    · intro j hj hne
      have hj' : j < w.sb.ninodes := by
        rw [hgrew.sb]
        exact hj
      rw [iread_iwrite_of_ne hlw _ hin hj' hne]
      exact hgrew.iread hl hj
    · rw [hself]
      exact hgrew.widens.trans (htable.widens hlw hgrew.grown rfl)

/-- An entry with a short name is appended to the directory. -/
theorem dirLink_meets (hl : Formatted d) (h : Stored d inum) {name : List UInt8}
    (hshort : name.length < direntNameLength) (child : UInt32) (stack : Memory) {finish : Nat}
    (hfinish : finish = (iread d inum).size.toNat + direntSize) :
    Meets (fun d' => finish ≤ maxFileSize ∧ Appended d inum finish d')
      (AppendStops d (blocksOf (iread d inum).size.toNat) finish)
      (dirLink inum name child stack d) := by
  unfold dirLink
  rw [if_neg (Nat.not_le_of_lt hshort)]
  exact iappend_meets hl h _ _ hfinish

end Append

end Mkfs
end NicoOS
