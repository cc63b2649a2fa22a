import NicoOS.Fs.Inode.Contents

/-!
# The inode table on the disk

Storing an inode changes its place in the table and nothing else; an image is
sound if the table on it owns the blocks that the bitmap marks.
-/

namespace NicoOS
namespace Fs
namespace Inode

open Lib
open Log (Block LogHeader)

/-!
# Packed inodes
-/

theorem word_writeDinode_self (data : Block) {k i : Nat} (d : Dinode) (hk : k < inodesPerBlock)
    (hi : i < 17) : (writeDinode data k d).word (dinodeSize * k + 4 * i) = d.wordAt i := by
  have hsize : dinodeSize = 68 := rfl
  have hper : inodesPerBlock = 7 := rfl
  have hblock : blockSize = 512 := rfl
  unfold writeDinode
  rw [Bytes.word_copyIn_inside _ _ (by lia) (by lia), Memory.word_ofWords, UInt32.ofNat_toNat]

theorem word_writeDinode_of_ne (data : Block) {j k i : Nat} (d : Dinode) (hne : j ≠ k)
    (hi : i < 17) : (writeDinode data k d).word (dinodeSize * j + 4 * i) =
      data.word (dinodeSize * j + 4 * i) := by
  have hsize : dinodeSize = 68 := rfl
  apply Bytes.word_copyIn_outside
  lia

theorem readDinode_writeDinode_self (data : Block) {k : Nat} (d : Dinode)
    (hk : k < inodesPerBlock) : readDinode (writeDinode data k d) k = d := by
  have hword := fun i hi => word_writeDinode_self data d hk (i := i) hi
  apply Dinode.ext
  · exact hword 0 (by lia)
  · exact hword 1 (by lia)
  · exact hword 2 (by lia)
  · exact congrArg UInt32.toInt32 (hword 3 (by lia))
  · exact congrArg UInt32.toInt32 (hword 4 (by lia))
  · funext j
    have hdirect : ndirectDataBlocks = 11 := rfl
    have hj := j.isLt
    have haddr : d.wordAt (j.val + 5) = d.addrs j := dif_pos hj
    rw [← haddr]
    exact hword (j.val + 5) (by lia)

theorem readDinode_writeDinode_of_ne (data : Block) {j k : Nat} (d : Dinode) (hne : j ≠ k) :
    readDinode (writeDinode data k d) j = readDinode data j := by
  have hword := fun i hi => word_writeDinode_of_ne data d hne (i := i) hi
  apply Dinode.ext
  · exact hword 0 (by lia)
  · exact hword 1 (by lia)
  · exact hword 2 (by lia)
  · exact congrArg UInt32.toInt32 (hword 3 (by lia))
  · exact congrArg UInt32.toInt32 (hword 4 (by lia))
  · funext i
    have hdirect : ndirectDataBlocks = 11 := rfl
    have hi := i.isLt
    exact hword (i.val + 5) (by lia)

/-!
# Places in the table
-/

section Table

variable {v : Volume}

theorem placeInBlock_lt (inum : UInt32) : placeInBlock inum < inodesPerBlock := by
  have hconst : (UInt32.ofNat inodesPerBlock).toNat = 7 := rfl
  have hper : inodesPerBlock = 7 := rfl
  unfold placeInBlock
  rw [UInt32.toNat_mod, hconst, hper]
  lia

theorem toNat_getInodeBlockNo (h : v.sb.LaidOut) {inum : UInt32} (hin : inum < v.sb.ninodes) :
    (getInodeBlockNo v.sb inum).toNat = v.sb.inodeStart.toNat + inum.toNat / 7 := by
  have hconst : (UInt32.ofNat inodesPerBlock).toNat = 7 := rfl
  have hper : inodesPerBlock = 7 := rfl
  have hend := h.inode_finish
  have hlt : inum.toNat < v.sb.ninodes.toNat := hin
  unfold roundUp at hend
  unfold getInodeBlockNo
  rw [UInt32.toNat_add, UInt32.toNat_div, hconst]
  lia

theorem inodeBlock_mem (h : v.sb.LaidOut) {inum : UInt32} (hin : inum < v.sb.ninodes) :
    v.sb.inodeRegion.Mem (getInodeBlockNo v.sb inum).toNat := by
  have hper : inodesPerBlock = 7 := rfl
  have hlt : inum.toNat < v.sb.ninodes.toNat := hin
  unfold Region.Mem Region.finish Superblock.inodeRegion roundUp
  rw [toNat_getInodeBlockNo h hin]
  lia

/-- Two inodes with the same place in the same block are one. -/
theorem place_inj (h : v.sb.LaidOut) {i j : UInt32} (hi : i < v.sb.ninodes)
    (hj : j < v.sb.ninodes) (hblock : getInodeBlockNo v.sb i = getInodeBlockNo v.sb j)
    (hplace : placeInBlock i = placeInBlock j) : i = j := by
  have hconst : (UInt32.ofNat inodesPerBlock).toNat = 7 := rfl
  have hnat := congrArg UInt32.toNat hblock
  rw [toNat_getInodeBlockNo h hi, toNat_getInodeBlockNo h hj] at hnat
  unfold placeInBlock at hplace
  rw [UInt32.toNat_mod, UInt32.toNat_mod, hconst] at hplace
  apply UInt32.toNat_inj.mp
  lia

/-- The volume after an `inode_update` that returns. -/
def updated (v : Volume) (inum : UInt32) (d : Dinode) : Volume :=
  let b := getInodeBlockNo v.sb inum
  (v.store b (writeDinode (v.blk b) (placeInBlock inum) d)).logged b

theorem inodeUpdate_meets (inum : UInt32) (d : Dinode) (v : Volume) :
    Meets (fun w => w = updated v inum d) (LogStops v 1) (inodeUpdate inum d v) :=
  logWrite_store_meets _ _ v

@[simp] theorem updated_sb (v : Volume) (inum : UInt32) (d : Dinode) :
    (updated v inum d).sb = v.sb := rfl

theorem dinodeAt_updated_self (v : Volume) (inum : UInt32) (d : Dinode) :
    dinodeAt (updated v inum d) inum = d := by
  unfold dinodeAt updated
  rw [Volume.logged_sb, Volume.store_sb, Volume.logged_blk, Volume.store_blk_self]
  exact readDinode_writeDinode_self _ d (placeInBlock_lt inum)

theorem dinodeAt_updated_of_ne (h : v.sb.LaidOut) {inum j : UInt32} (d : Dinode)
    (hin : inum < v.sb.ninodes) (hj : j < v.sb.ninodes) (hne : j ≠ inum) :
    dinodeAt (updated v inum d) j = dinodeAt v j := by
  unfold dinodeAt updated
  rw [Volume.logged_sb, Volume.store_sb, Volume.logged_blk]
  cases Classical.em (getInodeBlockNo v.sb j = getInodeBlockNo v.sb inum) with
  | inl heq =>
      rw [heq, Volume.store_blk_self]
      apply readDinode_writeDinode_of_ne
      intro hplace
      exact hne (place_inj h hj hin heq hplace)
  | inr hdiff => rw [Volume.store_blk_of_ne v _ hdiff]

theorem updated_blk (h : v.sb.LaidOut) {inum : UInt32} (d : Dinode)
    (hin : inum < v.sb.ninodes) {b : UInt32} (hb : Not (v.sb.inodeRegion.Mem b.toNat)) :
    (updated v inum d).blk b = v.blk b := by
  apply Volume.store_blk_of_ne
  intro heq
  rw [heq] at hb
  exact hb (inodeBlock_mem h hin)

theorem dinodeAt_congr (h : v.sb.LaidOut) {w : Volume} (hsb : w.sb = v.sb)
    (hblk : forall b, v.sb.inodeRegion.Mem b.toNat -> w.blk b = v.blk b) {j : UInt32}
    (hj : j < v.sb.ninodes) : dinodeAt w j = dinodeAt v j := by
  unfold dinodeAt
  rw [hsb, hblk _ (inodeBlock_mem h hj)]

end Table

/-!
# Sound images
-/

/-- A consistent image: the table owns the blocks in use and no file has a hole. -/
structure Sound (v : Volume) : Prop where
  laidOut : v.sb.LaidOut
  owned : Owned v (dinodeAt v)
  filled : forall j, Live v (dinodeAt v) j -> Filled v (dinodeAt v j)

theorem Sound.held {v : Volume} (h : Sound v) {inum : UInt32} (hlive : Live v (dinodeAt v) inum) :
    Held v (dinodeAt v) inum (dinodeAt v inum) where
  laidOut := h.laidOut
  inside := hlive.left
  typed := hlive.right
  owned := by
    rw [Function.update_eq_self]
    exact h.owned

theorem Owned.congr_table {v : Volume} {T U : Table} (h : Owned v T)
    (hTU : forall j, j < v.sb.ninodes -> U j = T j) : Owned v U := by
  apply Exact.congr h
  · intro p
    apply refAddr_congr_slot
    · constructor
      · intro hl
        unfold Live at hl
        rw [hTU p.1 hl.left] at hl
        exact hl
      · intro hl
        unfold Live
        rw [hTU p.1 hl.left]
        exact hl
    · intro hl
      rw [hTU p.1 hl.left]
  · exact fun _ => Iff.rfl

/-- Size and link count of an inode do not matter for ownership. -/
theorem Owned.congr_addrs {v : Volume} {T : Table} {inum : UInt32} {d e : Dinode}
    (h : Owned v (Function.update T inum d)) (haddrs : e.addrs = d.addrs)
    (htype : e.type = d.type) : Owned v (Function.update T inum e) := by
  have haddr : forall i, e.addr i = d.addr i := by
    intro i
    unfold Dinode.addr
    rw [haddrs]
  have hslot : forall s, slotAddr v e s = slotAddr v d s := by
    intro s
    cases s with
    | addr i => exact haddr i
    | entry i =>
        have hind : e.indirect = d.indirect := haddr _
        rw [slotAddr, slotAddr, hind]
  apply Exact.congr h
  · intro p
    rcases p with ⟨j, s⟩
    cases Classical.em (j = inum) with
    | inl heq =>
        apply refAddr_congr_slot
        · unfold Live
          rw [heq, Function.update_self, Function.update_self, htype]
        · intro _
          rw [heq, Function.update_self, Function.update_self]
          exact hslot s
    | inr hne => rw [refAddr_update_of_ne e hne, refAddr_update_of_ne d hne]
  · exact fun _ => Iff.rfl

section Updated

variable {v : Volume} {T : Table} {inum : UInt32} {e : Dinode}

theorem updated_blk_inUse (h : v.sb.LaidOut) (hin : inum < v.sb.ninodes) (e : Dinode)
    {b : UInt32} (hb : InUse v b) : (updated v inum e).blk b = v.blk b := by
  apply updated_blk h e hin
  intro hmem
  exact h.inode_apart_data.not_mem hmem (hb.mem_data h)

theorem inUse_updated (h : v.sb.LaidOut) (hin : inum < v.sb.ninodes) (e : Dinode) (a : UInt32) :
    InUse (updated v inum e) a <-> InUse v a := by
  apply inUse_congr h
  · rfl
  · intro b hb
    apply updated_blk h e hin
    intro hmem
    exact h.inode_apart_bmap.not_mem hmem hb

theorem Owned.updated (h : Owned v T) (hl : v.sb.LaidOut) (hin : inum < v.sb.ninodes)
    (e : Dinode) : Owned (updated v inum e) T := by
  apply Exact.congr h
  · intro p
    apply refAddr_congr
    · rfl
    · intro hlive hind
      exact updated_blk_inUse hl hin e (h.indirect_inUse hlive hind)
  · exact inUse_updated hl hin e

/-- The blocks of an inode lie outside the table, so storing an inode keeps them. -/
theorem keepsBlocks_updated (h : v.sb.LaidOut) (hin : inum < v.sb.ninodes) (e : Dinode)
    {d : Dinode} (hslots : forall s, slotAddr v d s ≠ 0 -> InUse v (slotAddr v d s)) :
    KeepsBlocks v (Inode.updated v inum e) d d := by
  intro bn hbn
  constructor
  · apply slotAddr_congr
    intro hind
    exact updated_blk_inUse h hin e (hslots (Slot.addr ndirectDataBlocks) hind)
  · exact updated_blk_inUse h hin e (hslots _ hbn)

end Updated

/-- The blocks of a file without holes are kept, so its bytes are. -/
theorem KeepsBlocks.contents_eq {v w : Volume} {d : Dinode} (h : KeepsBlocks v w d d)
    (hf : Filled v d) : contents w d = contents v d := by
  have hsize : blockSize = 512 := rfl
  unfold contents
  apply List.map_congr_left
  intro i hi
  have hlt := List.mem_range.mp hi
  rcases h (i / blockSize) (hf.mapped _ (by lia)) with ⟨haddr, hblk⟩
  rw [byteAt, byteAt, haddr, hblk]

theorem KeepsBlocks.filled {v w : Volume} {d : Dinode} (h : KeepsBlocks v w d d)
    (hf : Filled v d) : Filled w d where
  mapped := by
    intro bn hbn
    rw [(h bn (hf.mapped bn hbn)).left]
    exact hf.mapped bn hbn
  bounded := hf.bounded

/-- A call on inode `inum` has ended: the image is sound and other files are as before. -/
structure Stepped (v : Volume) (inum : UInt32) (w : Volume) : Prop where
  sb : w.sb = v.sb
  sound : Sound w
  table : forall j, j < v.sb.ninodes -> j ≠ inum -> dinodeAt w j = dinodeAt v j
  others : forall j, Live v (dinodeAt v) j -> j ≠ inum ->
    contents w (dinodeAt v j) = contents v (dinodeAt v j)

theorem Sound.stepped {v w : Volume} (h : Sound v) {inum : UInt32} {f : Dinode}
    (hsb : w.sb = v.sb) (howned : Owned w (Function.update (dinodeAt v) inum f))
    (htable : forall j, j < v.sb.ninodes -> dinodeAt w j = Function.update (dinodeAt v) inum f j)
    (hfilled : f.type ≠ InodeType.none.code -> Filled w f)
    (hothers : forall j, Live v (dinodeAt v) j -> j ≠ inum ->
      KeepsBlocks v w (dinodeAt v j) (dinodeAt v j)) : Stepped v inum w where
  sb := hsb
  sound :=
    { laidOut := by
        rw [hsb]
        exact h.laidOut
      owned := howned.congr_table (fun j hj => htable j (by rw [← hsb]; exact hj))
      filled := by
        intro j hj
        have hlt : j < v.sb.ninodes := by
          rw [← hsb]
          exact hj.left
        have htype := hj.right
        rw [htable j hlt] at htype ⊢
        cases Classical.em (j = inum) with
        | inl heq =>
            rw [heq, Function.update_self] at htype ⊢
            exact hfilled htype
        | inr hne =>
            rw [Function.update_of_ne hne] at htype ⊢
            have hlive : Live v (dinodeAt v) j := And.intro hlt htype
            exact (hothers j hlive hne).filled (h.filled j hlive) }
  table := by
    intro j hj hne
    rw [htable j hj, Function.update_of_ne hne]
  others := fun j hj hne => (hothers j hj hne).contents_eq (h.filled j hj)

end Inode
end Fs
end NicoOS
